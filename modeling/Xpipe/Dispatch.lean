import Xpipe.RequestEffects

/-!
# One round of the loop, connection by connection

A round on the entry `e` changes the connection of `e`, may take a free entry
for a client that was accepted, and leaves every other connection in use as it
is. The parts of the round are functions of the connection here: `readConn`,
`writeConn`, `deadConn` and `Settled`. `netStep_cases` says all that a step of
the server can do in these terms.
-/
namespace Xpipe
open Linked Runs

/-- What a round on `e` leaves alone, and what it may add: new connections in use are
clients. -/
structure Apart (e : ℕ) (s s' : Net) : Prop where
  kept : ∀ i ∈ s.taken, i ≠ e → i ∈ s'.taken ∧ s'.conns i = s.conns i
  new : ∀ i ∈ s'.taken, i ∉ s.taken →
    ∃ fd p, s'.conns i = (newConn fd p).armed .readOnly .recv

lemma Apart.trans {e : ℕ} {s s₁ s₂ : Net} (he : e ∈ s.taken) (h : Apart e s s₁)
    (h' : Apart e s₁ s₂) : Apart e s s₂ := by
  refine ⟨?_, ?_⟩
  · intro i hi hne
    obtain ⟨hi₁, hc₁⟩ := h.kept i hi hne
    obtain ⟨hi₂, hc₂⟩ := h'.kept i hi₁ hne
    exact ⟨hi₂, hc₂.trans hc₁⟩
  · intro i hi hn
    have hne : i ≠ e := by
      rintro rfl
      exact hn he
    by_cases hi₁ : i ∈ s₁.taken
    · rw [(h'.kept i hi₁ hne).2]
      exact h.new i hi₁ hn
    · exact h'.new i hi hi₁

/-- A round on `e`, or a part of it, in which the trace grew to `t`. -/
structure Around (e : ℕ) (s s' : Net) (t : Trace) : Prop extends Apart e s s' where
  log : s'.trace.log = t.log
  fresh : t.fresh ≤ s'.trace.fresh
  aborted : s'.trace.aborted = t.aborted
  bufSize : s'.bufSize = s.bufSize

lemma Around.trans {e : ℕ} {s s₁ s₂ : Net} {t : Trace} (he : e ∈ s.taken)
    (h : Around e s s₁ t) (h' : Around e s₁ s₂ s₁.trace) : Around e s s₂ t := by
  exact ⟨h.toApart.trans he h'.toApart, h'.log.trans h.log, h.fresh.trans h'.fresh,
    h'.aborted.trans h.aborted, h'.bufSize.trans h.bufSize⟩

/-- A change of the connection of `e` and of nothing else, but for the kernel, the
trace and the cursor. -/
lemma around_of_conns {e : ℕ} {s s' : Net} {t : Trace}
    (hconns : ∀ i, i ≠ e → s'.conns i = s.conns i) (htaken : s'.taken = s.taken)
    (htrace : s'.trace = t) (hsize : s'.bufSize = s.bufSize) : Around e s s' t := by
  refine ⟨⟨?_, ?_⟩, by rw [htrace], by rw [htrace], by rw [htrace], hsize⟩
  · intro i hi hne
    exact ⟨htaken ▸ hi, hconns i hne⟩
  · intro i hi hn
    exact absurd (htaken ▸ hi) hn

lemma Around.refl (e : ℕ) (s : Net) : Around e s s s.trace :=
  around_of_conns (fun _ _ => rfl) rfl rfl rfl

lemma setConn_of_ne {s : Net} {e i : ℕ} (c : Conn) (hne : i ≠ e) :
    (s.setConn e c).conns i = s.conns i := by
  simp [Net.setConn, Function.update_of_ne hne]

/-! ## Accepting -/

/-- On whatever path it returns, `tcp_server_accept` keeps the connections in use
and adds at most a client. -/
lemma tcpServerAccept_around {s : Net} {free act : List ℕ} {e : ℕ} (hw : Wired s free act)
    (he : e ∈ s.taken) (o : Outcomes) :
    Around e s (tcpServerAccept s o) s.trace ∧ (tcpServerAccept s o).conns e = s.conns e ∧
      e ∈ (tcpServerAccept s o).taken ∧ (tcpServerAccept s o).crashed = s.crashed := by
  rcases tcpServerAccept_cases s o with heq | ⟨fd, -, -, heq | ⟨f, s₂, hget, hcases⟩⟩
  · rw [heq]
    exact ⟨.refl e s, rfl, he, rfl⟩
  · rw [heq]
    exact ⟨around_of_conns (fun _ _ => rfl) rfl rfl rfl, rfl, he, rfl⟩
  unfold tcpGetConnection at hget
  split at hget
  · cases hget
  rename_i hhead
  split_ifs at hget
  cases hget
  -- the entry comes off the free list, so it is not in use
  have hf : f ∉ s.taken := by
    have hfree := hw.freeList
    rw [show s.connectionPool = some f from hhead] at hfree
    obtain ⟨free', rfl, -⟩ := hfree.head_some
    exact fun hin => hw.not_free hin (by simp)
  have hne {i : ℕ} (hi : i ∈ s.taken) : i ≠ f := by
    rintro rfl
    exact hf hi
  rcases hcases with hadd | heq
  · unfold addEvent at hadd
    split at hadd
    · cases hadd
    rw [← Option.some.inj hadd]
    refine ⟨⟨⟨fun i hi _ => ⟨by simp [Net.setConn, Net.opened, hi], ?_⟩, fun i hi hn => ?_⟩, rfl,
      ?_, rfl, rfl⟩, ?_, by simp [Net.setConn, Net.opened, he], rfl⟩
    · simp [Net.setConn, Net.opened, Function.update_of_ne (hne hi)]
    · obtain rfl : i = f := by simpa [Net.setConn, Net.opened, hn] using hi
      exact ⟨fd, s.trace.fresh, by simp [Net.setConn, Net.opened]⟩
    · simp [Net.setConn, Net.opened, Trace.createPool]
    · simp [Net.setConn, Net.opened, Function.update_of_ne (hne he)]
  · rw [heq]
    refine ⟨⟨⟨fun i hi _ => ⟨?_, ?_⟩, fun i hi hn => ?_⟩, ?_, ?_, ?_, rfl⟩, ?_, ?_, rfl⟩
    · simpa [tcpFreeConnection, Net.opened] using hi
    · simp [tcpFreeConnection, Net.opened, Function.update_of_ne (hne hi)]
    · exact absurd (by simpa [tcpFreeConnection, Net.opened] using hi) hn
    · simp [tcpFreeConnection, Net.opened, Trace.destroyAll, newConn, Trace.destroyPool,
        Trace.createPool]
    · simp [tcpFreeConnection, Net.opened, Trace.destroyAll, newConn, Trace.destroyPool,
        Trace.createPool]
    · simp [tcpFreeConnection, Net.opened, Trace.destroyAll, newConn, Trace.destroyPool,
        Trace.createPool]
    · simp [tcpFreeConnection, Net.opened, Function.update_of_ne (hne he)]
    · simpa [tcpFreeConnection, Net.opened] using he

/-! ## Connections between rounds and inside one -/

/-- A connection in use between two rounds. -/
structure Conn.Rested (c : Conn) : Prop where
  read : c.readEventHandler = some .accept ∨ c.readEventHandler = some .recv
  write : c.writeEventHandler = if c.events.write then some .send else none
  dead : c.deadEvents = .none
  add : c.addEvents = .none
  close : c.close = false

/-- A connection inside a round: unless it is to be closed, its write event is as
between two rounds, or is given up. -/
structure Conn.Busy (c : Conn) : Prop where
  read : c.readEventHandler = some .accept ∨ c.readEventHandler = some .recv
  handler : c.writeEventHandler = none ∨ c.writeEventHandler = some .send
  add : c.addEvents = .none ∨ c.addEvents = .writeOnly
  write : c.close = false →
    (c.deadEvents = .none ∧ c.writeEventHandler = if c.events.write then some .send else none) ∨
    (c.deadEvents = .writeOnly ∧ c.writeEventHandler = none)

lemma Conn.Rested.busy {c : Conn} (h : c.Rested) : c.Busy := by
  refine ⟨h.read, ?_, Or.inl h.add, fun _ => Or.inl ⟨h.dead, h.write⟩⟩
  rw [h.write]
  split_ifs
  · exact Or.inr rfl
  · exact Or.inl rfl

lemma rested_client (fd : ℤ) (p : ℕ) : ((newConn fd p).armed .readOnly .recv).Rested :=
  ⟨Or.inr rfl, rfl, rfl, rfl, rfl⟩

/-- The end of a complete send. -/
lemma Conn.Busy.complete {c : Conn} (h : c.Busy) (r : Option Request) : Conn.Busy
    { c with
      request := r
      deadEvents := if c.events.write then .writeOnly else c.deadEvents
      writeEventHandler := if c.events.write then none else c.writeEventHandler } := by
  by_cases hev : c.events.write = true
  · simp only [hev, if_true]
    exact ⟨h.read, Or.inl rfl, h.add, fun _ => Or.inr ⟨rfl, rfl⟩⟩
  · simp only [hev, if_false, Bool.false_eq_true]
    refine ⟨h.read, h.handler, h.add, fun hc => ?_⟩
    have hw := h.write hc
    simpa only [hev, if_false, Bool.false_eq_true] using hw

lemma Conn.Busy.send {c : Conn} (h : c.Busy) (ws : List WriteResult) :
    (tcpServerSend c ws).Busy := by
  unfold tcpServerSend
  split
  · exact h
  · simp only
    split
    · exact ⟨h.read, h.handler, Or.inr rfl, h.write⟩
    · exact ⟨h.read, h.handler, h.add, fun hc => Bool.noConfusion hc⟩
    · exact h.complete _

lemma Conn.Busy.finish {c : Conn} (h : c.Busy) (t : Trace) (r : Request) (ws : List WriteResult) :
    (tcpRequestFinish c t r ws).1.Busy := by
  rcases tcpRequestFinish_cases c t r ws with ⟨-, -, heq⟩ | ⟨-, -, heq⟩ | ⟨-, heq⟩ | ⟨-, -, heq⟩
  · rw [heq]
    exact ⟨h.read, h.handler, Or.inr rfl, h.write⟩
  · rw [heq]
    exact ⟨h.read, h.handler, Or.inr rfl, h.write⟩
  · rw [heq]
    exact ⟨h.read, h.handler, h.add, fun hc => Bool.noConfusion hc⟩
  · rw [heq]
    exact h.complete none

lemma Conn.Busy.recv {c : Conn} (h : c.Busy) (size e : ℕ) (t : Trace) (o : Outcomes) :
    (tcpServerRecv size e c t o).1.Busy := by
  rcases tcpServerRecv_cases size e c t o with ⟨-, heq⟩ | ⟨r, -, heq⟩
  · rw [heq]
    exact h
  rw [heq]
  rcases recvInto_cases e c (readerTrace c t o) r o with ⟨-, hcont⟩ | ⟨r', -, -, hfin⟩
  · have hframe := recvInto_frame e c (readerTrace c t o) r o
    refine ⟨by rw [hframe.readEventHandler]; exact h.read, by rw [hcont.handler]; exact h.handler,
      by rw [hcont.addEvents]; exact h.add, fun hc => ?_⟩
    rcases hcont.dead with ⟨hdead, hclose⟩ | ⟨-, hclose⟩
    · rw [hdead, hcont.handler, hframe.events]
      exact h.write (hclose ▸ hc)
    · rw [hclose] at hc
      cases hc
  · rw [hfin]
    have hbusy : Conn.Busy { c with request := some r } := ⟨h.read, h.handler, h.add, h.write⟩
    exact hbusy.finish _ r' _

/-! ## The parts of a round -/

/-- The read event, for the connection it is dispatched on. -/
def readConn (size e : ℕ) (c : Conn) (t : Trace) (o : Outcomes) : Conn × Trace :=
  if c.activeEvents.read = true ∧ c.readEventHandler = some .recv then tcpServerRecv size e c t o
  else (c, t)

/-- The write event, for the connection it is dispatched on. -/
def writeConn (c : Conn) (o : Outcomes) : Conn :=
  if c.activeEvents.write then tcpServerSend c o.writeWrites else c

/-- The connection after the dead events are gone. -/
def deadConn (c : Conn) : Conn :=
  { c with events := c.events.diff c.deadEvents, deadEvents := .none }

/-- What the release of a connection does to the trace, but for its pools. -/
lemma destroyAll_keeps (t : Trace) (c : Conn) :
    (t.destroyAll c).log = t.log ∧ (t.destroyAll c).fresh = t.fresh ∧
      (t.destroyAll c).aborted = (t.aborted || c.request.any Request.large) := by
  unfold Trace.destroyAll
  cases c.request <;> cases c.pool <;> simp [Trace.destroyRequest, Trace.destroyPool]

/-- The trace after the connection `c` was closed, if it is to be. -/
def Trace.closing (t : Trace) (c : Conn) : Trace := if c.close then t.destroyAll c else t

lemma closing_log (t : Trace) (c : Conn) : (t.closing c).log = t.log := by
  unfold Trace.closing
  split_ifs
  · exact (destroyAll_keeps t c).1
  · rfl

lemma closing_fresh (t : Trace) (c : Conn) : (t.closing c).fresh = t.fresh := by
  unfold Trace.closing
  split_ifs
  · exact (destroyAll_keeps t c).2.1
  · rfl

lemma closing_aborted (t : Trace) (c : Conn) :
    (t.closing c).aborted = (t.aborted || c.close && c.request.any Request.large) := by
  unfold Trace.closing
  cases hclose : c.close with
  | true => simpa using (destroyAll_keeps t c).2.2
  | false => simp

/-- The last part of a round, behind the others. -/
lemma Around.closes {e : ℕ} {s s₁ s₂ : Net} {t : Trace} {c : Conn} (he : e ∈ s.taken)
    (h : Around e s s₁ t) (h' : Around e s₁ s₂ (s₁.trace.closing c)) :
    Around e s s₂ (t.closing c) := by
  refine ⟨h.toApart.trans he h'.toApart, ?_, ?_, ?_, h'.bufSize.trans h.bufSize⟩
  · rw [h'.log, closing_log, closing_log, h.log]
  · have hfresh := h'.fresh
    rw [closing_fresh] at hfresh ⊢
    exact h.fresh.trans hfresh
  · rw [h'.aborted, closing_aborted, closing_aborted, h.aborted]

/-- The trace of a round on the entry `e` with the connection `c`: that of its read and,
unless a NULL write handler is called, of the close at its end. -/
def roundTrace (size e : ℕ) (c : Conn) (t : Trace) (o : Outcomes) : Trace :=
  let read := readConn size e c t o
  if c.activeEvents.write = true ∧ read.1.writeEventHandler = none then read.2
  else read.2.closing (deadConn (writeConn read.1 o))

/-- The connection `c` after the events it asked for were added, or were not. -/
def Settled (c c' : Conn) : Prop :=
  c' = { c with addEvents := .none } ∨
    c' = { c.armed c.addEvents .send with addEvents := .none }

lemma Conn.Busy.readConn {c : Conn} (h : c.Busy) (size e : ℕ) (t : Trace) (o : Outcomes) :
    (readConn size e c t o).1.Busy := by
  unfold Xpipe.readConn
  split_ifs
  · exact h.recv size e t o
  · exact h

lemma Conn.Busy.writeConn {c : Conn} (h : c.Busy) (o : Outcomes) : (writeConn c o).Busy := by
  unfold Xpipe.writeConn
  split_ifs
  · exact h.send o.writeWrites
  · exact h

/-- A connection that is not closed is rested at the end of the round. -/
lemma Conn.Busy.settle {c c' : Conn} (h : c.Busy) (hclose : c.close = false)
    (hset : Settled (deadConn c) c') : c'.Rested := by
  have hwrite : (deadConn c).writeEventHandler =
      if (deadConn c).events.write then some .send else none := by
    rcases h.write hclose with ⟨hdead, hh⟩ | ⟨hdead, hh⟩
    · simp [deadConn, hdead, hh, Mask.diff, Mask.none]
    · simp [deadConn, hdead, hh, Mask.diff, Mask.writeOnly]
  rcases hset with rfl | rfl
  · exact ⟨h.read, hwrite, rfl, rfl, hclose⟩
  · rcases h.add with hadd | hadd
    · have hadd' : (deadConn c).addEvents = .none := hadd
      refine ⟨?_, ?_, rfl, rfl, hclose⟩
      · simpa [Conn.armed, hadd, Mask.none, deadConn] using h.read
      · simpa [Conn.armed, hadd', Mask.none, Mask.union] using hwrite
    · have hadd' : (deadConn c).addEvents = .writeOnly := hadd
      refine ⟨?_, ?_, rfl, rfl, hclose⟩
      · simpa [Conn.armed, hadd, Mask.writeOnly, deadConn] using h.read
      · simp [Conn.armed, hadd', Mask.writeOnly, Mask.union]

lemma readPart_around {s : Net} {free act : List ℕ} {e : ℕ} (hw : Wired s free act)
    (he : e ∈ s.taken) (hb : (s.conns e).Busy) (o : Outcomes) :
    Around e s (readPart s e o) (readConn s.bufSize e (s.conns e) s.trace o).2 ∧
      (readPart s e o).conns e = (readConn s.bufSize e (s.conns e) s.trace o).1 ∧
      e ∈ (readPart s e o).taken ∧ (readPart s e o).crashed = s.crashed := by
  unfold readPart readConn
  cases hact : (s.conns e).activeEvents.read with
  | false =>
    simp only [Bool.false_eq_true, false_and, if_false]
    exact ⟨.refl e s, trivial, he, trivial⟩
  | true =>
    rcases hb.read with hh | hh
    · simp only [if_true, callHandler, hh, reduceCtorEq, and_false, if_false, Option.some.injEq]
      exact tcpServerAccept_around hw he o
    · simp only [if_true, callHandler, hh, and_self]
      refine ⟨around_of_conns (fun i hi => setConn_of_ne _ hi) rfl rfl rfl, ?_, he, rfl⟩
      simp [Net.setConn]

lemma writePart_around {s : Net} {e : ℕ} (he : e ∈ s.taken) (hb : (s.conns e).Busy)
    (hc : s.crashed = false) (o : Outcomes) :
    Around e s (writePart s e o) s.trace ∧
    (((writePart s e o).crashed = true ∧ (s.conns e).activeEvents.write = true ∧
      (s.conns e).writeEventHandler = none) ∨
    ((writePart s e o).crashed = false ∧
      ¬ ((s.conns e).activeEvents.write = true ∧ (s.conns e).writeEventHandler = none) ∧
      (writePart s e o).conns e = writeConn (s.conns e) o ∧ e ∈ (writePart s e o).taken)) := by
  unfold writePart writeConn
  cases hact : (s.conns e).activeEvents.write with
  | false =>
    simp only [Bool.false_eq_true, if_false]
    exact ⟨.refl e s, Or.inr ⟨hc, by simp, trivial, he⟩⟩
  | true =>
    rcases hb.handler with hh | hh
    · simp only [if_true, callHandler, hh]
      exact ⟨around_of_conns (fun _ _ => rfl) rfl rfl rfl, Or.inl ⟨trivial, trivial, trivial⟩⟩
    · simp only [if_true, callHandler, hh]
      refine ⟨around_of_conns (fun i hi => setConn_of_ne _ hi) rfl rfl rfl, Or.inr ⟨hc, by simp, ?_, he⟩⟩
      simp [Net.setConn]

lemma diff_none (m : Mask) : m.diff .none = m := by
  cases m
  simp [Mask.diff, Mask.none]

lemma none_diff (m : Mask) : Mask.none.diff m = .none := by simp [Mask.diff, Mask.none]

lemma deadPart_around {s : Net} {e : ℕ} (he : e ∈ s.taken) (o : Outcomes) :
    Around e s (deadPart s e o) s.trace ∧ (deadPart s e o).conns e = deadConn (s.conns e) ∧
      e ∈ (deadPart s e o).taken ∧ (deadPart s e o).crashed = s.crashed := by
  unfold deadPart
  by_cases hdead : (s.conns e).deadEvents = .none
  · rw [if_pos hdead]
    refine ⟨.refl e s, ?_, he, rfl⟩
    unfold deadConn
    rw [hdead, diff_none, ← hdead]
  · rw [if_neg hdead]
    unfold delEvent
    by_cases hnone : (s.conns e).events = .none
    · simp only [if_pos hnone]
      refine ⟨around_of_conns (fun i hi => setConn_of_ne _ hi) rfl rfl rfl, ?_, he, rfl⟩
      simp only [Net.setConn, Function.update_self, deadConn]
      rw [hnone, none_diff, ← hnone]
    · simp only [if_neg hnone]
      refine ⟨around_of_conns (fun i hi => ?_) rfl rfl rfl, ?_, he, rfl⟩
      · simp [Net.setConn, Function.update_of_ne hi]
      · simp [Net.setConn, deadConn]

lemma addPart_around {s : Net} {e : ℕ} (he : e ∈ s.taken) (o : Outcomes) :
    Around e s (addPart s e o) s.trace ∧ Settled (s.conns e) ((addPart s e o).conns e) ∧
      e ∈ (addPart s e o).taken ∧ (addPart s e o).crashed = s.crashed := by
  unfold addPart
  by_cases hadd : (s.conns e).addEvents = .none
  · rw [if_pos hadd]
    refine ⟨.refl e s, Or.inl ?_, he, rfl⟩
    rw [← hadd]
  · rw [if_neg hadd]
    unfold addEvent
    split
    · refine ⟨around_of_conns (fun i hi => setConn_of_ne _ hi) rfl rfl rfl, Or.inl ?_, he, rfl⟩
      simp [Net.setConn]
    · refine ⟨around_of_conns (fun i hi => ?_) rfl rfl rfl, Or.inr ?_, he, rfl⟩
      · simp [Net.setConn, Function.update_of_ne hi]
      · simp [Net.setConn]

/-- The end of a round on the entry `e` with the connection `c`. -/
def RoundEnd (e : ℕ) (c : Conn) (s' : Net) : Prop :=
  (c.close = true ∧ e ∉ s'.taken) ∨
    (c.close = false ∧ e ∈ s'.taken ∧ Settled c (s'.conns e))

lemma RoundEnd.taken {e : ℕ} {c : Conn} {s' : Net} (h : RoundEnd e c s') (hclose : c.close = false) :
    e ∈ s'.taken := by
  rcases h with ⟨hbad, -⟩ | ⟨-, hin, -⟩
  · rw [hclose] at hbad
    cases hbad
  · exact hin

lemma RoundEnd.gone {e : ℕ} {c : Conn} {s' : Net} (h : RoundEnd e c s') (hclose : c.close = true) :
    e ∉ s'.taken := by
  rcases h with ⟨-, hout⟩ | ⟨hbad, -⟩
  · exact hout
  · rw [hclose] at hbad
    cases hbad

lemma closePart_around {s : Net} {free act : List ℕ} {e : ℕ} (hw : Wired s free act)
    (he : e ∈ s.taken) (o : Outcomes) :
    Around e s (closePart s e o) (s.trace.closing (s.conns e)) ∧ RoundEnd e (s.conns e) (closePart s e o) ∧
      (closePart s e o).crashed = s.crashed := by
  unfold closePart Trace.closing
  cases hclose : (s.conns e).close with
  | true =>
    simp only [if_true]
    refine ⟨⟨⟨fun i hi hne => ⟨?_, ?_⟩, fun i hi hn => ?_⟩, rfl, le_rfl, rfl, rfl⟩,
      Or.inl ⟨hclose, fun hin => ?_⟩, rfl⟩
    · exact (mem_erase_taken hw).mpr ⟨hne, hi⟩
    · simp [tcpFreeConnection, Net.advanceTo, Function.update_of_ne hne]
    · exact absurd ((mem_erase_taken hw).mp hi).2 hn
    · exact ((mem_erase_taken hw).mp hin).1 rfl
  | false =>
    obtain ⟨haround, hset, hin, hcr⟩ := addPart_around he o
    simp only [Bool.false_eq_true, if_false]
    exact ⟨⟨⟨haround.kept, haround.new⟩, haround.log, haround.fresh, haround.aborted, haround.bufSize⟩,
      Or.inr ⟨hclose, hin, hset⟩, hcr⟩

/-! ## A step of the server -/

/-- A round on `e`: what it does to the rest of the server, and either a call
through a NULL write handler or the end of the round. -/
structure Round (e : ℕ) (o : Outcomes) (s s' : Net) : Prop where
  around : Around e s s' (roundTrace s.bufSize e (s.conns e) s.trace o)
  ends : (s'.crashed = true ∧ (s.conns e).activeEvents.write = true ∧
      (readConn s.bufSize e (s.conns e) s.trace o).1.writeEventHandler = none) ∨
    (s'.crashed = false ∧ ¬ ((s.conns e).activeEvents.write = true ∧
        (readConn s.bufSize e (s.conns e) s.trace o).1.writeEventHandler = none) ∧
      RoundEnd e (deadConn (writeConn (readConn s.bufSize e (s.conns e) s.trace o).1 o)) s')

lemma readConn_activeEvents (size e : ℕ) (c : Conn) (t : Trace) (o : Outcomes) :
    (readConn size e c t o).1.activeEvents = c.activeEvents := by
  unfold readConn
  split_ifs
  · exact (tcpServerRecv_frame size e c t o).activeEvents
  · rfl

/-- **All that a round can do.** -/
theorem dispatch_round {s : Net} {free act : List ℕ} {e : ℕ} (hw : Wired s free (e :: act))
    (hf : Fds s none) (hc : s.crashed = false) (hr : (s.conns e).Rested) (o : Outcomes) :
    Round e o s (dispatch s e o) := by
  have he : e ∈ s.taken := hw.inUse e (by simp)
  obtain ⟨ha₁, hconn₁, he₁, hc₁⟩ := readPart_around hw he hr.busy o
  obtain ⟨free₁, hw₁, hf₁⟩ := readPart_wired hw hf e o
  have hactive := readConn_activeEvents s.bufSize e (s.conns e) s.trace o
  have hbusy₁ := hr.busy.readConn s.bufSize e s.trace o
  rw [← hconn₁] at hactive hbusy₁
  rw [hc] at hc₁
  obtain ⟨ha₂, hends⟩ := writePart_around he₁ hbusy₁ hc₁ o
  have ha₁₂ := ha₁.trans he ha₂
  rw [hactive, hconn₁] at hends
  unfold dispatch
  rcases hends with ⟨hc₂, hcrash⟩ | ⟨hc₂, hno, hconn₂, he₂⟩
  · simp only [hc₁, hc₂, if_true, Bool.false_eq_true, if_false]
    refine ⟨?_, Or.inl ⟨hc₂, hcrash⟩⟩
    rw [roundTrace, if_pos hcrash]
    exact ha₁₂
  · obtain ⟨free₂, hw₂, hf₂⟩ := writePart_wired hw₁ hf₁ e o
    obtain ⟨ha₃, hconn₃, he₃, hc₃⟩ := deadPart_around he₂ o
    obtain ⟨hw₃, -⟩ := deadPart_wired hw₂ hf₂ he₂ o
    obtain ⟨ha₄, hend, hc₄⟩ := closePart_around hw₃ he₃ o
    simp only [hc₁, hc₂, Bool.false_eq_true, if_false]
    rw [hconn₃, hconn₂] at ha₄ hend
    refine ⟨?_, Or.inr ⟨?_, hno, hend⟩⟩
    · rw [roundTrace, if_neg hno]
      exact (ha₁₂.trans he ha₃).closes he ha₄
    · rw [hc₄, hc₃, hc₂]

lemma Round.log {e : ℕ} {o : Outcomes} {s s' : Net} (h : Round e o s s') :
    s'.trace.log = (readConn s.bufSize e (s.conns e) s.trace o).2.log := by
  rw [h.around.log, roundTrace]
  split_ifs
  · rfl
  · exact closing_log _ _

lemma Round.fresh {e : ℕ} {o : Outcomes} {s s' : Net} (h : Round e o s s') :
    (readConn s.bufSize e (s.conns e) s.trace o).2.fresh ≤ s'.trace.fresh := by
  have hfresh := h.around.fresh
  rw [roundTrace] at hfresh
  split_ifs at hfresh
  · exact hfresh
  · rwa [closing_fresh] at hfresh

/-- The server is wired, and until the process ends the connections in use are
rested between rounds. -/
structure Resting (s : Net) : Prop where
  wired : Conserving s
  rested : s.crashed = false → ∀ e ∈ s.taken, (s.conns e).Rested

/-- What a batch may change: active events and links of connections. -/
structure Batched (s s' : Net) : Prop where
  conn : ∀ e, ∃ m next, s'.conns e = { s.conns e with activeEvents := m, next := next }
  taken : s'.taken = s.taken
  trace : s'.trace = s.trace
  bufSize : s'.bufSize = s.bufSize
  crashed : s'.crashed = s.crashed

lemma Batched.refl (s : Net) : Batched s s := ⟨fun _ => ⟨_, _, rfl⟩, rfl, rfl, rfl, rfl⟩

lemma poll_batched (s : Net) (reports : List (ℕ × Mask)) : Batched s (poll s reports) := by
  have hpolled := foldl_pollOne reports s
  have hrest := hpolled.rest
  unfold poll
  refine ⟨fun e => ⟨_, _, hpolled.conn e⟩, ?_, ?_, ?_, ?_⟩
  all_goals rw [hrest]

/-- **All that a step can do**: a round, or at most a batch. -/
theorem netStep_cases {s : Net} (h : Resting s) (i : Input) :
    (Batched s (netStep s i) ∧ ∀ e o, i = .dispatch o → s.cursor = some e → s.crashed = true) ∨
      ∃ e o, i = .dispatch o ∧ s.cursor = some e ∧ s.crashed = false ∧ e ∈ s.taken ∧
        Round e o s (netStep s i) := by
  obtain ⟨free, act, hw, hf⟩ := h.wired
  unfold netStep
  cases hc : s.crashed with
  | true => exact Or.inl ⟨.refl s, fun _ _ _ _ => rfl⟩
  | false =>
    simp only [Bool.false_eq_true, if_false]
    cases i with
    | poll reports =>
      refine Or.inl ⟨?_, fun _ _ hi => by cases hi⟩
      cases s.cursor with
      | none => exact poll_batched s reports
      | some e => exact .refl s
    | dispatch o =>
      cases hcur : s.cursor with
      | none => exact Or.inl ⟨.refl s, fun _ _ _ hsome => by cases hsome⟩
      | some e =>
        obtain ⟨rest, rfl⟩ := hw.at_cursor hcur
        have he : e ∈ s.taken := hw.inUse e (by simp)
        exact Or.inr ⟨e, o, rfl, rfl, trivial, he,
          dispatch_round hw hf hc (h.rested hc e he) o⟩

lemma netStep_resting {s : Net} (h : Resting s) (i : Input) (hi : PollsValid s i) :
    Resting (netStep s i) := by
  refine ⟨netStep_conserving h.wired i hi, fun hc' => ?_⟩
  rcases netStep_cases h i with ⟨hbatch, -⟩ | ⟨e, o, -, -, hc, he, hround⟩
  · intro e he
    rw [hbatch.taken] at he
    have hr := h.rested (hbatch.crashed ▸ hc') e he
    obtain ⟨m, next, hconn⟩ := hbatch.conn e
    rw [hconn]
    exact ⟨hr.read, hr.write, hr.dead, hr.add, hr.close⟩
  · rcases hround.ends with ⟨hcrash, -⟩ | ⟨-, -, hend⟩
    · rw [hcrash] at hc'
      cases hc'
    intro i hi
    have hbusy := ((h.rested hc e he).busy.readConn s.bufSize e s.trace o).writeConn o
    by_cases hie : i = e
    · subst hie
      rcases hend with ⟨-, hout⟩ | ⟨hclose, -, hset⟩
      · exact absurd hi hout
      · exact hbusy.settle hclose hset
    · by_cases hin : i ∈ s.taken
      · rw [(hround.around.kept i hin hie).2]
        exact h.rested hc i hin
      · obtain ⟨fd, p, hconn⟩ := hround.around.new i hi hin
        rw [hconn]
        exact rested_client fd p

lemma initNetworkMod_resting {n : ℕ} (hn : 1 ≤ n) (sockFd : ℤ) (bufSize : ℕ)
    (garbage : ℕ → Conn) : Resting (initNetworkMod n sockFd bufSize garbage) := by
  refine ⟨initNetworkMod_conserving hn sockFd bufSize garbage, fun _ e he => ?_⟩
  rw [initNetworkMod_eq] at he ⊢
  obtain rfl := List.mem_singleton.mp he
  simp only [Function.update_self]
  exact ⟨Or.inl rfl, rfl, rfl, rfl, rfl⟩

/-! ## Invariants of the requests -/

/-- Until the process ends, the requests of the connections in use meet `K`. -/
def EveryRequest (K : Request → Prop) (s : Net) : Prop :=
  s.crashed = false → ∀ e ∈ s.taken, ∀ r, (s.conns e).request = some r → K r

/-- What a read needs to keep for the request that it reads into: a read that goes
on, and an answer that stops at EAGAIN. -/
structure ReadKeeps (K : Request → Prop) (size : ℕ) (c : Conn) (t : Trace) (o : Outcomes) :
    Prop where
  new : K (newRequest size t.fresh)
  goes : ∀ r, reader size c t o = some r → K r → r.got o.read ≠ [] → r.code o = .ok →
    K { r.parsed o with buffers := chainBlock (r.parsed o).buffers }
  stays : ∀ r r', reader size c t o = some r → K r → r.ends o = some r' → r'.finish = false →
    (r'.delivery o.readWrites).2 = .again → K (r'.delivered o.readWrites)

lemma reader_keeps {K : Request → Prop} {size : ℕ} {c : Conn} {t : Trace} {o : Outcomes}
    {r : Request} (hnew : K (newRequest size t.fresh)) (hown : ∀ r, c.request = some r → K r)
    (hr : reader size c t o = some r) : K r := by
  unfold reader at hr
  split at hr
  · rename_i r₀ hreq
    cases hr
    exact hown r hreq
  · split_ifs at hr
    cases hr
    exact hnew

lemma readConn_request {K : Request → Prop} {size e : ℕ} {c : Conn} {t : Trace} {o : Outcomes}
    (hkeeps : c.activeEvents.read = true → c.readEventHandler = some .recv →
      ReadKeeps K size c t o)
    (hown : ∀ r, c.request = some r → K r) :
    ∀ r, (readConn size e c t o).1.request = some r → K r := by
  unfold readConn
  split_ifs with hread
  · have hk := hkeeps hread.1 hread.2
    rcases tcpServerRecv_cases size e c t o with ⟨-, heq⟩ | ⟨r, hr, heq⟩
    · rw [heq]
      exact hown
    have hK := reader_keeps hk.new hown hr
    rw [heq]
    rcases recvInto_cases e c (readerTrace c t o) r o with ⟨-, hcont⟩ | ⟨r', hends, -, hfin⟩
    · intro x hx
      rcases hcont.request with ⟨-, hreq, -⟩ | ⟨hgot, hcode, -, hreq⟩
      · rw [hreq] at hx
        cases hx
        exact hK
      · rw [hreq] at hx
        cases hx
        exact hk.goes r hr hK hgot hcode
    · rw [hfin]
      intro x hx
      rcases tcpRequestFinish_cases { c with request := some r }
        ((readerTrace c t o).record (.parse e r (r.code o))) r' o.readWrites with
        ⟨hend, hf, heq⟩ | ⟨-, -, heq⟩ | ⟨-, heq⟩ | ⟨-, -, heq⟩
      · rw [heq] at hx
        cases hx
        exact hk.stays r r' hr hK hends hf hend
      all_goals
        rw [heq] at hx
        cases hx
  · exact hown

lemma writeConn_request {K : Request → Prop} {c : Conn} {o : Outcomes}
    (hsend : ∀ r ws f, K r → K { r with response := (sendLoop r.response ws).1, finish := f })
    (hown : ∀ r, c.request = some r → K r) :
    ∀ r, (writeConn c o).request = some r → K r := by
  intro x hx
  unfold writeConn at hx
  split_ifs at hx
  · cases hreq : c.request with
    | none =>
      rw [tcpServerSend_none hreq] at hx
      exact hown x hx
    | some r =>
      obtain ⟨f, hsent⟩ := tcpServerSend_request hreq o.writeWrites
      rw [hsent] at hx
      cases hx
      exact hsend r o.writeWrites f (hown r hreq)
  · exact hown x hx

lemma Settled.request {c c' : Conn} (h : Settled c c') : c'.request = c.request := by
  rcases h with rfl | rfl
  · rfl
  · rfl

/-- **Invariants of the requests.** What new requests meet, and what reads and sends
keep, a step keeps for every request. -/
theorem netStep_requests {K : Request → Prop} {s : Net} (h : Resting s)
    (hsend : ∀ r ws f, K r → K { r with response := (sendLoop r.response ws).1, finish := f })
    (hall : EveryRequest K s) (i : Input)
    (hkeeps : ∀ e o, i = .dispatch o → s.cursor = some e → s.crashed = false → e ∈ s.taken →
      (s.conns e).activeEvents.read = true → (s.conns e).readEventHandler = some .recv →
      ReadKeeps K s.bufSize (s.conns e) s.trace o) : EveryRequest K (netStep s i) := by
  intro hc'
  rcases netStep_cases h i with ⟨hbatch, -⟩ | ⟨e, o, rfl, hcur, hc, he, hround⟩
  · intro e he
    rw [hbatch.crashed] at hc'
    rw [hbatch.taken] at he
    obtain ⟨m, next, hconn⟩ := hbatch.conn e
    rw [hconn]
    exact hall hc' e he
  intro i hi
  by_cases hie : i = e
  · subst hie
    rcases hround.ends with ⟨hcrash, -⟩ | ⟨-, -, ⟨-, hout⟩ | ⟨-, -, hset⟩⟩
    · rw [hcrash] at hc'
      cases hc'
    · exact absurd hi hout
    · rw [hset.request]
      exact writeConn_request hsend
        (readConn_request (hkeeps i o rfl hcur hc he) (hall hc i he))
  · by_cases hin : i ∈ s.taken
    · rw [(hround.around.kept i hin hie).2]
      exact hall hc i hin
    · obtain ⟨fd, p, hconn⟩ := hround.around.new i hi hin
      rw [hconn]
      intro r hr
      cases hr

lemma netStep_bufSize {s : Net} (h : Resting s) (i : Input) : (netStep s i).bufSize = s.bufSize := by
  rcases netStep_cases h i with ⟨hbatch, -⟩ | ⟨e, o, -, -, -, -, hround⟩
  · exact hbatch.bufSize
  · exact hround.around.bufSize

/-- At the start there is no request. -/
lemma initNetworkMod_requests (K : Request → Prop) (n : ℕ) (sockFd : ℤ) (bufSize : ℕ)
    (garbage : ℕ → Conn) : EveryRequest K (initNetworkMod n sockFd bufSize garbage) := by
  intro _ e he r hr
  rw [initNetworkMod_eq] at he hr
  obtain rfl := List.mem_singleton.mp he
  simp [listenConn, newConn] at hr

end Xpipe
