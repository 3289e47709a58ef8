import Xpipe.Custody
import Xpipe.Handlers

/-!
# The memory pools of connections and requests

A connection in use owns its pool and the pool of its request. `Owning` keeps the
live pools in balance with these owners; the only pools without an owner are
those of requests whose memory could not be had after their pool was made, since
`tcp_request_init` returns without destroying it.
-/
namespace Xpipe
open Linked Runs Custody

/-- The pools that a connection in use owns. -/
def Conn.owned (c : Conn) : List ℕ := c.pool.toList ++ (c.request.map Request.pool).toList

/-- The pools that the connections in use own. -/
def Net.owned (s : Net) : List ℕ := s.taken.flatMap (fun e => (s.conns e).owned)

/-- The live pools of a trace are the pools `own` and, without an owner, `lost`;
every pool that was made is older than the next one. -/
structure Owning (t : Trace) (own lost : List ℕ) : Prop where
  kept : Kept t.pools own lost t.destroyed
  made : ∀ p ∈ own ++ lost ++ t.destroyed, p < t.fresh

namespace Owning

variable {t : Trace} {own own' lost : List ℕ} {p : ℕ}

lemma perm (h : Owning t own lost) (hperm : own.Perm own') : Owning t own' lost := by
  refine ⟨h.kept.perm hperm, fun q hq => h.made q ?_⟩
  simp only [List.mem_append] at hq ⊢
  rwa [hperm.mem_iff]

lemma record (h : Owning t own lost) (ev : Event) : Owning (t.record ev) own lost :=
  ⟨h.kept, h.made⟩

lemma create (h : Owning t own lost) : Owning t.createPool (t.fresh :: own) lost := by
  refine ⟨h.kept.acquire (fun hin => lt_irrefl _ (h.made _ hin)), fun q hq => ?_⟩
  rcases List.mem_cons.mp hq with rfl | hq
  · exact Nat.lt_succ_self _
  · exact Nat.lt_succ_of_lt (h.made q hq)

lemma leak (h : Owning t own lost) : Owning t.createPool own (t.fresh :: lost) := by
  refine ⟨h.kept.lose (fun hin => lt_irrefl _ (h.made _ hin)), fun q hq => ?_⟩
  have hq' : q = t.fresh ∨ q ∈ own ++ lost ++ t.destroyed := by
    simp only [Trace.createPool, List.mem_append, List.mem_cons] at hq ⊢
    tauto
  rcases hq' with rfl | hq'
  · exact Nat.lt_succ_self _
  · exact Nat.lt_succ_of_lt (h.made q hq')

lemma destroy (h : Owning t (p :: own) lost) : Owning (t.destroyPool p) own lost := by
  refine ⟨h.kept.release, fun q hq => h.made q ?_⟩
  simp only [Trace.destroyPool, List.mem_append, List.mem_cons] at hq ⊢
  tauto

lemma destroyRequest {r : Request} (h : Owning t (r.pool :: own) lost) :
    Owning (t.destroyRequest r) own lost :=
  ⟨h.destroy.kept, h.destroy.made⟩

end Owning

/-- The request of the round has a pool, its buffers are large blocks of the pool, and the
`malloc` of one of them fails. -/
def Leaks (size : ℕ) (c : Conn) (o : Outcomes) : Prop :=
  c.request = none ∧ o.initPool = true ∧ maxSizeOfChunk < size + bufferHeader ∧
    ¬ ((o.initMallocs 1).data = true ∧ (o.initMallocs 2).data = true)

instance (size : ℕ) (c : Conn) (o : Outcomes) : Decidable (Leaks size c o) :=
  inferInstanceAs (Decidable (_ ∧ _ ∧ _ ∧ ¬ (_ ∧ _)))

lemma leaks_iff {size : ℕ} (hsize : size < 2 ^ 24) (c : Conn) (o : Outcomes) :
    Leaks size c o ↔ c.request = none ∧ o.initPool = true ∧ o.initAllocs size = false := by
  rw [Leaks, ← Bool.not_eq_true, initAllocs_iff hsize, not_or, Nat.not_le]

/-! ## The handlers of one connection -/

lemma tcpServerSend_owned (c : Conn) (ws : List WriteResult) :
    (tcpServerSend c ws).owned = c.owned := by
  cases hreq : c.request with
  | none => rw [tcpServerSend_none hreq]
  | some r =>
    obtain ⟨f, hsent⟩ := tcpServerSend_request hreq ws
    have hpool := (tcpServerSend_frame c ws).pool
    simp only [Conn.owned, hsent, hpool, hreq, Option.map_some]

/-- `tcp_request_finish` destroys the pool of the request it releases. -/
lemma tcpRequestFinish_owning {c : Conn} {t : Trace} {r r' : Request} {rest lost : List ℕ}
    (hreq : c.request = some r) (hpool : r'.pool = r.pool) (ws : List WriteResult)
    (h : Owning t (c.owned ++ rest) lost) :
    Owning (tcpRequestFinish c t r' ws).2 ((tcpRequestFinish c t r' ws).1.owned ++ rest) lost := by
  have hsame : (r'.delivered ws).pool = r.pool := by
    unfold Request.delivered
    rw [(tcpResponeGenerate_keeps r').1, hpool]
  have hfirst : Owning t (r'.pool :: (c.pool.toList ++ rest)) lost := by
    refine h.perm ?_
    rw [hpool, Conn.owned, hreq]
    simp only [Option.map_some, Option.toList_some, List.append_assoc, List.singleton_append]
    exact List.perm_middle
  rcases tcpRequestFinish_cases c t r' ws with ⟨-, -, heq⟩ | ⟨-, -, heq⟩ | ⟨-, heq⟩ | ⟨-, -, heq⟩
  · rw [heq]
    simpa [Conn.owned, hreq, hsame] using h
  · rw [heq]
    simpa [Conn.owned] using (hfirst.record _).destroyRequest
  · rw [heq]
    simpa [Conn.owned] using (hfirst.record _).destroyRequest
  · rw [heq]
    simpa [Conn.owned] using (hfirst.record _).destroyRequest

lemma recvInto_owning {e : ℕ} {c : Conn} {t : Trace} {r : Request} {o : Outcomes}
    {rest lost : List ℕ} (h : Owning t (c.pool.toList ++ [r.pool] ++ rest) lost) :
    Owning (recvInto e c t r o).2 ((recvInto e c t r o).1.owned ++ rest) lost := by
  have hframe := recvInto_frame e c t r o
  rcases recvInto_cases e c t r o with ⟨-, hcont⟩ | ⟨r', hends, -, hfin⟩
  · unfold Conn.owned
    rw [hframe.pool]
    rcases hcont.request with ⟨-, hreq, htrace⟩ | ⟨-, -, htrace, hreq⟩
    · rw [htrace, hreq]
      exact h
    · rw [htrace, hreq]
      exact h.record _
  · obtain ⟨d, err, hr', -⟩ := ends_eq hends
    rw [hfin]
    refine tcpRequestFinish_owning (r := r) rfl (by rw [hr']; rfl) _ ?_
    exact h.record _

/-- **The pools of a read.** A pool is lost exactly when its request has no memory. -/
lemma tcpServerRecv_owning {size e : ℕ} {c : Conn} {t : Trace} {o : Outcomes}
    {rest lost : List ℕ} (hsize : size < 2 ^ 24) (h : Owning t (c.owned ++ rest) lost) :
    Owning (tcpServerRecv size e c t o).2 ((tcpServerRecv size e c t o).1.owned ++ rest)
      (if Leaks size c o then t.fresh :: lost else lost) := by
  unfold tcpServerRecv
  cases hreq : c.request with
  | some r =>
    have hno : ¬ Leaks size c o := by simp [Leaks, hreq]
    rw [if_neg hno]
    refine recvInto_owning ?_
    simpa [Conn.owned, hreq] using h
  | none =>
    cases hp : o.initPool with
    | false =>
      have hno : ¬ Leaks size c o := by simp [Leaks, hp]
      rw [if_neg hno]
      exact h
    | true =>
      cases ha : o.initAllocs size with
      | false =>
        have hleak : Leaks size c o := (leaks_iff hsize c o).mpr ⟨hreq, hp, ha⟩
        rw [if_pos hleak]
        exact h.leak
      | true =>
        have hno : ¬ Leaks size c o := by simp [leaks_iff hsize, ha]
        rw [if_neg hno]
        refine recvInto_owning (h.create.perm ?_)
        simp only [Conn.owned, hreq, Option.map_none, Option.toList_none, List.append_nil,
          newRequest, List.append_assoc, List.singleton_append]
        exact List.perm_middle.symm

/-! ## The server -/

/-- The pools that the connections in use other than `e` own. -/
def Net.others (s : Net) (e : ℕ) : List ℕ :=
  (s.taken.erase e).flatMap (fun i => (s.conns i).owned)

lemma owned_perm {s : Net} {e : ℕ} (he : e ∈ s.taken) :
    s.owned.Perm ((s.conns e).owned ++ s.others e) := by
  have hperm : s.owned.Perm ((e :: s.taken.erase e).flatMap (fun i => (s.conns i).owned)) :=
    (List.perm_cons_erase he).flatMap_right _
  rwa [List.flatMap_cons] at hperm

lemma flatMap_owned_congr {conns conns' : ℕ → Conn} {l : List ℕ}
    (h : ∀ i ∈ l, conns' i = conns i) :
    l.flatMap (fun i => (conns' i).owned) = l.flatMap (fun i => (conns i).owned) :=
  List.flatMap_congr (fun i hi => by rw [h i hi])

/-- A change of one connection in use, in terms of the pools that it owns. -/
lemma owning_change {s s' : Net} {free act : List ℕ} {e : ℕ} {lost lost' : List ℕ}
    (hw : Wired s free act) (he : e ∈ s.taken) (htaken : s'.taken = s.taken)
    (hconns : ∀ i, i ≠ e → s'.conns i = s.conns i) (h : Owning s.trace s.owned lost)
    (hown : Owning s.trace ((s.conns e).owned ++ s.others e) lost →
      Owning s'.trace ((s'.conns e).owned ++ s.others e) lost') :
    Owning s'.trace s'.owned lost' := by
  have hothers : s'.others e = s.others e := by
    unfold Net.others
    rw [htaken]
    refine flatMap_owned_congr (fun i hi => hconns i ?_)
    exact ((mem_erase_taken hw).mp hi).1
  have hafter := hown (h.perm (owned_perm he))
  rw [← hothers] at hafter
  exact hafter.perm (owned_perm (htaken ▸ he)).symm

/-- Neither the connections in use nor the pools are touched. -/
lemma owning_same {s s' : Net} {lost : List ℕ} (h : Owning s.trace s.owned lost)
    (htaken : s'.taken = s.taken) (hconns : ∀ i ∈ s.taken, (s'.conns i).owned = (s.conns i).owned)
    (htrace : s'.trace = s.trace) : Owning s'.trace s'.owned lost := by
  have hown : s'.owned = s.owned := by
    unfold Net.owned
    rw [htaken]
    exact List.flatMap_congr hconns
  rw [htrace, hown]
  exact h

/-- Whatever fails, `tcp_server_accept` leaves no pool without an owner. -/
lemma tcpServerAccept_owning {s : Net} {free act : List ℕ} {lost : List ℕ} (hw : Wired s free act)
    (h : Owning s.trace s.owned lost) (o : Outcomes) :
    Owning (tcpServerAccept s o).trace (tcpServerAccept s o).owned lost := by
  rcases tcpServerAccept_cases s o with heq | ⟨fd, -, -, heq | ⟨f, s₂, hget, hcases⟩⟩
  · rw [heq]
    exact h
  · rw [heq]
    exact h
  unfold tcpGetConnection at hget
  split at hget
  · cases hget
  rename_i hhead
  split_ifs at hget
  cases hget
  have hfree := hw.freeList
  rw [show s.connectionPool = some f from hhead] at hfree
  obtain ⟨free', rfl, -⟩ := hfree.head_some
  have hne {i : ℕ} (hi : i ∈ s.taken) : i ≠ f := by
    rintro rfl
    exact hw.not_free hi (by simp)
  rcases hcases with hadd | heq
  · unfold addEvent at hadd
    split at hadd
    · cases hadd
    rw [← Option.some.inj hadd]
    have hown := h.create
    simp only [Net.owned, Net.setConn, Net.opened, List.flatMap_cons, Function.update_self]
    rw [@flatMap_owned_congr s.conns _ s.taken
      (fun i hi => by simp [Function.update_of_ne (hne hi)])]
    exact hown
  · rw [heq]
    have hback := h.create.destroy
    simp only [Net.owned, tcpFreeConnection, Net.opened, List.erase_cons_head]
    rw [@flatMap_owned_congr s.conns _ s.taken
      (fun i hi => by simp [Function.update_of_ne (hne hi)])]
    simpa [Trace.destroyAll, newConn, Net.owned] using hback

/-- A round whose read leaves a pool without an owner. -/
def LeakingRead (size : ℕ) (c : Conn) (o : Outcomes) : Prop :=
  c.activeEvents.read = true ∧ c.readEventHandler = some .recv ∧ Leaks size c o

instance (size : ℕ) (c : Conn) (o : Outcomes) : Decidable (LeakingRead size c o) :=
  inferInstanceAs (Decidable (_ ∧ _ ∧ _))

lemma readPart_owning {s : Net} {free act : List ℕ} {e : ℕ} {lost : List ℕ} (hw : Wired s free act)
    (hsize : s.bufSize < 2 ^ 24) (he : e ∈ s.taken) (h : Owning s.trace s.owned lost)
    (o : Outcomes) : Owning (readPart s e o).trace (readPart s e o).owned
      (if LeakingRead s.bufSize (s.conns e) o then s.trace.fresh :: lost else lost) := by
  unfold readPart
  cases hact : (s.conns e).activeEvents.read with
  | false =>
    have hno : ¬ LeakingRead s.bufSize (s.conns e) o := by simp [LeakingRead, hact]
    rw [if_neg hno]
    exact h
  | true =>
    have hleak : LeakingRead s.bufSize (s.conns e) o ↔
        (s.conns e).readEventHandler = some .recv ∧ Leaks s.bufSize (s.conns e) o := by
      simp [LeakingRead, hact]
    simp only [hleak, if_true]
    unfold callHandler
    cases hh : (s.conns e).readEventHandler with
    | none =>
      simp only [reduceCtorEq, false_and, if_false]
      exact h
    | some hd =>
      cases hd with
      | accept => simpa using tcpServerAccept_owning hw h o
      | recv =>
        simp only [true_and]
        refine @owning_change s { s.setConn e _ with trace := _ } _ _ _ _ _ hw he rfl
          (fun i hi => setConn_of_ne _ hi) h (fun hown => ?_)
        simpa [Net.setConn] using tcpServerRecv_owning hsize hown
      | send =>
        simp only [Option.some.injEq, reduceCtorEq, false_and, if_false]
        refine owning_change hw he rfl (fun i hi => setConn_of_ne _ hi) h (fun hown => ?_)
        simpa [Net.setConn, tcpServerSend_owned] using hown

lemma writePart_owning {s : Net} {free act : List ℕ} {e : ℕ} {lost : List ℕ} (hw : Wired s free act)
    (he : e ∈ s.taken) (hb : (s.conns e).Busy) (h : Owning s.trace s.owned lost) (o : Outcomes) :
    Owning (writePart s e o).trace (writePart s e o).owned lost := by
  unfold writePart callHandler
  split_ifs
  · rcases hb.handler with hh | hh
    · simp only [hh]
      exact h
    · simp only [hh]
      refine owning_change hw he rfl (fun i hi => setConn_of_ne _ hi) h (fun hown => ?_)
      simpa [Net.setConn, tcpServerSend_owned] using hown
  · exact h

lemma deadPart_owning {s : Net} {e : ℕ} {lost : List ℕ} (he : e ∈ s.taken)
    (h : Owning s.trace s.owned lost) (o : Outcomes) :
    Owning (deadPart s e o).trace (deadPart s e o).owned lost := by
  have hconn := (deadPart_around he o).2.1
  have htrace : (deadPart s e o).trace = s.trace := by
    unfold deadPart delEvent
    split_ifs <;> rfl
  have htaken : (deadPart s e o).taken = s.taken := by
    unfold deadPart delEvent
    split_ifs <;> rfl
  refine owning_same h htaken (fun i hi => ?_) htrace
  by_cases hie : i = e
  · rw [hie, hconn]
    rfl
  · rw [((deadPart_around he o).1.kept i hi hie).2]

lemma addPart_owning {s : Net} {e : ℕ} {lost : List ℕ} (he : e ∈ s.taken)
    (h : Owning s.trace s.owned lost) (o : Outcomes) :
    Owning (addPart s e o).trace (addPart s e o).owned lost := by
  obtain ⟨haround, hset, -, -⟩ := addPart_around he o
  have hrest : (addPart s e o).trace = s.trace ∧ (addPart s e o).taken = s.taken := by
    unfold addPart addEvent
    split_ifs
    · exact ⟨rfl, rfl⟩
    · split
      · exact ⟨rfl, rfl⟩
      · exact ⟨rfl, rfl⟩
  refine owning_same h hrest.2 (fun i hi => ?_) hrest.1
  by_cases hie : i = e
  · rw [hie]
    rcases hset with hc | hc
    · rw [hc]
      rfl
    · rw [hc]
      rfl
  · rw [(haround.kept i hi hie).2]

lemma closePart_owning {s : Net} {free act : List ℕ} {e : ℕ} {lost : List ℕ} (hw : Wired s free act)
    (he : e ∈ s.taken) (h : Owning s.trace s.owned lost) (o : Outcomes) :
    Owning (closePart s e o).trace (closePart s e o).owned lost := by
  unfold closePart
  split_ifs
  · have hsplit := h.perm (owned_perm he)
    have hothers : (tcpFreeConnection { s with kernel := s.kernel.closeFd (s.conns e).connFd }
        e).owned = s.others e := by
      unfold Net.others
      apply flatMap_owned_congr
      intro i hi
      simp [tcpFreeConnection, Function.update_of_ne ((mem_erase_taken hw).mp hi).1]
    have hdestroyed : Owning (s.trace.destroyAll (s.conns e)) (s.others e) lost := by
      unfold Conn.owned at hsplit
      unfold Trace.destroyAll
      cases hreq : (s.conns e).request with
      | none =>
        cases hpool : (s.conns e).pool with
        | none => simpa [hreq, hpool] using hsplit
        | some p =>
          simp only [hreq, hpool] at hsplit ⊢
          exact hsplit.destroy
      | some r =>
        cases hpool : (s.conns e).pool with
        | none =>
          simp only [hreq, hpool] at hsplit ⊢
          exact hsplit.destroyRequest
        | some p =>
          simp only [hreq, hpool] at hsplit ⊢
          exact (hsplit.perm (List.Perm.swap _ _ _)).destroyRequest.destroy
    have hend := hdestroyed
    rw [← hothers] at hend
    exact hend
  · exact addPart_owning he h o

/-! ## A round and a run -/

/-- Whenever a handler or `tcp_free_connection` is called in a round, the request
of the connection is in a live pool. -/
structure UsesLive (s : Net) (e : ℕ) (o : Outcomes) : Prop where
  read : ∀ r, (s.conns e).request = some r → r.pool ∈ s.trace.pools
  write : ∀ r, ((readPart s e o).conns e).request = some r →
    r.pool ∈ (readPart s e o).trace.pools
  free : ∀ r, ((deadPart (writePart (readPart s e o) e o) e o).conns e).request = some r →
    r.pool ∈ (deadPart (writePart (readPart s e o) e o) e o).trace.pools

/-- No handler of a step uses a request whose pool was destroyed. -/
def StepLive (s : Net) : Input → Prop
  | .poll _ => True
  | .dispatch o => ∀ e, s.cursor = some e → s.crashed = false → UsesLive s e o

lemma Owning.request_live {s : Net} {lost : List ℕ} (h : Owning s.trace s.owned lost) {e : ℕ}
    (he : e ∈ s.taken) {r : Request} (hr : (s.conns e).request = some r) :
    r.pool ∈ s.trace.pools := by
  refine h.kept.mem_live (List.mem_flatMap.mpr ⟨e, he, ?_⟩)
  simp [Conn.owned, hr]

/-- **The pools of a round.** -/
lemma dispatch_owning {s : Net} {free act : List ℕ} {e : ℕ} {lost : List ℕ}
    (hw : Wired s free (e :: act)) (hf : Fds s none) (hsize : s.bufSize < 2 ^ 24)
    (hr : (s.conns e).Rested) (h : Owning s.trace s.owned lost) (o : Outcomes) :
    UsesLive s e o ∧ Owning (dispatch s e o).trace (dispatch s e o).owned
      (if LeakingRead s.bufSize (s.conns e) o then s.trace.fresh :: lost else lost) := by
  have he : e ∈ s.taken := hw.inUse e (by simp)
  obtain ⟨-, hconn₁, he₁, -⟩ := readPart_around hw he hr.busy o
  have hbusy₁ := hr.busy.readConn s.bufSize e s.trace o
  rw [← hconn₁] at hbusy₁
  obtain ⟨free₁, hw₁, hf₁⟩ := readPart_wired hw hf e o
  obtain ⟨free₂, hw₂, hf₂⟩ := writePart_wired hw₁ hf₁ e o
  have he₂ := hw₂.inUse e (by simp)
  obtain ⟨hw₃, -⟩ := deadPart_wired hw₂ hf₂ he₂ o
  have he₃ := hw₃.inUse e (by simp)
  have h₁ := readPart_owning hw hsize he h o
  have h₂ := writePart_owning hw₁ he₁ hbusy₁ h₁ o
  have h₃ := deadPart_owning he₂ h₂ o
  refine ⟨⟨fun r => h.request_live he, fun r => h₁.request_live he₁,
    fun r => h₃.request_live he₃⟩, ?_⟩
  have h₄ := closePart_owning hw₃ he₃ h₃ o
  unfold dispatch
  cases hc₁ : (readPart s e o).crashed with
  | true =>
    simp only [hc₁, if_true]
    exact h₁
  | false =>
    cases hc₂ : (writePart (readPart s e o) e o).crashed with
    | true =>
      simp only [hc₁, hc₂, if_true, Bool.false_eq_true, if_false]
      exact h₂
    | false =>
      simp only [hc₁, hc₂, Bool.false_eq_true, if_false]
      exact h₄

/-- The state of the pools along a run: connections in use have a pool, and the
pools in `lost` have no owner. -/
structure Housed (s : Net) (lost : List ℕ) : Prop where
  resting : Resting s
  owning : Owning s.trace s.owned lost
  made : s.crashed = false → ∀ e ∈ s.taken, (s.conns e).pool ≠ none
  size : s.bufSize < 2 ^ 24

/-- A round in which a request has a pool but no memory. -/
def LeakingRound (s : Net) : Input → Prop
  | .poll _ => False
  | .dispatch o => s.crashed = false ∧ ∃ e, s.cursor = some e ∧ LeakingRead s.bufSize (s.conns e) o

lemma readConn_pool (size e : ℕ) (c : Conn) (t : Trace) (o : Outcomes) :
    (writeConn (readConn size e c t o).1 o).pool = c.pool := by
  have hread : (readConn size e c t o).1.pool = c.pool := by
    unfold readConn
    split_ifs
    · exact (tcpServerRecv_frame size e c t o).pool
    · rfl
  unfold writeConn
  split_ifs
  · exact (tcpServerSend_frame _ _).pool.trans hread
  · exact hread

lemma Settled.pool {c c' : Conn} (h : Settled c c') : c'.pool = c.pool := by
  rcases h with rfl | rfl
  · rfl
  · rfl

/-- The connections in use have a pool after a round. -/
lemma round_made {s s' : Net} {e : ℕ} {o : Outcomes} (hround : Round e o s s') (he : e ∈ s.taken)
    (h : ∀ i ∈ s.taken, (s.conns i).pool ≠ none) (hc : s'.crashed = false) :
    ∀ i ∈ s'.taken, (s'.conns i).pool ≠ none := by
  intro i hi
  by_cases hin : i ∈ s.taken
  · by_cases hie : i = e
    · subst hie
      rcases hround.ends with ⟨hcrash, -⟩ | ⟨-, -, ⟨-, hout⟩ | ⟨-, -, hset⟩⟩
      · rw [hcrash] at hc
        cases hc
      · exact absurd hi hout
      · rw [hset.pool]
        have hpool := readConn_pool s.bufSize i (s.conns i) s.trace o
        exact fun hnone => h i he (hpool ▸ hnone)
    · rw [(hround.around.kept i hin hie).2]
      exact h i hin
  · obtain ⟨fd, p, hconn⟩ := hround.around.new i hi hin
    rw [hconn]
    simp [Conn.armed, newConn]

/-- **What a step does to the pools**: the handlers use live requests, and a pool
loses its owner exactly in a leaking round. -/
lemma netStep_housed {s : Net} {lost : List ℕ} (h : Housed s lost) {i : Input}
    (hi : PollsValid s i) :
    StepLive s i ∧ ((¬ LeakingRound s i ∧ Housed (netStep s i) lost) ∨
      (LeakingRound s i ∧ Housed (netStep s i) (s.trace.fresh :: lost))) := by
  have hrest := netStep_resting h.resting i hi
  have hsize : (netStep s i).bufSize < 2 ^ 24 := (netStep_bufSize h.resting i).trans_lt h.size
  rcases netStep_cases h.resting i with ⟨hbatch, hnone⟩ | ⟨e, o, rfl, hcur, hc, he, hround⟩
  · have hconn (e : ℕ) : ((netStep s i).conns e).owned = (s.conns e).owned ∧
        ((netStep s i).conns e).pool = (s.conns e).pool := by
      obtain ⟨m, next, hconn⟩ := hbatch.conn e
      rw [hconn]
      exact ⟨rfl, rfl⟩
    refine ⟨?_, Or.inl ⟨fun hbad => ?_, hrest, ?_, ?_, hsize⟩⟩
    · cases i with
      | poll reports => trivial
      | dispatch o =>
        intro e hcur hc
        rw [hnone e o rfl hcur] at hc
        cases hc
    · cases i with
      | poll reports => exact hbad
      | dispatch o =>
        obtain ⟨hc, e, hcur, -⟩ := hbad
        rw [hnone e o rfl hcur] at hc
        cases hc
    · exact owning_same h.owning hbatch.taken (fun e _ => (hconn e).1) hbatch.trace
    · intro hc e he
      rw [hbatch.crashed] at hc
      rw [hbatch.taken] at he
      rw [(hconn e).2]
      exact h.made hc e he
  · obtain ⟨free, act, hw, hf⟩ := h.resting.wired
    obtain ⟨rest, rfl⟩ := hw.at_cursor hcur
    have hstep := netStep_dispatch hc hcur o
    obtain ⟨huses, hown⟩ := dispatch_owning hw hf h.size (h.resting.rested hc e he) h.owning o
    have hmade := round_made hround he (h.made hc)
    rw [← hstep] at hown
    constructor
    · intro e' hcur' _
      rw [hcur] at hcur'
      cases hcur'
      exact huses
    · by_cases hleak : LeakingRead s.bufSize (s.conns e) o
      · rw [if_pos hleak] at hown
        exact Or.inr ⟨⟨hc, e, hcur, hleak⟩, hrest, hown, hmade, hsize⟩
      · rw [if_neg hleak] at hown
        refine Or.inl ⟨?_, hrest, hown, hmade, hsize⟩
        rintro ⟨-, e', hcur', hbad⟩
        rw [hcur] at hcur'
        cases hcur'
        exact hleak hbad

/-- The live pools are exactly those of the connections in use and of their
requests, each with one owner, and no pool was destroyed twice. -/
structure PoolsOwned (s : Net) : Prop where
  live : s.trace.pools = s.owned.toFinset
  once : s.owned.Nodup
  made : s.crashed = false → ∀ e ∈ s.taken, (s.conns e).pool ≠ none
  destroyed : s.trace.destroyed.Nodup

lemma Housed.owned_iff {s : Net} {lost : List ℕ} (h : Housed s lost) :
    PoolsOwned s ↔ lost = [] := by
  rw [← h.owning.kept.live_eq_iff]
  refine ⟨fun howned => howned.live, fun hlive => ⟨hlive, ?_, h.made, ?_⟩⟩
  · exact (List.nodup_append.mp (List.nodup_append.mp h.owning.kept.nodup).1).1
  · exact (List.nodup_append.mp h.owning.kept.nodup).2.1

lemma initNetworkMod_housed {n : ℕ} (hn : 1 ≤ n) (sockFd : ℤ) (bufSize : ℕ)
    (garbage : ℕ → Conn) : Housed (initNetworkMod n sockFd bufSize garbage) [] := by
  refine ⟨initNetworkMod_resting hn sockFd bufSize garbage, ?_, fun _ e he => ?_, ?_⟩
  · rw [initNetworkMod_eq]
    simp only [Net.owned, List.flatMap_singleton, Function.update_self, Conn.owned, listenConn,
      newConn]
    exact ⟨⟨rfl, by simp⟩, by simp⟩
  · rw [initNetworkMod_eq] at he ⊢
    obtain rfl := List.mem_singleton.mp he
    simp [listenConn, newConn]
  · have hlt := requestBufferSize_lt bufSize
    rw [initNetworkMod_eq]
    simp only [serverInit]
    omega

/-- **The pools of a run have their owners exactly when no round leaks**; in every
run no handler uses a request whose pool was destroyed. -/
theorem pools_owned_iff (n : ℕ) (hn : 1 ≤ n) (sockFd : ℤ) (bufSize : ℕ) (garbage : ℕ → Conn)
    (inputs : List Input)
    (hpolls : Along netStep PollsValid (initNetworkMod n sockFd bufSize garbage) inputs) :
    (Along netStep StepLive (initNetworkMod n sockFd bufSize garbage) inputs ∧
      PoolsOwned (inputs.foldl netStep (initNetworkMod n sockFd bufSize garbage))) ↔
      Along netStep (fun s i => ¬ LeakingRound s i)
        (initNetworkMod n sockFd bufSize garbage) inputs := by
  have hinit := initNetworkMod_housed hn sockFd bufSize garbage
  have hkeep (s : Net) (i : Input) (h : ∃ lost, Housed s lost) (hi : PollsValid s i) :
      ∃ lost, Housed (netStep s i) lost := by
    obtain ⟨lost, h⟩ := h
    rcases (netStep_housed h hi).2 with ⟨-, h'⟩ | ⟨-, h'⟩
    · exact ⟨_, h'⟩
    · exact ⟨_, h'⟩
  have hlive : Along netStep StepLive (initNetworkMod n sockFd bufSize garbage) inputs :=
    along_mono hkeep (fun s i h hi => (netStep_housed h.choose_spec hi).1) ⟨_, hinit⟩ hpolls
  have hstep (s : Net) (i : Input) (h : ∃ lost, Housed s lost) (hi : PollsValid s i) :
      ¬ PoolsOwned (netStep s i) ↔ ¬ PoolsOwned s ∨ LeakingRound s i := by
    obtain ⟨lost, h⟩ := h
    rcases (netStep_housed h hi).2 with ⟨hno, h'⟩ | ⟨hleak, h'⟩
    · simp [h.owned_iff, h'.owned_iff, hno]
    · simp [h'.owned_iff, hleak]
  have hrun := not_final_iff (I := fun s => ∃ lost, Housed s lost) (W := fun s => ¬ PoolsOwned s)
    hkeep hstep ⟨_, hinit⟩ hpolls
  rw [not_not, not_not, and_iff_right (hinit.owned_iff.mpr rfl)] at hrun
  rw [hrun, and_iff_right hlive]

/-- A `PUT` that is answered at once. -/
theorem pools_owned_put :
    Along netStep StepLive twoConnections putAnswered ∧
      PoolsOwned (putAnswered.foldl netStep twoConnections) :=
  (pools_owned_iff 2 (by decide) 3 1024 (fun _ => newConn 0 0) putAnswered
    ⟨reported_one 3 .readOnly rfl (by decide) (by decide), trivial,
      reported_one 5 .readOnly rfl (by decide) (by decide), trivial, trivial⟩).mpr
    ⟨id, fun ⟨_, _, hcur, _, hrecv, _⟩ => (by cases hcur; cases hrecv), id,
      fun ⟨_, _, hcur, _, _, _, _, hlarge, _⟩ => (by cases hcur; revert hlarge; decide), trivial⟩

/-- A server whose request buffers are large blocks. -/
def largeBuffers : Net := initNetworkMod 2 3 5000 (fun _ => newConn 0 0)

/-- A client sends a `PUT`, and there is no memory for its receive buffer. -/
def putWithoutMemory : List Input :=
  [.poll [(0, .readOnly)], .dispatch (outcomes (some 5) [] [] []),
    .poll [(1, .readOnly)],
    .dispatch { outcomes none putBytes [] [] with initMallocs := fun k => ⟨k ≠ 1, true⟩ }]

/-- The pool of that request stays live, and nobody owns it. -/
theorem pools_owned_leak :
    ¬ ∀ inputs, Along netStep PollsValid largeBuffers inputs →
      PoolsOwned (inputs.foldl netStep largeBuffers) := by
  intro h
  have hlive := (h putWithoutMemory
    ⟨reported_one 3 .readOnly rfl (by decide) (by decide), trivial,
      reported_one 5 .readOnly rfl (by decide) (by decide), trivial, trivial⟩).live
  revert hlive
  decide +kernel

end Xpipe
