import Xpipe.Registrations
import Xpipe.Releases

/-!
# Write interest and pending output

A connection asks for write events when a send stops at EAGAIN and gives them up
when a send is complete. Both requests are deferred to the end of the round and
carried out in a fixed order, removals first. `readConn_cases` says what a read
leaves for the rest of the round; from it follows exactly when the write event
of a connection is on without output to send, or the reverse.
-/
namespace Xpipe
open Linked Runs

/-- The connection has a request whose response has unsent bytes. -/
def Conn.Pending (c : Conn) : Prop := ∃ r, c.request = some r ∧ r.response.unsent ≠ []

instance (c : Conn) : Decidable c.Pending :=
  match h : c.request with
  | none => .isFalse (fun ⟨r, hr, _⟩ => by rw [h] at hr; cases hr)
  | some r => decidable_of_iff (r.response.unsent ≠ []) (by simp [Conn.Pending, h])

/-- The write event is on exactly when there is something to send. -/
def Conn.Matched (c : Conn) : Prop := c.events.write = true ↔ c.Pending

instance (c : Conn) : Decidable c.Matched :=
  inferInstanceAs (Decidable (c.events.write = true ↔ c.Pending))

/-- The write events of the connections in use are on exactly when there is
something to send. -/
def AllMatched (s : Net) : Prop := ∀ e ∈ s.taken, (s.conns e).Matched

instance (s : Net) : Decidable (AllMatched s) :=
  inferInstanceAs (Decidable (∀ e ∈ s.taken, (s.conns e).Matched))

/-- The request that the read of a round answers with a send that stops at EAGAIN. -/
def stalled (size : ℕ) (c : Conn) (t : Trace) (o : Outcomes) : Option Request :=
  if c.activeEvents.read = true ∧ c.readEventHandler = some .recv then
    (answered size c t o).filter (fun r => writesEnd r.toSend o.readWrites == .again)
  else none

/-- The bytes that the send of an answer leaves. -/
def Request.left (r : Request) (ws : List WriteResult) : ℕ := (r.delivery ws).1.unsent.length

/-- A round that asks for a write event it has no use for. The read answers a
request with a send that stops at EAGAIN, and the request was marked as finished
before, or there was nothing to send, or the write event of the same round sends
what is left. -/
def Misfires (size : ℕ) (c : Conn) (t : Trace) (o : Outcomes) : Prop :=
  ∃ r, stalled size c t o = some r ∧ (r.finish = true ∨ r.toSend = 0 ∨
    c.activeEvents.write = true ∧ writesEnd (r.left o.readWrites) o.writeWrites = .complete)

/-- The connection `c` after the events it asked for were added. -/
def settledConn (c : Conn) : Conn := { c.armed c.addEvents .send with addEvents := .none }

lemma union_none (m : Mask) : Mask.none.union m = m := by
  cases m
  simp [Mask.union, Mask.none]

lemma settledConn_idle {c : Conn} (h : c.addEvents = .none) : settledConn c = c := by
  cases c
  simp only at h
  subst h
  unfold settledConn Conn.armed
  simp only [union_none]
  rfl

/-! ## The read of a round -/

/-- A read that leaves no answer waiting: the connection is to be closed, or
nothing was answered, or the answer was sent whole. -/
inductive Calm (c c₁ : Conn) : Prop
  | closed (close : c₁.close = true)
  | quiet (close : c₁.close = false) (add : c₁.addEvents = .none) (dead : c₁.deadEvents = .none)
      (handler : c₁.writeEventHandler = c.writeEventHandler) (pending : c₁.Pending ↔ c.Pending)
  | sent (close : c₁.close = false) (add : c₁.addEvents = .none) (request : c₁.request = none)
      (dead : c₁.deadEvents = if c.events.write then .writeOnly else .none)
      (handler : c.events.write = true → c₁.writeEventHandler = none)
      (same : c.events.write = false → c₁.writeEventHandler = c.writeEventHandler)

/-- A new request has nothing to send. -/
lemma reader_pending {size : ℕ} {c : Conn} {t : Trace} {o : Outcomes} {r : Request}
    (h : reader size c t o = some r) : r.response.unsent ≠ [] ↔ c.Pending := by
  unfold reader at h
  split at h
  · rename_i r₀ hreq
    cases h
    simp [Conn.Pending, hreq]
  · rename_i hreq
    split_ifs at h
    cases h
    simp [Conn.Pending, hreq, newRequest, Response.unsent]

/-- An answer has at least the bytes to send that were there before. -/
lemma toSend_ge {r r' : Request} {o : Outcomes} (h : r.ends o = some r') :
    r.response.unsent.length ≤ r'.toSend := by
  obtain ⟨d, err, rfl, -⟩ := ends_eq h
  unfold Request.toSend tcpResponeGenerate
  split
  · simp only [Response.unsent, List.length_drop, List.length_append]
    have hsame : (r.parsed o).response = r.response := rfl
    rw [hsame]
    omega
  · exact le_refl _

/-- **All that the read of a round can leave for the rest of it.** -/
lemma readConn_cases {c : Conn} (h : c.Rested) (size e : ℕ) (t : Trace) (o : Outcomes) :
    (stalled size c t o = none ∧ Calm c (readConn size e c t o).1) ∨
    ∃ r, stalled size c t o = some r ∧ (c.Pending → r.toSend ≠ 0) ∧
      ((r.finish = false ∧ (readConn size e c t o).1 =
          { c with request := some (r.delivered o.readWrites), addEvents := .writeOnly }) ∨
        (r.finish = true ∧ (readConn size e c t o).1 =
          { c with request := none, addEvents := .writeOnly })) := by
  unfold stalled readConn
  split_ifs with hread
  · rcases tcpServerRecv_cases size e c t o with ⟨hnone, heq⟩ | ⟨r, hsome, heq⟩
    · left
      rw [heq, answered, hnone]
      exact ⟨rfl, .quiet h.close h.add h.dead rfl Iff.rfl⟩
    have hpending := reader_pending hsome
    rw [heq, answered, hsome, Option.bind_some]
    rcases recvInto_cases e c (readerTrace c t o) r o with ⟨hends, hcont⟩ | ⟨r', hends, -, hfin⟩
    · left
      rw [hends]
      refine ⟨rfl, ?_⟩
      rcases hcont.dead with ⟨hdead, hclose⟩ | ⟨-, hclose⟩
      · refine .quiet (hclose.trans h.close) (hcont.addEvents.trans h.add) (hdead.trans h.dead)
          hcont.handler ?_
        rw [← hpending]
        rcases hcont.request with ⟨-, hreq, -⟩ | ⟨-, -, -, hreq⟩
        · simp [Conn.Pending, hreq]
        · simp [Conn.Pending, hreq, Request.parsed]
      · exact .closed hclose
    · have htoSend : c.Pending → r'.toSend ≠ 0 := by
        intro hp
        have hlen := List.length_pos_of_ne_nil (hpending.mpr hp)
        have hge := toSend_ge hends
        omega
      rw [hfin, hends]
      simp only [← delivery_end, Option.filter_some]
      rcases tcpRequestFinish_cases { c with request := some r }
        ((readerTrace c t o).record (.parse e r (r.code o))) r' o.readWrites with
        ⟨hend, hf, heq⟩ | ⟨hend, hf, heq⟩ | ⟨hend, heq⟩ | ⟨hend, -, heq⟩
      · rw [heq, hend]
        exact Or.inr ⟨r', rfl, htoSend, Or.inl ⟨hf, rfl⟩⟩
      · rw [heq, hend]
        exact Or.inr ⟨r', rfl, htoSend, Or.inr ⟨hf, rfl⟩⟩
      · rw [heq, hend]
        exact Or.inl ⟨rfl, .closed rfl⟩
      · rw [heq, hend]
        refine Or.inl ⟨rfl, .sent h.close h.add rfl ?_ ?_ ?_⟩
        · simp only [h.dead]
        · intro hev
          simp [hev]
        · intro hev
          simp [hev]
  · exact Or.inl ⟨rfl, .quiet h.close h.add h.dead rfl Iff.rfl⟩

/-! ## The write event and the end of the round -/

/-- **All that a send of pending bytes can do.** -/
lemma tcpServerSend_cases {c : Conn} {r : Request} (hreq : c.request = some r)
    (hne : r.response.unsent ≠ []) (ws : List WriteResult) :
    (writesEnd r.response.unsent.length ws = .again ∧ ∃ b : Response, b.unsent ≠ [] ∧
      tcpServerSend c ws =
        { c with request := some { r with response := b }, addEvents := .writeOnly }) ∨
    (writesEnd r.response.unsent.length ws = .failed ∧ (tcpServerSend c ws).close = true) ∨
    (writesEnd r.response.unsent.length ws = .complete ∧ ∃ b : Response, b.unsent = [] ∧
      tcpServerSend c ws =
        { c with
          request := some { r with response := b, finish := true }
          deadEvents := if c.events.write then .writeOnly else c.deadEvents
          writeEventHandler := if c.events.write then none else c.writeEventHandler }) := by
  rw [← sendLoop_end]
  unfold tcpServerSend
  rw [hreq]
  simp only
  cases hend : (sendLoop r.response ws).2 with
  | again =>
    refine Or.inl ⟨rfl, _, fun hnil => hne ?_, rfl⟩
    exact List.eq_nil_of_length_eq_zero ((sendLoop_again hend).mp hnil)
  | failed => exact Or.inr (Or.inl ⟨rfl, rfl⟩)
  | complete =>
    refine Or.inr (Or.inr ⟨rfl, _, ?_, rfl⟩)
    exact @sendLoop_complete r.response _ ws (Prod.ext rfl hend)

/-- A connection that is to be closed stays so. -/
lemma writeConn_close (c : Conn) (o : Outcomes) (h : c.close = true) :
    (writeConn c o).close = true := by
  unfold writeConn
  split_ifs
  · unfold tcpServerSend
    split
    · exact h
    · simp only
      split
      · exact h
      · rfl
      · exact h
  · exact h

/-- The end of a round in which no answer is left waiting by the read. -/
lemma calm_matched {c c₁ : Conn} {o : Outcomes} (hr : c.Rested) (hm : c.Matched)
    (hevents : c₁.events = c.events) (hactive : c₁.activeEvents = c.activeEvents)
    (hcall : ¬ (c.activeEvents.write = true ∧ c₁.writeEventHandler = none)) (hcalm : Calm c c₁)
    (hclose : (writeConn c₁ o).close = false) :
    (settledConn (deadConn (writeConn c₁ o))).Matched := by
  have hshut := writeConn_close c₁ o
  unfold writeConn at hshut hclose ⊢
  rw [hactive] at hshut hclose ⊢
  cases hcalm with
  | closed hbad =>
    rw [hbad] at hshut
    rw [hshut rfl] at hclose
    cases hclose
  | quiet hc hadd hdead hhandler hpending =>
    split_ifs at hclose ⊢ with hact
    · -- the write event is dispatched, so it was on, and there is something to send
      have hon : c.events.write = true := by
        by_contra hoff
        refine hcall ⟨hact, ?_⟩
        rw [hhandler, hr.write, if_neg hoff]
      obtain ⟨r, hreq, hne⟩ := hpending.mpr (hm.mp hon)
      rcases tcpServerSend_cases hreq hne o.writeWrites with
        ⟨-, b, hb, heq⟩ | ⟨-, hbad⟩ | ⟨-, b, hb, heq⟩
      · rw [heq]
        refine iff_of_true ?_ ⟨_, rfl, hb⟩
        simp [settledConn, Conn.armed, deadConn, Mask.union, Mask.writeOnly]
      · rw [hbad] at hclose
        cases hclose
      · rw [heq]
        refine iff_of_false ?_ ?_
        · simp [settledConn, Conn.armed, deadConn, hadd, hevents, hon, Mask.union, Mask.none,
            Mask.diff, Mask.writeOnly]
        · simp [Conn.Pending, settledConn, Conn.armed, deadConn, hb]
    · have hev : (settledConn (deadConn c₁)).events = c.events := by
        simp only [settledConn, Conn.armed, deadConn]
        rw [hadd, hdead, diff_none, union_none, hevents]
      unfold Conn.Matched
      rw [hev]
      exact hm.trans hpending.symm
  | sent hc hadd hreq hdead hhandler hsame =>
    split_ifs at hclose ⊢ with hact
    · exfalso
      refine hcall ⟨hact, ?_⟩
      cases hon : c.events.write with
      | true => exact hhandler hon
      | false => rw [hsame hon, hr.write, hon]; rfl
    · refine iff_of_false ?_ ?_
      · cases hon : c.events.write with
        | true =>
          simp [settledConn, Conn.armed, deadConn, hadd, hdead, hevents, hon, Mask.union,
            Mask.none, Mask.diff, Mask.writeOnly]
        | false =>
          simp [settledConn, Conn.armed, deadConn, hadd, hdead, hevents, hon, Mask.union,
            Mask.none, Mask.diff]
      · simp [Conn.Pending, settledConn, Conn.armed, deadConn, hreq]

/-- The end of a round in which the read left an answer waiting. -/
lemma stalled_matched {c : Conn} {r : Request} {o : Outcomes} (hr : c.Rested) (hm : c.Matched)
    (hcall : ¬ (c.activeEvents.write = true ∧ c.writeEventHandler = none))
    (hend : (r.delivery o.readWrites).2 = .again) (htoSend : c.Pending → r.toSend ≠ 0) :
    (writeConn { c with request := some (r.delivered o.readWrites), addEvents := .writeOnly }
        o).close = false ∧
      ((settledConn (deadConn (writeConn { c with
          request := some (r.delivered o.readWrites), addEvents := .writeOnly } o))).Matched ↔
        ¬ (r.toSend = 0 ∨ c.activeEvents.write = true ∧
          writesEnd (r.left o.readWrites) o.writeWrites = .complete)) ∨
    (writeConn { c with request := some (r.delivered o.readWrites), addEvents := .writeOnly }
        o).close = true ∧
      ¬ (r.toSend = 0 ∨ c.activeEvents.write = true ∧
          writesEnd (r.left o.readWrites) o.writeWrites = .complete) := by
  have hleft : (r.delivered o.readWrites).response.unsent = [] ↔ r.toSend = 0 := sendLoop_again hend
  unfold writeConn
  simp only
  split_ifs with hact
  · have hon : c.events.write = true := by
      by_contra hoff
      refine hcall ⟨hact, ?_⟩
      rw [hr.write, if_neg hoff]
    have hpos := htoSend (hm.mp hon)
    have hne : (r.delivered o.readWrites).response.unsent ≠ [] := fun hnil => hpos (hleft.mp hnil)
    have hsame : (r.delivered o.readWrites).response.unsent.length = r.left o.readWrites := rfl
    have hsend := @tcpServerSend_cases { c with
      request := some (r.delivered o.readWrites), addEvents := .writeOnly } _ rfl hne o.writeWrites
    rw [hsame] at hsend
    rcases hsend with ⟨hw, b, hb, heq⟩ | ⟨hw, hbad⟩ | ⟨hw, b, hb, heq⟩
    · left
      rw [heq, hw]
      refine ⟨hr.close, iff_of_true (iff_of_true ?_ ⟨_, rfl, hb⟩) (by simp [hpos])⟩
      simp [settledConn, Conn.armed, deadConn, Mask.union, Mask.writeOnly]
    · right
      rw [hw]
      exact ⟨hbad, by simp [hpos]⟩
    · left
      rw [heq, hw]
      refine ⟨hr.close, iff_of_false (fun hmatched => ?_) (by simp [hact])⟩
      have hwrite := hmatched.mp (by
        simp [settledConn, Conn.armed, deadConn, Mask.union, Mask.writeOnly])
      simp [Conn.Pending, settledConn, Conn.armed, deadConn, hb] at hwrite
  · left
    refine ⟨hr.close, ?_⟩
    unfold Conn.Matched
    simp [hact, ← hleft, settledConn, Conn.armed, deadConn, Mask.union, Mask.writeOnly, Conn.Pending]

lemma stalled_again {size : ℕ} {c : Conn} {t : Trace} {o : Outcomes} {r : Request}
    (h : stalled size c t o = some r) : (r.delivery o.readWrites).2 = .again := by
  unfold stalled at h
  split_ifs at h
  rw [delivery_end]
  simpa using (Option.filter_eq_some_iff.mp h).2

/-- **The write event at the end of a round.** Unless the connection is closed, it
is on for pending output exactly when the round does not misfire. -/
lemma round_matched {c : Conn} (hr : c.Rested) (hm : c.Matched) (size e : ℕ) (t : Trace)
    (o : Outcomes) (hcall : ¬ (c.activeEvents.write = true ∧
      (readConn size e c t o).1.writeEventHandler = none)) :
    ((writeConn (readConn size e c t o).1 o).close = true ∧ ¬ Misfires size c t o) ∨
    ((writeConn (readConn size e c t o).1 o).close = false ∧
      ((settledConn (deadConn (writeConn (readConn size e c t o).1 o))).Matched ↔
        ¬ Misfires size c t o)) := by
  have hactive := readConn_activeEvents size e c t o
  have hevents : (readConn size e c t o).1.events = c.events := by
    unfold readConn
    split_ifs
    · exact (tcpServerRecv_frame size e c t o).events
    · rfl
  rcases readConn_cases hr size e t o with ⟨hnone, hcalm⟩ | ⟨r, hsome, htoSend, hcases⟩
  · have hno : ¬ Misfires size c t o := by simp [Misfires, hnone]
    cases hclose : (writeConn (readConn size e c t o).1 o).close with
    | true => exact Or.inl ⟨rfl, hno⟩
    | false =>
      refine Or.inr ⟨rfl, iff_of_true ?_ hno⟩
      exact calm_matched hr hm hevents hactive hcall hcalm hclose
  · have hmis : Misfires size c t o ↔ r.finish = true ∨ r.toSend = 0 ∨
        c.activeEvents.write = true ∧
          writesEnd (r.left o.readWrites) o.writeWrites = .complete := by
      simp [Misfires, hsome]
    rw [hmis]
    rcases hcases with ⟨hf, heq⟩ | ⟨hf, heq⟩
    · rw [heq] at hcall ⊢
      rw [hf]
      simp only [Bool.false_eq_true, false_or]
      exact (stalled_matched hr hm hcall (stalled_again hsome) htoSend).symm
    · -- the request is gone, and the write event is asked for
      rw [heq, hf]
      have hsame : writeConn { c with request := none, addEvents := .writeOnly } o =
          { c with request := none, addEvents := .writeOnly } := by
        unfold writeConn tcpServerSend
        simp
      rw [hsame]
      refine Or.inr ⟨hr.close, iff_of_false (fun hmatched => ?_) (by simp)⟩
      have hwrite := hmatched.mp (by
        simp [settledConn, Conn.armed, deadConn, Mask.union, Mask.writeOnly])
      simp [Conn.Pending, settledConn, Conn.armed, deadConn] at hwrite

/-! ## A step of the server -/

/-- The `epoll_ctl` calls of a round are not refused. -/
def Input.Granted : Input → Prop
  | .poll _ => True
  | .dispatch o => o.ctlAdd = true ∧ o.ctlDel = true ∧ o.ctlWrite = true

lemma addPart_settled {s : Net} {e : ℕ} {o : Outcomes} (h : OpFits s e)
    (hctl : o.ctlWrite = true) : (addPart s e o).conns e = settledConn (s.conns e) := by
  unfold addPart
  split_ifs with hadd
  · rw [settledConn_idle hadd]
  · obtain ⟨s', hs'⟩ := Option.isSome_iff_exists.mp
      (addEvent_of_fits h (s.conns e).addEvents .send)
    rw [hctl, hs', Option.getD_some]
    unfold addEvent at hs'
    split at hs'
    · cases hs'
    · cases hs'
      simp [Net.setConn, settledConn]

/-- The connection of a round whose `epoll_ctl` calls are granted. -/
lemma dispatch_settled {s : Net} {free act : List ℕ} {e : ℕ} {o : Outcomes} (h : Registered s)
    (hw : Wired s free (e :: act)) (hf : Fds s none) (hr : (s.conns e).Rested)
    (hc : s.crashed = false) (hdel : o.ctlDel = true) (hctl : o.ctlWrite = true)
    (hc' : (dispatch s e o).crashed = false)
    (hclose : (writeConn (readConn s.bufSize e (s.conns e) s.trace o).1 o).close = false) :
    (dispatch s e o).conns e =
      settledConn (deadConn (writeConn (readConn s.bufSize e (s.conns e) s.trace o).1 o)) := by
  have he : e ∈ s.taken := hw.inUse e (by simp)
  have hfits := dispatch_fits h hw hf hdel
  obtain ⟨-, hconn₁, he₁, hc₁⟩ := readPart_around hw he hr.busy o
  rw [hc] at hc₁
  have hbusy₁ := hr.busy.readConn s.bufSize e s.trace o
  rw [← hconn₁] at hbusy₁
  obtain ⟨-, hends⟩ := writePart_around he₁ hbusy₁ hc₁ o
  rw [hconn₁] at hends
  unfold dispatch at hc' ⊢
  rcases hends with ⟨hc₂, -⟩ | ⟨hc₂, -, hconn₂, he₂⟩
  · simp [hc₁, hc₂] at hc'
  · obtain ⟨-, hconn₃, -, -⟩ := deadPart_around he₂ o
    rw [hconn₂] at hconn₃
    simp only [hc₁, hc₂, Bool.false_eq_true, if_false]
    have hopen : ((deadPart (writePart (readPart s e o) e o) e o).conns e).close = false := by
      rw [hconn₃]
      exact hclose
    unfold closePart
    simp only [hopen, Bool.false_eq_true, if_false, Net.advanceTo]
    by_cases hadd : ((deadPart (writePart (readPart s e o) e o) e o).conns e).addEvents = .none
    · have hsame : addPart (deadPart (writePart (readPart s e o) e o) e o) e o =
          deadPart (writePart (readPart s e o) e o) e o := by
        unfold addPart
        rw [if_pos hadd]
      rw [hconn₃] at hadd
      rw [hsame, hconn₃, settledConn_idle hadd]
    · rw [addPart_settled (hfits.calls.add hc₂ hopen hadd) hctl, hconn₃]

/-- The connection after a round, the last of its batch, whose answer stops at EAGAIN
on a request that is not finished. -/
lemma stalled_stays {s : Net} {e : ℕ} {o : Outcomes} {r : Request} (h : Agreeing s)
    (hc : s.crashed = false) (hcur : s.cursor = some e)
    (hread : (s.conns e).activeEvents = .readOnly) (hdel : o.ctlDel = true)
    (hctl : o.ctlWrite = true) (hnext : (s.conns e).next = none)
    (hstalled : stalled s.bufSize (s.conns e) s.trace o = some r) (hfin : r.finish = false) :
    (netStep s (.dispatch o)).crashed = false ∧ (netStep s (.dispatch o)).cursor = none ∧
      e ∈ (netStep s (.dispatch o)).taken ∧ (netStep s (.dispatch o)).conns e =
        settledConn { s.conns e with
          request := some (r.delivered o.readWrites), addEvents := .writeOnly } := by
  obtain ⟨free, act, hw, hf⟩ := h.resting.wired
  have hact := hw.actList
  rw [hcur] at hact
  obtain ⟨rest, rfl, hrest⟩ := hact.head_some
  rw [show s.links e = none from hnext] at hrest
  obtain rfl := hrest.head_none
  have hr := h.resting.rested hc e (hw.inUse e (by simp))
  have hwrite : (s.conns e).activeEvents.write = false := by rw [hread]; rfl
  have hconn : (readConn s.bufSize e (s.conns e) s.trace o).1 = { s.conns e with
      request := some (r.delivered o.readWrites), addEvents := .writeOnly } := by
    rcases readConn_cases hr s.bufSize e s.trace o with ⟨hnone, -⟩ | ⟨x, hsome, -, hcases⟩
    · rw [hstalled] at hnone
      cases hnone
    · rw [hstalled] at hsome
      cases hsome
      rcases hcases with ⟨-, heq⟩ | ⟨hbad, -⟩
      · exact heq
      · rw [hfin] at hbad
        cases hbad
  obtain ⟨hgo, hend⟩ : (dispatch s e o).crashed = false ∧ RoundEnd e
      (deadConn (writeConn (readConn s.bufSize e (s.conns e) s.trace o).1 o)) (dispatch s e o) := by
    rcases (dispatch_round hw hf hc hr o).ends with ⟨-, hbad, -⟩ | ⟨hgo, -, hend⟩
    · rw [hwrite] at hbad
      cases hbad
    · exact ⟨hgo, hend⟩
  have hwriteConn : writeConn (readConn s.bufSize e (s.conns e) s.trace o).1 o = { s.conns e with
      request := some (r.delivered o.readWrites), addEvents := .writeOnly } := by
    rw [hconn]
    unfold writeConn
    rw [if_neg (by simp [hwrite])]
  have hopen : (writeConn (readConn s.bufSize e (s.conns e) s.trace o).1 o).close = false := by
    rw [hwriteConn]
    exact hr.close
  have hsettled := dispatch_settled h.registered hw hf hr hc hdel hctl hgo hopen
  obtain ⟨free', act', hw', -, hempty⟩ := dispatch_wired hw hf o
  obtain rfl := hempty hgo
  rw [netStep_dispatch hc hcur]
  refine ⟨hgo, hw'.actList, hend.taken hopen, ?_⟩
  rw [hsettled, hwriteConn]
  unfold deadConn
  simp only [hr.dead, diff_none]

/-- The masks of the server agree with the kernel, and the write events with the
pending output. -/
structure Pairing (s : Net) : Prop where
  agreeing : Agreeing s
  matched : s.crashed = false → AllMatched s

/-- A round that misfires, and does not end the process by a stale write event. -/
def MisfiringRound (s : Net) : Input → Prop
  | .poll _ => False
  | .dispatch o => s.crashed = false ∧ ¬ StaleWrite s (.dispatch o) ∧
      ∃ e, s.cursor = some e ∧ Misfires s.bufSize (s.conns e) s.trace o

/-- The connections that a round does not dispatch stay matched. -/
lemma round_others {s s' : Net} {t : Trace} {e : ℕ} (h : AllMatched s) (haround : Around e s s' t)
    {i : ℕ} (hi : i ∈ s'.taken) (hie : i ≠ e) : (s'.conns i).Matched := by
  by_cases hin : i ∈ s.taken
  · rw [(haround.kept i hin hie).2]
    exact h i hin
  · obtain ⟨fd, p, hconn⟩ := haround.new i hi hin
    rw [hconn]
    refine iff_of_false ?_ ?_
    · simp [Conn.armed, newConn, Mask.union, Mask.readOnly, Mask.none]
    · simp [Conn.Pending, Conn.armed, newConn]

/-- **One step keeps the write events matched exactly when it does not misfire.** -/
lemma netStep_matched_iff {s : Net} (h : Pairing s) {i : Input} (hg : i.Granted) :
    ((netStep s i).crashed = false → AllMatched (netStep s i)) ↔ ¬ MisfiringRound s i := by
  rcases netStep_cases h.agreeing.resting i with
    ⟨hbatch, hnone⟩ | ⟨e, o, rfl, hcur, hc, he, hround⟩
  · refine iff_of_true (fun hc' e he => ?_) (fun hbad => ?_)
    · rw [hbatch.crashed] at hc'
      rw [hbatch.taken] at he
      obtain ⟨m, next, hconn⟩ := hbatch.conn e
      rw [hconn]
      exact h.matched hc' e he
    · cases i with
      | poll reports => exact hbad
      | dispatch o =>
        obtain ⟨hc, -, e, hcur, -⟩ := hbad
        rw [hnone e o rfl hcur] at hc
        cases hc
  have hcrash := netStep_crashed_iff ⟨h.agreeing.resting, hc⟩ (.dispatch o)
  have hrest := h.agreeing.resting.rested hc e he
  have hmatched := h.matched hc
  rcases hround.ends with ⟨hc', -⟩ | ⟨hc', hcall, hend⟩
  · refine iff_of_true (fun hgo => ?_) (fun hbad => ?_)
    · rw [hc'] at hgo
      cases hgo
    · rw [hcrash.mpr hbad.2.1] at hc'
      cases hc'
  have hmis : MisfiringRound s (.dispatch o) ↔ Misfires s.bufSize (s.conns e) s.trace o := by
    have hgo := hcrash.mp hc'
    simp [MisfiringRound, hc, hcur, hgo]
  rw [hmis, imp_iff_right hc']
  rcases round_matched hrest (hmatched e he) s.bufSize e s.trace o hcall with
    ⟨hclose, hno⟩ | ⟨hclose, hiff⟩
  · refine iff_of_true (fun i hi => ?_) hno
    refine round_others hmatched hround.around hi ?_
    rintro rfl
    exact hend.gone hclose hi
  · obtain ⟨free, act, hw, hf⟩ := h.agreeing.resting.wired
    obtain ⟨rest, rfl⟩ := hw.at_cursor hcur
    rw [netStep_dispatch hc hcur] at hc' hend hround ⊢
    have hconn := dispatch_settled h.agreeing.registered hw hf hrest hc hg.2.1 hg.2.2 hc' hclose
    rw [← hiff, ← hconn]
    constructor
    · intro hall
      exact hall e (hend.taken hclose)
    · intro hown i hi
      by_cases hie : i = e
      · rw [hie]
        exact hown
      · exact round_others hmatched hround.around hi hie

lemma Input.Granted.drops {i : Input} (h : i.Granted) : i.Drops := by
  cases i with
  | poll reports => trivial
  | dispatch o => exact h.2.1

lemma initNetworkMod_pairing {n : ℕ} (hn : 1 ≤ n) (sockFd : ℤ) (bufSize : ℕ)
    (garbage : ℕ → Conn) : Pairing (initNetworkMod n sockFd bufSize garbage) := by
  refine ⟨initNetworkMod_agreeing hn sockFd bufSize garbage, fun _ e he => ?_⟩
  rw [initNetworkMod_eq] at he ⊢
  obtain rfl := List.mem_singleton.mp he
  refine iff_of_false ?_ ?_
  · simp [listenConn, Mask.readOnly]
  · simp [Conn.Pending, listenConn, newConn]

/-- **After every round of a run the write events match the pending output, exactly
when no round misfires.** -/
theorem interest_matches_iff (n : ℕ) (hn : 1 ≤ n) (sockFd : ℤ) (bufSize : ℕ)
    (garbage : ℕ → Conn) (inputs : List Input)
    (henv : Along netStep (fun s i => PollsValid s i ∧ i.Granted)
      (initNetworkMod n sockFd bufSize garbage) inputs) :
    Along netStep (fun s i => (netStep s i).crashed = false → AllMatched (netStep s i))
        (initNetworkMod n sockFd bufSize garbage) inputs ↔
      Along netStep (fun s i => ¬ MisfiringRound s i)
        (initNetworkMod n sockFd bufSize garbage) inputs := by
  refine along_iff (I := Pairing) (fun s i h hi hq => ?_)
    (fun s i h hi => netStep_matched_iff h hi.2) (initNetworkMod_pairing hn sockFd bufSize garbage)
    henv
  exact ⟨(netStep_agreeing h.agreeing i hi.1 hi.2.drops).1, (netStep_matched_iff h hi.2).mpr hq⟩

/-- A `PUT` whose answer waits for the write event. -/
theorem interest_matches_put :
    Along netStep (fun s i => (netStep s i).crashed = false → AllMatched (netStep s i))
      twoConnections putWaits :=
  (interest_matches_iff 2 (by decide) 3 1024 (fun _ => newConn 0 0) putWaits
    ⟨⟨reported_one 3 .readOnly rfl (by decide) (by decide), trivial⟩, ⟨trivial, rfl, rfl, rfl⟩,
      ⟨reported_one 5 .readOnly rfl (by decide) (by decide), trivial⟩, ⟨trivial, rfl, rfl, rfl⟩,
      ⟨reported_one 5 .both rfl (by decide) (by decide), trivial⟩, ⟨trivial, rfl, rfl, rfl⟩,
      trivial⟩).mpr
    ⟨id, fun ⟨_, _, _, hcur, _, hs, _⟩ => (by cases hcur; cases hs), id,
      fun ⟨_, _, _, hcur, _, hs, hbad⟩ => (by
        cases hcur
        cases hs
        revert hbad
        decide +kernel), id,
      fun ⟨_, _, _, hcur, _, hs, _⟩ => (by cases hcur; cases hs), trivial⟩

/-- The answer to a second `PUT` stops at EAGAIN on a request that was finished
before: the request is released, and its connection waits to write nothing. -/
theorem interest_matches_lost :
    ¬ ∀ inputs, Along netStep (fun s i => PollsValid s i ∧ i.Granted) twoConnections inputs →
      (inputs.foldl netStep twoConnections).crashed = false →
        AllMatched (inputs.foldl netStep twoConnections) := by
  intro h
  have hall := h putLost
    ⟨⟨reported_one 3 .readOnly (by decide +kernel) (by decide) (by decide +kernel), trivial⟩,
      ⟨trivial, rfl, rfl, rfl⟩,
      ⟨reported_one 5 .readOnly (by decide +kernel) (by decide) (by decide +kernel), trivial⟩,
      ⟨trivial, rfl, rfl, rfl⟩,
      ⟨reported_one 5 .both (by decide +kernel) (by decide) (by decide +kernel), trivial⟩,
      ⟨trivial, rfl, rfl, rfl⟩,
      ⟨reported_one 5 .readOnly (by decide +kernel) (by decide) (by decide +kernel), trivial⟩,
      ⟨trivial, rfl, rfl, rfl⟩, trivial⟩ (by decide +kernel)
  revert hall
  decide +kernel

end Xpipe
