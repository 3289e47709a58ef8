import Xpipe.Dispatch

/-!
# Calls through the event handlers

A connection in use always has a read handler, and between two rounds it has a
write handler exactly when its write event is on. What can go wrong is inside a
round: the active events were taken down when the batch was polled, and a read
handler that sends a whole response clears the write handler before the write
event of the same round is dispatched.
-/
namespace Xpipe
open Linked Runs

/-- The bytes that `tcp_request_finish` has to send for `r`. -/
def Request.toSend (r : Request) : ℕ := (tcpResponeGenerate r).response.unsent.length

lemma delivery_end (r : Request) (ws : List WriteResult) :
    (r.delivery ws).2 = writesEnd r.toSend ws :=
  sendLoop_end (tcpResponeGenerate r).response ws

/-- The read handler ends a request, and the writes accept all there is to send. -/
def sendsAll (size : ℕ) (c : Conn) (t : Trace) (o : Outcomes) : Bool :=
  match answered size c t o with
  | none => false
  | some r => writesEnd r.toSend o.readWrites == .complete

/-- **What a read does to the write handler.** -/
lemma tcpServerRecv_handler (size e : ℕ) (c : Conn) (t : Trace) (o : Outcomes) :
    (tcpServerRecv size e c t o).1.writeEventHandler =
      if c.events.write = true ∧ sendsAll size c t o = true then none
      else c.writeEventHandler := by
  unfold sendsAll answered
  rcases tcpServerRecv_cases size e c t o with ⟨hnone, heq⟩ | ⟨r, hsome, heq⟩
  · rw [heq, hnone]
    simp
  rw [heq, hsome, Option.bind_some]
  rcases recvInto_cases e c (readerTrace c t o) r o with ⟨hends, hcont⟩ | ⟨r', hends, -, hfin⟩
  · rw [hcont.handler, hends]
    simp
  rw [hfin, hends]
  simp only [← delivery_end]
  rcases tcpRequestFinish_cases { c with request := some r }
    ((readerTrace c t o).record (.parse e r (r.code o))) r' o.readWrites with
    ⟨hend, -, heq⟩ | ⟨hend, -, heq⟩ | ⟨hend, heq⟩ | ⟨hend, -, heq⟩
  · rw [heq, hend]
    simp
  · rw [heq, hend]
    simp
  · rw [heq, hend]
    simp
  · rw [heq, hend]
    simp

/-- A round in which the write event is dispatched after it was given up: the
event was off before, or the read handler of the same round sends everything. -/
def StaleWrite (s : Net) : Input → Prop
  | .poll _ => False
  | .dispatch o => ∃ e, s.cursor = some e ∧ (s.conns e).activeEvents.write = true ∧
      ((s.conns e).events.write = false ∨
        (s.conns e).activeEvents.read = true ∧ (s.conns e).readEventHandler = some .recv ∧
          sendsAll s.bufSize (s.conns e) s.trace o = true)

lemma readConn_handler {c : Conn} (h : c.Rested) (size e : ℕ) (t : Trace) (o : Outcomes) :
    (readConn size e c t o).1.writeEventHandler = none ↔
      c.events.write = false ∨
        c.activeEvents.read = true ∧ c.readEventHandler = some .recv ∧
          sendsAll size c t o = true := by
  unfold readConn
  cases hev : c.events.write with
  | false =>
    have hnone : c.writeEventHandler = none := by rw [h.write, hev]; rfl
    split_ifs
    · rw [tcpServerRecv_handler, hev, hnone]
      simp
    · simp [hnone]
  | true =>
    have hsome : c.writeEventHandler = some .send := by rw [h.write, hev]; rfl
    split_ifs with hread
    · rw [tcpServerRecv_handler, hev, hsome]
      simp [hread]
    · simp only [hsome, reduceCtorEq, false_or, false_iff]
      exact fun hbad => hread ⟨hbad.1, hbad.2.1⟩

/-- A state of the loop in which no NULL handler has been called. -/
def Calling (s : Net) : Prop := Resting s ∧ s.crashed = false

/-- **One step calls no NULL handler exactly when it is not stale.** -/
lemma netStep_crashed_iff {s : Net} (h : Calling s) (i : Input) :
    (netStep s i).crashed = false ↔ ¬ StaleWrite s i := by
  rcases netStep_cases h.1 i with ⟨hbatch, hnone⟩ | ⟨e, o, rfl, hcur, hc, he, hround⟩
  · rw [hbatch.crashed, h.2]
    refine iff_of_true rfl (fun hstale => ?_)
    cases i with
    | poll reports => exact hstale
    | dispatch o =>
      obtain ⟨e, hcur, -⟩ := hstale
      have hcrash := hnone e o rfl hcur
      rw [h.2] at hcrash
      cases hcrash
  · have hcall := readConn_handler (h.1.rested hc e he) s.bufSize e s.trace o
    have hstale : StaleWrite s (.dispatch o) ↔ (s.conns e).activeEvents.write = true ∧
        (readConn s.bufSize e (s.conns e) s.trace o).1.writeEventHandler = none := by
      rw [hcall]
      simp [StaleWrite, hcur]
    rw [hstale]
    rcases hround.ends with ⟨hcrash, hbad⟩ | ⟨hcrash, hok, -⟩
    · simp [hcrash, hbad]
    · simp only [hcrash, true_iff]
      exact hok

lemma initNetworkMod_calling {n : ℕ} (hn : 1 ≤ n) (sockFd : ℤ) (bufSize : ℕ)
    (garbage : ℕ → Conn) : Calling (initNetworkMod n sockFd bufSize garbage) := by
  refine ⟨initNetworkMod_resting hn sockFd bufSize garbage, ?_⟩
  rw [initNetworkMod_eq]
  rfl

/-- **A run calls no NULL handler exactly when none of its rounds is stale.** -/
theorem handlers_called_iff (n : ℕ) (hn : 1 ≤ n) (sockFd : ℤ) (bufSize : ℕ)
    (garbage : ℕ → Conn) (inputs : List Input)
    (hpolls : Along netStep PollsValid (initNetworkMod n sockFd bufSize garbage) inputs) :
    Along netStep (fun s i => (netStep s i).crashed = false)
        (initNetworkMod n sockFd bufSize garbage) inputs ↔
      Along netStep (fun s i => ¬ StaleWrite s i)
        (initNetworkMod n sockFd bufSize garbage) inputs := by
  refine along_iff (I := Calling) (fun s i h hi hq => ?_)
    (fun s i h _ => netStep_crashed_iff h i) (initNetworkMod_calling hn sockFd bufSize garbage) hpolls
  exact ⟨netStep_resting h.1 i hi, (netStep_crashed_iff h i).mpr hq⟩

/-- `PUT`, no headers, a body of one byte. -/
def putBytes : List UInt8 := [80, 85, 84, 13, 10, 13, 10, 49, 13, 10, 48]

/-- A server of two connections. -/
def twoConnections : Net := initNetworkMod 2 3 1024 (fun _ => newConn 0 0)

/-- A client is accepted, and its `PUT` is answered at once. -/
def putAnswered : List Input :=
  [.poll [(0, .readOnly)], .dispatch (outcomes (some 5) [] [] []),
    .poll [(1, .readOnly)], .dispatch (outcomes none putBytes [] [])]

theorem handlers_called_put :
    Along netStep (fun s i => (netStep s i).crashed = false) twoConnections putAnswered :=
  (handlers_called_iff 2 (by decide) 3 1024 (fun _ => newConn 0 0) putAnswered
    ⟨reported_one 3 .readOnly rfl (by decide) (by decide), trivial,
      reported_one 5 .readOnly rfl (by decide) (by decide), trivial, trivial⟩).mpr
    ⟨id, fun ⟨_, hcur, hact, _⟩ => by cases hcur; exact Bool.noConfusion hact, id,
      fun ⟨_, hcur, hact, _⟩ => by cases hcur; exact Bool.noConfusion hact, trivial⟩

/-- The answer to a first `PUT` stops at EAGAIN; then the connection is readable
and writable in one batch, and the answer to a second `PUT` is sent whole. -/
def putTwice : List Input :=
  [.poll [(0, .readOnly)], .dispatch (outcomes (some 5) [] [] []),
    .poll [(1, .readOnly)], .dispatch (outcomes none putBytes [.again] []),
    .poll [(1, .both)], .dispatch (outcomes none putBytes [] [])]

/-- The write event of that batch is dispatched through a NULL handler. -/
theorem handlers_called_stale :
    ¬ ∀ inputs, Along netStep PollsValid twoConnections inputs →
      Along netStep (fun s i => (netStep s i).crashed = false) twoConnections inputs := by
  intro h
  have hrun := h putTwice
    ⟨reported_one 3 .readOnly rfl (by decide) (by decide), trivial,
      reported_one 5 .readOnly rfl (by decide) (by decide), trivial,
      reported_one 5 .both rfl (by decide) (by decide), trivial, trivial⟩
  obtain ⟨-, -, -, -, -, hcall, -⟩ := hrun
  revert hcall
  decide

end Xpipe
