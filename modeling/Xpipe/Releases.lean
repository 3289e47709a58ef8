import Xpipe.Handlers

/-!
# Releasing a request

`tcp_request_finish` releases a request when its `finish` is set. The flag says
that a send was complete, but it is never cleared: a request that was answered
after EAGAIN by the write handler stays on its connection with `finish` set, and
the next answer it gets is released with whatever the send left behind.
-/
namespace Xpipe
open Linked Runs

/-- A request that is released was sent whole, or its connection is to be closed. -/
def Event.Sent : Event → Prop
  | .parse _ _ _ => True
  | .release r close => r.response.unsent = [] ∨ close = true

instance : (ev : Event) → Decidable ev.Sent
  | .parse _ _ _ => inferInstanceAs (Decidable True)
  | .release r close => inferInstanceAs (Decidable (r.response.unsent = [] ∨ close = true))

/-- Every released request was sent whole, or its connection was to be closed. -/
def AllSent (log : List Event) : Prop := ∀ ev ∈ log, ev.Sent

instance (log : List Event) : Decidable (AllSent log) :=
  inferInstanceAs (Decidable (∀ ev ∈ log, ev.Sent))

/-- A request was released with bytes that no `write` accepted. -/
def Lost (log : List Event) : Prop :=
  ∃ r, Event.release r false ∈ log ∧ r.response.unsent ≠ []

lemma allSent_iff (log : List Event) : AllSent log ↔ ¬ Lost log := by
  constructor
  · rintro hsent ⟨r, hin, hne⟩
    rcases hsent _ hin with hnil | hclose
    · exact hne hnil
    · cases hclose
  · intro hlost ev hin
    cases ev with
    | parse e r code => trivial
    | release r close =>
      cases close with
      | true => exact Or.inr rfl
      | false =>
        left
        by_contra hne
        exact hlost ⟨r, hin, hne⟩

/-- The read answers a request that is already marked as finished, and the send
stops at EAGAIN with bytes left. -/
def StaleFinish (c : Conn) (o : Outcomes) : Prop :=
  ∃ r r', c.request = some r ∧ r.finish = true ∧ r.ends o = some r' ∧ r'.toSend ≠ 0 ∧
    writesEnd r'.toSend o.readWrites = .again

lemma lost_record_parse (t : Trace) (e : ℕ) (r : Request) (code : Code) :
    Lost (t.record (.parse e r code)).log ↔ Lost t.log := by
  simp [Lost, Trace.record]

lemma lost_release {t : Trace} {r r' : Request} {close : Bool} :
    Lost ((t.record (.release r close)).destroyRequest r').log ↔
      Lost t.log ∨ close = false ∧ r.response.unsent ≠ [] := by
  simp only [Lost, Trace.record, Trace.destroyRequest, Trace.destroyPool, List.mem_cons,
    Event.release.injEq]
  constructor
  · rintro ⟨x, ⟨rfl, rfl⟩ | hin, hne⟩
    · exact Or.inr ⟨rfl, hne⟩
    · exact Or.inl ⟨x, hin, hne⟩
  · rintro (⟨x, hin, hne⟩ | ⟨rfl, hne⟩)
    · exact ⟨x, Or.inr hin, hne⟩
    · exact ⟨r, Or.inl ⟨rfl, rfl⟩, hne⟩

/-- **What `tcp_request_finish` loses.** -/
lemma tcpRequestFinish_lost {c : Conn} (hclose : c.close = false) (t : Trace) (r : Request)
    (ws : List WriteResult) :
    Lost (tcpRequestFinish c t r ws).2.log ↔ Lost t.log ∨
      (r.finish = true ∧ r.toSend ≠ 0 ∧ writesEnd r.toSend ws = .again) := by
  rw [← delivery_end]
  rcases tcpRequestFinish_cases c t r ws with
    ⟨hend, hfin, heq⟩ | ⟨hend, hfin, heq⟩ | ⟨hend, heq⟩ | ⟨hend, hall, heq⟩
  · rw [heq, hend, hfin]
    simp
  · have hleft : (r.delivered ws).response.unsent = [] ↔ r.toSend = 0 := sendLoop_again hend
    rw [heq, lost_release, hend, hfin, hclose, Ne, Ne, hleft]
    simp
  · rw [heq, lost_release, hend]
    simp
  · have hnone : ({ r.delivered ws with finish := true } : Request).response.unsent = [] := hall
    rw [heq, lost_release, hend, hnone]
    simp

/-- **What a read loses.** -/
lemma tcpServerRecv_lost {c : Conn} (hclose : c.close = false) (size e : ℕ) (t : Trace)
    (o : Outcomes) :
    Lost (tcpServerRecv size e c t o).2.log ↔ Lost t.log ∨ StaleFinish c o := by
  rw [← readerTrace_log c t o]
  rcases tcpServerRecv_cases size e c t o with ⟨hnone, heq⟩ | ⟨r, hsome, heq⟩
  · have hreq : c.request = none := by
      unfold reader at hnone
      split at hnone
      · cases hnone
      · assumption
    rw [heq]
    simp [StaleFinish, hreq]
  · -- a request that is new has not been finished
    have hstale : StaleFinish c o ↔ ∃ r', r.finish = true ∧ r.ends o = some r' ∧ r'.toSend ≠ 0 ∧
        writesEnd r'.toSend o.readWrites = .again := by
      unfold reader at hsome
      split at hsome
      · rename_i hreq
        cases hsome
        simp [StaleFinish, hreq]
      · rename_i hreq
        split_ifs at hsome
        cases hsome
        simp [StaleFinish, hreq, newRequest]
    rw [heq, hstale]
    rcases recvInto_cases e c (readerTrace c t o) r o with ⟨hends, hcont⟩ | ⟨r', hends, -, hfin⟩
    · rw [hends]
      rcases hcont.request with ⟨-, -, htrace⟩ | ⟨-, -, htrace, -⟩
      · simp [htrace]
      · rw [htrace, lost_record_parse]
        simp
    · obtain ⟨d, err, hr', -⟩ := ends_eq hends
      have hfinish : r'.finish = r.finish := by
        rw [hr']
        rfl
      rw [hfin, tcpRequestFinish_lost (c := { c with request := some r }) hclose, lost_record_parse,
        hends, hfinish]
      simp

/-- A round whose read answers a request that is already marked as finished and
leaves bytes unsent. -/
def StaleRelease (s : Net) : Input → Prop
  | .poll _ => False
  | .dispatch o => s.crashed = false ∧ ∃ e, s.cursor = some e ∧
      (s.conns e).activeEvents.read = true ∧ (s.conns e).readEventHandler = some .recv ∧
      StaleFinish (s.conns e) o

/-- **One step loses bytes exactly when it is stale.** -/
lemma netStep_lost_iff {s : Net} (h : Resting s) (i : Input) :
    Lost (netStep s i).trace.log ↔ Lost s.trace.log ∨ StaleRelease s i := by
  rcases netStep_cases h i with ⟨hbatch, hnone⟩ | ⟨e, o, rfl, hcur, hc, he, hround⟩
  · have hno : ¬ StaleRelease s i := by
      intro hstale
      cases i with
      | poll reports => exact hstale
      | dispatch o =>
        obtain ⟨hc, e, hcur, -⟩ := hstale
        rw [hnone e o rfl hcur] at hc
        cases hc
    rw [hbatch.trace]
    simp [hno]
  · rw [hround.log]
    unfold readConn
    split_ifs with hread
    · rw [tcpServerRecv_lost (h.rested hc e he).close]
      simp [StaleRelease, hcur, hc, hread]
    · have hno : ¬ StaleRelease s (.dispatch o) := by
        rintro ⟨-, e', hcur', hact, hhandler, -⟩
        rw [hcur] at hcur'
        cases hcur'
        exact hread ⟨hact, hhandler⟩
      simp [hno]

/-- **No response is lost in a run exactly when none of its rounds is stale.** -/
theorem releases_sent_iff (n : ℕ) (hn : 1 ≤ n) (sockFd : ℤ) (bufSize : ℕ)
    (garbage : ℕ → Conn) (inputs : List Input)
    (hpolls : Along netStep PollsValid (initNetworkMod n sockFd bufSize garbage) inputs) :
    AllSent (inputs.foldl netStep (initNetworkMod n sockFd bufSize garbage)).trace.log ↔
      Along netStep (fun s i => ¬ StaleRelease s i)
        (initNetworkMod n sockFd bufSize garbage) inputs := by
  have hstart : ¬ Lost (initNetworkMod n sockFd bufSize garbage).trace.log := by
    rw [initNetworkMod_eq]
    simp [Lost]
  have hrun := not_final_iff (I := Resting) (W := fun s => Lost s.trace.log)
    (fun s i h hi => netStep_resting h i hi) (fun s i h _ => netStep_lost_iff h i)
    (initNetworkMod_resting hn sockFd bufSize garbage) hpolls
  rw [allSent_iff, hrun, and_iff_right hstart]

/-- A `PUT` whose answer is sent at once. -/
theorem releases_sent_put : AllSent (putAnswered.foldl netStep twoConnections).trace.log :=
  (releases_sent_iff 2 (by decide) 3 1024 (fun _ => newConn 0 0) putAnswered
    ⟨reported_one 3 .readOnly rfl (by decide) (by decide), trivial,
      reported_one 5 .readOnly rfl (by decide) (by decide), trivial, trivial⟩).mpr
    ⟨id, fun ⟨_, _, hcur, _, hrecv, _⟩ => (by cases hcur; cases hrecv), id,
      fun ⟨_, _, hcur, _, _, _, _, hreq, _⟩ => (by cases hcur; cases hreq), trivial⟩

/-- The answer to a first `PUT` stops at EAGAIN and is sent by the write handler;
the answer to a second one stops at EAGAIN again. -/
def putLost : List Input :=
  [.poll [(0, .readOnly)], .dispatch (outcomes (some 5) [] [] []),
    .poll [(1, .readOnly)], .dispatch (outcomes none putBytes [.again] []),
    .poll [(1, .writeOnly)], .dispatch (outcomes none [] [] []),
    .poll [(1, .readOnly)], .dispatch (outcomes none putBytes [.again] [])]

/-- The second answer is released with all its bytes unsent. -/
theorem releases_sent_lost :
    ¬ ∀ inputs, Along netStep PollsValid twoConnections inputs →
      AllSent (inputs.foldl netStep twoConnections).trace.log := by
  intro h
  have hsent := h putLost
    ⟨reported_one 3 .readOnly (by decide +kernel) (by decide) (by decide +kernel), trivial,
      reported_one 5 .readOnly (by decide +kernel) (by decide) (by decide +kernel), trivial,
      reported_one 5 .both (by decide +kernel) (by decide) (by decide +kernel), trivial,
      reported_one 5 .readOnly (by decide +kernel) (by decide) (by decide +kernel), trivial,
      trivial⟩
  revert hsent
  decide +kernel

end Xpipe
