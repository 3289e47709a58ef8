import Xpipe.Handlers

/-!
# Cached masks and registrations

`conn->events` is the server's copy of the mask that epoll holds for the
descriptor of the connection, and the operation of every `epoll_ctl` is chosen
from the copy. `Registered` says that the two agree for the connections in use.
It is kept by accepting, by the deferred removals and additions and by closing,
as long as `epoll_del_event`, which does not look at the result of its call, is
not refused.
-/
namespace Xpipe
open Linked Runs

/-- The mask that the kernel holds for a descriptor; absent means no event. -/
def Kernel.mask (k : Kernel) (fd : ℤ) : Mask := (k.interest fd).elim .none Prod.fst

/-- The registration of the entry `e` with the events `m`. -/
def registration (m : Mask) (e : ℕ) : Option (Mask × ℕ) :=
  if m = .none then none else some (m, e)

/-- Every connection in use is registered with the events it has, or is absent
when it has none. -/
def Registered (s : Net) : Prop :=
  ∀ e ∈ s.taken, s.kernel.interest (s.conns e).connFd = registration (s.conns e).events e

/-- An operation chosen from `conn->events` fits: ADD would find the descriptor
of the entry `e` absent, MOD and DEL would find it present. -/
def OpFits (s : Net) (e : ℕ) : Prop :=
  (s.kernel.interest (s.conns e).connFd).isNone = ((s.conns e).events == .none)

/-- Every `epoll_ctl` of a round fits: that of `tcp_server_accept` for the new
connection, that for the dead events and that for the events to be added. -/
structure CallsFit (s : Net) (e : ℕ) (o : Outcomes) : Prop where
  accept : (s.conns e).activeEvents.read = true → (s.conns e).readEventHandler = some .accept →
    ∀ (fd : ℕ) (i : ℕ) (s₁ : Net), o.accept = some fd →
      ¬ ((fd : ℤ) ∈ s.kernel.clients ∨ (fd : ℤ) = s.sockFd) → o.nonblock = true →
      tcpGetConnection (s.opened fd) fd o.connPool = some (i, s₁) → OpFits s₁ i
  dead : (writePart (readPart s e o) e o).crashed = false →
    ((writePart (readPart s e o) e o).conns e).deadEvents ≠ .none →
    OpFits (writePart (readPart s e o) e o) e
  add : (writePart (readPart s e o) e o).crashed = false →
    ((deadPart (writePart (readPart s e o) e o) e o).conns e).close = false →
    ((deadPart (writePart (readPart s e o) e o) e o).conns e).addEvents ≠ .none →
    OpFits (deadPart (writePart (readPart s e o) e o) e o) e

/-- Every `epoll_ctl` of a step fits. -/
def StepFits (s : Net) : Input → Prop
  | .poll _ => True
  | .dispatch o => ∀ e, s.cursor = some e → s.crashed = false → CallsFit s e o

/-- The `epoll_ctl` of `epoll_del_event` is not refused. -/
def Input.Drops : Input → Prop
  | .poll _ => True
  | .dispatch o => o.ctlDel = true

/-! ## Changes of one registration -/

lemma Registered.fits {s : Net} (h : Registered s) {e : ℕ} (he : e ∈ s.taken) : OpFits s e := by
  unfold OpFits
  rw [h e he, registration]
  by_cases hnone : (s.conns e).events = .none
  · simp [hnone]
  · simp [hnone]

lemma Registered.mask {s : Net} (h : Registered s) {e : ℕ} (he : e ∈ s.taken) :
    s.kernel.mask (s.conns e).connFd = (s.conns e).events := by
  unfold Kernel.mask
  rw [h e he, registration]
  split_ifs with hnone
  · exact hnone.symm
  · rfl

/-- The registrations depend on the connections only through descriptor and events. -/
lemma Registered.congr {s s' : Net} (h : Registered s) (htaken : s'.taken = s.taken)
    (hconns : ∀ e ∈ s.taken, (s'.conns e).connFd = (s.conns e).connFd ∧
      (s'.conns e).events = (s.conns e).events)
    (hinterest : s'.kernel.interest = s.kernel.interest) : Registered s' := by
  intro e he
  rw [htaken] at he
  rw [hinterest, (hconns e he).1, (hconns e he).2]
  exact h e he

/-- A change of one connection in use and of its own registration. -/
lemma Registered.change {s s' : Net} {e : ℕ} {extra : Option ℤ} (h : Registered s)
    (hf : Fds s extra) (he : e ∈ s.taken) (htaken : s'.taken = s.taken)
    (hconns : ∀ i, i ≠ e → s'.conns i = s.conns i)
    (hother : ∀ fd, fd ≠ (s.conns e).connFd → s'.kernel.interest fd = s.kernel.interest fd)
    (hown : s'.kernel.interest (s'.conns e).connFd = registration (s'.conns e).events e) :
    Registered s' := by
  intro i hi
  rw [htaken] at hi
  by_cases hie : i = e
  · rw [hie]
    exact hown
  · rw [hconns i hie, hother _ (fun hfd => hie (hf.inj i hi e he hfd))]
    exact h i hi

lemma Registered.setConn {s : Net} (h : Registered s) {e : ℕ} {c : Conn}
    (hfd : c.connFd = (s.conns e).connFd) (hevents : c.events = (s.conns e).events) :
    Registered (s.setConn e c) := by
  refine h.congr rfl (fun i _ => ?_) rfl
  by_cases hie : i = e
  · subst hie
    simp [Net.setConn, hfd, hevents]
  · rw [setConn_of_ne c hie]
    exact ⟨rfl, rfl⟩

lemma union_ne_none {m : Mask} (h : m ≠ .none) (m' : Mask) : m.union m' ≠ .none := by
  revert h
  unfold Mask.union Mask.none
  cases m with
  | mk r w => cases r <;> cases w <;> simp

/-- An addition that is granted. -/
lemma addEvent_registered {s s' : Net} {e : ℕ} {m : Mask} {hd : Handler} {ok : Bool}
    {extra : Option ℤ} (h : Registered s) (hf : Fds s extra) (he : e ∈ s.taken) (hm : m ≠ .none)
    (hadd : addEvent s e m hd ok = some s') : Registered s' := by
  unfold addEvent at hadd
  split at hadd
  · cases hadd
  rename_i k hk
  cases hadd
  unfold Kernel.epollSet at hk
  split_ifs at hk
  cases hk
  refine h.change hf he rfl (fun i hi => ?_) (fun fd hfd => ?_) ?_
  · exact setConn_of_ne _ hi
  · exact Function.update_of_ne hfd _ _
  · simp [Net.setConn, Conn.armed, registration, union_ne_none hm]

/-- An addition fails only when the kernel says so. -/
lemma addEvent_of_fits {s : Net} {e : ℕ} (h : OpFits s e) (m : Mask) (hd : Handler) :
    (addEvent s e m hd true).isSome = true := by
  unfold addEvent Kernel.epollSet
  have hfit : (s.kernel.interest (s.conns e).connFd).isNone = ((s.conns e).events == .none) := h
  rw [if_pos ⟨rfl, hfit⟩]
  rfl

/-- A removal that is granted. -/
lemma delEvent_registered {s : Net} {e : ℕ} {extra : Option ℤ} (h : Registered s)
    (hf : Fds s extra) (he : e ∈ s.taken) (m : Mask) : Registered (delEvent s e m true) := by
  unfold delEvent
  by_cases hnone : (s.conns e).events = .none
  · rw [if_pos hnone]
    exact h
  rw [if_neg hnone]
  have hpresent : (s.kernel.interest (s.conns e).connFd).isNone = false := by
    rw [h e he, registration, if_neg hnone]
    rfl
  refine h.change hf he rfl (fun i hi => ?_) (fun fd hfd => ?_) ?_
  · exact setConn_of_ne _ hi
  · unfold Kernel.epollDrop Kernel.epollSet
    simp only [hpresent, if_true, and_self, Option.getD_some]
    split_ifs <;> exact Function.update_of_ne hfd _ _
  · unfold Kernel.epollDrop Kernel.epollSet registration
    simp only [hpresent, if_true, and_self, Option.getD_some, Net.setConn, Function.update_self]
    split_ifs <;> exact Function.update_self _ _ _

/-- Closing the descriptor of an entry in use and giving the entry back. -/
lemma close_registered {s : Net} {free act : List ℕ} {e : ℕ} (h : Registered s)
    (hw : Wired s free act) (hf : Fds s none) (he : e ∈ s.taken) :
    Registered (tcpFreeConnection { s with kernel := s.kernel.closeFd (s.conns e).connFd } e) := by
  intro i hi
  obtain ⟨hie, hin⟩ := (mem_erase_taken hw).mp hi
  have hfd : (s.conns i).connFd ≠ (s.conns e).connFd := fun heq => hie (hf.inj i hin e he heq)
  simp only [tcpFreeConnection, Kernel.closeFd, Function.update_of_ne hie, Function.update_of_ne hfd]
  exact h i hin

/-! ## Accepting -/

/-- `tcp_get_connection` for a descriptor that `accept` has just returned: the
connection has no events and the descriptor is absent. -/
lemma tcpGetConnection_registered {s s' : Net} {free act : List ℕ} {fd : ℤ} {ok : Bool} {e : ℕ}
    (h : Registered s) (hw : Wired s free act) (hf : Fds s (some fd))
    (hget : tcpGetConnection s fd ok = some (e, s')) : Registered s' := by
  have habsent : s.kernel.interest fd = none := by
    cases hreg : s.kernel.interest fd with
    | none => rfl
    | some p =>
      obtain ⟨hi, hfd⟩ := hf.registered fd p.1 p.2 hreg
      exact absurd hfd ((hf.extra fd rfl).2 p.2 hi)
  obtain ⟨free', rfl, -⟩ := tcpGetConnection_wired hw hf hget
  unfold tcpGetConnection at hget
  split at hget
  · cases hget
  split_ifs at hget
  cases hget
  intro i hi
  rcases List.mem_cons.mp hi with rfl | hin
  · simp [newConn, habsent, registration]
  · have hie : i ≠ e := by
      rintro rfl
      exact hw.not_free hin (by simp)
    simp only [Function.update_of_ne hie]
    exact h i hin

lemma tcpServerAccept_registered {s : Net} {free act : List ℕ} (h : Registered s)
    (hw : Wired s free act) (hf : Fds s none) (o : Outcomes) :
    Registered (tcpServerAccept s o) := by
  rcases tcpServerAccept_cases s o with heq | ⟨fd, hnew, hsock, hcases⟩
  · rw [heq]
    exact h
  have hf₁ : Fds (s.opened fd) (some fd) := hf.opened hnew hsock
  have hw₁ : Wired (s.opened fd) free act := hw.withKernel _
  have h₁ : Registered (s.opened fd) := h.congr rfl (fun _ _ => ⟨rfl, rfl⟩) rfl
  rcases hcases with heq | ⟨e, s₂, hget, hcases⟩
  · rw [heq]
    intro i hi
    have hne : (s.conns i).connFd ≠ fd := (hf₁.extra fd rfl).2 i hi
    simp only [Kernel.closeFd, Net.opened, Function.update_of_ne hne]
    exact h i hi
  have h₂ := tcpGetConnection_registered h₁ hw₁ hf₁ hget
  obtain ⟨free', -, hw₂, hf₂, -, he, -⟩ := tcpGetConnection_wired hw₁ hf₁ hget
  rcases hcases with hadd | heq
  · exact addEvent_registered h₂ hf₂ he (by decide) hadd
  · rw [heq]
    exact close_registered h₂ hw₂ hf₂ he

/-! ## A round and a run -/

lemma callHandler_registered {s : Net} {free act : List ℕ} (h : Registered s)
    (hw : Wired s free act) (hf : Fds s none) (e : ℕ) (hd : Option Handler)
    (ws : List WriteResult) (o : Outcomes) : Registered (callHandler s e hd ws o) := by
  unfold callHandler
  split
  · exact h
  · exact tcpServerAccept_registered h hw hf o
  · have hframe := tcpServerRecv_frame s.bufSize e (s.conns e) s.trace o
    exact (h.setConn hframe.connFd hframe.events).congr rfl (fun _ _ => ⟨rfl, rfl⟩) rfl
  · have hframe := tcpServerSend_frame (s.conns e) ws
    exact h.setConn hframe.connFd hframe.events

lemma readPart_registered {s : Net} {free act : List ℕ} (h : Registered s) (hw : Wired s free act)
    (hf : Fds s none) (e : ℕ) (o : Outcomes) : Registered (readPart s e o) := by
  unfold readPart
  split_ifs
  · exact callHandler_registered h hw hf e _ _ o
  · exact h

lemma writePart_registered {s : Net} {free act : List ℕ} (h : Registered s) (hw : Wired s free act)
    (hf : Fds s none) (e : ℕ) (o : Outcomes) : Registered (writePart s e o) := by
  unfold writePart
  split_ifs
  · exact callHandler_registered h hw hf e _ _ o
  · exact h

lemma deadPart_registered {s : Net} {e : ℕ} {o : Outcomes} (h : Registered s) (hf : Fds s none)
    (he : e ∈ s.taken) (hdel : o.ctlDel = true) : Registered (deadPart s e o) := by
  unfold deadPart
  split_ifs
  · exact h
  · rw [hdel]
    exact (delEvent_registered h hf he _).setConn rfl rfl

lemma addPart_registered {s : Net} {e : ℕ} (h : Registered s) (hf : Fds s none)
    (he : e ∈ s.taken) (o : Outcomes) : Registered (addPart s e o) := by
  unfold addPart
  split_ifs with hnone
  · exact h
  · cases hadd : addEvent s e (s.conns e).addEvents .send o.ctlWrite with
    | none => exact h.setConn rfl rfl
    | some s' => exact (addEvent_registered h hf he hnone hadd).setConn rfl rfl

lemma closePart_registered {s : Net} {free act : List ℕ} {e : ℕ} (h : Registered s)
    (hw : Wired s free (e :: act)) (hf : Fds s none) (o : Outcomes) :
    Registered (closePart s e o) := by
  have he : e ∈ s.taken := hw.inUse e (by simp)
  unfold closePart
  split_ifs
  · exact close_registered h hw hf he
  · exact addPart_registered h hf he o

/-- The masks of a round, and the calls made in it. -/
structure RoundFits (s : Net) (e : ℕ) (o : Outcomes) : Prop where
  calls : CallsFit s e o
  registered : Registered (dispatch s e o)

lemma accept_fits {s s₁ : Net} {free act : List ℕ} {fd i : ℕ} {o : Outcomes} (h : Registered s)
    (hw : Wired s free act) (hf : Fds s none)
    (hopen : ¬ ((fd : ℤ) ∈ s.kernel.clients ∨ (fd : ℤ) = s.sockFd))
    (hget : tcpGetConnection (s.opened fd) fd o.connPool = some (i, s₁)) : OpFits s₁ i := by
  obtain ⟨hnew, hsock⟩ := not_or.mp hopen
  have hf₁ : Fds (s.opened fd) (some (fd : ℤ)) := hf.opened hnew hsock
  have hw₁ : Wired (s.opened fd) free act := hw.withKernel _
  have h₁ : Registered (s.opened fd) := h.congr rfl (fun _ _ => ⟨rfl, rfl⟩) rfl
  obtain ⟨-, -, -, -, -, hi, -⟩ := tcpGetConnection_wired hw₁ hf₁ hget
  exact (tcpGetConnection_registered h₁ hw₁ hf₁ hget).fits hi

/-- **One round keeps the masks**, and its calls fit. -/
lemma dispatch_fits {s : Net} {free act : List ℕ} {e : ℕ} (h : Registered s)
    (hw : Wired s free (e :: act)) (hf : Fds s none) {o : Outcomes} (hdel : o.ctlDel = true) :
    RoundFits s e o := by
  obtain ⟨free₁, hw₁, hf₁⟩ := readPart_wired hw hf e o
  obtain ⟨free₂, hw₂, hf₂⟩ := writePart_wired hw₁ hf₁ e o
  have he₂ := hw₂.inUse e (by simp)
  have h₁ := readPart_registered h hw hf e o
  have h₂ := writePart_registered h₁ hw₁ hf₁ e o
  obtain ⟨hw₃, hf₃⟩ := deadPart_wired hw₂ hf₂ he₂ o
  have h₃ := deadPart_registered h₂ hf₂ he₂ hdel
  refine ⟨⟨?_, ?_, ?_⟩, ?_⟩
  · intro _ _ fd i s₁ _ hopen _ hget
    exact accept_fits h hw hf hopen hget
  · intro _ _
    exact h₂.fits he₂
  · intro _ _ _
    exact h₃.fits (hw₃.inUse e (by simp))
  · unfold dispatch
    simp only
    split_ifs
    · exact h₁
    · exact h₂
    · exact closePart_registered h₃ hw₃ hf₃ o

lemma Registered.poll {s : Net} (h : Registered s) (reports : List (ℕ × Mask)) :
    Registered (poll s reports) := by
  have hbatch := poll_batched s reports
  refine h.congr hbatch.taken (fun e _ => ?_) ?_
  · obtain ⟨m, next, hconn⟩ := hbatch.conn e
    rw [hconn]
    exact ⟨rfl, rfl⟩
  · unfold Xpipe.poll
    rw [(foldl_pollOne reports s).rest]

/-- The server is resting, and its masks agree with the kernel. -/
structure Agreeing (s : Net) : Prop where
  resting : Resting s
  registered : Registered s

lemma netStep_agreeing {s : Net} (h : Agreeing s) (i : Input) (hi : PollsValid s i)
    (hdel : i.Drops) : Agreeing (netStep s i) ∧ StepFits s i := by
  have hrest := netStep_resting h.resting i hi
  obtain ⟨free, act, hw, hf⟩ := h.resting.wired
  have hround (e : ℕ) (o : Outcomes) (hi : i = .dispatch o) (hcur : s.cursor = some e) :
      RoundFits s e o := by
    obtain ⟨rest, rfl⟩ := hw.at_cursor hcur
    subst hi
    exact dispatch_fits h.registered hw hf hdel
  refine ⟨⟨hrest, ?_⟩, ?_⟩
  · unfold netStep
    split_ifs
    · exact h.registered
    cases i with
    | poll reports =>
      cases s.cursor with
      | none => exact h.registered.poll reports
      | some e => exact h.registered
    | dispatch o =>
      cases hcur : s.cursor with
      | none => exact h.registered
      | some e => exact (hround e o rfl hcur).registered
  · cases i with
    | poll reports => trivial
    | dispatch o => exact fun e hcur _ => (hround e o rfl hcur).calls

lemma initNetworkMod_agreeing {n : ℕ} (hn : 1 ≤ n) (sockFd : ℤ) (bufSize : ℕ)
    (garbage : ℕ → Conn) : Agreeing (initNetworkMod n sockFd bufSize garbage) := by
  refine ⟨initNetworkMod_resting hn sockFd bufSize garbage, fun e he => ?_⟩
  rw [initNetworkMod_eq] at he ⊢
  obtain rfl := List.mem_singleton.mp he
  simp [listenConn, newConn, registration, Mask.readOnly, Mask.none]

/-- The events of a connection are those the kernel holds for its descriptor, and
each of them has a handler. -/
structure Agrees (s : Net) (e : ℕ) : Prop where
  mask : (s.conns e).events = s.kernel.mask (s.conns e).connFd
  read : (s.conns e).events.read = true → (s.conns e).readEventHandler ≠ none
  write : (s.conns e).events.write = true → (s.conns e).writeEventHandler ≠ none

lemma Agreeing.agrees {s : Net} (h : Agreeing s) (hc : s.crashed = false) {e : ℕ}
    (he : e ∈ s.taken) : Agrees s e := by
  have hr := h.resting.rested hc e he
  refine ⟨(h.registered.mask he).symm, fun _ => ?_, fun hev => ?_⟩
  · rcases hr.read with hread | hread
    · simp [hread]
    · simp [hread]
  · rw [hr.write, if_pos hev]
    simp

/-- **Masks agree.** In every run no `epoll_ctl` meets a descriptor whose presence
does not fit its operation, and in every state reached the events of each
connection in use are those the kernel holds for it, with a handler for each. -/
theorem masks_agree (n : ℕ) (hn : 1 ≤ n) (sockFd : ℤ) (bufSize : ℕ) (garbage : ℕ → Conn)
    (inputs : List Input)
    (henv : Along netStep (fun s i => PollsValid s i ∧ i.Drops)
      (initNetworkMod n sockFd bufSize garbage) inputs) :
    Along netStep StepFits (initNetworkMod n sockFd bufSize garbage) inputs ∧
      ((inputs.foldl netStep (initNetworkMod n sockFd bufSize garbage)).crashed = false →
        ∀ e ∈ (inputs.foldl netStep (initNetworkMod n sockFd bufSize garbage)).taken,
          Agrees (inputs.foldl netStep (initNetworkMod n sockFd bufSize garbage)) e) := by
  have hinit := initNetworkMod_agreeing hn sockFd bufSize garbage
  have hkeep (s : Net) (i : Input) (h : Agreeing s) (hi : PollsValid s i ∧ i.Drops) :=
    netStep_agreeing h i hi.1 hi.2
  refine ⟨along_mono (fun s i h hi => (hkeep s i h hi).1) (fun s i h hi => (hkeep s i h hi).2)
    hinit henv, fun hc e he => ?_⟩
  have hend := invariant_foldl (fun s i h hi => (hkeep s i h hi).1) hinit henv
  exact hend.agrees hc he

/-- The answer to a `PUT` stops at EAGAIN and is sent by the write handler. -/
def putWaits : List Input :=
  [.poll [(0, .readOnly)], .dispatch (outcomes (some 5) [] [] []),
    .poll [(1, .readOnly)], .dispatch (outcomes none putBytes [.again] []),
    .poll [(1, .writeOnly)], .dispatch (outcomes none [] [] [])]

theorem masks_agree_put :
    Along netStep StepFits twoConnections putWaits ∧
      ((putWaits.foldl netStep twoConnections).crashed = false →
        ∀ e ∈ (putWaits.foldl netStep twoConnections).taken,
          Agrees (putWaits.foldl netStep twoConnections) e) :=
  masks_agree 2 (by decide) 3 1024 (fun _ => newConn 0 0) putWaits
    ⟨⟨reported_one 3 .readOnly rfl (by decide) (by decide), trivial⟩, ⟨trivial, rfl⟩,
      ⟨reported_one 5 .readOnly rfl (by decide) (by decide), trivial⟩, ⟨trivial, rfl⟩,
      ⟨reported_one 5 .both rfl (by decide) (by decide), trivial⟩, ⟨trivial, rfl⟩, trivial⟩

end Xpipe
