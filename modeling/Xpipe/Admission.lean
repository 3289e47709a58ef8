import Xpipe.BatchVisits

/-!
# Listening and admission

The first connection of the array belongs to the listening socket. In every run it stays in
use and registered for reading, whatever fails, so that at most `n - 1` clients are there;
and a client that `accept` returns is kept exactly when fewer are there and no call for it
fails.
-/
namespace Xpipe
open Linked Runs

/-! ## The registration of the listening socket -/

/-- Another descriptor is registered, or no more. -/
lemma epollSet_of_ne {k k' : Kernel} {add ok : Bool} {fd x : ℤ} {m : Mask} {e : ℕ}
    (h : k.epollSet add fd m e ok = some k') (hx : x ≠ fd) : k'.interest x = k.interest x := by
  unfold Kernel.epollSet at h
  split_ifs at h
  cases h
  exact Function.update_of_ne hx _ _

lemma epollDrop_of_ne {k : Kernel} {fd x : ℤ} {left : Mask} {e : ℕ} {ok : Bool} (hx : x ≠ fd) :
    (k.epollDrop fd left e ok).interest x = k.interest x := by
  unfold Kernel.epollDrop
  split_ifs
  · exact Function.update_of_ne hx _ _
  · rfl
  · cases hset : k.epollSet false fd left e ok with
    | none => rfl
    | some k' => exact epollSet_of_ne hset hx

lemma addEvent_interest {s s' : Net} {e : ℕ} {m : Mask} {h : Handler} {ok : Bool} {x : ℤ}
    (hadd : addEvent s e m h ok = some s') (hx : x ≠ (s.conns e).connFd) :
    s'.kernel.interest x = s.kernel.interest x := by
  unfold addEvent at hadd
  split at hadd
  · cases hadd
  · rename_i k hset
    cases hadd
    exact epollSet_of_ne hset hx

/-- Accepting leaves the registration of the listening socket alone. -/
lemma tcpServerAccept_interest (s : Net) (o : Outcomes) :
    (tcpServerAccept s o).kernel.interest s.sockFd = s.kernel.interest s.sockFd := by
  rcases tcpServerAccept_cases s o with heq | ⟨fd, -, hsock, heq | ⟨e, s₂, hget, hcases⟩⟩
  · rw [heq]
  · rw [heq]
    exact Function.update_of_ne (Ne.symm hsock) _ _
  · have htook : s₂.kernel.interest = s.kernel.interest ∧ (s₂.conns e).connFd = fd := by
      unfold tcpGetConnection at hget
      split at hget
      · cases hget
      · split_ifs at hget
        cases hget
        exact ⟨rfl, by simp [newConn]⟩
    rw [← htook.1]
    rcases hcases with hadd | heq
    · exact addEvent_interest hadd (htook.2 ▸ Ne.symm hsock)
    · rw [heq]
      exact Function.update_of_ne (htook.2 ▸ Ne.symm hsock) _ _

lemma callHandler_interest (s : Net) (e : ℕ) (h : Option Handler) (ws : List WriteResult)
    (o : Outcomes) :
    (callHandler s e h ws o).kernel.interest s.sockFd = s.kernel.interest s.sockFd := by
  unfold callHandler
  split
  · rfl
  · exact tcpServerAccept_interest s o
  · rfl
  · rfl

lemma readConn_connFd (size e : ℕ) (c : Conn) (t : Trace) (o : Outcomes) :
    (readConn size e c t o).1.connFd = c.connFd := by
  unfold readConn
  split_ifs
  · exact (tcpServerRecv_frame size e c t o).connFd
  · rfl

lemma writeConn_connFd (c : Conn) (o : Outcomes) : (writeConn c o).connFd = c.connFd := by
  unfold writeConn
  split_ifs
  · exact (tcpServerSend_frame c o.writeWrites).connFd
  · rfl

lemma deadPart_interest {s : Net} {e : ℕ} {x : ℤ} (hx : x ≠ (s.conns e).connFd) (o : Outcomes) :
    (deadPart s e o).kernel.interest x = s.kernel.interest x := by
  unfold deadPart delEvent
  split_ifs
  · rfl
  · rfl
  · exact epollDrop_of_ne hx

lemma closePart_interest {s : Net} {e : ℕ} {x : ℤ} (hx : x ≠ (s.conns e).connFd) (o : Outcomes) :
    (closePart s e o).kernel.interest x = s.kernel.interest x := by
  unfold closePart
  split_ifs
  · exact Function.update_of_ne hx _ _
  · simp only [Net.advanceTo, addPart]
    split_ifs
    · rfl
    · cases hadd : addEvent s e (s.conns e).addEvents .send o.ctlWrite with
      | none => rfl
      | some s' =>
        have hsame := addEvent_interest hadd hx
        exact hsame

/-- A round on a client leaves the registration of the listening socket alone. -/
lemma dispatch_interest {s : Net} {free act : List ℕ} {e : ℕ} (hw : Wired s free (e :: act))
    (hc : s.crashed = false) (hr : (s.conns e).Rested) (hfd : (s.conns e).connFd ≠ s.sockFd)
    (o : Outcomes) :
    (dispatch s e o).kernel.interest s.sockFd = s.kernel.interest s.sockFd := by
  have he : e ∈ s.taken := hw.inUse e (by simp)
  obtain ⟨-, hconn₁, he₁, hc₁⟩ := readPart_around hw he hr.busy o
  have hbusy₁ := hr.busy.readConn s.bufSize e s.trace o
  have hsock₁ := (readPart_fixed s e o).2
  have hread : (readPart s e o).kernel.interest s.sockFd = s.kernel.interest s.sockFd := by
    unfold readPart
    split_ifs
    · exact callHandler_interest s e _ _ o
    · rfl
  have hwrite : (writePart (readPart s e o) e o).kernel.interest s.sockFd =
      s.kernel.interest s.sockFd := by
    rw [← hread]
    unfold writePart
    split_ifs
    · rw [← hsock₁]
      exact callHandler_interest _ e _ _ o
    · rfl
  rw [← hconn₁] at hbusy₁
  rw [hc] at hc₁
  obtain ⟨-, hends⟩ := writePart_around he₁ hbusy₁ hc₁ o
  unfold dispatch
  rcases hends with ⟨hc₂, -⟩ | ⟨hc₂, -, hconn₂, he₂⟩
  · simp only [hc₁, hc₂, if_true, Bool.false_eq_true, if_false]
    exact hwrite
  · have hfd₂ : ((writePart (readPart s e o) e o).conns e).connFd = (s.conns e).connFd := by
      rw [hconn₂, writeConn_connFd, hconn₁, readConn_connFd]
    obtain ⟨-, hconn₃, -, -⟩ := deadPart_around he₂ o
    have hfd₃ : ((deadPart (writePart (readPart s e o) e o) e o).conns e).connFd =
        (s.conns e).connFd := by
      rw [hconn₃]
      exact hfd₂
    simp only [hc₁, hc₂, Bool.false_eq_true, if_false]
    rw [closePart_interest (hfd₃ ▸ hfd.symm), deadPart_interest (hfd₂ ▸ hfd.symm), hwrite]

/-! ## The listening connection -/

/-- The connection of the listening socket is in place. -/
structure Listening (s : Net) : Prop where
  taken : 0 ∈ s.taken
  isListen : (s.conns 0).isListen = true
  connFd : (s.conns 0).connFd = s.sockFd
  handler : (s.conns 0).readEventHandler = some .accept
  quiet : (s.conns 0).activeEvents.write = false
  events : (s.conns 0).events = .readOnly
  registered : s.kernel.interest s.sockFd = some (.readOnly, 0)

/-- A round on the listening connection is a call of `tcp_server_accept`, or nothing. -/
lemma Listening.dispatch_eq {s : Net} {free act : List ℕ} (h : Listening s) (hw : Wired s free act)
    (hc : s.crashed = false) (hr : (s.conns 0).Rested) (o : Outcomes) :
    dispatch s 0 o = (if (s.conns 0).activeEvents.read then tcpServerAccept s o else s).advanceTo
      (s.conns 0).next := by
  obtain ⟨-, hconn, -, hcr⟩ := tcpServerAccept_around hw h.taken o
  rw [hc] at hcr
  unfold dispatch readPart writePart deadPart closePart addPart
  by_cases hread : (s.conns 0).activeEvents.read = true
  · simp only [hread, if_true, callHandler, h.handler, hcr, hconn, h.quiet, Bool.false_eq_true,
      if_false, hr.dead, hr.close, hr.add]
  · simp only [hread, if_true, if_false, hc, h.quiet, Bool.false_eq_true, hr.dead, hr.close, hr.add]

lemma Listening.congr {s s' : Net} (h : Listening s) (htaken : 0 ∈ s'.taken)
    (hconn : s'.conns 0 = s.conns 0) (hsock : s'.sockFd = s.sockFd)
    (hreg : s'.kernel.interest s.sockFd = s.kernel.interest s.sockFd) : Listening s' := by
  refine ⟨htaken, ?_, ?_, ?_, ?_, ?_, ?_⟩
  · rw [hconn, h.isListen]
  · rw [hconn, h.connFd, hsock]
  · rw [hconn, h.handler]
  · rw [hconn, h.quiet]
  · rw [hconn, h.events]
  · rw [hsock, hreg, h.registered]

lemma foldl_pollOne_quiet {reports : List (ℕ × Mask)} {e : ℕ}
    (h : ∀ p ∈ reports, p.1 = e → p.2.write = false) {s : Net}
    (hs : (s.conns e).activeEvents.write = false) :
    ((reports.foldl pollOne s).conns e).activeEvents.write = false := by
  induction reports generalizing s with
  | nil => exact hs
  | cons p reports ih =>
    apply ih (fun q hq => h q (List.mem_cons_of_mem p hq))
    by_cases he : e = p.1
    · subst he
      simpa [pollOne, Net.setConn] using h p List.mem_cons_self rfl
    · simpa [pollOne, Net.setConn, Function.update_of_ne he] using hs

/-- A batch reports only what the listening socket is registered for. -/
lemma Listening.poll {s : Net} (h : Listening s) (hf : Fds s none) {maxEvents : ℕ}
    {reports : List (ℕ × Mask)} (hreported : Reported maxEvents s.kernel reports) :
    Listening (poll s reports) := by
  have hpolled := foldl_pollOne reports s
  have hquiet : ∀ p ∈ reports, p.1 = 0 → p.2.write = false := by
    intro p hp hzero
    obtain ⟨fd, m, hreg, hle⟩ := hreported.registered p hp
    rw [hzero] at hreg
    -- the entry is registered once, for reading
    have hfd := (hf.registered fd m 0 hreg).2
    rw [← hfd, h.connFd, h.registered] at hreg
    cases hreg
    exact Bool.eq_false_iff.mpr (fun hw => Bool.false_ne_true (hle.2 hw))
  have hconn := hpolled.conn 0
  unfold Xpipe.poll
  refine ⟨?_, ?_, ?_, ?_, ?_, ?_, ?_⟩
  · rw [hpolled.rest]
    exact h.taken
  · rw [hconn]
    exact h.isListen
  · rw [hconn, hpolled.rest]
    exact h.connFd
  · rw [hconn]
    exact h.handler
  · exact foldl_pollOne_quiet hquiet h.quiet
  · rw [hconn]
    exact h.events
  · rw [hpolled.rest]
    exact h.registered

lemma netStep_listening {s : Net} (h : Resting s) (hlisten : Listening s) (i : Input)
    (hi : PollsValid s i) : Listening (netStep s i) := by
  obtain ⟨free, act, hw, hf⟩ := h.wired
  unfold netStep
  cases hc : s.crashed with
  | true => exact hlisten
  | false =>
    simp only [Bool.false_eq_true, if_false]
    cases i with
    | poll reports =>
      cases s.cursor with
      | none => exact hlisten.poll hf hi
      | some e => exact hlisten
    | dispatch o =>
      cases hcur : s.cursor with
      | none => exact hlisten
      | some e =>
        obtain ⟨rest, rfl⟩ := hw.at_cursor hcur
        have he : e ∈ s.taken := hw.inUse e (by simp)
        have hr := h.rested hc e he
        by_cases hzero : e = 0
        · subst hzero
          obtain ⟨-, hconn, hin, -⟩ := tcpServerAccept_around hw he o
          simp only [hlisten.dispatch_eq hw hc hr o]
          split_ifs
          · exact hlisten.congr hin hconn (tcpServerAccept_fixed s o).2 (tcpServerAccept_interest s o)
          · exact hlisten.congr hlisten.taken rfl rfl rfl
        · have hfd : (s.conns e).connFd ≠ s.sockFd := by
            rw [← hlisten.connFd]
            exact fun heq => hzero (hf.inj e he 0 hlisten.taken heq)
          have hround := dispatch_round hw hf hc hr o
          obtain ⟨hin, hconn⟩ := hround.around.kept 0 hlisten.taken (Ne.symm hzero)
          have hfixed := netStep_fixed s (.dispatch o)
          rw [netStep_dispatch hc hcur] at hfixed
          exact hlisten.congr hin hconn hfixed.2 (dispatch_interest hw hc hr hfd o)

/-! ## How many clients there are -/

/-- Every connection in use but the first is a client. -/
lemma Listening.card_add_one {s : Net} {free act : List ℕ} (h : Listening s) (hw : Wired s free act)
    (hf : Fds s none) : s.kernel.clients.card + 1 = s.taken.length := by
  have hcons : Conserved s := Conserving.conserved ⟨free, act, hw, hf⟩
  have hnodup : s.taken.Nodup := (List.nodup_append.mp hw.nodup_parts).2.1
  have hone : s.taken.countP (fun e => (s.conns e).isListen) = 1 := by
    rw [← List.count_eq_one_of_mem hnodup h.taken, List.count]
    apply List.countP_congr
    intro e he
    rw [beq_iff_eq]
    constructor
    · intro hl
      exact hf.inj e he 0 h.taken ((hf.listen e he hl).trans h.connFd.symm)
    · rintro rfl
      exact h.isListen
  have hsplit := List.length_eq_countP_add_countP (fun e => (s.conns e).isListen) (l := s.taken)
  have hclients : s.taken.countP (fun e => decide ¬ (s.conns e).isListen = true) =
      s.taken.countP (fun e => !(s.conns e).isListen) := by
    apply List.countP_congr
    intro e _
    simp
  rw [hcons.clients, List.toFinset_card_of_nodup hcons.once, List.length_map,
    ← List.countP_eq_length_filter, hsplit, hone, hclients, Nat.add_comm]

lemma Wired.free_length {s : Net} {free act : List ℕ} (h : Wired s free act) :
    free.length + s.taken.length = s.count := by
  have hlen := h.parts.length_eq
  rwa [List.length_append, List.length_range] at hlen

/-- A connection is free exactly when not all are in use. -/
lemma Wired.free_iff {s : Net} {free act : List ℕ} (h : Wired s free act) :
    s.connectionPool ≠ none ↔ s.taken.length < s.count := by
  have hlen := h.free_length
  have hchain := h.freeList
  cases hpool : s.connectionPool with
  | none =>
    rw [hpool] at hchain
    rw [hchain.head_none, List.length_nil] at hlen
    simp [← hlen]
  | some e =>
    rw [hpool] at hchain
    obtain ⟨rest, rfl, -⟩ := hchain.head_some
    rw [List.length_cons] at hlen
    simp only [ne_eq, reduceCtorEq, not_false_eq_true, true_iff]
    omega

/-- The client is kept: there is a connection for it, and no call fails. -/
def Keeps (s : Net) (o : Outcomes) : Prop :=
  s.kernel.clients.card + 1 < s.count ∧ o.nonblock = true ∧ o.connPool = true ∧ o.ctlAdd = true

instance (s : Net) (o : Outcomes) : Decidable (Keeps s o) :=
  inferInstanceAs (Decidable (_ ∧ _ ∧ _ ∧ _))

lemma Listening.accept_clients {s : Net} {free act : List ℕ} {fd : ℕ} {o : Outcomes}
    (h : Listening s) (hw : Wired s free act) (hf : Fds s none) (haccept : o.accept = some fd)
    (hnew : (fd : ℤ) ∉ s.kernel.clients) (hsock : (fd : ℤ) ≠ s.sockFd) :
    (tcpServerAccept s o).kernel.clients =
      if Keeps s o then insert (fd : ℤ) s.kernel.clients else s.kernel.clients := by
  have hroom := hw.free_iff
  rw [← h.card_add_one hw hf] at hroom
  have habsent : s.kernel.interest fd = none := by
    cases hreg : s.kernel.interest fd with
    | none => rfl
    | some q =>
      obtain ⟨hi, hfd⟩ := hf.registered fd q.1 q.2 hreg
      cases hl : (s.conns q.2).isListen with
      | true => exact absurd (hfd.symm.trans (hf.listen q.2 hi hl)) hsock
      | false => exact absurd (hfd ▸ hf.client q.2 hi hl) hnew
  have hback : (insert (fd : ℤ) s.kernel.clients).erase fd = s.kernel.clients :=
    Finset.erase_insert hnew
  unfold tcpServerAccept tcpGetConnection
  rw [haccept]
  simp only [if_neg (not_or.mpr ⟨hnew, hsock⟩)]
  cases hnonblock : o.nonblock with
  | false =>
    have hno : ¬ Keeps s o := fun hk => Bool.false_ne_true (hnonblock.symm.trans hk.2.1)
    simp [Kernel.closeFd, hback, hno]
  | true =>
    cases hpool : s.connectionPool with
    | none =>
      have hno : ¬ Keeps s o := fun hk => hroom.mpr hk.1 hpool
      simp [Kernel.closeFd, hback, hno]
    | some e =>
      have hfree : s.kernel.clients.card + 1 < s.count := hroom.mp (by simp [hpool])
      cases hconn : o.connPool with
      | false =>
        have hno : ¬ Keeps s o := fun hk => Bool.false_ne_true (hconn.symm.trans hk.2.2.1)
        simp [Kernel.closeFd, hback, hno]
      | true =>
        cases hadd : o.ctlAdd with
        | false =>
          have hno : ¬ Keeps s o := fun hk => Bool.false_ne_true (hadd.symm.trans hk.2.2.2)
          simp [addEvent, Kernel.epollSet, tcpFreeConnection, newConn, Kernel.closeFd, hback, hno]
        | true =>
          have hyes : Keeps s o := ⟨hfree, hnonblock, hconn, hadd⟩
          simp [addEvent, Kernel.epollSet, newConn, habsent, hyes]

/-- What holds between two steps. -/
structure Admitting (n : ℕ) (s : Net) : Prop where
  resting : Resting s
  listening : Listening s
  count : s.count = n

lemma netStep_admitting {n : ℕ} {s : Net} (h : Admitting n s) (i : Input) (hi : PollsValid s i) :
    Admitting n (netStep s i) :=
  ⟨netStep_resting h.resting i hi, netStep_listening h.resting h.listening i hi,
    (netStep_fixed s i).1.trans h.count⟩

lemma initNetworkMod_admitting {n : ℕ} (hn : 1 ≤ n) (sockFd : ℤ) (bufSize : ℕ)
    (garbage : ℕ → Conn) : Admitting n (initNetworkMod n sockFd bufSize garbage) := by
  refine ⟨initNetworkMod_resting hn sockFd bufSize garbage, ?_, ?_⟩
  · rw [initNetworkMod_eq]
    refine ⟨?_, ?_, ?_, ?_, ?_, ?_, ?_⟩
    all_goals simp [listenConn, newConn, serverInit, Mask.none]
  · rw [initNetworkMod_eq]
    rfl

lemma foldl_admitting {n : ℕ} (hn : 1 ≤ n) {sockFd : ℤ} {bufSize : ℕ} {garbage : ℕ → Conn}
    {inputs : List Input}
    (hpolls : Along netStep PollsValid (initNetworkMod n sockFd bufSize garbage) inputs) :
    Admitting n (inputs.foldl netStep (initNetworkMod n sockFd bufSize garbage)) :=
  invariant_foldl (I := Admitting n) (fun _ i h hi => netStep_admitting h i hi)
    (initNetworkMod_admitting hn sockFd bufSize garbage) hpolls

/-- There are never more clients than connections, less the one that listens. -/
lemma Admitting.card_lt {n : ℕ} {s : Net} (h : Admitting n s) : s.kernel.clients.card < n := by
  obtain ⟨free, act, hw, hf⟩ := h.resting.wired
  have hcard := h.listening.card_add_one hw hf
  have hlen := hw.free_length
  rw [h.count] at hlen
  omega

/-- **The server listens for ever.** Whatever fails, in every state of every run the first
connection belongs to the listening socket, which epoll watches for reading, and at most
`n - 1` clients are there. -/
theorem listens_always (n : ℕ) (hn : 1 ≤ n) (sockFd : ℤ) (bufSize : ℕ) (garbage : ℕ → Conn)
    (inputs : List Input)
    (hpolls : Along netStep PollsValid (initNetworkMod n sockFd bufSize garbage) inputs) (s : Net)
    (hs : s = inputs.foldl netStep (initNetworkMod n sockFd bufSize garbage)) :
    Listening s ∧ s.kernel.clients.card < n := by
  have hend := foldl_admitting hn hpolls
  rw [← hs] at hend
  exact ⟨hend.listening, hend.card_lt⟩

/-- Two clients come to a server of two connections, and the answer to the first is not
sent at once. -/
def secondClient : List Input :=
  [.poll [(0, .readOnly)], .dispatch (outcomes (some 5) [] [] []),
    .poll [(1, .readOnly)], .dispatch (outcomes none putBytes [.again] []),
    .poll [(0, .readOnly)]]

lemma secondClient_valid : Along netStep PollsValid twoConnections secondClient :=
  ⟨reported_one 3 .readOnly rfl (by decide) (by decide), trivial,
    reported_one 5 .readOnly rfl (by decide) (by decide), trivial,
    reported_one 3 .readOnly rfl (by decide) (by decide), trivial⟩

theorem listens_always_second : Listening (secondClient.foldl netStep twoConnections) ∧
    (secondClient.foldl netStep twoConnections).kernel.clients.card < 2 :=
  listens_always 2 (by decide) 3 1024 (fun _ => newConn 0 0) secondClient secondClient_valid _ rfl

/-- **Who is admitted.** In every run, when the round of the listening connection finds a
client, the client stays exactly if fewer than `n - 1` are there and no call for it fails;
otherwise its descriptor is closed again, and the other clients stay as they are. -/
theorem admission (n : ℕ) (hn : 1 ≤ n) (sockFd : ℤ) (bufSize : ℕ) (garbage : ℕ → Conn)
    (inputs : List Input)
    (hpolls : Along netStep PollsValid (initNetworkMod n sockFd bufSize garbage) inputs) (s : Net)
    (hs : s = inputs.foldl netStep (initNetworkMod n sockFd bufSize garbage))
    (hc : s.crashed = false) (hcur : s.cursor = some 0)
    (hread : (s.conns 0).activeEvents.read = true) (o : Outcomes) (fd : ℕ)
    (haccept : o.accept = some fd) (hnew : (fd : ℤ) ∉ s.kernel.clients)
    (hsock : (fd : ℤ) ≠ s.sockFd) :
    (netStep s (.dispatch o)).kernel.clients =
      if s.kernel.clients.card + 1 < n ∧ o.nonblock = true ∧ o.connPool = true ∧ o.ctlAdd = true
      then insert (fd : ℤ) s.kernel.clients else s.kernel.clients := by
  have hend := foldl_admitting hn hpolls
  rw [← hs] at hend
  obtain ⟨free, act, hw, hf⟩ := hend.resting.wired
  have hr := hend.resting.rested hc 0 hend.listening.taken
  rw [netStep_dispatch hc hcur, hend.listening.dispatch_eq hw hc hr o, if_pos hread]
  have hclients := hend.listening.accept_clients hw hf haccept hnew hsock
  simp only [Keeps, hend.count] at hclients
  exact hclients

/-- The second client is turned away. -/
theorem admission_second :
    (netStep (secondClient.foldl netStep twoConnections)
      (.dispatch (outcomes (some 6) [] [] []))).kernel.clients =
        (secondClient.foldl netStep twoConnections).kernel.clients := by
  have hturned := admission 2 (by decide) 3 1024 (fun _ => newConn 0 0) secondClient
    secondClient_valid _ rfl (by decide) (by decide) (by decide) (outcomes (some 6) [] [] []) 6 rfl
    (by decide) (by decide)
  rw [if_neg (by decide)] at hturned
  exact hturned

end Xpipe
