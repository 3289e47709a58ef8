import Xpipe.ConnectionPool
import Xpipe.Directives

/-!
# Initialisation of the network

`init_network_mod` with `net_event_init`, `epoll_build` and `tcp_server_init`, on every
path: each allocation and each call of the kernel may fail. The result is the server of
`Xpipe.EventLoop`, or an error; the descriptors that are left open are noted.
-/
namespace Xpipe

/-- The outcomes of the calls of `init_network_mod`, in the order of the source. -/
structure InitOutcomes where
  driverAlloc : Bool
  ctxAlloc : Bool
  epollCreate : Option ℤ
  eventsAlloc : Bool
  serverAlloc : Bool
  socket : Option ℤ
  reuse : Bool
  bind : Bool
  listen : Bool
  connsAlloc : Bool
  connPool : Bool
  ctlAdd : Bool

/-- How `init_mod` of a module ends: with `MOD_OK`, with `MOD_ERROR`, or by a use of
`mod_conf` while it is NULL. -/
inductive ModInit (α : Type)
  | ok (s : α)
  | error
  | crash

/-- The server, when there is one, and the descriptors that are open. -/
structure NetworkInit where
  result : ModInit Net
  descriptors : List ℤ

/-- `epoll_create`, which refuses a size that is not positive. -/
def epollCreate (o : InitOutcomes) (size : ℕ) : Option ℤ := if size = 0 then none else o.epollCreate

/-- `epoll_build`, and so `net_event_init`: whether it succeeds, and what it leaves open. -/
def epollBuild (o : InitOutcomes) (size : ℕ) : Bool × List ℤ :=
  if !o.ctxAlloc then (false, [])
  else
    match epollCreate o size with
    | none => (false, [])
    | some epollFd => (o.eventsAlloc, [epollFd])

/-- `tcp_server_create_socket`. -/
def tcpServerCreateSocket (o : InitOutcomes) : Option ℤ :=
  match o.socket with
  | none => none
  | some sockFd => if o.reuse then some sockFd else none

/-- `tcp_server_listen`. -/
def tcpServerListen (o : InitOutcomes) : Bool := o.bind && o.listen

/-- `connection_pool_init`, whose counter is an `int`: the array stays as it was when the
number of connections, less one, is negative as an `int`. -/
def connectionPoolLinks (n : ℕ) (garbage : ℕ → Conn) : ℕ → Conn :=
  if 0 ≤ toInt32 ((n : ℤ) - 1) then connectionPoolInit n garbage else garbage

/-- `tcp_server_init`: the listening socket, which is closed again when a later call
fails. -/
def tcpServerInit (o : InitOutcomes) : Option ℤ :=
  match tcpServerCreateSocket o with
  | none => none
  | some sockFd =>
    if !tcpServerListen o then none
    else if !o.connsAlloc then none
    else some sockFd

/-- The server after `tcp_server_init`. -/
def serverFrom (cf : NetConf) (sockFd : ℤ) (garbage : ℕ → Conn) : Net :=
  { serverInit cf.conns sockFd cf.requestBufferSize garbage with
    conns := connectionPoolLinks cf.conns garbage }

/-- The end of `init_network_mod`: the listening socket gets a connection. -/
def startListening (o : InitOutcomes) (s : Net) (sockFd : ℤ) (fds : List ℤ) : NetworkInit :=
  match tcpGetConnection s sockFd o.connPool with
  | none => ⟨.error, sockFd :: fds⟩
  | some (e, s) =>
    let s := s.setConn e { s.conns e with isListen := true }
    match addEvent s e .readOnly .accept o.ctlAdd with
    | some s => ⟨.ok s, sockFd :: fds⟩
    | none => ⟨.error, fds⟩ -- closed, and the connection is given back

/-- `init_network_mod`; `cf` is its `mod_conf`. -/
def initNetworkModWith (o : InitOutcomes) (conf : Option NetConf) (garbage : ℕ → Conn) :
    NetworkInit :=
  if !o.driverAlloc then ⟨.error, []⟩
  else
    match conf with
    | none => ⟨.crash, []⟩
    | some cf =>
      match epollBuild o (cf.conns / 2) with
      | (false, fds) => ⟨.error, fds⟩
      | (true, fds) =>
        if !o.serverAlloc then ⟨.error, fds⟩
        else
          match tcpServerInit o with
          | none => ⟨.error, fds⟩
          | some sockFd => startListening o (serverFrom cf sockFd garbage) sockFd fds

/-- Every call succeeds: with the descriptor of epoll and the listening socket. -/
structure InitOutcomes.Succeeds (o : InitOutcomes) (epollFd sockFd : ℤ) : Prop where
  driverAlloc : o.driverAlloc = true
  ctxAlloc : o.ctxAlloc = true
  epollCreate : o.epollCreate = some epollFd
  eventsAlloc : o.eventsAlloc = true
  serverAlloc : o.serverAlloc = true
  socket : o.socket = some sockFd
  reuse : o.reuse = true
  bind : o.bind = true
  listen : o.listen = true
  connsAlloc : o.connsAlloc = true
  connPool : o.connPool = true
  ctlAdd : o.ctlAdd = true

lemma epollBuild_true_iff {o : InitOutcomes} {size : ℕ} {fds : List ℤ} :
    epollBuild o size = (true, fds) ↔
      o.ctxAlloc = true ∧ o.eventsAlloc = true ∧ size ≠ 0 ∧
        ∃ epollFd, o.epollCreate = some epollFd ∧ fds = [epollFd] := by
  unfold epollBuild epollCreate
  by_cases hctx : o.ctxAlloc = true
  · by_cases hsize : size = 0
    · simp [hctx, hsize]
    · cases hcreate : o.epollCreate with
      | none => simp [hctx, hsize]
      | some epollFd =>
        simp only [hctx, hsize, Bool.not_true, Bool.false_eq_true, if_false, Prod.mk.injEq, true_and,
          ne_eq, not_false_eq_true, Option.some.injEq, exists_eq_left']
        exact and_congr_right (fun _ => eq_comm)
  · simp [hctx]

lemma tcpServerInit_some_iff {o : InitOutcomes} {sockFd : ℤ} :
    tcpServerInit o = some sockFd ↔ o.socket = some sockFd ∧ o.reuse = true ∧ o.bind = true ∧
      o.listen = true ∧ o.connsAlloc = true := by
  unfold tcpServerInit tcpServerCreateSocket tcpServerListen
  cases hsocket : o.socket with
  | none => simp
  | some fd =>
    by_cases hreuse : o.reuse = true
    · by_cases hbind : o.bind = true
      · by_cases hlisten : o.listen = true
        · by_cases hconns : o.connsAlloc = true
          · simp [hreuse, hbind, hlisten, hconns]
          · simp [hreuse, hbind, hlisten, hconns]
        · simp [hreuse, hbind, hlisten]
      · simp [hreuse, hbind]
    · simp [hreuse]

/-- The server that listens, over the links that `connection_pool_init` has left. -/
def listening (cf : NetConf) (sockFd : ℤ) (garbage : ℕ → Conn) : Net :=
  { serverInit cf.conns sockFd cf.requestBufferSize garbage with
    connectionPool := (connectionPoolLinks cf.conns garbage 0).next
    conns := Function.update (connectionPoolLinks cf.conns garbage) 0 (listenConn sockFd)
    kernel := ⟨∅, Function.update (fun _ => none) sockFd (some (.readOnly, 0))⟩
    trace := ⟨1, {0}, [], [], false⟩
    taken := [0] }

lemma startListening_eq (o : InitOutcomes) (cf : NetConf) (sockFd : ℤ) (garbage : ℕ → Conn)
    (fds : List ℤ) : startListening o (serverFrom cf sockFd garbage) sockFd fds =
      if o.connPool = false then ⟨.error, sockFd :: fds⟩
      else if o.ctlAdd = false then ⟨.error, fds⟩
      else ⟨.ok (listening cf sockFd garbage), sockFd :: fds⟩ := by
  unfold startListening tcpGetConnection serverFrom
  cases hpool : o.connPool with
  | false => simp [serverInit]
  | true =>
    cases hadd : o.ctlAdd with
    | false => simp [serverInit, addEvent, Kernel.epollSet]
    | true =>
      simp [serverInit, addEvent, Kernel.epollSet, Net.setConn, newConn, Mask.none, Mask.readOnly,
        Conn.armed, Mask.union, listening, listenConn, Trace.createPool]

/-- For as many connections as an `int` counts, the links are those of the free list. -/
lemma listening_eq {cf : NetConf} (hpos : 1 ≤ cf.conns) (hint : cf.conns ≤ 2 ^ 31) (sockFd : ℤ)
    (garbage : ℕ → Conn) :
    listening cf sockFd garbage = initNetworkMod cf.conns sockFd cf.requestBufferSize garbage := by
  have hlinks : connectionPoolLinks cf.conns garbage = connectionPoolInit cf.conns garbage := by
    unfold connectionPoolLinks toInt32
    rw [Int.bmod_def]
    apply if_pos
    split_ifs
    · omega
    · omega
  rw [initNetworkMod_eq, listening, hlinks]

/-- With two connections and every call successful the server listens. -/
lemma initNetworkModWith_succeeds {o : InitOutcomes} {epollFd sockFd : ℤ} {cf : NetConf}
    (h : o.Succeeds epollFd sockFd) (hconns : 2 ≤ cf.conns) (garbage : ℕ → Conn) :
    initNetworkModWith o (some cf) garbage =
      ⟨.ok (listening cf sockFd garbage), [sockFd, epollFd]⟩ := by
  have hbuild : epollBuild o (cf.conns / 2) = (true, [epollFd]) := by
    rw [epollBuild_true_iff]
    exact ⟨h.ctxAlloc, h.eventsAlloc, by omega, epollFd, h.epollCreate, rfl⟩
  have hinit : tcpServerInit o = some sockFd :=
    tcpServerInit_some_iff.mpr ⟨h.socket, h.reuse, h.bind, h.listen, h.connsAlloc⟩
  simp only [initNetworkModWith, h.driverAlloc, h.serverAlloc, hbuild, hinit, startListening_eq,
    h.connPool, h.ctlAdd, Bool.not_true, Bool.false_eq_true, Bool.true_eq_false, if_false]

/-- What `epoll_build` leaves open is epoll. -/
lemma epollBuild_open {o : InitOutcomes} {size : ℕ} {ok : Bool} {fds : List ℤ}
    (h : epollBuild o size = (ok, fds)) : ∀ fd ∈ fds, o.epollCreate = some fd := by
  unfold epollBuild epollCreate at h
  split_ifs at h with hctx hsize
  · cases h
    simp
  · cases h
    simp
  · cases hcreate : o.epollCreate with
    | none =>
      simp only [hcreate] at h
      cases h
      simp
    | some epollFd =>
      simp only [hcreate] at h
      cases h
      simp

/-- **All that `init_network_mod` can do.** -/
lemma initNetworkModWith_cases (o : InitOutcomes) (conf : Option NetConf) (garbage : ℕ → Conn) :
    (∃ cf epollFd sockFd, conf = some cf ∧ 2 ≤ cf.conns ∧ o.Succeeds epollFd sockFd) ∨
    (conf = none ∧ (initNetworkModWith o conf garbage).result = .crash) ∨
    ((initNetworkModWith o conf garbage).result = .error ∧
      ∀ fd ∈ (initNetworkModWith o conf garbage).descriptors,
        o.epollCreate = some fd ∨ o.socket = some fd ∧ o.connPool = false) := by
  unfold initNetworkModWith
  cases hdriver : o.driverAlloc with
  | false => simp
  | true =>
    cases conf with
    | none => simp
    | some cf =>
      simp only [Bool.not_true, Bool.false_eq_true, if_false]
      cases hbuild : epollBuild o (cf.conns / 2) with
      | mk ok fds =>
        have hfds := epollBuild_open hbuild
        cases ok with
        | false => exact Or.inr (Or.inr ⟨rfl, fun fd hfd => Or.inl (hfds fd hfd)⟩)
        | true =>
          obtain ⟨hctx, hevents, hsize, epollFd, hcreate, rfl⟩ := epollBuild_true_iff.mp hbuild
          cases hserver : o.serverAlloc with
          | false => exact Or.inr (Or.inr ⟨rfl, fun fd hfd => Or.inl (hfds fd hfd)⟩)
          | true =>
            cases hinit : tcpServerInit o with
            | none => exact Or.inr (Or.inr ⟨rfl, fun fd hfd => Or.inl (hfds fd hfd)⟩)
            | some sockFd =>
              obtain ⟨hsocket, hreuse, hbind, hlisten, hconns⟩ := tcpServerInit_some_iff.mp hinit
              simp only [Bool.not_true, Bool.false_eq_true, if_false, startListening_eq]
              cases hpool : o.connPool with
              | false =>
                refine Or.inr (Or.inr ⟨rfl, fun fd hfd => ?_⟩)
                rcases List.mem_cons.mp hfd with rfl | hfd
                · exact Or.inr ⟨hsocket, rfl⟩
                · exact Or.inl (hfds fd hfd)
              | true =>
                cases hadd : o.ctlAdd with
                | false => exact Or.inr (Or.inr ⟨rfl, fun fd hfd => Or.inl (hfds fd hfd)⟩)
                | true =>
                  exact Or.inl ⟨cf, epollFd, sockFd, rfl, by omega, hdriver, hctx, hcreate, hevents,
                    hserver, hsocket, hreuse, hbind, hlisten, hconns, hpool, hadd⟩

/-- What there is when the module has been initialised. -/
lemma initNetworkModWith_ok {o : InitOutcomes} {conf : Option NetConf} {garbage : ℕ → Conn} {s : Net}
    (h : (initNetworkModWith o conf garbage).result = .ok s) :
    ∃ cf epollFd sockFd, conf = some cf ∧ 2 ≤ cf.conns ∧ o.Succeeds epollFd sockFd ∧
      (initNetworkModWith o conf garbage).descriptors = [sockFd, epollFd] ∧
      s = listening cf sockFd garbage := by
  rcases initNetworkModWith_cases o conf garbage with
    ⟨cf, epollFd, sockFd, rfl, hconns, hall⟩ | ⟨-, hcrash⟩ | ⟨herror, -⟩
  · rw [initNetworkModWith_succeeds hall hconns garbage] at h ⊢
    cases h
    exact ⟨cf, epollFd, sockFd, rfl, hconns, hall, rfl, rfl⟩
  · rw [hcrash] at h
    cases h
  · rw [herror] at h
    cases h

/-- **When the server listens.** `init_network_mod` succeeds exactly when the module has a
configuration with at least two connections and every call succeeds; with fewer it is
`epoll_create` that refuses its size. It then has epoll and the listening socket open, and
up to `2 ^ 31` connections it is the server of the event loop. When it fails, of the
descriptors it has opened epoll may be open still, and the listening socket only when no
connection was to be had for it. -/
theorem network_init (o : InitOutcomes) (conf : Option NetConf) (garbage : ℕ → Conn) :
    (∀ s, (initNetworkModWith o conf garbage).result = .ok s ↔
      ∃ cf epollFd sockFd, conf = some cf ∧ 2 ≤ cf.conns ∧ o.Succeeds epollFd sockFd ∧
        (initNetworkModWith o conf garbage).descriptors = [sockFd, epollFd] ∧
        s = listening cf sockFd garbage ∧ (cf.conns ≤ 2 ^ 31 →
          s = initNetworkMod cf.conns sockFd cf.requestBufferSize garbage)) ∧
    ((initNetworkModWith o conf garbage).result = .error →
      ∀ fd ∈ (initNetworkModWith o conf garbage).descriptors,
        o.epollCreate = some fd ∨ o.socket = some fd ∧ o.connPool = false) := by
  refine ⟨fun s => ⟨fun hok => ?_, ?_⟩, fun herror => ?_⟩
  · obtain ⟨cf, epollFd, sockFd, hcf, hconns, hall, hopen, rfl⟩ := initNetworkModWith_ok hok
    exact ⟨cf, epollFd, sockFd, hcf, hconns, hall, hopen, rfl,
      fun hint => listening_eq (by omega) hint sockFd garbage⟩
  · rintro ⟨cf, epollFd, sockFd, rfl, hconns, hall, -, rfl, -⟩
    rw [initNetworkModWith_succeeds hall hconns garbage]
  · rcases initNetworkModWith_cases o conf garbage with
      ⟨cf, epollFd, sockFd, rfl, hconns, hall⟩ | ⟨-, hcrash⟩ | ⟨-, hopen⟩
    · rw [initNetworkModWith_succeeds hall hconns garbage] at herror
      cases herror
    · rw [hcrash] at herror
      cases herror
    · exact hopen

end Xpipe
