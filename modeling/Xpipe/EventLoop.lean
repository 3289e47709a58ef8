import Xpipe.Linked
import Xpipe.Requests
import Xpipe.Runs

/-!
# The event loop

The server's connection array, its free list, the epoll registrations and the
loop of `process_events`. One field `next` links both the free list and the list
of polled connections.

The loop is a transition system: an input is either the batch that `epoll_wait`
reports at the start of `process_events`, or the outcomes of the calls made
while one connection of the batch is dispatched. `cursor` is the local
`active_conn`; `process_events` has returned when it is NULL. A call through a
NULL handler ends the process, and so does a `free` that sets `aborted` in the trace.
-/
namespace Xpipe

/-- What the kernel keeps: the open client descriptors, and for each registered
descriptor its mask and the connection entry given with it. -/
structure Kernel where
  clients : Finset ℤ
  interest : ℤ → Option (Mask × ℕ)

namespace Kernel

/-- `EPOLL_CTL_ADD` or `EPOLL_CTL_MOD` for `fd`; ADD fails on a registered
descriptor, MOD on an absent one. -/
def epollSet (k : Kernel) (add : Bool) (fd : ℤ) (m : Mask) (e : ℕ) (ok : Bool) : Option Kernel :=
  if ok ∧ (k.interest fd).isNone = add then
    some { k with interest := Function.update k.interest fd (some (m, e)) }
  else none

/-- The `epoll_ctl` of `epoll_del_event`: MOD when events are left, else DEL. A
failure changes nothing, and nobody looks at it. -/
def epollDrop (k : Kernel) (fd : ℤ) (left : Mask) (e : ℕ) (ok : Bool) : Kernel :=
  if left = .none then
    if ok then { k with interest := Function.update k.interest fd none } else k
  else (k.epollSet false fd left e ok).getD k

/-- `close`, which also drops the registration. -/
def closeFd (k : Kernel) (fd : ℤ) : Kernel where
  clients := k.clients.erase fd
  interest := Function.update k.interest fd none

end Kernel

/-- The state of the server. `taken` is a ghost: the entries that were taken by
`tcp_get_connection` and not given back. -/
structure Net where
  count : ℕ
  sockFd : ℤ
  bufSize : ℕ
  conns : ℕ → Conn
  connectionPool : Option ℕ
  activeConns : Option ℕ
  cursor : Option ℕ
  kernel : Kernel
  trace : Trace
  taken : List ℕ
  crashed : Bool

namespace Net

def setConn (s : Net) (e : ℕ) (c : Conn) : Net := { s with conns := Function.update s.conns e c }

end Net

/-- A zeroed connection with the fields that `tcp_get_connection` sets. -/
def newConn (fd : ℤ) (pool : ℕ) : Conn where
  next := none
  connFd := fd
  events := .none
  activeEvents := .none
  deadEvents := .none
  addEvents := .none
  close := false
  isListen := false
  readEventHandler := none
  writeEventHandler := none
  request := none
  pool := some pool

/-- `tcp_get_connection`; `ok` is the outcome of `mem_pool_create`. -/
def tcpGetConnection (s : Net) (fd : ℤ) (ok : Bool) : Option (ℕ × Net) :=
  match s.connectionPool with
  | none => none
  | some e =>
    if ok then
      some (e, { s with
        connectionPool := (s.conns e).next
        conns := Function.update s.conns e (newConn fd s.trace.fresh)
        trace := s.trace.createPool
        taken := e :: s.taken })
    else none

/-- The pools that `tcp_free_connection` destroys. -/
def Trace.destroyAll (t : Trace) (c : Conn) : Trace :=
  let t := match c.request with
    | some r => t.destroyRequest r
    | none => t
  match c.pool with
  | some p => t.destroyPool p
  | none => t

/-- `tcp_free_connection`. -/
def tcpFreeConnection (s : Net) (e : ℕ) : Net :=
  let c := s.conns e
  { s with
    conns := Function.update s.conns e
      { c with next := s.connectionPool, connFd := -1, pool := none }
    connectionPool := some e
    trace := s.trace.destroyAll c
    taken := s.taken.erase e }

/-- A connection after a successful `add_event`. -/
def Conn.armed (c : Conn) (m : Mask) (h : Handler) : Conn :=
  { c with
    events := m.union c.events
    readEventHandler := if m.read then some h else c.readEventHandler
    writeEventHandler := if m.write then some h else c.writeEventHandler }

/-- `add_event` with `epoll_add_event`; `ok` is the outcome of `epoll_ctl`. -/
def addEvent (s : Net) (e : ℕ) (m : Mask) (h : Handler) (ok : Bool) : Option Net :=
  match s.kernel.epollSet ((s.conns e).events == .none) (s.conns e).connFd
      (m.union (s.conns e).events) e ok with
  | none => none
  | some k => some { s.setConn e ((s.conns e).armed m h) with kernel := k }

/-- `del_event` with `epoll_del_event`. -/
def delEvent (s : Net) (e : ℕ) (m : Mask) (ok : Bool) : Net :=
  if (s.conns e).events = .none then s
  else
    let left := (s.conns e).events.diff m
    { s.setConn e { s.conns e with events := left } with
      kernel := s.kernel.epollDrop (s.conns e).connFd left e ok }

/-- `tcp_server_accept`. The kernel never returns a descriptor that is open, so
such an outcome counts as a failure of `accept`. -/
def tcpServerAccept (s : Net) (o : Outcomes) : Net :=
  match o.accept with
  | none => s
  | some fd =>
    if (fd : ℤ) ∈ s.kernel.clients ∨ (fd : ℤ) = s.sockFd then s
    else
      let s := { s with kernel := { s.kernel with clients := insert (fd : ℤ) s.kernel.clients } }
      if o.nonblock then
        match tcpGetConnection s fd o.connPool with
        | none => { s with kernel := s.kernel.closeFd fd }
        | some (e, s) =>
          match addEvent s e .readOnly .recv o.ctlAdd with
          | some s => s
          | none => tcpFreeConnection { s with kernel := s.kernel.closeFd (s.conns e).connFd } e
      else { s with kernel := s.kernel.closeFd fd }

/-- A call through a handler field of the entry `e`. -/
def callHandler (s : Net) (e : ℕ) (h : Option Handler) (ws : List WriteResult) (o : Outcomes) :
    Net :=
  match h with
  | none => { s with crashed := true }
  | some .accept => tcpServerAccept s o
  | some .recv =>
    let r := tcpServerRecv s.bufSize e (s.conns e) s.trace o
    { s.setConn e r.1 with trace := r.2 }
  | some .send => s.setConn e (tcpServerSend (s.conns e) ws)

/-- `process_events`: the read event of a connection. -/
def readPart (s : Net) (e : ℕ) (o : Outcomes) : Net :=
  if (s.conns e).activeEvents.read then
    callHandler s e (s.conns e).readEventHandler o.readWrites o
  else s

/-- `process_events`: the write event of a connection. -/
def writePart (s : Net) (e : ℕ) (o : Outcomes) : Net :=
  if (s.conns e).activeEvents.write then
    callHandler s e (s.conns e).writeEventHandler o.writeWrites o
  else s

/-- `process_events`: the events that the handlers have given up. -/
def deadPart (s : Net) (e : ℕ) (o : Outcomes) : Net :=
  if (s.conns e).deadEvents = .none then s
  else
    let s := delEvent s e (s.conns e).deadEvents o.ctlDel
    s.setConn e { s.conns e with deadEvents := .none }

/-- `process_events`: the events that the handlers have asked for. -/
def addPart (s : Net) (e : ℕ) (o : Outcomes) : Net :=
  if (s.conns e).addEvents = .none then s
  else
    let s := (addEvent s e (s.conns e).addEvents .send o.ctlWrite).getD s
    s.setConn e { s.conns e with addEvents := .none }

/-- The end of one round of the loop: `active_conns` is cleared after the last. -/
def Net.advanceTo (s : Net) (next : Option ℕ) : Net :=
  { s with cursor := next, activeConns := if next = none then none else s.activeConns }

/-- `process_events`: a connection that is to be closed, or not. -/
def closePart (s : Net) (e : ℕ) (o : Outcomes) : Net :=
  if (s.conns e).close then
    let next := (s.conns e).next
    (tcpFreeConnection { s with kernel := s.kernel.closeFd (s.conns e).connFd } e).advanceTo next
  else
    let s := addPart s e o
    s.advanceTo (s.conns e).next

/-- One round of the loop of `process_events`, on the entry `e`. -/
def dispatch (s : Net) (e : ℕ) (o : Outcomes) : Net :=
  let s := readPart s e o
  if s.crashed then s
  else
    let s := writePart s e o
    if s.crashed then s else closePart (deadPart s e o) e o

/-- One iteration of the loop of `epoll_polling`. -/
def pollOne (s : Net) (p : ℕ × Mask) : Net :=
  { s.setConn p.1 { s.conns p.1 with activeEvents := p.2, next := s.activeConns } with
    activeConns := some p.1 }

/-- `epoll_polling`, and the start of the loop of `process_events`. -/
def poll (s : Net) (reports : List (ℕ × Mask)) : Net :=
  let s := reports.foldl pollOne s
  { s with cursor := s.activeConns }

/-- What the environment supplies: a batch of reports, or the outcomes of one
round of the loop. -/
inductive Input
  | poll (reports : List (ℕ × Mask))
  | dispatch (o : Outcomes)

/-- One step of the server. A batch is taken only when the loop is over. -/
def netStep (s : Net) (i : Input) : Net :=
  if s.crashed then s
  else
    match i, s.cursor with
    | .poll reports, none => poll s reports
    | .dispatch o, some e => dispatch s e o
    | _, _ => s

/-- `connection_pool_init`, over memory that holds anything. -/
def connectionPoolInit (n : ℕ) (garbage : ℕ → Conn) (e : ℕ) : Conn :=
  { garbage e with next := if e + 1 < n then some (e + 1) else none }

/-- The server before the listening socket has a connection. -/
def serverInit (n : ℕ) (sockFd : ℤ) (bufSize : ℕ) (garbage : ℕ → Conn) : Net where
  count := n
  sockFd := sockFd
  bufSize := requestBufferSize bufSize
  conns := connectionPoolInit n garbage
  connectionPool := some 0
  activeConns := none
  cursor := none
  kernel := ⟨∅, fun _ => none⟩
  trace := ⟨0, ∅, [], [], false⟩
  taken := []
  crashed := false

/-- `init_network_mod` when every call of it succeeds: the listening socket takes
the first connection. -/
def initNetworkMod (n : ℕ) (sockFd : ℤ) (bufSize : ℕ) (garbage : ℕ → Conn) : Net :=
  let s := serverInit n sockFd bufSize garbage
  match tcpGetConnection s sockFd true with
  | none => s
  | some (e, s) =>
    let s := s.setConn e { s.conns e with isListen := true }
    (addEvent s e .readOnly .accept true).getD s

/-- What `epoll_wait` may report in an array of `maxEvents`: registered connections, each
at most once, with events they are registered for. -/
structure Reported (maxEvents : ℕ) (k : Kernel) (reports : List (ℕ × Mask)) : Prop where
  few : reports.length ≤ maxEvents
  once : (reports.map Prod.fst).Nodup
  registered : ∀ p ∈ reports, ∃ fd m, k.interest fd = some (m, p.1) ∧ p.2.Le m

/-- The batches of a run are what `epoll_wait` may report; `init_network_mod` gives it an
array of half as many events as there are connections. -/
def PollsValid (s : Net) : Input → Prop
  | .poll reports => Reported (s.count / 2) s.kernel reports
  | .dispatch _ => True

end Xpipe
