import Xpipe.RequestPool

/-!
# Requests on a connection

The handlers of `tcp_server.c` that work on one connection: `tcp_server_recv`
with `tcp_request_init`, `tcp_request_process` and `tcp_request_finish`, and
`tcp_server_send`. They read and change the connection, its request, and a
trace: the memory pools that are live, whether the C library has ended the
process, and ghost events that say what the parser was called on and what was
released.

The outcomes of the system calls and of `malloc` in one dispatch are inputs;
which calls `tcp_request_init` makes of its pool, and whether they succeed, is
that of the pool of `mem_pool.c`. Log output and the client's address are left
out.
-/
namespace Xpipe

/-- A set of `EV_READ_EVENT` and `EV_WRITE_EVENT`. -/
structure Mask where
  read : Bool
  write : Bool
  deriving DecidableEq, Repr

namespace Mask

/-- `EV_NONE_EVENT`. -/
def none : Mask := ⟨false, false⟩
def readOnly : Mask := ⟨true, false⟩
def writeOnly : Mask := ⟨false, true⟩
def both : Mask := ⟨true, true⟩

def union (a b : Mask) : Mask := ⟨a.read || b.read, a.write || b.write⟩

/-- `a & ~b`. -/
def diff (a b : Mask) : Mask := ⟨a.read && !b.read, a.write && !b.write⟩

/-- Every event of `a` is one of `b`. -/
def Le (a b : Mask) : Prop := (a.read = true → b.read = true) ∧ (a.write = true → b.write = true)

instance (a b : Mask) : Decidable (a.Le b) := inferInstanceAs (Decidable (_ ∧ _))

end Mask

/-- The functions that are installed as event handlers. -/
inductive Handler
  | accept | recv | send
  deriving DecidableEq, Repr

/-- The response buffer: all bytes ever appended to it and how many of them
`buffer` has moved past. -/
structure Response where
  size : ℕ
  bytes : List UInt8
  sent : ℕ
  deriving DecidableEq, Repr

/-- `[buffer, last)`. -/
def Response.unsent (b : Response) : List UInt8 := b.bytes.drop b.sent

/-- `tcp_request_t`. It lives in its own pool, which also names it. In `error`
the code OK stands for zero. -/
structure Request where
  pool : ℕ
  buffers : List Buffer
  response : Response
  protocol : Protocol
  done : Bool
  finish : Bool
  error : Code
  deriving DecidableEq, Repr

/-- The pool of the request has large blocks: a buffer with its `buffer_t` is more than
the pool gives from its chunks. -/
def Request.large (r : Request) : Bool :=
  r.buffers.any (fun b => maxSizeOfChunk < b.size + bufferHeader) ||
    maxSizeOfChunk < r.response.size + bufferHeader

/-- The request that `tcp_request_init` makes in the pool `pool`. -/
def newRequest (size pool : ℕ) : Request where
  pool := pool
  buffers := [⟨size, []⟩]
  response := ⟨size, [], 0⟩
  protocol := protocolInit
  done := false
  finish := false
  error := .ok

/-- `tcp_connection_t`. -/
structure Conn where
  next : Option ℕ
  connFd : ℤ
  events : Mask
  activeEvents : Mask
  deadEvents : Mask
  addEvents : Mask
  close : Bool
  isListen : Bool
  readEventHandler : Option Handler
  writeEventHandler : Option Handler
  request : Option Request
  pool : Option ℕ
  deriving DecidableEq, Repr

/-- What happened on a connection: a call of the parser on a request, with the
request as it was before and the code returned; and a request released by
`tcp_request_finish`, with `conn->close` as it was then. -/
inductive Event
  | parse (conn : ℕ) (r : Request) (code : Code)
  | release (r : Request) (close : Bool)
  deriving DecidableEq, Repr

/-- The live pools, the next pool name, the events so far and the pools that were
destroyed, both newest first. `aborted` says that `free` was called with an address
that `malloc` has not given, at which the C library ends the process: what the model
does after that is nothing that the program does. -/
structure Trace where
  fresh : ℕ
  pools : Finset ℕ
  log : List Event
  destroyed : List ℕ
  aborted : Bool

namespace Trace

/-- A successful `mem_pool_create`. -/
def createPool (t : Trace) : Trace :=
  { t with fresh := t.fresh + 1, pools := insert t.fresh t.pools }

/-- `mem_pool_destroy` of a pool without large blocks. -/
def destroyPool (t : Trace) (p : ℕ) : Trace :=
  { t with pools := t.pools.erase p, destroyed := p :: t.destroyed }

/-- `mem_pool_destroy` of a request's pool. For a large block it is the header, an
address inside the pool, that is given to `free`. -/
def destroyRequest (t : Trace) (r : Request) : Trace :=
  { t.destroyPool r.pool with aborted := t.aborted || r.large }

def record (t : Trace) (ev : Event) : Trace := { t with log := ev :: t.log }

end Trace

/-- What `read` gives: some bytes, the end of the stream, EAGAIN or an error. -/
inductive ReadResult
  | bytes (data : List UInt8)
  | closed
  | again
  | failed
  deriving DecidableEq, Repr

/-- What `write` gives: it accepts some bytes, or stops with EAGAIN or an error. -/
inductive WriteResult
  | wrote (n : ℕ)
  | again
  | failed
  deriving DecidableEq, Repr

/-- How a call of `tcp_server_send` ends. -/
inductive SendEnd
  | complete | again | failed
  deriving DecidableEq, Repr

/-- The outcomes of the calls that one dispatch makes. In `accept` the retries
after EINTR are over; `initMallocs` is what `malloc` gives in each allocation of
`tcp_request_init` behind its pool. A list of writes that runs out accepts the rest. -/
structure Outcomes where
  accept : Option ℕ
  nonblock : Bool
  connPool : Bool
  ctlAdd : Bool
  initPool : Bool
  initMallocs : ℕ → Mallocs
  read : ReadResult
  chainAlloc : Bool
  readWrites : List WriteResult
  writeWrites : List WriteResult
  ctlDel : Bool
  ctlWrite : Bool
  layout : Layout

/-- All allocations of `tcp_request_init` from its fresh pool give memory, for buffers of
`size` bytes. -/
def Outcomes.initAllocs (o : Outcomes) (size : ℕ) : Bool :=
  ((requestCalls size o.initMallocs 0).foldlM grant
    (memPoolCreate (sizeT requestPoolSize) requestPool_fits, [])).isSome

/-- The loop of `tcp_server_send`. A `write` accepts at least one byte of a
non-empty offer, and never more than the offer. -/
def sendLoop : Response → List WriteResult → Response × SendEnd
  | b, [] => ({ b with sent := b.sent + b.unsent.length }, .complete)
  | b, .again :: _ => (b, .again)
  | b, .failed :: _ => (b, .failed)
  | b, .wrote n :: ws =>
    let b' := { b with sent := b.sent + min (max 1 n) b.unsent.length }
    if b'.unsent = [] then (b', .complete) else sendLoop b' ws

/-- `tcp_server_send`. -/
def tcpServerSend (c : Conn) (ws : List WriteResult) : Conn :=
  match c.request with
  | none => c
  | some r =>
    let sent := sendLoop r.response ws
    match sent.2 with
    | .again =>
      { c with request := some { r with response := sent.1 }, addEvents := .writeOnly }
    | .failed =>
      { c with
        request := some { r with response := sent.1, finish := true }
        deadEvents := .both, close := true }
    | .complete =>
      { c with
        request := some { r with response := sent.1, finish := true }
        deadEvents := if c.events.write then .writeOnly else c.deadEvents
        writeEventHandler := if c.events.write then none else c.writeEventHandler }

/-- `"ok\r\n"`. -/
def okText : List UInt8 := [111, 107, 13, 10]

/-- `"error\r\n"`. -/
def errorText : List UInt8 := [101, 114, 114, 111, 114, 13, 10]

/-- `tcp_respone_generate`. Nothing bounds the appends: one that passes the buffer's end
overwrites the `protocol_t` behind it, which is not modelled. From there on a run need not
be one of the program. -/
def tcpResponeGenerate (r : Request) : Request :=
  match r.protocol.type with
  | .put =>
    let text := if r.error ≠ .ok then errorText else okText
    { r with response := { r.response with bytes := r.response.bytes ++ text } }
  | _ => r

/-- `tcp_request_finish`. -/
def tcpRequestFinish (c : Conn) (t : Trace) (r : Request) (ws : List WriteResult) : Conn × Trace :=
  let c := tcpServerSend { c with request := some (tcpResponeGenerate r) } ws
  match c.request with
  | none => (c, t)
  | some r =>
    if r.finish then
      ({ c with request := none }, (t.record (.release r c.close)).destroyRequest r)
    else (c, t)

/-- `tcp_request_process`. -/
def tcpRequestProcess (c : Conn) (t : Trace) (r : Request) (code : Code) (o : Outcomes) :
    Conn × Trace :=
  match code with
  | .ok =>
    if lastFull r.buffers && !o.chainAlloc then
      tcpRequestFinish c t { r with error := .error } o.readWrites
    else ({ c with request := some { r with buffers := chainBlock r.buffers } }, t)
  | .done => tcpRequestFinish c t { r with done := true } o.readWrites
  | code => tcpRequestFinish c t { r with error := code } o.readWrites

/-- The room that `read` is offered. -/
def Request.room (r : Request) : ℕ := (r.buffers[lastIndex r.buffers]?.map Buffer.room).getD 0

/-- The bytes that a `read` into the last buffer gives. None at all is what the
end of the stream looks like. -/
def Request.got (r : Request) : ReadResult → List UInt8
  | .bytes data => data.take r.room
  | _ => []

/-- `tcp_server_recv` from the `read` on; `e` is the connection's entry. -/
def recvInto (e : ℕ) (c : Conn) (t : Trace) (r : Request) (o : Outcomes) : Conn × Trace :=
  let c := { c with request := some r }
  match o.read with
  | .again => (c, t)
  | .failed => ({ c with deadEvents := .both, close := true }, t)
  | _ =>
    let got := r.got o.read
    if got = [] then ({ c with deadEvents := .both, close := true }, t)
    else
      let p := parseChunk o.layout r.buffers r.protocol got
      tcpRequestProcess c (t.record (.parse e r p.code))
        { r with buffers := p.buffers, protocol := p.pro } p.code o

/-- `tcp_server_recv`. A request that cannot be made whole leaves its pool behind. -/
def tcpServerRecv (size e : ℕ) (c : Conn) (t : Trace) (o : Outcomes) : Conn × Trace :=
  match c.request with
  | some r => recvInto e c t r o
  | none =>
    if o.initPool then
      if o.initAllocs size then recvInto e c t.createPool (newRequest size t.fresh) o
      else (c, t.createPool)
    else (c, t)

end Xpipe
