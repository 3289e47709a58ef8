import Xpipe.Buffers

/-!
# The request parser

`protocol_parse` over the buffer chain. One call scans the bytes that the last
`read` stored in `last_buffer`; between calls the machine state, the countdown
and raw pointers into the chain are kept in `protocol_t`. The scan reads memory
through those pointers and terminates the length numeral by storing NUL into
the chain, so every step takes and returns the chain.

The ghost field `clean` stays true as long as every byte the parser has read or
written was a received one.
-/
namespace Xpipe

/-- `pro->type`. -/
inductive ReqType
  | unknow | put | get | queue | list
  deriving DecidableEq, Repr

namespace ReqType

/-- The literals `PUT`, `GET`, `QUEUE` and `LIST`. -/
def name : ReqType → List UInt8
  | unknow => []
  | put => [80, 85, 84]
  | get => [71, 69, 84]
  | queue => [81, 85, 69, 85, 69]
  | list => [76, 73, 83, 84]

end ReqType

/-- What `protocol_parse` returns: `PROTOCOL_OK`, `PROTOCOL_ERROR`,
`PROTOCOL_DONE` or one of the six `err_` codes. -/
inductive Code
  | ok | error | done
  | typeInvalid | onlyCr | typeNotFound | headersInvalid | dataLenInvalid | needlessData
  deriving DecidableEq, Repr

/-- The states `sw_start` to `sw_data`. -/
inductive Sw
  | start | type | typeCr | typeLf | headers | headersCr | headersLf
  | dataLen | dataLenCr | dataLenLf | data
  deriving DecidableEq, Repr

/-- `protocol_t`. The field `tokEnd` is the source's `end`. -/
structure Protocol where
  type : ReqType := .unknow
  state : Sw := .start
  start : Option Ptr := none
  tokEnd : Option Ptr := none
  headersStart : Option Ptr := none
  headersEnd : Option Ptr := none
  tmpDataLen : ℕ := 0
  dataLen : ℕ := 0
  dataStartBuf : Option ℕ := none
  dataStart : Option Ptr := none
  dataEnd : Option Ptr := none
  clean : Bool := true
  deriving DecidableEq, Repr

/-- `protocol_init`: a zeroed `protocol_t`. -/
def protocolInit : Protocol := {}

/-- The comparisons made at the LF of the type line for a type of `n` bytes at
`s`: the type found and the number of bytes looked at. -/
def lookupType (s : List UInt8) (n : ℤ) : Option ReqType × ℕ :=
  if n = 3 then
    if strncmpEq s ReqType.put.name then (some .put, strncmpReads s ReqType.put.name)
    else
      let looked := max (strncmpReads s ReqType.put.name) (strncmpReads s ReqType.get.name)
      if strncmpEq s ReqType.get.name then (some .get, looked) else (none, looked)
  else if n = 4 then
    (if strncmpEq s ReqType.list.name then some .list else none, strncmpReads s ReqType.list.name)
  else if n = 5 then
    (if strncmpEq s ReqType.queue.name then some .queue else none,
      strncmpReads s ReqType.queue.name)
  else (none, 0)

/-- What one call carries from byte to byte: the chain, `*pro`, and the locals
`state` and `data_len`. -/
structure Scan where
  buffers : List Buffer
  pro : Protocol
  state : Sw
  dataLen : ℕ
  deriving DecidableEq, Repr

/-- Case `sw_type_cr` at an LF. -/
def scanType (w : Layout) (s : Scan) : Except (Code × Scan) Scan :=
  let n := w.addr s.pro.tokEnd - w.addr s.pro.start
  let found := lookupType (memoryAt w s.buffers s.pro.start) n
  let clean := s.pro.clean && within found.2 (inside s.buffers s.pro.start)
  match found.1 with
  | none => .error (.typeNotFound, { s with pro := { s.pro with clean := clean } })
  | some t => .ok { s with pro := { s.pro with type := t, clean := clean }, state := .typeLf }

/-- The store `*(p - 1) = 0` for `p` at offset `off` of block `blk`. At the first
byte of a block it lands in the block's header. -/
def terminate (bs : List Buffer) (blk off : ℕ) : List Buffer :=
  if off = 0 then bs else setByte bs ⟨blk, off - 1⟩ NUL

/-- Case `sw_data_len_cr` at an LF: the numeral at `pro->start` is terminated
and converted, and zero is refused. -/
def scanDataLen (w : Layout) (blk off : ℕ) (s : Scan) : Except (Code × Scan) Scan :=
  let buffers := terminate s.buffers blk off
  let text := memoryAt w buffers s.pro.start
  let dataLen := toSizeT (atoi text)
  let clean := s.pro.clean && decide (0 < off) &&
    within (atoiReads text) (inside buffers s.pro.start)
  let s' := { s with
    buffers := buffers, dataLen := dataLen, pro := { s.pro with dataLen := dataLen, clean := clean } }
  if dataLen = 0 then .error (.dataLenInvalid, s') else .ok { s' with state := .dataLenLf }

/-- One iteration of the loop: the byte `c` at offset `off` of block `blk`. -/
def scanByte (w : Layout) (blk off : ℕ) (c : UInt8) (s : Scan) : Except (Code × Scan) Scan :=
  let p : Ptr := ⟨blk, off⟩
  match s.state with
  | .start =>
    if isBlank c then .ok s
    else if !isUpper c then .error (.typeInvalid, s)
    else .ok { s with pro := { s.pro with start := some p }, state := .type }
  | .type =>
    if c == CR then .ok { s with pro := { s.pro with tokEnd := some p }, state := .typeCr }
    else if !isUpper c then .error (.typeInvalid, s)
    else .ok s
  | .typeCr => if c != LF then .error (.onlyCr, s) else scanType w s
  | .typeLf =>
    if c == CR then .ok { s with state := .headersCr }
    else if !isHeaderByte c then .error (.headersInvalid, s)
    else .ok { s with pro := { s.pro with headersStart := some p }, state := .headers }
  | .headers =>
    if c == CR then .ok { s with pro := { s.pro with headersEnd := some p }, state := .headersCr }
    else if !isHeaderByte c then .error (.headersInvalid, s)
    else .ok s
  | .headersCr => if c != LF then .error (.error, s) else .ok { s with state := .headersLf }
  | .headersLf =>
    if s.pro.type != .put then .error (.needlessData, s)
    else if !isDigit c then .error (.dataLenInvalid, s)
    else .ok { s with pro := { s.pro with start := some p }, state := .dataLen }
  | .dataLen =>
    if c == CR then .ok { s with pro := { s.pro with tokEnd := some p }, state := .dataLenCr }
    else if !isDigit c then .error (.dataLenInvalid, s)
    else .ok s
  | .dataLenCr => if c != LF then .error (.onlyCr, s) else scanDataLen w blk off s
  | .dataLenLf =>
    .ok { s with
      pro := { s.pro with dataStartBuf := some blk, dataStart := some p }
      dataLen := toSizeT (s.dataLen - 1), state := .data }
  | .data =>
    if s.dataLen = 0 then .error (.needlessData, { s with dataLen := toSizeT (s.dataLen - 1) })
    else .ok { s with dataLen := s.dataLen - 1 }

/-- The loop `for (p = start; p != end; p++)` over `n` bytes. -/
def scan (w : Layout) (blk : ℕ) : ℕ → ℕ → Scan → Except (Code × Scan) Scan
  | 0, _, s => .ok s
  | n + 1, off, s =>
    let here := (received s.buffers blk)[off]?
    let s := { s with pro := { s.pro with clean := s.pro.clean && here.isSome } }
    match scanByte w blk off (here.getD NUL) s with
    | .error e => .error e
    | .ok s => scan w blk n (off + 1) s

/-- The result of a call: the code returned, and the chain and `*pro` it leaves. -/
structure Parsed where
  code : Code
  buffers : List Buffer
  pro : Protocol
  deriving DecidableEq, Repr

/-- The tests after the loop, with `p` at `stop`. -/
def finishScan (s : Scan) (stop : Ptr) : Parsed :=
  if s.pro.type ≠ .unknow ∧ s.pro.type ≠ .put ∧ s.state = .headersLf then
    ⟨.done, s.buffers, s.pro⟩
  else if s.pro.type = .put ∧ s.state = .data ∧ s.dataLen = 0 then
    ⟨.done, s.buffers, { s.pro with dataEnd := some stop }⟩
  else ⟨.ok, s.buffers, { s.pro with state := s.state, tmpDataLen := s.dataLen }⟩

/-- `protocol_parse(r, start, end)` on `n` bytes at `start` in `last_buffer`. -/
def protocolParse (w : Layout) (bs : List Buffer) (pro : Protocol) (start n : ℕ) : Parsed :=
  let blk := lastIndex bs
  match scan w blk n start ⟨bs, pro, pro.state, pro.tmpDataLen⟩ with
  | .error e => ⟨e.1, e.2.buffers, e.2.pro⟩
  | .ok s => finishScan s ⟨blk, start + n⟩

/-- One round of `tcp_server_recv`: `read` stores `chunk` at `last_buffer->last`
and the parser is called on it. -/
def parseChunk (w : Layout) (bs : List Buffer) (pro : Protocol) (chunk : List UInt8) : Parsed :=
  protocolParse w (extendLast bs chunk) pro (received bs (lastIndex bs)).length chunk.length

end Xpipe
