import Xpipe.Bytes

/-!
# The log record

`log_core_writer` of `logger.c` puts a record together in `info_str`, an array of
`LOG_CONTENT_MAX_LEN` bytes: the time, the tag of the level, the text of an error, the
message and a line feed. The room that it gives to `vsnprintf` counts the tag and the line
feed only. The text of an error and the formatted message are inputs.
-/
namespace Xpipe

/-- `LOG_LEVEL_ERROR` to `LOG_LEVEL_STDOUT`. -/
inductive Level
  | error | warn | info | debug | stdout
  deriving DecidableEq, Repr

/-- `level_str[level]`. -/
def Level.str : Level → List UInt8
  | .error => [32, 91, 69, 82, 82, 79, 82, 93, 32]
  | .warn => [32, 91, 87, 65, 82, 78, 93, 32]
  | .info => [32, 91, 73, 78, 70, 79, 93, 32]
  | .debug => [32, 91, 68, 69, 66, 85, 71, 93, 32]
  | .stdout => [32, 91, 83, 84, 68, 79, 85, 84, 93, 32]

/-- `LOG_CONTENT_MAX_LEN`. -/
def logContentMaxLen : ℕ := 2048

/-- `" - "`. -/
def errorSeparator : List UInt8 := [32, 45, 32]

/-- `cache_log_time`: the first 20 bytes of `log_time`. -/
abbrev CacheLogTime := { text : List UInt8 // text.length = 20 }

/-- `info_str`: the bytes stored so far, from its start to the last one stored, and
`p - info_str`. -/
structure InfoStr where
  bytes : List UInt8 := []
  pos : ℕ := 0
  deriving DecidableEq, Repr

namespace InfoStr

/-- Stores `text` at `p`. -/
def put (s : InfoStr) (text : List UInt8) : InfoStr :=
  { s with bytes := s.bytes.take s.pos ++ text ++ s.bytes.drop (s.pos + text.length) }

/-- `p = x_memcpy_n(p, text, len)`. -/
def memcpyN (s : InfoStr) (text : List UInt8) : InfoStr :=
  { s.put text with pos := s.pos + text.length }

/-- `vsnprintf(p, m, ..)` for a message that is `text` when it is formatted: it stores at
most `m` bytes, the last of them a NUL, and returns the length of the message, or -1
when that is not an `int`. -/
def vsnprintf (s : InfoStr) (m : ℕ) (text : List UInt8) : ℤ × InfoStr :=
  (if text.length < 2 ^ 31 then text.length else -1,
    if m = 0 then s else s.put (text.take (m - 1) ++ [NUL]))

/-- All bytes of the record and the position behind it are within the array. -/
def InBounds (s : InfoStr) : Prop := s.bytes.length ≤ logContentMaxLen ∧ s.pos ≤ logContentMaxLen

end InfoStr

variable (strerror : ℤ → List UInt8)

/-- The text of an error with its separator, when there is one. -/
def errorPart (err : ℤ) : List UInt8 :=
  if err ≠ 0 then strerror err ++ errorSeparator else []

/-- `log_core_writer`, up to the write of the record to its file. -/
def logCoreWriter (time : CacheLogTime) (err : ℤ) (level : Level) (text : List UInt8) : InfoStr :=
  let s : InfoStr := {}
  let s := s.memcpyN time.val
  let s := s.memcpyN level.str
  let s := if err ≠ 0 then (s.memcpyN (strerror err)).memcpyN errorSeparator else s
  let maxLen := toSizeT (logContentMaxLen - level.str.length - 1)
  let (n, s) := s.vsnprintf maxLen text
  let s := { s with pos := s.pos + if toSizeT n < maxLen then toSizeT n else maxLen - 1 }
  s.memcpyN [LF]

/-- What stands in front of the message. -/
def recordHead (time : CacheLogTime) (err : ℤ) (level : Level) : List UInt8 :=
  time.val ++ level.str ++ errorPart strerror err

/-- The room that is given to `vsnprintf`. -/
lemma maxLen_eq (level : Level) :
    toSizeT (logContentMaxLen - level.str.length - 1) = 2047 - level.str.length := by
  cases level with
  | _ => rfl

lemma str_length_le (level : Level) : level.str.length ≤ 10 := by
  cases level with
  | _ => decide

/-- At the end of what is stored, a store appends. -/
lemma memcpyN_end (bytes text : List UInt8) :
    (InfoStr.mk bytes bytes.length).memcpyN text = ⟨bytes ++ text, (bytes ++ text).length⟩ := by
  simp [InfoStr.memcpyN, InfoStr.put]

/-- The truncation test, with its `int` and its `size_t`: the position moves past what has
been stored of the message. -/
lemma advance_eq {s : InfoStr} {m : ℕ} {text : List UInt8} (hm : 0 < m) (hlt : m < 2 ^ 31) :
    (if toSizeT (s.vsnprintf m text).1 < m then toSizeT (s.vsnprintf m text).1 else m - 1) =
      (text.take (m - 1)).length := by
  rw [List.length_take]
  by_cases hint : text.length < 2 ^ 31
  · have hn : toSizeT (s.vsnprintf m text).1 = text.length := by
      simp only [InfoStr.vsnprintf, if_pos hint, toSizeT]
      omega
    rw [hn]
    split_ifs with h
    · omega
    · omega
  · have hn : toSizeT (s.vsnprintf m text).1 = 2 ^ 64 - 1 := by
      simp only [InfoStr.vsnprintf, if_neg hint]
      rfl
    rw [hn, if_neg (by omega)]
    omega

/-- A store of one byte in place of the last one. -/
lemma memcpyN_last (bytes : List UInt8) (c d : UInt8) :
    (InfoStr.mk (bytes ++ [c]) bytes.length).memcpyN [d] =
      ⟨bytes ++ [d], (bytes ++ [d]).length⟩ := by
  simp [InfoStr.memcpyN, InfoStr.put]

variable {strerror}

/-- What is stored when the message comes to be formatted. -/
lemma head_written (time : CacheLogTime) (err : ℤ) (level : Level) :
    (let s := (({} : InfoStr).memcpyN time.val).memcpyN level.str
      if err ≠ 0 then (s.memcpyN (strerror err)).memcpyN errorSeparator else s) =
      ⟨recordHead strerror time err level, (recordHead strerror time err level).length⟩ := by
  have hstart : ({} : InfoStr) = ⟨[], ([] : List UInt8).length⟩ := rfl
  simp only [hstart, memcpyN_end, recordHead, errorPart]
  split_ifs
  · simp
  · simp

/-- The record: the parts one after another, the message cut to its room, and the line
feed in place of the NUL. -/
lemma logCoreWriter_eq (time : CacheLogTime) (err : ℤ) (level : Level) (text : List UInt8) :
    logCoreWriter strerror time err level text =
      let record := recordHead strerror time err level ++
        text.take (2046 - level.str.length) ++ [LF]
      ⟨record, record.length⟩ := by
  have hroom := str_length_le level
  have hhead := @head_written strerror time err level
  generalize recordHead strerror time err level = head at hhead ⊢
  have hadvance := @advance_eq ⟨head, head.length⟩ (2047 - level.str.length) text
    (by omega) (by omega)
  have hcut : 2047 - level.str.length - 1 = 2046 - level.str.length := by omega
  have hne : 2047 - level.str.length ≠ 0 := by omega
  have hbehind : head.drop
      (head.length + (text.take (2046 - level.str.length) ++ [NUL]).length) = [] :=
    List.drop_eq_nil_of_le (Nat.le_add_right _ _)
  simp only at hhead
  simp only [logCoreWriter, hhead, maxLen_eq, hadvance]
  simp only [InfoStr.vsnprintf, if_neg hne, InfoStr.put, hcut, List.take_length]
  rw [hbehind, List.append_nil, ← List.append_assoc, ← List.length_append]
  exact memcpyN_last _ NUL LF

lemma recordHead_length (time : CacheLogTime) (err : ℤ) (level : Level) :
    (recordHead strerror time err level).length =
      20 + level.str.length + (errorPart strerror err).length := by
  rw [recordHead, List.length_append, List.length_append, time.property]

/-- A record is within `info_str` exactly when the tag, the error part and the message
leave room for the time and the line feed. A message that is cut never does. -/
lemma inBounds_iff (time : CacheLogTime) (err : ℤ) (level : Level) (text : List UInt8) :
    (logCoreWriter strerror time err level text).InBounds ↔
      text.length + (errorPart strerror err).length + level.str.length ≤ 2027 := by
  have hroom := str_length_le level
  have hlen : (recordHead strerror time err level ++ text.take (2046 - level.str.length) ++
      [LF]).length = 20 + level.str.length + (errorPart strerror err).length +
        min (2046 - level.str.length) text.length + 1 := by
    rw [List.length_append, List.length_append, recordHead_length, List.length_take]
    rfl
  rw [logCoreWriter_eq]
  simp only [InfoStr.InBounds, logContentMaxLen, hlen]
  omega

/-- When `log_core_writer` stays within its buffer: the message, the text of the error with
its separator and the tag together have at most 2027 bytes. -/
theorem record_fits_iff (strerror : ℤ → List UInt8) (time : CacheLogTime) (err : ℤ)
    (level : Level) (text : List UInt8) :
    (logCoreWriter strerror time err level text).InBounds ↔
      text.length + (if err ≠ 0 then (strerror err).length + 3 else 0) + level.str.length ≤
        2027 := by
  have herror : (errorPart strerror err).length =
      if err ≠ 0 then (strerror err).length + 3 else 0 := by
    unfold errorPart
    split_ifs
    · rw [List.length_append]
      rfl
    · rfl
  rw [inBounds_iff, herror]

/-- A message of 2038 bytes, cut to 2037, on the level ERROR: the record has 2067 bytes. -/
theorem record_fits_cut :
    ¬ (logCoreWriter (fun _ => []) ⟨List.replicate 20 48, List.length_replicate⟩ 0 .error
      (List.replicate 2038 97)).InBounds := by
  rw [inBounds_iff, List.length_replicate]
  decide

end Xpipe
