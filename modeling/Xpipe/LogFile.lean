import Xpipe.FileWrite
import Xpipe.LogTime

/-!
# Log files

The functions of `logger.c` that a module calls, over `log_core_writer` and `file_write`.
A logger has a level and a `file_t`, or none for stdout; files are open with O_APPEND, and
several `file_t` can be open on one file. `log_read_back` is the round trip: what the calls
have said can be read off the bytes of the file.
-/
namespace Xpipe

/-- `LOG_LEVEL_ERROR` to `LOG_LEVEL_STDOUT`, as numbers. -/
def Level.number : Level → ℕ
  | .error => 1
  | .warn => 2
  | .info => 3
  | .debug => 4
  | .stdout => 5

/-- `logger_t`; `file` is the number of its `file_t`, none for stdout. -/
structure LoggerT where
  level : Level
  file : Option ℕ
  deriving DecidableEq, Repr

/-- The arguments of a call of `log_core_writer`. -/
structure WriterArgs where
  file : Option ℕ
  err : ℤ
  level : Level
  text : List UInt8
  deriving DecidableEq, Repr

/-- `log_error`: no level is compared. -/
def logError (logger : Option LoggerT) (err : ℤ) (text : List UInt8) : Option WriterArgs :=
  logger.map (fun l => ⟨l.file, err, .error, text⟩)

/-- What `log_warn`, `log_info` and `log_debug` do at their level. -/
def logAt (level : Level) (logger : Option LoggerT) (err : ℤ) (text : List UInt8) :
    Option WriterArgs :=
  match logger with
  | none => none
  | some l => if l.level.number < level.number then none else some ⟨l.file, err, level, text⟩

/-- `log_warn`. -/
def logWarn : Option LoggerT → ℤ → List UInt8 → Option WriterArgs := logAt .warn

/-- `log_info`. -/
def logInfo : Option LoggerT → ℤ → List UInt8 → Option WriterArgs := logAt .info

/-- `log_debug`. -/
def logDebug : Option LoggerT → ℤ → List UInt8 → Option WriterArgs := logAt .debug

/-- `log_printf`. -/
def logPrintf (text : List UInt8) : WriterArgs := ⟨none, 0, .stdout, text⟩

/-- `log_stderr`, which writes to stdout as well. -/
def logStderr (err : ℤ) (text : List UInt8) : WriterArgs := ⟨none, err, .stdout, text⟩

/-- The calls of a module. -/
inductive LogCall
  | error (logger : Option LoggerT) (err : ℤ) (text : List UInt8)
  | warn (logger : Option LoggerT) (err : ℤ) (text : List UInt8)
  | info (logger : Option LoggerT) (err : ℤ) (text : List UInt8)
  | debug (logger : Option LoggerT) (err : ℤ) (text : List UInt8)
  | printf (text : List UInt8)
  | stderr (err : ℤ) (text : List UInt8)
  deriving DecidableEq, Repr

/-- The call of `log_core_writer` that it leads to. -/
def LogCall.args : LogCall → Option WriterArgs
  | .error logger err text => logError logger err text
  | .warn logger err text => logWarn logger err text
  | .info logger err text => logInfo logger err text
  | .debug logger err text => logDebug logger err text
  | .printf text => some (logPrintf text)
  | .stderr err text => some (logStderr err text)

/-- A call at a time that fits, with what the file system does and how much of a record
stdout takes. -/
structure LogEvent where
  call : LogCall
  tm : Tm
  fits : tm.Fits
  disk : Disk
  out : ℕ

/-- The bytes of each file, the field `offset` of each `file_t`, and what stdout was given. -/
structure LogFiles where
  data : ℕ → List UInt8
  offset : ℕ → OffT
  stdout : List UInt8

instance InfoStr.decidableInBounds (s : InfoStr) : Decidable s.InBounds :=
  inferInstanceAs (Decidable (_ ∧ _))

/-- The first `pos` bytes of `info_str`. -/
def InfoStr.buffer (s : InfoStr) (h : s.InBounds) : FileBuffer :=
  ⟨s.bytes.take s.pos, by
    have hlen := List.length_take_le s.pos s.bytes
    have hpos := h.2
    unfold logContentMaxLen at hpos
    omega⟩

section
variable (strerror : ℤ → List UInt8) (node : ℕ → ℕ)

/-- The record of a call. -/
def LogEvent.record (e : LogEvent) (a : WriterArgs) : InfoStr :=
  logCoreWriter strerror (e.tm.cache e.fits) a.err a.level a.text

/-- `log_core_writer` on the files; `node f` is the file that the `file_t` of number `f` is
open on. None: a store behind `info_str`. -/
def logStep (s : LogFiles) (e : LogEvent) : Option LogFiles :=
  match e.call.args with
  | none => some s
  | some a =>
    let info := e.record strerror a
    if h : info.InBounds then
      match a.file with
      | none => some { s with stdout := s.stdout ++ (info.buffer h).val.take e.out }
      | some f =>
        (fileWrite ((info.buffer h).val.length + 1) ⟨s.offset f⟩ (info.buffer h) flDefaultOffset
          true e.disk).map (fun call => { s with
            data := Function.update s.data (node f) (s.data (node f) ++ call.output)
            offset := Function.update s.offset f call.file.offset })
    else none

/-! ## Reading a log -/

/-- The complete lines of a file. -/
def logLines (data : List UInt8) : List (List UInt8) := (data.splitOn LF).dropLast

/-- An entry of the log. -/
structure Entry where
  time : List UInt8
  level : Level
  body : List UInt8
  deriving DecidableEq, Repr

/-- The line of an entry, with its LF. -/
def Entry.line (x : Entry) : List UInt8 := x.time ++ x.level.str ++ x.body ++ [LF]

def levels : List Level := [.error, .warn, .info, .debug, .stdout]

/-- The entry of a line: 20 bytes of time, the tag of a level, and the rest. -/
def readLine (line : List UInt8) : Option Entry :=
  (levels.find? (fun l => l.str.isPrefixOf (line.drop 20))).map
    (fun l => ⟨line.take 20, l, line.drop (20 + l.str.length)⟩)

/-- The entries of a file. -/
def readLog (data : List UInt8) : List Entry := (logLines data).filterMap readLine

/-- The entry that a call makes in the file `φ`, if any. -/
def LogEvent.entry (φ : ℕ) (e : LogEvent) : Option Entry :=
  e.call.args.bind (fun a =>
    if a.file.map node = some φ then
      some ⟨e.tm.text, a.level, errorPart strerror a.err ++ a.text⟩ else none)

/-- What the call should add to the file `φ`. -/
def LogEvent.line (φ : ℕ) (e : LogEvent) : List UInt8 :=
  ((e.entry strerror node φ).map Entry.line).getD []

/-- No text of the call has an LF in it, and every `write` takes something. -/
structure LogEvent.Plain (e : LogEvent) : Prop where
  text : ∀ a ∈ e.call.args, LF ∉ a.text ∧ LF ∉ strerror a.err
  disk : ∀ i k, e.disk.result i k ≠ none

end

/-- Nothing is behind the last LF. -/
def WholeLines (data : List UInt8) : Prop := data = [] ∨ ∃ init, data = init ++ [LF]

/-! ## Lines -/

lemma logLines_snoc {data line : List UInt8} (hdata : WholeLines data) (hline : LF ∉ line) :
    logLines (data ++ (line ++ [LF])) = logLines data ++ [line] := by
  have hone : (line ++ [LF]).splitOn LF = [line, []] := by
    rw [List.splitOn_append_cons_self_of_not_mem hline]
    simp
  unfold logLines
  rcases hdata with rfl | ⟨init, rfl⟩
  · rw [List.nil_append, hone]
    simp
  · rw [List.append_assoc, List.singleton_append, List.splitOn_append_cons_self, hone,
      List.splitOn_append_cons_self]
    simp

/-- A line is read back as it was put together. -/
lemma readLine_record {time body : List UInt8} (htime : time.length = 20) (level : Level) :
    readLine (time ++ level.str ++ body) = some ⟨time, level, body⟩ := by
  have hdrop : (time ++ level.str ++ body).drop 20 = level.str ++ body := by
    rw [List.append_assoc, ← htime, List.drop_left]
  have hfind : levels.find? (fun l => l.str.isPrefixOf (level.str ++ body)) = some level := by
    cases level with
    | _ => simp [levels, Level.str, List.isPrefixOf]
  have htake : (time ++ level.str ++ body).take 20 = time := by
    rw [List.append_assoc, ← htime, List.take_left]
  have hrest : (time ++ level.str ++ body).drop (20 + level.str.length) = body := by
    rw [← htime, ← List.length_append, List.drop_left]
  unfold readLine
  rw [hdrop, hfind, htake, Option.map_some, hrest]

/-! ## A record -/

lemma numeralOf_no_lf (n : ℕ) : LF ∉ numeralOf n := by
  intro h
  exact absurd (numeralOf_digits n LF h) (by decide)

lemma intText_no_lf (v : ℤ) : LF ∉ intText v := by
  unfold intText
  split_ifs
  · decide
  · exact numeralOf_no_lf _
  · intro h
    rcases List.mem_cons.mp h with hsign | hdigits
    · exact absurd hsign (by decide)
    · exact numeralOf_no_lf _ hdigits

lemma padded_no_lf {fill : UInt8} {width : ℕ} {s : List UInt8} (hfill : LF ≠ fill) (hs : LF ∉ s) :
    LF ∉ padded fill width s := by
  unfold padded
  intro h
  rcases List.mem_append.mp h with hin | hin
  · exact hfill (List.eq_of_mem_replicate hin)
  · exact hs hin

lemma Tm.text_no_lf (t : Tm) : LF ∉ t.text := by
  have htwo (n : ℕ) : LF ∉ twoDigits n := padded_no_lf (by decide) (intText_no_lf n)
  have hfour : LF ∉ fourDigits t.year := padded_no_lf (by decide) (intText_no_lf t.year)
  have hsign : LF ≠ 45 ∧ LF ≠ 47 ∧ LF ≠ 58 ∧ LF ≠ 32 := by decide
  unfold Tm.text
  simp [htwo, hfour, hsign]

section
variable {strerror : ℤ → List UInt8} {node : ℕ → ℕ} {e : LogEvent} {a : WriterArgs}

/-- What the record of a call is, within its array: nothing of the message is cut off. -/
lemma record_buffer (h : (e.record strerror a).InBounds) :
    ((e.record strerror a).buffer h).val =
      e.tm.text ++ a.level.str ++ (errorPart strerror a.err ++ a.text) ++ [LF] := by
  have hbounds : a.text.length + (errorPart strerror a.err).length + a.level.str.length ≤ 2027 :=
    inBounds_iff _ _ _ _ |>.mp h
  have hcut : a.text.take (2046 - a.level.str.length) = a.text :=
    List.take_of_length_le (by omega)
  have heq : e.record strerror a = _ := logCoreWriter_eq (e.tm.cache e.fits) a.err a.level a.text
  simp only [InfoStr.buffer]
  rw [heq]
  simp only [List.take_length, hcut, recordHead, Tm.cache]
  simp

/-- `write` calls that always take something write all of the buffer. -/
lemma fileWriteLoop_whole {d : Disk} (hd : ∀ i k, d.result i k ≠ none) {buf : List UInt8}
    (hbuf : buf.length < 2 ^ 63) {fuel i k : ℕ} {f : File} (hk : k ≤ buf.length)
    (hfuel : buf.length - k < fuel) :
    ∃ call, fileWriteLoop d buf fuel i f (Int64.ofNat k) (buf.length - k) = some call ∧
      call.output = buf.drop k := by
  induction fuel generalizing i k f with
  | zero => omega
  | succ fuel ih =>
    have hwritten : (Int64.ofNat k).toNatClampNeg = k :=
      Int64.toNatClampNeg_ofNat_of_lt (hk.trans_lt hbuf)
    have hoffer : (buf.drop k).take (buf.length - k) = buf.drop k :=
      List.take_of_length_le (by rw [List.length_drop])
    unfold fileWriteLoop
    simp only [hwritten, hoffer]
    cases hres : d.result i (buf.length - k) with
    | none => exact absurd hres (hd i _)
    | some n =>
      obtain ⟨hle, hpos⟩ := d.allowed i _ n hres
      simp only
      split_ifs with hall
      · refine ⟨_, rfl, ?_⟩
        rw [hall, List.take_of_length_le (by rw [List.length_drop])]
      · have hsize : buf.length - k - n = buf.length - (k + n) := by omega
        obtain ⟨call, hcall, hout⟩ :=
          @ih (i + 1) (k + n) { f with offset := f.offset + Int64.ofNat n } (by omega) (by omega)
        rw [hsize, ← Int64.ofNat_add, hcall]
        refine ⟨_, rfl, ?_⟩
        rw [FileCall.after, hout, ← List.drop_drop, List.take_append_drop]

/-- **One call**: a file gets what the call should add to it, or a beginning of that. -/
lemma logStep_data {s s' : LogFiles} (h : logStep strerror node s e = some s') (φ : ℕ) :
    ∃ part, s'.data φ = s.data φ ++ part ∧ part <+: e.line strerror node φ ∧
      ((∀ i k, e.disk.result i k ≠ none) → part = e.line strerror node φ) := by
  have hnothing (hline : e.line strerror node φ = []) (hsame : s'.data φ = s.data φ) :
      ∃ part, s'.data φ = s.data φ ++ part ∧ part <+: e.line strerror node φ ∧
        ((∀ i k, e.disk.result i k ≠ none) → part = e.line strerror node φ) := by
    rw [hline, hsame]
    exact ⟨[], by simp, List.prefix_rfl, fun _ => rfl⟩
  unfold logStep at h
  cases hargs : e.call.args with
  | none =>
    rw [hargs] at h
    cases h
    exact hnothing (by simp [LogEvent.line, LogEvent.entry, hargs]) rfl
  | some a =>
    rw [hargs] at h
    simp only at h
    split_ifs at h with hbounds
    cases hfile : a.file with
    | none =>
      rw [hfile] at h
      cases h
      exact hnothing (by simp [LogEvent.line, LogEvent.entry, hargs, hfile]) rfl
    | some f =>
      rw [hfile] at h
      obtain ⟨call, hcall, rfl⟩ := Option.map_eq_some_iff.mp h
      have hloop : fileWriteLoop e.disk ((e.record strerror a).buffer hbounds).val
          (((e.record strerror a).buffer hbounds).val.length + 1) 0 ⟨s.offset f⟩ 0
          ((e.record strerror a).buffer hbounds).val.length = some call := by
        simpa [fileWrite] using hcall
      by_cases hnode : node f = φ
      · have hline : e.line strerror node φ = ((e.record strerror a).buffer hbounds).val := by
          rw [record_buffer]
          simp [LogEvent.line, LogEvent.entry, Entry.line, hargs, hfile, hnode]
        refine ⟨call.output, by simp [hnode], ?_, fun hdisk => ?_⟩
        · obtain ⟨call', hcall', hpre, -⟩ := fileWriteLoop_start e.disk
            ((e.record strerror a).buffer hbounds).property ⟨s.offset f⟩ (Nat.lt_succ_self _)
          rw [hloop] at hcall'
          cases hcall'
          rw [hline]
          exact hpre
        · obtain ⟨call', hcall', hout⟩ := fileWriteLoop_whole (i := 0) (k := 0)
            (f := ⟨s.offset f⟩) hdisk ((e.record strerror a).buffer hbounds).property
            (Nat.zero_le _) (Nat.lt_succ_self _)
          have hsame : call' = call := Option.some.inj (hcall'.symm.trans hloop)
          rw [hline, ← hsame, hout, List.drop_zero]
      · have hother : Function.update s.data (node f) (s.data (node f) ++ call.output) φ =
            s.data φ := Function.update_of_ne (Ne.symm hnode) _ _
        exact hnothing (by simp [LogEvent.line, LogEvent.entry, hargs, hfile, hnode]) hother

/-- **One call, read back.** -/
lemma readLog_step {data part : List UInt8} {φ : ℕ} (hdata : WholeLines data)
    (hplain : e.Plain strerror) (hpart : part = e.line strerror node φ) :
    readLog (data ++ part) = readLog data ++ (e.entry strerror node φ).toList ∧
      WholeLines (data ++ part) := by
  subst hpart
  unfold LogEvent.line
  cases hentry : e.entry strerror node φ with
  | none => simpa using hdata
  | some x =>
    obtain ⟨a, hargs, hx⟩ := Option.bind_eq_some_iff.mp hentry
    split_ifs at hx
    cases hx
    obtain ⟨htext, herror⟩ := hplain.text a hargs
    have hlevel : LF ∉ a.level.str := by
      cases a.level with
      | _ => decide
    have herr : LF ∉ errorPart strerror a.err := by
      have hseparator : LF ∉ errorSeparator := by decide
      unfold errorPart
      split_ifs
      · simp [herror, hseparator]
      · simp
    have hline : LF ∉ e.tm.text ++ a.level.str ++ (errorPart strerror a.err ++ a.text) := by
      simp [e.tm.text_no_lf, hlevel, herr, htext]
    simp only [Option.map_some, Option.getD_some, Entry.line]
    refine ⟨?_, Or.inr ⟨data ++ _, (List.append_assoc _ _ _).symm⟩⟩
    have hread : readLine (e.tm.text ++ a.level.str ++ (errorPart strerror a.err ++ a.text)) =
        some ⟨e.tm.text, a.level, errorPart strerror a.err ++ a.text⟩ :=
      readLine_record (e.tm.cache e.fits).property a.level
    unfold readLog
    rw [logLines_snoc hdata hline, List.filterMap_append, List.filterMap_cons, hread]
    rfl

end

/-- **A log can be read back.** After any calls of any loggers, none of which has made a
record run over its array: a file has got, call after call, a beginning of the line of each
call that was for it and passed the level of its logger. If no `write` fails and no message
has an LF in it, the entries of the file are those of the calls, in their order; and if the
clock was not set back, their times are in order as texts. -/
theorem log_read_back (strerror : ℤ → List UInt8) (node : ℕ → ℕ) (s s' : LogFiles)
    (events : List LogEvent) (hrun : events.foldlM (logStep strerror node) s = some s') (φ : ℕ) :
    (∃ parts, List.Forall₂ (fun e part => part <+: e.line strerror node φ) events parts ∧
      s'.data φ = s.data φ ++ parts.flatten) ∧
    (WholeLines (s.data φ) → (∀ e ∈ events, e.Plain strerror) →
      readLog (s'.data φ) =
        readLog (s.data φ) ++ events.filterMap (LogEvent.entry strerror node φ)) ∧
    ((∀ e ∈ events, 0 ≤ e.tm.year) →
      events.Pairwise (fun e e' => ¬ e'.tm.fields < e.tm.fields) →
      (events.filterMap (LogEvent.entry strerror node φ)).Pairwise
        (fun x y => ¬ y.time < x.time)) := by
  refine ⟨?_, ?_, ?_⟩
  · induction events generalizing s with
    | nil =>
      cases hrun
      exact ⟨[], .nil, by simp⟩
    | cons e events ih =>
      rw [List.foldlM_cons] at hrun
      obtain ⟨s₁, hstep, hrest⟩ := Option.bind_eq_some_iff.mp hrun
      obtain ⟨part, hdata, hpart, -⟩ := logStep_data hstep φ
      obtain ⟨parts, hparts, hend⟩ := ih s₁ hrest
      exact ⟨part :: parts, .cons hpart hparts, by simp [hend, hdata]⟩
  · induction events generalizing s with
    | nil =>
      cases hrun
      simp
    | cons e events ih =>
      intro hwhole hplain
      rw [List.foldlM_cons] at hrun
      obtain ⟨s₁, hstep, hrest⟩ := Option.bind_eq_some_iff.mp hrun
      obtain ⟨part, hdata, -, hpart⟩ := logStep_data hstep φ
      obtain ⟨he, hevents⟩ := List.forall_mem_cons.mp hplain
      obtain ⟨hread, hkeep⟩ := readLog_step hwhole he (hpart he.disk)
      rw [← hdata] at hread hkeep
      rw [ih s₁ hrest hkeep hevents, hread, List.filterMap_cons]
      cases e.entry strerror node φ with
      | none => simp
      | some x => simp
  · intro hyears hclock
    have htime {e : LogEvent} {x : Entry} (hx : e.entry strerror node φ = some x) :
        x.time = e.tm.text := by
      obtain ⟨a, -, heq⟩ := Option.bind_eq_some_iff.mp hx
      split_ifs at heq
      cases heq
      rfl
    have hboth := hclock.imp_of_mem (S := fun e e' => ¬ e'.tm.text < e.tm.text)
      (fun {e e'} he he' hnot => by
        rwa [text_lt_iff ⟨hyears e' he', ((fits_iff e'.tm).mp e'.fits).2⟩
          ⟨hyears e he, ((fits_iff e.tm).mp e.fits).2⟩])
    apply hboth.filterMap
    intro e e' hnot x hx y hy
    rwa [htime hx, htime hy]

/-- A file system that takes every offer as a whole. -/
def wholeDisk : Disk where
  result _ k := some k
  allowed i k n h := by
    cases h
    exact ⟨Nat.le_refl k, id⟩

/-- The third of January 2026, at 04:05 and so many seconds. -/
def morning (sec : ℕ) (h : sec ≤ 60) : Tm :=
  ⟨2026, 1, 3, 4, 5, sec, by decide, by decide, by decide, by decide, h⟩

/-- A record, one that does not pass its level, and one through another `file_t`. -/
def threeCalls : List LogEvent :=
  [⟨.info (some ⟨.info, some 0⟩) 0 [111, 107], morning 6 (by decide), by decide, wholeDisk, 0⟩,
    ⟨.debug (some ⟨.info, some 0⟩) 0 [110, 111], morning 7 (by decide), by decide, wholeDisk, 0⟩,
    ⟨.error (some ⟨.error, some 1⟩) 2 [98, 97, 100], morning 8 (by decide), by decide, wholeDisk,
      0⟩]

theorem log_read_back_three :
    ∃ s', threeCalls.foldlM (logStep (fun _ => [69]) (fun _ => 0)) ⟨fun _ => [], fun _ => 0, []⟩ =
        some s' ∧
      readLog (s'.data 0) = [⟨(morning 6 (by decide)).text, .info, [111, 107]⟩,
        ⟨(morning 8 (by decide)).text, .error, [69, 32, 45, 32, 98, 97, 100]⟩] := by
  have hsome : (threeCalls.foldlM (logStep (fun _ => [69]) (fun _ => 0))
      ⟨fun _ => [], fun _ => 0, []⟩).isSome = true := by rfl
  obtain ⟨s', hrun⟩ := Option.isSome_iff_exists.mp hsome
  have hplain : ∀ e ∈ threeCalls, e.Plain (fun _ => [69]) := by
    intro e he
    simp only [threeCalls, List.mem_cons, List.not_mem_nil, or_false] at he
    rcases he with rfl | rfl | rfl
    · exact ⟨by decide, fun i k h => by cases h⟩
    · exact ⟨by decide, fun i k h => by cases h⟩
    · exact ⟨by decide, fun i k h => by cases h⟩
  exact ⟨s', hrun, (log_read_back _ _ _ s' threeCalls hrun 0).2.1 (Or.inl rfl) hplain⟩

end Xpipe
