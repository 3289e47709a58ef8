import Xpipe.ConfFaults
import Xpipe.LogTime

/-!
# The records of the parser's messages

The texts that `conf_file_parser` and the functions `set` give to `log_stderr` and
`log_error`. `log_core_writer` does not compare a record with the size of its array, but
`conf_messages_fit` has every message of the parser fit: what `%s` prints of a text comes
out of `key`.
-/
namespace Xpipe
open Machines

/-- The bytes of a string of the source. -/
def ascii (s : String) : List UInt8 := s.toList.map (fun c => UInt8.ofNat c.toNat)

/-- What `%d` prints of a `uint_t`: the `int` of the same bits. -/
def percentD (n : ℕ) : List UInt8 :=
  let v : ℤ := n % 2 ^ 32
  intText (if v < 2 ^ 31 then v else v - 2 ^ 32)

/-- `"(%d line)."`. -/
def lineNote (line : ℕ) : List UInt8 := ascii "(" ++ percentD line ++ ascii " line)."

/-- The formatted message; `path` is the name of the configuration file. -/
def ConfMessage.text (path : List UInt8) : ConfMessage → List UInt8
  | .readError => ascii "read file \"" ++ path ++ ascii "\" error."
  | .notComplete => ascii "config file \"" ++ path ++ ascii "\" is not complete."
  | .firstChar line => ascii "the first char of mod name must be letter." ++ lineNote line
  | .nameInvalid line => ascii "mod name is invalied." ++ lineNote line
  | .modNotFound name line => ascii "\"" ++ name ++ ascii "\" module not found." ++ lineNote line
  | .nameError name line =>
    ascii "\"" ++ name ++ ascii "\" module's name is error." ++ lineNote line
  | .startChar line => ascii "the start char of command must be letter." ++ lineNote line
  | .indexOut index nelts =>
    ascii "index out of array elements,(" ++ percentD index ++ ascii "," ++ percentD nelts ++
      ascii ")"
  | .commandNotFound name line =>
    ascii "command \"" ++ name ++ ascii "\" not found." ++ lineNote line
  | .setFailed name => ascii "command \"" ++ name ++ ascii "\" set failed."
  | .argsError cmd => ascii "the args of \"" ++ cmd.name ++ ascii "\" is error."
  | .invalidPort arg => ascii "\"" ++ arg ++ ascii "\" is a invalid port."
  | .notInteger arg => ascii "\"" ++ arg ++ ascii "\" is not a integer."
  | .openError arg => ascii "open \"" ++ arg ++ ascii "\" error"
  | .invalidArg arg => ascii "\"" ++ arg ++ ascii "\" is invalid arg."

/-- The level: `set` and `dynamic_array_get_ix` use `log_error`, the parser `log_stderr`. -/
def ConfMessage.level : ConfMessage → Level
  | .indexOut _ _ | .argsError _ | .invalidPort _ => .error
  | .notInteger _ | .openError _ | .invalidArg _ => .error
  | _ => .stdout

/-- The argument `err`, when `errno` has that value. -/
def ConfMessage.err (errno : ℤ) : ConfMessage → ℤ
  | .readError | .openError _ => errno
  | _ => 0

/-- The record of a message. -/
def ConfMessage.record (strerror : ℤ → List UInt8) (time : CacheLogTime) (errno : ℤ)
    (path : List UInt8) (msg : ConfMessage) : InfoStr :=
  logCoreWriter strerror time (msg.err errno) msg.level (msg.text path)

/-- What a message prints with `%s`. -/
def ConfMessage.printed (path : List UInt8) : ConfMessage → List UInt8
  | .readError | .notComplete => path
  | .modNotFound name _ | .nameError name _ | .commandNotFound name _ | .setFailed name => name
  | .invalidPort arg | .notInteger arg | .openError arg | .invalidArg arg => arg
  | .argsError cmd => cmd.name
  | _ => []

/-! ## The length of a message -/

lemma intText_length {v : ℤ} (hlow : -2 ^ 31 ≤ v) (hhigh : v ≤ 2 ^ 31) :
    (intText v).length ≤ 11 := by
  have hlen {n : ℕ} (hn : n ≤ 2 ^ 31) : (numeralOf n).length ≤ 10 :=
    numeralOf_length_le_iff.mpr (by omega)
  unfold intText
  split_ifs with hzero hpos
  · exact Nat.le_add_left 1 10
  · exact (hlen (by omega)).trans (by norm_num)
  · exact Nat.succ_le_succ (hlen (by omega))

lemma percentD_length (n : ℕ) : (percentD n).length ≤ 11 := by
  unfold percentD
  apply intText_length
  · split_ifs <;> omega
  · split_ifs <;> omega

lemma lineNote_length (line : ℕ) : (lineNote line).length ≤ 19 := by
  have hnumber := percentD_length line
  unfold lineNote
  rw [List.length_append, List.length_append, show (ascii "(").length = 1 by decide,
    show (ascii " line).").length = 7 by decide]
  omega

/-- Apart from what it prints with `%s`, a message is short. -/
lemma text_length (path : List UInt8) (msg : ConfMessage) :
    (msg.text path).length ≤ (msg.printed path).length + 61 := by
  cases msg with
  | readError =>
    simp only [ConfMessage.text, List.length_append]
    show 11 + path.length + 8 ≤ path.length + 61
    omega
  | notComplete =>
    simp only [ConfMessage.text, List.length_append]
    show 13 + path.length + 18 ≤ path.length + 61
    omega
  | firstChar line =>
    have hline := lineNote_length line
    simp only [ConfMessage.text, List.length_append]
    show 42 + (lineNote line).length ≤ 0 + 61
    omega
  | nameInvalid line =>
    have hline := lineNote_length line
    simp only [ConfMessage.text, List.length_append]
    show 21 + (lineNote line).length ≤ 0 + 61
    omega
  | modNotFound name line =>
    have hline := lineNote_length line
    simp only [ConfMessage.text, List.length_append]
    show 1 + name.length + 19 + (lineNote line).length ≤ name.length + 61
    omega
  | nameError name line =>
    have hline := lineNote_length line
    simp only [ConfMessage.text, List.length_append]
    show 1 + name.length + 25 + (lineNote line).length ≤ name.length + 61
    omega
  | startChar line =>
    have hline := lineNote_length line
    simp only [ConfMessage.text, List.length_append]
    show 41 + (lineNote line).length ≤ 0 + 61
    omega
  | indexOut index nelts =>
    have hindex := percentD_length index
    have hnelts := percentD_length nelts
    simp only [ConfMessage.text, List.length_append]
    show 29 + (percentD index).length + 1 + (percentD nelts).length + 1 ≤ 0 + 61
    omega
  | commandNotFound name line =>
    have hline := lineNote_length line
    simp only [ConfMessage.text, List.length_append]
    show 9 + name.length + 12 + (lineNote line).length ≤ name.length + 61
    omega
  | setFailed name =>
    simp only [ConfMessage.text, List.length_append]
    show 9 + name.length + 13 ≤ name.length + 61
    omega
  | argsError cmd =>
    simp only [ConfMessage.text, List.length_append]
    show 13 + cmd.name.length + 11 ≤ cmd.name.length + 61
    omega
  | invalidPort arg =>
    simp only [ConfMessage.text, List.length_append]
    show 1 + arg.length + 20 ≤ arg.length + 61
    omega
  | notInteger arg =>
    simp only [ConfMessage.text, List.length_append]
    show 1 + arg.length + 19 ≤ arg.length + 61
    omega
  | openError arg =>
    simp only [ConfMessage.text, List.length_append]
    show 6 + arg.length + 7 ≤ arg.length + 61
    omega
  | invalidArg arg =>
    simp only [ConfMessage.text, List.length_append]
    show 1 + arg.length + 17 ≤ arg.length + 61
    omega

lemma length_cString_le (w : List UInt8) : (cString w).length ≤ w.length :=
  (List.takeWhile_sublist _).length_le

/-- What is said about a command prints one of its words. -/
lemma complaints_printed {env : ConfEnv} {m : Mod} {ws : List (List UInt8)} {line : ℕ}
    {msg : ConfMessage} (hmsg : msg ∈ complaints env m ws line) (hws : ∀ w ∈ ws, w.length ≤ 256)
    (path : List UInt8) : (msg.printed path).length ≤ 256 := by
  have hword {w : List UInt8} (hw : w ∈ ws) : (cString w).length ≤ 256 :=
    (length_cString_le w).trans (hws w hw)
  have hcmd (cmd : Command) : ((ConfMessage.argsError cmd).printed path).length ≤ 256 := by
    show cmd.name.length ≤ 256
    cases cmd with
    | _ => decide
  have hnumber {cmd : Command} {wrong : List UInt8 → ConfMessage}
      (hwrong : ∀ arg, (wrong arg).printed path = arg)
      (hcomplaint : numberComplaint cmd wrong ws = some msg) : (msg.printed path).length ≤ 256 := by
    unfold numberComplaint at hcomplaint
    split at hcomplaint
    · split_ifs at hcomplaint
      cases hcomplaint
      rw [hwrong]
      exact hword (by simp)
    · cases hcomplaint
      exact hcmd cmd
  have hcomplaint {cmd : Command} (hcomplaint : cmd.complaint env ws = some msg) :
      (msg.printed path).length ≤ 256 := by
    unfold Command.complaint at hcomplaint
    cases cmd with
    | daemon | pid | nodelay =>
      simp only at hcomplaint
      split_ifs at hcomplaint
      cases hcomplaint
      exact hcmd _
    | listen => exact hnumber (fun _ => rfl) hcomplaint
    | connections => exact hnumber (fun _ => rfl) hcomplaint
    | requestBufferSize => exact hnumber (fun _ => rfl) hcomplaint
    | log =>
      simp only at hcomplaint
      split at hcomplaint
      · split_ifs at hcomplaint
        · cases hcomplaint
          exact hword (by simp)
        · cases hcomplaint
          exact hword (by simp)
      · cases hcomplaint
        exact hcmd _
  unfold complaints at hmsg
  split at hmsg
  · cases hmsg
  · split at hmsg
    · simp only [List.mem_cons, List.not_mem_nil, or_false] at hmsg
      rcases hmsg with rfl | rfl
      · exact Nat.zero_le _
      · exact hword (by simp)
    · split at hmsg
      · cases hmsg
      · rename_i heq
        simp only [List.mem_cons, List.not_mem_nil, or_false] at hmsg
        rcases hmsg with rfl | rfl
        · exact hcomplaint heq
        · exact hword (by simp)

/-- What is printed about a byte at fault comes out of `key`. -/
lemma said_printed {env : ConfEnv} {key : Vector UInt8 256} {pre : List UInt8} {c : UInt8}
    {l : ConfLocals} {msgs : List ConfMessage}
    (hrun : run (confByteSays env) (localsStart key) pre = .ok l)
    (hsaid : confByteSays env l c = .error (.said msgs)) (path : List UInt8) :
    ∀ msg ∈ msgs, (msg.printed path).length ≤ 256 := by
  obtain ⟨honline, hparse⟩ := onLine_run hrun
  have hread := readTo_run hparse
  rw [confByteSays_error_iff] at hsaid
  have htake : (l.key.toList.take l.k).length ≤ 256 := by
    rw [List.length_take, Vector.length_toList]
    exact Nat.min_le_right _ _
  have hname : l.name.length ≤ 256 := by
    have hall := length_cString_le l.key.toList
    rwa [Vector.length_toList] at hall
  intro msg hmsg
  generalize hp : l.parse = p at hread
  have hstate := congrArg ConfParse.state hp
  have hkey := congrArg ConfParse.key hp
  have hmod := congrArg ConfParse.mod hp
  have hres := congrArg ConfParse.res hp
  simp only [ConfLocals.parse] at hstate hkey hmod hres
  cases hread with
  | out h =>
    obtain ⟨-, rfl⟩ := (out_message hstate).mp hsaid
    rw [List.mem_singleton.mp hmsg]
    exact Nat.zero_le _
  | outComment h hbody => exact absurd hsaid (comment_message hstate)
  | nameComment h hname hm hbody => exact absurd hsaid (comment_message hstate)
  | blockComment h hbody => exact absurd hsaid (comment_message hstate)
  | name h hname hlen =>
    rcases (modName_message hstate (by rw [hkey]; exact hname.2)).mp hsaid with
      ⟨-, rfl⟩ | ⟨-, -, -, rfl⟩
    · rw [List.mem_singleton.mp hmsg]
      exact Nat.zero_le _
    · rw [List.mem_singleton.mp hmsg]
      exact htake
  | gap h _ hm hgap =>
    obtain ⟨-, rfl⟩ := (gap_message hstate).mp hsaid
    rw [List.mem_singleton.mp hmsg]
    exact hname
  | block h =>
    unfold confSwitch at hsaid
    rw [hstate] at hsaid
    obtain ⟨-, rfl⟩ := modBlock_message.mp hsaid
    rw [List.mem_singleton.mp hmsg]
    exact Nat.zero_le _
  | @word _ _ _ _ _ m _ h hwords hw hfirst hlen =>
    have hconf : l.res.hasConf m = true := by
      rw [hres]
      exact h.hasConf
    obtain ⟨-, -, rfl, -⟩ := (command_message hstate hmod rfl hconf).mp hsaid
    refine complaints_printed hmsg (fun w hw => ?_) path
    rcases List.mem_append.mp hw with hold | hnew
    · exact honline.short w hold
    · rw [List.mem_singleton.mp hnew]
      exact htake
  | @between _ _ _ _ m _ h hwords hne hfirst =>
    have hargs := congrArg ConfParse.cmdArgs hp
    simp only [ConfLocals.parse] at hargs
    have hconf : l.res.hasConf m = true := by
      rw [hres]
      exact h.hasConf
    obtain ⟨-, rfl, -⟩ := (commandBlank_message hstate hmod rfl (hargs ▸ hne) hconf).mp hsaid
    exact complaints_printed hmsg honline.short path

/-- Whatever the parser prints comes out of `key`, or is the name of the file. -/
lemma confReadSays_printed {env : ConfEnv} {key : Vector UInt8 256} {s : List UInt8}
    {l : ConfLocals} (hrun : run (confByteSays env) (localsStart key) s = .ok l)
    {reads : List FileRead} {msgs : List ConfMessage}
    (hsaid : confReadSays env l reads = .error (.said msgs)) (path : List UInt8) :
    ∀ msg ∈ msgs, (msg.printed path).length ≤ max 256 path.length := by
  have hend {l : ConfLocals} (hsaid : confEndSays l = .error (.said msgs)) :
      ∀ msg ∈ msgs, (msg.printed path).length ≤ max 256 path.length := by
    unfold confEndSays at hsaid
    split_ifs at hsaid
    cases hsaid
    intro msg hmsg
    rw [List.mem_singleton.mp hmsg]
    exact Nat.le_max_right _ _
  induction reads generalizing s l with
  | nil => exact hend hsaid
  | cons r reads ih =>
    cases r with
    | failed =>
      cases hsaid
      intro msg hmsg
      rw [List.mem_singleton.mp hmsg]
      exact Nat.le_max_right _ _
    | bytes data =>
      unfold confReadSays at hsaid
      split_ifs at hsaid
      · exact hend hsaid
      · cases hdata : run (confByteSays env) l data with
        | ok l' =>
          rw [hdata] at hsaid
          have hmore : run (confByteSays env) (localsStart key) (s ++ data) = .ok l' := by
            rw [run_append_of_ok hrun, hdata]
          exact ih hmore hsaid
        | error e =>
          rw [hdata] at hsaid
          cases hsaid
          obtain ⟨pre, c, rest, l', rfl, hpre, hstop⟩ := (run_error_iff _ _ _ _).mp hdata
          have hmore : run (confByteSays env) (localsStart key) (s ++ pre) = .ok l' := by
            rw [run_append_of_ok hrun, hpre]
          intro msg hmsg
          exact (said_printed hmore hstop path msg hmsg).trans (Nat.le_max_left _ _)

/-- **The messages of the parser fit into the record.** Whatever the text and its reads are,
no message of `conf_file_parser` or of a `set` makes `log_core_writer` store behind its
array, when the name of the file and the text of the error are not long themselves. -/
theorem conf_messages_fit (strerror : ℤ → List UInt8) (time : CacheLogTime) (errno : ℤ)
    (path : List UInt8) (hroom : path.length + (strerror errno).length ≤ 1600) (env : ConfEnv)
    (key : Vector UInt8 256) (reads : List FileRead) (msgs : List ConfMessage)
    (h : confFileParserSays env key reads = .error (.said msgs)) :
    ∀ msg ∈ msgs, (msg.record strerror time errno path).InBounds := by
  intro msg hmsg
  have hprinted := confReadSays_printed (s := []) rfl h path msg hmsg
  have htext := text_length path msg
  have hlevel := str_length_le msg.level
  have herror : (errorPart strerror (msg.err errno)).length ≤ (strerror errno).length + 3 := by
    unfold errorPart
    split_ifs with herr
    · have hsame : msg.err errno = errno := by
        cases msg with
        | readError | openError _ => rfl
        | _ => exact absurd rfl herr
      rw [hsame, List.length_append]
      exact Nat.le_refl _
    · exact Nat.zero_le _
  unfold ConfMessage.record
  rw [inBounds_iff]
  omega

/-- The two messages about `port` fit. -/
theorem conf_messages_fit_port :
    (ConfMessage.record (fun _ => [69]) ⟨List.replicate 20 48, List.length_replicate⟩ 2 [47, 99]
      (.indexOut 1 1)).InBounds ∧
    (ConfMessage.record (fun _ => [69]) ⟨List.replicate 20 48, List.length_replicate⟩ 2 [47, 99]
      (.commandNotFound [112, 111, 114, 116] 2)).InBounds := by
  have hfit := conf_messages_fit (fun _ => [69]) ⟨List.replicate 20 48, List.length_replicate⟩ 2
    [47, 99] (by decide) ⟨[47], fun _ => true⟩ (Vector.replicate 256 7) [.bytes portText]
    [.indexOut 1 1, .commandNotFound [112, 111, 114, 116] 2] rfl
  exact ⟨hfit _ (by simp), hfit _ (by simp)⟩

end Xpipe
