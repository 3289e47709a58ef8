import Xpipe.KeyBuffer

/-!
# The messages of the configuration parser

`conf_file_parser` once more, now with its array `key`, its count of lines and what it
writes to the log before it returns CONF_ERROR. `ConfLocals.parse` forgets these and gives
the parser of `ConfFile`.
-/
namespace Xpipe
open Machines

/-- What is logged: by `conf_file_parser` itself, by `dynamic_array_get_ix` for it, and by `set`
of a command. A name or an argument is the text that `%s` prints of it. -/
inductive ConfMessage
  | readError
  | notComplete
  | firstChar (line : ℕ)
  | nameInvalid (line : ℕ)
  | modNotFound (name : List UInt8) (line : ℕ)
  | nameError (name : List UInt8) (line : ℕ)
  | startChar (line : ℕ)
  | indexOut (index nelts : ℕ)
  | commandNotFound (name : List UInt8) (line : ℕ)
  | setFailed (name : List UInt8)
  | argsError (cmd : Command)
  | invalidPort (arg : List UInt8)
  | notInteger (arg : List UInt8)
  | openError (arg : List UInt8)
  | invalidArg (arg : List UInt8)
  deriving DecidableEq, Repr

/-- How the parser stops before the end. -/
inductive ConfHalt
  | said (msgs : List ConfMessage)
  | overflow
  deriving DecidableEq, Repr

/-- The locals of `conf_file_parser`. `cmdArgs` has the bytes in front of each NUL. -/
structure ConfLocals where
  state : ConfSw
  oldState : ConfSw
  key : Vector UInt8 256
  k : ℕ
  line : ℕ
  mod : Option Mod
  cmdArgs : List (List UInt8)
  res : Resource

namespace ConfLocals

/-- `key[k++] = ch`. -/
def putKey (l : ConfLocals) (c : UInt8) : Except ConfHalt ConfLocals :=
  if h : l.k < 256 then .ok { l with key := l.key.set l.k c, k := l.k + 1 } else .error .overflow

/-- `key[k] = '\0'`. -/
def endKey (l : ConfLocals) : Except ConfHalt ConfLocals :=
  if h : l.k < 256 then .ok { l with key := l.key.set l.k NUL } else .error .overflow

/-- The word in `key` becomes an element of `cmd_args`. -/
def pushArg (l : ConfLocals) : Except ConfHalt ConfLocals :=
  l.endKey.map (fun l => { l with cmdArgs := l.cmdArgs ++ [l.key.toList.take l.k], k := 0 })

/-- `key`, as `%s` prints it. -/
def name (l : ConfLocals) : List UInt8 := cString l.key.toList

end ConfLocals

/-- What a command that takes a number logs when it fails; `wrong` is said of a word that
is no number. -/
def numberComplaint (cmd : Command) (wrong : List UInt8 → ConfMessage) :
    List (List UInt8) → Option ConfMessage
  | [_, arg] => if isPositiveInteger arg then none else some (wrong (cString arg))
  | _ => some (.argsError cmd)

/-- What `set` of a command logs when it fails for its words. -/
def Command.complaint (env : ConfEnv) (cmd : Command) (args : List (List UInt8)) :
    Option ConfMessage :=
  match cmd with
  | .daemon | .pid => if args.length = 2 then none else some (.argsError cmd)
  | .nodelay => if args.length = 1 then none else some (.argsError cmd)
  | .listen => numberComplaint cmd .invalidPort args
  | .connections | .requestBufferSize => numberComplaint cmd .notInteger args
  | .log =>
    match args with
    | [_, arg, level] =>
      if !env.opens (cString (fullFileName env arg)) then some (.openError (cString arg))
      else if (logLevelOf (cString level)).isNone then some (.invalidArg (cString level))
      else none
    | _ => some (.argsError cmd)

/-- Case `sw_mod_name_end`. -/
def modNameEndSays (env : ConfEnv) (l : ConfLocals) : Except ConfHalt ConfLocals :=
  match confFileGetSysMod l.key.toList with
  | none => .error (.said [.modNotFound l.name l.line])
  | some m => .ok { l with mod := some m, res := createConf env m l.res, k := 0 }

/-- The call of `set` for a command that was found. -/
def callSetSays (env : ConfEnv) (l : ConfLocals) (m : Mod) (cmd : Command)
    (cmdName : List UInt8) : Except ConfHalt ConfLocals :=
  match cmd.set env m l.cmdArgs l.res with
  | none =>
    .error (.said ((cmd.complaint env l.cmdArgs).toList ++ [.setFailed (cString cmdName)]))
  | some res => .ok { l with res := res }

/-- What `dynamic_array_get_ix` logs when `conf_file_get_global_cmd` has gone through `mod_cmds`
and asks for the element behind the last one. -/
def searchEnd : ConfMessage := .indexOut modCmds.length modCmds.length

/-- Case `sw_command_end`. -/
def cmdEndSays (env : ConfEnv) (l : ConfLocals) : Except ConfHalt ConfLocals :=
  let l := { l with state := .modBlock }
  match l.mod, l.cmdArgs with
  | some m, cmdName :: _ =>
    match confFileGetCommand m cmdName with
    | some cmd => callSetSays env l m cmd cmdName
    | none =>
      match confFileGetGlobalCmd cmdName with
      | none => .error (.said [searchEnd, .commandNotFound (cString cmdName) l.line])
      | some cmd => callSetSays env l m cmd cmdName
  | _, _ => .error (.said [])

/-- Case `sw_mod_block`. -/
def modBlockSays (l : ConfLocals) (c : UInt8) : Except ConfHalt ConfLocals :=
  if c = hash then .ok { l with oldState := .modBlock, state := .comment }
  else if isBlank c then .ok l
  else if isLetter c then { l with state := .command, cmdArgs := [] }.putKey c
  else if c = braceClose then .ok { l with state := .out }
  else .error (.said [.startChar l.line])

/-- The `switch` over the state. -/
def confSwitch (env : ConfEnv) (l : ConfLocals) (c : UInt8) : Except ConfHalt ConfLocals :=
  match l.state with
  | .out =>
    if c = hash then .ok { l with oldState := .out, state := .comment }
    else if isLetter c then { l with state := .modName }.putKey c
    else if isBlank c then .ok l
    else .error (.said [.firstChar l.line])
  | .comment => if c = LF then .ok { l with state := l.oldState } else .ok l
  | .commentEnd => .ok { l with state := l.oldState }
  | .modName =>
    if isLetter c || isDigit c || c == underscore || c == hyphen then l.putKey c
    else if isBlank c then { l with state := .modNameEndBlank }.endKey >>= modNameEndSays env
    else if c = braceOpen then { l with state := .modBlock }.endKey >>= modNameEndSays env
    else if c = hash then
      { l with oldState := .modNameEndBlank, state := .comment }.endKey >>= modNameEndSays env
    else .error (.said [.nameInvalid l.line])
  | .modNameEnd => modNameEndSays env l
  | .modNameEndBlank =>
    if c = braceOpen then .ok { l with state := .modBlock }
    else if isBlank c then modBlockSays l c
    else .error (.said [.nameError l.name l.line])
  | .modBlock => modBlockSays l c
  | .modBlockEnd => .ok { l with state := .out }
  | .command =>
    if isBlank c then { l with state := .commandBlank }.pushArg
    else if c = semicolon then { l with state := .commandEnd }.pushArg >>= cmdEndSays env
    else l.putKey c
  | .commandEnd => cmdEndSays env l
  | .commandBlank =>
    if c = semicolon then cmdEndSays env l
    else if isBlank c then .ok l
    else { l with state := .command }.putKey c

/-- One iteration of the loop: the `switch`, and `line++` behind it for an LF. -/
def confByteSays (env : ConfEnv) (l : ConfLocals) (c : UInt8) : Except ConfHalt ConfLocals :=
  (confSwitch env l c).map
    (fun l => if c = LF then { l with line := (l.line + 1) % 2 ^ 32 } else l)

/-- The end of the file. -/
def confEndSays (l : ConfLocals) : Except ConfHalt Resource :=
  if l.state = .out ∨ l.state = .modBlockEnd then .ok l.res else .error (.said [.notComplete])

/-- The loop over `READ_CONF_FILE`. -/
def confReadSays (env : ConfEnv) : ConfLocals → List FileRead → Except ConfHalt Resource
  | l, [] => confEndSays l
  | _, .failed :: _ => .error (.said [.readError])
  | l, .bytes data :: reads =>
    if data = [] then confEndSays l
    else
      match run (confByteSays env) l data with
      | .error e => .error e
      | .ok l => confReadSays env l reads

/-- The locals at the start; `key` holds any bytes. -/
def localsStart (key : Vector UInt8 256) : ConfLocals :=
  ⟨.out, .out, key, 0, 1, none, [], emptyResource⟩

/-- `conf_file_parser` on a file that could be opened. -/
def confFileParserSays (env : ConfEnv) (key : Vector UInt8 256) (reads : List FileRead) :
    Except ConfHalt Resource :=
  confReadSays env (localsStart key) reads

/-! ## Without the messages -/

/-- What the parser of `ConfFile` keeps of the locals. -/
def ConfLocals.parse (l : ConfLocals) : ConfParse :=
  ⟨l.state, l.oldState, l.key.toList.take l.k, l.mod, l.cmdArgs, l.res⟩

def ConfHalt.stop : ConfHalt → ConfStop
  | .said _ => .error
  | .overflow => .overflow

def forget : Except ConfHalt ConfLocals → Except ConfStop ConfParse
  | .ok l => .ok l.parse
  | .error e => .error e.stop

@[simp] lemma forget_ok (l : ConfLocals) : forget (.ok l) = .ok l.parse := rfl

lemma forget_error (e : ConfHalt) : forget (.error e) = .error e.stop := rfl

lemma length_keyText (l : ConfLocals) : (l.key.toList.take l.k).length < 256 ↔ l.k < 256 := by
  rw [List.length_take, Vector.length_toList]
  omega

/-- A string that ends at `k`. -/
lemma cString_set_nul {s : List UInt8} {k : ℕ} (hk : k < s.length) :
    cString (s.set k NUL) = cString (s.take k) := by
  rw [List.set_eq_take_append_cons_drop, if_pos hk]
  induction s.take k with
  | nil => rfl
  | cons a w ih =>
    by_cases ha : a = NUL
    · simp [cString, ha]
    · simpa [cString, ha] using ih

lemma forget_putKey (l : ConfLocals) (c : UInt8) : forget (l.putKey c) = l.parse.putKey c := by
  unfold ConfLocals.putKey ConfParse.putKey
  by_cases hk : l.k < 256
  · have hlen : l.parse.key.length < 256 := (length_keyText l).mpr hk
    have hset : (l.key.toList.set l.k c).take (l.k + 1) = l.key.toList.take l.k ++ [c] := by
      rw [List.set_eq_take_append_cons_drop, if_pos (by simpa using hk), List.take_append]
      have htake : (l.key.toList.take l.k).length = l.k := by simp; omega
      rw [htake, List.take_of_length_le (by omega)]
      simp
    rw [dif_pos hk, if_pos hlen, forget_ok]
    simp only [ConfLocals.parse, Vector.toList_set, hset]
  · have hlen : ¬ l.parse.key.length < 256 := fun h => hk ((length_keyText l).mp h)
    rw [dif_neg hk, if_neg hlen]
    rfl

/-- The NUL is stored behind what counts. -/
lemma forget_endKey (l : ConfLocals) : forget l.endKey = l.parse.endKey := by
  unfold ConfLocals.endKey ConfParse.endKey
  by_cases hk : l.k < 256
  · have hlen : l.parse.key.length < 256 := (length_keyText l).mpr hk
    rw [dif_pos hk, if_pos hlen, forget_ok]
    simp only [ConfLocals.parse, Vector.toList_set, List.take_set_of_le (Nat.le_refl _)]
  · have hlen : ¬ l.parse.key.length < 256 := fun h => hk ((length_keyText l).mp h)
    rw [dif_neg hk, if_neg hlen]
    rfl

lemma forget_pushArg (l : ConfLocals) : forget l.pushArg = l.parse.pushArg := by
  have hend := forget_endKey l
  unfold ConfLocals.pushArg ConfParse.pushArg
  rw [← hend]
  cases l.endKey with
  | error e => rfl
  | ok l' =>
    simp only [Except.map, forget_ok]
    rfl

/-- Behind its NUL the module's name is what `key` holds. -/
lemma forget_nameEnd (env : ConfEnv) (l : ConfLocals) :
    forget (l.endKey >>= modNameEndSays env) = l.parse.endKey >>= modNameEnd env := by
  unfold ConfLocals.endKey ConfParse.endKey
  by_cases hk : l.k < 256
  · have hlen : l.parse.key.length < 256 := (length_keyText l).mpr hk
    have hmod : confFileGetSysMod (l.key.set l.k NUL).toList =
        confFileGetSysMod (l.key.toList.take l.k) := by
      unfold confFileGetSysMod strcmpEq
      rw [Vector.toList_set, cString_set_nul (by simpa using hk)]
    rw [dif_pos hk, if_pos hlen]
    simp only [bind, Except.bind, modNameEndSays, modNameEnd, hmod]
    simp only [ConfLocals.parse]
    cases confFileGetSysMod (l.key.toList.take l.k) with
    | none => rfl
    | some m => rfl
  · have hlen : ¬ l.parse.key.length < 256 := fun h => hk ((length_keyText l).mp h)
    rw [dif_neg hk, if_neg hlen]
    rfl

lemma forget_callSet (env : ConfEnv) (l : ConfLocals) (m : Mod) (cmd : Command)
    (cmdName : List UInt8) :
    forget (callSetSays env l m cmd cmdName) = callSet env l.parse m cmd := by
  unfold callSetSays callSet
  simp only [ConfLocals.parse]
  cases cmd.set env m l.cmdArgs l.res with
  | none => rfl
  | some res => rfl

lemma forget_cmdEnd (env : ConfEnv) (l : ConfLocals) :
    forget (cmdEndSays env l) = cmdEnd env l.parse := by
  obtain ⟨x, o, key, k, line, m, as, res⟩ := l
  unfold cmdEndSays cmdEnd
  simp only [ConfLocals.parse]
  cases m with
  | none => rfl
  | some m =>
    cases as with
    | nil => rfl
    | cons cmdName args =>
      simp only
      cases confFileGetCommand m cmdName with
      | some cmd => exact forget_callSet env _ m cmd cmdName
      | none =>
        cases confFileGetGlobalCmd cmdName with
        | some cmd => exact forget_callSet env _ m cmd cmdName
        | none => rfl

lemma forget_modBlock (l : ConfLocals) (c : UInt8) :
    forget (modBlockSays l c) = modBlock l.parse c := by
  unfold modBlockSays modBlock
  split_ifs
  · rfl
  · rfl
  · exact forget_putKey _ c
  · rfl
  · rfl

/-- **The `switch` does what the parser of `ConfFile` does.** In the state `sw_mod_name_end`,
which is never entered, `key` would not be ended. -/
lemma forget_confSwitch (env : ConfEnv) {l : ConfLocals} (c : UInt8) (h : l.state ≠ .modNameEnd) :
    forget (confSwitch env l c) = confByte env l.parse c := by
  obtain ⟨x, o, key, k, line, m, as, res⟩ := l
  unfold confSwitch confByte
  cases x with
  | modNameEnd => exact absurd rfl h
  | out =>
    simp only [ConfLocals.parse]
    split_ifs
    · rfl
    · exact forget_putKey _ c
    · rfl
    · rfl
  | comment =>
    simp only [ConfLocals.parse]
    split_ifs
    · rfl
    · rfl
  | commentEnd => rfl
  | modName =>
    simp only [ConfLocals.parse]
    split_ifs
    · exact forget_putKey _ c
    · exact forget_nameEnd env _
    · exact forget_nameEnd env _
    · exact forget_nameEnd env _
    · rfl
  | modNameEndBlank =>
    simp only [ConfLocals.parse]
    split_ifs
    · rfl
    · exact forget_modBlock _ c
    · rfl
  | modBlock => exact forget_modBlock _ c
  | modBlockEnd => rfl
  | command =>
    simp only [ConfLocals.parse]
    split_ifs
    · exact forget_pushArg _
    · have hpush := forget_pushArg ⟨.commandEnd, o, key, k, line, m, as, res⟩
      simp only [ConfLocals.parse] at hpush
      rw [← hpush]
      cases ConfLocals.pushArg ⟨.commandEnd, o, key, k, line, m, as, res⟩ with
      | error e => rfl
      | ok l' => exact forget_cmdEnd env l'
    · exact forget_putKey _ c
  | commandEnd => exact forget_cmdEnd env _
  | commandBlank =>
    simp only [ConfLocals.parse]
    split_ifs
    · exact forget_cmdEnd env _
    · rfl
    · exact forget_putKey _ c

lemma forget_confByte (env : ConfEnv) {l : ConfLocals} (c : UInt8) (h : l.state ≠ .modNameEnd) :
    forget (confByteSays env l c) = confByte env l.parse c := by
  rw [← forget_confSwitch env c h]
  unfold confByteSays
  cases confSwitch env l c with
  | error e => rfl
  | ok l' =>
    simp only [Except.map, forget_ok]
    split_ifs
    · rfl
    · rfl

lemma ReadTo.state_ne {env : ConfEnv} {s : List UInt8} {p : ConfParse} (h : ReadTo env s p) :
    p.state ≠ .modNameEnd ∧ p.state ≠ .commentEnd ∧ p.state ≠ .modBlockEnd := by
  cases h with
  | _ => simp

/-- **The runs agree.** -/
lemma forget_run (env : ConfEnv) (key : Vector UInt8 256) (s : List UInt8) :
    forget (run (confByteSays env) (localsStart key) s) = run (confByte env) confStart s := by
  induction s using List.reverseRecOn with
  | nil => simp [localsStart, confStart, ConfLocals.parse]
  | append_singleton s c ih =>
    rw [run_append, run_append, ← ih]
    cases hrun : run (confByteSays env) (localsStart key) s with
    | error e => rfl
    | ok l =>
      rw [hrun, forget_ok] at ih
      have hbyte := forget_confByte env c (readTo_run ih.symm).state_ne.1
      simp only [forget_ok, run, ← hbyte]
      cases confByteSays env l c with
      | error e => rfl
      | ok l' => rfl

end Xpipe
