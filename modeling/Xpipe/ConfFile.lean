import Xpipe.Bytes
import Xpipe.Machines

/-!
# The configuration file

`conf_file_parser` of `conf_file.c`, with the modules and commands it can call:
`xpipe.c` has those of `main`, `network.c` those of `net`. The parser is a machine
over bytes; `FileRead` is what `read` gives it. The outcomes of opening files and
the directory chosen by `configure` are parameters. Allocations succeed, and what
is only written to the log is left out.
-/
namespace Xpipe
open Machines

/-- The bytes `#`, `{`, `}`, `;`, `_`, `-` and `/`. -/
def hash : UInt8 := 35
def braceOpen : UInt8 := 123
def braceClose : UInt8 := 125
def semicolon : UInt8 := 59
def underscore : UInt8 := 95
def hyphen : UInt8 := 45
def slash : UInt8 := 47

/-- The conversion of an `int` to `uint_t`. -/
def toUint (v : ℤ) : ℕ := (v % 2 ^ 32).toNat

/-- What the parser takes from its surroundings. -/
structure ConfEnv where
  /-- `xpipe_install_dir_path` -/
  installDir : List UInt8
  /-- Whether `open` succeeds for a log file of that name. -/
  opens : List UInt8 → Bool

/-! ## Modules and commands -/

/-- The entries of `sys_modules`. -/
inductive Mod
  | main | net
  deriving DecidableEq, Repr

/-- The commands, each with its function `set`. -/
inductive Command
  | daemon | pid | log | listen | connections | nodelay | requestBufferSize
  deriving DecidableEq, Repr

/-- `"main"` and `"net"`. -/
def Mod.name : Mod → List UInt8
  | .main => [109, 97, 105, 110]
  | .net => [110, 101, 116]

def sysModules : List Mod := [.main, .net]

/-- `"daemon"`, `"pid"`, `"log"`, `"listen"`, `"connections"`, `"nodelay"` and
`"request_buffer_size"`. -/
def Command.name : Command → List UInt8
  | .daemon => [100, 97, 101, 109, 111, 110]
  | .pid => [112, 105, 100]
  | .log => [108, 111, 103]
  | .listen => [108, 105, 115, 116, 101, 110]
  | .connections => [99, 111, 110, 110, 101, 99, 116, 105, 111, 110, 115]
  | .nodelay => [110, 111, 100, 101, 108, 97, 121]
  | .requestBufferSize =>
    [114, 101, 113, 117, 101, 115, 116, 95, 98, 117, 102, 102, 101, 114, 95, 115, 105, 122, 101]

/-- The field `mod`: the command is a global one, whose `set` is given the module. -/
def Command.isGlobal : Command → Bool
  | .log => true
  | _ => false

/-- The array `commands` of a module. -/
def Mod.commands : Mod → List Command
  | .main => [.daemon, .pid, .log]
  | .net => [.listen, .connections, .nodelay, .requestBufferSize]

/-- `xpipe_main_mod_conf_t`, with the name of the pid file. -/
structure MainConf where
  daemon : Bool
  pidFile : List UInt8
  deriving DecidableEq, Repr

/-- `xpipe_net_mod_conf_t`. -/
structure NetConf where
  port : ℕ
  conns : ℕ
  nodelay : Bool
  requestBufferSize : ℕ
  deriving DecidableEq, Repr

inductive LogLevel
  | error | warn | info | debug | stdout
  deriving DecidableEq, Repr

structure Logger where
  level : LogLevel
  file : List UInt8
  deriving DecidableEq, Repr

/-- The calls that the parser makes: `create_conf` of a module, and `set` of a
command in a block of a module, with its words. -/
inductive Call
  | createConf (m : Mod)
  | set (m : Mod) (cmd : Command) (args : List (List UInt8))
  deriving DecidableEq, Repr

/-- What the parser leaves behind: the field `mod_conf` of each module, NULL
before its block, the field `logger` of each module, and the number of blocks.
`calls` is a ghost: all calls so far. -/
structure Resource where
  mainConf : Option MainConf
  netConf : Option NetConf
  logger : Mod → Option Logger
  blocks : ℕ
  calls : List Call

/-- `"/log/xpipe.pid"`. -/
def pidPath : List UInt8 := [47, 108, 111, 103, 47, 120, 112, 105, 112, 101, 46, 112, 105, 100]

/-- `create_main_loc_conf`. -/
def createMainLocConf (env : ConfEnv) : MainConf := ⟨false, env.installDir ++ pidPath⟩

/-- `create_net_mod_conf`. -/
def createNetModConf : NetConf := ⟨0, 0, false, 0⟩

/-- `mod->mod_conf = mod->create_conf(conf->pool)`, with the count of blocks. -/
def createConf (env : ConfEnv) (m : Mod) (res : Resource) : Resource :=
  let res := { res with blocks := res.blocks + 1, calls := res.calls ++ [Call.createConf m] }
  match m with
  | .main => { res with mainConf := some (createMainLocConf env) }
  | .net => { res with netConf := some createNetModConf }

/-- `is_positive_integer`. -/
def isPositiveInteger : List UInt8 → Bool
  | [] => false
  | c :: cs => isDigit c && c != 48 && cs.all isDigit

/-- `make_full_file_name`, and the length taken of its result; a name that starts
with `/` stays as it is. -/
def fullFileName (env : ConfEnv) (arg : List UInt8) : List UInt8 :=
  if arg.head? = some slash then arg
  else
    let sep := if env.installDir.getLast? = some slash then [] else [slash]
    cString (env.installDir ++ sep ++ arg)

/-- The number that `listen`, `connections` and `request_buffer_size` take. -/
def numberArg : List (List UInt8) → Option ℕ
  | [_, arg] => if isPositiveInteger arg then some (toUint (atoi arg)) else none
  | _ => none

/-- `"off"`. -/
def offText : List UInt8 := [111, 102, 102]

/-- `cmd_daemon_set`. -/
def cmdDaemonSet (args : List (List UInt8)) (cf : MainConf) : Option MainConf :=
  match args with
  | [_, arg] => some { cf with daemon := cString arg != offText }
  | _ => none

/-- `cmd_pid_set`. -/
def cmdPidSet (env : ConfEnv) (args : List (List UInt8)) (cf : MainConf) : Option MainConf :=
  match args with
  | [_, arg] => some { cf with pidFile := fullFileName env arg }
  | _ => none

/-- `cmd_listen_set`. -/
def cmdListenSet (args : List (List UInt8)) (cf : NetConf) : Option NetConf :=
  (numberArg args).map (fun n => { cf with port := n })

/-- `cmd_connecions_set`. -/
def cmdConnecionsSet (args : List (List UInt8)) (cf : NetConf) : Option NetConf :=
  (numberArg args).map (fun n => { cf with conns := n })

/-- `cmd_request_buffer_size_set`. -/
def cmdRequestBufferSizeSet (args : List (List UInt8)) (cf : NetConf) : Option NetConf :=
  (numberArg args).map (fun n => { cf with requestBufferSize := n })

/-- `cmd_nodelay_set`. -/
def cmdNodelaySet (args : List (List UInt8)) (cf : NetConf) : Option NetConf :=
  match args with
  | [_] => some { cf with nodelay := true }
  | _ => none

/-- The level words: `error`, `warn`, `info`, `debug` and `stdout`. -/
def logLevelOf (s : List UInt8) : Option LogLevel :=
  if s = [101, 114, 114, 111, 114] then some .error
  else if s = [119, 97, 114, 110] then some .warn
  else if s = [105, 110, 102, 111] then some .info
  else if s = [100, 101, 98, 117, 103] then some .debug
  else if s = [115, 116, 100, 111, 117, 116] then some .stdout
  else none

/-- `cmd_log_set`: the file is opened before the level is looked at. -/
def cmdLogSet (env : ConfEnv) (args : List (List UInt8)) : Option Logger :=
  match args with
  | [_, arg, level] =>
    let name := fullFileName env arg
    if env.opens (cString name) then (logLevelOf (cString level)).map (fun l => ⟨l, name⟩)
    else none
  | _ => none

/-- `cmd->set(cmd_args, ...)` in a block of `m`. -/
def Command.set (env : ConfEnv) (m : Mod) (cmd : Command) (args : List (List UInt8))
    (res : Resource) : Option Resource :=
  let res := { res with calls := res.calls ++ [Call.set m cmd args] }
  let setMain (f : MainConf → Option MainConf) : Option Resource :=
    (res.mainConf.bind f).map (fun cf => { res with mainConf := some cf })
  let setNet (f : NetConf → Option NetConf) : Option Resource :=
    (res.netConf.bind f).map (fun cf => { res with netConf := some cf })
  match cmd with
  | .daemon => setMain (cmdDaemonSet args)
  | .pid => setMain (cmdPidSet env args)
  | .log => (cmdLogSet env args).map (fun l => { res with logger := Function.update res.logger m l })
  | .listen => setNet (cmdListenSet args)
  | .connections => setNet (cmdConnecionsSet args)
  | .nodelay => setNet (cmdNodelaySet args)
  | .requestBufferSize => setNet (cmdRequestBufferSizeSet args)

/-! ## Looking up names -/

/-- `x_strcmp(s, t) == 0`. -/
def strcmpEq (s t : List UInt8) : Bool := cString s == cString t

/-- `conf_file_get_sys_mod`. -/
def confFileGetSysMod (name : List UInt8) : Option Mod :=
  sysModules.find? (fun m => strcmpEq name m.name)

/-- The loop of `conf_file_get_command`, which ends at the first global command. -/
def localCommand (name : List UInt8) : List Command → Option Command
  | [] => none
  | c :: cs =>
    if c.isGlobal then none
    else if name.length = c.name.length ∧ strcmpEq name c.name = true then some c
    else localCommand name cs

/-- `conf_file_get_command`. -/
def confFileGetCommand (m : Mod) (name : List UInt8) : Option Command :=
  localCommand name m.commands

/-- `mod_cmds`, as `conf_file_init` builds it. -/
def modCmds : List Command := Mod.main.commands.filter Command.isGlobal

/-- `conf_file_get_global_cmd`. -/
def confFileGetGlobalCmd (name : List UInt8) : Option Command :=
  modCmds.find? (fun c => c.name.length == name.length && strcmpEq name c.name)

/-! ## The parser -/

/-- The states `sw_out` to `sw_command_end`. -/
inductive ConfSw
  | out | comment | commentEnd | modName | modNameEnd | modNameEndBlank
  | modBlock | modBlockEnd | command | commandBlank | commandEnd
  deriving DecidableEq, Repr

/-- How the parser stops before the end: with CONF_ERROR, or by a store behind the
256 bytes of `key`. -/
inductive ConfStop
  | error | overflow
  deriving DecidableEq, Repr

/-- The locals of the parser, with `key[0 .. k)` as `key`, and what it has built. -/
structure ConfParse where
  state : ConfSw
  oldState : ConfSw
  key : List UInt8
  mod : Option Mod
  cmdArgs : List (List UInt8)
  res : Resource

/-- `key[k++] = ch`. -/
def ConfParse.putKey (p : ConfParse) (c : UInt8) : Except ConfStop ConfParse :=
  if p.key.length < 256 then .ok { p with key := p.key ++ [c] } else .error .overflow

/-- `key[k] = '\0'`. -/
def ConfParse.endKey (p : ConfParse) : Except ConfStop ConfParse :=
  if p.key.length < 256 then .ok p else .error .overflow

/-- The word in `key` becomes an element of `cmd_args`. -/
def ConfParse.pushArg (p : ConfParse) : Except ConfStop ConfParse :=
  p.endKey.map (fun p => { p with cmdArgs := p.cmdArgs ++ [p.key], key := [] })

/-- Case `sw_mod_name_end`. -/
def modNameEnd (env : ConfEnv) (p : ConfParse) : Except ConfStop ConfParse :=
  match confFileGetSysMod p.key with
  | none => .error .error
  | some m => .ok { p with mod := some m, res := createConf env m p.res, key := [] }

/-- The call of `set` for a command that was found. -/
def callSet (env : ConfEnv) (p : ConfParse) (m : Mod) (cmd : Command) :
    Except ConfStop ConfParse :=
  match cmd.set env m p.cmdArgs p.res with
  | none => .error .error
  | some res => .ok { p with res := res }

/-- Case `sw_command_end`. There is a module and a first word whenever it is reached. -/
def cmdEnd (env : ConfEnv) (p : ConfParse) : Except ConfStop ConfParse :=
  let p := { p with state := .modBlock }
  match p.mod, p.cmdArgs with
  | some m, cmdName :: _ =>
    match confFileGetCommand m cmdName with
    | some cmd => callSet env p m cmd
    | none =>
      match confFileGetGlobalCmd cmdName with
      | none => .error .error
      | some cmd => callSet env p m cmd
  | _, _ => .error .error

/-- Case `sw_mod_block`, into which `sw_mod_name_end_blank` falls. -/
def modBlock (p : ConfParse) (c : UInt8) : Except ConfStop ConfParse :=
  if c = hash then .ok { p with oldState := .modBlock, state := .comment }
  else if isBlank c then .ok p
  else if isLetter c then { p with state := .command, cmdArgs := [] }.putKey c
  else if c = braceClose then .ok { p with state := .out }
  else .error .error

/-- One iteration of the loop: the byte `c`. -/
def confByte (env : ConfEnv) (p : ConfParse) (c : UInt8) : Except ConfStop ConfParse :=
  match p.state with
  | .out =>
    if c = hash then .ok { p with oldState := .out, state := .comment }
    else if isLetter c then { p with state := .modName }.putKey c
    else if isBlank c then .ok p
    else .error .error
  | .comment => if c = LF then .ok { p with state := p.oldState } else .ok p
  | .commentEnd => .ok { p with state := p.oldState }
  | .modName =>
    if isLetter c || isDigit c || c == underscore || c == hyphen then p.putKey c
    else if isBlank c then { p with state := .modNameEndBlank }.endKey >>= modNameEnd env
    else if c = braceOpen then { p with state := .modBlock }.endKey >>= modNameEnd env
    else if c = hash then
      { p with oldState := .modNameEndBlank, state := .comment }.endKey >>= modNameEnd env
    else .error .error
  | .modNameEnd => modNameEnd env p
  | .modNameEndBlank =>
    if c = braceOpen then .ok { p with state := .modBlock }
    else if isBlank c then modBlock p c
    else .error .error
  | .modBlock => modBlock p c
  | .modBlockEnd => .ok { p with state := .out }
  | .command =>
    if isBlank c then { p with state := .commandBlank }.pushArg
    else if c = semicolon then { p with state := .commandEnd }.pushArg >>= cmdEnd env
    else p.putKey c
  | .commandEnd => cmdEnd env p
  | .commandBlank =>
    if c = semicolon then cmdEnd env p
    else if isBlank c then .ok p
    else { p with state := .command }.putKey c

/-- What `file_read` gives: some bytes, none at the end of the file, or an error. -/
inductive FileRead
  | bytes (data : List UInt8)
  | failed
  deriving DecidableEq, Repr

/-- The end of the file. -/
def confEnd (p : ConfParse) : Except ConfStop Resource :=
  if p.state = .out ∨ p.state = .modBlockEnd then .ok p.res else .error .error

/-- The loop over `READ_CONF_FILE`; a list of reads that runs out is the end of
the file. -/
def confRead (env : ConfEnv) : ConfParse → List FileRead → Except ConfStop Resource
  | p, [] => confEnd p
  | _, .failed :: _ => .error .error
  | p, .bytes data :: reads =>
    if data = [] then confEnd p
    else
      match run (confByte env) p data with
      | .error e => .error e
      | .ok p => confRead env p reads

/-- The modules before any configuration is read. -/
def emptyResource : Resource := ⟨none, none, fun _ => none, 0, []⟩

/-- The locals at the start. -/
def confStart : ConfParse := ⟨.out, .out, [], none, [], emptyResource⟩

/-- `conf_file_parser`; `file` is none when the file cannot be opened. -/
def confFileParser (env : ConfEnv) (file : Option (List FileRead)) : Except ConfStop Resource :=
  match file with
  | none => .error .error
  | some reads => confRead env confStart reads

end Xpipe
