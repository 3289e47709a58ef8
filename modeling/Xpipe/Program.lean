import Xpipe.ConfSettings
import Xpipe.MainLoop
import Xpipe.NetworkInit
import Xpipe.PidFile

/-!
# The program

`main` of `xpipe.c` from the text of the configuration to its working loop:
`conf_file_parser`, the preparation of the modules, `system_modules_init`, `process_daemon`
and `system_modules_working`. What a process serves follows from the text it was started
with.
-/
namespace Xpipe
open Linked Runs

/-- The outcomes of the calls of `main`. -/
structure MainOutcomes where
  start : StartOutcomes
  sigaction : Bool
  init : InitOutcomes
  daemon : DaemonOutcomes

/-- How `main` ends before its loop, or the process that works. -/
inductive MainEnd
  | failed
  | exited
  | crashed
  | working (p : Process)

/-- `init_main_mod`, which is `setup_signals`. -/
def initMainMod (o : MainOutcomes) : ModInit Unit := if o.sigaction then .ok () else .error

/-- `system_modules_init`. -/
def systemModulesInit (o : MainOutcomes) (mods : Resource) (garbage : ℕ → Conn) : ModInit Net :=
  match initMainMod o with
  | .error => .error
  | .crash => .crash
  | .ok () => (initNetworkModWith o.init mods.netConf garbage).result

/-- `main`; `pids` is what the file of the process id holds. -/
def xpipeMain (env : ConfEnv) (file : Option (List FileRead)) (o : MainOutcomes)
    (garbage : ℕ → Conn) (pids : List UInt8) : MainEnd :=
  match startUp env file o.start with
  | none => .failed
  | some resource =>
    match systemModulesInit o resource.mods garbage with
    | .error => .failed
    | .crash => .crashed
    | .ok s =>
      match resource.mods.mainConf with
      | none => .crashed -- `cf->daemon`
      | some cf =>
        match (processDaemon cf.daemon o.daemon pids).1 with
        | .ok => .working (working s)
        | .error => .failed
        | .exited => .exited

/-! ## To the loop -/

/-- Start-up leaves the configurations as the parser has set them. -/
lemma startUp_confs {env : ConfEnv} {file : Option (List FileRead)} {o : StartOutcomes}
    {s : XpipeResource} (h : startUp env file o = some s) :
    ∃ res, confFileParser env file = .ok res ∧ s.mods.mainConf = res.mainConf ∧
      s.mods.netConf = res.netConf := by
  unfold startUp at h
  cases hparse : confFileParser env file with
  | error e =>
    rw [hparse] at h
    cases h
  | ok res =>
    rw [hparse] at h
    obtain ⟨s₁, hcreate, hprepare⟩ := Option.bind_eq_some_iff.mp h
    obtain ⟨hmain, hnet, -, -⟩ := sysModulesPrepare_eq hprepare
    have hmods : s₁.mods = res := by
      unfold createDefaultLogger at hcreate
      split at hcreate
      · cases hcreate
        rfl
      · split_ifs at hcreate
        cases hcreate
        rfl
    rw [hmods] at hmain hnet
    exact ⟨res, rfl, hmain, hnet⟩

/-- What has happened when `main` gets to its loop. -/
lemma xpipeMain_working {env : ConfEnv} {file : Option (List FileRead)} {o : MainOutcomes}
    {garbage : ℕ → Conn} {pids : List UInt8} {p : Process}
    (h : xpipeMain env file o garbage pids = .working p) :
    ∃ res cf cf' epollFd sockFd, confFileParser env file = .ok res ∧ res.netConf = some cf ∧
      res.mainConf = some cf' ∧ 2 ≤ cf.conns ∧ o.init.Succeeds epollFd sockFd ∧
      (processDaemon cf'.daemon o.daemon pids).1 = .ok ∧
      p = working (listening cf sockFd garbage) := by
  unfold xpipeMain at h
  cases hstart : startUp env file o.start with
  | none =>
    rw [hstart] at h
    cases h
  | some resource =>
    obtain ⟨res, hparse, hmain, hnet⟩ := startUp_confs hstart
    simp only [hstart, hmain] at h
    cases hinit : systemModulesInit o resource.mods garbage with
    | error =>
      rw [hinit] at h
      cases h
    | crash =>
      rw [hinit] at h
      cases h
    | ok s =>
      simp only [hinit] at h
      have hresult : (initNetworkModWith o.init res.netConf garbage).result = .ok s := by
        unfold systemModulesInit initMainMod at hinit
        rw [hnet] at hinit
        cases hsig : o.sigaction with
        | false => simp [hsig] at hinit
        | true => simpa [hsig] using hinit
      cases hmainConf : res.mainConf with
      | none =>
        rw [hmainConf] at h
        cases h
      | some cf' =>
        simp only [hmainConf] at h
        obtain ⟨cf, epollFd, sockFd, hcf, hconns, hall, -, rfl⟩ := initNetworkModWith_ok hresult
        cases hdaemon : (processDaemon cf'.daemon o.daemon pids).1 with
        | ok =>
          rw [hdaemon] at h
          cases h
          exact ⟨res, cf, cf', epollFd, sockFd, hparse, hcf, hmainConf, hconns, hall, hdaemon, rfl⟩
        | error =>
          rw [hdaemon] at h
          cases h
        | exited =>
          rw [hdaemon] at h
          cases h

/-! ## In the loop -/

/-- What the server keeps to in every state of the process. -/
structure Steady (n : ℕ) (s : Net) : Prop where
  conserved : Conserved s
  listening : Listening s
  count : s.count = n
  clients : s.kernel.clients.card < n

/-- **What a process serves.** When `main`, started with a text, gets to its loop, the text
has a block of `net` and a block of `main`, the last block of `net` asks for at least two
connections, and every call of the initialisation has succeeded. From then on, for up to
`2 ^ 31` connections, in every state of every run, with signals at any time and whatever
fails, the server has the connections that the last `connections` command of the last block
of `net` says, conserves them, listens, and serves fewer clients than connections. -/
theorem main_serves (env : ConfEnv) (text : List UInt8) (reads : List (List UInt8))
    (hreads : Splits text reads) (o : MainOutcomes) (garbage : ℕ → Conn) (pids : List UInt8)
    (p : Process)
    (hmain : xpipeMain env (some (reads.map FileRead.bytes)) o garbage pids = .working p) :
    ∃ bs net main epollFd sockFd, ConfText text bs ∧ lastBlock .net bs = some net ∧
      lastBlock .main bs = some main ∧ o.init.Succeeds epollFd sockFd ∧
      (processDaemon (mainSettings env main.commands).daemon o.daemon pids).1 = .ok ∧
      2 ≤ numberSet .connections net.commands ∧
      (numberSet .connections net.commands ≤ 2 ^ 31 →
        ∀ xs, Along processStep BatchesValid p xs →
          Steady (numberSet .connections net.commands) (xs.foldl processStep p).net) := by
  obtain ⟨res, cf, cf', epollFd, sockFd, hparse, hcf, hcf', hconns, hall, hdaemon, rfl⟩ :=
    xpipeMain_working hmain
  obtain ⟨bs, htext, -, hperform⟩ := confFileParser_sound hreads hparse
  have hset := perform_settings hperform
  rw [hset.net] at hcf
  rw [hset.main] at hcf'
  obtain ⟨net, hnet, rfl⟩ := Option.map_eq_some_iff.mp hcf
  obtain ⟨main, hmain, rfl⟩ := Option.map_eq_some_iff.mp hcf'
  refine ⟨bs, net, main, epollFd, sockFd, htext, hnet, hmain, hall, hdaemon, hconns, ?_⟩
  intro hint xs hvalid
  have hone : 1 ≤ (netSettings net.commands).conns := Nat.le_of_succ_le hconns
  rw [listening_eq hone hint sockFd garbage] at hvalid ⊢
  have hend := foldl_admitting hone (along_serverInputs hvalid)
  rw [foldl_processStep_net]
  exact ⟨hend.resting.wired.conserved, hend.listening, hend.count, hend.card_lt⟩

/-- `main{}net{connections 2;}`. -/
def twoConnectionsText : List UInt8 :=
  [109, 97, 105, 110, 123, 125, 110, 101, 116, 123, 99, 111, 110, 110, 101, 99, 116, 105, 111, 110, 115, 32, 50, 59, 125]

/-- The outcomes of a start in which no call fails: epoll is 4, the listening socket 3. -/
def startSucceeds : MainOutcomes where
  start := ⟨true, true, true, fun _ => true⟩
  sigaction := true
  init := ⟨true, true, some 4, true, true, some 3, true, true, true, true, true, true⟩
  daemon := ⟨.parent, true, none⟩

/-- The process accepts a client, and SIGTERM has come before. -/
theorem main_serves_two :
    xpipeMain ⟨[47], fun _ => true⟩ (some [.bytes twoConnectionsText]) startSucceeds
        (fun _ => newConn 0 0) [] = .working (working twoConnections) ∧
      (∃ net, 2 ≤ numberSet .connections net ∧ (numberSet .connections net ≤ 2 ^ 31 →
        Steady (numberSet .connections net)
          (stoppedWaiting.foldl processStep (working twoConnections)).net)) ∧
      (stoppedWaiting.foldl processStep (working twoConnections)).net.kernel.clients = {5} := by
  have hstart : xpipeMain ⟨[47], fun _ => true⟩ (some [.bytes twoConnectionsText]) startSucceeds
      (fun _ => newConn 0 0) [] = .working (working twoConnections) := rfl
  obtain ⟨bs, net, main, -, -, -, -, -, -, -, hconns, hserves⟩ :=
    main_serves ⟨[47], fun _ => true⟩ twoConnectionsText [twoConnectionsText] ⟨rfl, by decide⟩
      startSucceeds (fun _ => newConn 0 0) [] _ hstart
  exact ⟨hstart, ⟨net.commands, hconns, fun hint =>
    hserves hint stoppedWaiting stoppedWaiting_valid⟩, by decide⟩

end Xpipe
