import Xpipe.StartUp

/-!
# The settings of a configuration

A block of a module starts from the module's defaults, also when the module has had a
block before, so only its last block counts; in a block the last command of a name
counts. The logger of a module is kept by the module itself and stays when a new block
begins. `settings_of_text` says what an accepted text sets, without a run over it.
-/
namespace Xpipe
open Runs

/-! ## What the last commands set -/

/-- The last block of a module. -/
def lastBlock (m : Mod) (bs : List ConfBlock) : Option ConfBlock :=
  bs.reverse.find? (fun b => b.name == m.name)

/-- The last command of that name. -/
def lastCommand (cmd : Command) (cs : List (List (List UInt8))) : Option (List (List UInt8)) :=
  cs.reverse.find? (fun ws => ws.head? == some cmd.name)

/-- Its argument. -/
def argument (cmd : Command) (cs : List (List (List UInt8))) : Option (List UInt8) :=
  (lastCommand cmd cs).bind (fun ws => ws[1]?)

/-- The number that the last command of that name gives, zero without one. -/
def numberSet (cmd : Command) (cs : List (List (List UInt8))) : ℕ :=
  (argument cmd cs).elim 0 (fun arg => toUint (atoi arg))

/-- The configuration of `net` after the commands of a block. -/
def netSettings (cs : List (List (List UInt8))) : NetConf where
  port := numberSet .listen cs
  conns := numberSet .connections cs
  nodelay := (lastCommand .nodelay cs).isSome
  requestBufferSize := numberSet .requestBufferSize cs

/-- The configuration of `main` after the commands of a block. -/
def mainSettings (env : ConfEnv) (cs : List (List (List UInt8))) : MainConf where
  daemon := (argument .daemon cs).elim false (fun arg => cString arg != offText)
  pidFile := (argument .pid cs).elim (env.installDir ++ pidPath) (fullFileName env)

/-- The logger that the last `log` command makes. -/
def logSettings (env : ConfEnv) (cs : List (List (List UInt8))) : Option Logger :=
  (lastCommand .log cs).bind (cmdLogSet env)

/-- The commands of all blocks of a module. -/
def commandsOf (m : Mod) (bs : List ConfBlock) : List (List (List UInt8)) :=
  (bs.filter (fun b => b.name == m.name)).flatMap ConfBlock.commands

/-! ## One command -/

lemma Command.name_injective {c c' : Command} (h : c.name = c'.name) : c = c' := by
  revert h
  cases c <;> cases c' <;> decide

lemma lastCommand_snoc {c : Command} {ws : List (List UInt8)} (h : ws.head? = some c.name)
    (cmd : Command) (cs : List (List (List UInt8))) :
    lastCommand cmd (cs ++ [ws]) = if c = cmd then some ws else lastCommand cmd cs := by
  unfold lastCommand
  rw [List.reverse_append, List.reverse_singleton, List.singleton_append, List.find?_cons, h]
  by_cases hc : c = cmd
  · simp [hc]
  · have hne : (c.name == cmd.name) = false :=
      beq_eq_false_iff_ne.mpr (fun hname => hc (Command.name_injective hname))
    simp [hc, hne]

/-- What a command does to the configuration of `net`. -/
def Command.onNet (cmd : Command) (ws : List (List UInt8)) (cf : NetConf) : Option NetConf :=
  match cmd with
  | .listen => cmdListenSet ws cf
  | .connections => cmdConnecionsSet ws cf
  | .nodelay => cmdNodelaySet ws cf
  | .requestBufferSize => cmdRequestBufferSizeSet ws cf
  | _ => some cf

/-- What a command does to the configuration of `main`. -/
def Command.onMain (env : ConfEnv) (cmd : Command) (ws : List (List UInt8)) (cf : MainConf) :
    Option MainConf :=
  match cmd with
  | .daemon => cmdDaemonSet ws cf
  | .pid => cmdPidSet env ws cf
  | _ => some cf

/-- What a command does to the logger of its module. -/
def Command.onLogger (env : ConfEnv) (cmd : Command) (ws : List (List UInt8))
    (l : Option Logger) : Option Logger :=
  match cmd with
  | .log => cmdLogSet env ws
  | _ => l

/-- **All that a command sets.** -/
lemma set_parts {env : ConfEnv} {m : Mod} {cmd : Command} {ws : List (List UInt8)}
    {res res' : Resource} (h : cmd.set env m ws res = some res') :
    res'.netConf = res.netConf.bind (cmd.onNet ws) ∧
      res'.mainConf = res.mainConf.bind (cmd.onMain env ws) ∧
      ∀ m', res'.logger m' = if m' = m then cmd.onLogger env ws (res.logger m) else res.logger m' := by
  have hloggers (l : Mod → Option Logger) (m' : Mod) :
      l m' = if m' = m then l m else l m' := by
    split_ifs with hm
    · rw [hm]
    · rfl
  unfold Command.set at h
  cases cmd
  all_goals
    simp only [Option.map_eq_some_iff] at h
    obtain ⟨cf, hcf, rfl⟩ := h
  case log =>
    refine ⟨(Option.bind_fun_some _).symm, (Option.bind_fun_some _).symm, fun m' => ?_⟩
    by_cases hm : m' = m
    · simp [hm, Command.onLogger, hcf]
    · simp [hm]
  all_goals
    refine ⟨?_, ?_, fun m' => ?_⟩
    · first
      | exact hcf.symm
      | exact (Option.bind_fun_some _).symm
    · first
      | exact hcf.symm
      | exact (Option.bind_fun_some _).symm
    · exact hloggers res.logger m'

/-- A word that is found is the name of a command of the module, or of `log`. -/
lemma resolve_name {m : Mod} {name : List UInt8} {cmd : Command} (h : resolve m name = some cmd) :
    name = cmd.name ∧ (cmd = .log ∨ cmd ∈ m.commands) := by
  unfold resolve at h
  split at h
  · rename_i c hc
    have hname := List.find?_some hc
    have hmem := List.mem_of_find?_eq_some hc
    cases h
    simp only [Bool.and_eq_true, beq_iff_eq] at hname
    exact ⟨hname.2.symm, Or.inr hmem⟩
  · have hname := List.find?_some h
    simp only [Bool.and_eq_true, beq_iff_eq] at hname
    refine ⟨hname.2.symm, Or.inl ?_⟩
    cases cmd with
    | log => rfl
    | _ => cases hname.1

lemma performCommand_parts {env : ConfEnv} {m : Mod} {ws : List (List UInt8)}
    {res res' : Resource} (h : performCommand env m res ws = some res') :
    ∃ cmd : Command, ws.head? = some cmd.name ∧ (cmd = .log ∨ cmd ∈ m.commands) ∧
      res'.netConf = res.netConf.bind (cmd.onNet ws) ∧
      res'.mainConf = res.mainConf.bind (cmd.onMain env ws) ∧
      ∀ m', res'.logger m' = if m' = m then cmd.onLogger env ws (res.logger m) else res.logger m' := by
  unfold performCommand at h
  split at h
  · cases h
  rename_i name ws'
  obtain ⟨cmd, hcmd, hset⟩ := Option.bind_eq_some_iff.mp h
  obtain ⟨hname, hmem⟩ := resolve_name hcmd
  exact ⟨cmd, by rw [List.head?_cons, hname], hmem, set_parts hset⟩

/-- The commands of one module leave the configuration of the other alone. -/
lemma performCommand_other {env : ConfEnv} {m : Mod} {ws : List (List UInt8)}
    {res res' : Resource} (h : performCommand env m res ws = some res') :
    (m = .main → res'.netConf = res.netConf) ∧ (m = .net → res'.mainConf = res.mainConf) := by
  obtain ⟨cmd, -, hmem, hnet, hmain, -⟩ := performCommand_parts h
  rw [hnet, hmain]
  constructor
  · rintro rfl
    have hnone : cmd.onNet ws = some := by
      rcases hmem with rfl | hmem
      · rfl
      · simp only [Mod.commands, List.mem_cons, List.not_mem_nil, or_false] at hmem
        rcases hmem with rfl | rfl | rfl
        · rfl
        · rfl
        · rfl
    rw [hnone, Option.bind_fun_some]
  · rintro rfl
    have hnone : cmd.onMain env ws = some := by
      rcases hmem with rfl | hmem
      · rfl
      · simp only [Mod.commands, List.mem_cons, List.not_mem_nil, or_false] at hmem
        rcases hmem with rfl | rfl | rfl | rfl
        · rfl
        · rfl
        · rfl
        · rfl
    rw [hnone, Option.bind_fun_some]

/-! ## The commands of a block -/

lemma numberArg_some {ws : List (List UInt8)} {n : ℕ} (h : numberArg ws = some n) :
    ∃ arg, ws[1]? = some arg ∧ n = toUint (atoi arg) := by
  unfold numberArg at h
  split at h
  · rename_i name arg
    split_ifs at h
    cases h
    exact ⟨arg, rfl, rfl⟩
  · cases h

lemma argument_snoc {c : Command} {ws : List (List UInt8)} (h : ws.head? = some c.name)
    (cmd : Command) (cs : List (List (List UInt8))) :
    argument cmd (cs ++ [ws]) = if c = cmd then ws[1]? else argument cmd cs := by
  unfold argument
  rw [lastCommand_snoc h]
  split_ifs
  · rfl
  · rfl

lemma numberSet_snoc {c : Command} {ws : List (List UInt8)} (h : ws.head? = some c.name)
    (cmd : Command) (cs : List (List (List UInt8))) :
    numberSet cmd (cs ++ [ws]) =
      if c = cmd then ws[1]?.elim 0 (fun arg => toUint (atoi arg)) else numberSet cmd cs := by
  unfold numberSet
  rw [argument_snoc h]
  split_ifs
  · rfl
  · rfl

/-- A command goes on from what the ones before it have set. -/
lemma netSettings_snoc {c : Command} {ws : List (List UInt8)} {cs : List (List (List UInt8))}
    {cf : NetConf} (hname : ws.head? = some c.name) (h : c.onNet ws (netSettings cs) = some cf) :
    cf = netSettings (cs ++ [ws]) := by
  unfold netSettings at h ⊢
  simp only [numberSet_snoc hname, lastCommand_snoc hname]
  cases c with
  | listen =>
    obtain ⟨n, hn, rfl⟩ := Option.map_eq_some_iff.mp h
    obtain ⟨arg, harg, rfl⟩ := numberArg_some hn
    simp [harg]
  | connections =>
    obtain ⟨n, hn, rfl⟩ := Option.map_eq_some_iff.mp h
    obtain ⟨arg, harg, rfl⟩ := numberArg_some hn
    simp [harg]
  | requestBufferSize =>
    obtain ⟨n, hn, rfl⟩ := Option.map_eq_some_iff.mp h
    obtain ⟨arg, harg, rfl⟩ := numberArg_some hn
    simp [harg]
  | nodelay =>
    simp only [Command.onNet, cmdNodelaySet] at h
    split at h
    · cases h
      simp
    · cases h
  | _ =>
    cases h
    simp

lemma mainSettings_snoc {env : ConfEnv} {c : Command} {ws : List (List UInt8)}
    {cs : List (List (List UInt8))} {cf : MainConf} (hname : ws.head? = some c.name)
    (h : c.onMain env ws (mainSettings env cs) = some cf) : cf = mainSettings env (cs ++ [ws]) := by
  unfold mainSettings at h ⊢
  simp only [argument_snoc hname]
  cases c with
  | daemon =>
    simp only [Command.onMain, cmdDaemonSet] at h
    split at h
    · cases h
      simp
    · cases h
  | pid =>
    simp only [Command.onMain, cmdPidSet] at h
    split at h
    · cases h
      simp
    · cases h
  | _ =>
    cases h
    simp

/-- The commands of a block, one after the other. -/
lemma foldlM_settings {env : ConfEnv} {m : Mod} {cs : List (List (List UInt8))}
    {res res' : Resource} (h : cs.foldlM (performCommand env m) res = some res') :
    (res.netConf = some createNetModConf → res'.netConf = some (netSettings cs)) ∧
      (res.mainConf = some (createMainLocConf env) → res'.mainConf = some (mainSettings env cs)) ∧
      ∀ m', res'.logger m' =
        if m' = m then (lastCommand .log cs).elim (res.logger m) (cmdLogSet env)
        else res.logger m' := by
  induction cs using List.reverseRecOn generalizing res' with
  | nil =>
    cases h
    refine ⟨fun hnet => hnet, fun hmain => hmain, fun m' => ?_⟩
    split_ifs with hm
    · rw [hm]
      rfl
    · rfl
  | append_singleton cs ws ih =>
    obtain ⟨res₁, hcs, hws⟩ := foldlM_snoc.mp h
    obtain ⟨ihnet, ihmain, ihlogger⟩ := ih hcs
    obtain ⟨cmd, hname, -, hnet, hmain, hlogger⟩ := performCommand_parts hws
    -- a command that is carried out leaves the configurations there
    have hkept (m' : Mod) : res'.hasConf m' = res₁.hasConf m' := (performCommand_sets hws m').1
    refine ⟨fun hstart => ?_, fun hstart => ?_, fun m' => ?_⟩
    · rw [ihnet hstart, Option.bind_some] at hnet
      have hsome : res'.netConf.isSome = true := by
        have hnow := hkept .net
        simp only [Resource.hasConf, ihnet hstart] at hnow
        exact hnow
      obtain ⟨cf, hcf⟩ := Option.isSome_iff_exists.mp hsome
      rw [hcf, netSettings_snoc hname (hnet.symm.trans hcf)]
    · rw [ihmain hstart, Option.bind_some] at hmain
      have hsome : res'.mainConf.isSome = true := by
        have hnow := hkept .main
        simp only [Resource.hasConf, ihmain hstart] at hnow
        exact hnow
      obtain ⟨cf, hcf⟩ := Option.isSome_iff_exists.mp hsome
      rw [hcf, mainSettings_snoc hname (hmain.symm.trans hcf)]
    · rw [hlogger, lastCommand_snoc hname]
      by_cases hm : m' = m
      · rw [if_pos hm, if_pos hm, ihlogger, if_pos rfl]
        cases cmd with
        | log => rfl
        | _ => rfl
      · rw [if_neg hm, if_neg hm, ihlogger, if_neg hm]

lemma foldlM_other {env : ConfEnv} {m : Mod} {cs : List (List (List UInt8))}
    {res res' : Resource} (h : cs.foldlM (performCommand env m) res = some res') :
    (m = .main → res'.netConf = res.netConf) ∧ (m = .net → res'.mainConf = res.mainConf) := by
  induction cs using List.reverseRecOn generalizing res' with
  | nil =>
    cases h
    exact ⟨fun _ => rfl, fun _ => rfl⟩
  | append_singleton cs ws ih =>
    obtain ⟨res₁, hcs, hws⟩ := foldlM_snoc.mp h
    obtain ⟨hnet, hmain⟩ := performCommand_other hws
    exact ⟨fun hm => (hnet hm).trans ((ih hcs).1 hm), fun hm => (hmain hm).trans ((ih hcs).2 hm)⟩

/-! ## The blocks of a text -/

/-- What the blocks `bs` set. -/
structure Settings (env : ConfEnv) (bs : List ConfBlock) (res : Resource) : Prop where
  net : res.netConf = (lastBlock .net bs).map (fun b => netSettings b.commands)
  main : res.mainConf = (lastBlock .main bs).map (fun b => mainSettings env b.commands)
  logger : ∀ m, res.logger m = logSettings env (commandsOf m bs)

lemma lastBlock_snoc (m : Mod) (bs : List ConfBlock) (b : ConfBlock) :
    lastBlock m (bs ++ [b]) = if b.name = m.name then some b else lastBlock m bs := by
  unfold lastBlock
  rw [List.reverse_append, List.reverse_singleton, List.singleton_append, List.find?_cons]
  by_cases hb : b.name = m.name
  · simp [hb]
  · have hne : (b.name == m.name) = false := beq_eq_false_iff_ne.mpr hb
    simp [hb, hne]

lemma commandsOf_snoc (m : Mod) (bs : List ConfBlock) (b : ConfBlock) :
    commandsOf m (bs ++ [b]) = commandsOf m bs ++ if b.name = m.name then b.commands else [] := by
  unfold commandsOf
  rw [List.filter_append, List.flatMap_append]
  by_cases hb : b.name = m.name
  · simp [hb]
  · simp [hb]

lemma logSettings_append (env : ConfEnv) (cs ds : List (List (List UInt8))) :
    logSettings env (cs ++ ds) =
      (lastCommand .log ds).elim (logSettings env cs) (cmdLogSet env) := by
  unfold logSettings lastCommand
  rw [List.reverse_append, List.find?_append]
  cases ds.reverse.find? (fun ws => ws.head? == some Command.log.name) with
  | none => rfl
  | some ws => rfl

/-- **One block**: it starts from the defaults of its module and keeps the loggers. -/
lemma Settings.block {env : ConfEnv} {bs : List ConfBlock} {b : ConfBlock} {res res' : Resource}
    (h : Settings env bs res) (hb : performBlock env res b = some res') :
    Settings env (bs ++ [b]) res' := by
  obtain ⟨m, hm, hcs⟩ := Option.bind_eq_some_iff.mp hb
  have hname : b.name = m.name := Mod.named_iff.mp hm
  obtain ⟨hnet, hmain, hlogger⟩ := foldlM_settings hcs
  have hother (m' : Mod) : b.name = m'.name ↔ m = m' := by
    rw [← Mod.named_iff, hm, Option.some_inj]
  have hloggers (m' : Mod) : res'.logger m' = logSettings env (commandsOf m' (bs ++ [b])) := by
    have hkept : (createConf env m res).logger = res.logger := by
      cases m with
      | _ => rfl
    rw [hlogger, hkept, commandsOf_snoc, logSettings_append, h.logger]
    by_cases hmm : m' = m
    · rw [if_pos hmm, if_pos ((hother m').mpr hmm.symm), hmm]
    · rw [if_neg hmm, if_neg (fun hb => hmm ((hother m').mp hb).symm), h.logger]
      rfl
  obtain ⟨hnetkept, hmainkept⟩ := foldlM_other hcs
  cases m with
  | main =>
    refine ⟨?_, ?_, hloggers⟩
    · rw [lastBlock_snoc, if_neg (fun hb => by cases (hother .net).mp hb), hnetkept rfl, ← h.net]
      rfl
    · rw [lastBlock_snoc, if_pos hname, hmain rfl]
      rfl
  | net =>
    refine ⟨?_, ?_, hloggers⟩
    · rw [lastBlock_snoc, if_pos hname, hnet rfl]
      rfl
    · rw [lastBlock_snoc, if_neg (fun hb => by cases (hother .main).mp hb), hmainkept rfl, ← h.main]
      rfl

/-- The blocks of a text, one after the other. -/
lemma perform_settings {env : ConfEnv} {bs : List ConfBlock} {res : Resource}
    (h : perform env emptyResource bs = some res) : Settings env bs res := by
  unfold perform at h
  induction bs using List.reverseRecOn generalizing res with
  | nil =>
    cases h
    exact ⟨rfl, rfl, fun _ => rfl⟩
  | append_singleton bs b ih =>
    obtain ⟨res₁, hbs, hb⟩ := foldlM_snoc.mp h
    exact (ih hbs).block hb

/-- **What an accepted configuration sets.** Of each module only the last block counts,
and in it the last command of each name; what has no command there has its default. The
logger of a module comes from the last `log` command in any of its blocks. -/
theorem settings_of_text (env : ConfEnv) (text : List UInt8) (reads : List (List UInt8))
    (hreads : Splits text reads) (res : Resource)
    (hok : confFileParser env (some (reads.map FileRead.bytes)) = .ok res) :
    ∃ bs, ConfText text bs ∧
      res.netConf = (lastBlock .net bs).map (fun b => netSettings b.commands) ∧
      res.mainConf = (lastBlock .main bs).map (fun b => mainSettings env b.commands) ∧
      ∀ m, res.logger m = logSettings env (commandsOf m bs) := by
  obtain ⟨bs, htext, -, hperform⟩ := confFileParser_sound hreads hok
  have hset := perform_settings hperform
  exact ⟨bs, htext, hset.net, hset.main, hset.logger⟩

/-- `net{listen 80;}net{}`: the second block starts again. -/
def relistenText : List UInt8 := listenText ++ [110, 101, 116, 123, 125]

theorem settings_of_text_again :
    ∃ res bs, confFileParser ⟨[47], fun _ => true⟩ (some [.bytes relistenText]) = .ok res ∧
      ConfText relistenText bs ∧ res.netConf = some createNetModConf ∧
      res.netConf = (lastBlock .net bs).map (fun b => netSettings b.commands) := by
  obtain ⟨bs, htext, hnet, -⟩ := settings_of_text ⟨[47], fun _ => true⟩ relistenText [relistenText]
    ⟨rfl, by decide⟩ _ rfl
  exact ⟨_, bs, rfl, htext, rfl, hnet⟩

end Xpipe
