import Xpipe.ConfParsing
import Xpipe.Runs

/-!
# Start-up

`main` of `xpipe.c` from `conf_file_parser` to the call of `system_modules_init`,
with `create_default_logger` and `sys_modules_prepare`. What comes after reads
`mod_conf` of every module without looking whether a block has set it. A default
logger that is made because `main` has none is not kept.
-/
namespace Xpipe
open Runs

/-- The outcomes of the calls that start-up makes: the allocations and the `open` of
`create_default_logger`, and `mem_pool_create` for each module. -/
structure StartOutcomes where
  fileAlloc : Bool
  opens : Bool
  loggerAlloc : Bool
  modPool : Mod → Bool

/-- `xpipe_resource` and the fields of the modules. The pool of a module is given by
the logger it was made with. -/
structure XpipeResource where
  mods : Resource
  mainLogger : Option Logger
  defaultLogger : Option Logger
  pool : Mod → Option (Option Logger)

/-- `mod->mod_conf != NULL`. -/
def Resource.hasConf (res : Resource) : Mod → Bool
  | .main => res.mainConf.isSome
  | .net => res.netConf.isSome

/-- `main` after a successful `conf_file_parser`. -/
def buildResource (res : Resource) : XpipeResource where
  mods := res
  mainLogger := res.logger .main
  defaultLogger := none
  pool := fun _ => none

/-- `create_default_logger`. -/
def createDefaultLogger (o : StartOutcomes) (s : XpipeResource) : Option XpipeResource :=
  match s.mainLogger with
  | some l => some { s with defaultLogger := some l }
  | none =>
    if !o.fileAlloc then none
    else if !o.opens then none
    else if !o.loggerAlloc then none
    else some s -- the logger that `log_create` returned stays in a local

/-- One iteration of the loop of `sys_modules_prepare`. -/
def prepareModule (o : StartOutcomes) (s : XpipeResource) (m : Mod) : Option XpipeResource :=
  let logger := (s.mods.logger m).or s.defaultLogger
  let mods := { s.mods with logger := Function.update s.mods.logger m logger }
  if o.modPool m then
    some { s with mods := mods, pool := Function.update s.pool m (some logger) }
  else none

/-- `sys_modules_prepare`. -/
def sysModulesPrepare (o : StartOutcomes) (s : XpipeResource) : Option XpipeResource :=
  sysModules.foldlM (prepareModule o) s

/-- `main` up to the call of `system_modules_init`; none is an exit before it. -/
def startUp (env : ConfEnv) (file : Option (List FileRead)) (o : StartOutcomes) :
    Option XpipeResource :=
  match confFileParser env file with
  | .error _ => none
  | .ok res => (createDefaultLogger o (buildResource res)).bind (sysModulesPrepare o)

/-- What the rest of the program relies on. -/
structure XpipeResource.Usable (s : XpipeResource) : Prop where
  confs : ∀ m ∈ sysModules, s.mods.hasConf m = true
  defaultLogger : s.defaultLogger ≠ none
  loggers : ∀ m ∈ sysModules, s.mods.logger m ≠ none

/-- Whatever the outcomes of its calls, start-up leaves with an error or gives the
modules all they need. -/
def StartsUp (env : ConfEnv) (file : Option (List FileRead)) : Prop :=
  ∀ o s, startUp env file o = some s → s.Usable

/-! ## After the configuration -/

/-- `sys_modules_prepare` fills in loggers and makes pools. -/
lemma sysModulesPrepare_eq {o : StartOutcomes} {s s' : XpipeResource}
    (h : sysModulesPrepare o s = some s') :
    s'.mods.mainConf = s.mods.mainConf ∧ s'.mods.netConf = s.mods.netConf ∧
      s'.defaultLogger = s.defaultLogger ∧
      ∀ m, s'.mods.logger m = (s.mods.logger m).or s.defaultLogger := by
  unfold sysModulesPrepare sysModules at h
  simp only [List.foldlM_cons, List.foldlM_nil, prepareModule] at h
  by_cases hmain : o.modPool .main = true
  · by_cases hnet : o.modPool .net = true
    · simp only [hmain, hnet, if_true, Option.bind_eq_bind, Option.bind_some] at h
      cases h
      refine ⟨rfl, rfl, rfl, fun m => ?_⟩
      cases m with
      | main => simp
      | net => simp
    · simp [hmain, hnet] at h
  · simp [hmain] at h

/-- With every call successful, start-up reaches `system_modules_init`. -/
lemma startUp_succeeds {env : ConfEnv} {file : Option (List FileRead)} {res : Resource}
    (h : confFileParser env file = .ok res) :
    ∃ s, startUp env file ⟨true, true, true, fun _ => true⟩ = some s := by
  unfold startUp createDefaultLogger
  rw [h]
  simp only
  cases hlogger : (buildResource res).mainLogger with
  | none => exact ⟨_, rfl⟩
  | some l => exact ⟨_, rfl⟩

/-- **What start-up needs of the configuration**: a block of each module, and a
logger of `main`. -/
lemma startsUp_iff {env : ConfEnv} {file : Option (List FileRead)} {res : Resource}
    (h : confFileParser env file = .ok res) :
    StartsUp env file ↔ (∀ m ∈ sysModules, res.hasConf m = true) ∧ res.logger .main ≠ none := by
  -- the configurations are untouched, and the default logger is that of `main` or NULL
  have hstart {o : StartOutcomes} {s : XpipeResource} (hs : startUp env file o = some s) :
      s.mods.hasConf = res.hasConf ∧ s.defaultLogger = res.logger .main ∧
        ∀ m, s.mods.logger m = (res.logger m).or (res.logger .main) := by
    unfold startUp at hs
    rw [h] at hs
    obtain ⟨s₁, hcreate, hprepare⟩ := Option.bind_eq_some_iff.mp hs
    have hcreated : s₁ = { buildResource res with defaultLogger := res.logger .main } := by
      unfold createDefaultLogger buildResource at hcreate
      cases hlogger : res.logger .main with
      | none =>
        simp only [hlogger] at hcreate
        split_ifs at hcreate
        cases hcreate
        simp [buildResource, hlogger]
      | some l =>
        simp only [hlogger] at hcreate
        cases hcreate
        simp [buildResource, hlogger]
    obtain ⟨hmain, hnet, hdefault, hloggers⟩ := sysModulesPrepare_eq hprepare
    rw [hcreated] at hmain hnet hdefault hloggers
    refine ⟨?_, hdefault, hloggers⟩
    ext m
    cases m with
    | main => simp only [Resource.hasConf, hmain]; rfl
    | net => simp only [Resource.hasConf, hnet]; rfl
  constructor
  · intro hall
    obtain ⟨s, hs⟩ := startUp_succeeds h
    obtain ⟨hconf, hdefault, -⟩ := hstart hs
    have husable := hall _ s hs
    exact ⟨hconf ▸ husable.confs, hdefault ▸ husable.defaultLogger⟩
  · rintro ⟨hconfs, hlogger⟩ o s hs
    obtain ⟨hconf, hdefault, hloggers⟩ := hstart hs
    refine ⟨hconf ▸ hconfs, hdefault ▸ hlogger, fun m _ => ?_⟩
    rw [hloggers]
    cases hm : res.logger m with
    | none => exact hlogger
    | some l => simp

/-! ## What a text sets -/

lemma Mod.named_iff {name : List UInt8} {m : Mod} : Mod.named name = some m ↔ name = m.name := by
  unfold Mod.named sysModules
  by_cases hmain : Mod.main.name = name
  · subst hmain
    cases m <;> decide
  · rw [List.find?_cons_of_neg (by simpa using hmain)]
    by_cases hnet : Mod.net.name = name
    · subst hnet
      cases m <;> decide
    · rw [List.find?_cons_of_neg (by simpa using hnet)]
      cases m with
      | main => simpa using Ne.symm hmain
      | net => simpa using Ne.symm hnet

/-- In every module the word `log` is the command `log`, and no other word is. -/
lemma resolve_log_iff {m : Mod} {name : List UInt8} :
    resolve m name = some .log ↔ name = Command.log.name := by
  constructor
  · intro h
    unfold resolve at h
    split at h
    · rename_i c hc
      have := List.find?_some hc
      cases h
      simp [Command.isGlobal] at this
    · have := List.find?_some h
      simp only [Bool.and_eq_true, beq_iff_eq] at this
      exact this.2.symm
  · rintro rfl
    cases m <;> decide

lemma set_hasConf {env : ConfEnv} {m : Mod} {cmd : Command} {ws : List (List UInt8)}
    {res res' : Resource} (h : cmd.set env m ws res = some res') (m' : Mod) :
    res'.hasConf m' = res.hasConf m' := by
  unfold Command.set at h
  cases cmd
  all_goals
    simp only [Option.map_eq_some_iff] at h
    obtain ⟨cf, hcf, rfl⟩ := h
    cases m' <;> simp_all [Resource.hasConf, Option.bind_eq_some_iff]
  all_goals
    obtain ⟨a, ha, -⟩ := hcf
    simp [ha]

lemma set_logger {env : ConfEnv} {m : Mod} {cmd : Command} {ws : List (List UInt8)}
    {res res' : Resource} (h : cmd.set env m ws res = some res') (m' : Mod) :
    res'.logger m' ≠ none ↔ res.logger m' ≠ none ∨ m = m' ∧ cmd = .log := by
  unfold Command.set at h
  cases cmd
  all_goals
    simp only [Option.map_eq_some_iff] at h
    obtain ⟨cf, hcf, rfl⟩ := h
    simp
  by_cases hm : m' = m
  · simp [hm]
  · simp [hm, Ne.symm hm]

/-- The command is a `log` command. -/
def IsLog (ws : List (List UInt8)) : Prop := ws.head? = some Command.log.name

lemma performCommand_sets {env : ConfEnv} {m : Mod} {res res' : Resource} {ws : List (List UInt8)}
    (h : performCommand env m res ws = some res') (m' : Mod) :
    res'.hasConf m' = res.hasConf m' ∧
      (res'.logger m' ≠ none ↔ res.logger m' ≠ none ∨ m = m' ∧ IsLog ws) := by
  unfold performCommand at h
  split at h
  · cases h
  rename_i name ws'
  obtain ⟨cmd, hcmd, hset⟩ := Option.bind_eq_some_iff.mp h
  refine ⟨set_hasConf hset m', ?_⟩
  have hlog : cmd = .log ↔ IsLog (name :: ws') := by
    rw [IsLog, List.head?_cons, Option.some_inj, ← @resolve_log_iff m, hcmd, Option.some_inj]
  rw [set_logger hset m', hlog]

/-- A block of `m`. -/
def ConfBlock.Of (m : Mod) (b : ConfBlock) : Prop := b.name = m.name

lemma performBlock_sets {env : ConfEnv} {res res' : Resource} {b : ConfBlock}
    (h : performBlock env res b = some res') (m : Mod) :
    (res'.hasConf m = true ↔ res.hasConf m = true ∨ b.Of m) ∧
      (res'.logger m ≠ none ↔ res.logger m ≠ none ∨ b.Of m ∧ ∃ ws ∈ b.commands, IsLog ws) := by
  obtain ⟨n, hn, hcs⟩ := Option.bind_eq_some_iff.mp h
  have hof : b.Of m ↔ n = m := by
    rw [ConfBlock.Of, ← Mod.named_iff, hn, Option.some_inj]
  have hconf : res'.hasConf m = true ↔ (createConf env n res).hasConf m = true ∨
      ∃ ws ∈ b.commands, False :=
    foldlM_marked_iff (W := fun r => r.hasConf m = true)
      (fun _ _ _ hstep => by simp [(performCommand_sets hstep m).1]) hcs
  have hlogger : res'.logger m ≠ none ↔ (createConf env n res).logger m ≠ none ∨
      ∃ ws ∈ b.commands, n = m ∧ IsLog ws :=
    foldlM_marked_iff (W := fun r => r.logger m ≠ none)
      (fun _ _ _ hstep => (performCommand_sets hstep m).2) hcs
  have hcreated : (createConf env n res).hasConf m = true ↔ res.hasConf m = true ∨ n = m := by
    cases n <;> cases m <;> simp [createConf, Resource.hasConf]
  have hkept : (createConf env n res).logger = res.logger := by cases n <;> rfl
  rw [hconf, hlogger, hcreated, hkept, hof]
  constructor
  · simp
  · refine or_congr_right ⟨?_, ?_⟩
    · rintro ⟨ws, hws, hnm, hlog⟩
      exact ⟨hnm, ws, hws, hlog⟩
    · rintro ⟨hnm, ws, hws, hlog⟩
      exact ⟨ws, hws, hnm, hlog⟩

/-- The blocks have one of each module, and `main` has a `log` command. -/
def Configures (bs : List ConfBlock) : Prop :=
  (∀ m ∈ sysModules, ∃ b ∈ bs, b.Of m) ∧ ∃ b ∈ bs, b.Of .main ∧ ∃ ws ∈ b.commands, IsLog ws

lemma perform_sets {env : ConfEnv} {bs : List ConfBlock} {res : Resource}
    (h : perform env emptyResource bs = some res) :
    ((∀ m ∈ sysModules, res.hasConf m = true) ∧ res.logger .main ≠ none) ↔ Configures bs := by
  have hconf (m : Mod) : res.hasConf m = true ↔
      emptyResource.hasConf m = true ∨ ∃ b ∈ bs, b.Of m :=
    foldlM_marked_iff (W := fun r => r.hasConf m = true)
      (fun _ _ _ hstep => (performBlock_sets hstep m).1) h
  have hlogger : res.logger .main ≠ none ↔ emptyResource.logger .main ≠ none ∨
      ∃ b ∈ bs, b.Of .main ∧ ∃ ws ∈ b.commands, IsLog ws :=
    foldlM_marked_iff (W := fun r => r.logger .main ≠ none)
      (fun _ _ _ hstep => (performBlock_sets hstep .main).2) h
  have hempty (m : Mod) : emptyResource.hasConf m = false := by cases m <;> rfl
  have hnone : emptyResource.logger .main = none := rfl
  rw [hlogger]
  simp [Configures, hconf, hempty, hnone]

/-- **An accepted configuration starts up exactly when it has a block of each module
and a `log` command in a block of `main`.** -/
theorem startsUp_iff_configures (env : ConfEnv) (text : List UInt8) (reads : List (List UInt8))
    (hreads : Splits text reads) (res : Resource)
    (hok : confFileParser env (some (reads.map FileRead.bytes)) = .ok res) :
    StartsUp env (some (reads.map FileRead.bytes)) ↔
      ∃ bs, ConfText text bs ∧ (∀ b ∈ bs, b.Short) ∧ perform env emptyResource bs = some res ∧
        Configures bs := by
  rw [startsUp_iff hok]
  obtain ⟨bs, htext, hshort, hperform⟩ := confFileParser_sound hreads hok
  constructor
  · intro h
    exact ⟨bs, htext, hshort, hperform, (perform_sets hperform).mp h⟩
  · rintro ⟨bs', -, -, hperform', hconf⟩
    exact (perform_sets hperform').mpr hconf

/-- `main{log l info;}net{}`. -/
def loggingText : List UInt8 :=
  [109, 97, 105, 110, 123, 108, 111, 103, 32, 108, 32, 105, 110, 102, 111, 59, 125,
    110, 101, 116, 123, 125]

/-- A configuration with all that start-up needs. -/
theorem startsUp_logging : StartsUp ⟨[47], fun _ => true⟩ (some [.bytes loggingText]) := by
  have hsplits : Splits loggingText [loggingText] := ⟨rfl, by simp [loggingText]⟩
  obtain ⟨bs, htext, hshort, hperform⟩ :=
    @confFileParser_sound ⟨[47], fun _ => true⟩ _ _ hsplits _ rfl
  refine (startsUp_iff_configures _ loggingText [loggingText] hsplits _ rfl).mpr
    ⟨bs, htext, hshort, hperform, (perform_sets hperform).mp ⟨?_, ?_⟩⟩
  · decide
  · decide

/-- `net{listen 80;}` is accepted; `main` has neither a configuration nor a logger. -/
theorem startsUp_listen :
    ¬ ∀ env text reads res, Splits text reads →
      confFileParser env (some (reads.map FileRead.bytes)) = .ok res →
        StartsUp env (some (reads.map FileRead.bytes)) := by
  intro h
  have hall := h ⟨[47], fun _ => true⟩ listenText [listenText] _ ⟨rfl, by decide⟩ rfl
  have husable := hall ⟨true, true, true, fun _ => true⟩ _ rfl
  have hconf := husable.confs .main (by decide)
  revert hconf
  decide

end Xpipe
