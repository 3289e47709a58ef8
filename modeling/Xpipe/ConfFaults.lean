import Xpipe.ConfMessages
import Xpipe.ConfSettings

/-!
# The faults of a configuration text

`Fault` says, from the text alone, at which byte a text goes wrong and what is to be said
about it: the message, with the name and the line in it. `conf_messages` is that the parser
says this and nothing else. The line is the one of the byte at which the parser stops; for
a command it is the line of its `;`.
-/
namespace Xpipe
open Machines

/-! ## The line and the name -/

/-- The line on which the byte behind `s` stands, as `line` counts it. -/
def lineAt (s : List UInt8) : ℕ := (1 + s.count LF) % 2 ^ 32

lemma lineAt_snoc (s : List UInt8) (c : UInt8) :
    lineAt (s ++ [c]) = if c = LF then (lineAt s + 1) % 2 ^ 32 else lineAt s := by
  unfold lineAt
  rw [List.count_append, List.count_singleton]
  by_cases hc : c = LF
  · simp only [hc, beq_self_eq_true, if_true]
    omega
  · simp [hc]

/-- Between a module's name and its block, also in the comment there. -/
def ConfLocals.InGap (l : ConfLocals) : Prop :=
  l.state = .modNameEndBlank ∨ l.state = .comment ∧ l.oldState = .modNameEndBlank

/-- A step keeps the line, and the words of a command come from `key`; if it leads into the
gap behind a module's name, `key` is that name, or the step was made there. -/
structure Onward (l l' : ConfLocals) : Prop where
  line : l'.line = l.line
  args : ∀ w ∈ l'.cmdArgs, w ∈ l.cmdArgs ∨ w.length ≤ 256
  gap : l'.InGap → l'.key = l.key ∧ l'.mod = l.mod ∧ l.InGap ∨
    ∃ m, l'.mod = some m ∧ l'.name = m.name

section
variable {env : ConfEnv} {l l' l₀ : ConfLocals} {c : UInt8}

lemma onward_putKey (h : l.putKey c = .ok l') (hline : l.line = l₀.line)
    (hargs : ∀ w ∈ l.cmdArgs, w ∈ l₀.cmdArgs) (hgap : l.state = .command ∨ l.state = .modName) :
    Onward l₀ l' := by
  unfold ConfLocals.putKey at h
  split_ifs at h
  cases h
  refine ⟨hline, fun w hw => Or.inl (hargs w hw), fun hin => ?_⟩
  simp only [ConfLocals.InGap] at hin
  rcases hgap with hstate | hstate
  · simp [hstate] at hin
  · simp [hstate] at hin

lemma onward_nameEnd (h : l.endKey >>= modNameEndSays env = .ok l')
    (hline : l.line = l₀.line) (hargs : l.cmdArgs = l₀.cmdArgs) : Onward l₀ l' := by
  unfold ConfLocals.endKey at h
  split_ifs at h with hk
  · simp only [bind, Except.bind, modNameEndSays] at h
    split at h
    · cases h
    rename_i m hm
    cases h
    refine ⟨hline, fun w hw => Or.inl (hargs ▸ hw), fun _ => Or.inr ⟨m, rfl, ?_⟩⟩
    -- the name that is found is the one that was asked for
    have hfound := List.find?_some hm
    simp only [strcmpEq, beq_iff_eq, Mod.cString_name] at hfound
    exact hfound
  · cases h

lemma onward_cmdEnd (h : cmdEndSays env l = .ok l') (hline : l.line = l₀.line)
    (hargs : ∀ w ∈ l.cmdArgs, w ∈ l₀.cmdArgs ∨ w.length ≤ 256) : Onward l₀ l' := by
  have hset {l l' : ConfLocals} {m : Mod} {cmd : Command} {name : List UInt8}
      (hset : callSetSays env l m cmd name = .ok l') :
      l'.line = l.line ∧ l'.cmdArgs = l.cmdArgs ∧ l'.state = l.state := by
    unfold callSetSays at hset
    split at hset
    · cases hset
    · cases hset
      exact ⟨rfl, rfl, rfl⟩
  have hend : l'.line = l.line ∧ l'.cmdArgs = l.cmdArgs ∧ l'.state = .modBlock := by
    unfold cmdEndSays at h
    simp only at h
    split at h
    · split at h
      · exact hset h
      · split at h
        · cases h
        · exact hset h
    · cases h
  refine ⟨hend.1.trans hline, fun w hw => hargs w (hend.2.1 ▸ hw), fun hin => ?_⟩
  simp [ConfLocals.InGap, hend.2.2] at hin

lemma pushArg_ok (h : l.pushArg = .ok l') : l'.line = l.line ∧ l'.state = l.state ∧
    ∀ w ∈ l'.cmdArgs, w ∈ l.cmdArgs ∨ w.length ≤ 256 := by
  unfold ConfLocals.pushArg ConfLocals.endKey at h
  split_ifs at h
  · cases h
    refine ⟨rfl, rfl, fun w hw => ?_⟩
    rcases List.mem_append.mp hw with hold | hnew
    · exact Or.inl hold
    · rw [List.mem_singleton.mp hnew, List.length_take, Vector.length_toList]
      exact Or.inr (Nat.min_le_right _ _)
  · cases h

lemma onward_modBlock (h : modBlockSays l c = .ok l') : Onward l l' := by
  unfold modBlockSays at h
  split_ifs at h
  · cases h
    exact ⟨rfl, fun w hw => Or.inl hw, fun hin => by simp [ConfLocals.InGap] at hin⟩
  · cases h
    exact ⟨rfl, fun w hw => Or.inl hw, fun hin => Or.inl ⟨rfl, rfl, hin⟩⟩
  · exact onward_putKey h rfl (fun w hw => absurd hw List.not_mem_nil) (Or.inl rfl)
  · cases h
    exact ⟨rfl, fun w hw => Or.inl hw, fun hin => by simp [ConfLocals.InGap] at hin⟩

lemma onward_confSwitch (h : confSwitch env l c = .ok l') (hname : l.state ≠ .modNameEnd)
    (hcomment : l.state ≠ .commentEnd) : Onward l l' := by
  obtain ⟨x, o, key, k, line, m, as, res⟩ := l
  unfold confSwitch at h
  cases x with
  | modNameEnd => exact absurd rfl hname
  | out =>
    simp only at h
    split_ifs at h
    · cases h
      exact ⟨rfl, fun w hw => Or.inl hw, fun hin => by simp [ConfLocals.InGap] at hin⟩
    · exact onward_putKey h rfl (fun w hw => hw) (Or.inr rfl)
    · cases h
      exact ⟨rfl, fun w hw => Or.inl hw, fun hin => by simp [ConfLocals.InGap] at hin⟩
  | comment =>
    simp only at h
    split_ifs at h
    · cases h
      refine ⟨rfl, fun w hw => Or.inl hw, fun hin => Or.inl ⟨rfl, rfl, Or.inr ⟨rfl, ?_⟩⟩⟩
      rcases hin with hin | ⟨-, hin⟩
      · exact hin
      · exact hin
    · cases h
      exact ⟨rfl, fun w hw => Or.inl hw, fun hin => Or.inl ⟨rfl, rfl, hin⟩⟩
  | commentEnd => exact absurd rfl hcomment
  | modName =>
    simp only at h
    split_ifs at h
    · exact onward_putKey h rfl (fun w hw => hw) (Or.inr rfl)
    · exact onward_nameEnd h rfl rfl
    · exact onward_nameEnd h rfl rfl
    · exact onward_nameEnd h rfl rfl
  | modNameEndBlank =>
    simp only at h
    split_ifs at h
    · cases h
      exact ⟨rfl, fun w hw => Or.inl hw, fun hin => by simp [ConfLocals.InGap] at hin⟩
    · exact onward_modBlock h
  | modBlock => exact onward_modBlock h
  | modBlockEnd =>
    cases h
    exact ⟨rfl, fun w hw => Or.inl hw, fun hin => by simp [ConfLocals.InGap] at hin⟩
  | command =>
    simp only at h
    split_ifs at h
    · obtain ⟨hline, hst, hargs⟩ := pushArg_ok h
      exact ⟨hline, hargs, fun hin => by simp [ConfLocals.InGap, hst] at hin⟩
    · simp only [bind, Except.bind] at h
      split at h
      · cases h
      · rename_i l₁ hpush
        obtain ⟨hline, -, hargs⟩ := pushArg_ok hpush
        exact onward_cmdEnd h hline hargs
    · exact onward_putKey h rfl (fun w hw => hw) (Or.inl rfl)
  | commandEnd => exact onward_cmdEnd h rfl (fun w hw => Or.inl hw)
  | commandBlank =>
    simp only at h
    split_ifs at h
    · exact onward_cmdEnd h rfl (fun w hw => Or.inl hw)
    · cases h
      exact ⟨rfl, fun w hw => Or.inl hw, fun hin => by simp [ConfLocals.InGap] at hin⟩
    · exact onward_putKey h rfl (fun w hw => hw) (Or.inl rfl)

end

/-- What the line, the words and the name are, when `s` has been read. -/
structure OnLine (s : List UInt8) (l : ConfLocals) : Prop where
  line : l.line = lineAt s
  short : ∀ w ∈ l.cmdArgs, w.length ≤ 256
  name : l.InGap → ∃ m, l.mod = some m ∧ l.name = m.name

lemma OnLine.step {env : ConfEnv} {s : List UInt8} {l l' : ConfLocals} {c : UInt8}
    (h : OnLine s l) (hread : ReadTo env s l.parse) (hbyte : confByteSays env l c = .ok l') :
    OnLine (s ++ [c]) l' := by
  unfold confByteSays at hbyte
  cases hswitch : confSwitch env l c with
  | error e =>
    rw [hswitch] at hbyte
    cases hbyte
  | ok l₁ =>
    obtain ⟨hline, hargs, hgap⟩ := onward_confSwitch hswitch hread.state_ne.1 hread.state_ne.2.1
    have hname : l₁.InGap → ∃ m, l₁.mod = some m ∧ l₁.name = m.name := by
      intro hin
      rcases hgap hin with ⟨hkey, hmod, hold⟩ | hnew
      · obtain ⟨m, hm, hname⟩ := h.name hold
        exact ⟨m, hmod.trans hm, by rw [ConfLocals.name, hkey]; exact hname⟩
      · exact hnew
    have hshort : ∀ w ∈ l₁.cmdArgs, w.length ≤ 256 := by
      intro w hw
      rcases hargs w hw with hold | hnew
      · exact h.short w hold
      · exact hnew
    rw [hswitch] at hbyte
    cases hbyte
    split_ifs with hc
    · exact ⟨by rw [lineAt_snoc, if_pos hc, ← h.line, ← hline], hshort, hname⟩
    · exact ⟨by rw [lineAt_snoc, if_neg hc, ← h.line, ← hline], hshort, hname⟩

/-- **All that is known** when `s` has been read. -/
lemma onLine_run {env : ConfEnv} {key : Vector UInt8 256} {s : List UInt8} {l : ConfLocals}
    (h : run (confByteSays env) (localsStart key) s = .ok l) :
    OnLine s l ∧ run (confByte env) confStart s = .ok l.parse := by
  have hforget (s : List UInt8) {l : ConfLocals}
      (h : run (confByteSays env) (localsStart key) s = .ok l) :
      run (confByte env) confStart s = .ok l.parse := by
    rw [← forget_run env key s, h, forget_ok]
  refine ⟨?_, hforget s h⟩
  induction s using List.reverseRecOn generalizing l with
  | nil =>
    cases h
    refine ⟨rfl, by simp [localsStart], fun hin => ?_⟩
    simp [ConfLocals.InGap, localsStart] at hin
  | append_singleton s c ih =>
    obtain ⟨l₁, hrun, hbyte⟩ := (run_append_ok_iff _ _ _ _ _).mp h
    obtain ⟨l₂, hstep, hend⟩ := (run_cons_ok_iff _ _ _ _ _).mp hbyte
    cases hend
    exact (ih hrun).step (readTo_run (hforget s hrun)) hstep

/-! ## Faults -/

/-- What is said about a command with the words `ws` that ends on `line`; nothing, if it
can be carried out. -/
def complaints (env : ConfEnv) (m : Mod) (ws : List (List UInt8)) (line : ℕ) : List ConfMessage :=
  match ws with
  | [] => []
  | name :: _ =>
    match resolve m name with
    | none => [searchEnd, .commandNotFound (cString name) line]
    | some cmd =>
      match cmd.complaint env ws with
      | none => []
      | some msg => [msg, .setFailed (cString name)]

/-- The byte that ends a module's name. -/
def isNameEnd (c : UInt8) : Bool := isBlank c || c == braceOpen || c == hash

/-- The text goes wrong at the byte `c` behind `pre`, and this is what is to be said. -/
inductive Fault (env : ConfEnv) : List UInt8 → UInt8 → List ConfMessage → Prop
  | firstChar {s : List UInt8} {c : UInt8} {res : Resource} (h : TextDone env s res)
    (hc : c ≠ hash ∧ isLetter c = false ∧ isBlank c = false) :
    Fault env s c [.firstChar (lineAt s)]
  | nameInvalid {s name : List UInt8} {c : UInt8} {res : Resource} (h : TextDone env s res)
    (hname : IsName name) (hc : isNameFollower c = false) :
    Fault env (s ++ name) c [.nameInvalid (lineAt (s ++ name))]
  | modNotFound {s name : List UInt8} {c : UInt8} {res : Resource} (h : TextDone env s res)
    (hname : IsName name) (hm : Mod.named name = none) (hc : isNameEnd c = true) :
    Fault env (s ++ name) c [.modNotFound name (lineAt (s ++ name))]
  | nameError {s name gap : List UInt8} {c : UInt8} {m : Mod} {res : Resource}
    (h : TextDone env s res) (hname : IsName name) (hm : Mod.named name = some m)
    (hgap : IsNameGap gap) (hne : gap ≠ []) (hc : c ≠ braceOpen ∧ isBlank c = false) :
    Fault env (s ++ name ++ gap) c [.nameError name (lineAt (s ++ name ++ gap))]
  | startChar {s : List UInt8} {c : UInt8} {m : Mod} {res : Resource} (h : BlockOpen env s m res)
    (hc : c ≠ hash ∧ isBlank c = false ∧ isLetter c = false ∧ c ≠ braceClose) :
    Fault env s c [.startChar (lineAt s)]
  | command {s t : List UInt8} {ws : List (List UInt8)} {m : Mod} {res : Resource}
    (h : BlockOpen env s m res) (ht : CommandText (t ++ [semicolon]) ws)
    (hfirst : StartsWithLetter t) (hne : complaints env m ws (lineAt (s ++ t)) ≠ []) :
    Fault env (s ++ t) semicolon (complaints env m ws (lineAt (s ++ t)))

/-- No byte of the text is wrong, but it is not a whole text. -/
def Unfinished (env : ConfEnv) (text : List UInt8) : Prop :=
  (¬ ∃ res, TextDone env text res) ∧
    ∀ pre c rest msgs, text = pre ++ c :: rest → ¬ Fault env pre c msgs

/-- What is to be said about a text. -/
def Diagnosis (env : ConfEnv) (text : List UInt8) (msgs : List ConfMessage) : Prop :=
  (∃ pre c rest, text = pre ++ c :: rest ∧ Fault env pre c msgs) ∨
    msgs = [.notComplete] ∧ Unfinished env text

/-! ## What the parser says -/

/-- A module whose block is open has a configuration. -/
lemma BlockOpen.hasConf {env : ConfEnv} {s : List UInt8} {m : Mod} {res : Resource}
    (h : BlockOpen env s m res) : res.hasConf m = true := by
  obtain ⟨before, name, gap, body, cs, res₀, -, -, -, -, hm, -, hcs⟩ := h
  have hblock : performBlock env res₀ ⟨name, cs⟩ = some res := by
    rw [performBlock, hm, Option.bind_some, hcs]
  exact ((performBlock_sets hblock m).1).mpr (Or.inr (Mod.named_iff.mp hm))

lemma numberArg_eq_none_iff (cmd : Command) (wrong : List UInt8 → ConfMessage)
    (ws : List (List UInt8)) : numberArg ws = none ↔ numberComplaint cmd wrong ws ≠ none := by
  match ws with
  | [] | [_] | _ :: _ :: _ :: _ => simp [numberArg, numberComplaint]
  | [_, arg] => cases harg : isPositiveInteger arg <;> simp [numberArg, numberComplaint, harg]

lemma cmdLogSet_eq_none_iff (env : ConfEnv) (ws : List (List UInt8)) :
    cmdLogSet env ws = none ↔ Command.log.complaint env ws ≠ none := by
  match ws with
  | [] | [_] | [_, _] | _ :: _ :: _ :: _ :: _ => simp [cmdLogSet, Command.complaint]
  | [_, arg, level] =>
    cases hopen : env.opens (cString (fullFileName env arg)) with
    | false => simp [cmdLogSet, Command.complaint, hopen]
    | true =>
      cases hlevel : logLevelOf (cString level) <;>
        simp [cmdLogSet, Command.complaint, hopen, hlevel]

lemma cmdDaemonSet_eq_none_iff (env : ConfEnv) (ws : List (List UInt8)) (cf : MainConf) :
    cmdDaemonSet ws cf = none ↔ Command.daemon.complaint env ws ≠ none := by
  unfold cmdDaemonSet Command.complaint
  split
  · simp
  · rename_i hother
    have hlen : ws.length ≠ 2 := by
      intro hlen
      obtain ⟨w, arg, rfl⟩ := List.length_eq_two.mp hlen
      exact hother w arg rfl
    simp [hlen]

lemma cmdPidSet_eq_none_iff (env : ConfEnv) (ws : List (List UInt8)) (cf : MainConf) :
    cmdPidSet env ws cf = none ↔ Command.pid.complaint env ws ≠ none := by
  unfold cmdPidSet Command.complaint
  split
  · simp
  · rename_i hother
    have hlen : ws.length ≠ 2 := by
      intro hlen
      obtain ⟨w, arg, rfl⟩ := List.length_eq_two.mp hlen
      exact hother w arg rfl
    simp [hlen]

lemma cmdNodelaySet_eq_none_iff (env : ConfEnv) (ws : List (List UInt8)) (cf : NetConf) :
    cmdNodelaySet ws cf = none ↔ Command.nodelay.complaint env ws ≠ none := by
  unfold cmdNodelaySet Command.complaint
  split
  · simp
  · rename_i hother
    have hlen : ws.length ≠ 1 := by
      intro hlen
      obtain ⟨w, rfl⟩ := List.length_eq_one_iff.mp hlen
      exact hother w rfl
    simp [hlen]

/-- `set` of a command of the module fails exactly when it complains. -/
lemma set_eq_none_iff {env : ConfEnv} {m : Mod} {cmd : Command} {ws : List (List UInt8)}
    {res : Resource} (hmem : cmd = .log ∨ cmd ∈ m.commands) (hconf : res.hasConf m = true) :
    cmd.set env m ws res = none ↔ cmd.complaint env ws ≠ none := by
  have hlog : Command.log.set env m ws res = none ↔ Command.log.complaint env ws ≠ none := by
    rw [← cmdLogSet_eq_none_iff]
    simp [Command.set]
  cases m with
  | main =>
    obtain ⟨cf, hcf⟩ := Option.isSome_iff_exists.mp hconf
    simp only [Mod.commands, List.mem_cons, List.not_mem_nil, or_false] at hmem
    rcases hmem with rfl | rfl | rfl | rfl
    · exact hlog
    · simp only [Command.set, hcf, Option.bind_some, Option.map_eq_none_iff]
      exact cmdDaemonSet_eq_none_iff env ws cf
    · simp only [Command.set, hcf, Option.bind_some, Option.map_eq_none_iff]
      exact cmdPidSet_eq_none_iff env ws cf
    · exact hlog
  | net =>
    obtain ⟨cf, hcf⟩ := Option.isSome_iff_exists.mp hconf
    simp only [Mod.commands, List.mem_cons, List.not_mem_nil, or_false] at hmem
    rcases hmem with rfl | rfl | rfl | rfl | rfl
    · exact hlog
    · simp only [Command.set, hcf, Option.bind_some, Option.map_eq_none_iff, cmdListenSet]
      exact numberArg_eq_none_iff .listen _ ws
    · simp only [Command.set, hcf, Option.bind_some, Option.map_eq_none_iff, cmdConnecionsSet]
      exact numberArg_eq_none_iff .connections _ ws
    · simp only [Command.set, hcf, Option.bind_some, Option.map_eq_none_iff]
      exact cmdNodelaySet_eq_none_iff env ws cf
    · simp only [Command.set, hcf, Option.bind_some, Option.map_eq_none_iff,
        cmdRequestBufferSizeSet]
      exact numberArg_eq_none_iff .requestBufferSize _ ws

section
variable {env : ConfEnv} {l : ConfLocals} {c : UInt8} {msgs : List ConfMessage}

lemma putKey_ne_said (l : ConfLocals) (c : UInt8) (msgs : List ConfMessage) :
    l.putKey c ≠ .error (.said msgs) := by
  unfold ConfLocals.putKey
  split_ifs
  · simp
  · simp

lemma confByteSays_error_iff {e : ConfHalt} :
    confByteSays env l c = .error e ↔ confSwitch env l c = .error e := by
  unfold confByteSays
  cases confSwitch env l c with
  | error e' => simp [Except.map]
  | ok l' => simp [Except.map]

lemma out_message (h : l.state = .out) :
    confSwitch env l c = .error (.said msgs) ↔
      (c ≠ hash ∧ isLetter c = false ∧ isBlank c = false) ∧ msgs = [.firstChar l.line] := by
  unfold confSwitch
  rw [h]
  simp only
  split_ifs with hhash hletter hblank
  · simp [hhash]
  · simp [hletter, putKey_ne_said]
  · simp [hblank]
  · simp [hhash, hletter, hblank, eq_comm]

lemma comment_message (h : l.state = .comment) : confSwitch env l c ≠ .error (.said msgs) := by
  unfold confSwitch
  rw [h]
  simp only
  split_ifs
  · simp
  · simp

/-- Where a name ends, the module may be missing. -/
lemma nameEnd_message (x o : ConfSw) (hkey : All isNameByte (l.key.toList.take l.k)) :
    (ConfLocals.endKey { l with state := x, oldState := o } >>= modNameEndSays env) =
        .error (.said msgs) ↔
      l.k < 256 ∧ Mod.named (l.key.toList.take l.k) = none ∧
        msgs = [.modNotFound (l.key.toList.take l.k) l.line] := by
  unfold ConfLocals.endKey
  by_cases hk : l.k < 256
  · have hstring : cString (l.key.set l.k NUL).toList = l.key.toList.take l.k := by
      rw [Vector.toList_set, cString_set_nul (by simpa using hk), cString_eq_self (not_nul hkey)]
    have hmod : confFileGetSysMod (l.key.set l.k NUL).toList =
        Mod.named (l.key.toList.take l.k) := by
      rw [← confFileGetSysMod_eq (not_nul hkey)]
      unfold confFileGetSysMod strcmpEq
      rw [hstring, cString_eq_self (not_nul hkey)]
    rw [dif_pos hk]
    simp only [bind, Except.bind, modNameEndSays, hmod, hk, true_and]
    cases Mod.named (l.key.toList.take l.k) with
    | none => simp [ConfLocals.name, hstring, eq_comm]
    | some m => simp
  · simp [hk, bind, Except.bind]

lemma modName_message (h : l.state = .modName) (hkey : All isNameByte (l.key.toList.take l.k)) :
    confSwitch env l c = .error (.said msgs) ↔
      isNameFollower c = false ∧ msgs = [.nameInvalid l.line] ∨
        isNameEnd c = true ∧ l.k < 256 ∧ Mod.named (l.key.toList.take l.k) = none ∧
          msgs = [.modNotFound (l.key.toList.take l.k) l.line] := by
  unfold confSwitch
  rw [h]
  simp only
  by_cases hname : isNameByte c = true
  · have hend : isNameEnd c = false := by
      by_contra hend
      simp only [isNameEnd, Bool.not_eq_false, Bool.or_eq_true, beq_iff_eq] at hend
      rcases hend with (hend | rfl) | rfl
      · rw [(blank_facts hend).2.2.2.2] at hname
        cases hname
      · revert hname
        decide
      · revert hname
        decide
    have hcls := hname
    unfold isNameByte at hcls
    rw [if_pos hcls]
    simp [putKey_ne_said, isNameFollower, hname, hend]
  · have hcls := hname
    unfold isNameByte at hcls
    rw [if_neg hcls]
    split_ifs with hblank hopen hhash
    · rw [nameEnd_message _ _ hkey]
      simp [isNameFollower, isNameEnd, hblank]
    · rw [nameEnd_message _ _ hkey]
      simp [isNameFollower, isNameEnd, hopen]
    · rw [nameEnd_message _ _ hkey]
      simp [isNameFollower, isNameEnd, hhash]
    · have hother : isNameFollower c = false := by
        simp [isNameFollower, hname, hblank, hopen, hhash]
      have hend : isNameEnd c = false := by simp [isNameEnd, hblank, hopen, hhash]
      simp only [hother, hend, Bool.false_eq_true, false_and, or_false, true_and,
        Except.error.injEq, ConfHalt.said.injEq]
      exact eq_comm

lemma modBlock_message :
    modBlockSays l c = .error (.said msgs) ↔
      (c ≠ hash ∧ isBlank c = false ∧ isLetter c = false ∧ c ≠ braceClose) ∧
        msgs = [.startChar l.line] := by
  unfold modBlockSays
  split_ifs with hhash hblank hletter hclose
  · simp [hhash]
  · simp [hblank]
  · simp [hletter, putKey_ne_said]
  · simp [hclose]
  · simp only [hhash, hblank, hletter, hclose, ne_eq, not_false_eq_true, and_self, true_and,
      Except.error.injEq, ConfHalt.said.injEq]
    exact eq_comm

lemma gap_message (h : l.state = .modNameEndBlank) :
    confSwitch env l c = .error (.said msgs) ↔
      (c ≠ braceOpen ∧ isBlank c = false) ∧ msgs = [.nameError l.name l.line] := by
  unfold confSwitch
  rw [h]
  simp only
  split_ifs with hopen hblank
  · simp [hopen]
  · rw [modBlock_message]
    simp [hblank]
  · simp [hopen, hblank, eq_comm]

/-- The call of a command that was found. -/
lemma callSet_message {m : Mod} {cmd : Command} {name : List UInt8} {args : List (List UInt8)}
    (hcmd : resolve m name = some cmd) (hargs : l.cmdArgs = name :: args)
    (hconf : l.res.hasConf m = true) :
    callSetSays env l m cmd name = .error (.said msgs) ↔
      complaints env m (name :: args) l.line = msgs ∧ msgs ≠ [] := by
  have hnone := @set_eq_none_iff env m cmd (name :: args) l.res (resolve_name hcmd).2 hconf
  unfold callSetSays complaints
  simp only [hargs, hcmd]
  cases hcomplaint : cmd.complaint env (name :: args) with
  | none =>
    rw [hcomplaint] at hnone
    cases hres : cmd.set env m (name :: args) l.res with
    | none => exact absurd (hnone.mp hres) (by simp)
    | some res => simp [eq_comm]
  | some msg =>
    rw [hcomplaint] at hnone
    rw [hnone.mpr (by simp)]
    simp only [Option.toList_some, List.singleton_append, Except.error.injEq, ConfHalt.said.injEq]
    constructor
    · rintro rfl
      simp
    · exact fun h => h.1

/-- The end of a command. -/
lemma cmdEnd_message {m : Mod} {ws : List (List UInt8)} (hm : l.mod = some m) (hws : l.cmdArgs = ws)
    (hne : ws ≠ []) (hconf : l.res.hasConf m = true) :
    cmdEndSays env l = .error (.said msgs) ↔ complaints env m ws l.line = msgs ∧ msgs ≠ [] := by
  obtain ⟨x, o, key, k, line, m', as, res⟩ := l
  simp only at hm hws hconf
  subst hm hws
  cases as with
  | nil => exact absurd rfl hne
  | cons name args =>
    unfold cmdEndSays
    simp only [confFileGetCommand_eq, confFileGetGlobalCmd_eq]
    cases hlocal : m.commands.find? (fun c => !c.isGlobal && c.name == name) with
    | some cmd =>
      have hresolve : resolve m name = some cmd := by rw [resolve, hlocal]
      exact callSet_message hresolve rfl hconf
    | none =>
      cases hglobal : Mod.main.commands.find? (fun c => c.isGlobal && c.name == name) with
      | some cmd =>
        have hresolve : resolve m name = some cmd := by
          rw [resolve, hlocal]
          exact hglobal
        exact callSet_message hresolve rfl hconf
      | none =>
        have hresolve : resolve m name = none := by
          rw [resolve, hlocal]
          exact hglobal
        simp only [complaints, hresolve, Except.error.injEq, ConfHalt.said.injEq]
        constructor
        · rintro rfl
          simp
        · exact fun h => h.1

lemma commandBlank_message {m : Mod} {ws : List (List UInt8)} (h : l.state = .commandBlank)
    (hm : l.mod = some m) (hws : l.cmdArgs = ws) (hne : ws ≠ []) (hconf : l.res.hasConf m = true) :
    confSwitch env l c = .error (.said msgs) ↔
      c = semicolon ∧ complaints env m ws l.line = msgs ∧ msgs ≠ [] := by
  unfold confSwitch
  rw [h]
  simp only
  split_ifs with hsemi hblank
  · rw [cmdEnd_message hm hws hne hconf]
    simp [hsemi]
  · simp [hsemi]
  · simp [putKey_ne_said, hsemi]

lemma command_message {m : Mod} {ws : List (List UInt8)} (h : l.state = .command)
    (hm : l.mod = some m) (hws : l.cmdArgs = ws) (hconf : l.res.hasConf m = true) :
    confSwitch env l c = .error (.said msgs) ↔
      c = semicolon ∧ l.k < 256 ∧
        complaints env m (ws ++ [l.key.toList.take l.k]) l.line = msgs ∧ msgs ≠ [] := by
  have hpush (x : ConfSw) : ConfLocals.pushArg { l with state := x } =
      if hk : l.k < 256 then .ok { l with
        state := x, key := l.key.set l.k NUL, k := 0,
        cmdArgs := ws ++ [l.key.toList.take l.k] } else .error .overflow := by
    unfold ConfLocals.pushArg ConfLocals.endKey
    by_cases hk : l.k < 256
    · simp only [dif_pos hk, Except.map, hws, Vector.toList_set,
        List.take_set_of_le (Nat.le_refl _)]
    · simp only [dif_neg hk, Except.map]
  unfold confSwitch
  rw [h]
  simp only [hpush]
  by_cases hk : l.k < 256
  · simp only [dif_pos hk]
    split_ifs with hblank hsemi
    · have hne : c ≠ semicolon := (blank_facts hblank).2.2.1
      simp [hne]
    · have hend := @cmdEnd_message env { l with
        state := .commandEnd, key := l.key.set l.k NUL, k := 0,
        cmdArgs := ws ++ [l.key.toList.take l.k] } msgs m _ hm rfl (by simp) hconf
      simp only [bind, Except.bind]
      rw [hend]
      simp [hsemi, hk]
    · simp [putKey_ne_said, hsemi]
  · simp only [dif_neg hk]
    split_ifs with hblank hsemi
    · simp [hk]
    · simp [hk, bind, Except.bind]
    · simp [putKey_ne_said, hsemi]

end

/-- The parser gets to the byte behind `pre`, when no word before it is too long. -/
lemma Reads.reach {env : ConfEnv} {pre rest : List UInt8} {c : UInt8} {res : Resource}
    {Q : Resource → ConfParse → Prop} (h : Reads env confStart pre (some res) Q)
    (hfits : ¬ FillsKey env (pre ++ c :: rest)) (key : Vector UInt8 256) :
    ∃ l, run (confByteSays env) (localsStart key) pre = .ok l ∧ Q res l.parse := by
  have hforget := forget_run env key pre
  rcases h with ⟨e, hrun, hstop⟩ | ⟨res', p', hres, hrun, hq⟩
  · rw [hstop rfl] at hrun
    refine absurd ((run_overflow_iff env _).mp ?_) hfits
    rw [run_append, hrun]
  · cases hres
    rw [hrun] at hforget
    cases hreport : run (confByteSays env) (localsStart key) pre with
    | error e =>
      rw [hreport] at hforget
      cases hforget
    | ok l =>
      rw [hreport] at hforget
      cases hforget
      exact ⟨l, rfl, hq⟩

/-- The parser reads into the gap behind a module's name. -/
lemma reads_start_gap {env : ConfEnv} {s name gap : List UInt8} {m : Mod} {res : Resource}
    (h : TextDone env s res) (hname : IsName name) (hm : Mod.named name = some m)
    (hgap : IsNameGap gap) (hne : gap ≠ []) :
    Reads env confStart (s ++ name ++ gap) (some (createConf env m res))
      (fun _ q => q.state = .modNameEndBlank ∧ q.mod = some m) := by
  obtain ⟨bs, htext, hperform⟩ := h
  have hstart := @reads_start env _ _ htext
  rw [hperform] at hstart
  have hblock : some (createConf env m res) = (some res).bind (fun res' =>
      (Mod.named name).map (fun n => createConf env n res')) := by
    rw [Option.bind_some, hm, Option.map_some]
  rw [hblock, List.append_assoc]
  refine hstart.append ?_
  rintro res' q ⟨o, m', as, rfl⟩
  refine ((reads_name hname).then (reads_gap hname.2 hgap hne)).mono ?_
  rintro _ q ⟨n, o', hn, rfl⟩
  exact ⟨rfl, hn.symm.trans hm⟩

/-- What the beginning stands for is what it gives. -/
lemma Reads.known {env : ConfEnv} {p : ConfParse} {s : List UInt8} {res : Resource}
    {Q : Resource → ConfParse → Prop} (h : Reads env p s (some res) Q) :
    Reads env p s (some res) (fun res' q => res' = res ∧ Q res q) := by
  rcases h with hstop | ⟨res', p', hres, hrun, hq⟩
  · exact Or.inl hstop
  · cases hres
    exact Or.inr ⟨res, p', rfl, hrun, rfl, hq⟩

/-- The parser reads words of a command. -/
lemma reads_start_words {env : ConfEnv} {s t : List UInt8} {ws : List (List UInt8)} {m : Mod}
    {res : Resource} (h : BlockOpen env s m res) (hwords : WordsText t ws)
    (hfirst : StartsWithLetter t) :
    Reads env confStart (s ++ t) (some res)
      (fun _ q => ∃ o, q = ⟨.commandBlank, o, [], some m, ws, res⟩) := by
  refine (reads_blockOpen h).known.extend ?_
  rintro _ q ⟨rfl, o, as, rfl⟩
  refine (Reads.first_letter hfirst (reads_words hwords [])).mono ?_
  rintro _ q rfl
  exact ⟨o, rfl⟩

/-- The parser reads words of a command, and one that has no end yet. -/
lemma reads_start_word {env : ConfEnv} {s words w : List UInt8} {ws : List (List UInt8)} {m : Mod}
    {res : Resource} (h : BlockOpen env s m res) (hwords : WordsText words ws) (hw : IsWord w)
    (hfirst : StartsWithLetter (words ++ w)) :
    Reads env confStart (s ++ (words ++ w)) (some res)
      (fun _ q => ∃ o, q = ⟨.command, o, w, some m, ws, res⟩) := by
  refine (reads_blockOpen h).known.extend ?_
  rintro _ q ⟨rfl, o, as, rfl⟩
  refine (Reads.first_letter hfirst ((reads_words hwords []).then (reads_word hw))).mono ?_
  rintro _ q rfl
  exact ⟨o, rfl⟩

/-- **Whatever the parser says, the text is at fault there.** -/
lemma said_fault {env : ConfEnv} {key : Vector UInt8 256} {pre : List UInt8} {c : UInt8}
    {l : ConfLocals} {msgs : List ConfMessage}
    (hrun : run (confByteSays env) (localsStart key) pre = .ok l)
    (hsaid : confByteSays env l c = .error (.said msgs)) : Fault env pre c msgs := by
  obtain ⟨honline, hparse⟩ := onLine_run hrun
  have hread := readTo_run hparse
  rw [confByteSays_error_iff] at hsaid
  have hline := honline.line
  generalize hp : l.parse = p at hread hparse
  have hstate := congrArg ConfParse.state hp
  have hkey := congrArg ConfParse.key hp
  have hmod := congrArg ConfParse.mod hp
  have hargs := congrArg ConfParse.cmdArgs hp
  have hres := congrArg ConfParse.res hp
  simp only [ConfLocals.parse] at hstate hkey hmod hargs hres
  cases hread with
  | out h =>
    obtain ⟨hc, rfl⟩ := (out_message hstate).mp hsaid
    rw [hline]
    exact .firstChar h hc
  | outComment h hbody => exact absurd hsaid (comment_message hstate)
  | nameComment h hname hm hbody => exact absurd hsaid (comment_message hstate)
  | blockComment h hbody => exact absurd hsaid (comment_message hstate)
  | name h hname hlen =>
    rw [modName_message hstate (by rw [hkey]; exact hname.2), hkey, hline] at hsaid
    rcases hsaid with ⟨hc, rfl⟩ | ⟨hc, -, hnone, rfl⟩
    · exact .nameInvalid h hname hc
    · exact .modNotFound h hname hnone hc
  | @gap s name gap o m as res h hname hm hgap =>
    obtain ⟨hc, rfl⟩ := (gap_message hstate).mp hsaid
    obtain ⟨m', hm', hprinted⟩ := honline.name (Or.inl hstate)
    have hsame : m' = m := Option.some.inj (hm'.symm.trans hmod)
    have hne : gap ≠ [] := by
      -- right behind the name the parser is in another state
      rintro rfl
      obtain ⟨bs, htext, hperform⟩ := h
      have hstart := @reads_start_name env s name bs htext hname
      rw [List.append_nil] at hparse
      rcases hstart with ⟨e, hother, -⟩ | ⟨-, p', -, hother, o', m₀, as', res', rfl⟩
      · rw [hother] at hparse
        cases hparse
      · rw [hother] at hparse
        cases hparse
    rw [hline, hprinted, hsame, ← Mod.named_iff.mp hm]
    exact .nameError h hname hm hgap hne hc
  | block h =>
    have hsaid' : modBlockSays l c = .error (.said msgs) := by
      unfold confSwitch at hsaid
      rwa [hstate] at hsaid
    obtain ⟨hc, rfl⟩ := modBlock_message.mp hsaid'
    rw [hline]
    exact .startChar h hc
  | @word s words w ws o m res h hwords hw hfirst hlen =>
    have hconf : l.res.hasConf m = true := by
      rw [hres]
      exact h.hasConf
    rw [command_message hstate hmod hargs hconf, hkey, hline] at hsaid
    obtain ⟨rfl, -, rfl, hne⟩ := hsaid
    have htext := hwords.command (.last hw (show All isBlank [] by simp [All]))
    rw [List.append_nil, ← List.append_assoc] at htext
    rw [List.append_assoc] at hne ⊢
    exact .command h htext hfirst hne
  | @between s words ws o m res h hwords hnonempty hfirst =>
    have hconf : l.res.hasConf m = true := by
      rw [hres]
      exact h.hasConf
    rw [commandBlank_message hstate hmod hargs hnonempty hconf, hline] at hsaid
    obtain ⟨rfl, rfl, hne⟩ := hsaid
    exact .command h (hwords.semicolon hnonempty) hfirst hne

/-- The last word of a command is followed by blanks, or by the `;` itself. -/
lemma CommandText.last_word {u : List UInt8} {ws : List (List UInt8)} (h : CommandText u ws) :
    ∃ t, u = t ++ [semicolon] ∧ (WordsText t ws ∨
      ∃ words w ws', t = words ++ w ∧ WordsText words ws' ∧ IsWord w ∧ ws = ws' ++ [w]) := by
  induction h with
  | @last w b hw hb =>
    by_cases hne : b = []
    · subst hne
      exact ⟨w, by simp, Or.inr ⟨[], w, [], rfl, .nil, hw, rfl⟩⟩
    · refine ⟨w ++ b, by simp, Or.inl ?_⟩
      have hwords := WordsText.word hw hne hb .nil
      rwa [List.append_nil] at hwords
  | @more w b s ws hw hne hb hs ih =>
    obtain ⟨t, rfl, hwords | ⟨words, v, ws', rfl, hwords, hv, rfl⟩⟩ := ih
    · exact ⟨w ++ b ++ t, by simp, Or.inl (.word hw hne hb hwords)⟩
    · exact ⟨w ++ b ++ (words ++ v), by simp, Or.inr ⟨w ++ b ++ words, v, w :: ws', by simp,
        .word hw hne hb hwords, hv, rfl⟩⟩

lemma isNameFollower_of_end {c : UInt8} (h : isNameEnd c = true) : isNameFollower c = true := by
  simp only [isNameEnd, Bool.or_eq_true] at h
  simp only [isNameFollower, Bool.or_eq_true]
  tauto

/-- A name or a word in `key` has room for its NUL, unless it is too long. -/
lemma ConfLocals.fits {l : ConfLocals} {name : List UInt8} (hkey : l.parse.key = name)
    (hlen : name.length ≠ 256) : l.k < 256 := by
  have hlen' : (l.key.toList.take l.k).length = name.length := congrArg List.length hkey
  rw [List.length_take, Vector.length_toList] at hlen'
  omega

/-- **Of a text at fault the parser says what is to be said.** -/
lemma fault_said {env : ConfEnv} {pre rest : List UInt8} {c : UInt8} {msgs : List ConfMessage}
    (h : Fault env pre c msgs) (hfits : ¬ FillsKey env (pre ++ c :: rest))
    (key : Vector UInt8 256) :
    ∃ l, run (confByteSays env) (localsStart key) pre = .ok l ∧
      confByteSays env l c = .error (.said msgs) := by
  have hstart {s : List UInt8} {res : Resource} (h : TextDone env s res) :
      Reads env confStart s (some res)
        (fun res' q => ∃ o' m' as', q = ⟨.out, o', [], m', as', res'⟩) := by
    obtain ⟨bs, htext, hperform⟩ := h
    have hreads := @reads_start env _ _ htext
    rwa [hperform] at hreads
  have hstartName {s name : List UInt8} {res : Resource} (h : TextDone env s res)
      (hname : IsName name) : Reads env confStart (s ++ name) (some res)
        (fun _ q => ∃ o m as res', q = ⟨.modName, o, name, m, as, res'⟩) := by
    obtain ⟨bs, htext, hperform⟩ := h
    have hreads := @reads_start_name env s name bs htext hname
    rwa [hperform] at hreads
  simp only [confByteSays_error_iff]
  cases h with
  | firstChar h hc =>
    obtain ⟨l, hrun, o, m, as, hparse⟩ := (hstart h).reach hfits key
    refine ⟨l, hrun, (out_message (congrArg ConfParse.state hparse)).mpr ⟨hc, ?_⟩⟩
    rw [(onLine_run hrun).1.line]
  | @nameInvalid s name _ res h hname hc =>
    obtain ⟨l, hrun, o, m, as, res', hparse⟩ := (hstartName h hname).reach hfits key
    have hkey : l.key.toList.take l.k = name := congrArg ConfParse.key hparse
    refine ⟨l, hrun, (modName_message (congrArg ConfParse.state hparse) ?_).mpr (Or.inl ⟨hc, ?_⟩)⟩
    · rw [hkey]
      exact hname.2
    · rw [(onLine_run hrun).1.line]
  | @modNotFound s name _ res h hname hm hc =>
    obtain ⟨l, hrun, o, m, as, res', hparse⟩ := (hstartName h hname).reach hfits key
    have hkey : l.key.toList.take l.k = name := congrArg ConfParse.key hparse
    have hlen : name.length ≠ 256 := by
      intro hlen
      exact hfits ⟨s, name, c, rest, rfl, hlen,
        Or.inl ⟨⟨⟨res, h⟩, hname⟩, isNameFollower_of_end hc⟩⟩
    have hroom : l.k < 256 := ConfLocals.fits hkey hlen
    refine ⟨l, hrun, (modName_message (congrArg ConfParse.state hparse) ?_).mpr
      (Or.inr ⟨hc, hroom, ?_, ?_⟩)⟩
    · rw [hkey]
      exact hname.2
    · rw [hkey]
      exact hm
    · rw [hkey, (onLine_run hrun).1.line]
  | nameError h hname hm hgap hne hc =>
    obtain ⟨l, hrun, hstate, hmod⟩ := (reads_start_gap h hname hm hgap hne).reach hfits key
    obtain ⟨m', hm', hprinted⟩ := (onLine_run hrun).1.name (Or.inl hstate)
    have hsame := Option.some.inj (hm'.symm.trans hmod)
    refine ⟨l, hrun, (gap_message hstate).mpr ⟨hc, ?_⟩⟩
    rw [(onLine_run hrun).1.line, hprinted, hsame, Mod.named_iff.mp hm]
  | startChar h hc =>
    obtain ⟨l, hrun, o, as, hparse⟩ := (reads_blockOpen h).reach hfits key
    have hstate : l.state = .modBlock := congrArg ConfParse.state hparse
    refine ⟨l, hrun, ?_⟩
    unfold confSwitch
    rw [hstate]
    exact modBlock_message.mpr ⟨hc, by rw [(onLine_run hrun).1.line]⟩
  | @command s t ws m res h ht hfirst hne =>
    obtain ⟨t', heq, hlast⟩ := ht.last_word
    obtain rfl : t = t' := List.append_cancel_right heq
    rcases hlast with hwords | ⟨words, w, ws', rfl, hwords, hw, rfl⟩
    · have hnonempty : ws ≠ [] := ht.ne_nil
      obtain ⟨l, hrun, o, hparse⟩ := (reads_start_words h hwords hfirst).reach hfits key
      have hconf : l.res.hasConf m = true := by
        rw [show l.res = res from congrArg ConfParse.res hparse]
        exact h.hasConf
      refine ⟨l, hrun, (commandBlank_message (congrArg ConfParse.state hparse)
        (congrArg ConfParse.mod hparse) (congrArg ConfParse.cmdArgs hparse) hnonempty hconf).mpr
        ⟨rfl, ?_, hne⟩⟩
      rw [(onLine_run hrun).1.line]
    · obtain ⟨l, hrun, o, hparse⟩ := (reads_start_word h hwords hw hfirst).reach hfits key
      have hconf : l.res.hasConf m = true := by
        rw [show l.res = res from congrArg ConfParse.res hparse]
        exact h.hasConf
      have hkey : l.key.toList.take l.k = w := congrArg ConfParse.key hparse
      have hlen : w.length ≠ 256 := by
        intro hlen
        exact hfits ⟨s ++ words, w, semicolon, rest, by simp, hlen,
          Or.inr ⟨s, words, ws', m, res, rfl, h, hwords, hw, hfirst⟩⟩
      refine ⟨l, hrun, (command_message (congrArg ConfParse.state hparse)
        (congrArg ConfParse.mod hparse) (congrArg ConfParse.cmdArgs hparse) hconf).mpr
        ⟨rfl, ConfLocals.fits hkey hlen, ?_, hne⟩⟩
      rw [hkey, (onLine_run hrun).1.line]

/-! ## Whole texts -/

/-- The parser does not see where one read ends and the next one starts. -/
lemma confReadSays_eq (env : ConfEnv) (l : ConfLocals) (reads : List (List UInt8))
    (hne : ∀ data ∈ reads, data ≠ []) :
    confReadSays env l (reads.map FileRead.bytes) =
      match run (confByteSays env) l reads.flatten with
      | .error e => .error e
      | .ok l => confEndSays l := by
  induction reads generalizing l with
  | nil => rfl
  | cons data reads ih =>
    rw [List.map_cons, confReadSays, if_neg (hne data (by simp)), List.flatten_cons, run_append]
    cases run (confByteSays env) l data with
    | error e => rfl
    | ok l => exact ih l (fun x hx => hne x (List.mem_cons_of_mem _ hx))

/-- What the parser says about a text that it does not stop in. -/
lemma confEndSays_said_iff {env : ConfEnv} {key : Vector UInt8 256} {text : List UInt8}
    {l : ConfLocals} (hrun : run (confByteSays env) (localsStart key) text = .ok l)
    (hfits : ¬ FillsKey env text) (msgs : List ConfMessage) :
    confEndSays l = .error (.said msgs) ↔ msgs = [.notComplete] ∧ Unfinished env text := by
  obtain ⟨-, hparse⟩ := onLine_run hrun
  have hread := readTo_run hparse
  have hdone : l.state = .out ↔ ∃ res, TextDone env text res := by
    constructor
    · intro hstate
      generalize hp : l.parse = p at hread
      have hout : p.state = .out := by
        rw [← hp]
        exact hstate
      cases hread with
      | out h => exact ⟨_, h⟩
      | _ => cases hout
    · rintro ⟨res, bs, htext, hperform⟩
      have hreads := @reads_start env _ _ htext
      rw [hperform] at hreads
      rcases hreads with ⟨e, hother, -⟩ | ⟨res', p', -, hother, o, m, as, rfl⟩
      · rw [hother] at hparse
        cases hparse
      · rw [hother] at hparse
        exact (congrArg ConfParse.state (Except.ok.inj hparse)).symm
  have hnofault : ∀ pre c rest msgs, text = pre ++ c :: rest → ¬ Fault env pre c msgs := by
    rintro pre c rest msgs rfl hfault
    obtain ⟨l', hpre, hsaid⟩ := fault_said hfault hfits key
    rw [run_append_of_ok hpre, run_cons_error hsaid] at hrun
    cases hrun
  unfold confEndSays Unfinished
  rw [← hdone]
  have hblockEnd : l.state ≠ .modBlockEnd := hread.state_ne.2.2
  by_cases hstate : l.state = .out
  · simp [hstate]
  · rw [if_neg (by tauto)]
    simp only [hstate, Except.error.injEq, ConfHalt.said.injEq, not_false_eq_true, true_and]
    exact ⟨fun heq => ⟨heq.symm, hnofault⟩, fun h => h.1.symm⟩

/-- **The messages of the parser are true, and none is missing.** For every text whose names
and words fit into `key`, in whatever pieces it is read: the parser accepts it as the one of
`ConfFile` does, and otherwise it says exactly what there is to say, about the first byte
at which the text is wrong and with the number of its line, or about the end of the text. -/
theorem conf_messages (env : ConfEnv) (key : Vector UInt8 256) (text : List UInt8)
    (reads : List (List UInt8)) (hreads : Splits text reads) (hfits : ¬ FillsKey env text) :
    (∀ res, confFileParserSays env key (reads.map FileRead.bytes) = .ok res ↔
      confFileParser env (some (reads.map FileRead.bytes)) = .ok res) ∧
      ∀ msgs, confFileParserSays env key (reads.map FileRead.bytes) = .error (.said msgs) ↔
        Diagnosis env text msgs := by
  obtain ⟨rfl, hne⟩ := hreads
  have hforget := forget_run env key reads.flatten
  unfold confFileParserSays
  rw [confReadSays_eq env _ reads hne]
  simp only [confFileParser, confRead_eq env confStart reads hne, ← hforget]
  cases hrun : run (confByteSays env) (localsStart key) reads.flatten with
  | error e =>
    refine ⟨fun res => by simp [forget_error], fun msgs => ?_⟩
    simp only [Except.error.injEq]
    have hbyte := (run_error_iff _ _ _ _).mp hrun
    constructor
    · rintro rfl
      obtain ⟨pre, c, rest, l, heq, hpre, hsaid⟩ := hbyte
      exact Or.inl ⟨pre, c, rest, heq, said_fault hpre hsaid⟩
    · rintro (⟨pre, c, rest, heq, hfault⟩ | ⟨-, -, hnofault⟩)
      · rw [heq] at hfits hrun
        obtain ⟨l, hpre, hsaid⟩ := fault_said hfault hfits key
        rw [run_append_of_ok hpre, run_cons_error hsaid] at hrun
        exact (Except.error.inj hrun).symm
      · obtain ⟨pre, c, rest, l, heq, hpre, hstop⟩ := hbyte
        cases e with
        | said msgs' => exact absurd (said_fault hpre hstop) (hnofault pre c rest msgs' heq)
        | overflow =>
          rw [hrun] at hforget
          exact absurd ((run_overflow_iff env _).mp hforget.symm) hfits
  | ok l =>
    refine ⟨fun res => ?_, fun msgs => ?_⟩
    · simp only [forget_ok, confEndSays, confEnd, ConfLocals.parse]
      split_ifs
      · simp
      · simp
    · rw [confEndSays_said_iff hrun hfits]
      constructor
      · exact Or.inr
      · rintro (⟨pre, c, rest, heq, hfault⟩ | hend)
        · rw [heq] at hfits hrun
          obtain ⟨l', hpre, hsaid⟩ := fault_said hfault hfits key
          rw [run_append_of_ok hpre, run_cons_error hsaid] at hrun
          cases hrun
        · exact hend

/-- `net{`, LF and `port 80;}`. -/
def portText : List UInt8 := [110, 101, 116, 123, 10, 112, 111, 114, 116, 32, 56, 48, 59, 125]

/-- There is no command `port`, and its `;` stands on line 2. -/
theorem conf_messages_port :
    Diagnosis ⟨[47], fun _ => true⟩ portText
      [.indexOut 1 1, .commandNotFound [112, 111, 114, 116] 2] := by
  have hfits : ¬ FillsKey ⟨[47], fun _ => true⟩ portText :=
    (run_overflow_iff _ _).not.mp (fun h => by cases h)
  exact ((conf_messages ⟨[47], fun _ => true⟩ (Vector.replicate 256 7) portText
    [portText.take 6, portText.drop 6] ⟨by decide, by decide⟩ hfits).2 _).mp rfl

end Xpipe
