import Xpipe.ConfFile

/-!
# The language of configuration files

What a configuration text is, apart from how it is read: `ConfText` derives the
blocks of a text, each a module name with its commands, each a list of words.
`perform` carries the blocks out in the order of the text. The parser accepts
exactly the texts that have a derivation whose blocks can be carried out, and
leaves behind what that gives.
-/
namespace Xpipe
open Machines

def isNameByte (c : UInt8) : Bool := isLetter c || isDigit c || c == underscore || c == hyphen

/-- The bytes of a word: all but blanks and `;`. -/
def isWordByte (c : UInt8) : Bool := !isBlank c && c != semicolon

/-- A block: the name of its module and its commands. -/
structure ConfBlock where
  name : List UInt8
  commands : List (List (List UInt8))
  deriving DecidableEq, Repr

/-! ## Texts -/

/-- `#`, bytes without LF, and LF. -/
def IsComment (s : List UInt8) : Prop := ∃ body, LF ∉ body ∧ s = hash :: body ++ [LF]

def StartsWithLetter (s : List UInt8) : Prop := ∃ c cs, s = c :: cs ∧ isLetter c = true

/-- A letter, then letters, digits, `_` and `-`. -/
def IsName (s : List UInt8) : Prop := StartsWithLetter s ∧ All isNameByte s

def IsWord (w : List UInt8) : Prop := w ≠ [] ∧ All isWordByte w

/-- What may stand between a name and its `{`: blanks, or one comment and blanks. -/
def IsNameGap (s : List UInt8) : Prop :=
  All isBlank s ∨ ∃ k b, IsComment k ∧ All isBlank b ∧ s = k ++ b

/-- Words with blanks between them, up to and including the `;`. -/
inductive CommandText : List UInt8 → List (List UInt8) → Prop
  | last {w b : List UInt8} (hw : IsWord w) (hb : All isBlank b) :
    CommandText (w ++ b ++ [semicolon]) [w]
  | more {w b s : List UInt8} {ws : List (List UInt8)} (hw : IsWord w) (hne : b ≠ [])
    (hb : All isBlank b) (hs : CommandText s ws) : CommandText (w ++ b ++ s) (w :: ws)

/-- The inside of a block, up to and including the `}`. -/
inductive BlockText : List UInt8 → List (List (List UInt8)) → Prop
  | close : BlockText [braceClose] []
  | blank {c : UInt8} {s : List UInt8} {cs : List (List (List UInt8))} (hc : isBlank c = true)
    (hs : BlockText s cs) : BlockText (c :: s) cs
  | comment {k s : List UInt8} {cs : List (List (List UInt8))} (hk : IsComment k)
    (hs : BlockText s cs) : BlockText (k ++ s) cs
  | command {t s : List UInt8} {ws : List (List UInt8)} {cs : List (List (List UInt8))}
    (ht : CommandText t ws) (hfirst : StartsWithLetter t) (hs : BlockText s cs) :
    BlockText (t ++ s) (ws :: cs)

/-- A configuration text and its blocks. -/
inductive ConfText : List UInt8 → List ConfBlock → Prop
  | nil : ConfText [] []
  | blank {c : UInt8} {s : List UInt8} {bs : List ConfBlock} (hc : isBlank c = true)
    (hs : ConfText s bs) : ConfText (c :: s) bs
  | comment {k s : List UInt8} {bs : List ConfBlock} (hk : IsComment k) (hs : ConfText s bs) :
    ConfText (k ++ s) bs
  | block {name gap body s : List UInt8} {cs : List (List (List UInt8))} {bs : List ConfBlock}
    (hname : IsName name) (hgap : IsNameGap gap) (hbody : BlockText body cs)
    (hs : ConfText s bs) : ConfText (name ++ gap ++ braceOpen :: body ++ s) (⟨name, cs⟩ :: bs)

/-- Every word of a command fits in the parser's buffer. -/
def ShortWords (ws : List (List UInt8)) : Prop := ∀ w ∈ ws, w.length ≤ 255

/-- The name of a block and all words in it have at most 255 bytes. -/
def ConfBlock.Short (b : ConfBlock) : Prop :=
  b.name.length ≤ 255 ∧ ∀ ws ∈ b.commands, ShortWords ws

/-! ## What a text means -/

/-- The module with a given name. -/
def Mod.named (name : List UInt8) : Option Mod := sysModules.find? (fun m => m.name == name)

/-- The local command of the module with that name, or else the global one. -/
def resolve (m : Mod) (name : List UInt8) : Option Command :=
  match m.commands.find? (fun c => !c.isGlobal && c.name == name) with
  | some c => some c
  | none => Mod.main.commands.find? (fun c => c.isGlobal && c.name == name)

def performCommand (env : ConfEnv) (m : Mod) (res : Resource) (ws : List (List UInt8)) :
    Option Resource :=
  match ws with
  | [] => none
  | name :: _ => (resolve m name).bind (fun cmd => cmd.set env m ws res)

def performBlock (env : ConfEnv) (res : Resource) (b : ConfBlock) : Option Resource :=
  (Mod.named b.name).bind (fun m => b.commands.foldlM (performCommand env m) (createConf env m res))

/-- The blocks are carried out one after the other. -/
def perform (env : ConfEnv) (res : Resource) (bs : List ConfBlock) : Option Resource :=
  bs.foldlM (performBlock env) res

/-- The calls that a command stands for. -/
def commandCalls (m : Mod) (ws : List (List UInt8)) : List Call :=
  match (ws.head?).bind (resolve m) with
  | none => []
  | some cmd => [.set m cmd ws]

/-- The calls that a block stands for. -/
def ConfBlock.calls (b : ConfBlock) : List Call :=
  match Mod.named b.name with
  | none => []
  | some m => .createConf m :: b.commands.flatMap (commandCalls m)

lemma set_calls {env : ConfEnv} {m : Mod} {cmd : Command} {ws : List (List UInt8)}
    {res res' : Resource} (h : cmd.set env m ws res = some res') :
    res'.calls = res.calls ++ [.set m cmd ws] := by
  unfold Command.set at h
  cases cmd
  all_goals
    simp only [Option.map_eq_some_iff] at h
    obtain ⟨cf, -, rfl⟩ := h
    rfl

lemma performCommand_calls {env : ConfEnv} {m : Mod} {res res' : Resource}
    {ws : List (List UInt8)} (h : performCommand env m res ws = some res') :
    res'.calls = res.calls ++ commandCalls m ws := by
  unfold performCommand at h
  split at h
  · cases h
  rename_i name ws'
  cases hcmd : resolve m name with
  | none => simp [hcmd] at h
  | some cmd =>
    rw [hcmd, Option.bind_some] at h
    rw [set_calls h]
    simp [commandCalls, hcmd]

lemma foldlM_calls {env : ConfEnv} {m : Mod} {cs : List (List (List UInt8))} {res res' : Resource}
    (h : cs.foldlM (performCommand env m) res = some res') :
    res'.calls = res.calls ++ cs.flatMap (commandCalls m) := by
  induction cs generalizing res with
  | nil =>
    cases h
    simp
  | cons ws cs ih =>
    rw [List.foldlM_cons] at h
    obtain ⟨res₁, hws, hcs⟩ := Option.bind_eq_some_iff.mp h
    rw [ih hcs, performCommand_calls hws, List.append_assoc, List.flatMap_cons]

lemma performBlock_calls {env : ConfEnv} {res res' : Resource} {b : ConfBlock}
    (h : performBlock env res b = some res') : res'.calls = res.calls ++ b.calls := by
  unfold performBlock at h
  obtain ⟨m, hm, hcs⟩ := Option.bind_eq_some_iff.mp h
  have hcreate : (createConf env m res).calls = res.calls ++ [.createConf m] := by
    cases m <;> rfl
  rw [foldlM_calls hcs, hcreate, ConfBlock.calls, hm, List.append_assoc]
  rfl

/-- **The calls are those of the text**, in its order. -/
lemma perform_calls {env : ConfEnv} {bs : List ConfBlock} {res res' : Resource}
    (h : perform env res bs = some res') : res'.calls = res.calls ++ bs.flatMap ConfBlock.calls := by
  unfold perform at h
  induction bs generalizing res with
  | nil =>
    cases h
    simp
  | cons b bs ih =>
    rw [List.foldlM_cons] at h
    obtain ⟨res₁, hb, hbs⟩ := Option.bind_eq_some_iff.mp h
    rw [ih hbs, performBlock_calls hb, List.append_assoc, List.flatMap_cons]

end Xpipe
