import Xpipe.ConfParsing

/-!
# Places in a configuration text

The beginning of a text that ends between two blocks, between two commands or
between two words, and what the parser has done when it gets there: it has carried
out all that the beginning says, or a word on the way did not fit into its buffer.
-/
namespace Xpipe
open Machines

/-- The inside of a block, up to a place between two commands. -/
inductive BodyText : List UInt8 → List (List (List UInt8)) → Prop
  | nil : BodyText [] []
  | blank {c : UInt8} {s : List UInt8} {cs : List (List (List UInt8))} (hc : isBlank c = true)
    (hs : BodyText s cs) : BodyText (c :: s) cs
  | comment {k s : List UInt8} {cs : List (List (List UInt8))} (hk : IsComment k)
    (hs : BodyText s cs) : BodyText (k ++ s) cs
  | command {t s : List UInt8} {ws : List (List UInt8)} {cs : List (List (List UInt8))}
    (ht : CommandText t ws) (hfirst : StartsWithLetter t) (hs : BodyText s cs) :
    BodyText (t ++ s) (ws :: cs)

/-- The words of a command up to a place between two of them, each with the blanks
behind it. -/
inductive WordsText : List UInt8 → List (List UInt8) → Prop
  | nil : WordsText [] []
  | word {w b s : List UInt8} {ws : List (List UInt8)} (hw : IsWord w) (hne : b ≠ [])
    (hb : All isBlank b) (hs : WordsText s ws) : WordsText (w ++ b ++ s) (w :: ws)

/-- `s` is a text; carrying out its blocks gives `res`. -/
def TextDone (env : ConfEnv) (s : List UInt8) (res : Resource) : Prop :=
  ∃ bs, ConfText s bs ∧ perform env emptyResource bs = some res

/-- `s` ends in a block of the module `m`, between two commands; carrying out all
that `s` says gives `res`. -/
def BlockOpen (env : ConfEnv) (s : List UInt8) (m : Mod) (res : Resource) : Prop :=
  ∃ before name gap body cs res₀, s = before ++ name ++ gap ++ braceOpen :: body ∧
    TextDone env before res₀ ∧ IsName name ∧ IsNameGap gap ∧ Mod.named name = some m ∧
    BodyText body cs ∧ cs.foldlM (performCommand env m) (createConf env m res₀) = some res

/-! ## Beginnings put together -/

lemma ConfText.append {s t : List UInt8} {bs bs' : List ConfBlock} (h : ConfText s bs)
    (h' : ConfText t bs') : ConfText (s ++ t) (bs ++ bs') := by
  induction h with
  | nil => exact h'
  | blank hc hs ih => exact .blank hc ih
  | comment hk hs ih =>
    rw [List.append_assoc]
    exact .comment hk ih
  | block hname hgap hbody hs ih =>
    rw [List.append_assoc]
    exact .block hname hgap hbody ih

lemma BodyText.append {s t : List UInt8} {cs cs' : List (List (List UInt8))} (h : BodyText s cs)
    (h' : BodyText t cs') : BodyText (s ++ t) (cs ++ cs') := by
  induction h with
  | nil => exact h'
  | blank hc hs ih => exact .blank hc ih
  | comment hk hs ih =>
    rw [List.append_assoc]
    exact .comment hk ih
  | command ht hfirst hs ih =>
    rw [List.append_assoc]
    exact .command ht hfirst ih

lemma WordsText.append {s t : List UInt8} {ws ws' : List (List UInt8)} (h : WordsText s ws)
    (h' : WordsText t ws') : WordsText (s ++ t) (ws ++ ws') := by
  induction h with
  | nil => exact h'
  | word hw hne hb hs ih =>
    rw [List.append_assoc]
    exact .word hw hne hb ih

/-- Words and then a command are a command. -/
lemma WordsText.command {s t : List UInt8} {ws ws' : List (List UInt8)} (h : WordsText s ws)
    (h' : CommandText t ws') : CommandText (s ++ t) (ws ++ ws') := by
  induction h with
  | nil => exact h'
  | word hw hne hb hs ih =>
    rw [List.append_assoc]
    exact .more hw hne hb ih

/-- A `;` behind words ends the command. -/
lemma WordsText.semicolon {s : List UInt8} {ws : List (List UInt8)} (h : WordsText s ws)
    (hne : ws ≠ []) : CommandText (s ++ [Xpipe.semicolon]) ws := by
  induction h with
  | nil => exact absurd rfl hne
  | @word w b s ws hw hb' hb hs ih =>
    cases hs with
    | nil => simpa using CommandText.last hw hb
    | word hw' hne' hb'' hs' =>
      rw [List.append_assoc]
      exact .more hw hb' hb (ih (by simp))

/-- A blank more behind words. -/
lemma WordsText.blank {s : List UInt8} {ws : List (List UInt8)} {c : UInt8} (h : WordsText s ws)
    (hne : ws ≠ []) (hc : isBlank c = true) : WordsText (s ++ [c]) ws := by
  induction h with
  | nil => exact absurd rfl hne
  | @word w b s ws hw hb' hb hs ih =>
    cases hs with
    | nil =>
      rw [List.append_nil, List.append_assoc]
      have hword := WordsText.word hw (by simp) (hb.snoc hc) .nil
      simpa using hword
    | word hw' hne' hb'' hs' =>
      rw [List.append_assoc]
      exact .word hw hb' hb (ih (by simp))

/-- The inside of a block is what stands in front of its `}`. -/
lemma blockText_iff {s : List UInt8} {cs : List (List (List UInt8))} :
    BlockText s cs ↔ ∃ b, s = b ++ [braceClose] ∧ BodyText b cs := by
  constructor
  · intro h
    induction h with
    | close => exact ⟨[], rfl, .nil⟩
    | @blank c s cs hc hs ih =>
      obtain ⟨b, rfl, hb⟩ := ih
      exact ⟨c :: b, rfl, .blank hc hb⟩
    | @comment k s cs hk hs ih =>
      obtain ⟨b, rfl, hb⟩ := ih
      exact ⟨k ++ b, by simp, .comment hk hb⟩
    | @command t s ws cs ht hfirst hs ih =>
      obtain ⟨b, rfl, hb⟩ := ih
      exact ⟨t ++ b, by simp, .command ht hfirst hb⟩
  · rintro ⟨b, rfl, hb⟩
    induction hb with
    | nil => exact .close
    | blank hc hs ih => exact .blank hc ih
    | comment hk hs ih =>
      rw [List.append_assoc]
      exact .comment hk ih
    | command ht hfirst hs ih =>
      rw [List.append_assoc]
      exact .command ht hfirst ih

/-! ## Reading a beginning -/

/-- The parser reads `s`, which stands for `r`: it reaches a state that `Q` relates
to what `r` gives, or stops; when `r` gives something, only an overflow stops it. -/
def Reads (env : ConfEnv) (p : ConfParse) (s : List UInt8) (r : Option Resource)
    (Q : Resource → ConfParse → Prop) : Prop :=
  (∃ e, run (confByte env) p s = .error e ∧ (r.isSome = true → e = .overflow)) ∨
    ∃ res p', r = some res ∧ run (confByte env) p s = .ok p' ∧ Q res p'

section
variable {env : ConfEnv} {p p' : ConfParse} {s t : List UInt8} {r : Option Resource}
  {res : Resource} {Q Q' : Resource → ConfParse → Prop}

lemma Reads.of_ok (h : run (confByte env) p s = .ok p') (hq : Q res p') :
    Reads env p s (some res) Q := Or.inr ⟨res, p', rfl, h, hq⟩

lemma Reads.of_overflow (h : run (confByte env) p s = .error .overflow) : Reads env p s r Q :=
  Or.inl ⟨.overflow, h, fun _ => rfl⟩

lemma Reads.of_error (h : run (confByte env) p s = .error .error) : Reads env p s none Q :=
  Or.inl ⟨.error, h, fun hsome => by cases hsome⟩

/-- **A beginning after another one.** -/
lemma Reads.append {f : Resource → Option Resource} (h : Reads env p s r Q)
    (h' : ∀ res p', Q res p' → Reads env p' t (f res) Q') :
    Reads env p (s ++ t) (r.bind f) Q' := by
  rcases h with ⟨e, hrun, hstop⟩ | ⟨res, p', rfl, hrun, hq⟩
  · refine Or.inl ⟨e, by rw [run_append, hrun], fun hsome => hstop ?_⟩
    cases r with
    | none => cases hsome
    | some res => rfl
  · rw [Option.bind_some]
    rcases h' res p' hq with ⟨e, hrun', hstop⟩ | ⟨res', q, hr, hrun', hq'⟩
    · exact Or.inl ⟨e, by rw [run_append_of_ok hrun, hrun'], hstop⟩
    · exact Or.inr ⟨res', q, hr, by rw [run_append_of_ok hrun, hrun'], hq'⟩

/-- A beginning that stands for nothing, and one after it. -/
lemma Reads.then {q : ConfParse} (h : Reads env p s (some res) (fun _ p' => p' = q))
    (h' : Reads env q t r Q') : Reads env p (s ++ t) r Q' :=
  h.append (f := fun _ => r) (fun _ p' hp => by rw [hp]; exact h')

/-- A beginning, and one after it that stands for nothing. -/
lemma Reads.extend (h : Reads env p s r Q)
    (h' : ∀ res p', Q res p' → Reads env p' t (some res) Q') : Reads env p (s ++ t) r Q' := by
  have happend := h.append (f := some) h'
  rwa [Option.bind_fun_some] at happend

/-- A single byte in front. -/
lemma Reads.step {c : UInt8} {q : ConfParse} (h : confByte env p c = .ok q)
    (h' : Reads env q s r Q) : Reads env p (c :: s) r Q := by
  unfold Reads at h' ⊢
  rw [run_cons_ok h]
  exact h'

lemma Reads.mono (h : Reads env p s r Q) (hq : ∀ res p', Q res p' → Q' res p') :
    Reads env p s r Q' := by
  rcases h with hstop | ⟨res, p', hr, hrun, h⟩
  · exact Or.inl hstop
  · exact Or.inr ⟨res, p', hr, hrun, hq res p' h⟩

/-- In a run that is accepted, nothing stops the parser. -/
lemma Reads.of_accepted {u : ConfParse} (h : Reads env p s r Q)
    (hrun : run (confByte env) p (s ++ t) = .ok u) :
    ∃ res p', r = some res ∧ run (confByte env) p s = .ok p' ∧ Q res p' := by
  rcases h with ⟨e, hstop, -⟩ | hreach
  · rw [run_append, hstop] at hrun
    cases hrun
  · exact hreach

end

section
variable {env : ConfEnv} {o : ConfSw} {m : Option Mod} {as : List (List UInt8)} {res : Resource}

/-- Bytes that go into `key`. -/
lemma reads_keys {p : ConfParse} {cls : UInt8 → Bool}
    (hput : ∀ key c, cls c = true →
      confByte env { p with key := key } c = ConfParse.putKey { p with key := key } c)
    {w : List UInt8} (hw : All cls w) (key : List UInt8) :
    Reads env { p with key := key } w (some p.res) (fun _ q => q = { p with key := key ++ w }) := by
  induction w generalizing key with
  | nil => exact .of_ok rfl (by simp)
  | cons c w ih =>
    have hbyte := hput key c (hw c (by simp))
    unfold ConfParse.putKey at hbyte
    split_ifs at hbyte with hfull
    · have hrest := ih (fun d hd => hw d (List.mem_cons_of_mem _ hd)) (key ++ [c])
      rw [List.append_assoc, List.singleton_append] at hrest
      exact hrest.step hbyte
    · exact .of_overflow (run_cons_error hbyte w)

/-! ## Commands -/

/-- A word, from the gap in front of it. -/
lemma reads_word {w : List UInt8} (hw : IsWord w) :
    Reads env ⟨.commandBlank, o, [], m, as, res⟩ w (some res)
      (fun _ q => q = ⟨.command, o, w, m, as, res⟩) := by
  obtain ⟨hne, hall⟩ := hw
  cases w with
  | nil => exact absurd rfl hne
  | cons c w =>
    have hfirst : confByte env ⟨.commandBlank, o, [], m, as, res⟩ c =
        .ok ⟨.command, o, [c], m, as, res⟩ := by
      obtain ⟨hblank, hsemi⟩ := wordByte_facts (hall c (by simp))
      simp [confByte, hblank, hsemi, ConfParse.putKey]
    refine Reads.step hfirst ?_
    refine @reads_keys env ⟨.command, o, [], m, as, res⟩ isWordByte (fun key d hd => ?_) w
      (fun d hd => hall d (List.mem_cons_of_mem _ hd)) [c]
    obtain ⟨hblank, hsemi⟩ := wordByte_facts hd
    simp [confByte, hblank, hsemi]

/-- The blanks behind a word. -/
lemma reads_word_gap {key b : List UInt8} (hne : b ≠ []) (hb : All isBlank b) :
    Reads env ⟨.command, o, key, m, as, res⟩ b (some res)
      (fun _ q => q = ⟨.commandBlank, o, [], m, as ++ [key], res⟩) := by
  cases b with
  | nil => exact absurd rfl hne
  | cons d b =>
    have hd := hb d (by simp)
    have hgap : run (confByte env) ⟨.commandBlank, o, [], m, as ++ [key], res⟩ b =
        .ok ⟨.commandBlank, o, [], m, as ++ [key], res⟩ := by
      have hskip := @run_word_gap env o m (as ++ [key]) res b
        (fun x hx => hb x (List.mem_cons_of_mem _ hx)) []
      rw [List.append_nil] at hskip
      exact hskip
    by_cases hlen : key.length < 256
    · refine Reads.step ?_ (.of_ok hgap rfl)
      simp [confByte, hd, ConfParse.pushArg, ConfParse.endKey, hlen, Except.map]
    · refine .of_overflow (run_cons_error ?_ b)
      simp [confByte, hd, ConfParse.pushArg, ConfParse.endKey, hlen, Except.map]

/-- **The parser reads words.** -/
lemma reads_words {s : List UInt8} {ws : List (List UInt8)} (h : WordsText s ws)
    (as : List (List UInt8)) :
    Reads env ⟨.commandBlank, o, [], m, as, res⟩ s (some res)
      (fun _ q => q = ⟨.commandBlank, o, [], m, as ++ ws, res⟩) := by
  induction h generalizing as with
  | nil => exact .of_ok rfl (by simp)
  | @word w b s ws hw hne hb hs ih =>
    have hrest := ih (as ++ [w])
    rw [List.append_assoc, List.singleton_append] at hrest
    exact ((reads_word hw).then (reads_word_gap hne hb)).then hrest

/-- The end of a command whose words have been read. -/
lemma reads_cmdEnd {p : ConfParse} {m : Mod} (x : ConfSw) {ws : List (List UInt8)} (hne : ws ≠ [])
    (hbyte : confByte env p semicolon = cmdEnd env ⟨x, o, [], some m, ws, res⟩) :
    Reads env p [semicolon] (performCommand env m res ws)
      (fun res' q => q = ⟨.modBlock, o, [], some m, ws, res'⟩) := by
  rw [cmdEnd_eq env x o [] m hne] at hbyte
  cases hperform : performCommand env m res ws with
  | none =>
    rw [hperform] at hbyte
    exact .of_error (run_cons_error hbyte [])
  | some res' =>
    rw [hperform] at hbyte
    exact .of_ok (run_cons_ok hbyte []) rfl

/-- The `;` behind a word, with or without blanks between them. -/
lemma reads_last {key b : List UInt8} {m : Mod} (hb : All isBlank b) :
    Reads env ⟨.command, o, key, some m, as, res⟩ (b ++ [semicolon])
      (performCommand env m res (as ++ [key]))
      (fun res' q => q = ⟨.modBlock, o, [], some m, as ++ [key], res'⟩) := by
  cases b with
  | nil =>
    by_cases hlen : key.length < 256
    · refine reads_cmdEnd .commandEnd (by simp) ?_
      have hsemi : isBlank semicolon = false := by decide
      simp [confByte, hsemi, ConfParse.pushArg, ConfParse.endKey, hlen, Except.map, bind,
        Except.bind]
    · refine .of_overflow (run_cons_error ?_ [])
      have hsemi : isBlank semicolon = false := by decide
      simp [confByte, hsemi, ConfParse.pushArg, ConfParse.endKey, hlen, Except.map, bind,
        Except.bind]
  | cons d b => exact (reads_word_gap (by simp) hb).then (reads_cmdEnd .commandBlank (by simp) rfl)

/-- **The parser reads a command.** -/
lemma reads_command {t : List UInt8} {ws : List (List UInt8)} {m : Mod} (h : CommandText t ws)
    (as : List (List UInt8)) :
    Reads env ⟨.commandBlank, o, [], some m, as, res⟩ t (performCommand env m res (as ++ ws))
      (fun res' q => q = ⟨.modBlock, o, [], some m, as ++ ws, res'⟩) := by
  induction h generalizing as with
  | last hw hb =>
    rw [List.append_assoc]
    exact (reads_word hw).then (reads_last hb)
  | @more w b s ws hw hne hb hs ih =>
    have hrest := ih (as ++ [w])
    rw [List.append_assoc, List.singleton_append] at hrest
    exact ((reads_word hw).then (reads_word_gap hne hb)).then hrest

/-- The first letter of a command is the first byte of its first word. -/
lemma run_first_letter {m : Mod} {t : List UInt8} (h : StartsWithLetter t) :
    run (confByte env) ⟨.modBlock, o, [], some m, as, res⟩ t =
      run (confByte env) ⟨.commandBlank, o, [], some m, [], res⟩ t := by
  obtain ⟨c, t, rfl, hc⟩ := h
  rw [run_cons_ok ((modBlock_byte m as c).2.2.1 hc),
    (@run_behind_gap env o (some m) [] res c t confStart).1 (letter_facts hc).2.2.2]

lemma Reads.first_letter {m : Mod} {t : List UInt8} {r : Option Resource}
    {Q : Resource → ConfParse → Prop} (hfirst : StartsWithLetter t)
    (h : Reads env ⟨.commandBlank, o, [], some m, [], res⟩ t r Q) :
    Reads env ⟨.modBlock, o, [], some m, as, res⟩ t r Q := by
  unfold Reads at h ⊢
  rw [run_first_letter hfirst]
  exact h

/-! ## Blocks -/

/-- A comment that starts in a state whose `#` leads to it. -/
lemma Reads.comment {p : ConfParse} {k s : List UInt8} {r : Option Resource}
    {Q : Resource → ConfParse → Prop} (hk : IsComment k)
    (hbyte : confByte env p hash = .ok ⟨.comment, o, [], m, as, res⟩)
    (h : Reads env ⟨o, o, [], m, as, res⟩ s r Q) : Reads env p (k ++ s) r Q := by
  obtain ⟨body, hbody, heq⟩ := hk.append s
  rw [heq]
  refine Reads.step hbyte ?_
  unfold Reads at h ⊢
  rw [run_comment hbody]
  exact h

/-- **The parser reads the inside of a block**, up to a place between two commands. -/
lemma reads_body {s : List UInt8} {cs : List (List (List UInt8))} {m : Mod} (h : BodyText s cs)
    (o : ConfSw) (as : List (List UInt8)) (res : Resource) :
    Reads env ⟨.modBlock, o, [], some m, as, res⟩ s (cs.foldlM (performCommand env m) res)
      (fun res' q => ∃ o' as', q = ⟨.modBlock, o', [], some m, as', res'⟩) := by
  induction h generalizing o as res with
  | nil => exact .of_ok rfl ⟨o, as, rfl⟩
  | blank hc hs ih => exact (ih o as res).step ((modBlock_byte m as _).2.1 hc)
  | comment hk hs ih => exact (ih .modBlock as res).comment hk ((modBlock_byte m as _).1 rfl)
  | @command t s ws cs ht hfirst hs ih =>
    rw [List.foldlM_cons]
    refine ((reads_command ht []).first_letter hfirst).append ?_
    rintro res' q rfl
    exact ih o ws res'

/-- A byte behind a name, which goes to the state `x`. -/
lemma reads_name_end {key : List UInt8} {c : UInt8} (hkey : All isNameByte key) (x o' : ConfSw)
    (hbyte : confByte env ⟨.modName, o, key, m, as, res⟩ c =
      ConfParse.endKey ⟨x, o', key, m, as, res⟩ >>= modNameEnd env) :
    Reads env ⟨.modName, o, key, m, as, res⟩ [c]
      ((Mod.named key).map (fun n => createConf env n res))
      (fun res' q => ∃ n, Mod.named key = some n ∧ q = ⟨x, o', [], some n, as, res'⟩) := by
  unfold ConfParse.endKey at hbyte
  split_ifs at hbyte with hlen
  · simp only [bind, Except.bind, modNameEnd, confFileGetSysMod_eq (not_nul hkey)] at hbyte
    cases hn : Mod.named key with
    | none =>
      rw [hn] at hbyte
      exact .of_error (run_cons_error hbyte [])
    | some n =>
      rw [hn] at hbyte
      exact .of_ok (run_cons_ok hbyte []) ⟨n, rfl, rfl⟩
  · exact .of_overflow (run_cons_error hbyte [])

/-- **The parser reads a gap behind a name**, which is not empty. -/
lemma reads_gap {key gap : List UInt8} (hkey : All isNameByte key) (hgap : IsNameGap gap)
    (hne : gap ≠ []) :
    Reads env ⟨.modName, o, key, m, as, res⟩ gap
      ((Mod.named key).map (fun n => createConf env n res))
      (fun res' q => ∃ n o', Mod.named key = some n ∧
        q = ⟨.modNameEndBlank, o', [], some n, as, res'⟩) := by
  have hbyte := @modName_byte env o m as res key
  have hblanks {b : List UInt8} (hb : All isBlank b) (o : ConfSw) (n : Mod) (res : Resource) :
      run (confByte env) ⟨.modNameEndBlank, o, [], some n, as, res⟩ b =
        .ok ⟨.modNameEndBlank, o, [], some n, as, res⟩ := by
    have hskip := @run_name_blanks env o as res b hb n []
    rwa [List.append_nil] at hskip
  rcases hgap with hb | ⟨k, b, ⟨body, hbody, rfl⟩, hb, rfl⟩
  · cases gap with
    | nil => exact absurd rfl hne
    | cons c b =>
      refine (reads_name_end hkey _ _ ((hbyte c).1 (hb c (by simp)))).extend (t := b) ?_
      rintro res' q ⟨n, hn, rfl⟩
      exact .of_ok (hblanks (fun x hx => hb x (List.mem_cons_of_mem _ hx)) o n res') ⟨n, o, hn, rfl⟩
  · rw [List.cons_append, List.cons_append, ← List.singleton_append, List.append_assoc,
      List.singleton_append]
    refine (reads_name_end hkey _ _ ((hbyte hash).2.2 rfl)).extend (t := body ++ LF :: b) ?_
    rintro res' q ⟨n, hn, rfl⟩
    refine .of_ok ?_ ⟨n, .modNameEndBlank, hn, rfl⟩
    rw [run_comment hbody]
    exact hblanks hb _ n res'

/-- The parser reads a gap, empty or not, and the `{` behind it. -/
lemma reads_gap_open {key gap : List UInt8} (hkey : All isNameByte key) (hgap : IsNameGap gap) :
    Reads env ⟨.modName, o, key, m, as, res⟩ (gap ++ [braceOpen])
      ((Mod.named key).map (fun n => createConf env n res))
      (fun res' q => ∃ n o', Mod.named key = some n ∧
        q = ⟨.modBlock, o', [], some n, as, res'⟩) := by
  by_cases hne : gap = []
  · subst hne
    refine (reads_name_end hkey _ _ ((modName_byte key braceOpen).2.1 rfl)).mono ?_
    rintro res' q ⟨n, hn, rfl⟩
    exact ⟨n, o, hn, rfl⟩
  · refine (reads_gap hkey hgap hne).extend ?_
    rintro res' q ⟨n, o', hn, rfl⟩
    exact .of_ok rfl ⟨n, o', hn, rfl⟩

/-! ## Texts -/

lemma reads_name {name : List UInt8} (h : IsName name) :
    Reads env ⟨.out, o, [], m, as, res⟩ name (some res)
      (fun _ q => q = ⟨.modName, o, name, m, as, res⟩) := by
  obtain ⟨⟨c, w, rfl, hc⟩, hall⟩ := h
  refine Reads.step ((out_byte c).2.2 hc) ?_
  refine @reads_keys env ⟨.modName, o, [], m, as, res⟩ isNameByte (fun key d hd => ?_) w
    (fun d hd => hall d (List.mem_cons_of_mem _ hd)) [c]
  simp only [confByte, isNameByte] at hd ⊢
  rw [if_pos hd]

/-- **The parser reads a block**, up to a place between two of its commands. -/
lemma reads_open {name gap body : List UInt8} {cs : List (List (List UInt8))} (hname : IsName name)
    (hgap : IsNameGap gap) (hbody : BodyText body cs) (o : ConfSw) (m : Option Mod)
    (as : List (List UInt8)) (res : Resource) :
    Reads env ⟨.out, o, [], m, as, res⟩ (name ++ gap ++ braceOpen :: body)
      (performBlock env res ⟨name, cs⟩)
      (fun res' q => ∃ n o' as', Mod.named name = some n ∧
        q = ⟨.modBlock, o', [], some n, as', res'⟩) := by
  have hblock : performBlock env res ⟨name, cs⟩ =
      ((Mod.named name).map (fun n => createConf env n res)).bind (fun res' =>
        (Mod.named name).bind (fun n => cs.foldlM (performCommand env n) res')) := by
    unfold performBlock
    cases Mod.named name with
    | none => rfl
    | some n => rfl
  rw [hblock, show name ++ gap ++ braceOpen :: body = name ++ (gap ++ [braceOpen]) ++ body by simp]
  refine ((reads_name hname).then (reads_gap_open hname.2 hgap)).append ?_
  rintro res' q ⟨n, o', hn, rfl⟩
  rw [hn, Option.bind_some]
  refine (reads_body hbody o' as res').mono ?_
  rintro res'' q ⟨o'', as', rfl⟩
  exact ⟨n, o'', as', rfl, rfl⟩

/-- **The parser reads a text.** -/
lemma reads_text {s : List UInt8} {bs : List ConfBlock} (h : ConfText s bs) (o : ConfSw)
    (m : Option Mod) (as : List (List UInt8)) (res : Resource) :
    Reads env ⟨.out, o, [], m, as, res⟩ s (perform env res bs)
      (fun res' q => ∃ o' m' as', q = ⟨.out, o', [], m', as', res'⟩) := by
  induction h generalizing o m as res with
  | nil => exact .of_ok rfl ⟨o, m, as, rfl⟩
  | blank hc hs ih => exact (ih o m as res).step ((out_byte _).2.1 hc)
  | comment hk hs ih => exact (ih .out m as res).comment hk ((out_byte _).1 rfl)
  | @block name gap body s cs bs hname hgap hbody hs ih =>
    obtain ⟨b, rfl, hb⟩ := blockText_iff.mp hbody
    unfold perform
    rw [List.foldlM_cons, show name ++ gap ++ braceOpen :: (b ++ [braceClose]) ++ s =
      (name ++ gap ++ braceOpen :: b) ++ braceClose :: s by simp]
    refine (reads_open hname hgap hb o m as res).append ?_
    rintro res' q ⟨n, o', as', -, rfl⟩
    exact (ih o' (some n) as' res').step ((modBlock_byte n as' braceClose).2.2.2 rfl)

/-- The parser reads a text from the start. -/
lemma reads_start {s : List UInt8} {bs : List ConfBlock} (h : ConfText s bs) :
    Reads env confStart s (perform env emptyResource bs)
      (fun res' q => ∃ o' m' as', q = ⟨.out, o', [], m', as', res'⟩) :=
  reads_text h .out none [] emptyResource

/-- The parser reads from the start into a module name. -/
lemma reads_start_name {before name : List UInt8} {bs : List ConfBlock}
    (hbefore : ConfText before bs) (hname : IsName name) :
    Reads env confStart (before ++ name) (perform env emptyResource bs)
      (fun _ q => ∃ o m as res', q = ⟨.modName, o, name, m, as, res'⟩) := by
  refine (reads_start hbefore).extend ?_
  rintro res' q ⟨o', m', as', rfl⟩
  refine (reads_name hname).mono ?_
  rintro _ q rfl
  exact ⟨o', m', as', res', rfl⟩

/-- The parser reads from the start into a block. -/
lemma reads_start_open {before name gap body : List UInt8} {bs : List ConfBlock}
    {cs : List (List (List UInt8))} (hbefore : ConfText before bs) (hname : IsName name)
    (hgap : IsNameGap gap) (hbody : BodyText body cs) :
    Reads env confStart (before ++ name ++ gap ++ braceOpen :: body)
      ((perform env emptyResource bs).bind (fun res' => performBlock env res' ⟨name, cs⟩))
      (fun res' q => ∃ n o' as', Mod.named name = some n ∧
        q = ⟨.modBlock, o', [], some n, as', res'⟩) := by
  rw [List.append_assoc, List.append_assoc, ← List.append_assoc name]
  refine (reads_start hbefore).append ?_
  rintro res' q ⟨o', m', as', rfl⟩
  exact reads_open hname hgap hbody o' m' as' res'

end

end Xpipe
