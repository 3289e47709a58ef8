import Xpipe.ConfPlaces

/-!
# The bounds of the parser's buffer

`conf_file_parser` collects a module name or a word of a command in `key`, which
has 256 bytes, and ends it with a NUL. It does not compare the index with the size
of the buffer. `key_bounded_iff` says which texts make it store behind the end:
those in which the parser gets to a name or a word of 256 bytes and has another
byte to store for it.
-/
namespace Xpipe
open Machines

/-- A module name, or the beginning of one, stands behind `pre`, and the parser gets
there. -/
def NameAt (env : ConfEnv) (pre name : List UInt8) : Prop :=
  (∃ res, TextDone env pre res) ∧ IsName name

/-- A word of a command, or the beginning of one, stands behind `pre`, and the parser
gets there. -/
def WordAt (env : ConfEnv) (pre word : List UInt8) : Prop :=
  ∃ s words ws m res, pre = s ++ words ∧ BlockOpen env s m res ∧ WordsText words ws ∧
    IsWord word ∧ StartsWithLetter (words ++ word)

/-- The bytes for which the parser stores behind a module name: more of the name, or
one that ends it. -/
def isNameFollower (c : UInt8) : Bool := isNameByte c || isBlank c || c == braceOpen || c == hash

/-- The parser gets to a name or a word of 256 bytes, and a byte follows for which it
stores another one. -/
def FillsKey (env : ConfEnv) (text : List UInt8) : Prop :=
  ∃ pre tok c rest, text = pre ++ tok ++ c :: rest ∧ tok.length = 256 ∧
    (NameAt env pre tok ∧ isNameFollower c = true ∨ WordAt env pre tok)

/-- The parser gets to a name or a word of more than 255 bytes. -/
def OverLong (env : ConfEnv) (text : List UInt8) : Prop :=
  ∃ pre tok rest, text = pre ++ tok ++ rest ∧ tok.length = 256 ∧
    (NameAt env pre tok ∨ WordAt env pre tok)

/-! ## A full buffer overflows -/

section
variable {env : ConfEnv} {o : ConfSw} {m : Option Mod} {as : List (List UInt8)} {res : Resource}

lemma modName_overflow {key : List UInt8} {c : UInt8} (hlen : key.length = 256) :
    confByte env ⟨.modName, o, key, m, as, res⟩ c = .error .overflow ↔
      isNameFollower c = true := by
  have hfull : ¬ key.length < 256 := by omega
  simp only [confByte, isNameFollower, isNameByte, ConfParse.putKey, ConfParse.endKey, hfull,
    if_false, bind, Except.bind]
  split_ifs with hname hblank hopen hhash
  · simp [hname]
  · simp [hblank]
  · simp [hopen]
  · simp [hhash]
  · simp [hname, hblank, hopen, hhash]

/-- Any other byte behind a name is an error. -/
lemma modName_error {key : List UInt8} {c : UInt8} (hc : isNameFollower c = false) :
    confByte env ⟨.modName, o, key, m, as, res⟩ c = .error .error := by
  simp only [isNameFollower, isNameByte, Bool.or_eq_false_iff, beq_eq_false_iff_ne, ne_eq] at hc
  simp [confByte, hc]

lemma command_overflow {key : List UInt8} (c : UInt8) (hlen : key.length = 256) :
    confByte env ⟨.command, o, key, m, as, res⟩ c = .error .overflow := by
  have hfull : ¬ key.length < 256 := by omega
  simp only [confByte, ConfParse.pushArg, ConfParse.putKey, ConfParse.endKey, hfull, if_false,
    Except.map, bind, Except.bind]
  split_ifs <;> rfl

end

/-- A parser that reads `s`, which stands for something, overflows there or gets behind it. -/
lemma Reads.run_or {env : ConfEnv} {p : ConfParse} {s : List UInt8} {res : Resource}
    {Q : Resource → ConfParse → Prop} (h : Reads env p s (some res) Q) :
    run (confByte env) p s = .error .overflow ∨
      ∃ p', run (confByte env) p s = .ok p' ∧ Q res p' := by
  rcases h with ⟨e, hrun, hstop⟩ | ⟨res', p', hr, hrun, hq⟩
  · exact Or.inl (by rw [hrun, hstop rfl])
  · cases hr
    exact Or.inr ⟨p', hrun, hq⟩

/-- A parser that reads `s` and then overflows has overflown. -/
lemma Reads.overflow {env : ConfEnv} {p : ConfParse} {s : List UInt8} {res : Resource}
    {Q : Resource → ConfParse → Prop} {c : UInt8} (h : Reads env p s (some res) Q)
    (hover : ∀ p', Q res p' → confByte env p' c = .error .overflow) (rest : List UInt8) :
    run (confByte env) p (s ++ c :: rest) = .error .overflow := by
  rcases h.run_or with hrun | ⟨p', hrun, hq⟩
  · rw [run_append, hrun]
  · rw [run_append_of_ok hrun, run_cons_error (hover p' hq)]

lemma reads_blockOpen {env : ConfEnv} {s : List UInt8} {m : Mod} {res : Resource}
    (h : BlockOpen env s m res) :
    Reads env confStart s (some res)
      (fun res' q => ∃ o' as', q = ⟨.modBlock, o', [], some m, as', res'⟩) := by
  obtain ⟨before, name, gap, body, cs, res₀, rfl, ⟨bs, htext, hperform⟩, hname, hgap, hm, hbody,
    hcs⟩ := h
  have hblock : (perform env emptyResource bs).bind (fun res' => performBlock env res' ⟨name, cs⟩) =
      some res := by
    rw [hperform, Option.bind_some, performBlock, hm, Option.bind_some, hcs]
  rw [← hblock]
  refine (reads_start_open htext hname hgap hbody).mono ?_
  rintro res' q ⟨n, o', as', hn, rfl⟩
  obtain rfl : m = n := Option.some.inj (hm.symm.trans hn)
  exact ⟨o', as', rfl⟩

/-- The parser reads up to a word and into it. -/
lemma reads_wordAt {env : ConfEnv} {pre word : List UInt8} (h : WordAt env pre word) :
    ∃ res, Reads env confStart (pre ++ word) (some res)
      (fun _ q => ∃ o m as res', q = ⟨.command, o, word, m, as, res'⟩) := by
  obtain ⟨s, words, ws, m, res, rfl, hopen, hwords, hword, hfirst⟩ := h
  refine ⟨res, ?_⟩
  rw [List.append_assoc]
  refine (reads_blockOpen hopen).extend ?_
  rintro res' q ⟨o', as', rfl⟩
  refine Reads.first_letter hfirst (((reads_words hwords []).then (reads_word hword)).mono ?_)
  rintro _ q rfl
  exact ⟨o', some m, _, res', rfl⟩

/-- **A text that fills `key` makes the parser store behind its end.** -/
lemma fillsKey_overflow {env : ConfEnv} {text : List UInt8} (h : FillsKey env text) :
    run (confByte env) confStart text = .error .overflow := by
  obtain ⟨pre, tok, c, rest, rfl, hlen, ⟨⟨⟨res, bs, htext, hperform⟩, hname⟩, hc⟩ | hword⟩ := h
  · have hread := @reads_start_name env pre tok bs htext hname
    rw [hperform] at hread
    refine hread.overflow ?_ rest
    rintro p' ⟨o', m', as', res', rfl⟩
    exact (modName_overflow hlen).mpr hc
  · obtain ⟨res, hread⟩ := reads_wordAt hword
    refine hread.overflow ?_ rest
    rintro p' ⟨o', m', as', res', rfl⟩
    exact command_overflow c hlen

/-! ## What has been read -/

section
variable {env : ConfEnv} {s t : List UInt8} {c : UInt8} {res res' : Resource} {m : Mod}

lemma TextDone.blank (h : TextDone env s res) (hc : isBlank c = true) :
    TextDone env (s ++ [c]) res := by
  obtain ⟨bs, htext, hperform⟩ := h
  refine ⟨bs, ?_, hperform⟩
  simpa using htext.append (.blank hc .nil)

lemma TextDone.comment (h : TextDone env s res) (ht : IsComment t) : TextDone env (s ++ t) res := by
  obtain ⟨bs, htext, hperform⟩ := h
  refine ⟨bs, ?_, hperform⟩
  simpa using htext.append (.comment ht .nil)

/-- The `{` of a block. -/
lemma TextDone.block {name gap : List UInt8} (h : TextDone env s res) (hname : IsName name)
    (hgap : IsNameGap gap) (hm : Mod.named name = some m) :
    BlockOpen env (s ++ name ++ gap ++ [braceOpen]) m (createConf env m res) :=
  ⟨s, name, gap, [], [], res, by simp, h, hname, hgap, hm, .nil, rfl⟩

/-- More of the inside of a block. -/
lemma BlockOpen.body {cs : List (List (List UInt8))} (h : BlockOpen env s m res)
    (ht : BodyText t cs) (hcs : cs.foldlM (performCommand env m) res = some res') :
    BlockOpen env (s ++ t) m res' := by
  obtain ⟨before, name, gap, body, cs', res₀, rfl, hbefore, hname, hgap, hm, hbody, hcs'⟩ := h
  refine ⟨before, name, gap, body ++ t, cs' ++ cs, res₀, by simp, hbefore, hname, hgap, hm,
    hbody.append ht, ?_⟩
  rw [List.foldlM_append, hcs']
  exact hcs

/-- The `}` of a block. -/
lemma BlockOpen.close (h : BlockOpen env s m res) : TextDone env (s ++ [braceClose]) res := by
  obtain ⟨before, name, gap, body, cs, res₀, rfl, ⟨bs, htext, hperform⟩, hname, hgap, hm, hbody,
    hcs⟩ := h
  refine ⟨bs ++ [⟨name, cs⟩], ?_, ?_⟩
  · have hblock := htext.append (.block hname hgap (blockText_iff.mpr ⟨body, rfl, hbody⟩) .nil)
    simpa using hblock
  · unfold perform at hperform ⊢
    rw [List.foldlM_append, hperform]
    simp [performBlock, hm, hcs]

end

/-- What has been read when the parser is in a given state. -/
inductive ReadTo (env : ConfEnv) : List UInt8 → ConfParse → Prop
  | out {s : List UInt8} {o : ConfSw} {m : Option Mod} {as : List (List UInt8)} {res : Resource}
    (h : TextDone env s res) : ReadTo env s ⟨.out, o, [], m, as, res⟩
  | outComment {s body : List UInt8} {m : Option Mod} {as : List (List UInt8)} {res : Resource}
    (h : TextDone env s res) (hbody : LF ∉ body) :
    ReadTo env (s ++ hash :: body) ⟨.comment, .out, [], m, as, res⟩
  | name {s key : List UInt8} {o : ConfSw} {m : Option Mod} {as : List (List UInt8)}
    {res : Resource} (h : TextDone env s res) (hkey : IsName key) (hlen : key.length ≤ 256) :
    ReadTo env (s ++ key) ⟨.modName, o, key, m, as, res⟩
  | nameComment {s name body : List UInt8} {m : Mod} {as : List (List UInt8)} {res : Resource}
    (h : TextDone env s res) (hname : IsName name) (hm : Mod.named name = some m)
    (hbody : LF ∉ body) :
    ReadTo env (s ++ name ++ hash :: body)
      ⟨.comment, .modNameEndBlank, [], some m, as, createConf env m res⟩
  | gap {s name gap : List UInt8} {o : ConfSw} {m : Mod} {as : List (List UInt8)} {res : Resource}
    (h : TextDone env s res) (hname : IsName name) (hm : Mod.named name = some m)
    (hgap : IsNameGap gap) :
    ReadTo env (s ++ name ++ gap) ⟨.modNameEndBlank, o, [], some m, as, createConf env m res⟩
  | block {s : List UInt8} {o : ConfSw} {m : Mod} {as : List (List UInt8)} {res : Resource}
    (h : BlockOpen env s m res) : ReadTo env s ⟨.modBlock, o, [], some m, as, res⟩
  | blockComment {s body : List UInt8} {m : Mod} {as : List (List UInt8)} {res : Resource}
    (h : BlockOpen env s m res) (hbody : LF ∉ body) :
    ReadTo env (s ++ hash :: body) ⟨.comment, .modBlock, [], some m, as, res⟩
  | word {s words key : List UInt8} {ws : List (List UInt8)} {o : ConfSw} {m : Mod}
    {res : Resource} (h : BlockOpen env s m res) (hwords : WordsText words ws) (hkey : IsWord key)
    (hfirst : StartsWithLetter (words ++ key)) (hlen : key.length ≤ 256) :
    ReadTo env (s ++ words ++ key) ⟨.command, o, key, some m, ws, res⟩
  | between {s words : List UInt8} {ws : List (List UInt8)} {o : ConfSw} {m : Mod}
    {res : Resource} (h : BlockOpen env s m res) (hwords : WordsText words ws) (hne : ws ≠ [])
    (hfirst : StartsWithLetter words) :
    ReadTo env (s ++ words) ⟨.commandBlank, o, [], some m, ws, res⟩

section
variable {env : ConfEnv} {s : List UInt8} {c : UInt8} {o : ConfSw} {as : List (List UInt8)}
  {res : Resource} {p' : ConfParse}

lemma StartsWithLetter.append {s : List UInt8} (h : StartsWithLetter s) (t : List UInt8) :
    StartsWithLetter (s ++ t) := by
  obtain ⟨c, cs, rfl, hc⟩ := h
  exact ⟨c, cs ++ t, rfl, hc⟩

/-- A byte outside of blocks. -/
lemma readTo_out {m : Option Mod} (h : TextDone env s res)
    (hbyte : confByte env ⟨.out, o, [], m, as, res⟩ c = .ok p') : ReadTo env (s ++ [c]) p' := by
  obtain ⟨hhash, hblank, hletter⟩ := @out_byte env o m as res c
  by_cases hc : c = hash
  · cases (hhash hc).symm.trans hbyte
    rw [hc]
    exact .outComment h (by simp)
  by_cases hcb : isBlank c = true
  · cases (hblank hcb).symm.trans hbyte
    exact .out (h.blank hcb)
  by_cases hcl : isLetter c = true
  · cases (hletter hcl).symm.trans hbyte
    refine .name h ⟨⟨c, [], rfl, hcl⟩, All.singleton (letter_facts hcl).2.2.1⟩ (by simp)
  · simp [confByte, hc, hcb, hcl] at hbyte

/-- A byte of a module name, or behind it. -/
lemma readTo_name {m : Option Mod} {key : List UInt8} (h : TextDone env s res) (hkey : IsName key)
    (hbyte : confByte env ⟨.modName, o, key, m, as, res⟩ c = .ok p') :
    ReadTo env (s ++ key ++ [c]) p' := by
  obtain ⟨hblank, hopen, hhash⟩ := @modName_byte env o m as res key c
  by_cases hc : isNameByte c = true
  · have hput : confByte env ⟨.modName, o, key, m, as, res⟩ c =
        ConfParse.putKey ⟨.modName, o, key, m, as, res⟩ c := by
      unfold isNameByte at hc
      simp only [confByte, hc, if_true]
    rw [hput, ConfParse.putKey] at hbyte
    split_ifs at hbyte with hlen
    cases hbyte
    rw [List.append_assoc]
    exact .name h ⟨hkey.1.append [c], hkey.2.snoc hc⟩ (by simp at hlen ⊢; omega)
  by_cases hcb : isBlank c = true
  · rw [hblank hcb, name_end hkey.2] at hbyte
    obtain ⟨-, n, hn, rfl⟩ := hbyte
    exact .gap h hkey hn (Or.inl (All.singleton hcb))
  by_cases hco : c = braceOpen
  · rw [hopen hco, name_end hkey.2] at hbyte
    obtain ⟨-, n, hn, rfl⟩ := hbyte
    have hblock := h.block hkey (Or.inl (show All isBlank [] by simp [All])) hn
    rw [List.append_nil, ← hco] at hblock
    exact .block hblock
  by_cases hch : c = hash
  · rw [hhash hch, name_end hkey.2] at hbyte
    obtain ⟨-, n, hn, rfl⟩ := hbyte
    rw [hch]
    exact .nameComment h hkey hn (by simp)
  · unfold isNameByte at hc
    simp only [confByte, hc, hcb, hco, hch, if_false, Bool.false_eq_true, reduceCtorEq] at hbyte

/-- A byte between a module name and its `{`. -/
lemma readTo_gap {m : Mod} {name gap : List UInt8} (h : TextDone env s res) (hname : IsName name)
    (hm : Mod.named name = some m) (hgap : IsNameGap gap)
    (hbyte : confByte env ⟨.modNameEndBlank, o, [], some m, as, createConf env m res⟩ c = .ok p') :
    ReadTo env (s ++ name ++ gap ++ [c]) p' := by
  by_cases hco : c = braceOpen
  · subst hco
    cases hbyte
    exact .block (h.block hname hgap hm)
  by_cases hcb : isBlank c = true
  · obtain ⟨hhash, -, -, -, -⟩ := blank_facts hcb
    simp only [confByte, modBlock, hco, hcb, hhash, if_true, if_false] at hbyte
    cases hbyte
    rw [List.append_assoc]
    refine .gap h hname hm ?_
    rcases hgap with hb | ⟨k, b, hk, hb, rfl⟩
    · exact Or.inl (hb.snoc hcb)
    · exact Or.inr ⟨k, b ++ [c], hk, hb.snoc hcb, by simp⟩
  · simp [confByte, hco, hcb] at hbyte

/-- A byte between two commands. -/
lemma readTo_block {m : Mod} (h : BlockOpen env s m res)
    (hbyte : confByte env ⟨.modBlock, o, [], some m, as, res⟩ c = .ok p') :
    ReadTo env (s ++ [c]) p' := by
  obtain ⟨hhash, hblank, hletter, hclose⟩ := @modBlock_byte env o res m as c
  by_cases hc : c = hash
  · cases (hhash hc).symm.trans hbyte
    rw [hc]
    exact .blockComment h (by simp)
  by_cases hcb : isBlank c = true
  · cases (hblank hcb).symm.trans hbyte
    exact .block (h.body (.blank hcb .nil) rfl)
  by_cases hcl : isLetter c = true
  · cases (hletter hcl).symm.trans hbyte
    have hword : IsWord [c] := ⟨by simp, All.singleton (letter_facts hcl).2.2.2⟩
    have hread := ReadTo.word (o := o) h .nil hword ⟨c, [], rfl, hcl⟩ (by simp)
    rwa [List.append_nil] at hread
  by_cases hcc : c = braceClose
  · cases (hclose hcc).symm.trans hbyte
    rw [hcc]
    exact .out h.close
  · simp [confByte, modBlock, hc, hcb, hcl, hcc] at hbyte

/-- The `;` behind the last word. -/
lemma readTo_cmdEnd {m : Mod} {t : List UInt8} {ws : List (List UInt8)} (x : ConfSw)
    (h : BlockOpen env s m res) (ht : CommandText t ws) (hfirst : StartsWithLetter t)
    (hend : cmdEnd env ⟨x, o, [], some m, ws, res⟩ = .ok p') : ReadTo env (s ++ t) p' := by
  rw [cmdEnd_eq env x o [] m ht.ne_nil] at hend
  cases hperform : performCommand env m res ws with
  | none => simp [hperform] at hend
  | some res' =>
    rw [hperform] at hend
    cases hend
    have hbody := BodyText.command ht hfirst .nil
    rw [List.append_nil] at hbody
    exact .block (h.body hbody (by simp [hperform]))

/-- A byte of a word, or behind it. -/
lemma readTo_word {m : Mod} {words key : List UInt8} {ws : List (List UInt8)}
    (h : BlockOpen env s m res) (hwords : WordsText words ws) (hkey : IsWord key)
    (hfirst : StartsWithLetter (words ++ key))
    (hbyte : confByte env ⟨.command, o, key, some m, ws, res⟩ c = .ok p') :
    ReadTo env (s ++ words ++ key ++ [c]) p' := by
  simp only [confByte, ConfParse.pushArg, ConfParse.putKey, ConfParse.endKey] at hbyte
  split_ifs at hbyte with hcb hlen hcs hlen hlen
  · cases hbyte
    have hmore := hwords.append (.word hkey (by simp) (All.singleton hcb) .nil)
    rw [List.append_nil] at hmore
    have hread := ReadTo.between (o := o) h hmore (by simp) (by
      rw [← List.append_assoc]
      exact hfirst.append [c])
    simpa using hread
  · cases hbyte
  · have hmore := hwords.command (.last hkey (show All isBlank [] by simp [All]))
    rw [List.append_nil, ← List.append_assoc] at hmore
    rw [hcs, List.append_assoc s, List.append_assoc s]
    exact readTo_cmdEnd .commandEnd h hmore (hfirst.append _) hbyte
  · cases hbyte
  · cases hbyte
    have hc : isWordByte c = true := by simp [isWordByte, hcb, hcs]
    rw [List.append_assoc (s ++ words)]
    refine .word h hwords ⟨by simp, hkey.2.snoc hc⟩ ?_ (by simp at hlen ⊢; omega)
    rw [← List.append_assoc]
    exact hfirst.append [c]

/-- A byte between two words. -/
lemma readTo_between {m : Mod} {words : List UInt8} {ws : List (List UInt8)}
    (h : BlockOpen env s m res) (hwords : WordsText words ws) (hne : ws ≠ [])
    (hfirst : StartsWithLetter words)
    (hbyte : confByte env ⟨.commandBlank, o, [], some m, ws, res⟩ c = .ok p') :
    ReadTo env (s ++ words ++ [c]) p' := by
  simp only [confByte, ConfParse.putKey] at hbyte
  split_ifs at hbyte with hcs hcb hlen
  · rw [hcs, List.append_assoc]
    exact readTo_cmdEnd .commandBlank h (hwords.semicolon hne) (hfirst.append _) hbyte
  · cases hbyte
    rw [List.append_assoc]
    exact .between h (hwords.blank hne hcb) hne (hfirst.append _)
  · cases hbyte
    have hword : IsWord [c] := ⟨by simp, All.singleton (by simp [isWordByte, hcb, hcs])⟩
    exact .word h hwords hword (hfirst.append _) (by simp)

/-- A byte of a comment: its LF leads back to the place where it started. -/
lemma readTo_comment {m : Option Mod} {back : ConfSw} {s body : List UInt8} (hbody : LF ∉ body)
    (hstay : ∀ body', LF ∉ body' →
      ReadTo env (s ++ hash :: body') ⟨.comment, back, [], m, as, res⟩)
    (hback : ReadTo env (s ++ (hash :: body ++ [LF])) ⟨back, back, [], m, as, res⟩)
    (hbyte : confByte env ⟨.comment, back, [], m, as, res⟩ c = .ok p') :
    ReadTo env (s ++ hash :: body ++ [c]) p' := by
  rw [List.append_assoc]
  by_cases hc : c = LF
  · simp only [confByte, hc, if_true] at hbyte
    cases hbyte
    rw [hc]
    exact hback
  · simp only [confByte, hc, if_false] at hbyte
    cases hbyte
    exact hstay (body ++ [c]) (by simpa using ⟨hbody, Ne.symm hc⟩)

end

/-- **One byte**: what has been read stays what the state of the parser says. -/
lemma ReadTo.step {env : ConfEnv} {s : List UInt8} {p p' : ConfParse} {c : UInt8}
    (h : ReadTo env s p) (hbyte : confByte env p c = .ok p') : ReadTo env (s ++ [c]) p' := by
  cases h with
  | out h => exact readTo_out h hbyte
  | @outComment s body m as res h hbody =>
    exact readTo_comment hbody (fun body' hbody' => .outComment h hbody')
      (.out (h.comment ⟨body, hbody, rfl⟩)) hbyte
  | name h hkey hlen => exact readTo_name h hkey hbyte
  | @nameComment s name body m as res h hname hm hbody =>
    refine readTo_comment hbody (fun body' hbody' => .nameComment h hname hm hbody') ?_ hbyte
    exact .gap h hname hm (Or.inr ⟨_, [], ⟨body, hbody, rfl⟩, by simp [All], by simp⟩)
  | gap h hname hm hgap => exact readTo_gap h hname hm hgap hbyte
  | block h => exact readTo_block h hbyte
  | @blockComment s body m as res h hbody =>
    refine readTo_comment hbody (fun body' hbody' => .blockComment h hbody') ?_ hbyte
    have hcomment := BodyText.comment ⟨body, hbody, rfl⟩ .nil
    rw [List.append_nil] at hcomment
    exact .block (h.body hcomment rfl)
  | word h hwords hkey hfirst hlen => exact readTo_word h hwords hkey hfirst hbyte
  | between h hwords hne hfirst => exact readTo_between h hwords hne hfirst hbyte

/-- What the parser has read so far, at any point of its run. -/
lemma readTo_run {env : ConfEnv} {s : List UInt8} {p : ConfParse}
    (h : run (confByte env) confStart s = .ok p) : ReadTo env s p := by
  have hstart : ReadTo env [] confStart := .out ⟨[], .nil, rfl⟩
  exact run_relates (fun _ _ _ _ hread hbyte => hread.step hbyte) hstart h

lemma modNameEnd_no_overflow (env : ConfEnv) (p : ConfParse) :
    modNameEnd env p ≠ .error .overflow := by
  unfold modNameEnd
  split <;> simp

lemma callSet_no_overflow (env : ConfEnv) (p : ConfParse) (m : Mod) (cmd : Command) :
    callSet env p m cmd ≠ .error .overflow := by
  unfold callSet
  split <;> simp

lemma cmdEnd_no_overflow (env : ConfEnv) (p : ConfParse) : cmdEnd env p ≠ .error .overflow := by
  unfold cmdEnd
  dsimp only
  split
  · split
    · exact callSet_no_overflow env _ _ _
    · split
      · simp
      · exact callSet_no_overflow env _ _ _
  · simp

/-- Only a full buffer overflows. -/
lemma confByte_no_overflow {env : ConfEnv} {p : ConfParse} (hlen : p.key.length < 256) (c : UInt8) :
    confByte env p c ≠ .error .overflow := by
  have hput (x o : ConfSw) (as : List (List UInt8)) :
      ConfParse.putKey { p with state := x, oldState := o, cmdArgs := as } c ≠
        .error .overflow := by
    simp [ConfParse.putKey, hlen]
  have hblock : modBlock p c ≠ .error .overflow := by
    unfold modBlock
    split_ifs
    · simp
    · simp
    · exact hput .command _ []
    · simp
    · simp
  have hname (x o : ConfSw) :
      (ConfParse.endKey { p with state := x, oldState := o } >>= modNameEnd env) ≠
        .error .overflow := by
    simp only [ConfParse.endKey, hlen, if_true, bind, Except.bind]
    exact modNameEnd_no_overflow env _
  unfold confByte
  cases p.state <;> dsimp only
  · split_ifs
    · simp
    · exact hput .modName _ _
    · simp
    · simp
  · split_ifs <;> simp
  · simp
  · split_ifs
    · exact hput _ _ _
    · exact hname _ _
    · exact hname _ _
    · exact hname _ _
    · simp
  · exact modNameEnd_no_overflow env p
  · split_ifs
    · simp
    · exact hblock
    · simp
  · exact hblock
  · simp
  · split_ifs
    · simp [ConfParse.pushArg, ConfParse.endKey, hlen, Except.map]
    · simp only [ConfParse.pushArg, ConfParse.endKey, hlen, if_true, Except.map, bind, Except.bind]
      exact cmdEnd_no_overflow env _
    · exact hput _ _ _
  · split_ifs
    · exact cmdEnd_no_overflow env p
    · simp
    · exact hput .command _ _
  · exact cmdEnd_no_overflow env p

/-- A store behind the end of `key` is made for a name or a word of 256 bytes. -/
lemma ReadTo.fillsKey {env : ConfEnv} {s rest : List UInt8} {p : ConfParse} {c : UInt8}
    (h : ReadTo env s p) (hbyte : confByte env p c = .error .overflow) :
    FillsKey env (s ++ c :: rest) := by
  have hfull : ¬ p.key.length < 256 := fun hlen => confByte_no_overflow hlen c hbyte
  cases h with
  | @name s key o m as res h hkey hlen =>
    have hlen' : key.length = 256 := by
      simp only at hfull
      omega
    refine ⟨s, key, c, rest, rfl, hlen', Or.inl ⟨⟨⟨res, h⟩, hkey⟩, ?_⟩⟩
    exact (modName_overflow hlen').mp hbyte
  | @word s words key ws o m res h hwords hkey hfirst hlen =>
    have hlen' : key.length = 256 := by
      simp only at hfull
      omega
    exact ⟨s ++ words, key, c, rest, rfl, hlen',
      Or.inr ⟨s, words, ws, m, res, rfl, h, hwords, hkey, hfirst⟩⟩
  -- in the other states the buffer is empty
  | _ => simp at hfull

/-- The parser stores behind the end of `key` exactly when the text fills it. -/
lemma run_overflow_iff (env : ConfEnv) (text : List UInt8) :
    run (confByte env) confStart text = .error .overflow ↔ FillsKey env text := by
  constructor
  · intro h
    obtain ⟨s, c, rest, p, rfl, hrun, hbyte⟩ := (run_error_iff _ _ _ _).mp h
    exact (readTo_run hrun).fillsKey hbyte
  · exact fillsKey_overflow

/-- The parser does not see how the text is split. -/
lemma confFileParser_overflow_iff (env : ConfEnv) {text : List UInt8} {reads : List (List UInt8)}
    (hreads : Splits text reads) :
    confFileParser env (some (reads.map FileRead.bytes)) = .error .overflow ↔
      FillsKey env text := by
  obtain ⟨rfl, hne⟩ := hreads
  rw [← run_overflow_iff]
  simp only [confFileParser, confRead_eq env confStart reads hne]
  cases run (confByte env) confStart reads.flatten with
  | error e => simp
  | ok p =>
    simp only [confEnd]
    split_ifs <;> simp

/-- A name or a word that is too long makes the parser overflow or end in an error. -/
lemma overLong_result {env : ConfEnv} {text : List UInt8} (h : OverLong env text) :
    run (confByte env) confStart text = .error .overflow ∨
      run (confByte env) confStart text = .error .error ∨
        ∃ p, run (confByte env) confStart text = .ok p ∧ confEnd p = .error .error := by
  obtain ⟨pre, tok, rest, rfl, hlen, ⟨⟨res, bs, htext, hperform⟩, hname⟩ | hword⟩ := h
  · have hread := @reads_start_name env pre tok bs htext hname
    rw [hperform] at hread
    rcases hread.run_or with hover | ⟨p', hrun, o, m, as, res', rfl⟩
    · exact Or.inl (by rw [run_append, hover])
    · rw [run_append_of_ok hrun]
      cases rest with
      | nil => exact Or.inr (Or.inr ⟨_, rfl, by simp [confEnd]⟩)
      | cons c rest =>
        cases hc : isNameFollower c with
        | true => exact Or.inl (run_cons_error ((modName_overflow hlen).mpr hc) rest)
        | false => exact Or.inr (Or.inl (run_cons_error (modName_error hc) rest))
  · obtain ⟨res, hread⟩ := reads_wordAt hword
    rcases hread.run_or with hover | ⟨p', hrun, o, m, as, res', rfl⟩
    · exact Or.inl (by rw [run_append, hover])
    · rw [run_append_of_ok hrun]
      cases rest with
      | nil => exact Or.inr (Or.inr ⟨_, rfl, by simp [confEnd]⟩)
      | cons c rest => exact Or.inl (run_cons_error (command_overflow c hlen) rest)

/-- **All stores into `key` are inside of it, exactly when the parser gets to no name
or word that fills it and goes on.** A name or a word of more than 255 bytes is then an error. -/
theorem key_bounded_iff (env : ConfEnv) (text : List UInt8) (reads : List (List UInt8))
    (hreads : Splits text reads) :
    (confFileParser env (some (reads.map FileRead.bytes)) ≠ .error .overflow ↔
      ¬ FillsKey env text) ∧
    (OverLong env text → ¬ FillsKey env text →
      confFileParser env (some (reads.map FileRead.bytes)) = .error .error) := by
  refine ⟨(confFileParser_overflow_iff env hreads).not, fun hlong hno => ?_⟩
  rw [← run_overflow_iff] at hno
  obtain ⟨rfl, hne⟩ := hreads
  simp only [confFileParser, confRead_eq env confStart reads hne]
  rcases overLong_result hlong with hover | herror | ⟨p, hrun, hend⟩
  · exact absurd hover hno
  · rw [herror]
  · rw [hrun]
    exact hend

/-- `n` letters. -/
def letters (n : ℕ) : List UInt8 := List.replicate n 97

lemma letters_isName (n : ℕ) : IsName (letters (n + 1)) := by
  refine ⟨⟨97, letters n, List.replicate_succ, by decide⟩, fun c hc => ?_⟩
  rw [List.eq_of_mem_replicate hc]
  decide

lemma letters_ne_nil (n : ℕ) : letters (n + 1) ≠ [] := by
  intro h
  exact absurd ((List.replicate_eq_nil_iff 97).mp h) (Nat.succ_ne_zero n)

lemma splits_singleton {text : List UInt8} (hne : text ≠ []) : Splits text [text] :=
  ⟨List.append_nil _, fun data hdata => by rwa [List.mem_singleton.mp hdata]⟩

/-- A name of 255 letters and its `{` fit into `key`, and so do 256 letters at the end of the
text, which are an error. -/
theorem key_bounded_full :
    ¬ FillsKey ⟨[47], fun _ => true⟩ (letters 255 ++ [braceOpen]) ∧
      confFileParser ⟨[47], fun _ => true⟩ (some [.bytes (letters 256)]) = .error .error := by
  have hshort : letters 255 ++ [braceOpen] ≠ [] := by simp
  have hlong : letters 256 ≠ [] := letters_ne_nil 255
  constructor
  · apply ((key_bounded_iff ⟨[47], fun _ => true⟩ _ _ (splits_singleton hshort)).1).mp
    intro hover
    have hstop : (match confFileParser ⟨[47], fun _ => true⟩
        (some [.bytes (letters 255 ++ [braceOpen])]) with
      | .error e => e
      | .ok _ => .error) = ConfStop.error := by decide +kernel
    rw [List.map_singleton] at hover
    rw [hover] at hstop
    cases hstop
  · refine (key_bounded_iff ⟨[47], fun _ => true⟩ (letters 256) _ (splits_singleton hlong)).2 ?_ ?_
    · exact ⟨[], letters 256, [], by simp, List.length_replicate,
        Or.inl ⟨⟨_, [], .nil, rfl⟩, letters_isName 255⟩⟩
    · rintro ⟨pre, tok, c, rest, htext, hlen, -⟩
      have hcount := congrArg List.length htext
      simp only [letters, List.length_replicate, List.length_append, List.length_cons] at hcount
      omega

/-- The last letter of a name of 257 letters is stored behind the end of `key`. -/
theorem key_bounded_long :
    ¬ ∀ (env : ConfEnv) (text : List UInt8) (reads : List (List UInt8)), Splits text reads →
      confFileParser env (some (reads.map FileRead.bytes)) ≠ .error .overflow := by
  intro h
  have hsplit : Splits (letters 257) [letters 257] := splits_singleton (letters_ne_nil 256)
  refine h ⟨[47], fun _ => true⟩ (letters 257) [letters 257] hsplit
    ((confFileParser_overflow_iff _ hsplit).mpr ?_)
  refine ⟨[], letters 256, 97, [], ?_, List.length_replicate,
    Or.inl ⟨⟨⟨_, [], .nil, rfl⟩, letters_isName 255⟩, by decide⟩⟩
  rw [letters, letters, List.nil_append, ← List.replicate_succ']

end Xpipe
