import Xpipe.ConfGrammar

/-!
# The parser accepts the language of configuration files

The lookups of the parser find what the text names. From there on each part of a
text, a comment, a word, a command, the inside of a block and a block, has two
lemmas: the parser reads it, and what the parser accepts from that place on starts
with it.
-/
namespace Xpipe
open Machines

/-! ## The lookups of the parser -/

lemma cString_eq_self {s : List UInt8} (h : NUL ∉ s) : cString s = s := by
  refine List.takeWhile_eq_self_iff.mpr (fun c hc => ?_)
  simp only [bne_iff_ne]
  rintro rfl
  exact h hc

lemma Mod.cString_name (m : Mod) : cString m.name = m.name := by cases m <;> decide

lemma Command.cString_name (c : Command) : cString c.name = c.name := by cases c <;> decide

/-- A word of the length of a command's name that compares equal to it is the name. -/
lemma command_name_iff (c : Command) (name : List UInt8) :
    (name.length = c.name.length ∧ strcmpEq name c.name = true) ↔ c.name = name := by
  unfold strcmpEq
  rw [c.cString_name, beq_iff_eq]
  constructor
  · rintro ⟨hlen, heq⟩
    have hall : cString name = name := by
      refine (List.takeWhile_prefix _).eq_of_length ?_
      rw [hlen, ← heq]
      rfl
    rw [← heq, hall]
  · rintro rfl
    exact ⟨rfl, c.cString_name⟩

lemma confFileGetSysMod_eq {name : List UInt8} (h : NUL ∉ name) :
    confFileGetSysMod name = Mod.named name := by
  unfold confFileGetSysMod Mod.named
  congr 1
  funext m
  rw [strcmpEq, cString_eq_self h, m.cString_name, Bool.beq_comm]

lemma confFileGetCommand_eq (m : Mod) (name : List UInt8) :
    confFileGetCommand m name = m.commands.find? (fun c => !c.isGlobal && c.name == name) := by
  unfold confFileGetCommand
  have hstep (c : Command) (cs : List Command) (hlocal : c.isGlobal = false)
      (hrest : localCommand name cs = cs.find? (fun c => !c.isGlobal && c.name == name)) :
      localCommand name (c :: cs) =
        (c :: cs).find? (fun c => !c.isGlobal && c.name == name) := by
    rw [localCommand, List.find?_cons, hlocal, hrest]
    by_cases hname : c.name = name
    · rw [if_neg (by simp), if_pos ((command_name_iff c name).mpr hname)]
      simp [hname]
    · have hother : (c.name == name) = false := beq_eq_false_iff_ne.mpr hname
      rw [if_neg (by simp), if_neg (fun h => hname ((command_name_iff c name).mp h))]
      simp [hother]
  cases m with
  | main => exact hstep .daemon _ rfl (hstep .pid _ rfl rfl)
  | net =>
    exact hstep .listen _ rfl (hstep .connections _ rfl (hstep .nodelay _ rfl
      (hstep .requestBufferSize _ rfl rfl)))

lemma confFileGetGlobalCmd_eq (name : List UInt8) :
    confFileGetGlobalCmd name =
      Mod.main.commands.find? (fun c => c.isGlobal && c.name == name) := by
  have hsame (c : Command) :
      (c.name.length == name.length && strcmpEq name c.name) = (c.name == name) := by
    rw [Bool.eq_iff_iff, Bool.and_eq_true, beq_iff_eq, beq_iff_eq, ← command_name_iff, eq_comm]
  unfold confFileGetGlobalCmd modCmds
  rw [List.find?_filter]
  congr 1
  funext c
  rw [hsame, Bool.eq_iff_iff]
  simp

/-- **The command that `sw_command_end` calls** is the one the text names. -/
lemma cmdEnd_eq (env : ConfEnv) (x o : ConfSw) (k : List UInt8) (m : Mod)
    {ws : List (List UInt8)} (hne : ws ≠ []) (res : Resource) :
    cmdEnd env ⟨x, o, k, some m, ws, res⟩ =
      match performCommand env m res ws with
      | none => .error .error
      | some res' => .ok ⟨.modBlock, o, k, some m, ws, res'⟩ := by
  cases ws with
  | nil => exact absurd rfl hne
  | cons name ws =>
    unfold cmdEnd performCommand resolve
    simp only [confFileGetCommand_eq, confFileGetGlobalCmd_eq]
    cases m.commands.find? (fun c => !c.isGlobal && c.name == name) with
    | some cmd =>
      cases hset : cmd.set env m (name :: ws) res with
      | none => simp [callSet, hset]
      | some res' => simp [callSet, hset]
    | none =>
      cases Mod.main.commands.find? (fun c => c.isGlobal && c.name == name) with
      | none => rfl
      | some cmd =>
        cases hset : cmd.set env m (name :: ws) res with
        | none => simp [callSet, hset]
        | some res' => simp [callSet, hset]

/-! ## Loops of the parser -/

/-- Bytes that go into `key`. -/
lemma run_keys {env : ConfEnv} {p : ConfParse} {cls : UInt8 → Bool}
    (hput : ∀ key c, cls c = true →
      confByte env { p with key := key } c = ConfParse.putKey { p with key := key } c)
    {w : List UInt8} (hw : All cls w) {key : List UInt8} (hkey : key.length ≤ 256)
    (rest : List UInt8) (t : ConfParse) :
    run (confByte env) { p with key := key } (w ++ rest) = .ok t ↔
      key.length + w.length ≤ 256 ∧
        run (confByte env) { p with key := key ++ w } rest = .ok t := by
  induction w generalizing key with
  | nil => simp [hkey]
  | cons c w ih =>
    have hw' : All cls w := fun d hd => hw d (List.mem_cons_of_mem _ hd)
    rw [List.cons_append, run_cons_ok_iff, hput key c (hw c (by simp)), ConfParse.putKey]
    by_cases hfull : key.length < 256
    · simp only [hfull, if_true, Except.ok.injEq, exists_eq_left']
      rw [ih hw' (by simp; omega), List.append_assoc]
      simp only [List.length_append, List.length_cons, List.length_nil, List.singleton_append]
      rw [show key.length + (0 + 1) + w.length = key.length + (w.length + 1) by omega]
    · simp only [hfull, if_false, reduceCtorEq, false_and, exists_false, false_iff, not_and,
        List.length_cons]
      intro hlen
      omega

/-- A byte that is blank is nothing else the parser looks for. -/
lemma blank_facts {c : UInt8} (h : isBlank c = true) :
    c ≠ hash ∧ isLetter c = false ∧ c ≠ semicolon ∧ c ≠ braceOpen ∧ isNameByte c = false := by
  unfold isBlank at h
  simp only [Bool.or_eq_true, beq_iff_eq] at h
  rcases h with ((rfl | rfl) | rfl) | rfl <;> decide

lemma letter_facts {c : UInt8} (h : isLetter c = true) :
    c ≠ hash ∧ isBlank c = false ∧ isNameByte c = true ∧ isWordByte c = true := by
  have hblank : isBlank c = false := by
    cases hb : isBlank c with
    | false => rfl
    | true =>
      rw [(blank_facts hb).2.1] at h
      cases h
  have hhash : c ≠ hash := by
    rintro rfl
    exact absurd h (by decide)
  have hsemi : c ≠ semicolon := by
    rintro rfl
    exact absurd h (by decide)
  exact ⟨hhash, hblank, by simp [isNameByte, h], by simp [isWordByte, hblank, hsemi]⟩

/-- The parser may stop here with CONF_OK. -/
def Accepting (p : ConfParse) : Prop := p.state = .out ∨ p.state = .modBlockEnd

section
variable {env : ConfEnv} {o : ConfSw} {m : Option Mod} {as : List (List UInt8)} {res : Resource}

/-- A comment, up to its LF. -/
lemma run_comment {k body : List UInt8} (hbody : LF ∉ body) (rest : List UInt8) :
    run (confByte env) ⟨.comment, o, k, m, as, res⟩ (body ++ LF :: rest) =
      run (confByte env) ⟨o, o, k, m, as, res⟩ rest := by
  have hstay : run (confByte env) ⟨.comment, o, k, m, as, res⟩ body =
      .ok ⟨.comment, o, k, m, as, res⟩ := by
    refine run_stay (fun c hc => ?_)
    have hne : c ≠ LF := by
      rintro rfl
      exact hbody hc
    simp [confByte, hne]
  rw [run_append_of_ok hstay]
  exact run_cons_ok (by simp [confByte]) rest

lemma IsComment.append {k : List UInt8} (h : IsComment k) (s : List UInt8) :
    ∃ body, LF ∉ body ∧ k ++ s = hash :: (body ++ LF :: s) := by
  obtain ⟨body, hbody, rfl⟩ := h
  exact ⟨body, hbody, by simp⟩

/-- A run that leaves a comment has read its LF. -/
lemma comment_sound {k text : List UInt8} {t : ConfParse}
    (h : run (confByte env) ⟨.comment, o, k, m, as, res⟩ text = .ok t) (ht : Accepting t) :
    ∃ body rest, text = body ++ LF :: rest ∧ LF ∉ body ∧
      run (confByte env) ⟨o, o, k, m, as, res⟩ rest = .ok t := by
  obtain ⟨body, rest, rfl, hbody, hrest⟩ := exists_span (fun c => c != LF) text
  have hno : LF ∉ body := fun hin => by simpa using hbody LF hin
  cases rest with
  | nil =>
    have hstay : run (confByte env) ⟨.comment, o, k, m, as, res⟩ body =
        .ok ⟨.comment, o, k, m, as, res⟩ := by
      refine run_stay (fun c hc => ?_)
      have hne : c ≠ LF := by simpa using hbody c hc
      simp [confByte, hne]
    rw [List.append_nil, hstay] at h
    cases h
    rcases ht with ht | ht <;> cases ht
  | cons c rest =>
    obtain rfl : c = LF := by simpa using hrest c rest rfl
    rw [run_comment hno] at h
    exact ⟨body, rest, rfl, hno, h⟩

/-! ## Commands -/

lemma not_wordByte {c : UInt8} (h : isWordByte c = false) : isBlank c = true ∨ c = semicolon := by
  unfold isWordByte at h
  cases hb : isBlank c with
  | true => exact Or.inl rfl
  | false =>
    right
    simpa [hb] using h

lemma wordByte_facts {c : UInt8} (h : isWordByte c = true) : isBlank c = false ∧ c ≠ semicolon := by
  simpa [isWordByte] using h

/-- The bytes of a word. -/
lemma run_word {w key : List UInt8} (hw : All isWordByte w) (hkey : key.length ≤ 256)
    (rest : List UInt8) (u : ConfParse) :
    run (confByte env) ⟨.command, o, key, m, as, res⟩ (w ++ rest) = .ok u ↔
      key.length + w.length ≤ 256 ∧
        run (confByte env) ⟨.command, o, key ++ w, m, as, res⟩ rest = .ok u := by
  refine @run_keys env ⟨.command, o, [], m, as, res⟩ isWordByte (fun key c hc => ?_) w hw key hkey
    rest u
  obtain ⟨hblank, hsemi⟩ := wordByte_facts hc
  simp [confByte, hblank, hsemi]

/-- The byte behind a word. -/
lemma run_behind_word {key : List UInt8} (d : UInt8) (rest : List UInt8) (u : ConfParse) :
    (isBlank d = true → (run (confByte env) ⟨.command, o, key, m, as, res⟩ (d :: rest) = .ok u ↔
      key.length ≤ 255 ∧
        run (confByte env) ⟨.commandBlank, o, [], m, as ++ [key], res⟩ rest = .ok u)) ∧
    (run (confByte env) ⟨.command, o, key, m, as, res⟩ (semicolon :: rest) = .ok u ↔
      key.length ≤ 255 ∧ ∃ p', cmdEnd env ⟨.commandEnd, o, [], m, as ++ [key], res⟩ = .ok p' ∧
        run (confByte env) p' rest = .ok u) := by
  have hsemi : isBlank semicolon = false := by decide
  by_cases hlen : key.length < 256
  · have hle : key.length ≤ 255 := by omega
    refine ⟨fun hd => ?_, ?_⟩
    · rw [run_cons_ok_iff]
      simp [confByte, hd, ConfParse.pushArg, ConfParse.endKey, hlen, hle, Except.map]
    · rw [run_cons_ok_iff]
      simp [confByte, hsemi, ConfParse.pushArg, ConfParse.endKey, hlen, hle, Except.map, bind,
        Except.bind]
  · have hgt : ¬ key.length ≤ 255 := by omega
    refine ⟨fun hd => ?_, ?_⟩
    · rw [run_cons_ok_iff]
      simp [confByte, hd, ConfParse.pushArg, ConfParse.endKey, hlen, hgt, Except.map]
    · rw [run_cons_ok_iff]
      simp [confByte, hsemi, ConfParse.pushArg, ConfParse.endKey, hlen, hgt, Except.map, bind,
        Except.bind]

/-- Blanks between words. -/
lemma run_word_gap {b : List UInt8} (hb : All isBlank b) (rest : List UInt8) :
    run (confByte env) ⟨.commandBlank, o, [], m, as, res⟩ (b ++ rest) =
      run (confByte env) ⟨.commandBlank, o, [], m, as, res⟩ rest := by
  refine run_append_of_ok (run_stay (fun c hc => ?_)) rest
  have hblank := hb c hc
  simp [confByte, hblank, (blank_facts hblank).2.2.1]

/-- The byte behind a gap. -/
lemma run_behind_gap (d : UInt8) (rest : List UInt8) (u : ConfParse) :
    (isWordByte d = true →
      run (confByte env) ⟨.commandBlank, o, [], m, as, res⟩ (d :: rest) =
        run (confByte env) ⟨.command, o, [d], m, as, res⟩ rest) ∧
    (run (confByte env) ⟨.commandBlank, o, [], m, as, res⟩ (semicolon :: rest) = .ok u ↔
      ∃ p', cmdEnd env ⟨.commandEnd, o, [], m, as, res⟩ = .ok p' ∧
        run (confByte env) p' rest = .ok u) := by
  refine ⟨fun hd => ?_, ?_⟩
  · obtain ⟨hblank, hsemi⟩ := wordByte_facts hd
    exact run_cons_ok (by simp [confByte, hblank, hsemi, ConfParse.putKey]) rest
  · rw [run_cons_ok_iff]
    simp only [confByte, if_true]
    rfl

lemma CommandText.cons {t : List UInt8} {ws : List (List UInt8)} (h : CommandText t ws) :
    ∃ c t', t = c :: t' ∧ isWordByte c = true := by
  have hfirst {w : List UInt8} (hw : IsWord w) (s : List UInt8) :
      ∃ c t', w ++ s = c :: t' ∧ isWordByte c = true := by
    obtain ⟨hne, hall⟩ := hw
    cases w with
    | nil => exact absurd rfl hne
    | cons c w => exact ⟨c, w ++ s, rfl, hall c (by simp)⟩
  cases h with
  | last hw hb =>
    rw [List.append_assoc]
    exact hfirst hw _
  | more hw hne hb hs =>
    rw [List.append_assoc]
    exact hfirst hw _

lemma CommandText.ne_nil {t : List UInt8} {ws : List (List UInt8)} (h : CommandText t ws) :
    ws ≠ [] := by
  cases h <;> simp

/-- **The parser reads a command**: from behind its first byte to its end. -/
lemma run_command {t : List UInt8} {ws : List (List UInt8)} (h : CommandText t ws)
    (hshort : ShortWords ws) {c : UInt8} {t' : List UInt8} (ht : t = c :: t')
    (as : List (List UInt8)) (rest : List UInt8) (u : ConfParse) :
    run (confByte env) ⟨.command, o, [c], m, as, res⟩ (t' ++ rest) = .ok u ↔
      ∃ p', cmdEnd env ⟨.commandEnd, o, [], m, as ++ ws, res⟩ = .ok p' ∧
        run (confByte env) p' rest = .ok u := by
  -- the first word, up to the byte behind it
  have hword {w s : List UInt8} (hw : IsWord w) (hlen : w.length ≤ 255) {c : UInt8}
      {t' : List UInt8} (ht : w ++ s = c :: t') (as : List (List UInt8)) :
      run (confByte env) ⟨.command, o, [c], m, as, res⟩ (t' ++ rest) = .ok u ↔
        run (confByte env) ⟨.command, o, w, m, as, res⟩ (s ++ rest) = .ok u := by
    obtain ⟨hne, hall⟩ := hw
    cases w with
    | nil => exact absurd rfl hne
    | cons d w =>
      rw [List.cons_append, List.cons.injEq] at ht
      obtain ⟨rfl, rfl⟩ := ht
      have hrest : All isWordByte w := fun x hx => hall x (List.mem_cons_of_mem _ hx)
      rw [List.append_assoc, run_word hrest (by simp)]
      simp only [List.length_cons, List.length_nil, List.singleton_append] at hlen ⊢
      exact and_iff_right (by omega)
  induction h generalizing c t' as with
  | @last w b hw hb =>
    have hlen : w.length ≤ 255 := hshort w (by simp)
    rw [List.append_assoc] at ht
    rw [hword hw hlen ht]
    cases b with
    | nil =>
      rw [List.nil_append, List.singleton_append, (run_behind_word semicolon rest u).2]
      exact and_iff_right hlen
    | cons d b =>
      have hd := hb d (by simp)
      have hb' : All isBlank b := fun x hx => hb x (List.mem_cons_of_mem _ hx)
      rw [List.cons_append, List.cons_append, (run_behind_word d _ u).1 hd, and_iff_right hlen,
        List.append_assoc, run_word_gap hb', List.singleton_append,
        (run_behind_gap semicolon rest u).2]
  | @more w b s ws hw hne hb hs ih =>
    have hlen : w.length ≤ 255 := hshort w (by simp)
    rw [List.append_assoc] at ht
    rw [hword hw hlen ht]
    cases b with
    | nil => exact absurd rfl hne
    | cons d b =>
      have hd := hb d (by simp)
      have hb' : All isBlank b := fun x hx => hb x (List.mem_cons_of_mem _ hx)
      obtain ⟨c₂, s', rfl, hc₂⟩ := hs.cons
      rw [List.cons_append, List.cons_append, (run_behind_word d _ u).1 hd, and_iff_right hlen,
        List.append_assoc, run_word_gap hb', List.cons_append, (run_behind_gap c₂ _ u).1 hc₂]
      have hrest := ih (fun x hx => hshort x (List.mem_cons_of_mem _ hx)) rfl (as ++ [w])
      rw [List.append_assoc] at hrest
      exact hrest

/-- **What the parser accepts from inside a word on starts with a command.** -/
lemma command_sound {key text : List UInt8} {u : ConfParse} (hkey : IsWord key)
    (hlen : key.length ≤ 256)
    (h : run (confByte env) ⟨.command, o, key, m, as, res⟩ text = .ok u) (hu : Accepting u) :
    ∃ ct ws rest p', text = ct ++ rest ∧ CommandText (key ++ ct) ws ∧ ShortWords ws ∧
      cmdEnd env ⟨.commandEnd, o, [], m, as ++ ws, res⟩ = .ok p' ∧
      run (confByte env) p' rest = .ok u := by
  induction hn : text.length using Nat.strong_induction_on generalizing text key as with
  | _ n ih =>
    obtain ⟨w, rest, rfl, hw, hrest⟩ := exists_span isWordByte text
    obtain ⟨-, hrun⟩ := (run_word hw hlen rest u).mp h
    have hword : IsWord (key ++ w) := by
      refine ⟨by simp [hkey.1], fun c hc => ?_⟩
      rcases List.mem_append.mp hc with hc | hc
      · exact hkey.2 c hc
      · exact hw c hc
    cases rest with
    | nil =>
      cases hrun
      rcases hu with hu | hu <;> cases hu
    | cons d rest =>
      rcases not_wordByte (hrest d rest rfl) with hd | rfl
      · obtain ⟨hshort, hgap⟩ := ((run_behind_word d rest u).1 hd).mp hrun
        obtain ⟨b, rest, rfl, hb, hbehind⟩ := exists_span isBlank rest
        rw [run_word_gap hb] at hgap
        have hblanks : All isBlank (d :: b) := by
          intro c hc
          rcases List.mem_cons.mp hc with rfl | hc
          · exact hd
          · exact hb c hc
        cases rest with
        | nil =>
          cases hgap
          rcases hu with hu | hu <;> cases hu
        | cons d₂ rest =>
          by_cases hsemi : d₂ = semicolon
          · subst hsemi
            obtain ⟨p', hend, hrest'⟩ := (run_behind_gap semicolon rest u).2.mp hgap
            refine ⟨w ++ (d :: b) ++ [semicolon], [key ++ w], rest, p', by simp, ?_, ?_, hend,
              hrest'⟩
            · rw [← List.append_assoc, ← List.append_assoc]
              exact .last hword hblanks
            · intro x hx
              rw [List.mem_singleton.mp hx]
              exact hshort
          · have hd₂ : isWordByte d₂ = true := by
              simp [isWordByte, hbehind d₂ rest rfl, hsemi]
            rw [(run_behind_gap d₂ rest u).1 hd₂] at hgap
            obtain ⟨ct, ws, rest', p', rfl, hct, hws, hend, hrun'⟩ :=
              @ih rest.length (by simp [← hn]; omega) (as ++ [key ++ w]) [d₂] rest
                ⟨by simp, All.singleton hd₂⟩ (by simp) hgap rfl
            refine ⟨w ++ (d :: b) ++ d₂ :: ct, (key ++ w) :: ws, rest', p', by simp, ?_, ?_, ?_,
              hrun'⟩
            · rw [← List.append_assoc, ← List.append_assoc]
              exact .more hword (by simp) hblanks hct
            · intro x hx
              rcases List.mem_cons.mp hx with rfl | hx
              · exact hshort
              · exact hws x hx
            · rw [List.append_assoc] at hend
              exact hend
      · obtain ⟨hshort, p', hend, hrest'⟩ := (run_behind_word semicolon rest u).2.mp hrun
        refine ⟨w ++ [semicolon], [key ++ w], rest, p', by simp, ?_, ?_, hend, hrest'⟩
        · have htext := CommandText.last hword (show All isBlank [] by simp [All])
          rw [List.append_nil, List.append_assoc] at htext
          exact htext
        · intro x hx
          rw [List.mem_singleton.mp hx]
          exact hshort

/-! ## The inside of a block -/

/-- The bytes that can stand at the start of a command. -/
lemma modBlock_byte (m : Mod) (as : List (List UInt8)) (c : UInt8) :
    (c = hash → confByte env ⟨.modBlock, o, [], some m, as, res⟩ c =
      .ok ⟨.comment, .modBlock, [], some m, as, res⟩) ∧
    (isBlank c = true → confByte env ⟨.modBlock, o, [], some m, as, res⟩ c =
      .ok ⟨.modBlock, o, [], some m, as, res⟩) ∧
    (isLetter c = true → confByte env ⟨.modBlock, o, [], some m, as, res⟩ c =
      .ok ⟨.command, o, [c], some m, [], res⟩) ∧
    (c = braceClose → confByte env ⟨.modBlock, o, [], some m, as, res⟩ c =
      .ok ⟨.out, o, [], some m, as, res⟩) := by
  refine ⟨?_, ?_, ?_, ?_⟩
  · rintro rfl
    rfl
  · intro hc
    simp [confByte, modBlock, (blank_facts hc).1, hc]
  · intro hc
    obtain ⟨hhash, hblank, -, -⟩ := letter_facts hc
    simp [confByte, modBlock, hhash, hblank, hc, ConfParse.putKey]
  · rintro rfl
    rfl

/-- **The parser reads the inside of a block** and carries out its commands. -/
lemma run_block {bt : List UInt8} {cs : List (List (List UInt8))} (h : BlockText bt cs) {m : Mod}
    (hshort : ∀ ws ∈ cs, ShortWords ws) {res' : Resource}
    (hperform : cs.foldlM (performCommand env m) res = some res') (o : ConfSw)
    (as : List (List UInt8)) (rest : List UInt8) :
    ∃ o' as', ∀ u, run (confByte env) ⟨.modBlock, o, [], some m, as, res⟩ (bt ++ rest) = .ok u ↔
      run (confByte env) ⟨.out, o', [], some m, as', res'⟩ rest = .ok u := by
  induction h generalizing res o as with
  | close =>
    cases hperform
    exact ⟨o, as, fun u => by
      rw [List.singleton_append, run_cons_ok ((modBlock_byte m as braceClose).2.2.2 rfl)]⟩
  | blank hc hs ih =>
    obtain ⟨o', as', hrun⟩ := ih hshort hperform o as
    exact ⟨o', as', fun u => by
      rw [List.cons_append, run_cons_ok ((modBlock_byte m as _).2.1 hc), hrun]⟩
  | comment hk hs ih =>
    obtain ⟨o', as', hrun⟩ := ih hshort hperform .modBlock as
    refine ⟨o', as', fun u => ?_⟩
    obtain ⟨body, hbody, heq⟩ := hk.append (_ ++ rest)
    rw [List.append_assoc, heq, run_cons_ok ((modBlock_byte m as _).1 rfl), run_comment hbody, hrun]
  | @command t s ws cs ht hfirst hs ih =>
    obtain ⟨c, t', rfl, hc⟩ := hfirst
    rw [List.foldlM_cons] at hperform
    obtain ⟨res₁, hcommand, hrest⟩ := Option.bind_eq_some_iff.mp hperform
    obtain ⟨o', as', hrun⟩ := ih (fun x hx => hshort x (List.mem_cons_of_mem _ hx)) hrest o ws
    refine ⟨o', as', fun u => ?_⟩
    rw [List.cons_append, List.cons_append, run_cons_ok ((modBlock_byte m as c).2.2.1 hc),
      List.append_assoc, run_command ht (hshort _ (by simp)) rfl, ← hrun u, List.nil_append,
      cmdEnd_eq env _ o [] m ht.ne_nil, hcommand]
    simp

/-- **What the parser accepts inside a block is one.** -/
lemma block_sound {m : Mod} {text : List UInt8} {u : ConfParse}
    (h : run (confByte env) ⟨.modBlock, o, [], some m, as, res⟩ text = .ok u) (hu : Accepting u) :
    ∃ bt cs rest res' o' as', text = bt ++ rest ∧ BlockText bt cs ∧
      (∀ ws ∈ cs, ShortWords ws) ∧ cs.foldlM (performCommand env m) res = some res' ∧
      run (confByte env) ⟨.out, o', [], some m, as', res'⟩ rest = .ok u := by
  induction hn : text.length using Nat.strong_induction_on generalizing text o as res with
  | _ n ih =>
    cases text with
    | nil =>
      cases h
      rcases hu with hu | hu <;> cases hu
    | cons c text =>
      obtain ⟨hhash, hblank, hletter, hclose⟩ :=
        @modBlock_byte env o res m as c
      by_cases hc : c = hash
      · rw [run_cons_ok (hhash hc)] at h
        obtain ⟨body, rest, rfl, hbody, hrun⟩ := comment_sound h hu
        obtain ⟨bt, cs, rest', res', o', as', rfl, hbt, hws, hcs, hout⟩ :=
          ih rest.length (by simp [← hn]; omega) hrun rfl
        refine ⟨(hash :: body ++ [LF]) ++ bt, cs, rest', res', o', as', ?_, ?_, hws, hcs, hout⟩
        · simp [hc]
        · exact .comment ⟨body, hbody, rfl⟩ hbt
      by_cases hc' : isBlank c = true
      · rw [run_cons_ok (hblank hc')] at h
        obtain ⟨bt, cs, rest', res', o', as', rfl, hbt, hws, hcs, hout⟩ :=
          ih text.length (by simp [← hn]) h rfl
        exact ⟨c :: bt, cs, rest', res', o', as', rfl, .blank hc' hbt, hws, hcs, hout⟩
      by_cases hc'' : isLetter c = true
      · rw [run_cons_ok (hletter hc'')] at h
        obtain ⟨ct, ws, rest, p', rfl, hct, hshort, hend, hrun⟩ :=
          command_sound ⟨by simp, All.singleton (letter_facts hc'').2.2.2⟩ (by simp) h hu
        rw [List.nil_append, cmdEnd_eq env _ o [] m hct.ne_nil] at hend
        cases hperform : performCommand env m res ws with
        | none => simp [hperform] at hend
        | some res₁ =>
          rw [hperform] at hend
          cases hend
          obtain ⟨bt, cs, rest', res', o', as', rfl, hbt, hws, hcs, hout⟩ :=
            ih rest.length (by simp [← hn]) hrun rfl
          refine ⟨(c :: ct) ++ bt, ws :: cs, rest', res', o', as', by simp, ?_, ?_, ?_, hout⟩
          · exact .command hct ⟨c, ct, rfl, hc''⟩ hbt
          · intro x hx
            rcases List.mem_cons.mp hx with rfl | hx
            · exact hshort
            · exact hws x hx
          · rw [List.foldlM_cons, hperform]
            exact hcs
      by_cases hcl : c = braceClose
      · rw [run_cons_ok (hclose hcl)] at h
        exact ⟨[braceClose], [], text, res, o, as, by simp [hcl], .close, by simp, rfl, h⟩
      · have herror : confByte env ⟨.modBlock, o, [], some m, as, res⟩ c = .error .error := by
          simp [confByte, modBlock, hc, hc', hc'', hcl]
        rw [run_cons_error herror] at h
        cases h

/-! ## Module names -/

/-- The bytes of a name. -/
lemma run_name {w key : List UInt8} (hw : All isNameByte w) (hkey : key.length ≤ 256)
    (rest : List UInt8) (u : ConfParse) :
    run (confByte env) ⟨.modName, o, key, m, as, res⟩ (w ++ rest) = .ok u ↔
      key.length + w.length ≤ 256 ∧
        run (confByte env) ⟨.modName, o, key ++ w, m, as, res⟩ rest = .ok u := by
  refine @run_keys env ⟨.modName, o, [], m, as, res⟩ isNameByte (fun key c hc => ?_) w hw key hkey
    rest u
  simp only [confByte, isNameByte] at hc ⊢
  rw [if_pos hc]

lemma not_nul {s : List UInt8} (h : All isNameByte s) : NUL ∉ s := by
  intro hin
  exact absurd (h NUL hin) (by decide)

/-- The step behind a name, which goes to the state `x`. -/
lemma name_end {key : List UInt8} (hkey : All isNameByte key) (x o : ConfSw) (p' : ConfParse) :
    (ConfParse.endKey ⟨x, o, key, m, as, res⟩ >>= modNameEnd env) = .ok p' ↔
      key.length ≤ 255 ∧ ∃ n, Mod.named key = some n ∧
        p' = ⟨x, o, [], some n, as, createConf env n res⟩ := by
  unfold ConfParse.endKey
  by_cases hlen : key.length < 256
  · have hle : key.length ≤ 255 := by omega
    simp only [hlen, if_true, bind, Except.bind, modNameEnd,
      confFileGetSysMod_eq (not_nul hkey), hle, true_and]
    cases hn : Mod.named key with
    | none => simp
    | some n => simp [eq_comm]
  · have hgt : ¬ key.length ≤ 255 := by omega
    simp [hlen, hgt, bind, Except.bind]

/-- The bytes that end a name. -/
lemma modName_byte (key : List UInt8) (c : UInt8) :
    (isBlank c = true → confByte env ⟨.modName, o, key, m, as, res⟩ c =
      ConfParse.endKey ⟨.modNameEndBlank, o, key, m, as, res⟩ >>= modNameEnd env) ∧
    (c = braceOpen → confByte env ⟨.modName, o, key, m, as, res⟩ c =
      ConfParse.endKey ⟨.modBlock, o, key, m, as, res⟩ >>= modNameEnd env) ∧
    (c = hash → confByte env ⟨.modName, o, key, m, as, res⟩ c =
      ConfParse.endKey ⟨.comment, .modNameEndBlank, key, m, as, res⟩ >>= modNameEnd env) := by
  refine ⟨?_, ?_, ?_⟩
  · intro hc
    have hname := (blank_facts hc).2.2.2.2
    unfold isNameByte at hname
    simp only [confByte, hname, hc, if_true, Bool.false_eq_true, if_false]
  · rintro rfl
    rfl
  · rintro rfl
    rfl

/-- The blanks between a name and its `{`. -/
lemma run_name_blanks {b : List UInt8} (hb : All isBlank b) (n : Mod) (rest : List UInt8) :
    run (confByte env) ⟨.modNameEndBlank, o, [], some n, as, res⟩ (b ++ rest) =
      run (confByte env) ⟨.modNameEndBlank, o, [], some n, as, res⟩ rest := by
  refine run_append_of_ok (run_stay (fun c hc => ?_)) rest
  have hblank := hb c hc
  obtain ⟨hhash, -, -, hopen, -⟩ := blank_facts hblank
  simp [confByte, modBlock, hblank, hopen, hhash]

lemma run_name_open (n : Mod) (rest : List UInt8) :
    run (confByte env) ⟨.modNameEndBlank, o, [], some n, as, res⟩ (braceOpen :: rest) =
      run (confByte env) ⟨.modBlock, o, [], some n, as, res⟩ rest :=
  run_cons_ok rfl rest

/-- What the parser accepts behind the end of a name starts with blanks and a `{`. -/
lemma name_blanks_sound {n : Mod} {text : List UInt8} {u : ConfParse}
    (h : run (confByte env) ⟨.modNameEndBlank, o, [], some n, as, res⟩ text = .ok u)
    (hu : Accepting u) :
    ∃ b rest, text = b ++ braceOpen :: rest ∧ All isBlank b ∧
      run (confByte env) ⟨.modBlock, o, [], some n, as, res⟩ rest = .ok u := by
  obtain ⟨b, rest, rfl, hb, hbehind⟩ := exists_span isBlank text
  rw [run_name_blanks hb] at h
  cases rest with
  | nil =>
    cases h
    rcases hu with hu | hu <;> cases hu
  | cons c rest =>
    by_cases hc : c = braceOpen
    · subst hc
      rw [run_name_open] at h
      exact ⟨b, rest, rfl, hb, h⟩
    · have herror : confByte env ⟨.modNameEndBlank, o, [], some n, as, res⟩ c = .error .error := by
        simp [confByte, hc, hbehind c rest rfl]
      rw [run_cons_error herror] at h
      cases h

/-- **The parser reads the end of a name**, its gap and its `{`. -/
lemma run_name_gap {key gap : List UInt8} (hkey : All isNameByte key) (hlen : key.length ≤ 255)
    {n : Mod} (hn : Mod.named key = some n) (hgap : IsNameGap gap) (rest : List UInt8) :
    ∃ o', run (confByte env) ⟨.modName, o, key, m, as, res⟩ (gap ++ braceOpen :: rest) =
      run (confByte env) ⟨.modBlock, o', [], some n, as, createConf env n res⟩ rest := by
  have hend (x o : ConfSw) : (ConfParse.endKey ⟨x, o, key, m, as, res⟩ >>= modNameEnd env) =
      .ok ⟨x, o, [], some n, as, createConf env n res⟩ :=
    (name_end hkey x o _).mpr ⟨hlen, n, hn, rfl⟩
  have hbyte := @modName_byte env o m as res key
  rcases hgap with hb | ⟨k, b, hk, hb, rfl⟩
  · cases gap with
    | nil => exact ⟨o, run_cons_ok (((hbyte braceOpen).2.1 rfl).trans (hend _ _)) rest⟩
    | cons c b =>
      have hc := hb c (by simp)
      have hb' : All isBlank b := fun x hx => hb x (List.mem_cons_of_mem _ hx)
      refine ⟨o, ?_⟩
      rw [List.cons_append, run_cons_ok (((hbyte c).1 hc).trans (hend _ _)), run_name_blanks hb',
        run_name_open]
  · obtain ⟨body, hbody, heq⟩ := hk.append (b ++ braceOpen :: rest)
    refine ⟨.modNameEndBlank, ?_⟩
    rw [List.append_assoc, heq, run_cons_ok (((hbyte hash).2.2 rfl).trans (hend _ _)), run_comment hbody,
      run_name_blanks hb, run_name_open]

/-- **What the parser accepts inside a name starts with its end, a gap and a `{`.** -/
lemma name_sound {key text : List UInt8} {u : ConfParse} (hkey : All isNameByte key)
    (hlen : key.length ≤ 256)
    (h : run (confByte env) ⟨.modName, o, key, m, as, res⟩ text = .ok u) (hu : Accepting u) :
    ∃ w gap rest n o', text = w ++ gap ++ braceOpen :: rest ∧ All isNameByte (key ++ w) ∧
      (key ++ w).length ≤ 255 ∧ IsNameGap gap ∧ Mod.named (key ++ w) = some n ∧
      run (confByte env) ⟨.modBlock, o', [], some n, as, createConf env n res⟩ rest = .ok u := by
  obtain ⟨w, rest, rfl, hw, hbehind⟩ := exists_span isNameByte text
  obtain ⟨-, hrun⟩ := (run_name hw hlen rest u).mp h
  have hname : All isNameByte (key ++ w) := by
    intro c hc
    rcases List.mem_append.mp hc with hc | hc
    · exact hkey c hc
    · exact hw c hc
  cases rest with
  | nil =>
    cases hrun
    rcases hu with hu | hu <;> cases hu
  | cons c rest =>
    obtain ⟨hblank, hopen, hhash⟩ := @modName_byte env o m as res (key ++ w) c
    obtain ⟨p', hbyte, hrest⟩ := (run_cons_ok_iff _ _ _ _ _).mp hrun
    by_cases hcb : isBlank c = true
    · rw [hblank hcb, name_end hname] at hbyte
      obtain ⟨hshort, n, hn, rfl⟩ := hbyte
      obtain ⟨b, rest', rfl, hb, hblock⟩ := name_blanks_sound hrest hu
      refine ⟨w, c :: b, rest', n, o, by simp, hname, hshort, Or.inl ?_, hn, hblock⟩
      intro d hd
      rcases List.mem_cons.mp hd with rfl | hd
      · exact hcb
      · exact hb d hd
    by_cases hco : c = braceOpen
    · rw [hopen hco, name_end hname] at hbyte
      obtain ⟨hshort, n, hn, rfl⟩ := hbyte
      exact ⟨w, [], rest, n, o, by simp [hco], hname, hshort, Or.inl (by simp [All]), hn, hrest⟩
    by_cases hch : c = hash
    · rw [hhash hch, name_end hname] at hbyte
      obtain ⟨hshort, n, hn, rfl⟩ := hbyte
      obtain ⟨body, rest', rfl, hbody, hgap⟩ := comment_sound hrest hu
      obtain ⟨b, rest'', rfl, hb, hblock⟩ := name_blanks_sound hgap hu
      refine ⟨w, (hash :: body ++ [LF]) ++ b, rest'', n, .modNameEndBlank, by simp [hch], hname,
        hshort, Or.inr ⟨_, b, ⟨body, hbody, rfl⟩, hb, rfl⟩, hn, hblock⟩
    · have hbehind' := hbehind c rest rfl
      unfold isNameByte at hbehind'
      simp only [confByte, hbehind', hcb, hco, hch, if_false, Bool.false_eq_true, reduceCtorEq]
        at hbyte

/-! ## Texts -/

/-- The bytes that can stand outside of blocks. -/
lemma out_byte (c : UInt8) :
    (c = hash → confByte env ⟨.out, o, [], m, as, res⟩ c =
      .ok ⟨.comment, .out, [], m, as, res⟩) ∧
    (isBlank c = true → confByte env ⟨.out, o, [], m, as, res⟩ c = .ok ⟨.out, o, [], m, as, res⟩) ∧
    (isLetter c = true → confByte env ⟨.out, o, [], m, as, res⟩ c =
      .ok ⟨.modName, o, [c], m, as, res⟩) := by
  refine ⟨?_, ?_, ?_⟩
  · rintro rfl
    rfl
  · intro hc
    obtain ⟨hhash, hletter, -, -, -⟩ := blank_facts hc
    simp [confByte, hhash, hletter, hc]
  · intro hc
    simp [confByte, (letter_facts hc).1, hc, ConfParse.putKey]

/-- **The parser reads a text** and carries out its blocks. -/
lemma run_text {text : List UInt8} {bs : List ConfBlock} (h : ConfText text bs)
    (hshort : ∀ b ∈ bs, b.Short) {res' : Resource} (hperform : perform env res bs = some res')
    (o : ConfSw) (m : Option Mod) (as : List (List UInt8)) :
    ∃ o' m' as', run (confByte env) ⟨.out, o, [], m, as, res⟩ text =
      .ok ⟨.out, o', [], m', as', res'⟩ := by
  induction h generalizing res o m as with
  | nil =>
    cases hperform
    exact ⟨o, m, as, rfl⟩
  | blank hc hs ih =>
    obtain ⟨o', m', as', hrun⟩ := ih hshort hperform o m as
    exact ⟨o', m', as', by rw [run_cons_ok ((out_byte _).2.1 hc), hrun]⟩
  | comment hk hs ih =>
    obtain ⟨body, hbody, heq⟩ := hk.append _
    obtain ⟨o', m', as', hrun⟩ := ih hshort hperform .out m as
    exact ⟨o', m', as', by rw [heq, run_cons_ok ((out_byte _).1 rfl), run_comment hbody, hrun]⟩
  | @block name gap body s cs bs hname hgap hbody hs ih =>
    obtain ⟨⟨c, w, rfl, hc⟩, hall⟩ := hname
    obtain ⟨hlen, hwords⟩ := hshort _ (List.mem_cons_self)
    unfold perform at hperform
    rw [List.foldlM_cons] at hperform
    obtain ⟨res₁, hblock, hrest⟩ := Option.bind_eq_some_iff.mp hperform
    obtain ⟨n, hn, hcs⟩ := Option.bind_eq_some_iff.mp hblock
    have hw : All isNameByte w := fun x hx => hall x (List.mem_cons_of_mem _ hx)
    obtain ⟨o₁, hgapRun⟩ := @run_name_gap env o m as res (c :: w) gap hall hlen n hn hgap (body ++ s)
    obtain ⟨o₂, as₂, hbodyRun⟩ := run_block hbody hwords hcs o₁ as s
    obtain ⟨o', m', as', hrun⟩ := ih (fun b hb => hshort b (List.mem_cons_of_mem _ hb)) hrest o₂
      (some n) as₂
    refine ⟨o', m', as', ?_⟩
    have hkeys := (@run_name env o m as res w [c] hw (by simp) (gap ++ braceOpen :: (body ++ s))
      ⟨.out, o', [], m', as', res'⟩).mpr
    rw [show (c :: w) ++ gap ++ braceOpen :: body ++ s =
      c :: (w ++ (gap ++ braceOpen :: (body ++ s))) by simp, run_cons_ok ((out_byte c).2.2 hc)]
    refine hkeys ⟨?_, ?_⟩
    · simp only [List.length_cons, List.length_nil] at hlen ⊢
      omega
    · rw [List.singleton_append, hgapRun, hbodyRun, hrun]

/-- **What the parser accepts is a text.** -/
lemma text_sound {text : List UInt8} {u : ConfParse}
    (h : run (confByte env) ⟨.out, o, [], m, as, res⟩ text = .ok u) (hu : Accepting u) :
    ∃ bs, ConfText text bs ∧ (∀ b ∈ bs, b.Short) ∧ perform env res bs = some u.res := by
  induction hn : text.length using Nat.strong_induction_on generalizing text o m as res with
  | _ n ih =>
    cases text with
    | nil =>
      cases h
      exact ⟨[], .nil, by simp, rfl⟩
    | cons c text =>
      obtain ⟨hhash, hblank, hletter⟩ := @out_byte env o m as res c
      by_cases hc : c = hash
      · rw [run_cons_ok (hhash hc)] at h
        obtain ⟨body, rest, rfl, hbody, hrun⟩ := comment_sound h hu
        obtain ⟨bs, htext, hshort, hperform⟩ := ih rest.length (by simp [← hn]; omega) hrun rfl
        refine ⟨bs, ?_, hshort, hperform⟩
        have hcomment := ConfText.comment ⟨body, hbody, rfl⟩ htext
        simpa [hc] using hcomment
      by_cases hcb : isBlank c = true
      · rw [run_cons_ok (hblank hcb)] at h
        obtain ⟨bs, htext, hshort, hperform⟩ := ih text.length (by simp [← hn]) h rfl
        exact ⟨bs, .blank hcb htext, hshort, hperform⟩
      by_cases hcl : isLetter c = true
      · rw [run_cons_ok (hletter hcl)] at h
        obtain ⟨w, gap, rest, n', o', rfl, hname, hlen, hgap, hmod, hblock⟩ :=
          name_sound (All.singleton (letter_facts hcl).2.2.1) (by simp) h hu
        obtain ⟨bt, cs, rest', res', o'', as', rfl, hbt, hwords, hcs, hout⟩ := block_sound hblock hu
        obtain ⟨bs, htext, hshort, hperform⟩ :=
          ih rest'.length (by simp [← hn]; omega) hout rfl
        refine ⟨⟨c :: w, cs⟩ :: bs, ?_, ?_, ?_⟩
        · have hblockText := ConfText.block ⟨⟨c, w, rfl, hcl⟩, hname⟩ hgap hbt htext
          simpa using hblockText
        · intro b hb
          rcases List.mem_cons.mp hb with rfl | hb
          · exact ⟨hlen, hwords⟩
          · exact hshort b hb
        · unfold perform
          rw [List.foldlM_cons]
          refine Option.bind_eq_some_iff.mpr ⟨res', ?_, hperform⟩
          exact Option.bind_eq_some_iff.mpr ⟨n', hmod, hcs⟩
      · have herror : confByte env ⟨.out, o, [], m, as, res⟩ c = .error .error := by
          simp [confByte, hc, hcb, hcl]
        rw [run_cons_error herror] at h
        cases h

end

/-- The blocks that `read` gives make up the text; none is empty before its end. -/
def Splits (text : List UInt8) (reads : List (List UInt8)) : Prop :=
  reads.flatten = text ∧ ∀ data ∈ reads, data ≠ []

/-- The parser does not see where one read ends and the next one starts. -/
lemma confRead_eq (env : ConfEnv) (p : ConfParse) (reads : List (List UInt8))
    (hne : ∀ data ∈ reads, data ≠ []) :
    confRead env p (reads.map FileRead.bytes) =
      match run (confByte env) p reads.flatten with
      | .error e => .error e
      | .ok p => confEnd p := by
  induction reads generalizing p with
  | nil => rfl
  | cons data reads ih =>
    rw [List.map_cons, confRead, if_neg (hne data (by simp)), List.flatten_cons, run_append]
    cases run (confByte env) p data with
    | error e => rfl
    | ok p => exact ih p (fun x hx => hne x (List.mem_cons_of_mem _ hx))

/-- What `conf_file_parser` accepts is a text whose blocks can be carried out. -/
lemma confFileParser_sound {env : ConfEnv} {text : List UInt8} {reads : List (List UInt8)}
    (hreads : Splits text reads) {res : Resource}
    (h : confFileParser env (some (reads.map FileRead.bytes)) = .ok res) :
    ∃ bs, ConfText text bs ∧ (∀ b ∈ bs, b.Short) ∧ perform env emptyResource bs = some res := by
  obtain ⟨rfl, hne⟩ := hreads
  simp only [confFileParser, confRead_eq env confStart reads hne] at h
  unfold confStart at h
  cases hrun : run (confByte env) ⟨.out, .out, [], none, [], emptyResource⟩ reads.flatten with
  | error e => simp [hrun] at h
  | ok u =>
    simp only [hrun, confEnd] at h
    split_ifs at h with hu
    cases h
    exact text_sound hrun hu

/-- **`conf_file_parser` accepts exactly the configuration texts whose blocks can
be carried out**, and leaves behind what they say; the calls it makes are those of
the text in its order. -/
theorem confFileParser_ok_iff (env : ConfEnv) (text : List UInt8) (reads : List (List UInt8))
    (hreads : Splits text reads) (res : Resource) :
    confFileParser env (some (reads.map FileRead.bytes)) = .ok res ↔
      ∃ bs, ConfText text bs ∧ (∀ b ∈ bs, b.Short) ∧ perform env emptyResource bs = some res ∧
        res.calls = bs.flatMap ConfBlock.calls := by
  constructor
  · intro h
    obtain ⟨bs, htext, hshort, hperform⟩ := confFileParser_sound hreads h
    exact ⟨bs, htext, hshort, hperform, by simpa [emptyResource] using perform_calls hperform⟩
  · rintro ⟨bs, htext, hshort, hperform, -⟩
    obtain ⟨rfl, hne⟩ := hreads
    simp only [confFileParser, confRead_eq env confStart reads hne]
    unfold confStart
    obtain ⟨o, m, as, hrun⟩ := run_text htext hshort hperform .out none []
    rw [hrun]
    simp [confEnd]

/-- `net{listen 80;}`. -/
def listenText : List UInt8 :=
  [110, 101, 116, 123, 108, 105, 115, 116, 101, 110, 32, 56, 48, 59, 125]

/-- The text is read in two blocks, with the border inside a word. -/
theorem confFileParser_listen :
    ∃ bs, ConfText listenText bs ∧ (∀ b ∈ bs, b.Short) ∧
      perform ⟨[47], fun _ => true⟩ emptyResource bs =
        some ⟨none, some ⟨80, 0, false, 0⟩, fun _ => none, 1,
          [.createConf .net, .set .net .listen [Command.listen.name, [56, 48]]]⟩ ∧
      [.createConf .net, .set .net .listen [Command.listen.name, [56, 48]]] =
        bs.flatMap ConfBlock.calls :=
  (confFileParser_ok_iff ⟨[47], fun _ => true⟩ listenText
    [listenText.take 6, listenText.drop 6] ⟨by decide, by decide⟩
    ⟨none, some ⟨80, 0, false, 0⟩, fun _ => none, 1,
      [.createConf .net, .set .net .listen [Command.listen.name, [56, 48]]]⟩).mp rfl

end Xpipe
