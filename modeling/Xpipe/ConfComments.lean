import Xpipe.ConfPlaces

/-!
# Comments in a configuration text

A comment may be put at any place between blocks and between commands, and the
parser makes the same calls. Between a module name and its `{` there is room for
one comment, directly behind the name: `sw_mod_name_end_blank`, to which blanks and
a comment behind a name lead, has no case for `#`. `comment_transparent_iff` says
that these are the only places where a comment is not like a blank.
-/
namespace Xpipe
open Machines

/-- A place in front of, between or behind blocks. -/
def BetweenBlocks (pre : List UInt8) : Prop := ∃ bs, ConfText pre bs

/-- A place in a block, in front of, between or behind its commands. -/
def BetweenCommands (pre : List UInt8) : Prop :=
  ∃ before bs name gap body cs, pre = before ++ name ++ gap ++ braceOpen :: body ∧
    ConfText before bs ∧ IsName name ∧ IsNameGap gap ∧ BodyText body cs

/-- A place between a module name and its `{`: `g` stands between the name and the
place, `g'` between the place and the `{`. -/
def InNameGap (pre post g g' : List UInt8) : Prop :=
  ∃ before bs name rest, pre = before ++ name ++ g ∧ post = g' ++ braceOpen :: rest ∧
    ConfText before bs ∧ IsName name ∧ IsNameGap g ∧ IsNameGap (g ++ g')

/-- The place between `pre` and `post` is outside of commands, module names and
comments. -/
def OutsideTokens (pre post : List UInt8) : Prop :=
  BetweenBlocks pre ∨ BetweenCommands pre ∨ ∃ g g', InNameGap pre post g g'

/-- The place is between a module name and its `{`, and either it is not directly
behind the name, or a comment follows it there. -/
def SecondInGap (pre post : List UInt8) : Prop :=
  ∃ g g', InNameGap pre post g g' ∧ (g ≠ [] ∨ ¬ All isBlank g')

/-! ## A comment that is skipped -/

/-- The parser accepts `s` from the state `p` on, and leaves `res` behind. -/
def AcceptsFrom (env : ConfEnv) (p : ConfParse) (s : List UInt8) (res : Resource) : Prop :=
  ∃ u, run (confByte env) p s = .ok u ∧ Accepting u ∧ u.res = res

lemma confFileParser_ok_iff_accepts (env : ConfEnv) {text : List UInt8} {reads : List (List UInt8)}
    (hreads : Splits text reads) (res : Resource) :
    confFileParser env (some (reads.map FileRead.bytes)) = .ok res ↔
      AcceptsFrom env confStart text res := by
  obtain ⟨rfl, hne⟩ := hreads
  simp only [confFileParser, confRead_eq env confStart reads hne, AcceptsFrom]
  cases run (confByte env) confStart reads.flatten with
  | error e => simp
  | ok u =>
    simp only [confEnd, Except.ok.injEq, exists_eq_left', Accepting]
    split_ifs with hu
    · simp [hu]
    · simp [hu]

section
variable {env : ConfEnv} {p p' : ConfParse} {o o' : ConfSw} {m m' : Option Mod}
  {as as' : List (List UInt8)} {s t k : List UInt8} {res res' : Resource}

lemma acceptsFrom_append (h : run (confByte env) p s = .ok p') :
    AcceptsFrom env p (s ++ t) res ↔ AcceptsFrom env p' t res := by
  unfold AcceptsFrom
  rw [run_append_of_ok h]

/-- Between blocks the parser needs nothing but what it has built. -/
lemma AcceptsFrom.out (h : AcceptsFrom env ⟨.out, o, [], m, as, res⟩ s res') :
    AcceptsFrom env ⟨.out, o', [], m', as', res⟩ s res' := by
  obtain ⟨u, hrun, hu, rfl⟩ := h
  obtain ⟨bs, htext, hshort, hperform⟩ := text_sound hrun hu
  obtain ⟨o₁, m₁, as₁, hrun'⟩ := run_text htext hshort hperform o' m' as'
  exact ⟨_, hrun', Or.inl rfl, rfl⟩

/-- Between commands it also needs the module. -/
lemma AcceptsFrom.modBlock {m : Mod}
    (h : AcceptsFrom env ⟨.modBlock, o, [], some m, as, res⟩ s res') :
    AcceptsFrom env ⟨.modBlock, o', [], some m, as', res⟩ s res' := by
  obtain ⟨u, hrun, hu, rfl⟩ := h
  obtain ⟨bt, cs, rest, res₁, o₁, as₁, rfl, hbt, hshort, hcs, hrest⟩ := block_sound hrun hu
  obtain ⟨o₂, as₂, hblock⟩ := run_block hbt hshort hcs o' as' rest
  have hout : AcceptsFrom env ⟨.out, o₂, [], some m, as₂, res₁⟩ rest u.res :=
    AcceptsFrom.out ⟨u, hrest, hu, rfl⟩
  obtain ⟨u', hrest', hu', hres⟩ := hout
  exact ⟨u', (hblock u').mpr hrest', hu', hres⟩

/-- A comment in front, in a state whose `#` leads to one. -/
lemma AcceptsFrom.comment (hk : IsComment k)
    (hbyte : confByte env p hash = .ok ⟨.comment, o, [], m, as, res⟩)
    (h : AcceptsFrom env ⟨o, o, [], m, as, res⟩ s res') : AcceptsFrom env p (k ++ s) res' := by
  obtain ⟨body, hbody, heq⟩ := hk.append s
  unfold AcceptsFrom at h ⊢
  rw [heq, run_cons_ok hbyte, run_comment hbody]
  exact h

/-- **A comment between blocks is skipped.** -/
lemma BetweenBlocks.transparent {pre post : List UInt8} (hpre : BetweenBlocks pre)
    (hk : IsComment k) (h : AcceptsFrom env confStart (pre ++ post) res) :
    AcceptsFrom env confStart (pre ++ (k ++ post)) res := by
  obtain ⟨bs, htext⟩ := hpre
  obtain ⟨u, hrun, -⟩ := id h
  obtain ⟨res₁, p₁, -, hreach, o₁, m₁, as₁, rfl⟩ :=
    (reads_start htext).of_accepted hrun
  rw [acceptsFrom_append hreach] at h ⊢
  exact h.out.comment hk ((out_byte hash).1 rfl)

/-- **A comment between commands is skipped.** -/
lemma BetweenCommands.transparent {pre post : List UInt8} (hpre : BetweenCommands pre)
    (hk : IsComment k) (h : AcceptsFrom env confStart (pre ++ post) res) :
    AcceptsFrom env confStart (pre ++ (k ++ post)) res := by
  obtain ⟨before, bs, name, gap, body, cs, rfl, htext, hname, hgap, hbody⟩ := hpre
  obtain ⟨u, hrun, -⟩ := id h
  obtain ⟨res₁, p₁, -, hreach, n, o₁, as₁, -, rfl⟩ :=
    (reads_start_open htext hname hgap hbody).of_accepted hrun
  rw [acceptsFrom_append hreach] at h ⊢
  exact h.modBlock.comment hk ((modBlock_byte n as₁ hash).1 rfl)

/-! ## A comment behind a module name -/

/-- A name that is read to its end fits into the buffer, and there is a module of
that name. -/
lemma name_read {key gap rest : List UInt8} {u : ConfParse} (hkey : All isNameByte key)
    (hgap : IsNameGap gap)
    (h : run (confByte env) ⟨.modName, o, key, m, as, res⟩ (gap ++ braceOpen :: rest) = .ok u) :
    key.length ≤ 255 ∧ ∃ n, Mod.named key = some n := by
  have hfirst {c : UInt8} {s : List UInt8} {x o' : ConfSw}
      (hbyte : confByte env ⟨.modName, o, key, m, as, res⟩ c =
        ConfParse.endKey ⟨x, o', key, m, as, res⟩ >>= modNameEnd env)
      (hrun : run (confByte env) ⟨.modName, o, key, m, as, res⟩ (c :: s) = .ok u) :
      key.length ≤ 255 ∧ ∃ n, Mod.named key = some n := by
    obtain ⟨p₁, hp₁, -⟩ := (run_cons_ok_iff _ _ _ _ _).mp hrun
    rw [hbyte, name_end hkey] at hp₁
    obtain ⟨hlen, n, hn, -⟩ := hp₁
    exact ⟨hlen, n, hn⟩
  have hbyte := @modName_byte env o m as res key
  rcases hgap with hb | ⟨k, b, ⟨body, -, rfl⟩, -, rfl⟩
  · cases gap with
    | nil => exact hfirst ((hbyte braceOpen).2.1 rfl) h
    | cons c b => exact hfirst ((hbyte c).1 (hb c (by simp))) h
  · exact hfirst ((hbyte hash).2.2 rfl) h

/-- **A comment directly behind a name is skipped**, when only blanks follow it. -/
lemma InNameGap.transparent {pre post g' : List UInt8} (hgap : InNameGap pre post [] g')
    (hblank : All isBlank g') (hk : IsComment k)
    (h : AcceptsFrom env confStart (pre ++ post) res) :
    AcceptsFrom env confStart (pre ++ (k ++ post)) res := by
  obtain ⟨before, bs, name, rest, rfl, rfl, htext, hname, -, -⟩ := hgap
  rw [List.append_nil] at h ⊢
  obtain ⟨u, hrun, -⟩ := id h
  obtain ⟨-, p₁, -, hreach, o₁, m₁, as₁, res₁, rfl⟩ :=
    (reads_start_name htext hname).of_accepted hrun
  rw [acceptsFrom_append hreach] at h ⊢
  obtain ⟨u, hrun, -⟩ := id h
  obtain ⟨hlen, n, hn⟩ := name_read hname.2 (Or.inl hblank) hrun
  obtain ⟨o₂, hgap₂⟩ := @run_name_gap env o₁ m₁ as₁ res₁ name g' hname.2 hlen n hn
    (Or.inl hblank) rest
  obtain ⟨o₃, hgap₃⟩ := @run_name_gap env o₁ m₁ as₁ res₁ name (k ++ g') hname.2 hlen n hn
    (Or.inr ⟨k, g', hk, hblank, rfl⟩) rest
  have hblock :
      AcceptsFrom env ⟨.modBlock, o₂, [], some n, as₁, createConf env n res₁⟩ rest res := by
    unfold AcceptsFrom at h ⊢
    rwa [hgap₂] at h
  have hblock' : AcceptsFrom env ⟨.modBlock, o₃, [], some n, as₁, createConf env n res₁⟩ rest res :=
    hblock.modBlock
  unfold AcceptsFrom at hblock' ⊢
  rw [← List.append_assoc, hgap₃]
  exact hblock'

/-- **A `#` behind a gap that is not empty is an error.** -/
lemma second_rejected {before name gap rest : List UInt8} {bs : List ConfBlock}
    (htext : ConfText before bs) (hname : IsName name) (hgap : IsNameGap gap) (hne : gap ≠ []) :
    ¬ AcceptsFrom env confStart (before ++ name ++ gap ++ hash :: rest) res := by
  have hread : Reads env confStart (before ++ name ++ gap)
      ((perform env emptyResource bs).bind (fun res' => (Mod.named name).map
        (fun n => createConf env n res')))
      (fun _ q => ∃ n o as res', q = ⟨.modNameEndBlank, o, [], some n, as, res'⟩) := by
    rw [List.append_assoc]
    refine (reads_start htext).append ?_
    rintro res' q ⟨o', m', as', rfl⟩
    refine ((reads_name hname).then (reads_gap hname.2 hgap hne)).mono ?_
    rintro res'' q ⟨n, o'', -, rfl⟩
    exact ⟨n, o'', as', res'', rfl⟩
  rintro ⟨u, hrun, -⟩
  obtain ⟨-, p₁, -, hreach, n, o₁, as₁, res₁, rfl⟩ := hread.of_accepted hrun
  rw [run_append_of_ok hreach, run_cons_error (e := .error) rfl] at hrun
  cases hrun

end

/-- **A comment at a place outside of commands, module names and comments changes
nothing, exactly when it is not a second thing behind a module name.** -/
theorem comment_transparent_iff (env : ConfEnv) (pre post k : List UInt8) (hk : IsComment k)
    (hplace : OutsideTokens pre post) (reads : List (List UInt8))
    (hreads : Splits (pre ++ post) reads) (res : Resource)
    (hok : confFileParser env (some (reads.map FileRead.bytes)) = .ok res)
    (reads' : List (List UInt8)) (hreads' : Splits (pre ++ (k ++ post)) reads') :
    (∃ res', confFileParser env (some (reads'.map FileRead.bytes)) = .ok res' ∧
      res'.calls = res.calls) ↔ ¬ SecondInGap pre post := by
  rw [confFileParser_ok_iff_accepts env hreads] at hok
  constructor
  · rintro ⟨res', hok', -⟩ ⟨g, g', hgap, hsecond⟩
    rw [confFileParser_ok_iff_accepts env hreads'] at hok'
    obtain ⟨before, bs, name, rest, rfl, rfl, htext, hname, hg, hgg⟩ := hgap
    obtain ⟨body, hbody, heq⟩ := hk.append (g' ++ braceOpen :: rest)
    by_cases hne : g = []
    · subst hne
      rcases hgg with hblank | ⟨k₂, b, ⟨body₂, hbody₂, rfl⟩, hb, hgg⟩
      · exact hsecond.elim (fun h => h rfl) (fun h => h hblank)
      · have hk' : IsNameGap k := Or.inr ⟨k, [], hk, by simp [All], by simp⟩
        have hkne : k ≠ [] := by
          obtain ⟨body, -, rfl⟩ := hk
          simp
        rw [List.nil_append] at hgg
        rw [hgg, List.append_nil, ← List.append_assoc] at hok'
        exact second_rejected htext hname hk' hkne hok'
    · rw [heq] at hok'
      exact second_rejected htext hname hg hne hok'
  · intro hfirst
    refine ⟨res, ?_, rfl⟩
    rw [confFileParser_ok_iff_accepts env hreads']
    rcases hplace with hblocks | hcommands | ⟨g, g', hgap⟩
    · exact hblocks.transparent hk hok
    · exact hcommands.transparent hk hok
    · have hdirect : g = [] ∧ All isBlank g' := by
        by_contra hno
        exact hfirst ⟨g, g', hgap, by tauto⟩
      obtain ⟨rfl, hblank⟩ := hdirect
      exact hgap.transparent hblank hk hok

/-- `{listen 80;}`. -/
def listenBlock : List UInt8 := [123, 108, 105, 115, 116, 101, 110, 32, 56, 48, 59, 125]

/-- What `net{listen 80;}` leaves behind. -/
def listenResource : Resource :=
  ⟨none, some ⟨80, 0, false, 0⟩, fun _ => none, 1,
    [.createConf .net, .set .net .listen [Command.listen.name, [56, 48]]]⟩

/-- `#` and LF. -/
def emptyComment : List UInt8 := [35, 10]

lemma emptyComment_isComment : IsComment emptyComment := ⟨[], by simp, rfl⟩

/-- The place behind `net` and `gap`, in front of its block. -/
lemma net_outside {gap : List UInt8} (hgap : IsNameGap gap) :
    OutsideTokens (Mod.net.name ++ gap) listenBlock := by
  have hname : IsName Mod.net.name :=
    ⟨⟨110, [101, 116], rfl, by decide⟩, by decide⟩
  refine Or.inr (Or.inr
    ⟨gap, [], [], [], Mod.net.name, listenBlock.tail, rfl, rfl, .nil, hname, hgap, ?_⟩)
  rwa [List.append_nil]

/-- A comment directly behind `net` is skipped, so it is the first thing there. -/
theorem comment_transparent_net : ¬ SecondInGap (Mod.net.name ++ []) listenBlock :=
  (comment_transparent_iff ⟨[47], fun _ => true⟩ (Mod.net.name ++ []) listenBlock emptyComment
    emptyComment_isComment (net_outside (Or.inl (by decide))) [Mod.net.name ++ listenBlock]
    ⟨by decide, by decide⟩ listenResource rfl [Mod.net.name ++ emptyComment ++ listenBlock]
    ⟨by decide, by decide⟩).mp ⟨listenResource, rfl, rfl⟩

/-- A comment behind `net` and a blank is rejected. -/
theorem comment_transparent_blank :
    ¬ ∀ (env : ConfEnv) (pre post k : List UInt8) (reads : List (List UInt8)) (res : Resource)
      (reads' : List (List UInt8)), IsComment k → OutsideTokens pre post →
      Splits (pre ++ post) reads → confFileParser env (some (reads.map FileRead.bytes)) = .ok res →
      Splits (pre ++ (k ++ post)) reads' →
      ∃ res', confFileParser env (some (reads'.map FileRead.bytes)) = .ok res' ∧
        res'.calls = res.calls := by
  intro h
  obtain ⟨res', hok, -⟩ := h ⟨[47], fun _ => true⟩ (Mod.net.name ++ [32]) listenBlock emptyComment
    [Mod.net.name ++ [32] ++ listenBlock] listenResource
    [Mod.net.name ++ [32] ++ emptyComment ++ listenBlock] emptyComment_isComment
    (net_outside (Or.inl (by decide))) ⟨by decide, by decide⟩ rfl ⟨by decide, by decide⟩
  cases hok

end Xpipe
