import Xpipe.Decoding
import Xpipe.Logger

/-!
# The time of the log

`timer_update` of `times.c` prints the local time into `log_time`, an array of 21 bytes, of
which `cache_log_time` shows the first 20. `log_time_fits` says for which years the text
is within the array; for those that have no sign the texts are in the order of the times.
-/
namespace Xpipe

/-- `struct tm`, as `localtime` fills it, after the month and the year have been adjusted. -/
structure Tm where
  year : ℤ
  mon : ℕ
  mday : ℕ
  hour : ℕ
  min : ℕ
  sec : ℕ
  mon_le : mon ≤ 12
  mday_le : mday ≤ 31
  hour_le : hour ≤ 23
  min_le : min ≤ 59
  sec_le : sec ≤ 60

/-- The year, the month, the day, the hour, the minute and the second. -/
def Tm.fields (t : Tm) : List ℤ := [t.year, t.mon, t.mday, t.hour, t.min, t.sec]

/-- The decimal text of an `int`. -/
def intText (v : ℤ) : List UInt8 :=
  if v = 0 then [48] else if 0 < v then numeralOf v.toNat else 45 :: numeralOf (-v).toNat

/-- A text that is filled up on the left to the width of its field. -/
def padded (fill : UInt8) (width : ℕ) (s : List UInt8) : List UInt8 :=
  List.replicate (width - s.length) fill ++ s

/-- `%4d`. -/
def fourDigits (v : ℤ) : List UInt8 := padded 32 4 (intText v)

/-- `%02d`. -/
def twoDigits (n : ℕ) : List UInt8 := padded 48 2 (intText n)

/-- What `sprintf` prints: `"%4d-%02d-%02d/%02d:%02d:%02d "`. -/
def Tm.text (t : Tm) : List UInt8 :=
  fourDigits t.year ++ (45 :: (twoDigits t.mon ++ (45 :: (twoDigits t.mday ++ (47 ::
    (twoDigits t.hour ++ (58 :: (twoDigits t.min ++ (58 :: (twoDigits t.sec ++ [32]))))))))))

/-- The size of `log_time`. -/
def logTimeSize : ℕ := 21

/-- The text and its NUL are within `log_time`. -/
def Tm.Fits (t : Tm) : Prop := t.text.length + 1 ≤ logTimeSize

instance Tm.decidableFits (t : Tm) : Decidable t.Fits := inferInstanceAs (Decidable (_ ≤ _))

/-- `log_time` after `timer_update`: `sprintf` stores the text and its NUL. -/
def timerUpdate (logTime : List UInt8) (t : Tm) : List UInt8 :=
  t.text ++ NUL :: logTime.drop (t.text.length + 1)

/-- What `cache_log_time` shows: the first 20 bytes of `log_time`. -/
def cacheLogTime (logTime : List UInt8) : List UInt8 := logTime.take 20

/-! ## The width of the fields -/

lemma numeralOf_length_le_iff {n k : ℕ} : (numeralOf n).length ≤ k ↔ n < 10 ^ k := by
  unfold numeralOf
  rw [List.length_map, List.length_reverse]
  exact Nat.digits_length_le_iff (by norm_num) n

lemma padded_length (fill : UInt8) (width : ℕ) (s : List UInt8) :
    (padded fill width s).length = max width s.length := by
  unfold padded
  rw [List.length_append, List.length_replicate]
  omega

lemma numeralOf_digit {n : ℕ} (hpos : 0 < n) (hlt : n < 10) :
    numeralOf n = [UInt8.ofNat (48 + n)] := by
  rw [numeralOf, Nat.digits_of_lt 10 n hpos.ne' hlt]
  rfl

/-- The last digit of a numeral. -/
lemma numeralOf_snoc {n : ℕ} (h : 10 ≤ n) :
    numeralOf n = numeralOf (n / 10) ++ [UInt8.ofNat (48 + n % 10)] := by
  unfold numeralOf
  rw [Nat.digits_def' (by norm_num) (by omega), List.reverse_cons, List.map_append]
  rfl

lemma intText_length_le_four {v : ℤ} : (intText v).length ≤ 4 ↔ -999 ≤ v ∧ v ≤ 9999 := by
  unfold intText
  split_ifs with hzero hpos
  · simp [hzero]
  · rw [numeralOf_length_le_iff]
    omega
  · have hlen : (numeralOf (-v).toNat).length ≤ 3 ↔ (-v).toNat < 10 ^ 3 := numeralOf_length_le_iff
    rw [List.length_cons]
    omega

lemma twoDigits_eq {n : ℕ} (h : n < 100) :
    twoDigits n = [UInt8.ofNat (48 + n / 10), UInt8.ofNat (48 + n % 10)] := by
  unfold twoDigits padded intText
  by_cases hzero : n = 0
  · subst hzero
    rfl
  have hpos : (0 : ℤ) < n := by omega
  rw [if_neg (by omega), if_pos hpos, Int.toNat_natCast]
  by_cases hten : n < 10
  · rw [numeralOf_digit (by omega) hten, Nat.div_eq_of_lt hten, Nat.mod_eq_of_lt hten]
    rfl
  · rw [numeralOf_snoc (by omega), numeralOf_digit (by omega) (by omega)]
    rfl

lemma Tm.text_length (t : Tm) : t.text.length = max 4 (intText t.year).length + 16 := by
  have hmon := t.mon_le
  have hmday := t.mday_le
  have hhour := t.hour_le
  have hmin := t.min_le
  have hsec := t.sec_le
  have htwo {n : ℕ} (h : n < 100) : (twoDigits n).length = 2 := by rw [twoDigits_eq h]; rfl
  simp only [Tm.text, List.length_append, List.length_cons, List.length_nil,
    htwo (show t.mon < 100 by omega), htwo (show t.mday < 100 by omega),
    htwo (show t.hour < 100 by omega), htwo (show t.min < 100 by omega),
    htwo (show t.sec < 100 by omega), fourDigits, padded_length]

/-- The text fits exactly for years of at most four places. -/
lemma fits_iff (t : Tm) : t.Fits ↔ -999 ≤ t.year ∧ t.year ≤ 9999 := by
  rw [← intText_length_le_four]
  unfold Tm.Fits logTimeSize
  rw [t.text_length]
  omega

lemma Tm.Fits.length {t : Tm} (h : t.Fits) : t.text.length = 20 := by
  unfold Tm.Fits logTimeSize at h
  have hlen := t.text_length
  omega

/-- `cache_log_time` after `timer_update`: the whole text. -/
def Tm.cache (t : Tm) (h : t.Fits) : CacheLogTime := ⟨t.text, h.length⟩

/-- A text that fits is what `cache_log_time` shows, and `log_time` keeps its size. -/
lemma Tm.Fits.cached {t : Tm} (h : t.Fits) {logTime : List UInt8}
    (hsize : logTime.length = logTimeSize) :
    (timerUpdate logTime t).length = logTimeSize ∧ cacheLogTime (timerUpdate logTime t) = t.text := by
  constructor
  · unfold Tm.Fits at h
    rw [timerUpdate, List.length_append, List.length_cons, List.length_drop, hsize]
    omega
  · rw [cacheLogTime, timerUpdate, ← h.length, List.take_left]

/-! ## The order of the texts -/

/-- Lists whose first parts have the same length are compared part by part. -/
lemma append_lt_append_iff {α : Type*} [LT α] {a a' b b' : List α}
    (h : a.length = a'.length) : a ++ b < a' ++ b' ↔ a < a' ∨ a = a' ∧ b < b' := by
  induction a generalizing a' with
  | nil =>
    obtain rfl := List.length_eq_zero_iff.mp h.symm
    simp
  | cons x a ih =>
    cases a' with
    | nil => cases h
    | cons y a' =>
      have hlen : a.length = a'.length := by simpa using h
      have hrest := ih hlen
      simp only [List.cons_append, List.cons_lt_cons_iff, List.cons.injEq, hrest]
      tauto

lemma ofNat_lt_iff {a b : ℕ} (ha : a < 256) (hb : b < 256) :
    UInt8.ofNat a < UInt8.ofNat b ↔ a < b := by
  rw [UInt8.lt_iff_toNat_lt, UInt8.toNat_ofNat_of_lt' ha, UInt8.toNat_ofNat_of_lt' hb]

lemma twoDigits_lt {a b : ℕ} (hb : b < 100) (h : a < b) : twoDigits a < twoDigits b := by
  rw [twoDigits_eq (by omega), twoDigits_eq hb]
  simp only [List.cons_lt_cons_iff]
  by_cases htens : a / 10 < b / 10
  · exact Or.inl ((ofNat_lt_iff (by omega) (by omega)).mpr (by omega))
  · refine Or.inr ⟨by rw [show a / 10 = b / 10 by omega], Or.inl ?_⟩
    exact (ofNat_lt_iff (by omega) (by omega)).mpr (by omega)

/-- The digit of `n` at the place of `p`, or a blank in front of the number. -/
def leading (n p : ℕ) : ℕ := if n < p then 32 else 48 + n / p % 10

lemma leading_lt (n p : ℕ) : leading n p < 256 := by
  unfold leading
  split_ifs
  · omega
  · omega

lemma fourDigits_eq {n : ℕ} (h : n ≤ 9999) :
    fourDigits n = [UInt8.ofNat (leading n 1000), UInt8.ofNat (leading n 100),
      UInt8.ofNat (leading n 10), UInt8.ofNat (48 + n % 10)] := by
  unfold fourDigits padded intText
  by_cases hzero : n = 0
  · subst hzero
    rfl
  have hpos : (0 : ℤ) < n := by omega
  rw [if_neg (by omega), if_pos hpos, Int.toNat_natCast]
  unfold leading
  by_cases h1 : n < 10
  · rw [numeralOf_digit (by omega) h1, if_pos (by omega), if_pos (by omega), if_pos h1,
      Nat.mod_eq_of_lt h1]
    rfl
  rw [numeralOf_snoc (by omega), if_neg h1]
  by_cases h2 : n < 100
  · rw [numeralOf_digit (by omega) (by omega), if_pos (by omega), if_pos h2,
      Nat.mod_eq_of_lt (show n / 10 < 10 by omega)]
    rfl
  rw [numeralOf_snoc (by omega), if_neg h2]
  by_cases h3 : n < 1000
  · rw [numeralOf_digit (by omega) (by omega), if_pos h3, Nat.div_div_eq_div_mul,
      Nat.mod_eq_of_lt (show n / 100 < 10 by omega)]
    rfl
  have h100 : n / 10 / 10 = n / 100 := Nat.div_div_eq_div_mul n 10 10
  have h1000 : n / 100 / 10 = n / 1000 := Nat.div_div_eq_div_mul n 100 10
  rw [numeralOf_snoc (by omega), numeralOf_digit (by omega) (by omega), if_neg h3, h100, h1000,
    Nat.mod_eq_of_lt (show n / 1000 < 10 by omega)]
  rfl

/-- Numbers that agree above a place and differ there. -/
lemma leading_cmp {a b p : ℕ} (hhigh : a / p / 10 = b / p / 10) (h : a / p < b / p) :
    leading a p < leading b p := by
  have hbig : p ≤ b := by
    by_contra hlt
    rw [Nat.div_eq_of_lt (Nat.lt_of_not_le hlt)] at h
    exact Nat.not_lt_zero _ h
  unfold leading
  rw [if_neg (Nat.not_lt.mpr hbig)]
  split_ifs
  · omega
  · omega

lemma leading_congr {a b p : ℕ} (hp : 0 < p) (h : a / p = b / p) : leading a p = leading b p := by
  unfold leading
  have hsmall : a < p ↔ b < p := by
    rw [← Nat.div_eq_zero_iff_lt hp, ← Nat.div_eq_zero_iff_lt hp, h]
  simp only [hsmall, h]

/-- The first place at which two numbers differ decides between their texts. -/
lemma fourDigits_lt {a b : ℕ} (hb : b ≤ 9999) (h : a < b) : fourDigits a < fourDigits b := by
  have hlead {p : ℕ} (hp : leading a p < leading b p) :
      UInt8.ofNat (leading a p) < UInt8.ofNat (leading b p) :=
    (ofNat_lt_iff (leading_lt a p) (leading_lt b p)).mpr hp
  rw [fourDigits_eq (by omega), fourDigits_eq hb]
  simp only [List.cons_lt_cons_iff]
  by_cases h1 : a / 1000 < b / 1000
  · exact Or.inl (hlead (leading_cmp (by omega) h1))
  refine Or.inr ⟨by rw [leading_congr (b := b) (by norm_num) (by omega)], ?_⟩
  by_cases h2 : a / 100 < b / 100
  · exact Or.inl (hlead (leading_cmp (by omega) h2))
  refine Or.inr ⟨by rw [leading_congr (b := b) (by norm_num) (by omega)], ?_⟩
  by_cases h3 : a / 10 < b / 10
  · exact Or.inl (hlead (leading_cmp (by omega) h3))
  refine Or.inr ⟨by rw [leading_congr (b := b) (by norm_num) (by omega)], Or.inl ?_⟩
  exact (ofNat_lt_iff (by omega) (by omega)).mpr (by omega)

/-- A text that is strictly monotone in its number decides the order of the numbers. -/
lemma field_lt_iff {f : ℕ → List UInt8} (bound : ℕ)
    (hf : ∀ a b, b ≤ bound → a < b → f a < f b) {a b : ℕ} (ha : a ≤ bound) (hb : b ≤ bound) :
    (f a < f b ↔ a < b) ∧ (f a = f b ↔ a = b) := by
  have hirrefl : ∀ s : List UInt8, ¬ s < s := List.lt_irrefl
  rcases lt_trichotomy a b with hlt | rfl | hgt
  · have htext := hf a b hb hlt
    have hne : f a ≠ f b := fun heq => hirrefl _ (heq ▸ htext)
    simp [htext, hlt, hne, hlt.ne]
  · simp [hirrefl]
  · have htext := hf b a ha hgt
    have hne : f a ≠ f b := fun heq => hirrefl _ (heq ▸ htext)
    have hnot : ¬ f a < f b := fun hlt => hirrefl _ (List.lt_trans hlt htext)
    simp [hnot, hne, hgt.ne', hgt.le]

/-- **The texts are in the order of the times.** -/
lemma text_lt_iff {t t' : Tm} (ht : 0 ≤ t.year ∧ t.year ≤ 9999)
    (ht' : 0 ≤ t'.year ∧ t'.year ≤ 9999) : t.text < t'.text ↔ t.fields < t'.fields := by
  have hone {c : UInt8} {a b : List UInt8} : c :: a < c :: b ↔ a < b := List.cons_lt_cons_self
  have htwo {a b : ℕ} (ha : a ≤ 60) (hb : b ≤ 60) (s s' : List UInt8) :
      twoDigits a ++ s < twoDigits b ++ s' ↔ a < b ∨ a = b ∧ s < s' := by
    obtain ⟨hlt, heq⟩ := field_lt_iff (f := twoDigits) 60
      (fun a b hb h => twoDigits_lt (by omega) h) ha hb
    have hlen : (twoDigits a).length = (twoDigits b).length := by
      rw [twoDigits_eq (by omega), twoDigits_eq (by omega)]
      rfl
    rw [append_lt_append_iff hlen, hlt, heq]
  have hmon := t.mon_le
  have hmon' := t'.mon_le
  have hmday := t.mday_le
  have hmday' := t'.mday_le
  have hhour := t.hour_le
  have hhour' := t'.hour_le
  have hmin := t.min_le
  have hmin' := t'.min_le
  obtain ⟨y, hy⟩ := Int.eq_ofNat_of_zero_le ht.1
  obtain ⟨y', hy'⟩ := Int.eq_ofNat_of_zero_le ht'.1
  obtain ⟨hlt, heq⟩ := field_lt_iff (f := fun n => fourDigits n) 9999
    (fun a b hb h => fourDigits_lt hb h) (show y ≤ 9999 by omega) (show y' ≤ 9999 by omega)
  have hlen : (fourDigits y).length = (fourDigits y').length := by
    rw [fourDigits_eq (by omega), fourDigits_eq (by omega)]
    rfl
  simp only [Tm.text, Tm.fields, hy, hy', List.cons_lt_cons_iff]
  rw [append_lt_append_iff hlen, hlt, heq]
  rw [hone, htwo (by omega) (by omega), hone, htwo (by omega) (by omega), hone,
    htwo (by omega) (by omega), hone, htwo (by omega) (by omega), hone, htwo t.sec_le t'.sec_le]
  simp

/-- **The time of the log.** `timer_update` stays within `log_time` exactly for the years
from -999 to 9999, and then `cache_log_time` shows the whole text, which has 20 bytes. For
years without a sign the texts compare as the times do, field by field. -/
theorem log_time :
    (∀ t : Tm, t.Fits ↔ -999 ≤ t.year ∧ t.year ≤ 9999) ∧
      (∀ (t : Tm) (logTime : List UInt8) (h : t.Fits), logTime.length = logTimeSize →
        (timerUpdate logTime t).length = logTimeSize ∧
          cacheLogTime (timerUpdate logTime t) = t.cache h ∧
          cacheLogTime (timerUpdate logTime t) = t.text ∧ t.text.length = 20) ∧
      ∀ t t' : Tm, 0 ≤ t.year → t.year ≤ 9999 → 0 ≤ t'.year → t'.year ≤ 9999 →
        (t.text < t'.text ↔ t.fields < t'.fields) := by
  refine ⟨fits_iff, fun t logTime h hsize => ?_, fun _ _ hlow hhigh hlow' hhigh' =>
    text_lt_iff ⟨hlow, hhigh⟩ ⟨hlow', hhigh'⟩⟩
  obtain ⟨hkeep, hshows⟩ := h.cached hsize
  exact ⟨hkeep, hshows, hshows, h.length⟩

/-- A year of three places comes before one of four, and is shown whole. -/
theorem log_time_early :
    let t : Tm := ⟨987, 12, 31, 23, 59, 60, by decide, by decide, by decide, by decide, by decide⟩
    let t' : Tm := ⟨1024, 1, 2, 3, 4, 5, by decide, by decide, by decide, by decide, by decide⟩
    t.text < t'.text ∧
      cacheLogTime (timerUpdate (List.replicate 21 0) t) = t.text ∧ t.text.length = 20 := by
  intro t t'
  have hfits : t.Fits := (log_time.1 t).mpr (by decide)
  obtain ⟨-, -, hshows, hlen⟩ := log_time.2.1 t (List.replicate 21 0) hfits rfl
  exact ⟨(log_time.2.2 t t' (by decide) (by decide) (by decide) (by decide)).mpr (by decide),
    hshows, hlen⟩

end Xpipe
