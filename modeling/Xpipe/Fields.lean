import Mathlib.Data.List.Pairwise
import Mathlib.Tactic

/-!
# Fields in flat memory

A flat memory of bytes, and fields in it: an address, a width and a value, the least
significant byte first. Fields that are apart do not disturb each other, a field that is
cleared holds zero, and memory shows at most one value of a field.
-/
namespace Fields

/-- The byte at every address. -/
abbrev Memory := ℕ → UInt8

structure Field where
  addr : ℕ
  width : ℕ
  value : ℕ
  deriving DecidableEq, Repr

namespace Field

/-- The bytes of a field, the least significant first. -/
def byte (f : Field) (i : ℕ) : UInt8 := UInt8.ofNat (f.value / 256 ^ i)

/-- The memory holds the field. -/
def In (f : Field) (mem : Memory) : Prop :=
  f.value < 256 ^ f.width ∧ ∀ i < f.width, mem (f.addr + i) = f.byte i

instance (f : Field) (mem : Memory) : Decidable (f.In mem) := inferInstanceAs (Decidable (_ ∧ _))

/-- The field does not meet the `n` bytes at `a`. -/
def Misses (f : Field) (a n : ℕ) : Prop := f.addr + f.width ≤ a ∨ a + n ≤ f.addr

instance (f : Field) (a n : ℕ) : Decidable (f.Misses a n) := inferInstanceAs (Decidable (_ ∨ _))

/-- Two fields without a common byte. -/
def Apart (f g : Field) : Prop := f.Misses g.addr g.width

instance (f g : Field) : Decidable (f.Apart g) := inferInstanceAs (Decidable (f.Misses _ _))

lemma Apart.symm {f g : Field} (h : f.Apart g) : g.Apart f := Or.symm h

/-- A store into the field. -/
def store (mem : Memory) (f : Field) : Memory := fun a =>
  if f.addr ≤ a ∧ a < f.addr + f.width then f.byte (a - f.addr) else mem a

end Field

/-- Stores into all the fields of a list. -/
def storeAll (mem : Memory) (fs : List Field) : Memory := fs.foldl Field.store mem

/-- `n` zeros at `a`. -/
def clear (mem : Memory) (a n : ℕ) : Memory := fun b => if a ≤ b ∧ b < a + n then 0 else mem b

variable {mem : Memory} {f g : Field} {a n : ℕ}

lemma Field.In.store_self (h : f.value < 256 ^ f.width) : f.In (f.store mem) := by
  refine ⟨h, fun i hi => ?_⟩
  have hin : f.addr ≤ f.addr + i ∧ f.addr + i < f.addr + f.width := by omega
  simp only [Field.store, if_pos hin, Nat.add_sub_cancel_left]

/-- A store leaves the fields alone that are apart. -/
lemma Field.In.store (h : f.In mem) (hfg : f.Apart g) : f.In (g.store mem) := by
  refine ⟨h.1, fun i hi => ?_⟩
  have hout : ¬ (g.addr ≤ f.addr + i ∧ f.addr + i < g.addr + g.width) := by
    simp only [Field.Apart, Field.Misses] at hfg
    omega
  simp only [Field.store, if_neg hout]
  exact h.2 i hi

lemma Field.In.storeAll {fs : List Field} (h : f.In mem) (hfs : ∀ g ∈ fs, f.Apart g) :
    f.In (storeAll mem fs) := by
  unfold Fields.storeAll
  induction fs generalizing mem with
  | nil => exact h
  | cons g fs ih =>
    rw [List.foldl_cons]
    exact ih (h.store (hfs g (by simp))) (fun g' hg' => hfs g' (List.mem_cons_of_mem g hg'))

/-- **Fields that are apart** are all there after a store into each of them. -/
theorem storeAll_in {fs : List Field} (hvalue : ∀ f ∈ fs, f.value < 256 ^ f.width)
    (hapart : fs.Pairwise Field.Apart) : ∀ f ∈ fs, f.In (storeAll mem fs) := by
  induction fs generalizing mem with
  | nil => simp
  | cons g fs ih =>
    obtain ⟨hg, hrest⟩ := List.pairwise_cons.mp hapart
    intro f hf
    rcases List.mem_cons.mp hf with rfl | hf
    · exact (Field.In.store_self (hvalue f (by simp))).storeAll hg
    · exact ih (fun f' hf' => hvalue f' (List.mem_cons_of_mem g hf')) hrest f hf

/-- Clearing leaves the fields alone that it misses. -/
theorem Field.In.clear (h : f.In mem) (hmiss : f.Misses a n) : f.In (clear mem a n) := by
  refine ⟨h.1, fun i hi => ?_⟩
  have hout : ¬ (a ≤ f.addr + i ∧ f.addr + i < a + n) := by
    simp only [Field.Misses] at hmiss
    omega
  simp only [Fields.clear, if_neg hout]
  exact h.2 i hi

/-- Two numbers of `n` bytes that agree in every byte are equal. -/
lemma eq_of_bytes {u v : ℕ} (hu : u < 256 ^ n) (hv : v < 256 ^ n)
    (h : ∀ i < n, UInt8.ofNat (u / 256 ^ i) = UInt8.ofNat (v / 256 ^ i)) : u = v := by
  induction n generalizing u v with
  | zero =>
    rw [pow_zero] at hu hv
    omega
  | succ n ih =>
    have hlow := congrArg UInt8.toNat (h 0 (Nat.succ_pos n))
    simp only [pow_zero, Nat.div_one, UInt8.toNat_ofNat'] at hlow
    have hhigh : u / 256 = v / 256 := by
      rw [pow_succ] at hu hv
      apply ih (Nat.div_lt_of_lt_mul (by omega)) (Nat.div_lt_of_lt_mul (by omega))
      intro i hi
      have hnext := h (i + 1) (Nat.succ_lt_succ hi)
      rwa [pow_succ', ← Nat.div_div_eq_div_mul, ← Nat.div_div_eq_div_mul] at hnext
    omega

/-- **Memory shows one value** of a field. -/
theorem Field.In.value_eq (hf : f.In mem) (hg : g.In mem) (haddr : f.addr = g.addr)
    (hwidth : f.width = g.width) : f.value = g.value := by
  refine eq_of_bytes hf.1 (hwidth ▸ hg.1) (fun i hi => ?_)
  have hbyte := hf.2 i hi
  rw [haddr, hg.2 i (hwidth ▸ hi)] at hbyte
  exact hbyte.symm

/-- **A field that is cleared** holds zero. -/
theorem Field.In.value_of_clear (h : f.In (Fields.clear mem a n)) (hlow : a ≤ f.addr)
    (hhigh : f.addr + f.width ≤ a + n) : f.value = 0 := by
  have hzero : (⟨f.addr, f.width, 0⟩ : Field).In (Fields.clear mem a n) := by
    refine ⟨Nat.pow_pos (by decide), fun i hi => ?_⟩
    simp only at hi
    have hin : a ≤ f.addr + i ∧ f.addr + i < a + n := by omega
    simp [Fields.clear, hin, Field.byte]
  exact h.value_eq hzero rfl rfl

end Fields
