import Mathlib.Data.List.Basic
import Mathlib.Data.List.Flatten
import Mathlib.Tactic

/-!
# Sequences in segments

A sequence that is kept in segments, and places in it given by a segment and an
offset. `index` is the place in the whole sequence; `walk` goes through segments one
after another. The rules say that a walk gives the part of the sequence it passes,
and what a change of one segment does to the sequence.
-/
namespace Segments

variable {α : Type*} {segs : List (List α)} {k o : ℕ}

/-- Segment `k`, empty behind the last one. -/
def pieceAt (segs : List (List α)) (k : ℕ) : List α := segs[k]?.getD []

/-- The number of elements in front of offset `o` of segment `k`. -/
def index (segs : List (List α)) (k o : ℕ) : ℕ := (segs.take k).flatten.length + o

/-- A walk through segments, from offset `o` of the first to offset `o'` of the last. -/
def walk : List (List α) → ℕ → ℕ → List α
  | [], _, _ => []
  | [s], o, o' => (s.take o').drop o
  | s :: t :: segs, o, o' => s.drop o ++ walk (t :: segs) 0 o'

/-- A change of segment `k` shows in its place. -/
theorem flatten_modify (hk : k < segs.length) (f : List α → List α) :
    (segs.modify k f).flatten =
      (segs.take k).flatten ++ (f (pieceAt segs k) ++ (segs.drop (k + 1)).flatten) := by
  rw [List.modify_eq_take_cons_drop hk, List.flatten_append, List.flatten_cons, pieceAt,
    List.getElem?_eq_getElem hk, Option.getD_some]

theorem flatten_split (hk : k < segs.length) :
    segs.flatten = (segs.take k).flatten ++ (pieceAt segs k ++ (segs.drop (k + 1)).flatten) := by
  have hsame := flatten_modify hk (fun l => l)
  rwa [show segs.modify k (fun l => l) = segs from List.modify_id k segs] at hsame

/-- **A walk to the end gives the sequence from its start on.** -/
theorem walk_eq (ho : o ≤ (pieceAt segs 0).length) :
    walk segs o (segs.getLastD []).length = segs.flatten.drop o := by
  induction segs generalizing o with
  | nil => simp [walk]
  | cons s segs ih =>
    cases segs with
    | nil => simp [walk]
    | cons t segs =>
      have hrest := @ih 0 (Nat.zero_le _)
      rw [List.drop_zero] at hrest
      have hlast : (s :: t :: segs).getLastD [] = (t :: segs).getLastD [] := rfl
      have ho' : o ≤ s.length := ho
      rw [walk, hlast, hrest, @List.flatten_cons _ s, List.drop_append_of_le_length ho']

/-- From a place on, the sequence is what its segment and the following ones hold. -/
theorem drop_index (segs : List (List α)) (k o : ℕ) :
    segs.flatten.drop (index segs k o) = (segs.drop k).flatten.drop o := by
  have hsplit : segs.flatten = (segs.take k).flatten ++ (segs.drop k).flatten := by
    rw [← List.flatten_append, List.take_append_drop]
  rw [hsplit, index, List.drop_length_add_append]

/-- Elements behind the last segment come behind the sequence. -/
theorem flatten_modify_last (hne : segs ≠ []) (c : List α) :
    (segs.modify (segs.length - 1) (fun l => l ++ c)).flatten = segs.flatten ++ c := by
  have hlt : segs.length - 1 < segs.length := by
    have := List.length_pos_iff.mpr hne
    omega
  have hnil : segs.drop (segs.length - 1 + 1) = [] := List.drop_eq_nil_of_le (by omega)
  rw [flatten_modify hlt, flatten_split hlt, hnil]
  simp

/-- A store into a segment is a store into the sequence. -/
theorem flatten_modify_set (hk : k < segs.length) (ho : o < (pieceAt segs k).length) (v : α) :
    (segs.modify k (fun l => l.set o v)).flatten = segs.flatten.set (index segs k o) v := by
  rw [flatten_modify hk, flatten_split hk, index, List.set_append_right _ _ (by omega),
    Nat.add_sub_cancel_left, List.set_append_left _ _ ho]

/-- Places depend on the lengths of the segments only. -/
theorem index_congr {segs' : List (List α)} (h : segs'.map List.length = segs.map List.length)
    (k o : ℕ) : index segs' k o = index segs k o := by
  unfold index
  rw [List.length_flatten, List.length_flatten, List.map_take, List.map_take, h]

end Segments
