import Mathlib.Data.Finset.Basic
import Mathlib.Data.List.Perm.Basic
import Mathlib.Tactic

/-!
# Resources and their owners

A resource is made once, is live until it is destroyed, and has an owner or has
lost it. `Kept` balances the live resources against the owned and the lost ones
and the destroyed ones against all of them: every resource stands in exactly one
of the three lists, once.
-/
namespace Custody

variable {α : Type*} [DecidableEq α] {live : Finset α} {own own' lost gone : List α} {a : α}

/-- The live resources are the owned and the lost ones, each once; none of them
has been destroyed, and nothing has been destroyed twice. -/
structure Kept (live : Finset α) (own lost gone : List α) : Prop where
  live : live = (own ++ lost).toFinset
  nodup : (own ++ lost ++ gone).Nodup

theorem Kept.perm (h : Kept live own lost gone) (hperm : own.Perm own') :
    Kept live own' lost gone := by
  refine ⟨?_, ((hperm.append_right lost).append_right gone).nodup_iff.mp h.nodup⟩
  rw [h.live]
  exact List.toFinset_eq_of_perm _ _ (hperm.append_right lost)

/-- A new resource with an owner. -/
theorem Kept.acquire (h : Kept live own lost gone) (hnew : a ∉ own ++ lost ++ gone) :
    Kept (insert a live) (a :: own) lost gone := by
  refine ⟨?_, List.nodup_cons.mpr ⟨hnew, h.nodup⟩⟩
  rw [h.live]
  simp

/-- A new resource that nobody owns. -/
theorem Kept.lose (h : Kept live own lost gone) (hnew : a ∉ own ++ lost ++ gone) :
    Kept (insert a live) own (a :: lost) gone := by
  constructor
  · rw [h.live]
    ext x
    simp only [Finset.mem_insert, List.mem_toFinset, List.mem_append, List.mem_cons]
    tauto
  · have hmove : (own ++ a :: lost ++ gone).Perm (a :: (own ++ lost ++ gone)) := by
      rw [List.append_assoc, List.append_assoc, List.cons_append]
      exact List.perm_middle
    exact hmove.nodup_iff.mpr (List.nodup_cons.mpr ⟨hnew, h.nodup⟩)

/-- An owned resource is destroyed. -/
theorem Kept.release (h : Kept live (a :: own) lost gone) :
    Kept (live.erase a) own lost (a :: gone) := by
  have hnodup : (a :: (own ++ lost ++ gone)).Nodup := h.nodup
  obtain ⟨hout, hrest⟩ := List.nodup_cons.mp hnodup
  constructor
  · rw [h.live]
    ext x
    simp only [Finset.mem_erase, List.mem_toFinset, List.mem_append, List.mem_cons]
    constructor
    · rintro ⟨hne, (rfl | hx) | hx⟩
      · exact absurd rfl hne
      · exact Or.inl hx
      · exact Or.inr hx
    · intro hx
      have hne : x ≠ a := by
        rintro rfl
        exact hout (List.mem_append_left gone (List.mem_append.mpr hx))
      exact ⟨hne, hx.imp_left Or.inr⟩
  · exact (List.perm_middle.nodup_iff).mpr hnodup

theorem Kept.mem_live (h : Kept live own lost gone) (ha : a ∈ own) : a ∈ live := by
  rw [h.live, List.mem_toFinset]
  exact List.mem_append_left lost ha

/-- Every live resource has an owner exactly when none was lost. -/
theorem Kept.live_eq_iff (h : Kept live own lost gone) : live = own.toFinset ↔ lost = [] := by
  constructor
  · intro heq
    apply List.eq_nil_iff_forall_not_mem.mpr
    intro x hx
    have hlive : x ∈ live := by
      rw [h.live, List.mem_toFinset]
      exact List.mem_append_right own hx
    rw [heq, List.mem_toFinset] at hlive
    have hpart := List.nodup_append.mp (List.nodup_append.mp h.nodup).1
    exact hpart.2.2 x hlive x hx rfl
  · rintro rfl
    rw [h.live, List.append_nil]

end Custody
