import Xpipe.PoolRegions

/-!
# Large blocks

The list `pool->large` over the calls of a pool. Each entry has the data of one block or
none; a request brings a block that was not in use into an empty entry or a new one, and
`pfree_large` finds the entry of its argument and empties it.
-/
namespace Xpipe

/-! ## The entries -/

/-- The data of the entries that are not empty. -/
def dataOf (large : List Large) : List Addr := large.filterMap Large.data

lemma reuseHeader_perm {p : Addr} {ls ls' : List Large} {n : ℕ}
    (h : reuseHeader p ls n = some ls') :
    (dataOf ls').Perm (p :: dataOf ls) := by
  induction ls generalizing n ls' with
  | nil => simp [reuseHeader] at h
  | cons l ls ih =>
    simp only [reuseHeader] at h
    split_ifs at h with hempty
    · cases h
      simp [dataOf, hempty]
    · obtain ⟨rest, hrest, rfl⟩ := Option.map_eq_some_iff.mp h
      obtain ⟨q, hq⟩ := Option.ne_none_iff_exists'.mp hempty
      have hperm : (q :: dataOf rest).Perm (p :: q :: dataOf ls) :=
        ((ih hrest).cons q).trans (List.Perm.swap p q _)
      simpa [dataOf, hq] using hperm

/-- The search of `pfree_large` finds the data that are there. -/
lemma dropData_none_iff {p : Addr} {ls : List Large} : dropData p ls = none ↔ p ∉ dataOf ls := by
  induction ls with
  | nil => simp [dropData, dataOf]
  | cons l ls ih =>
    by_cases hl : l.data = some p
    · simp [dropData, dataOf, hl]
    · have htail : p ∈ dataOf (l :: ls) ↔ p ∈ dataOf ls := by simp [dataOf, hl]
      rw [dropData, if_neg hl, Option.map_eq_none_iff, ih, htail]

lemma dropData_some {p : Addr} {ls ls' : List Large} (h : dropData p ls = some ls') :
    (p :: dataOf ls').Perm (dataOf ls) ∧
      ∃ i l, ls[i]? = some l ∧ l.data = some p ∧ ls' = ls.set i { l with data := none } := by
  induction ls generalizing ls' with
  | nil => simp [dropData] at h
  | cons l ls ih =>
    simp only [dropData] at h
    split_ifs at h with hl
    · cases h
      exact ⟨by simp [dataOf, hl], 0, l, rfl, hl, rfl⟩
    · obtain ⟨rest, hrest, rfl⟩ := Option.map_eq_some_iff.mp h
      obtain ⟨hperm, i, l', hget, hdata, hset⟩ := ih hrest
      refine ⟨?_, i + 1, l', hget, hdata, by rw [hset]; rfl⟩
      cases hq : l.data with
      | none => simpa [dataOf, hq] using hperm
      | some q =>
        have hcons : (p :: q :: dataOf rest).Perm (q :: dataOf ls) :=
          (List.Perm.swap q p _).trans (hperm.cons q)
        simpa [dataOf, hq] using hcons

/-! ## The entries over a call -/

lemma pmallocSmall_live (s : Store) (n : ℕ) (ok : Bool) :
    s.heap.live ⊆ (pmallocSmall s n ok).2.heap.live := by
  rcases pmallocSmall_cases s n ok with ⟨i, c, -, -, -, heq⟩ | ⟨-, -, heq⟩ | ⟨-, -, heq⟩
  · rw [heq]
  · rw [heq]
  · rw [heq, (fresh_addMemChunk s n).2.1]
    exact Finset.subset_insert _ _

/-- A block that is not the one given to `free` stays live. -/
lemma mem_live_free {h : Heap} {p : Addr} {b : ℕ} (hb : b ∈ h.live) (hne : b ≠ p.block) :
    b ∈ (h.free p).live := by
  simp only [Heap.free]
  split_ifs
  · exact Finset.mem_erase.mpr ⟨hne, hb⟩
  · exact hb

/-- **All that a large request can do to the list**: nothing, or a block that was not in use
comes to it. -/
lemma allocLargeMem_data {s : Store} (hs : ∀ b ∈ s.heap.live, b < s.heap.fresh) (n : ℕ)
    (m : Mallocs) :
    s.heap.live ⊆ (allocLargeMem s n m).2.heap.live ∧
      ((allocLargeMem s n m).1 = none ∧ (allocLargeMem s n m).2.pool.large = s.pool.large ∨
        (allocLargeMem s n m).1 = some ⟨s.heap.fresh, 0⟩ ∧
          s.heap.fresh ∈ (allocLargeMem s n m).2.heap.live ∧
          (dataOf (allocLargeMem s n m).2.pool.large).Perm
            (⟨s.heap.fresh, 0⟩ :: dataOf s.pool.large)) := by
  have hgrown : (withData s n).heap.live = insert s.heap.fresh s.heap.live := rfl
  have hlarge := pmallocSmall_large (withData s n) sizeofLarge m.chunk
  have hlive := pmallocSmall_live (withData s n) sizeofLarge m.chunk
  rcases allocLargeMem_cases s n m with
    ⟨-, heq⟩ | ⟨large, -, hreuse, heq⟩ | ⟨s', -, -, hnone, heq⟩ | ⟨a, s', -, -, hsome, heq⟩
  · rw [heq]
    exact ⟨subset_rfl, Or.inl ⟨rfl, rfl⟩⟩
  · rw [heq]
    simp only [hgrown]
    exact ⟨Finset.subset_insert _ _,
      Or.inr ⟨trivial, Finset.mem_insert_self _ _, reuseHeader_perm hreuse⟩⟩
  · rw [hnone] at hlarge hlive
    rw [hgrown] at hlive
    rw [heq]
    refine ⟨fun b hb => ?_, Or.inl ⟨rfl, hlarge⟩⟩
    -- the block that is given back is not one that was live before
    exact mem_live_free (hlive (Finset.mem_insert_of_mem hb)) (hs b hb).ne
  · rw [hsome] at hlarge hlive
    rw [hgrown] at hlive
    rw [heq]
    refine ⟨(Finset.subset_insert _ _).trans hlive, Or.inr ⟨rfl, ?_, ?_⟩⟩
    · exact hlive (Finset.mem_insert_self _ _)
    · have hlist : s'.pool.large = s.pool.large := hlarge
      simp [dataOf, hlist]

/-- No block is the data of two entries, and each is live. -/
structure Entries (s : Store) : Prop where
  nodup : (dataOf s.pool.large).Nodup
  start : ∀ a ∈ dataOf s.pool.large, a.off = 0
  live : ∀ a ∈ dataOf s.pool.large, a.block ∈ s.heap.live

namespace Entries

variable {s : Store}

/-- A step that leaves the list alone and takes nothing from what is live. -/
lemma keep (h : Entries s) {s' : Store} (hlarge : s'.pool.large = s.pool.large)
    (hlive : s.heap.live ⊆ s'.heap.live) : Entries s' := by
  constructor
  · rw [hlarge]
    exact h.nodup
  · rw [hlarge]
    exact h.start
  · rw [hlarge]
    exact fun a ha => hlive (h.live a ha)

/-- The large block that a request returns comes to the list. -/
lemma pmalloc (h : Entries s) (hs : ∀ b ∈ s.heap.live, b < s.heap.fresh) (n : SizeT)
    (m : Mallocs) :
    Entries (pmalloc s n m).2 ∧ (dataOf (Xpipe.pmalloc s n m).2.pool.large).Perm
      ((if s.pool.max < n.val then (Xpipe.pmalloc s n m).1.toList else []) ++
        dataOf s.pool.large) := by
  unfold Xpipe.pmalloc
  by_cases hsmall : n.val ≤ s.pool.max
  · have hlarge := pmallocSmall_large s n m.chunk
    simp only [if_pos hsmall, if_neg (Nat.not_lt.mpr hsmall), List.nil_append, hlarge]
    exact ⟨h.keep hlarge (pmallocSmall_live s n m.chunk), List.Perm.refl _⟩
  · simp only [if_neg hsmall, if_pos (Nat.lt_of_not_le hsmall)]
    obtain ⟨hlive, ⟨hnone, hlarge⟩ | ⟨hsome, hin, hperm⟩⟩ := allocLargeMem_data hs n m
    · rw [hnone, hlarge]
      exact ⟨h.keep hlarge hlive, List.Perm.refl _⟩
    · rw [hsome]
      refine ⟨⟨?_, fun a ha => ?_, fun a ha => ?_⟩, hperm⟩
      · -- a block that was not in use is in no entry
        have hnew : (⟨s.heap.fresh, 0⟩ : Addr) ∉ dataOf s.pool.large :=
          fun hmem => (hs _ (h.live _ hmem)).false
        exact hperm.nodup_iff.mpr (List.nodup_cons.mpr ⟨hnew, h.nodup⟩)
      · rcases List.mem_cons.mp (hperm.mem_iff.mp ha) with rfl | ha
        · rfl
        · exact h.start a ha
      · rcases List.mem_cons.mp (hperm.mem_iff.mp ha) with rfl | ha
        · exact hin
        · exact hlive (h.live a ha)

/-- `pfree_large` finds the data of an entry, and takes them out. -/
lemma pfreeLarge (h : Entries s) {p : Addr} (hp : p ∈ dataOf s.pool.large) :
    (pfreeLarge s p).1 = true ∧ Entries (Xpipe.pfreeLarge s p).2 ∧
      (p :: dataOf (Xpipe.pfreeLarge s p).2.pool.large).Perm (dataOf s.pool.large) := by
  cases hdrop : dropData p s.pool.large with
  | none => exact absurd hp (dropData_none_iff.mp hdrop)
  | some large =>
    obtain ⟨hperm, -⟩ := dropData_some hdrop
    obtain ⟨hout, hnodup⟩ := List.nodup_cons.mp (hperm.nodup_iff.mpr h.nodup)
    have hkept {a : Addr} (ha : a ∈ dataOf large) : a ∈ dataOf s.pool.large :=
      hperm.mem_iff.mp (List.mem_cons_of_mem p ha)
    simp only [Xpipe.pfreeLarge, hdrop]
    refine ⟨trivial, ⟨hnodup, fun a ha => h.start a (hkept ha), fun a ha => ?_⟩, hperm⟩
    -- both are starts of blocks, so they are in different ones
    have hblock : a.block ≠ p.block := by
      intro heq
      have hstart : a.off = p.off := (h.start a (hkept ha)).trans (h.start p hp).symm
      have hsame : a = p := congrArg₂ Addr.mk heq hstart
      exact hout (hsame ▸ ha)
    exact mem_live_free (h.live a (hkept ha)) hblock

lemma clear (s : Store) : Entries (memPoolClear s) := by
  constructor
  all_goals simp [memPoolClear, dataOf]

end Entries

end Xpipe
