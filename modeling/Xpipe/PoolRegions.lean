import Xpipe.PoolLedger

/-!
# The regions that a pool hands out

A small region is a chunk, which its block names, and an interval of offsets into
the block. A call of `pmalloc` takes the region it returns, or the header of a large
block. The regions taken since the pool was created or cleared never overlap, and a
call that fails changes nothing.
-/
namespace Xpipe
open Runs

/-- A region taken from a chunk. -/
structure Region where
  addr : Addr
  size : ℕ
  deriving DecidableEq, Repr

/-- The offset behind the last byte of a region. -/
def Region.stop (r : Region) : ℕ := r.addr.off + r.size

/-- Two regions of one chunk do not overlap. -/
def Region.Apart (r r' : Region) : Prop :=
  r.addr.block = r'.addr.block → r.stop ≤ r'.addr.off ∨ r'.stop ≤ r.addr.off

instance (r r' : Region) : Decidable (r.Apart r') := inferInstanceAs (Decidable (_ → _))

/-- The header that a call has taken from the pool and put in front of `pool->large`. -/
def newHeader (s s' : Store) : Option Addr :=
  if s.pool.large.length < s'.pool.large.length then s'.pool.large.head?.map Large.header else none

/-- The small regions that a call takes: the one it returns, or a header. -/
def PoolOp.regions (s : Store) (op : PoolOp) : List Region :=
  let small := if op.size ≤ s.pool.max then (op.call s).1 else none
  small.toList.map (fun a => ⟨a, op.size⟩) ++
    (newHeader s (poolStep s op)).toList.map (fun a => ⟨a, sizeofLarge⟩)

/-- The offset behind the header of the chunk in a block: the first chunk is the
last field of `mem_pool_t`. -/
def Pool.headerEnd (p : Pool) (block : ℕ) : ℕ := if block = p.block then sizeofPool else sizeofChunk

/-- The regions are pairwise apart. Each lies in the one chunk of its block, behind
the header and below `last`. -/
structure RegionsApart (s : Store) (rs : List Region) : Prop where
  apart : rs.Pairwise Region.Apart
  inside : ∀ r ∈ rs, ∃ c ∈ s.pool.chunks, c.block = r.addr.block ∧
    s.pool.headerEnd c.block ≤ r.addr.off ∧ r.stop ≤ c.last
  blocks : (s.pool.chunks.map Chunk.block).Nodup

/-- Chunks, large list and live blocks are as they were. -/
structure SamePool (s s' : Store) : Prop where
  chunks : s'.pool.chunks = s.pool.chunks
  large : s'.pool.large = s.pool.large
  live : s'.heap.live = s.heap.live

/-! ## Regions stay apart -/

/-- The invariant behind `RegionsApart`: blocks are not used twice, and `last` never
falls behind a region. -/
structure Regions (s : Store) (rs : List Region) : Prop where
  apart : rs.Pairwise Region.Apart
  inside : ∀ r ∈ rs, ∃ c ∈ s.pool.chunks, c.block = r.addr.block ∧
    c.payload ≤ r.addr.off ∧ r.stop ≤ c.last
  blocks : (s.pool.chunks.map Chunk.block).Nodup
  known : ∀ c ∈ s.pool.chunks, c.block < s.heap.fresh
  own : s.pool.block < s.heap.fresh
  payload : ∀ c ∈ s.pool.chunks, c.payload = s.pool.headerEnd c.block
  last : ∀ c ∈ s.pool.chunks, c.payload ≤ c.last
  live : ∀ b ∈ s.heap.live, b < s.heap.fresh

lemma Regions.regionsApart {s : Store} {rs : List Region} (h : Regions s rs) :
    RegionsApart s rs := by
  refine ⟨h.apart, fun r hr => ?_, h.blocks⟩
  obtain ⟨c, hc, hblock, hstart, hstop⟩ := h.inside r hr
  exact ⟨c, hc, hblock, h.payload c hc ▸ hstart, hstop⟩

/-- The heap and the large list may change, as long as no block comes back. -/
lemma Regions.congr {s s' : Store} {rs : List Region} (h : Regions s rs)
    (hchunks : s'.pool.chunks = s.pool.chunks) (hown : s'.pool.block = s.pool.block)
    (hfresh : s.heap.fresh ≤ s'.heap.fresh) (hlive : ∀ b ∈ s'.heap.live, b < s'.heap.fresh) :
    Regions s' rs := by
  refine ⟨h.apart, ?_, ?_, ?_, ?_, ?_, ?_, hlive⟩
  · rw [hchunks]
    exact h.inside
  · rw [hchunks]
    exact h.blocks
  · rw [hchunks]
    exact fun c hc => (h.known c hc).trans_le hfresh
  · rw [hown]
    exact h.own.trans_le hfresh
  · rw [hchunks]
    unfold Pool.headerEnd
    rw [hown]
    exact h.payload
  · rw [hchunks]
    exact h.last

/-- An element of a list is in a modified list, as it was or modified. -/
lemma mem_or_mem_modify {α : Type*} {l : List α} (i : ℕ) (f : α → α) {x : α} (h : x ∈ l) :
    x ∈ l.modify i f ∨ f x ∈ l.modify i f := by
  obtain ⟨k, hk⟩ := List.mem_iff_getElem?.mp h
  have hmod : (l.modify i f)[k]? = some (if i = k then f x else x) := by
    rw [List.getElem?_modify, hk]
    rfl
  split_ifs at hmod with hik
  · exact Or.inr (List.mem_of_getElem? hmod)
  · exact Or.inl (List.mem_of_getElem? hmod)

lemma modify_mem {α : Type*} {l : List α} {i : ℕ} {x : α} (f : α → α) (h : l[i]? = some x) :
    f x ∈ l.modify i f := by
  refine List.mem_of_getElem? (i := i) ?_
  rw [List.getElem?_modify, h]
  simp

/-- **A region taken from a chunk that has room** starts where the last one ended. -/
lemma Regions.serve {s : Store} {rs : List Region} (h : Regions s rs) {i : ℕ} {c : Chunk}
    (hget : s.pool.chunks[i]? = some c) (n : ℕ) :
    Regions { s with pool := { s.pool with
        chunks := s.pool.chunks.modify i (fun c => { c with last := c.last + n }) } }
      (⟨⟨c.block, c.last⟩, n⟩ :: rs) := by
  have hc := List.mem_of_getElem? hget
  -- what holds of the chunks before holds of them with a later `last`
  have hkeep (P : Chunk → Prop) (hP : ∀ d ∈ s.pool.chunks, P d ∧ P { d with last := d.last + n }) :
      ∀ d ∈ s.pool.chunks.modify i (fun c => { c with last := c.last + n }), P d := by
    intro d hd
    rcases mem_modify hd with hd | ⟨e, he, rfl⟩
    · exact (hP d hd).1
    · exact (hP e (List.mem_of_getElem? he)).2
  refine ⟨List.pairwise_cons.mpr ⟨fun r hr hblock => ?_, h.apart⟩, fun r hr => ?_, ?_,
    hkeep _ (fun d hd => ⟨h.known d hd, h.known d hd⟩), h.own,
    hkeep _ (fun d hd => ⟨h.payload d hd, h.payload d hd⟩),
    hkeep _ (fun d hd => ⟨h.last d hd, (h.last d hd).trans (Nat.le_add_right _ _)⟩), h.live⟩
  · obtain ⟨d, hd, hdr, -, hstop⟩ := h.inside r hr
    obtain rfl : d = c := List.inj_on_of_nodup_map h.blocks hd hc (hdr.trans hblock.symm)
    exact Or.inr hstop
  · rcases List.mem_cons.mp hr with rfl | hr
    · exact ⟨_, modify_mem _ hget, rfl, h.last c hc, Nat.le_refl _⟩
    · obtain ⟨d, hd, hdr, hstart, hstop⟩ := h.inside r hr
      rcases mem_or_mem_modify i (fun c : Chunk => { c with last := c.last + n }) hd with hd | hd
      · exact ⟨d, hd, hdr, hstart, hstop⟩
      · exact ⟨_, hd, hdr, hstart, hstop.trans (Nat.le_add_right _ _)⟩
  · rw [map_block_modify]
    exact h.blocks

lemma fresh_addMemChunk (s : Store) (n : ℕ) :
    (addMemChunk s n true).2.heap.fresh = s.heap.fresh + 1 ∧
      (addMemChunk s n true).2.heap.live = insert s.heap.fresh s.heap.live ∧
      (addMemChunk s n true).2.pool.block = s.pool.block := ⟨rfl, rfl, rfl⟩

lemma live_insert_lt {h : Heap} (hlive : ∀ b ∈ h.live, b < h.fresh) :
    ∀ b ∈ insert h.fresh h.live, b < h.fresh + 1 := by
  intro b hb
  rcases Finset.mem_insert.mp hb with rfl | hb
  · exact Nat.lt_succ_self _
  · exact (hlive b hb).trans (Nat.lt_succ_self _)

/-- **A region taken from a new chunk** starts behind its header. -/
lemma Regions.grow {s : Store} {rs : List Region} (h : Regions s rs) (n : ℕ) :
    Regions (addMemChunk s n true).2 (⟨⟨s.heap.fresh, sizeofChunk⟩, n⟩ :: rs) := by
  obtain ⟨hfresh, hlive, hown⟩ := fresh_addMemChunk s n
  -- the chunks are those of before, some of them with one more failure, and the new one
  have hkeep (P : Chunk → Prop) (hP : ∀ d ∈ s.pool.chunks, P d ∧ P { d with fail := d.fail + 1 })
      (hnew : ∀ stop, P ⟨s.heap.fresh, 0, 0, sizeofChunk + n, stop⟩) :
      ∀ d ∈ (addMemChunk s n true).2.pool.chunks, P d := by
    rw [addMemChunk_chunks]
    intro d hd
    simp only [List.mem_append, List.mem_map, List.mem_singleton] at hd
    rcases hd with (hd | ⟨e, he, rfl⟩) | rfl
    · exact (hP d (List.mem_of_mem_take hd)).1
    · exact (hP e (List.mem_of_mem_drop he)).2
    · exact hnew _
  have hstay {d : Chunk} (hd : d ∈ s.pool.chunks) :
      ∃ d' ∈ (addMemChunk s n true).2.pool.chunks,
        d'.block = d.block ∧ d'.payload = d.payload ∧ d'.last = d.last := by
    rw [addMemChunk_chunks]
    rw [← List.take_append_drop s.pool.current s.pool.chunks, List.mem_append] at hd
    rcases hd with hd | hd
    · exact ⟨d, by simp [hd], rfl, rfl, rfl⟩
    · refine ⟨{ d with fail := d.fail + 1 }, ?_, rfl, rfl, rfl⟩
      simp only [List.mem_append, List.mem_map]
      exact Or.inl (Or.inr ⟨d, hd, rfl⟩)
  refine ⟨List.pairwise_cons.mpr ⟨fun r hr hblock => ?_, h.apart⟩, fun r hr => ?_,
    ?_, ?_, ?_, ?_, ?_, ?_⟩
  · obtain ⟨d, hd, hdr, -⟩ := h.inside r hr
    have hlt := h.known d hd
    simp only at hblock
    omega
  · rcases List.mem_cons.mp hr with rfl | hr
    · rw [addMemChunk_chunks]
      exact ⟨_, List.mem_append_right _ (List.mem_singleton_self _), rfl,
        Nat.le_of_eq (Nat.zero_add _), Nat.le_refl _⟩
    · obtain ⟨d, hd, hdr, hstart, hstop⟩ := h.inside r hr
      obtain ⟨d', hd', hblock, hpayload, hlast⟩ := hstay hd
      exact ⟨d', hd', hblock.trans hdr, hpayload ▸ hstart, hlast ▸ hstop⟩
  · rw [map_block_addMemChunk, List.nodup_append]
    refine ⟨h.blocks, by simp, fun b hb b' hb' heq => ?_⟩
    obtain ⟨d, hd, rfl⟩ := List.mem_map.mp hb
    have hlt := h.known d hd
    rw [List.mem_singleton] at hb'
    omega
  · rw [hfresh]
    have hlt (d : Chunk) (hd : d ∈ s.pool.chunks) : d.block < s.heap.fresh + 1 :=
      (h.known d hd).trans (Nat.lt_succ_self _)
    exact hkeep _ (fun d hd => ⟨hlt d hd, hlt d hd⟩) (fun _ => Nat.lt_succ_self _)
  · rw [hown, hfresh]
    exact h.own.trans (Nat.lt_succ_self _)
  · refine hkeep _ (fun d hd => ⟨h.payload d hd, h.payload d hd⟩) (fun stop => ?_)
    have hne : s.heap.fresh ≠ s.pool.block := h.own.ne'
    simp [Chunk.payload, Pool.headerEnd, hown, hne]
  · exact hkeep _ (fun d hd => ⟨h.last d hd, h.last d hd⟩) (fun stop => by simp [Chunk.payload])
  · rw [hfresh, hlive]
    exact live_insert_lt h.live

/-- **A small request** takes one region, or nothing. -/
lemma Regions.small {s : Store} {rs : List Region} (h : Regions s rs) (n : ℕ) (ok : Bool) :
    Regions (pmallocSmall s n ok).2
      ((pmallocSmall s n ok).1.toList.map (fun a => ⟨a, n⟩) ++ rs) := by
  rcases pmallocSmall_cases s n ok with ⟨i, c, hget, -, -, heq⟩ | ⟨-, -, heq⟩ | ⟨-, -, heq⟩
  · rw [heq]
    exact h.serve hget n
  · rw [heq]
    exact h
  · rw [heq]
    exact h.grow n

lemma Regions.withData {s : Store} {rs : List Region} (h : Regions s rs) (n : ℕ) :
    Regions (withData s n) rs :=
  h.congr rfl rfl (Nat.le_succ _) (live_insert_lt h.live)

lemma live_free_lt {h : Heap} (p : Addr) (hlive : ∀ b ∈ h.live, b < h.fresh) :
    ∀ b ∈ (h.free p).live, b < (h.free p).fresh := by
  intro b hb
  simp only [Heap.free] at hb
  split_ifs at hb
  · exact hlive b (Finset.mem_of_mem_erase hb)
  · exact hlive b hb

/-- **A large request** takes a header, or nothing. -/
lemma Regions.large {s : Store} {rs : List Region} (h : Regions s rs) (n : ℕ) (m : Mallocs) :
    Regions (allocLargeMem s n m).2
      ((newHeader s (allocLargeMem s n m).2).toList.map (fun a => ⟨a, sizeofLarge⟩) ++ rs) := by
  have hdata := h.withData n
  have hsame := pmallocSmall_large (Xpipe.withData s n) sizeofLarge m.chunk
  have hsmall := hdata.small sizeofLarge m.chunk
  rcases allocLargeMem_cases s n m with
    ⟨-, heq⟩ | ⟨large, -, hreuse, heq⟩ | ⟨s', -, -, hnone, heq⟩ | ⟨a, s', -, -, hsome, heq⟩
  · simpa [heq, newHeader] using h
  · have hlen : large.length = s.pool.large.length := by
      simpa using congrArg List.length (reuseHeader_headers hreuse)
    have hrest : Regions ⟨(Xpipe.withData s n).heap, { s.pool with large := large }⟩ rs :=
      hdata.congr rfl rfl (Nat.le_refl _) hdata.live
    simpa [heq, newHeader, hlen] using hrest
  · rw [hnone] at hsame hsmall
    have hrest : Regions ⟨s'.heap.free ⟨s.heap.fresh, 0⟩, s'.pool⟩ rs :=
      Regions.congr hsmall rfl rfl (Nat.le_refl _) (live_free_lt _ hsmall.live)
    have hlen : s'.pool.large = s.pool.large := hsame
    simpa [heq, newHeader, hlen] using hrest
  · rw [hsome] at hsame hsmall
    have hrest : Regions ⟨s'.heap, { s'.pool with
        large := ⟨a, some ⟨s.heap.fresh, 0⟩⟩ :: s'.pool.large }⟩ (⟨a, sizeofLarge⟩ :: rs) :=
      Regions.congr hsmall rfl rfl (Nat.le_refl _) hsmall.live
    have hlen : s'.pool.large = s.pool.large := hsame
    simpa [heq, newHeader, hlen] using hrest

lemma freeLarge_live {h : Heap} (large : List Large) (hlive : ∀ b ∈ h.live, b < h.fresh) :
    (freeLarge h large).fresh = h.fresh ∧
      ∀ b ∈ (freeLarge h large).live, b < (freeLarge h large).fresh := by
  unfold freeLarge
  induction large generalizing h with
  | nil => exact ⟨rfl, hlive⟩
  | cons l large ih => exact ih (live_free_lt l.header hlive)

/-- `mem_pool_clear` starts the chunks anew. -/
lemma Regions.clear {s : Store} {rs : List Region} (h : Regions s rs) :
    Regions (memPoolClear s) [] := by
  obtain ⟨hfresh, hlive⟩ := freeLarge_live s.pool.large h.live
  have hblocks : (memPoolClear s).pool.chunks.map Chunk.block = s.pool.chunks.map Chunk.block := by
    simp [memPoolClear, Function.comp_def]
  have hkeep (P : Chunk → Prop)
      (hP : ∀ d ∈ s.pool.chunks, P { d with fail := 0, last := d.payload }) :
      ∀ d ∈ (memPoolClear s).pool.chunks, P d := by
    intro d hd
    obtain ⟨e, he, rfl⟩ := List.mem_map.mp hd
    exact hP e he
  refine ⟨.nil, by simp, ?_, hkeep _ (fun d hd => ?_), ?_, hkeep _ h.payload,
    hkeep _ (fun d _ => Nat.le_refl _), hlive⟩
  · rw [hblocks]
    exact h.blocks
  · exact (h.known d hd).trans_eq hfresh.symm
  · exact h.own.trans_eq hfresh.symm

lemma newHeader_of_large {s s' : Store} (h : s'.pool.large.length = s.pool.large.length) :
    newHeader s s' = none := if_neg (by omega)

/-- **An allocation** keeps the regions apart, the one it takes included. -/
lemma Regions.pmalloc {s : Store} {rs : List Region} (h : Regions s rs) (n : SizeT) (m : Mallocs) :
    Regions (pmalloc s n m).2 (PoolOp.regions s (.pmalloc n m) ++ rs) := by
  unfold PoolOp.regions
  simp only [PoolOp.size, poolStep, PoolOp.call, Xpipe.pmalloc]
  by_cases hsmall : n.val ≤ s.pool.max
  · simp only [hsmall, if_true]
    rw [newHeader_of_large (by rw [pmallocSmall_large])]
    simpa using h.small n m.chunk
  · simp only [hsmall, if_false]
    exact h.large n m

lemma memPoolCreate_regions (size : SizeT) (hsize : sizeofPool ≤ size.val) :
    Regions (memPoolCreate size hsize) [] := by
  refine ⟨.nil, by simp, by simp [memPoolCreate], ?_, by simp [memPoolCreate, Heap.malloc],
    ?_, ?_, ?_⟩
  all_goals
    simp [memPoolCreate, Heap.malloc, Pool.headerEnd, Chunk.payload, chunkOffset, sizeofPool,
      sizeofChunk]

/-! ## Calls that fail -/

/-- A request for which there is no memory changes nothing. -/
lemma pmallocSmall_none {s : Store} {n : ℕ} {ok : Bool} (h : (pmallocSmall s n ok).1 = none) :
    (pmallocSmall s n ok).2 = s := by
  rcases pmallocSmall_cases s n ok with ⟨i, c, -, -, -, heq⟩ | ⟨-, -, heq⟩ | ⟨-, -, heq⟩
  · rw [heq] at h
    cases h
  · rw [heq]
  · rw [heq] at h
    cases h

/-- **A call that returns NULL leaves the pool as it was.** The data of a large block
whose header cannot be had is given back. -/
lemma pmalloc_none {s : Store} (hlive : ∀ b ∈ s.heap.live, b < s.heap.fresh) {n : SizeT}
    {m : Mallocs} (h : (pmalloc s n m).1 = none) : SamePool s (pmalloc s n m).2 := by
  unfold pmalloc at h ⊢
  split_ifs at h ⊢ with hsmall
  · rw [pmallocSmall_none h]
    exact ⟨rfl, rfl, rfl⟩
  · rcases allocLargeMem_cases s n m with ⟨-, heq⟩ | ⟨large, -, -, heq⟩ | ⟨s', -, -, hnone, heq⟩ |
      ⟨a, s', -, -, -, heq⟩
    · rw [heq]
      exact ⟨rfl, rfl, rfl⟩
    · rw [heq] at h
      cases h
    · have hsame : s' = withData s n := by
        have hkept := pmallocSmall_none (congrArg Prod.fst hnone)
        rwa [hnone] at hkept
      rw [heq, hsame]
      refine ⟨rfl, rfl, ?_⟩
      have hfresh : s.heap.fresh ∉ s.heap.live := fun hin => (hlive _ hin).false
      simp [Heap.free, Heap.isBlock, withData, Heap.malloc, hfresh]
    · rw [heq] at h
      cases h

end Xpipe
