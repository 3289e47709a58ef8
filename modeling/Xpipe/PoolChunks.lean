import Xpipe.PoolRegions

/-!
# The chunks of a pool

When no chunk from `current` on has room, `add_mem_chunk` counts a failure for each
of them, moves `current` past those that have failed six times, and appends a chunk
as large as all others together. `Retirement` is the rule for the counters alone;
`Chunked` is what it means for a pool, with the sizes of the chunks.
-/
namespace Xpipe
open Runs

/-! ## The counters -/

/-- The failures counted for each chunk: those in front of `current` have failed six
times, from `current` on the counters do not increase, and the newest chunk has not
failed yet. -/
structure Retirement (fails : List ℕ) (current : ℕ) : Prop where
  inside : current < fails.length
  retired : ∀ f ∈ fails.take current, f = 6
  ordered : (fails.drop current).Pairwise (fun f g => g ≤ f)
  few : ∀ f ∈ fails.drop current, f ≤ 5
  newest : fails.getLast? = some 0

/-- The number of chunks, from `current` on, whose next failure is the sixth. -/
def retiring (fails : List ℕ) (current : ℕ) : ℕ :=
  ((fails.drop current).takeWhile (fun f => 4 < f)).length

/-- In a list that does not increase, all that is left behind the large elements is small. -/
lemma dropWhile_le {fails : List ℕ} (h : fails.Pairwise (fun f g => g ≤ f)) :
    ∀ f ∈ fails.dropWhile (fun f => 4 < f), f ≤ 4 := by
  induction fails with
  | nil => simp
  | cons f fails ih =>
    rw [List.pairwise_cons] at h
    rw [List.dropWhile_cons]
    split_ifs with hf
    · exact ih h.2
    · have hle : f ≤ 4 := by simpa using hf
      intro g hg
      rcases List.mem_cons.mp hg with rfl | hg
      · exact hle
      · exact (h.1 g hg).trans hle

/-- The counters in three parts: the retired chunks, those that are about to be, and
the others. -/
lemma Retirement.parts {fails : List ℕ} {current : ℕ} (h : Retirement fails current) :
    ∃ old, old.length = current ∧ fails.take current = old ∧ ∃ five rest,
      fails.drop current = five ++ rest ∧ retiring fails current = five.length ∧
      (∀ f ∈ five, f = 5) ∧ (∀ f ∈ rest, f ≤ 4) ∧ rest.Pairwise (fun f g => g ≤ f) := by
  have hsplit := (@List.takeWhile_append_dropWhile _ (fun f => decide (4 < f))
    (fails.drop current)).symm
  have hordered := h.ordered
  rw [hsplit] at hordered
  refine ⟨_, List.length_take_of_le h.inside.le, rfl, _, _, hsplit, rfl, fun f hf => ?_,
    dropWhile_le h.ordered, (List.pairwise_append.mp hordered).2.1⟩
  have hlarge : 4 < f := by simpa using List.mem_takeWhile_imp hf
  have hle := h.few f (List.takeWhile_subset _ hf)
  omega

/-- **A failure of all chunks from `current` on**, and a new chunk. -/
lemma Retirement.grow {fails : List ℕ} {current : ℕ} (h : Retirement fails current) :
    Retirement (fails.take current ++ (fails.drop current).map (fun f => f + 1) ++ [0])
      (current + retiring fails current) := by
  obtain ⟨old, hlen, htake, five, rest, hdrop, hcount, hfive, hrest, hordered⟩ := h.parts
  have hshape : fails.take current ++ (fails.drop current).map (fun f => f + 1) ++ [0] =
      (old ++ five.map (fun f => f + 1)) ++ (rest.map (fun f => f + 1) ++ [0]) := by
    rw [htake, hdrop]
    simp
  have hfront : (old ++ five.map (fun f => f + 1)).length = current + retiring fails current := by
    rw [List.length_append, List.length_map, hlen, hcount]
  rw [hshape]
  refine ⟨?_, ?_, ?_, ?_, by simp⟩
  · rw [List.length_append, hfront, List.length_append, List.length_singleton]
    omega
  · rw [List.take_left' hfront]
    intro f hf
    rcases List.mem_append.mp hf with hf | hf
    · exact h.retired f (htake ▸ hf)
    · obtain ⟨g, hg, rfl⟩ := List.mem_map.mp hf
      rw [hfive g hg]
  · rw [List.drop_left' hfront, List.pairwise_append, List.pairwise_map]
    refine ⟨hordered.imp (fun hle => Nat.succ_le_succ hle), by simp, ?_⟩
    intro f _ g hg
    rw [List.mem_singleton.mp hg]
    exact Nat.zero_le f
  · rw [List.drop_left' hfront]
    intro f hf
    rcases List.mem_append.mp hf with hf | hf
    · obtain ⟨g, hg, rfl⟩ := List.mem_map.mp hf
      exact Nat.succ_le_succ (hrest g hg)
    · rw [List.mem_singleton.mp hf]
      exact Nat.zero_le 5

/-- After `mem_pool_clear` no chunk has failed. -/
lemma retirement_zero {n : ℕ} (hn : 0 < n) : Retirement (List.replicate n 0) 0 := by
  refine ⟨by simpa using hn, by simp, ?_, ?_, ?_⟩
  · rw [List.drop_zero, List.pairwise_replicate]
    exact Or.inr (Nat.le_refl 0)
  · intro f hf
    rw [List.eq_of_mem_replicate hf]
    exact Nat.zero_le 5
  · rw [List.getLast?_replicate, if_neg (by omega)]

/-- **The loop of `add_mem_chunk`** moves `current` past the chunks that fail for the
sixth time: they stand in front of all others, and the last node is not one of them. -/
lemma countFailures_current {cs : List Chunk} {i current : ℕ}
    (hordered : (cs.map Chunk.fail).Pairwise (fun f g => g ≤ f))
    (hlast : (cs.map Chunk.fail).getLast? = some 0) :
    (countFailures cs i current).2 =
      if ((cs.map Chunk.fail).takeWhile (fun f => 4 < f)).length = 0 then current
      else i + ((cs.map Chunk.fail).takeWhile (fun f => 4 < f)).length := by
  induction cs generalizing i current with
  | nil => rfl
  | cons c cs ih =>
    cases cs with
    | nil =>
      have hzero : c.fail = 0 := by simpa using hlast
      simp [countFailures, hzero]
    | cons d cs =>
      rw [List.map_cons, List.pairwise_cons] at hordered
      have hrest := @ih (i + 1) (if c.fail > 4 then i + 1 else current) hordered.2
        (by simpa using hlast)
      have hhead : ((c :: d :: cs).map Chunk.fail).takeWhile (fun f => 4 < f) =
          if 4 < c.fail then c.fail :: ((d :: cs).map Chunk.fail).takeWhile (fun f => 4 < f)
          else [] := by
        rw [List.map_cons, List.takeWhile_cons]
        simp only [decide_eq_true_eq]
      have hstep : (countFailures (c :: d :: cs) i current).2 =
          (countFailures (d :: cs) (i + 1) (if c.fail > 4 then i + 1 else current)).2 := rfl
      rw [hstep, hrest, hhead]
      by_cases hc : 4 < c.fail
      · rw [if_pos hc, if_pos hc, List.length_cons, if_neg (Nat.succ_ne_zero _)]
        split_ifs with hk
        · rw [hk]
        · omega
      · have hnone : ((d :: cs).map Chunk.fail).takeWhile (fun f => 4 < f) = [] := by
          rw [List.map_cons, List.takeWhile_cons]
          have hd := hordered.1 d.fail (by simp)
          simp only [decide_eq_true_eq, ite_eq_right_iff, reduceCtorEq, imp_false]
          omega
        rw [if_neg hc, if_neg hc, hnone, List.length_nil, if_pos rfl]
        rfl

/-! ## The pool -/

/-- What holds of the chunks of a pool created with `size` bytes. `current` is one of
the chunks of a list that starts with the pool's own; the counters follow the rule;
and `total` is the sum of the sizes, which doubles with each chunk added. -/
structure Chunked (size : ℕ) (s : Store) : Prop where
  own : (s.pool.chunks.map Chunk.block).head? = some s.pool.block
  current : s.pool.current < s.pool.chunks.length
  ordered : (s.pool.chunks.drop s.pool.current).Pairwise (fun c d => d.fail ≤ c.fail)
  few : ∀ c ∈ s.pool.chunks.drop s.pool.current, c.fail ≤ 5
  retired : ∀ c ∈ s.pool.chunks.take s.pool.current, c.fail = 6
  total : s.pool.total = size * 2 ^ (s.pool.chunks.length - 1)
  sum : s.pool.total = (s.pool.chunks.map (fun c => s.heap.size c.block)).sum

/-- A chunk that a call adds does not make `total` wrap. -/
def TotalFits (s : Store) (op : PoolOp) : Prop :=
  ∀ k ∈ op.chunkRequest s, s.pool.total + (if k > s.pool.total then k else s.pool.total) < 2 ^ 64

instance (s : Store) (op : PoolOp) : Decidable (TotalFits s op) :=
  inferInstanceAs (Decidable (∀ k ∈ op.chunkRequest s, _ < 2 ^ 64))

/-- The invariant behind `Chunked`. -/
structure Chunking (size : ℕ) (s : Store) : Prop where
  own : (s.pool.chunks.map Chunk.block).head? = some s.pool.block
  retirement : Retirement (s.pool.chunks.map Chunk.fail) s.pool.current
  total : s.pool.total = size * 2 ^ (s.pool.chunks.length - 1)
  sum : s.pool.total = ((s.pool.chunks.map Chunk.block).map s.heap.size).sum
  known : ∀ b ∈ s.pool.chunks.map Chunk.block, b < s.heap.fresh
  max : s.pool.max ≤ size

lemma Chunking.chunked {size : ℕ} {s : Store} (h : Chunking size s) : Chunked size s := by
  obtain ⟨hinside, hretired, hordered, hfew, -⟩ := h.retirement
  rw [List.length_map] at hinside
  rw [← List.map_take] at hretired
  rw [← List.map_drop] at hordered hfew
  refine ⟨h.own, hinside, List.pairwise_map.mp hordered, ?_, ?_, h.total, ?_⟩
  · exact fun c hc => hfew c.fail (List.mem_map_of_mem hc)
  · exact fun c hc => hretired c.fail (List.mem_map_of_mem hc)
  · rw [h.sum, List.map_map]
    rfl

/-- Only the blocks and counters of the chunks, and the sizes of known blocks, matter. -/
lemma Chunking.congr {size : ℕ} {s s' : Store} (h : Chunking size s)
    (hblocks : s'.pool.chunks.map Chunk.block = s.pool.chunks.map Chunk.block)
    (hfails : s'.pool.chunks.map Chunk.fail = s.pool.chunks.map Chunk.fail)
    (hpool : s'.pool.block = s.pool.block ∧ s'.pool.current = s.pool.current ∧
      s'.pool.total = s.pool.total ∧ s'.pool.max = s.pool.max)
    (hsize : ∀ b, b < s.heap.fresh → s'.heap.size b = s.heap.size b)
    (hfresh : s.heap.fresh ≤ s'.heap.fresh) : Chunking size s' := by
  obtain ⟨hblock, hcurrent, htotal, hmax⟩ := hpool
  have hlen : s'.pool.chunks.length = s.pool.chunks.length := by
    simpa using congrArg List.length hblocks
  refine ⟨by rw [hblocks, hblock]; exact h.own, by rw [hfails, hcurrent]; exact h.retirement,
    by rw [htotal, hlen]; exact h.total, ?_, ?_, by rw [hmax]; exact h.max⟩
  · rw [htotal, h.sum, hblocks]
    refine congrArg List.sum (List.map_congr_left (fun b hb => ?_))
    exact (hsize b (h.known b hb)).symm
  · rw [hblocks]
    exact fun b hb => (h.known b hb).trans_le hfresh

lemma map_fail_modify (cs : List Chunk) (i n : ℕ) :
    (cs.modify i (fun c => { c with last := c.last + n })).map Chunk.fail = cs.map Chunk.fail := by
  apply map_modify_of_eq
  intro c
  rfl

lemma Chunking.positive {size : ℕ} {s : Store} (h : Chunking size s) :
    0 < s.pool.chunks.length := by
  have hinside := h.retirement.inside
  rw [List.length_map] at hinside
  omega

/-- A pool has at least the bytes it was created with. -/
lemma Chunking.size_le {size : ℕ} {s : Store} (h : Chunking size s) : size ≤ s.pool.total := by
  rw [h.total]
  exact Nat.le_mul_of_pos_right size (Nat.two_pow_pos _)

/-- **A new chunk** has as many bytes as the pool before it. -/
lemma Chunking.grow {size : ℕ} {s : Store} (h : Chunking size s) {n : ℕ} (hn : n ≤ s.pool.max)
    (hwrap : s.pool.total + s.pool.total < 2 ^ 64) : Chunking size (addMemChunk s n true).2 := by
  have halloc : ¬ n > s.pool.total := by
    have hmax := h.max
    have hsize := h.size_le
    omega
  have hpos := h.positive
  have hblocks := map_block_addMemChunk s n
  have hfails : (addMemChunk s n true).2.pool.chunks.map Chunk.fail =
      (s.pool.chunks.map Chunk.fail).take s.pool.current ++
        ((s.pool.chunks.map Chunk.fail).drop s.pool.current).map (fun f => f + 1) ++ [0] := by
    rw [addMemChunk_chunks, List.map_append, List.map_append, List.map_take, List.map_singleton,
      List.map_map, ← List.map_drop, List.map_map]
    rfl
  have hlen : (addMemChunk s n true).2.pool.chunks.length = s.pool.chunks.length + 1 := by
    simpa using congrArg List.length hblocks
  have hcurrent : (addMemChunk s n true).2.pool.current =
      s.pool.current + retiring (s.pool.chunks.map Chunk.fail) s.pool.current := by
    have hloop := @countFailures_current (s.pool.chunks.drop s.pool.current) s.pool.current
      s.pool.current (by rw [List.map_drop]; exact h.retirement.ordered) (by
        rw [List.map_drop, List.getLast?_drop, if_neg (by have := h.retirement.inside; omega)]
        exact h.retirement.newest)
    rw [List.map_drop] at hloop
    simp only [addMemChunk, if_true, hloop, retiring]
    split_ifs with hk
    · rw [hk, Nat.add_zero]
    · rfl
  have htotal : (addMemChunk s n true).2.pool.total = s.pool.total + s.pool.total := by
    simp only [addMemChunk, if_true, if_neg halloc, toSizeT]
    omega
  have hheap : (addMemChunk s n true).2.heap = s.heap.malloc s.pool.total := by
    simp only [addMemChunk, if_true, if_neg halloc]
  refine ⟨?_, ?_, ?_, ?_, ?_, h.max⟩
  · rw [hblocks, List.head?_append, h.own]
    rfl
  · rw [hfails, hcurrent]
    exact h.retirement.grow
  · rw [htotal, hlen, h.total, Nat.add_sub_cancel, ← Nat.sub_add_cancel hpos, pow_succ]
    simp only [Nat.add_sub_cancel]
    ring
  · rw [htotal, hblocks, hheap, List.map_append, List.sum_append, List.map_singleton,
      List.sum_singleton, size_malloc_self]
    congr 1
    rw [h.sum]
    refine congrArg List.sum (List.map_congr_left (fun b hb => ?_))
    exact (size_malloc _ (h.known b hb)).symm
  · rw [hblocks, hheap]
    intro b hb
    rcases List.mem_append.mp hb with hb | hb
    · exact (h.known b hb).trans (Nat.lt_succ_self _)
    · rw [List.mem_singleton.mp hb]
      exact Nat.lt_succ_self _

/-- **A small request.** -/
lemma Chunking.small {size : ℕ} {s : Store} (h : Chunking size s) {n : ℕ} {ok : Bool}
    (hn : n ≤ s.pool.max) (hfits : ok = true → noRoom s.pool n = true →
      s.pool.total + s.pool.total < 2 ^ 64) : Chunking size (pmallocSmall s n ok).2 := by
  rcases pmallocSmall_cases s n ok with ⟨i, c, -, -, -, heq⟩ | ⟨-, -, heq⟩ | ⟨hroom, hok, heq⟩
  · rw [heq]
    exact h.congr (map_block_modify _ _ _) (map_fail_modify _ _ _) ⟨rfl, rfl, rfl, rfl⟩
      (fun _ _ => rfl) (Nat.le_refl _)
  · rw [heq]
    exact h
  · rw [heq]
    exact h.grow hn (hfits hok hroom)

/-- **A large request.** -/
lemma Chunking.large {size : ℕ} {s : Store} (h : Chunking size s) {n : ℕ} {m : Mallocs}
    (hfits : m.data = true → reuseHeader ⟨s.heap.fresh, 0⟩ s.pool.large 0 = none →
      m.chunk = true → noRoom s.pool sizeofLarge = true →
      s.pool.total + s.pool.total < 2 ^ 64) : Chunking size (allocLargeMem s n m).2 := by
  have hdata : Chunking size (withData s n) :=
    h.congr rfl rfl ⟨rfl, rfl, rfl, rfl⟩ (fun _ hb => size_malloc _ hb) (Nat.le_succ _)
  rcases allocLargeMem_cases s n m with ⟨-, heq⟩ | ⟨large, -, hreuse, heq⟩ |
    ⟨s', hm, hreuse, hsmall, heq⟩ | ⟨a, s', hm, hreuse, hsmall, heq⟩
  · rw [heq]
    exact h
  · rw [heq]
    exact hdata.congr rfl rfl ⟨rfl, rfl, rfl, rfl⟩ (fun _ _ => rfl) (Nat.le_refl _)
  all_goals
    have hkept := @Chunking.small size _ hdata sizeofLarge m.chunk s.pool.header_small
      (hfits hm hreuse)
    rw [hsmall] at hkept
    rw [heq]
    exact Chunking.congr hkept rfl rfl ⟨rfl, rfl, rfl, rfl⟩ (fun _ _ => rfl) (Nat.le_refl _)

/-- A call that adds a chunk for `k` bytes has room in `total` for another as large. -/
lemma TotalFits.doubles {s : Store} {n : SizeT} {m : Mallocs} (h : TotalFits s (.pmalloc n m))
    {k : ℕ} (hk : smallRequest s n m = some k) (hchunk : m.chunk = true)
    (hroom : noRoom s.pool k = true) : s.pool.total + s.pool.total < 2 ^ 64 := by
  have hmem : k ∈ PoolOp.chunkRequest s (.pmalloc n m) := by
    simp only [PoolOp.chunkRequest, Option.mem_def, Option.filter_eq_some_iff, Bool.and_eq_true]
    exact ⟨hk, hchunk, hroom⟩
  have hfits := h k hmem
  split_ifs at hfits <;> omega

lemma Chunking.pmalloc {size : ℕ} {s : Store} (h : Chunking size s) {n : SizeT} {m : Mallocs}
    (hfits : TotalFits s (.pmalloc n m)) : Chunking size (pmalloc s n m).2 := by
  unfold Xpipe.pmalloc
  split_ifs with hsmall
  · exact h.small hsmall (fun hok hroom => hfits.doubles (if_pos hsmall) hok hroom)
  · refine h.large (fun hdata hreuse hchunk hroom => hfits.doubles ?_ hchunk hroom)
    rw [smallRequest, if_neg hsmall, if_pos ⟨hdata, hreuse⟩]

lemma size_freeLarge (h : Heap) (large : List Large) :
    (freeLarge h large).size = h.size ∧ (freeLarge h large).fresh = h.fresh := by
  unfold freeLarge
  induction large generalizing h with
  | nil => exact ⟨rfl, rfl⟩
  | cons l large ih => exact ih (h.free l.header)

/-- `mem_pool_clear` keeps the chunks, and forgets their failures. -/
lemma Chunking.clear {size : ℕ} {s : Store} (h : Chunking size s) :
    Chunking size (memPoolClear s) := by
  obtain ⟨hsize, hfresh⟩ := size_freeLarge s.heap s.pool.large
  have hblocks : (memPoolClear s).pool.chunks.map Chunk.block = s.pool.chunks.map Chunk.block := by
    simp [memPoolClear, Function.comp_def]
  have hfails : (memPoolClear s).pool.chunks.map Chunk.fail =
      List.replicate s.pool.chunks.length 0 := by
    simp [memPoolClear, Function.comp_def]
  have hlen : (memPoolClear s).pool.chunks.length = s.pool.chunks.length := by
    simpa using congrArg List.length hblocks
  refine ⟨by rw [hblocks]; exact h.own, ?_, by rw [hlen]; exact h.total, ?_, ?_, h.max⟩
  · rw [hfails]
    exact retirement_zero h.positive
  · rw [hblocks]
    simp only [memPoolClear, hsize]
    exact h.sum
  · rw [hblocks]
    simp only [memPoolClear, hfresh]
    exact h.known

/-- **One call.** -/
lemma poolStep_chunking {size : ℕ} {s : Store} (h : Chunking size s) {op : PoolOp}
    (hfits : TotalFits s op) : Chunking size (poolStep s op) := by
  cases op with
  | pmalloc n m => exact h.pmalloc hfits
  | pcalloc n m => exact h.pmalloc hfits
  | pfreeLarge p =>
    simp only [poolStep, PoolOp.call, pfreeLarge]
    split
    · exact h.congr rfl rfl ⟨rfl, rfl, rfl, rfl⟩ (fun _ _ => rfl) (Nat.le_refl _)
    · exact h
  | clear => exact h.clear

lemma memPoolCreate_chunking (size : SizeT) (hsize : sizeofPool ≤ size.val) :
    Chunking size (memPoolCreate size hsize) := by
  refine ⟨rfl, retirement_zero Nat.one_pos, by simp [memPoolCreate], ?_, ?_, ?_⟩
  · simp [memPoolCreate, Heap.malloc]
  · simp [memPoolCreate, Heap.malloc]
  · simp only [memPoolCreate]
    split_ifs with hmax
    · exact Nat.le_refl _
    · exact Nat.le_of_not_lt hmax

end Xpipe
