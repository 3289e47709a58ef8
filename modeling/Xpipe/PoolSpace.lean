import Xpipe.PoolChunks

/-!
# What a pool takes from malloc

`total` doubles with every chunk, whatever the request that needed the chunk. It stays in
proportion to the requests all the same: a chunk is added only when the newest one is used
up. As long as less than `2 ^ 62` bytes are asked for, `total` does not wrap, and a pool
whose first chunk is larger than any small request by a header stays in its bounds.
-/
namespace Xpipe
open Runs

/-- The bytes that a call asks of the chunks at most: its own, or those of a header. -/
def PoolOp.share (max : ℕ) (op : PoolOp) : ℕ := if op.size ≤ max then op.size else sizeofLarge

/-- The bytes that the calls ask of the chunks of a pool with `max`. -/
def asked (max : ℕ) (ops : List PoolOp) : ℕ := (ops.map (PoolOp.share max)).sum

/-- The newest chunk is used for what was asked, and `total` is the first size, or twice the
newest chunk and in proportion to what was asked. -/
structure Frugal (size used : ℕ) (s : Store) : Prop where
  chunking : Chunking size s
  payload : ∀ c ∈ s.pool.chunks, c.payload ≤ sizeofPool
  newest : ∃ c, s.pool.chunks.getLast? = some c ∧ c.last ≤ sizeofPool + used ∧
    (s.pool.total = size ∧ c.stop = size ∨
      s.pool.total = 2 * c.stop ∧ s.pool.total ≤ 4 * (sizeofPool + used))

lemma Frugal.mono {size used used' : ℕ} {s : Store} (h : Frugal size used s)
    (hle : used ≤ used') : Frugal size used' s := by
  obtain ⟨c, hlast, hused, htotal⟩ := h.newest
  refine ⟨h.chunking, h.payload, c, hlast, by omega, ?_⟩
  rcases htotal with hfirst | ⟨htwice, hbound⟩
  · exact Or.inl hfirst
  · exact Or.inr ⟨htwice, by omega⟩

/-- Only the chunks and `total` matter. -/
lemma Frugal.congr {size used : ℕ} {s s' : Store} (h : Frugal size used s)
    (hchunking : Chunking size s') (hchunks : s'.pool.chunks = s.pool.chunks)
    (htotal : s'.pool.total = s.pool.total) : Frugal size used s' := by
  refine ⟨hchunking, ?_, ?_⟩
  · rw [hchunks]
    exact h.payload
  · rw [hchunks, htotal]
    exact h.newest

/-! ## When a chunk is added -/

lemma findRoom_none {n i : ℕ} {cs : List Chunk} (h : findRoom n cs i = none) :
    ∀ c ∈ cs, c.hasRoom n = false := by
  induction cs generalizing i with
  | nil => simp
  | cons d cs ih =>
    simp only [findRoom] at h
    split_ifs at h with hroom
    intro c hc
    rcases List.mem_cons.mp hc with rfl | hc
    · simpa using hroom
    · exact ih h c hc

/-- A chunk without room for `n` bytes is used up to less than `n` bytes from its end. -/
lemma stop_lt_of_no_room {c : Chunk} {n : ℕ} (hstop : c.stop < 2 ^ 64)
    (hroom : c.hasRoom n = false) : c.stop < c.last + n := by
  rw [Chunk.hasRoom, decide_eq_false_iff_not, toSizeT] at hroom
  omega

/-- **When a chunk is added, what was asked has used up the newest one.** -/
lemma Frugal.doubled_le {size used : ℕ} {s : Store} (h : Frugal size used s)
    (hsize : size < 2 ^ 64) (hwide : s.pool.total < 2 ^ 64) {n : ℕ}
    (hroom : noRoom s.pool n = true) :
    s.pool.total + s.pool.total ≤ 4 * (sizeofPool + (used + n)) := by
  obtain ⟨c, hlast, hused, htotal⟩ := h.newest
  have hinside := h.chunking.retirement.inside
  rw [List.length_map] at hinside
  have hmem : c ∈ s.pool.chunks.drop s.pool.current := by
    apply List.mem_of_getLast?
    rw [List.getLast?_drop, if_neg (by omega)]
    exact hlast
  have hnone : findRoom n (s.pool.chunks.drop s.pool.current) s.pool.current = none := by
    simpa [noRoom] using hroom
  have hstop : c.stop < 2 ^ 64 := by omega
  have hfull := stop_lt_of_no_room hstop (findRoom_none hnone c hmem)
  omega

/-! ## One call -/

lemma getLast?_modify {α : Type*} (l : List α) (i : ℕ) (f : α → α) :
    (l.modify i f).getLast? =
      l.getLast?.map (fun a => if i + 1 = l.length then f a else a) := by
  rw [List.getLast?_eq_getElem?, List.getLast?_eq_getElem?, List.length_modify,
    List.getElem?_modify]
  cases hlast : l[l.length - 1]? with
  | none => rfl
  | some a =>
    have hlt := (List.getElem?_eq_some_iff.mp hlast).1
    have hsame : (i = l.length - 1) = (i + 1 = l.length) := by
      apply propext
      omega
    simp [hsame]

/-- A small request that a chunk has room for. -/
lemma Frugal.served {size used n i : ℕ} {s s' : Store} (h : Frugal size used s)
    (hchunking : Chunking size s') (htotal : s'.pool.total = s.pool.total)
    (hchunks : s'.pool.chunks =
      s.pool.chunks.modify i (fun c => { c with last := c.last + n })) :
    Frugal size (used + n) s' := by
  obtain ⟨c, hlast, hused, hproportion⟩ := h.newest
  refine ⟨hchunking, ?_, ?_⟩
  · rw [hchunks]
    intro d hd
    rcases mem_modify hd with hd | ⟨e, he, rfl⟩
    · exact h.payload d hd
    · exact h.payload e (List.mem_of_getElem? he)
  · rw [hchunks, getLast?_modify, hlast, htotal]
    refine ⟨_, rfl, ?_, ?_⟩
    · split_ifs
      · show c.last + n ≤ sizeofPool + (used + n)
        omega
      · show c.last ≤ sizeofPool + (used + n)
        omega
    · have hstop : (if i + 1 = s.pool.chunks.length then { c with last := c.last + n }
          else c).stop = c.stop := by
        split_ifs
        · rfl
        · rfl
      simp only [hstop]
      omega

/-- A new chunk. -/
lemma Frugal.grow {size used n : ℕ} {s : Store} (h : Frugal size used s) (hn : n ≤ s.pool.max)
    (hdouble : s.pool.total + s.pool.total ≤ 4 * (sizeofPool + (used + n)))
    (hwrap : s.pool.total + s.pool.total < 2 ^ 64) :
    Frugal size (used + n) (addMemChunk s n true).2 := by
  have hmax := h.chunking.max
  have hsize := h.chunking.size_le
  have halloc : ¬ n > s.pool.total := by omega
  have htotal : (addMemChunk s n true).2.pool.total = s.pool.total + s.pool.total := by
    simp only [addMemChunk, if_true, if_neg halloc, toSizeT]
    omega
  refine ⟨h.chunking.grow hn hwrap, ?_, ?_⟩
  · rw [addMemChunk_chunks]
    intro c hc
    simp only [List.mem_append, List.mem_map, List.mem_singleton] at hc
    rcases hc with (hc | ⟨d, hd, rfl⟩) | rfl
    · exact h.payload c (List.mem_of_mem_take hc)
    · exact h.payload d (List.mem_of_mem_drop hd)
    · simp [Chunk.payload, sizeofPool, sizeofChunk]
  · rw [addMemChunk_chunks, htotal, if_neg halloc]
    refine ⟨_, List.getLast?_concat, ?_, Or.inr ⟨?_, hdouble⟩⟩
    · simp only [sizeofPool, sizeofChunk]
      omega
    · simp only
      omega

/-- A small request. It cannot make `total` wrap. -/
lemma Frugal.small {size used n : ℕ} {s : Store} (h : Frugal size used s) (hsize : size < 2 ^ 64)
    (hwide : s.pool.total < 2 ^ 64) (hn : n ≤ s.pool.max)
    (hfits : 4 * (sizeofPool + (used + n)) < 2 ^ 64) (ok : Bool) :
    Frugal size (used + n) (pmallocSmall s n ok).2 := by
  have hchunking : Chunking size (pmallocSmall s n ok).2 := by
    apply h.chunking.small hn
    intro _ hroom
    have hdouble := h.doubled_le hsize hwide hroom
    omega
  rcases pmallocSmall_cases s n ok with ⟨i, c, -, -, -, heq⟩ | ⟨-, -, heq⟩ | ⟨hroom, -, heq⟩
  · rw [heq] at hchunking ⊢
    exact h.served hchunking rfl rfl
  · rw [heq]
    exact h.mono (Nat.le_add_right _ _)
  · have hdouble := h.doubled_le hsize hwide hroom
    rw [heq]
    exact h.grow hn hdouble (by omega)

/-- The heap and the list of large blocks do not matter. -/
lemma Frugal.heap {size used : ℕ} {s s' : Store} (h : Frugal size used s)
    (hpool : s'.pool.chunks = s.pool.chunks ∧ s'.pool.block = s.pool.block ∧
      s'.pool.current = s.pool.current ∧ s'.pool.total = s.pool.total ∧
      s'.pool.max = s.pool.max)
    (hsize : ∀ b, b < s.heap.fresh → s'.heap.size b = s.heap.size b)
    (hfresh : s.heap.fresh ≤ s'.heap.fresh) : Frugal size used s' := by
  obtain ⟨hchunks, hsame⟩ := hpool
  have hchunking : Chunking size s' := by
    apply h.chunking.congr _ _ hsame hsize hfresh
    · rw [hchunks]
    · rw [hchunks]
  exact h.congr hchunking hchunks hsame.2.2.1

/-- A large request, with the header it may need. -/
lemma Frugal.large {size used n : ℕ} {s : Store} (h : Frugal size used s) (hsize : size < 2 ^ 64)
    (hwide : s.pool.total < 2 ^ 64) (hfits : 4 * (sizeofPool + (used + sizeofLarge)) < 2 ^ 64)
    (m : Mallocs) : Frugal size (used + sizeofLarge) (allocLargeMem s n m).2 := by
  have hdata : Frugal size used (withData s n) :=
    h.heap ⟨rfl, rfl, rfl, rfl, rfl⟩ (fun _ hb => size_malloc _ hb) (Nat.le_succ _)
  have hmore := hdata.mono (Nat.le_add_right used sizeofLarge)
  have hheader := hdata.small hsize hwide s.pool.header_small hfits m.chunk
  rcases allocLargeMem_cases s n m with ⟨-, heq⟩ | ⟨large, -, -, heq⟩ | ⟨s', -, -, hsmall, heq⟩ |
    ⟨a, s', -, -, hsmall, heq⟩
  · rw [heq]
    exact h.mono (Nat.le_add_right _ _)
  · rw [heq]
    exact hmore.heap ⟨rfl, rfl, rfl, rfl, rfl⟩ (fun _ _ => rfl) (Nat.le_refl _)
  · rw [hsmall] at hheader
    rw [heq]
    exact hheader.heap ⟨rfl, rfl, rfl, rfl, rfl⟩ (fun _ _ => rfl) (Nat.le_refl _)
  · rw [hsmall] at hheader
    rw [heq]
    exact hheader.heap ⟨rfl, rfl, rfl, rfl, rfl⟩ (fun _ _ => rfl) (Nat.le_refl _)

lemma Frugal.pmalloc {size used : ℕ} {s : Store} (h : Frugal size used s) (hsize : size < 2 ^ 64)
    (hwide : s.pool.total < 2 ^ 64) {n : SizeT} {m : Mallocs}
    (hfits : 4 * (sizeofPool + (used + (PoolOp.pmalloc n m).share s.pool.max)) < 2 ^ 64) :
    Frugal size (used + (PoolOp.pmalloc n m).share s.pool.max) (pmalloc s n m).2 := by
  unfold Xpipe.pmalloc
  by_cases hsmall : n.val ≤ s.pool.max
  · have hshare : (PoolOp.pmalloc n m).share s.pool.max = n.val := if_pos hsmall
    rw [hshare] at hfits ⊢
    rw [if_pos hsmall]
    exact h.small hsize hwide hsmall hfits m.chunk
  · have hshare : (PoolOp.pmalloc n m).share s.pool.max = sizeofLarge := if_neg hsmall
    rw [hshare] at hfits ⊢
    rw [if_neg hsmall]
    exact h.large hsize hwide hfits m

/-- `mem_pool_clear` gives the chunks back to the pool, and none to malloc. -/
lemma Frugal.clear {size used : ℕ} {s : Store} (h : Frugal size used s) :
    Frugal size used (memPoolClear s) := by
  obtain ⟨c, hlast, -, htotal⟩ := h.newest
  refine ⟨h.chunking.clear, ?_, { c with fail := 0, last := c.payload }, ?_, ?_, htotal⟩
  · intro d hd
    obtain ⟨e, he, rfl⟩ := List.mem_map.mp hd
    exact h.payload e he
  · show (s.pool.chunks.map _).getLast? = _
    rw [List.getLast?_map, hlast]
    rfl
  · have hstart := h.payload c (List.mem_of_getLast? hlast)
    show c.payload ≤ sizeofPool + used
    omega

lemma pmallocSmall_max (s : Store) (n : ℕ) (ok : Bool) :
    (pmallocSmall s n ok).2.pool.max = s.pool.max := by
  rcases pmallocSmall_cases s n ok with ⟨i, c, -, -, -, heq⟩ | ⟨-, -, heq⟩ | ⟨-, -, heq⟩
  · rw [heq]
  · rw [heq]
  · rw [heq]
    rfl

lemma pmalloc_max (s : Store) (n : SizeT) (m : Mallocs) :
    (pmalloc s n m).2.pool.max = s.pool.max := by
  have hheader := pmallocSmall_max (withData s n) sizeofLarge m.chunk
  unfold pmalloc
  split_ifs with hsmall
  · exact pmallocSmall_max s n m.chunk
  · rcases allocLargeMem_cases s n m with ⟨-, heq⟩ | ⟨large, -, -, heq⟩ | ⟨s', -, -, hs', heq⟩ |
      ⟨a, s', -, -, hs', heq⟩
    · rw [heq]
    · rw [heq]
    · rw [hs'] at hheader
      rw [heq]
      exact hheader
    · rw [hs'] at hheader
      rw [heq]
      exact hheader

/-- No call changes `max`. -/
lemma poolStep_max (s : Store) (op : PoolOp) : (poolStep s op).pool.max = s.pool.max := by
  cases op with
  | pmalloc n m => exact pmalloc_max s n m
  | pcalloc n m => exact pmalloc_max s n m
  | pfreeLarge p =>
    simp only [poolStep, PoolOp.call, pfreeLarge]
    split
    · rfl
    · rfl
  | clear => rfl

/-- **One call.** -/
lemma poolStep_frugal {size used : ℕ} {s : Store} (h : Frugal size used s) (hsize : size < 2 ^ 64)
    (hwide : s.pool.total < 2 ^ 64) (op : PoolOp)
    (hfits : 4 * (sizeofPool + (used + op.share s.pool.max)) < 2 ^ 64) :
    Frugal size (used + op.share s.pool.max) (poolStep s op) := by
  cases op with
  | pmalloc n m => exact h.pmalloc hsize hwide hfits
  | pcalloc n m => exact h.pmalloc hsize hwide hfits
  | pfreeLarge p =>
    have hmore := h.mono (Nat.le_add_right used ((PoolOp.pfreeLarge p).share s.pool.max))
    simp only [poolStep, PoolOp.call, pfreeLarge]
    split
    · exact hmore.heap ⟨rfl, rfl, rfl, rfl, rfl⟩ (fun _ _ => rfl) (Nat.le_refl _)
    · exact hmore
  | clear => exact (h.mono (Nat.le_add_right _ _)).clear

/-! ## The bounds -/

/-- The first chunk that a pool adds has room for its header. -/
def FirstChunkFits (s : Store) (op : PoolOp) : Prop := s.pool.chunks.length = 1 → NewChunkFits s op

instance (s : Store) (op : PoolOp) : Decidable (FirstChunkFits s op) :=
  inferInstanceAs (Decidable (_ → _))

lemma chunkRequest_le {s : Store} {op : PoolOp} {k : ℕ} (h : k ∈ op.chunkRequest s) :
    k ≤ s.pool.max := by
  have hsmall {n : SizeT} {m : Mallocs} {p : ℕ → Bool}
      (hk : k ∈ (smallRequest s n m).filter p) : k ≤ s.pool.max := by
    have hrequest := (Option.filter_eq_some_iff.mp hk).1
    unfold smallRequest at hrequest
    split_ifs at hrequest with hn hheader
    · cases hrequest
      exact hn
    · cases hrequest
      exact s.pool.header_small
  cases op with
  | pmalloc n m => exact hsmall h
  | pcalloc n m => exact hsmall h
  | pfreeLarge p => cases h
  | clear => cases h

/-- From the second chunk on, `total` is more than a small request and a header. -/
lemma Chunking.fits_iff {size : ℕ} {s : Store} (h : Chunking size s) (hheader : sizeofPool ≤ size)
    (op : PoolOp) : NewChunkFits s op ↔ FirstChunkFits s op := by
  constructor
  · intro hfits _
    exact hfits
  · intro hfirst k hk
    by_cases hone : s.pool.chunks.length = 1
    · exact hfirst hone k hk
    · have hle := (chunkRequest_le hk).trans h.max
      have hpos := h.positive
      have hdouble : size * 2 ≤ s.pool.total := by
        rw [h.total]
        apply Nat.mul_le_mul_left
        calc 2 = 2 ^ 1 := rfl
          _ ≤ 2 ^ (s.pool.chunks.length - 1) := Nat.pow_le_pow_right (by decide) (by omega)
      simp only [sizeofPool, sizeofChunk] at hheader ⊢
      omega

/-- A pool that is larger than any small request by a header. -/
lemma Chunking.fits_of_roomy {size : ℕ} {s : Store} (h : Chunking size s)
    (hroomy : s.pool.max + sizeofChunk ≤ size) (op : PoolOp) : NewChunkFits s op := by
  intro k hk
  have hsmall := chunkRequest_le hk
  have htotal := h.size_le
  omega

/-! ## A run -/

lemma Frugal.wide {size used : ℕ} {s : Store} (h : Frugal size used s) (hsize : size < 2 ^ 64)
    (hfits : 4 * (sizeofPool + used) < 2 ^ 64) : s.pool.total < 2 ^ 64 := by
  obtain ⟨c, -, -, htotal⟩ := h.newest
  omega

lemma Frugal.total_le {size used : ℕ} {s : Store} (h : Frugal size used s) :
    s.pool.total ≤ max size (4 * (sizeofPool + used)) := by
  obtain ⟨c, -, -, htotal⟩ := h.newest
  omega

lemma foldl_frugal {size used : ℕ} {s : Store} (h : Frugal size used s) (hsize : size < 2 ^ 64)
    (ops : List PoolOp) (hfits : 4 * (sizeofPool + (used + asked s.pool.max ops)) < 2 ^ 64) :
    Frugal size (used + asked s.pool.max ops) (ops.foldl poolStep s) := by
  induction ops generalizing used s with
  | nil => exact h
  | cons op ops ih =>
    have hasked : asked s.pool.max (op :: ops) = op.share s.pool.max + asked s.pool.max ops := rfl
    rw [hasked] at hfits ⊢
    have hstep := poolStep_frugal h hsize (h.wide hsize (by omega)) op (by omega)
    have hrest := ih hstep (by
      rw [poolStep_max]
      omega)
    rw [poolStep_max] at hrest
    rw [← Nat.add_assoc]
    exact hrest

/-- What holds of a pool that is in proportion holds along the run. -/
lemma along_frugal {size used : ℕ} {s : Store} {P : Store → PoolOp → Prop} (h : Frugal size used s)
    (hsize : size < 2 ^ 64) (ops : List PoolOp)
    (hfits : 4 * (sizeofPool + (used + asked s.pool.max ops)) < 2 ^ 64)
    (hP : ∀ t op, Chunking size t → t.pool.max = s.pool.max → P t op) :
    Along poolStep P s ops := by
  induction ops generalizing used s with
  | nil => trivial
  | cons op ops ih =>
    have hasked : asked s.pool.max (op :: ops) = op.share s.pool.max + asked s.pool.max ops := rfl
    rw [hasked] at hfits
    have hstep := poolStep_frugal h hsize (h.wide hsize (by omega)) op (by omega)
    have hmax := poolStep_max s op
    refine ⟨hP s op h.chunking rfl, ih hstep ?_ ?_⟩
    · rw [hmax]
      omega
    · rw [hmax]
      exact hP

/-- **Only the first chunk that is added can break the bounds.** -/
lemma bounds_iff_first {size used : ℕ} {s : Store} (h : Frugal size used s) (hs : Sound s)
    (hsize : size < 2 ^ 64) (hheader : sizeofPool ≤ size) (ops : List PoolOp)
    (hfits : 4 * (sizeofPool + (used + asked s.pool.max ops)) < 2 ^ 64) :
    Along poolStep KeepsBounds s ops ↔ Along poolStep FirstChunkFits s ops := by
  have hfirst : Along poolStep (fun t op => NewChunkFits t op ↔ FirstChunkFits t op) s ops :=
    along_frugal h hsize ops hfits (fun t op ht _ => ht.fits_iff hheader op)
  apply along_iff (I := Sound) _ _ hs hfirst
  · intro t op ht hiff hfits
    exact (poolStep_bounds ht op).1 (hiff.mpr hfits)
  · intro t op ht hiff
    exact (poolStep_bounds ht op).2.trans hiff

lemma memPoolCreate_max (size : SizeT) (hsize : sizeofPool ≤ size.val) :
    (memPoolCreate size hsize).pool.max ≤ maxSizeOfChunk := by
  simp only [memPoolCreate]
  split_ifs with hlt
  · exact hlt.le
  · exact Nat.le_refl _

lemma memPoolCreate_frugal (size : SizeT) (hsize : sizeofPool ≤ size.val) :
    Frugal size 0 (memPoolCreate size hsize) := by
  refine ⟨memPoolCreate_chunking size hsize, ?_, ⟨0, chunkOffset, 0, sizeofPool, size⟩, rfl, ?_, ?_⟩
  · intro c hc
    obtain rfl := List.mem_singleton.mp hc
    simp [Chunk.payload, chunkOffset, sizeofPool, sizeofChunk]
  · exact Nat.le_refl _
  · exact Or.inl ⟨rfl, rfl⟩

/-- **What a pool takes from malloc stays in proportion to what is asked of it.** Take a run of a
pool of which less than `2 ^ 62 - 88` bytes are asked. It stays in its bounds exactly when the
first chunk that it adds has room for its header, which is so for a pool that is larger than any
small request by a header. In such a run `total` is at most four times what was asked and a
header, or the first size; it is the sum of the chunks and doubles with each. -/
theorem pool_space (size : SizeT) (hsize : sizeofPool ≤ size.val) (ops : List PoolOp)
    (hasked : 4 * (sizeofPool + asked (memPoolCreate size hsize).pool.max ops) < 2 ^ 64) :
    (Along poolStep KeepsBounds (memPoolCreate size hsize) ops ↔
      Along poolStep FirstChunkFits (memPoolCreate size hsize) ops) ∧
    (maxSizeOfChunk + sizeofChunk ≤ size.val →
      Along poolStep KeepsBounds (memPoolCreate size hsize) ops) ∧
    (Along poolStep KeepsBounds (memPoolCreate size hsize) ops →
      (ops.foldl poolStep (memPoolCreate size hsize)).pool.total ≤
          max size.val (4 * (sizeofPool + asked (memPoolCreate size hsize).pool.max ops)) ∧
        Chunked size (ops.foldl poolStep (memPoolCreate size hsize))) := by
  have hinit := memPoolCreate_frugal size hsize
  have hfits : 4 * (sizeofPool + (0 + asked (memPoolCreate size hsize).pool.max ops)) < 2 ^ 64 := by
    omega
  have hend := foldl_frugal hinit size.isLt ops hfits
  rw [Nat.zero_add] at hend
  have hiff := bounds_iff_first hinit (memPoolCreate_sound size hsize) size.isLt hsize ops hfits
  refine ⟨hiff, fun hroomy => hiff.mpr ?_, fun _ => ⟨hend.total_le, hend.chunking.chunked⟩⟩
  apply along_frugal hinit size.isLt ops hfits
  intro t op ht hmax _
  apply ht.fits_of_roomy
  have hmost := memPoolCreate_max size hsize
  omega

/-- A pool of 2048 bytes that grows twice, by the second request and by the third. -/
def fourRequests (n : SizeT) : List PoolOp := List.replicate 4 (.pmalloc n ⟨true, true⟩)

theorem pool_space_four :
    Along poolStep KeepsBounds (memPoolCreate 2048 (by decide)) (fourRequests 1900) ∧
      Chunked 2048 ((fourRequests 1900).foldl poolStep (memPoolCreate 2048 (by decide))) ∧
      ((fourRequests 1900).foldl poolStep (memPoolCreate 2048 (by decide))).pool.total = 8192 := by
  obtain ⟨hiff, -, hrun⟩ := pool_space 2048 (by decide) (fourRequests 1900) (by decide)
  have hbounds := hiff.mpr (by decide)
  exact ⟨hbounds, (hrun hbounds).2, by decide⟩

end Xpipe
