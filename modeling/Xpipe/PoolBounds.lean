import Xpipe.MemPool
import Xpipe.Runs

/-!
# The bounds of the pool's chunks

`add_mem_chunk` asks `malloc` for as many bytes as the request or the pool has,
but puts its own header in front of the request. The chunk is large enough
exactly when the request and the header fit into `total` bytes. A chunk that is
not leaves `last` behind `end`, and the unsigned room test then finds room in it
for every later request. `poolBounds_iff` says that this is the only way in
which the bounds break.
-/
namespace Xpipe
open Runs

/-- The bounds of every chunk: `payload ≤ last ≤ end`. -/
def Bounded (p : Pool) : Prop := ∀ c ∈ p.chunks, c.payload ≤ c.last ∧ c.last ≤ c.stop

/-- The region of `n` bytes at `a` lies in the block that `malloc` returned. -/
def Heap.Holds (h : Heap) (a : Addr) (n : ℕ) : Prop := a.off + n ≤ h.size a.block

/-- A call leaves every chunk in its bounds and returns memory it owns. -/
def KeepsBounds (s : Store) (op : PoolOp) : Prop :=
  Bounded (poolStep s op).pool ∧
    ∀ a, (op.call s).1 = some a → (poolStep s op).heap.Holds a op.size

/-- No chunk from `current` on has room for `n` bytes. -/
def noRoom (p : Pool) (n : ℕ) : Bool := (findRoom n (p.chunks.drop p.current) p.current).isNone

/-- The small request that a call makes of the chunks: its own, or that for the
header of a large block which finds no empty header. -/
def smallRequest (s : Store) (n : SizeT) (m : Mallocs) : Option ℕ :=
  if n.val ≤ s.pool.max then some n
  else if m.data ∧ reuseHeader ⟨s.heap.fresh, 0⟩ s.pool.large 0 = none then some sizeofLarge
  else none

/-- The request for which a call adds a chunk, if it adds one. -/
def PoolOp.chunkRequest (s : Store) : PoolOp → Option ℕ
  | .pmalloc n m => (smallRequest s n m).filter (fun k => m.chunk && noRoom s.pool k)
  | .pcalloc n m => (smallRequest s n m).filter (fun k => m.chunk && noRoom s.pool k)
  | _ => none

/-- A chunk that a call adds has room for its header and the request. -/
def NewChunkFits (s : Store) (op : PoolOp) : Prop :=
  ∀ k ∈ op.chunkRequest s, k + sizeofChunk ≤ s.pool.total

instance (s : Store) (op : PoolOp) : Decidable (NewChunkFits s op) :=
  inferInstanceAs (Decidable (∀ k ∈ op.chunkRequest s, k + sizeofChunk ≤ s.pool.total))

/-! ## The invariant -/

/-- A chunk in its bounds, in memory that `malloc` returned for it. -/
structure ChunkSound (h : Heap) (c : Chunk) : Prop where
  lower : c.payload ≤ c.last
  upper : c.last ≤ c.stop
  owned : c.stop ≤ h.size c.block
  size : c.stop < 2 ^ 64
  known : c.block < h.fresh

structure Sound (s : Store) : Prop where
  chunk : ∀ c ∈ s.pool.chunks, ChunkSound s.heap c
  total : s.pool.total < 2 ^ 64

lemma Sound.bounded {s : Store} (h : Sound s) : Bounded s.pool :=
  fun c hc => ⟨(h.chunk c hc).lower, (h.chunk c hc).upper⟩

lemma size_malloc {h : Heap} {b : ℕ} (n : ℕ) (hb : b < h.fresh) :
    (h.malloc n).size b = h.size b := by
  simp [Heap.malloc, Function.update_of_ne (Nat.ne_of_lt hb)]

lemma size_malloc_self (h : Heap) (n : ℕ) : (h.malloc n).size h.fresh = n := by
  simp [Heap.malloc]

lemma ChunkSound.malloc {h : Heap} {c : Chunk} (hc : ChunkSound h c) (n : ℕ) :
    ChunkSound (h.malloc n) c := by
  refine ⟨hc.lower, hc.upper, ?_, hc.size, ?_⟩
  · rw [size_malloc n hc.known]
    exact hc.owned
  · have := hc.known
    simp only [Heap.malloc]
    omega

lemma ChunkSound.free {h : Heap} {c : Chunk} (hc : ChunkSound h c) (p : Addr) :
    ChunkSound (h.free p) c := ⟨hc.lower, hc.upper, hc.owned, hc.size, hc.known⟩

lemma ChunkSound.failed {h : Heap} {c : Chunk} (hc : ChunkSound h c) :
    ChunkSound h { c with fail := c.fail + 1 } :=
  ⟨hc.lower, hc.upper, hc.owned, hc.size, hc.known⟩

/-- In bounds, the unsigned room test says what it looks like. -/
lemma hasRoom_iff {h : Heap} {c : Chunk} (hc : ChunkSound h c) (n : ℕ) :
    c.hasRoom n = true ↔ c.last + n ≤ c.stop := by
  have hu := hc.upper
  have hs := hc.size
  rw [Chunk.hasRoom, decide_eq_true_iff, toSizeT]
  omega

lemma findRoom_some {n i j : ℕ} {cs : List Chunk} {c : Chunk} (h : findRoom n cs i = some (j, c)) :
    c.hasRoom n = true ∧ i ≤ j ∧ cs[j - i]? = some c := by
  induction cs generalizing i with
  | nil => simp [findRoom] at h
  | cons d cs ih =>
    simp only [findRoom] at h
    split_ifs at h with hroom
    · cases h
      simp [hroom]
    · obtain ⟨hc, hij, hget⟩ := ih h
      refine ⟨hc, by omega, ?_⟩
      rwa [show j - i = (j - (i + 1)) + 1 by omega, List.getElem?_cons_succ]

lemma countFailures_chunks (cs : List Chunk) (i current : ℕ) :
    (countFailures cs i current).1 = cs.map (fun c => { c with fail := c.fail + 1 }) := by
  induction cs generalizing i current with
  | nil => rfl
  | cons c cs ih =>
    cases cs with
    | nil => rfl
    | cons d cs => simp only [countFailures, ih, List.map_cons]

lemma addMemChunk_chunks (s : Store) (n : ℕ) : (addMemChunk s n true).2.pool.chunks =
    s.pool.chunks.take s.pool.current ++
      (s.pool.chunks.drop s.pool.current).map (fun c => { c with fail := c.fail + 1 }) ++
      [⟨s.heap.fresh, 0, 0, sizeofChunk + n, if n > s.pool.total then n else s.pool.total⟩] := by
  simp only [addMemChunk, if_true, countFailures_chunks]

lemma map_block_addMemChunk (s : Store) (n : ℕ) :
    (addMemChunk s n true).2.pool.chunks.map Chunk.block =
      s.pool.chunks.map Chunk.block ++ [s.heap.fresh] := by
  rw [addMemChunk_chunks, List.map_append, List.map_append, List.map_map, List.map_singleton]
  congr 1
  conv_rhs => rw [← List.take_append_drop s.pool.current s.pool.chunks, List.map_append]
  rfl

/-- A modification that a function does not see. -/
lemma map_modify_of_eq {α β : Type*} {f : α → α} {g : α → β} (h : ∀ x, g (f x) = g x)
    (l : List α) (i : ℕ) : (l.modify i f).map g = l.map g := by
  apply List.ext_getElem?
  intro k
  rw [List.getElem?_map, List.getElem?_map, List.getElem?_modify]
  cases l[k]? with
  | none => rfl
  | some x =>
    simp only [Option.map_eq_map, Option.map_some]
    split_ifs
    · exact congrArg some (h x)
    · rfl

lemma map_block_modify (cs : List Chunk) (i n : ℕ) :
    (cs.modify i (fun c => { c with last := c.last + n })).map Chunk.block =
      cs.map Chunk.block := by
  apply map_modify_of_eq
  intro c
  rfl

lemma mem_modify {α : Type*} {l : List α} {i : ℕ} {f : α → α} {x : α} (h : x ∈ l.modify i f) :
    x ∈ l ∨ ∃ y, l[i]? = some y ∧ x = f y := by
  obtain ⟨k, hk⟩ := List.mem_iff_getElem?.mp h
  rw [List.getElem?_modify] at hk
  cases hy : l[k]? with
  | none => simp [hy] at hk
  | some y =>
    have hyl : y ∈ l := List.mem_of_getElem? hy
    rw [hy] at hk
    simp only [Option.map_eq_map, Option.map_some, Option.some_inj] at hk
    split_ifs at hk with hik
    · exact Or.inr ⟨y, hik ▸ hy, hk.symm⟩
    · exact Or.inl (hk ▸ hyl)

/-! ## What a call can do -/

/-- **All that a small request can do.** -/
lemma pmallocSmall_cases (s : Store) (n : ℕ) (ok : Bool) :
    (∃ i c, s.pool.chunks[i]? = some c ∧ c.hasRoom n = true ∧ noRoom s.pool n = false ∧
      pmallocSmall s n ok = (some ⟨c.block, c.last⟩, { s with pool := { s.pool with
        chunks := s.pool.chunks.modify i (fun c => { c with last := c.last + n }) } })) ∨
    (noRoom s.pool n = true ∧ ok = false ∧ pmallocSmall s n ok = (none, s)) ∨
    (noRoom s.pool n = true ∧ ok = true ∧ pmallocSmall s n ok = addMemChunk s n true) := by
  unfold pmallocSmall noRoom
  cases hfind : findRoom n (s.pool.chunks.drop s.pool.current) s.pool.current with
  | some found =>
    obtain ⟨i, c⟩ := found
    obtain ⟨hroom, hle, hget⟩ := findRoom_some hfind
    rw [List.getElem?_drop, Nat.add_sub_cancel' hle] at hget
    exact Or.inl ⟨i, c, hget, hroom, rfl, rfl⟩
  | none =>
    cases ok with
    | false => exact Or.inr (Or.inl ⟨rfl, rfl, rfl⟩)
    | true => exact Or.inr (Or.inr ⟨rfl, rfl, rfl⟩)

/-- **All that a large request can do.** -/
lemma allocLargeMem_cases (s : Store) (n : ℕ) (m : Mallocs) :
    (m.data = false ∧ allocLargeMem s n m = (none, s)) ∨
    (∃ large, m.data = true ∧ reuseHeader ⟨s.heap.fresh, 0⟩ s.pool.large 0 = some large ∧
      allocLargeMem s n m =
        (some ⟨s.heap.fresh, 0⟩, ⟨(withData s n).heap, { s.pool with large := large }⟩)) ∨
    (∃ s', m.data = true ∧ reuseHeader ⟨s.heap.fresh, 0⟩ s.pool.large 0 = none ∧
      pmallocSmall (withData s n) sizeofLarge m.chunk = (none, s') ∧
      allocLargeMem s n m = (none, ⟨s'.heap.free ⟨s.heap.fresh, 0⟩, s'.pool⟩)) ∨
    (∃ a s', m.data = true ∧ reuseHeader ⟨s.heap.fresh, 0⟩ s.pool.large 0 = none ∧
      pmallocSmall (withData s n) sizeofLarge m.chunk = (some a, s') ∧
      allocLargeMem s n m = (some ⟨s.heap.fresh, 0⟩,
        ⟨s'.heap, { s'.pool with large := ⟨a, some ⟨s.heap.fresh, 0⟩⟩ :: s'.pool.large }⟩)) := by
  unfold allocLargeMem
  cases m.data with
  | false => exact Or.inl ⟨rfl, rfl⟩
  | true =>
    cases hreuse : reuseHeader ⟨s.heap.fresh, 0⟩ s.pool.large 0 with
    | some large => exact Or.inr (Or.inl ⟨large, rfl, rfl, by simp [hreuse]⟩)
    | none =>
      cases hsmall : pmallocSmall (withData s n) sizeofLarge m.chunk with
      | mk a s' =>
        cases a with
        | none => exact Or.inr (Or.inr (Or.inl ⟨s', rfl, rfl, rfl, by simp [hreuse]⟩))
        | some a => exact Or.inr (Or.inr (Or.inr ⟨a, s', rfl, rfl, rfl, by simp [hreuse]⟩))

lemma pmallocSmall_large (s : Store) (n : ℕ) (ok : Bool) :
    (pmallocSmall s n ok).2.pool.large = s.pool.large := by
  rcases pmallocSmall_cases s n ok with ⟨i, c, -, -, -, heq⟩ | ⟨-, -, heq⟩ | ⟨-, -, heq⟩
  · rw [heq]
  · rw [heq]
  · rw [heq]
    rfl

/-! ## One call -/

lemma addMemChunk_sound {s : Store} {n : ℕ} (hs : Sound s) (hfits : n + sizeofChunk ≤ s.pool.total) :
    Sound (addMemChunk s n true).2 ∧
      ∀ a, (addMemChunk s n true).1 = some a → (addMemChunk s n true).2.heap.Holds a n := by
  have hsmall : ¬ n > s.pool.total := by omega
  have htotal := hs.total
  simp only [addMemChunk, if_true, if_neg hsmall, countFailures_chunks]
  refine ⟨⟨?_, ?_⟩, ?_⟩
  · intro c hc
    simp only [List.mem_append, List.mem_map, List.mem_singleton] at hc
    rcases hc with (hc | ⟨d, hd, rfl⟩) | rfl
    · exact (hs.chunk c (List.mem_of_mem_take hc)).malloc _
    · exact (hs.chunk d (List.mem_of_mem_drop hd)).failed.malloc _
    · refine ⟨by simp [Chunk.payload], by simp only; omega, ?_, htotal, ?_⟩
      · simp [size_malloc_self]
      · simp [Heap.malloc]
  · simp only [toSizeT]
    omega
  · rintro a h
    cases h
    simp only [Heap.Holds, size_malloc_self]
    omega

lemma pmallocSmall_sound {s : Store} {n : ℕ} {ok : Bool} (hs : Sound s)
    (hfits : ok = true → noRoom s.pool n = true → n + sizeofChunk ≤ s.pool.total) :
    Sound (pmallocSmall s n ok).2 ∧
      ∀ a, (pmallocSmall s n ok).1 = some a → (pmallocSmall s n ok).2.heap.Holds a n := by
  rcases pmallocSmall_cases s n ok with
    ⟨i, c, hget, hroom, -, heq⟩ | ⟨-, -, heq⟩ | ⟨hroom, hok, heq⟩
  · have hc := hs.chunk c (List.mem_of_getElem? hget)
    have hend := (hasRoom_iff hc n).mp hroom
    rw [heq]
    refine ⟨⟨?_, hs.total⟩, ?_⟩
    · intro d hd
      rcases mem_modify hd with hd | ⟨e, he, rfl⟩
      · exact hs.chunk d hd
      · obtain rfl : c = e := Option.some.inj (hget.symm.trans he)
        exact ⟨hc.lower.trans (by simp), hend, hc.owned, hc.size, hc.known⟩
    · rintro a h
      cases h
      exact hend.trans hc.owned
  · rw [heq]
    exact ⟨hs, by simp⟩
  · rw [heq]
    exact addMemChunk_sound hs (hfits hok hroom)

/-- A chunk that is too small for its header and the request breaks the bounds. -/
lemma pmallocSmall_unbounded {s : Store} {n : ℕ} (hroom : noRoom s.pool n = true)
    (hbig : ¬ n + sizeofChunk ≤ s.pool.total) : ¬ Bounded (pmallocSmall s n true).2.pool := by
  have hnone : findRoom n (s.pool.chunks.drop s.pool.current) s.pool.current = none := by
    simpa [noRoom] using hroom
  intro hb
  simp only [pmallocSmall, hnone, addMemChunk, if_true] at hb
  have hnew := (hb _ (List.mem_append_right _ (List.mem_singleton_self _))).2
  simp only [sizeofChunk] at hnew hbig
  split_ifs at hnew <;> omega

lemma fresh_pmallocSmall (s : Store) (n : ℕ) (ok : Bool) {b : ℕ} (hb : b < s.heap.fresh) :
    (pmallocSmall s n ok).2.heap.size b = s.heap.size b := by
  rcases pmallocSmall_cases s n ok with ⟨i, c, -, -, -, heq⟩ | ⟨-, -, heq⟩ | ⟨-, -, heq⟩
  · rw [heq]
  · rw [heq]
  · rw [heq]
    exact size_malloc _ hb

lemma Sound.withData {s : Store} (hs : Sound s) (n : ℕ) : Sound (withData s n) :=
  ⟨fun c hc => (hs.chunk c hc).malloc n, hs.total⟩

lemma allocLargeMem_sound {s : Store} {n : ℕ} {m : Mallocs} (hs : Sound s)
    (hfits : m.data = true → reuseHeader ⟨s.heap.fresh, 0⟩ s.pool.large 0 = none →
      m.chunk = true → noRoom s.pool sizeofLarge = true →
      sizeofLarge + sizeofChunk ≤ s.pool.total) :
    Sound (allocLargeMem s n m).2 ∧
      ∀ a, (allocLargeMem s n m).1 = some a → (allocLargeMem s n m).2.heap.Holds a n := by
  have hdata := hs.withData n
  have hsize : (Xpipe.withData s n).heap.size s.heap.fresh = n := size_malloc_self _ _
  have hheader (hm : m.data = true)
      (hreuse : reuseHeader ⟨s.heap.fresh, 0⟩ s.pool.large 0 = none) :
      Sound (pmallocSmall (Xpipe.withData s n) sizeofLarge m.chunk).2 :=
    (@pmallocSmall_sound _ sizeofLarge m.chunk hdata (hfits hm hreuse)).1
  rcases allocLargeMem_cases s n m with
    ⟨-, heq⟩ | ⟨large, -, -, heq⟩ | ⟨s', hm, hreuse, hsmall, heq⟩ | ⟨a, s', hm, hreuse, hsmall, heq⟩
  · rw [heq]
    exact ⟨hs, by simp⟩
  · rw [heq]
    refine ⟨⟨hdata.chunk, hdata.total⟩, ?_⟩
    rintro b h
    cases h
    simp [Heap.Holds, hsize]
  · have hsound := hheader hm hreuse
    rw [hsmall] at hsound
    rw [heq]
    exact ⟨⟨fun c hc => (hsound.chunk c hc).free _, hsound.total⟩, by simp⟩
  · have hsound := hheader hm hreuse
    have hkeep := @fresh_pmallocSmall (Xpipe.withData s n) sizeofLarge m.chunk s.heap.fresh
      (Nat.lt_succ_self _)
    rw [hsmall] at hsound hkeep
    have hsame : s'.heap.size s.heap.fresh = n := hkeep.trans hsize
    rw [heq]
    refine ⟨⟨hsound.chunk, hsound.total⟩, ?_⟩
    rintro b h
    cases h
    simp [Heap.Holds, hsame]

lemma allocLargeMem_unbounded {s : Store} {n : ℕ}
    (hreuse : reuseHeader ⟨s.heap.fresh, 0⟩ s.pool.large 0 = none)
    (hroom : noRoom s.pool sizeofLarge = true)
    (hbig : ¬ sizeofLarge + sizeofChunk ≤ s.pool.total) :
    ¬ Bounded (allocLargeMem s n ⟨true, true⟩).2.pool := by
  have hsmall := @pmallocSmall_unbounded (withData s n) sizeofLarge hroom hbig
  simp only [allocLargeMem, if_true, hreuse]
  split <;> exact hsmall

lemma newChunkFits_iff (s : Store) (n : SizeT) (m : Mallocs) :
    NewChunkFits s (.pmalloc n m) ↔ ∀ k, smallRequest s n m = some k → m.chunk = true →
      noRoom s.pool k = true → k + sizeofChunk ≤ s.pool.total := by
  simp only [NewChunkFits, PoolOp.chunkRequest, Option.mem_def, Option.filter_eq_some_iff,
    Bool.and_eq_true, and_imp]

/-- What a call to `pmalloc` does to the bounds. -/
lemma pmalloc_bounds {s : Store} (hs : Sound s) (n : SizeT) (m : Mallocs) :
    (NewChunkFits s (.pmalloc n m) → Sound (pmalloc s n m).2 ∧
      ∀ a, (pmalloc s n m).1 = some a → (pmalloc s n m).2.heap.Holds a n) ∧
    (¬ NewChunkFits s (.pmalloc n m) → ¬ Bounded (pmalloc s n m).2.pool) := by
  rw [newChunkFits_iff]
  unfold pmalloc smallRequest
  obtain ⟨data, chunk⟩ := m
  by_cases hsmall : n.val ≤ s.pool.max
  · simp only [if_pos hsmall, Option.some_inj, forall_eq', Classical.not_imp]
    refine ⟨pmallocSmall_sound hs, ?_⟩
    rintro ⟨rfl, hroom, hbig⟩
    exact pmallocSmall_unbounded hroom hbig
  · simp only [if_neg hsmall, Option.ite_none_right_eq_some, Option.some_inj, and_imp, not_forall]
    refine ⟨fun hfits => allocLargeMem_sound hs (fun hdata hreuse => ?_), ?_⟩
    · exact hfits sizeofLarge hdata hreuse rfl
    · rintro ⟨k, rfl, hreuse, rfl, rfl, hroom, hbig⟩
      exact allocLargeMem_unbounded hreuse hroom hbig

lemma sound_freeLarge {s : Store} (hs : Sound s) (large : List Large) (c : Chunk)
    (hc : c ∈ s.pool.chunks) : ChunkSound (freeLarge s.heap large) c := by
  have hkeep (h : Heap) (hh : ChunkSound h c) : ChunkSound (freeLarge h large) c := by
    unfold freeLarge
    induction large generalizing h with
    | nil => exact hh
    | cons l large ih => exact ih _ (hh.free l.header)
  exact hkeep _ (hs.chunk c hc)

lemma memPoolClear_sound {s : Store} (hs : Sound s) : Sound (memPoolClear s) := by
  refine ⟨?_, hs.total⟩
  intro c hc
  obtain ⟨d, hd, rfl⟩ := List.mem_map.mp hc
  have hsound := sound_freeLarge hs s.pool.large d hd
  exact ⟨le_refl _, hsound.lower.trans hsound.upper, hsound.owned, hsound.size, hsound.known⟩

lemma pfreeLarge_sound {s : Store} (hs : Sound s) (p : Addr) : Sound (pfreeLarge s p).2 := by
  unfold pfreeLarge
  split
  · exact ⟨fun c hc => (hs.chunk c hc).free p, hs.total⟩
  · exact hs

/-- **One call.** It keeps the bounds exactly when the chunk it adds, if it adds
one, has room for its header; and then the pool stays sound. -/
theorem poolStep_bounds {s : Store} (hs : Sound s) (op : PoolOp) :
    (NewChunkFits s op → Sound (poolStep s op)) ∧ (KeepsBounds s op ↔ NewChunkFits s op) := by
  have halloc (n : SizeT) (m : Mallocs) :
      (NewChunkFits s (.pmalloc n m) → Sound (pmalloc s n m).2) ∧
      (KeepsBounds s (.pmalloc n m) ↔ NewChunkFits s (.pmalloc n m)) := by
    obtain ⟨hfits, hbig⟩ := pmalloc_bounds hs n m
    refine ⟨fun h => (hfits h).1, fun h => ?_, fun h => ⟨(hfits h).1.bounded, (hfits h).2⟩⟩
    by_contra hno
    exact hbig hno h.1
  cases op with
  | pmalloc n m => exact halloc n m
  | pcalloc n m => exact halloc n m
  | pfreeLarge p =>
    have hsound := pfreeLarge_sound hs p
    have hfits : NewChunkFits s (.pfreeLarge p) := by simp [NewChunkFits, PoolOp.chunkRequest]
    exact ⟨fun _ => hsound, iff_of_true ⟨hsound.bounded, by simp [PoolOp.call]⟩ hfits⟩
  | clear =>
    have hsound := memPoolClear_sound hs
    have hfits : NewChunkFits s .clear := by simp [NewChunkFits, PoolOp.chunkRequest]
    exact ⟨fun _ => hsound, iff_of_true ⟨hsound.bounded, by simp [PoolOp.call]⟩ hfits⟩

lemma memPoolCreate_sound (size : SizeT) (h : sizeofPool ≤ size.val) :
    Sound (memPoolCreate size h) := by
  refine ⟨?_, size.isLt⟩
  intro c hc
  obtain rfl := List.mem_singleton.mp hc
  exact ⟨by simp [Chunk.payload, chunkOffset, sizeofPool, sizeofChunk], h,
    (size_malloc_self _ _).ge, size.isLt, by simp [memPoolCreate, Heap.malloc]⟩

/-- **The bounds of a pool hold along a run exactly when every chunk added has
room for its header**: the chunks stay in their bounds, and every region that a
call returns lies in the memory `malloc` gave for it. -/
theorem poolBounds_iff (size : SizeT) (hsize : sizeofPool ≤ size.val) (ops : List PoolOp) :
    (Bounded (memPoolCreate size hsize).pool ∧
      Along poolStep KeepsBounds (memPoolCreate size hsize) ops) ↔
    Along poolStep NewChunkFits (memPoolCreate size hsize) ops := by
  have hinit := memPoolCreate_sound size hsize
  rw [and_iff_right hinit.bounded]
  have henv : Along poolStep (fun _ _ => True) (memPoolCreate size hsize) ops :=
    along_of_forall (fun _ _ => trivial) _ _
  exact along_iff (I := Sound) (fun s op hs _ => (poolStep_bounds hs op).1)
    (fun s op hs _ => (poolStep_bounds hs op).2) hinit henv

/-- A pool of 2048 bytes that is filled and grows by one chunk. -/
theorem poolBounds_grow :
    Along poolStep KeepsBounds (memPoolCreate 2048 (by decide))
      [.pmalloc 1500 ⟨true, true⟩, .pcalloc 1024 ⟨true, true⟩, .clear] :=
  ((poolBounds_iff 2048 (by decide) _).mpr (by decide)).2

/-- The request of 1024 bytes that the tests make of a pool of 1024 bytes ends
32 bytes behind its chunk. -/
theorem poolBounds_overrun :
    ¬ ∀ (size : SizeT) (hsize : sizeofPool ≤ size.val) (ops : List PoolOp),
      Bounded (memPoolCreate size hsize).pool ∧
        Along poolStep KeepsBounds (memPoolCreate size hsize) ops := by
  intro h
  have hrun := (h 1024 (by decide)
    [.pmalloc 10 ⟨true, true⟩, .pmalloc 512 ⟨true, true⟩, .pmalloc 1024 ⟨true, true⟩]).2
  obtain ⟨-, -, ⟨hbounded, -⟩, -⟩ := hrun
  revert hbounded
  unfold Bounded
  decide

end Xpipe
