import Xpipe.LargeBlocks

/-!
# The contents of pool memory

The memory behind a pool, byte for byte: the blocks that `malloc` has given, the fields of
`mem_pool_t`, `mem_pool_chunk_t` and `mem_pool_large_t` in them, and the objects that the
pool has handed out. What a call stores in the fields, and what new or freed memory holds,
is any bytes. `objs` is the abstract view: each object by itself, with the bytes that were
stored through its own pointer.
-/
namespace Xpipe
open Runs

/-- The bytes of every block. -/
abbrev Cells := ℕ → ℕ → UInt8

/-- The `n` bytes at `a`. -/
def readAt (cells : Cells) (a : Addr) (n : ℕ) : List UInt8 :=
  (List.range n).map (fun i => cells a.block (a.off + i))

/-- `memcpy(a, data, ..)`. -/
def writeAt (cells : Cells) (a : Addr) (data : List UInt8) : Cells := fun b off =>
  if b = a.block ∧ a.off ≤ off ∧ off < a.off + data.length then data.getD (off - a.off) 0
  else cells b off

/-- An object that the pool has handed out, and the bytes it holds. -/
structure Obj where
  addr : Addr
  large : Bool
  bytes : List UInt8
  deriving DecidableEq, Repr

/-- The region of an object. -/
def Obj.region (o : Obj) : Region := ⟨o.addr, o.bytes.length⟩

/-- The object with `data` stored `off` bytes into it. -/
def Obj.stored (o : Obj) (off : ℕ) (data : List UInt8) : Obj :=
  { o with bytes := o.bytes.take off ++ data ++ o.bytes.drop (off + data.length) }

/-- The memory, and the objects handed out since the pool was created or cleared. -/
structure PoolMemory where
  store : Store
  cells : Cells
  objs : List Obj

/-- The byte belongs to a field of the pool, of a chunk or of a large header. -/
def Store.Booked (s : Store) (b off : ℕ) : Prop :=
  (b ∈ s.pool.chunks.map Chunk.block ∧ off < s.pool.headerEnd b) ∨
    ∃ l ∈ s.pool.large, b = l.header.block ∧ l.header.off ≤ off ∧ off < l.header.off + sizeofLarge

instance (s : Store) (b off : ℕ) : Decidable (s.Booked b off) :=
  inferInstanceAs (Decidable (_ ∨ _))

/-- The memory after a call that has taken the store from `s` to `s'`. -/
def booking (s s' : Store) (junk cells : Cells) : Cells := fun b off =>
  if s'.Booked b off ∨ s.heap.fresh ≤ b then junk b off else cells b off

/-- The calls on a pool, and a store of `data` through the pointer to the `k`-th object. -/
inductive MemOp
  | pmalloc (n : SizeT) (m : Mallocs) (junk : Cells)
  | pcalloc (n : SizeT) (m : Mallocs) (junk : Cells)
  | pfreeLarge (p : Addr) (junk : Cells)
  | clear (junk : Cells)
  | store (k off : ℕ) (data : List UInt8)

/-- `pmalloc`: the new object holds what is there. -/
def PoolMemory.pmalloc (m : PoolMemory) (n : SizeT) (ms : Mallocs) (junk : Cells) : PoolMemory :=
  let r := Xpipe.pmalloc m.store n ms
  let cells := booking m.store r.2 junk m.cells
  match r.1 with
  | none => ⟨r.2, cells, m.objs⟩
  | some a => ⟨r.2, cells, ⟨a, m.store.pool.max < n.val, readAt cells a n⟩ :: m.objs⟩

/-- `pcalloc`: the new object holds zeros. -/
def PoolMemory.pcalloc (m : PoolMemory) (n : SizeT) (ms : Mallocs) (junk : Cells) : PoolMemory :=
  let r := Xpipe.pmalloc m.store n ms
  let cells := booking m.store r.2 junk m.cells
  match r.1 with
  | none => ⟨r.2, cells, m.objs⟩
  | some a =>
    let zeros := List.replicate n 0
    ⟨r.2, writeAt cells a zeros, ⟨a, m.store.pool.max < n.val, zeros⟩ :: m.objs⟩

/-- `pfree_large`: the block is gone, whatever it holds then. -/
def PoolMemory.pfreeLarge (m : PoolMemory) (p : Addr) (junk : Cells) : PoolMemory :=
  let r := Xpipe.pfreeLarge m.store p
  if r.1 then
    let cells := booking m.store r.2 junk m.cells
    ⟨r.2, fun b off => if b = p.block then junk b off else cells b off,
      m.objs.filter (fun o => o.addr ≠ p)⟩
  else m

/-- A store through the pointer to an object, inside it. -/
def PoolMemory.write (m : PoolMemory) (k off : ℕ) (data : List UInt8) : PoolMemory :=
  match m.objs[k]? with
  | none => m
  | some o =>
    if off + data.length ≤ o.bytes.length then
      { m with
        cells := writeAt m.cells ⟨o.addr.block, o.addr.off + off⟩ data
        objs := m.objs.set k (o.stored off data) }
    else m

def memStep (m : PoolMemory) : MemOp → PoolMemory
  | .pmalloc n ms junk => m.pmalloc n ms junk
  | .pcalloc n ms junk => m.pcalloc n ms junk
  | .pfreeLarge p junk => m.pfreeLarge p junk
  | .clear junk =>
    ⟨memPoolClear m.store, booking m.store (memPoolClear m.store) junk m.cells, []⟩
  | .store k off data => m.write k off data

/-- The call of the pool. -/
def MemOp.poolOp : MemOp → Option PoolOp
  | .pmalloc n ms _ => some (.pmalloc n ms)
  | .pcalloc n ms _ => some (.pcalloc n ms)
  | .pfreeLarge p _ => some (.pfreeLarge p)
  | .clear _ => some .clear
  | .store _ _ _ => none

/-- A chunk that is added has room for its header, and a pool with large blocks is not
cleared. -/
def Careful (m : PoolMemory) (op : MemOp) : Prop :=
  ∀ op' ∈ op.poolOp, NewChunkFits m.store op' ∧ (op' = .clear → m.store.pool.large = [])

/-! ## Reading and writing -/

lemma readAt_congr {cells cells' : Cells} {a : Addr} {n : ℕ}
    (h : ∀ i < n, cells' a.block (a.off + i) = cells a.block (a.off + i)) :
    readAt cells' a n = readAt cells a n := by
  unfold readAt
  apply List.map_congr_left
  intro i hi
  exact h i (List.mem_range.mp hi)

@[simp] lemma length_readAt (cells : Cells) (a : Addr) (n : ℕ) : (readAt cells a n).length = n := by
  simp [readAt]

lemma readAt_eq_iff {cells : Cells} {a : Addr} {bytes : List UInt8} :
    readAt cells a bytes.length = bytes ↔
      ∀ i < bytes.length, bytes[i]? = some (cells a.block (a.off + i)) := by
  constructor
  · intro h i hi
    rw [← h]
    simp [readAt, hi]
  · intro h
    apply List.ext_getElem?
    intro i
    by_cases hi : i < bytes.length
    · rw [h i hi]
      simp [readAt, hi]
    · rw [List.getElem?_eq_none (by simpa using hi), List.getElem?_eq_none (by omega)]

lemma readAt_writeAt_self (cells : Cells) (a : Addr) (data : List UInt8) :
    readAt (writeAt cells a data) a data.length = data := by
  rw [readAt_eq_iff]
  intro i hi
  simp [writeAt, hi]

lemma readAt_writeAt_apart {cells : Cells} {a a' : Addr} {data : List UInt8} {n : ℕ}
    (h : Region.Apart ⟨a, data.length⟩ ⟨a', n⟩) :
    readAt (writeAt cells a data) a' n = readAt cells a' n := by
  apply readAt_congr
  intro i hi
  apply if_neg
  rintro ⟨hblock, hlow, hhigh⟩
  have hsides := h hblock.symm
  simp only [Region.stop] at hsides
  omega

lemma length_stored {o : Obj} {off : ℕ} {data : List UInt8}
    (h : off + data.length ≤ o.bytes.length) :
    (o.stored off data).bytes.length = o.bytes.length := by
  simp only [Obj.stored, List.length_append, List.length_take, List.length_drop]
  omega

lemma getElem?_stored {o : Obj} {off : ℕ} {data : List UInt8}
    (h : off + data.length ≤ o.bytes.length) (i : ℕ) :
    (o.stored off data).bytes[i]? =
      if off ≤ i ∧ i < off + data.length then data[i - off]? else o.bytes[i]? := by
  have htake : (o.bytes.take off).length = off := by
    rw [List.length_take]
    omega
  unfold Obj.stored
  split_ifs with hin
  · rw [List.append_assoc, List.getElem?_append_right (by omega), htake,
      List.getElem?_append_left (by omega)]
  · by_cases hbefore : i < off
    · rw [List.append_assoc, List.getElem?_append_left (by omega), List.getElem?_take_of_lt hbefore]
    · rw [List.getElem?_append_right (by rw [List.length_append]; omega), List.getElem?_drop,
        List.length_append, htake]
      congr 1
      omega

/-- A store into an object is seen through the object. -/
lemma readAt_writeAt_stored {cells : Cells} {o : Obj} {off : ℕ} {data : List UInt8}
    (h : readAt cells o.addr o.bytes.length = o.bytes) (hin : off + data.length ≤ o.bytes.length) :
    readAt (writeAt cells ⟨o.addr.block, o.addr.off + off⟩ data) o.addr
      (o.stored off data).bytes.length = (o.stored off data).bytes := by
  rw [readAt_eq_iff] at h ⊢
  intro i hi
  rw [length_stored hin] at hi
  rw [getElem?_stored hin]
  unfold writeAt
  by_cases hinside : off ≤ i ∧ i < off + data.length
  · have hat : o.addr.off + i - (o.addr.off + off) = i - off := by omega
    rw [if_pos hinside, if_pos ⟨rfl, by simp only; omega, by simp only; omega⟩]
    simp only [hat, List.getD_eq_getElem?_getD]
    rw [List.getElem?_eq_getElem (by omega), Option.getD_some]
  · rw [if_neg hinside, if_neg (by simp only; omega)]
    exact h i hi

/-! ## The arrangement of the objects -/

/-- The regions of the small objects and of the large headers. -/
def chunkRegions (s : Store) (objs : List Obj) : List Region :=
  (objs.filter (fun o => !o.large)).map Obj.region ++
    s.pool.large.map (fun l => ⟨l.header, sizeofLarge⟩)

/-- A large object has a block of its own, which is not that of a chunk. -/
structure LargeObj (s : Store) (o : Obj) : Prop where
  start : o.addr.off = 0
  known : o.addr.block < s.heap.fresh
  apart : o.addr.block ∉ s.pool.chunks.map Chunk.block
  size : o.bytes.length ≤ s.heap.size o.addr.block
  live : o.addr.block ∈ s.heap.live

/-- Where the objects are. -/
structure Arranged (s : Store) (objs : List Obj) : Prop where
  sound : Sound s
  regions : Regions s (chunkRegions s objs)
  large : ∀ o ∈ objs, o.large = true → LargeObj s o
  once : ((objs.filter Obj.large).map (fun o => o.addr.block)).Nodup
  chunks : ∀ b ∈ s.pool.chunks.map Chunk.block, b ∈ s.heap.live
  data : ∀ p ∈ dataOf s.pool.large,
    p.off = 0 ∧ p.block < s.heap.fresh ∧ p.block ∉ s.pool.chunks.map Chunk.block

lemma Region.Apart.symm {r r' : Region} (h : r.Apart r') : r'.Apart r :=
  fun hblock => (h hblock.symm).symm

/-- The order of the regions does not matter, and fewer are apart as well. -/
lemma Regions.subperm {s : Store} {rs rs' : List Region} (h : Regions s rs)
    (hsub : rs'.Subperm rs) : Regions s rs' := by
  obtain ⟨l, hperm, hsublist⟩ := hsub
  have happart : rs'.Pairwise Region.Apart :=
    (h.apart.sublist hsublist).perm hperm (fun hr => hr.symm)
  exact ⟨happart, fun r hr => h.inside r (hsublist.subset (hperm.mem_iff.mpr hr)), h.blocks,
    h.known, h.own, h.payload, h.last, h.live⟩

lemma Arranged.small_mem {s : Store} {objs : List Obj} {o : Obj} (ho : o ∈ objs)
    (hsmall : o.large = false) : o.region ∈ chunkRegions s objs := by
  apply List.mem_append_left
  exact List.mem_map.mpr ⟨o, List.mem_filter.mpr ⟨ho, by simp [hsmall]⟩, rfl⟩

/-- No object reaches into the fields of the pool. -/
lemma Arranged.not_booked {s : Store} {objs : List Obj} (h : Arranged s objs) {o : Obj}
    (ho : o ∈ objs) {i : ℕ} (hi : i < o.bytes.length) :
    ¬ s.Booked o.addr.block (o.addr.off + i) := by
  have hheader (l : Large) (hl : l ∈ s.pool.large) :
      ⟨l.header, sizeofLarge⟩ ∈ s.pool.large.map (fun l => (⟨l.header, sizeofLarge⟩ : Region)) :=
    List.mem_map.mpr ⟨l, hl, rfl⟩
  cases hlarge : o.large with
  | false =>
    have hmem := Arranged.small_mem (s := s) ho hlarge
    obtain ⟨c, hc, hblock, hstart, -⟩ := h.regions.inside _ hmem
    rintro (⟨-, hlt⟩ | ⟨l, hl, hb, hlow, hhigh⟩)
    · have hbehind := h.regions.payload c hc
      rw [hblock] at hbehind
      simp only [Obj.region] at hstart hbehind
      omega
    · have happart := (List.pairwise_append.mp h.regions.apart).2.2 o.region
        (List.mem_map.mpr ⟨o, List.mem_filter.mpr ⟨ho, by simp [hlarge]⟩, rfl⟩) _ (hheader l hl)
      have hsides := happart hb
      simp only [Region.stop, Obj.region] at hsides
      omega
  | true =>
    have hobj := h.large o ho hlarge
    rintro (⟨hin, -⟩ | ⟨l, hl, hb, -, -⟩)
    · exact hobj.apart hin
    · obtain ⟨c, hc, hblock, -⟩ := h.regions.inside _ (List.mem_append_right _ (hheader l hl))
      exact hobj.apart (List.mem_map.mpr ⟨c, hc, hblock.trans hb.symm⟩)

/-! ## A call of the pool -/

/-- Blocks are added, and none that was there is given to another use. -/
structure Extends (s s' : Store) : Prop where
  fresh : s.heap.fresh ≤ s'.heap.fresh
  blocks : ∀ b ∈ s'.pool.chunks.map Chunk.block,
    b ∈ s.pool.chunks.map Chunk.block ∨ s.heap.fresh ≤ b ∧ b ∈ s'.heap.live
  size : ∀ b < s.heap.fresh, s'.heap.size b = s.heap.size b
  live : ∀ b ∈ s.heap.live, b ∈ s'.heap.live

lemma Extends.refl (s : Store) : Extends s s :=
  ⟨Nat.le_refl _, fun _ hb => Or.inl hb, fun _ _ => rfl, fun _ hb => hb⟩

lemma Extends.trans {s₁ s₂ s₃ : Store} (h : Extends s₁ s₂) (h' : Extends s₂ s₃) :
    Extends s₁ s₃ := by
  refine ⟨h.fresh.trans h'.fresh, fun b hb => ?_, fun b hb => ?_,
    fun b hb => h'.live b (h.live b hb)⟩
  · rcases h'.blocks b hb with hold | ⟨hnew, hlive⟩
    · rcases h.blocks b hold with hold | ⟨hnew, hlive⟩
      · exact Or.inl hold
      · exact Or.inr ⟨hnew, h'.live b hlive⟩
    · exact Or.inr ⟨h.fresh.trans hnew, hlive⟩
  · rw [h'.size b (hb.trans_le h.fresh), h.size b hb]

lemma Extends.not_mem {s s' : Store} (h : Extends s s') {b : ℕ} (hknown : b < s.heap.fresh)
    (hapart : b ∉ s.pool.chunks.map Chunk.block) : b ∉ s'.pool.chunks.map Chunk.block := by
  intro hb
  rcases h.blocks b hb with hold | ⟨hnew, -⟩
  · exact hapart hold
  · omega

lemma LargeObj.extend {s s' : Store} {o : Obj} (h : LargeObj s o) (hext : Extends s s') :
    LargeObj s' o :=
  ⟨h.start, h.known.trans_le hext.fresh, hext.not_mem h.known h.apart,
    h.size.trans_eq (hext.size _ h.known).symm, hext.live _ h.live⟩

lemma pmallocSmall_extends (s : Store) (n : ℕ) (ok : Bool) :
    Extends s (pmallocSmall s n ok).2 := by
  rcases pmallocSmall_cases s n ok with ⟨i, c, -, -, -, heq⟩ | ⟨-, -, heq⟩ | ⟨-, -, heq⟩
  · rw [heq]
    refine ⟨Nat.le_refl _, fun b hb => Or.inl ?_, fun _ _ => rfl, fun _ hb => hb⟩
    rw [← map_block_modify s.pool.chunks i n]
    exact hb
  · rw [heq]
    exact .refl s
  · obtain ⟨hfresh, hlive, -⟩ := fresh_addMemChunk s n
    rw [heq]
    refine ⟨by omega, fun b hb => ?_, fun b hb => size_malloc _ hb, fun b hb => ?_⟩
    · rw [map_block_addMemChunk, List.mem_append, List.mem_singleton] at hb
      rcases hb with hold | rfl
      · exact Or.inl hold
      · exact Or.inr ⟨Nat.le_refl _, by rw [hlive]; exact Finset.mem_insert_self _ _⟩
    · rw [hlive]
      exact Finset.mem_insert_of_mem hb

lemma withData_extends (s : Store) (n : ℕ) : Extends s (withData s n) :=
  ⟨Nat.le_succ _, fun _ hb => Or.inl hb, fun _ hb => size_malloc n hb,
    fun _ hb => Finset.mem_insert_of_mem hb⟩

/-- The objects that were there, after a call that has extended the store. -/
lemma Arranged.extend {s s' : Store} {objs : List Obj} {rs : List Region} (h : Arranged s objs)
    (hext : Extends s s') (hsound : Sound s') (hregions : Regions s' rs)
    (hsub : (chunkRegions s' objs).Subperm rs)
    (hdata : ∀ p ∈ dataOf s'.pool.large,
      p.off = 0 ∧ p.block < s'.heap.fresh ∧ p.block ∉ s'.pool.chunks.map Chunk.block) :
    Arranged s' objs := by
  refine ⟨hsound, hregions.subperm hsub, fun o ho hl => (h.large o ho hl).extend hext, h.once,
    fun b hb => ?_, hdata⟩
  rcases hext.blocks b hb with hold | ⟨-, hlive⟩
  · exact hext.live b (h.chunks b hold)
  · exact hlive

/-- Data that was there, after a call that has extended the store. -/
lemma Arranged.data_extend {s s' : Store} {objs : List Obj} (h : Arranged s objs)
    (hext : Extends s s') {p : Addr} (hp : p ∈ dataOf s.pool.large) :
    p.off = 0 ∧ p.block < s'.heap.fresh ∧ p.block ∉ s'.pool.chunks.map Chunk.block := by
  obtain ⟨hoff, hknown, hapart⟩ := h.data p hp
  exact ⟨hoff, hknown.trans_le hext.fresh, hext.not_mem hknown hapart⟩

lemma Arranged.small {s : Store} {objs : List Obj} (h : Arranged s objs) (n : ℕ) (ok : Bool)
    (hsound : Sound (pmallocSmall s n ok).2) {bytes : List UInt8} (hlen : bytes.length = n) :
    Arranged (pmallocSmall s n ok).2
      ((pmallocSmall s n ok).1.toList.map (fun a => ⟨a, false, bytes⟩) ++ objs) := by
  have hext := pmallocSmall_extends s n ok
  have hlarge := pmallocSmall_large s n ok
  have hregions := h.regions.small n ok
  have hsame : chunkRegions (pmallocSmall s n ok).2 objs = chunkRegions s objs := by
    unfold chunkRegions
    rw [hlarge]
  rw [← hsame] at hregions
  have hold : Arranged (pmallocSmall s n ok).2 objs := by
    refine h.extend hext hsound hregions (List.sublist_append_right _ _).subperm (fun p hp => ?_)
    rw [hlarge] at hp
    exact h.data_extend hext hp
  cases hret : (pmallocSmall s n ok).1 with
  | none => exact hold
  | some a =>
    rw [hret] at hregions
    refine ⟨hsound, ?_, ?_, hold.once, hold.chunks, hold.data⟩
    · have hnew : (⟨a, false, bytes⟩ : Obj).region = ⟨a, n⟩ := by rw [Obj.region, hlen]
      simpa [chunkRegions, hnew] using hregions
    · intro o ho hl
      rcases List.mem_append.mp ho with hin | hin
      · simp only [Option.toList_some, List.map_singleton, List.mem_singleton] at hin
        subst hin
        cases hl
      · exact hold.large o hin hl

/-- A large object in a block that was not there. -/
lemma Arranged.addLarge {s s' : Store} {objs : List Obj} {n : ℕ} (h : Arranged s objs)
    (hext : Extends (withData s n) s') (hold : Arranged s' objs) {bytes : List UInt8}
    (hlen : bytes.length = n) : Arranged s' (⟨⟨s.heap.fresh, 0⟩, true, bytes⟩ :: objs) := by
  have hknown : s.heap.fresh < (withData s n).heap.fresh := Nat.lt_succ_self _
  have happart : s.heap.fresh ∉ (withData s n).pool.chunks.map Chunk.block := by
    intro hb
    obtain ⟨c, hc, heq⟩ := List.mem_map.mp hb
    have hlt := h.regions.known c hc
    omega
  have hsize : (withData s n).heap.size s.heap.fresh = n := size_malloc_self s.heap n
  have hlive : s.heap.fresh ∈ (withData s n).heap.live := Finset.mem_insert_self _ _
  refine ⟨hold.sound, hold.regions, fun o ho hl => ?_, ?_, hold.chunks, hold.data⟩
  · rcases List.mem_cons.mp ho with rfl | hin
    · exact LargeObj.extend ⟨rfl, hknown, happart, (hlen.trans hsize.symm).le, hlive⟩ hext
    · exact hold.large o hin hl
  · simp only [List.filter_cons_of_pos, List.map_cons, List.nodup_cons]
    refine ⟨fun hin => ?_, hold.once⟩
    obtain ⟨o, ho, heq⟩ := List.mem_map.mp hin
    obtain ⟨hmem, hl⟩ := List.mem_filter.mp ho
    have hlt := (h.large o hmem hl).known
    omega

/-- **A large request.** -/
lemma Arranged.large_request {s : Store} {objs : List Obj} (h : Arranged s objs) (n : ℕ)
    (m : Mallocs) (hsound : Sound (allocLargeMem s n m).2) {bytes : List UInt8}
    (hlen : bytes.length = n) :
    Arranged (allocLargeMem s n m).2
      ((allocLargeMem s n m).1.toList.map (fun a => ⟨a, true, bytes⟩) ++ objs) := by
  have hdata := withData_extends s n
  have hregions := h.regions.withData n
  rcases allocLargeMem_cases s n m with
    ⟨-, heq⟩ | ⟨large, -, hreuse, heq⟩ | ⟨s', -, -, hnone, heq⟩ | ⟨a, s', -, -, hsome, heq⟩
  · rw [heq]
    exact h
  · rw [heq] at hsound ⊢
    have hheaders := reuseHeader_headers hreuse
    have hext : Extends (withData s n) ⟨(withData s n).heap, { s.pool with large := large }⟩ :=
      ⟨Nat.le_refl _, fun _ hb => Or.inl hb, fun _ _ => rfl, fun _ hb => hb⟩
    refine h.addLarge hext ?_ hlen
    refine h.extend (hdata.trans hext) hsound
      (hregions.congr rfl rfl (Nat.le_refl _) hregions.live) ?_ (fun p hp => ?_)
    · have hmap : large.map (fun l => (⟨l.header, sizeofLarge⟩ : Region)) =
          s.pool.large.map (fun l => ⟨l.header, sizeofLarge⟩) := by
        have := congrArg (List.map (fun a => (⟨a, sizeofLarge⟩ : Region))) hheaders
        simpa [Function.comp_def] using this
      unfold chunkRegions
      rw [hmap]
    · rcases List.mem_cons.mp ((reuseHeader_perm hreuse).mem_iff.mp hp) with rfl | hin
      · refine ⟨rfl, Nat.lt_succ_self _, fun hb => ?_⟩
        obtain ⟨c, hc, hblock⟩ := List.mem_map.mp hb
        have hlt := h.regions.known c hc
        simp only at hblock
        omega
      · exact h.data_extend (hdata.trans hext) hin
  · have hsame : s' = withData s n := by
      have hkept := pmallocSmall_none (congrArg Prod.fst hnone)
      rwa [hnone] at hkept
    rw [hsame] at heq
    rw [heq] at hsound ⊢
    have hext : Extends s ⟨(withData s n).heap.free ⟨s.heap.fresh, 0⟩, s.pool⟩ := by
      refine ⟨hdata.fresh, fun _ hb => Or.inl hb, hdata.size, fun b hb => ?_⟩
      have hne : b ≠ s.heap.fresh := (h.regions.live b hb).ne
      simp only [Heap.free]
      split_ifs
      · exact Finset.mem_erase.mpr ⟨hne, hdata.live b hb⟩
      · exact hdata.live b hb
    exact h.extend hext hsound
      (hregions.congr rfl rfl (Nat.le_refl _) (live_free_lt _ hregions.live))
      (List.Subperm.refl _) (fun p hp => h.data_extend hext hp)
  · have hheader := pmallocSmall_extends (withData s n) sizeofLarge m.chunk
    have hlarge := pmallocSmall_large (withData s n) sizeofLarge m.chunk
    have hsmall := hregions.small sizeofLarge m.chunk
    rw [hsome] at hheader hlarge hsmall
    have hlist : s'.pool.large = s.pool.large := hlarge
    rw [heq] at hsound ⊢
    have hext : Extends (withData s n) ⟨s'.heap, { s'.pool with
        large := ⟨a, some ⟨s.heap.fresh, 0⟩⟩ :: s'.pool.large }⟩ :=
      ⟨hheader.fresh, hheader.blocks, hheader.size, hheader.live⟩
    refine h.addLarge hext ?_ hlen
    refine h.extend (hdata.trans hext) hsound
      (hsmall.congr rfl rfl (Nat.le_refl _) hsmall.live) ?_ (fun p hp => ?_)
    · unfold chunkRegions
      simp only [hlist, List.map_cons, Option.toList_some, List.map_nil, List.singleton_append]
      exact List.perm_middle.subperm
    · simp only [dataOf, hlist] at hp
      rcases List.mem_cons.mp hp with rfl | hin
      · refine ⟨rfl, Nat.lt_of_lt_of_le (Nat.lt_succ_self _) hext.fresh,
          hext.not_mem (Nat.lt_succ_self _) (fun hb => ?_)⟩
        obtain ⟨c, hc, hblock⟩ := List.mem_map.mp hb
        have hlt := h.regions.known c hc
        simp only at hblock
        omega
      · exact h.data_extend (hdata.trans hext) hin

/-- **An allocation** leaves the objects where they are, and adds the new one. -/
lemma Arranged.pmalloc {s : Store} {objs : List Obj} (h : Arranged s objs) {n : SizeT}
    {m : Mallocs} (hfits : NewChunkFits s (.pmalloc n m)) {bytes : List UInt8}
    (hlen : bytes.length = n) :
    Arranged (pmalloc s n m).2
      ((pmalloc s n m).1.toList.map (fun a => ⟨a, s.pool.max < n.val, bytes⟩) ++ objs) := by
  have hsound := ((pmalloc_bounds h.sound n m).1 hfits).1
  unfold Xpipe.pmalloc at hsound ⊢
  by_cases hsmall : n.val ≤ s.pool.max
  · have hflag : decide (s.pool.max < n.val) = false := by simpa using hsmall
    simp only [hsmall, if_true, hflag] at hsound ⊢
    exact h.small n m.chunk hsound hlen
  · have hflag : decide (s.pool.max < n.val) = true := by simpa using hsmall
    simp only [hsmall, if_false, hflag] at hsound ⊢
    exact h.large_request n m hsound hlen

/-- Only the object at `p` is in the block of the large data `p`. -/
lemma Arranged.block_ne {s : Store} {objs : List Obj} (h : Arranged s objs) {p : Addr}
    (hp : p ∈ dataOf s.pool.large) {o : Obj} (ho : o ∈ objs) (hne : o.addr ≠ p) :
    o.addr.block ≠ p.block := by
  obtain ⟨hoff, -, hapart⟩ := h.data p hp
  intro hblock
  cases hlarge : o.large with
  | false =>
    obtain ⟨c, hc, heq, -⟩ := h.regions.inside _ (Arranged.small_mem ho hlarge)
    exact hapart (List.mem_map.mpr ⟨c, hc, heq.trans hblock⟩)
  | true =>
    -- both start their block
    apply hne
    calc o.addr = ⟨o.addr.block, o.addr.off⟩ := rfl
      _ = ⟨p.block, p.off⟩ := by rw [hblock, (h.large o ho hlarge).start, hoff]

/-- `pfree_large` takes one object away. -/
lemma Arranged.pfreeLarge {s : Store} {objs : List Obj} (h : Arranged s objs) {p : Addr}
    (hfound : (pfreeLarge s p).1 = true) :
    Arranged (pfreeLarge s p).2 (objs.filter (fun o => o.addr ≠ p)) := by
  have hsound := pfreeLarge_sound h.sound p
  unfold Xpipe.pfreeLarge at hfound hsound ⊢
  cases hdrop : dropData p s.pool.large with
  | none => simp [hdrop] at hfound
  | some large =>
    simp only [hdrop] at hsound ⊢
    obtain ⟨hperm, -⟩ := dropData_some hdrop
    have hmem : p ∈ dataOf s.pool.large := hperm.mem_iff.mp List.mem_cons_self
    have hmap : large.map (fun l => (⟨l.header, sizeofLarge⟩ : Region)) =
        s.pool.large.map (fun l => ⟨l.header, sizeofLarge⟩) := by
      have := congrArg (List.map (fun a => (⟨a, sizeofLarge⟩ : Region))) (dropData_headers hdrop)
      simpa [Function.comp_def] using this
    refine ⟨hsound, ?_, fun o ho hl => ?_, ?_, fun b hb => ?_, fun q hq => ?_⟩
    · have hsub : (chunkRegions ⟨s.heap.free p, { s.pool with large := large }⟩
          (objs.filter (fun o => o.addr ≠ p))).Sublist (chunkRegions s objs) := by
        unfold chunkRegions
        rw [hmap]
        exact ((List.filter_sublist.filter _).map _).append (List.Sublist.refl _)
      have hrest : Regions ⟨s.heap.free p, { s.pool with large := large }⟩ (chunkRegions s objs) :=
        h.regions.congr rfl rfl (Nat.le_refl _) (live_free_lt p h.regions.live)
      exact hrest.subperm hsub.subperm
    · obtain ⟨hin, hne⟩ := List.mem_filter.mp ho
      have hobj := h.large o hin hl
      exact ⟨hobj.start, hobj.known, hobj.apart, hobj.size,
        mem_live_free hobj.live (h.block_ne hmem hin (by simpa using hne))⟩
    · exact h.once.sublist ((List.filter_sublist.filter _).map _)
    · exact mem_live_free (h.chunks b hb) (fun heq => (h.data p hmem).2.2 (heq ▸ hb))
    · exact h.data q (hperm.mem_iff.mp (List.mem_cons_of_mem p hq))

/-- To free the headers, which lie inside chunks, takes no block away. -/
lemma live_freeLarge {h : Heap} {large : List Large} (hin : ∀ l ∈ large, 0 < l.header.off) :
    (freeLarge h large).live = h.live := by
  unfold freeLarge
  induction large generalizing h with
  | nil => rfl
  | cons l large ih =>
    have hinner : l.header.off ≠ 0 := (hin l (by simp)).ne'
    rw [List.foldl_cons, ih (fun l' hl' => hin l' (List.mem_cons_of_mem l hl'))]
    simp [Heap.free, Heap.isBlock, hinner]

/-- A header lies behind that of its chunk. -/
lemma Arranged.header {s : Store} {objs : List Obj} (h : Arranged s objs) {l : Large}
    (hl : l ∈ s.pool.large) : ∃ c ∈ s.pool.chunks, c.block = l.header.block ∧
      c.payload ≤ l.header.off ∧ l.header.off + sizeofLarge ≤ c.last :=
  h.regions.inside _ (List.mem_append_right _ (List.mem_map.mpr ⟨l, hl, rfl⟩))

lemma Arranged.clear {s : Store} {objs : List Obj} (h : Arranged s objs) :
    Arranged (memPoolClear s) [] := by
  have hlive : (memPoolClear s).heap.live = s.heap.live := by
    refine live_freeLarge (fun l hl => ?_)
    obtain ⟨c, -, -, hlow, -⟩ := h.header hl
    simp only [Chunk.payload, sizeofChunk] at hlow
    omega
  have hblocks : (memPoolClear s).pool.chunks.map Chunk.block = s.pool.chunks.map Chunk.block := by
    simp [memPoolClear, Function.comp_def]
  refine ⟨memPoolClear_sound h.sound, h.regions.clear, by simp, by simp, ?_, ?_⟩
  · rw [hlive, hblocks]
    exact h.chunks
  · intro p hp
    simp [memPoolClear, dataOf] at hp

/-! ## The memory of the objects -/

lemma Arranged.known {s : Store} {objs : List Obj} (h : Arranged s objs) {o : Obj}
    (ho : o ∈ objs) : o.addr.block < s.heap.fresh := by
  cases hlarge : o.large with
  | false =>
    obtain ⟨c, hc, hblock, -⟩ := h.regions.inside _ (Arranged.small_mem ho hlarge)
    have hlt := h.regions.known c hc
    rw [hblock] at hlt
    exact hlt
  | true => exact (h.large o ho hlarge).known

/-- The fields that a call changes are not in an object that was there. -/
lemma Arranged.readAt_booking {s s' : Store} {objs : List Obj} (h : Arranged s' objs) {o : Obj}
    (ho : o ∈ objs) (hknown : o.addr.block < s.heap.fresh) (junk cells : Cells) :
    readAt (booking s s' junk cells) o.addr o.bytes.length =
      readAt cells o.addr o.bytes.length := by
  apply readAt_congr
  intro i hi
  apply if_neg
  rintro (hbooked | hnew)
  · exact h.not_booked ho hi hbooked
  · omega

/-- What holds among the ones and among the others, and between them, holds in the list. -/
lemma pairwise_of_filters {α : Type*} {R : α → α → Prop} {p : α → Bool} {l : List α}
    (hp : (l.filter p).Pairwise R) (hn : (l.filter (fun a => !p a)).Pairwise R)
    (hmix : ∀ a ∈ l, ∀ b ∈ l, p a ≠ p b → R a b) : l.Pairwise R := by
  induction l with
  | nil => exact .nil
  | cons a l ih =>
    have hrest : ∀ x ∈ l, ∀ y ∈ l, p x ≠ p y → R x y :=
      fun x hx y hy => hmix x (List.mem_cons_of_mem a hx) y (List.mem_cons_of_mem a hy)
    cases ha : p a with
    | true =>
      simp only [List.filter_cons, ha, if_true, Bool.not_true, Bool.false_eq_true, if_false]
        at hp hn
      obtain ⟨hhead, htail⟩ := List.pairwise_cons.mp hp
      refine List.pairwise_cons.mpr ⟨fun b hb => ?_, ih htail hn hrest⟩
      cases hb' : p b with
      | true => exact hhead b (List.mem_filter.mpr ⟨hb, hb'⟩)
      | false => exact hmix a (by simp) b (List.mem_cons_of_mem a hb) (by simp [ha, hb'])
    | false =>
      simp only [List.filter_cons, ha, if_true, Bool.not_false, Bool.false_eq_true, if_false]
        at hp hn
      obtain ⟨hhead, htail⟩ := List.pairwise_cons.mp hn
      refine List.pairwise_cons.mpr ⟨fun b hb => ?_, ih hp htail hrest⟩
      cases hb' : p b with
      | true => exact hmix a (by simp) b (List.mem_cons_of_mem a hb) (by simp [ha, hb'])
      | false => exact hhead b (List.mem_filter.mpr ⟨hb, by simp [hb']⟩)

/-- **The objects do not overlap.** -/
lemma Arranged.pairwise {s : Store} {objs : List Obj} (h : Arranged s objs) :
    objs.Pairwise (fun o o' => o.region.Apart o'.region) := by
  apply pairwise_of_filters (p := Obj.large)
  · refine (List.pairwise_map.mp h.once).imp (fun hne hblock => ?_)
    exact absurd hblock hne
  · exact List.pairwise_map.mp (List.pairwise_append.mp h.regions.apart).1
  · -- a large object is in no chunk
    have hdiffer {o o' : Obj} (ho : o ∈ objs) (ho' : o' ∈ objs) (hl : o.large = true)
        (hl' : o'.large = false) : o.addr.block ≠ o'.addr.block := by
      obtain ⟨c, hc, hblock, -⟩ := h.regions.inside _ (Arranged.small_mem ho' hl')
      intro heq
      exact (h.large o ho hl).apart (List.mem_map.mpr ⟨c, hc, hblock.trans heq.symm⟩)
    intro o ho o' ho' hne hblock
    cases hl : o.large with
    | true =>
      have hl' : o'.large = false := by simpa [hl] using hne.symm
      exact absurd hblock (hdiffer ho ho' hl hl')
    | false =>
      have hl' : o'.large = true := by simpa [hl] using hne.symm
      exact absurd hblock.symm (hdiffer ho' ho hl' hl)

lemma Arranged.apart {s : Store} {objs : List Obj} (h : Arranged s objs) {k j : ℕ} {o o' : Obj}
    (hk : objs[k]? = some o) (hj : objs[j]? = some o') (hne : k ≠ j) :
    o.region.Apart o'.region := by
  obtain ⟨hkl, rfl⟩ := List.getElem?_eq_some_iff.mp hk
  obtain ⟨hjl, rfl⟩ := List.getElem?_eq_some_iff.mp hj
  rcases Nat.lt_or_gt_of_ne hne with hlt | hgt
  · exact List.pairwise_iff_getElem.mp h.pairwise k j hkl hjl hlt
  · exact (List.pairwise_iff_getElem.mp h.pairwise j k hjl hkl hgt).symm

/-- What the arrangement knows of an object. -/
def Obj.shape (o : Obj) : Region × Bool := (o.region, o.large)

lemma Arranged.of_shapes {s : Store} {objs objs' : List Obj} (h : Arranged s objs)
    (hshape : objs'.map Obj.shape = objs.map Obj.shape) : Arranged s objs' := by
  have hpick {β : Type} (p : Region × Bool → Bool) (f : Region × Bool → β) :
      (objs'.filter (fun o => p o.shape)).map (fun o => f o.shape) =
        (objs.filter (fun o => p o.shape)).map (fun o => f o.shape) := by
    have hmap (l : List Obj) : (l.filter (fun o => p o.shape)).map (fun o => f o.shape) =
        ((l.map Obj.shape).filter p).map f := by
      rw [List.filter_map, List.map_map]
      rfl
    rw [hmap, hmap, hshape]
  refine ⟨h.sound, ?_, fun o ho hl => ?_, ?_, h.chunks, h.data⟩
  · have hregions := hpick (fun x => !x.2) (fun x => x.1)
    have hsame : chunkRegions s objs' = chunkRegions s objs := by
      unfold chunkRegions
      exact congrArg (· ++ _) hregions
    rw [hsame]
    exact h.regions
  · have hin : o.shape ∈ objs.map Obj.shape := hshape ▸ List.mem_map.mpr ⟨o, ho, rfl⟩
    obtain ⟨o', ho', heq⟩ := List.mem_map.mp hin
    simp only [Obj.shape, Obj.region, Prod.mk.injEq, Region.mk.injEq] at heq
    obtain ⟨⟨haddr, hlen⟩, hlarge⟩ := heq
    have hobj := h.large o' ho' (hlarge.trans hl)
    exact ⟨haddr ▸ hobj.start, haddr ▸ hobj.known, haddr ▸ hobj.apart, haddr ▸ hlen ▸ hobj.size,
      haddr ▸ hobj.live⟩
  · have honce := hpick (fun x => x.2) (fun x => x.1.addr.block)
    exact Eq.mpr (congrArg List.Nodup honce) h.once

/-- The memory shows each object as the abstract view has it. -/
structure PoolMemory.Faithful (m : PoolMemory) : Prop where
  arranged : Arranged m.store m.objs
  shows : ∀ o ∈ m.objs, readAt m.cells o.addr o.bytes.length = o.bytes

lemma PoolMemory.Faithful.pmalloc {m : PoolMemory} (h : m.Faithful) {n : SizeT} {ms : Mallocs}
    (hfits : NewChunkFits m.store (.pmalloc n ms)) (junk : Cells) :
    (m.pmalloc n ms junk).Faithful := by
  have harranged (bytes : List UInt8) (hlen : bytes.length = n) :=
    h.arranged.pmalloc (m := ms) hfits hlen
  unfold PoolMemory.pmalloc
  cases hret : (Xpipe.pmalloc m.store n ms).1 with
  | none =>
    have hnew := harranged (List.replicate n 0) (by simp)
    rw [hret] at hnew
    simp only [hret]
    refine ⟨hnew, fun o ho => ?_⟩
    rw [hnew.readAt_booking ho (h.arranged.known ho)]
    exact h.shows o ho
  | some a =>
    have hnew := harranged
      (readAt (booking m.store (Xpipe.pmalloc m.store n ms).2 junk m.cells) a n)
      (length_readAt _ _ _)
    rw [hret] at hnew
    simp only [hret]
    refine ⟨hnew, fun o ho => ?_⟩
    rcases List.mem_cons.mp ho with rfl | hin
    · simp only [length_readAt]
    · rw [hnew.readAt_booking ho (h.arranged.known hin)]
      exact h.shows o hin

lemma PoolMemory.Faithful.pcalloc {m : PoolMemory} (h : m.Faithful) {n : SizeT} {ms : Mallocs}
    (hfits : NewChunkFits m.store (.pmalloc n ms)) (junk : Cells) :
    (m.pcalloc n ms junk).Faithful := by
  have hnew := h.arranged.pmalloc (m := ms) hfits
    (List.length_replicate (n := n.val) (a := (0 : UInt8)))
  unfold PoolMemory.pcalloc
  cases hret : (Xpipe.pmalloc m.store n ms).1 with
  | none =>
    rw [hret] at hnew
    simp only [hret]
    refine ⟨hnew, fun o ho => ?_⟩
    rw [hnew.readAt_booking ho (h.arranged.known ho)]
    exact h.shows o ho
  | some a =>
    rw [hret] at hnew
    simp only [hret]
    refine ⟨hnew, fun o ho => ?_⟩
    rcases List.mem_cons.mp ho with rfl | hin
    · exact readAt_writeAt_self _ _ _
    · -- the zeros go to the new object only
      have happart := (List.pairwise_cons.mp hnew.pairwise).1 o hin
      rw [readAt_writeAt_apart happart, hnew.readAt_booking ho (h.arranged.known hin)]
      exact h.shows o hin

lemma PoolMemory.Faithful.pfreeLarge {m : PoolMemory} (h : m.Faithful) (p : Addr) (junk : Cells) :
    (m.pfreeLarge p junk).Faithful := by
  unfold PoolMemory.pfreeLarge
  simp only
  split_ifs with hfound
  · have hrest := h.arranged.pfreeLarge hfound
    refine ⟨hrest, fun o ho => ?_⟩
    obtain ⟨hin, hne⟩ := List.mem_filter.mp ho
    have hdata : p ∈ dataOf m.store.pool.large := by
      unfold Xpipe.pfreeLarge at hfound
      cases hdrop : dropData p m.store.pool.large with
      | none => simp [hdrop] at hfound
      | some large => exact (dropData_some hdrop).1.mem_iff.mp List.mem_cons_self
    have hblock := h.arranged.block_ne hdata hin (by simpa using hne)
    have hkept := hrest.readAt_booking ho (h.arranged.known hin) junk m.cells
    rw [h.shows o hin] at hkept
    rw [← hkept]
    simp only [length_readAt]
    exact readAt_congr (fun i _ => if_neg hblock)
  · exact h

lemma PoolMemory.Faithful.write {m : PoolMemory} (h : m.Faithful) (k off : ℕ)
    (data : List UInt8) : (m.write k off data).Faithful := by
  unfold PoolMemory.write
  cases hk : m.objs[k]? with
  | none => exact h
  | some o =>
    simp only
    split_ifs with hin
    · have hmem := List.mem_of_getElem? hk
      refine ⟨h.arranged.of_shapes ?_, fun o' ho' => ?_⟩
      · apply List.ext_getElem?
        intro j
        have hshape : (o.stored off data).shape = o.shape := by
          simp only [Obj.shape, Obj.region, length_stored hin]
          rfl
        by_cases hj : k = j
        · subst hj
          rw [List.getElem?_map, List.getElem?_map,
            List.getElem?_set_self (List.getElem?_eq_some_iff.mp hk).1, hk, Option.map_some, hshape]
          rfl
        · simp [List.getElem?_set_ne hj]
      · obtain ⟨j, hj⟩ := List.mem_iff_getElem?.mp ho'
        by_cases hsame : k = j
        · subst hsame
          rw [List.getElem?_set_self (List.getElem?_eq_some_iff.mp hk).1] at hj
          cases hj
          exact readAt_writeAt_stored (h.shows o hmem) hin
        · rw [List.getElem?_set_ne hsame] at hj
          have happart := h.arranged.apart hk hj hsame
          have hinside :
              Region.Apart ⟨⟨o.addr.block, o.addr.off + off⟩, data.length⟩ o'.region := by
            intro hblock
            have hsides := happart hblock
            simp only [Region.stop, Obj.region] at hsides ⊢
            omega
          rw [readAt_writeAt_apart hinside]
          exact h.shows o' (List.mem_of_getElem? hj)
    · exact h

/-- **One step keeps the memory faithful.** -/
lemma memStep_faithful {m : PoolMemory} (h : m.Faithful) (op : MemOp) (hop : Careful m op) :
    (memStep m op).Faithful := by
  cases op with
  | pmalloc n ms junk => exact h.pmalloc (hop _ rfl).1 junk
  | pcalloc n ms junk => exact h.pcalloc (hop _ rfl).1 junk
  | pfreeLarge p junk => exact h.pfreeLarge p junk
  | clear junk =>
    exact ⟨h.arranged.clear, fun o ho => absurd ho List.not_mem_nil⟩
  | store k off data => exact h.write k off data

/-- The memory of a pool that has just been created. -/
def newMemory (size : SizeT) (hsize : sizeofPool ≤ size.val) (cells : Cells) : PoolMemory :=
  ⟨memPoolCreate size hsize, cells, []⟩

lemma newMemory_faithful (size : SizeT) (hsize : sizeofPool ≤ size.val) (cells : Cells) :
    (newMemory size hsize cells).Faithful := by
  refine ⟨⟨memPoolCreate_sound size hsize, memPoolCreate_regions size hsize, ?_, ?_, ?_, ?_⟩, ?_⟩
  all_goals simp [newMemory, memPoolCreate, Heap.malloc, dataOf]

/-- The bytes of an object lie in one block that `malloc` has given and that is not freed. -/
lemma Arranged.holds {s : Store} {objs : List Obj} (h : Arranged s objs) {o : Obj} (ho : o ∈ objs) :
    s.heap.Holds o.addr o.bytes.length ∧ o.addr.block ∈ s.heap.live := by
  cases hlarge : o.large with
  | false =>
    obtain ⟨c, hc, hblock, -, hstop⟩ := h.regions.inside _ (Arranged.small_mem ho hlarge)
    have hsound := h.sound.chunk c hc
    have hsize := (hstop.trans hsound.upper).trans hsound.owned
    rw [hblock] at hsize
    have hlive := h.chunks c.block (List.mem_map.mpr ⟨c, hc, rfl⟩)
    rw [hblock] at hlive
    exact ⟨hsize, hlive⟩
  | true =>
    have hobj := h.large o ho hlarge
    refine ⟨?_, hobj.live⟩
    unfold Heap.Holds
    rw [hobj.start, Nat.zero_add]
    exact hobj.size

/-- **A pool keeps its objects apart, byte for byte.** In every run of allocations, frees and
stores in which each chunk that is added has room for its header, and no pool with large
blocks is cleared, every object holds what was stored through its own pointer, over zeros
if it came from `pcalloc`, whatever the pool writes in its fields and whatever is stored in
the other objects; and it lies in one live block. -/
theorem pool_memory (size : SizeT) (hsize : sizeofPool ≤ size.val) (cells : Cells)
    (ops : List MemOp) (hops : Along memStep Careful (newMemory size hsize cells) ops)
    (m : PoolMemory) (hm : m = ops.foldl memStep (newMemory size hsize cells)) :
    m.objs.Pairwise (fun o o' => o.region.Apart o'.region) ∧
      ∀ o ∈ m.objs, readAt m.cells o.addr o.bytes.length = o.bytes ∧
        m.store.heap.Holds o.addr o.bytes.length ∧ o.addr.block ∈ m.store.heap.live := by
  have hend : m.Faithful := by
    rw [hm]
    exact invariant_foldl (I := PoolMemory.Faithful) (fun _ op h hop => memStep_faithful h op hop)
      (newMemory_faithful size hsize cells) hops
  exact ⟨hend.arranged.pairwise, fun o ho => ⟨hend.shows o ho, hend.arranged.holds ho⟩⟩

/-- Two objects, one of them large, with a store into the small one. -/
def twoObjects (small large : SizeT) : List MemOp :=
  [.pcalloc small ⟨true, true⟩ (fun _ _ => 7), .pmalloc large ⟨true, true⟩ (fun _ _ => 9),
    .store 1 1 [1, 2]]

lemma twoObjects_careful :
    Along memStep Careful (newMemory 1024 (by decide) (fun _ _ => 5)) (twoObjects 4 2000) := by
  refine ⟨?_, ?_, ?_, trivial⟩
  · intro op hop
    obtain rfl := Option.mem_some_iff.mp hop
    exact ⟨by decide, fun h => by cases h⟩
  · intro op hop
    obtain rfl := Option.mem_some_iff.mp hop
    exact ⟨by decide, fun h => by cases h⟩
  · intro op hop
    cases hop

theorem pool_memory_two :
    ((twoObjects 4 2000).foldl memStep (newMemory 1024 (by decide) (fun _ _ => 5))).objs[1]? =
        some ⟨⟨0, 88⟩, false, [0, 1, 2, 0]⟩ ∧
      readAt ((twoObjects 4 2000).foldl memStep (newMemory 1024 (by decide) (fun _ _ => 5))).cells
        ⟨0, 88⟩ 4 = [0, 1, 2, 0] := by
  have hget :
      ((twoObjects 4 2000).foldl memStep (newMemory 1024 (by decide) (fun _ _ => 5))).objs[1]? =
        some ⟨⟨0, 88⟩, false, [0, 1, 2, 0]⟩ := by decide
  have hshows := (pool_memory 1024 (by decide) (fun _ _ => 5) (twoObjects 4 2000)
    twoObjects_careful _ rfl).2 _ (List.mem_of_getElem? hget)
  exact ⟨hget, hshows.1⟩

end Xpipe
