import Xpipe.PoolImage

/-!
# Runs of a pool in flat memory

In every run in which `malloc` keeps its promise and each chunk that is added has room for its
header, memory shows the pool that the calls have made: no region that `pcalloc` clears meets a
struct. So the regions stay apart, the chunks are retired one by one and the large blocks are
booked.

A chunk without room for its header ends behind its block. What `pcalloc` clears there can be
the pool's own fields, and then none of the three holds.
-/
namespace Xpipe
open Runs Fields

/-- A step of a run that is followed. -/
def Orderly (place : Placement) (s : Store) (c : PoolCall) : Prop :=
  c.Fits s ∧ MallocKeeps place s c

instance (place : Placement) (s : Store) (c : PoolCall) : Decidable (Orderly place s c) :=
  inferInstanceAs (Decidable (_ ∧ _))

/-- The fields of a pool can all be stored, each for itself. -/
structure Storable (place : Placement) (s : Store) : Prop where
  own : s.pool.chunks.head?.map Chunk.addr = some ⟨s.pool.block, chunkOffset⟩
  apart : s.FieldsApart place
  suits : ∀ f ∈ s.fields place, Suits f

instance (place : Placement) (s : Store) : Decidable (Storable place s) :=
  decidable_of_iff (s.pool.chunks.head?.map Chunk.addr = some ⟨s.pool.block, chunkOffset⟩ ∧
      s.FieldsApart place ∧ ∀ f ∈ s.fields place, Suits f)
    ⟨fun ⟨ho, ha, hs⟩ => ⟨ho, ha, hs⟩, fun h => ⟨h.own, h.apart, h.suits⟩⟩

lemma Storable.shown {place : Placement} {s : Store} (h : Storable place s) (mem : Memory) :
    Displayed place s (storeAll mem (s.fields place)) :=
  ⟨h.own, storeAll_in h.suits h.apart⟩

/-- The pool's own chunk is the first. -/
lemma Tidy.own_addr {size : ℕ} {s : Store} (h : Tidy size s) :
    s.pool.chunks.head?.map Chunk.addr = some ⟨s.pool.block, chunkOffset⟩ := by
  obtain ⟨objs, harranged⟩ := h.arranged
  have hown := h.chunking.own
  rw [List.head?_map] at hown
  obtain ⟨c, hc, hblock⟩ := Option.map_eq_some_iff.mp hown
  have hpayload := harranged.regions.payload c (List.mem_of_mem_head? hc)
  rw [Pool.headerEnd, if_pos hblock, Chunk.payload] at hpayload
  have hbase : c.base = chunkOffset := by
    simp only [chunkOffset, sizeofPool, sizeofChunk] at hpayload ⊢
    omega
  rw [hc, Option.map_some, Chunk.addr, hblock, hbase]

lemma Tidy.storable {size : ℕ} {s : Store} {place : Placement} (h : Tidy size s)
    (hsize : size < 2 ^ 64) (hp : Allotted place s.heap) : Storable place s :=
  ⟨h.own_addr, h.fieldsApart hp, h.suits hsize hp⟩

/-! ## The invariant of a run -/

/-- The memory shows the pool, which is in order, and the accounts are right. -/
structure Accounted (place : Placement) (size : ℕ) (m : PoolImage) : Prop where
  tidy : Tidy size m.store
  placed : Allotted place m.store.heap
  shown : Displayed place m.store m.mem
  regions : Regions m.store m.regions
  held : m.held.Perm ((dataOf m.store.pool.large).map (Addr.pointer place))

namespace Accounted

variable {place : Placement} {size : ℕ} {m : PoolImage}

lemma shows (h : Accounted place size m) {P : Store → Prop} (hP : P m.store) : m.Shows place P :=
  ⟨m.store, rfl, rfl, h.shown, hP⟩

/-- What `pcalloc` clears misses the fields. -/
lemma shown_next (h : Accounted place size m) (hsize : size < 2 ^ 64) {c : PoolCall}
    (hc : Orderly place m.store c) :
    Displayed place (callStep place m.store c) (m.stored place c) := by
  obtain ⟨hfits, hp⟩ := hc
  have htidy := callStep_tidy h.tidy hfits hp
  have hshown := (htidy.storable hsize hp).shown m.mem
  unfold PoolImage.stored
  cases hcleared : c.cleared m.store with
  | none => exact hshown
  | some r =>
    cases c with
    | pmalloc n ms => cases hcleared
    | pfreeLarge p => cases hcleared
    | clear => cases hcleared
    | pcalloc n ms =>
      obtain ⟨a, ha, rfl⟩ := Option.map_eq_some_iff.mp hcleared
      have hret : (pmalloc m.store n ms).1 = some a := ha
      have hroom : NewChunkFits m.store (.pcalloc n ms) := hfits _ rfl
      obtain ⟨objs, harranged⟩ := h.tidy.arranged
      have hnew := harranged.pmalloc (m := ms) hroom
        (List.length_replicate (n := n.val) (a := (0 : UInt8)))
      rw [hret] at hnew
      have hmiss := htidy.misses hp hnew List.mem_cons_self
      rw [List.length_replicate] at hmiss
      exact ⟨hshown.own, fun f hf => (hshown.fields f hf).clear (hmiss f hf)⟩

lemma regions_next (h : Accounted place size m) (c : PoolCall) :
    Regions (callStep place m.store c) (c.regions m.store m.regions) := by
  cases c with
  | pmalloc n ms => exact h.regions.pmalloc n ms
  | pcalloc n ms => exact h.regions.pmalloc n ms
  | clear => exact h.regions.clear
  | pfreeLarge p =>
    have hsame : PoolCall.regions m.store m.regions (.pfreeLarge p) = m.regions := rfl
    rw [hsame]
    simp only [callStep, PoolCall.call]
    rcases pfreeLargeAt_cases place m.store p with ⟨heq, -⟩ | ⟨a, -, -, heq⟩
    · rw [heq]
      exact h.regions
    · rw [heq, pfreeLarge]
      split
      · exact h.regions.congr rfl rfl (Nat.le_refl _) (live_free_lt a h.regions.live)
      · exact h.regions

/-- Two entries of the list do not have the same pointer. -/
lemma pointer_inj (h : Accounted place size m) {a a' : Addr} (ha : a ∈ dataOf m.store.pool.large)
    (ha' : a' ∈ dataOf m.store.pool.large) (heq : a.pointer place = a'.pointer place) :
    a = a' := by
  have hstart := h.tidy.entries.start
  have hlive := h.tidy.entries.live
  have hplace : place a.block = place a'.block := by
    simpa only [Addr.pointer, hstart a ha, hstart a' ha', Nat.add_zero] using heq
  have hblock := h.placed.distinct _ (hlive a ha) _ (hlive a' ha') hplace
  exact congrArg₂ Addr.mk hblock ((hstart a ha).trans (hstart a' ha').symm)

/-- A large block is not at NULL. -/
lemma pointer_pos (h : Accounted place size m) {a : Addr} (ha : a ∈ dataOf m.store.pool.large) :
    0 < a.pointer place :=
  Nat.add_pos_left (h.placed.pos _ (h.tidy.entries.live a ha)) a.off

lemma mem_held (h : Accounted place size m) {p : ℕ} :
    p ∈ m.held ↔ ∃ a ∈ dataOf m.store.pool.large, a.pointer place = p := by
  rw [h.held.mem_iff, List.mem_map]

/-- NULL is not held, and neither is what is in no entry. -/
lemma not_held (h : Accounted place size m) {p : ℕ}
    (hno : p ≠ 0 → ∀ a ∈ dataOf m.store.pool.large, a.pointer place ≠ p) : p ∉ m.held := by
  rw [h.mem_held]
  rintro ⟨a, ha, hap⟩
  have hpos := h.pointer_pos ha
  exact hno (by omega) a ha hap

lemma held_request (h : Accounted place size m) (n : SizeT) (ms : Mallocs) :
    (PoolCall.held place m.store m.held (.pmalloc n ms)).Perm
      ((dataOf (pmalloc m.store n ms).2.pool.large).map (Addr.pointer place)) := by
  have hperm := (h.tidy.entries.pmalloc h.regions.live n ms).2.map (Addr.pointer place)
  refine List.Perm.trans ?_ hperm.symm
  rw [List.map_append]
  simp only [PoolCall.held]
  split
  · exact h.held.append_left _
  · exact h.held

lemma held_next (h : Accounted place size m) (c : PoolCall) :
    (c.held place m.store m.held).Perm
      ((dataOf (callStep place m.store c).pool.large).map (Addr.pointer place)) := by
  cases c with
  | pmalloc n ms => exact h.held_request n ms
  | pcalloc n ms => exact h.held_request n ms
  | clear => simp [PoolCall.held, callStep, PoolCall.call, memPoolClear, dataOf]
  | pfreeLarge p =>
    simp only [PoolCall.held, callStep, PoolCall.call]
    rcases pfreeLargeAt_cases place m.store p with ⟨heq, hno⟩ | ⟨a, ha, hap, heq⟩
    · rw [heq, List.erase_of_not_mem (h.not_held (fun hne => (hno hne).2))]
      split <;> exact h.held
    · obtain ⟨hfound, -, hperm⟩ := h.tidy.entries.pfreeLarge ha
      rw [heq, hfound, if_pos rfl, ← hap]
      have hmap := (h.held.trans (hperm.map (Addr.pointer place)).symm).erase (a.pointer place)
      rwa [List.map_cons, List.erase_cons_head] at hmap

/-- **One call.** -/
lemma step (h : Accounted place size m) (hsize : size < 2 ^ 64) {c : PoolCall}
    (hc : Orderly place m.store c) :
    m.step place c = some (m.next place c) ∧ Accounted place size (m.next place c) := by
  have htidy := callStep_tidy h.tidy hc.1 hc.2
  refine ⟨if_pos ⟨h.shown, htidy.fieldsApart hc.2⟩, htidy, hc.2, h.shown_next hsize hc,
    h.regions_next c, h.held_next c⟩

end Accounted

lemma newImage_kept {place : Placement} {size : SizeT} {hsize : sizeofPool ≤ size.val}
    (hp : Allotted place (memPoolCreate size hsize).heap) (mem : Memory) :
    Accounted place size (newImage place size hsize mem) := by
  have htidy : Tidy size (memPoolCreate size hsize) := by
    refine ⟨⟨[], ?_⟩, memPoolCreate_chunking size hsize, ?_⟩
    · exact (newMemory_faithful size hsize (fun _ _ => 0)).arranged
    · constructor
      all_goals simp [memPoolCreate, dataOf]
  exact ⟨htidy, hp, (htidy.storable size.isLt hp).shown mem, memPoolCreate_regions size hsize,
    List.Perm.refl _⟩

/-- **A run** in which `malloc` keeps its promise and every chunk that is added has room for its
header is followed to its end. -/
theorem image_run {place : Placement} {size : SizeT} {hsize : sizeofPool ≤ size.val}
    (hp : Allotted place (memPoolCreate size hsize).heap) (mem : Memory) {calls : List PoolCall}
    (hcalls : Along (callStep place) (Orderly place) (memPoolCreate size hsize) calls) :
    ∃ m, calls.foldlM (PoolImage.step place) (newImage place size hsize mem) = some m ∧
      m.store = calls.foldl (callStep place) (memPoolCreate size hsize) ∧ Accounted place size m :=
  foldlM_follows (v := PoolImage.store) (I := Accounted place size) (fun m c hm hc =>
    ⟨m.next place c, (hm.step size.isLt hc).1, rfl, (hm.step size.isLt hc).2⟩)
    (newImage_kept hp mem) hcalls

/-! ## Behind an overrun -/

/-- A step that clears nothing and leaves fields that can be stored. -/
def Plain (place : Placement) (s : Store) (c : PoolCall) : Prop :=
  c.cleared s = none ∧ Storable place (callStep place s c)

instance (place : Placement) (s : Store) (c : PoolCall) : Decidable (Plain place s c) :=
  inferInstanceAs (Decidable (_ ∧ _))

/-- A run of plain steps is followed, also behind an overrun, and so is a call of `pcalloc`
after it: memory is what the fields make it, with the zeros of the `memset` in it. -/
lemma cleared_run (place : Placement) (size : SizeT) (hsize : sizeofPool ≤ size.val)
    (mem : Memory) (calls : List PoolCall) (n : SizeT) (ms : Mallocs) {a : Addr} {s : Store}
    (hinit : Storable place (memPoolCreate size hsize))
    (hcalls : Along (callStep place) (Plain place) (memPoolCreate size hsize) calls)
    (hs : calls.foldl (callStep place) (memPoolCreate size hsize) = s)
    (hret : (pcalloc s n ms).1 = some a) (hlast : Storable place (pcalloc s n ms).2) :
    ∃ t : PoolImage, t.store = s ∧
      (calls ++ [PoolCall.pcalloc n ms]).foldlM (PoolImage.step place)
        (newImage place size hsize mem) = some (t.next place (.pcalloc n ms)) ∧
      ∃ mem', (t.next place (.pcalloc n ms)).mem = clear mem' (a.pointer place) n ∧
        Displayed place (pcalloc s n ms).2 mem' := by
  obtain ⟨t, hrun, hview, hshown⟩ := foldlM_follows (f := PoolImage.step place)
    (v := PoolImage.store) (I := fun m => Displayed place m.store m.mem)
    (t := newImage place size hsize mem) (fun m c hm hc => by
      refine ⟨m.next place c, if_pos ⟨hm, hc.2.apart⟩, rfl, ?_⟩
      have hstored : m.stored place c =
          storeAll m.mem ((callStep place m.store c).fields place) := by
        simp only [PoolImage.stored, hc.1]
      simp only [PoolImage.next, hstored]
      exact hc.2.shown m.mem) (hinit.shown mem) hcalls
  have hstore : t.store = s := hview.trans hs
  refine ⟨t, hstore, foldlM_snoc.mpr ⟨t, hrun, if_pos ⟨hshown, ?_⟩⟩,
    storeAll t.mem ((pcalloc s n ms).2.fields place), ?_, hlast.shown t.mem⟩
  · simp only [PoolImage.next, PoolImage.stored, PoolCall.cleared, hstore, hret, Option.map_some]
    rfl
  · rw [hstore]
    exact hlast.apart

namespace Displayed

variable {place : Placement} {s : Store} {mem : Memory}

lemma total_in (h : Displayed place s mem) :
    (word (place s.pool.block + 16) s.pool.total).In mem :=
  h.fields _ (by simp [Store.fields, Store.records, Pool.record])

lemma large_in (h : Displayed place s mem) :
    (word (place s.pool.block + 40) (pointerTo place (s.pool.large.head?.map Large.header))).In
      mem :=
  h.fields _ (by simp [Store.fields, Store.records, Pool.record])

/-- The first entry of `pool->large`. -/
lemma header_in (h : Displayed place s mem) {l : Large} {ls : List Large}
    (hl : s.pool.large = l :: ls) :
    (word (l.header.pointer place) (pointerTo place l.data)).In mem ∧
      (word (l.header.pointer place + 8) (pointerTo place (ls.head?.map Large.header))).In mem := by
  constructor
  all_goals
    apply h.fields
    simp [Store.fields, Store.records, hl, largeRecords]

/-- `pool->chunk.last`. -/
lemma last_in (h : Displayed place s mem) : ∃ c ∈ s.pool.chunks, c.block = s.pool.block ∧
    (word (place s.pool.block + 64) (place s.pool.block + c.last)).In mem := by
  obtain ⟨c, hc, haddr⟩ := Option.map_eq_some_iff.mp h.own
  obtain ⟨cs, hcs⟩ := List.head?_eq_some_iff.mp hc
  obtain ⟨hblock, hbase⟩ : c.block = s.pool.block ∧ c.base = chunkOffset := by
    simpa [Chunk.addr] using haddr
  refine ⟨c, by simp [hcs], hblock, h.fields _ ?_⟩
  simp [Store.fields, Store.records, hcs, chunkRecords, Chunk.addr, Addr.pointer, hblock, hbase,
    chunkOffset, sizeofPool, sizeofChunk, word]

end Displayed

/-! ## Small regions -/

/-- A request that is not granted adds no chunk. -/
lemma newChunkFits_of_none {s : Store} (hsound : Sound s)
    (hlive : ∀ b ∈ s.heap.live, b < s.heap.fresh) {n : SizeT} {m : Mallocs}
    (hnull : (pmalloc s n m).1 = none) : NewChunkFits s (.pmalloc n m) := by
  by_contra hbig
  apply (pmalloc_bounds hsound n m).2 hbig
  unfold Bounded
  rw [(pmalloc_none hlive hnull).chunks]
  exact hsound.bounded

/-- **Small regions never overlap**, in every run in which each chunk that is added has room
for its header, whatever fails; and a call that returns NULL changes nothing. -/
theorem regions_apart (place : Placement) (size : SizeT) (hsize : sizeofPool ≤ size.val)
    (hp : Allotted place (memPoolCreate size hsize).heap) (mem : Memory) (calls : List PoolCall)
    (hcalls : Along (callStep place) (Orderly place) (memPoolCreate size hsize) calls) :
    ∃ m, calls.foldlM (PoolImage.step place) (newImage place size hsize mem) = some m ∧
      m.Shows place (fun s => RegionsApart s m.regions ∧
        ∀ c : PoolCall, c.request.isSome → MallocKeeps place s c → (c.call place s).1 = none →
          ∃ m', m.step place c = some m' ∧ m'.Shows place (SamePool s)) := by
  obtain ⟨m, hrun, -, hkept⟩ := image_run hp mem hcalls
  refine ⟨m, hrun, hkept.shows ⟨hkept.regions.regionsApart, fun c hc hmalloc hnull => ?_⟩⟩
  obtain ⟨objs, harranged⟩ := hkept.tidy.arranged
  have hlive := hkept.regions.live
  have hsame : c.Fits m.store ∧ SamePool m.store (callStep place m.store c) := by
    cases c with
    | pmalloc n ms =>
      refine ⟨fun op hop => ?_, pmalloc_none hlive hnull⟩
      obtain rfl := Option.mem_some_iff.mp hop
      exact newChunkFits_of_none harranged.sound hlive hnull
    | pcalloc n ms =>
      refine ⟨fun op hop => ?_, pmalloc_none hlive hnull⟩
      obtain rfl := Option.mem_some_iff.mp hop
      exact newChunkFits_of_none harranged.sound hlive hnull
    | pfreeLarge p => cases hc
    | clear => cases hc
  obtain ⟨hstep, hnext⟩ := hkept.step size.isLt ⟨hsame.1, hmalloc⟩
  exact ⟨_, hstep, hnext.shows hsame.2⟩

/-- Blocks far from each other. -/
def farApart : Placement := fun b => 65536 * (b + 1)

/-- A pool of 1024 bytes that is filled, grows by a chunk, and grants a large block whose
header lies in the first chunk. -/
def threeRegions : List PoolCall :=
  [.pmalloc 600 ⟨true, true⟩, .pcalloc 500 ⟨true, true⟩, .pmalloc 2000 ⟨true, true⟩]

theorem regions_apart_three :
    ∃ m, threeRegions.foldlM (PoolImage.step farApart)
        (newImage farApart 1024 (by decide) (fun _ => 7)) = some m ∧
      m.Shows farApart (fun s => RegionsApart s m.regions ∧
        ∀ c : PoolCall, c.request.isSome → MallocKeeps farApart s c → (c.call farApart s).1 = none →
          ∃ m', m.step farApart c = some m' ∧ m'.Shows farApart (SamePool s)) :=
  regions_apart farApart 1024 (by decide) (by decide) (fun _ => 7) threeRegions (by decide)

/-- A pool of 1024 bytes and, 1040 bytes in front of it, the block of the next chunk. -/
def chunkInFront : Placement := fun b => if b = 0 then 8192 else if b = 1 then 7152 else 16384

/-- A chunk without room for its header, and a full first chunk. -/
def overrunCalls : List PoolCall := [.pmalloc 1024 ⟨true, true⟩, .pmalloc 936 ⟨true, true⟩]

/-- After them 48 bytes end behind `pool->large`, and the next 8 are `pool->chunk.last`. -/
theorem regions_apart_cleared :
    ¬ ∀ (place : Placement) (size : SizeT) (hsize : sizeofPool ≤ size.val) (mem : Memory)
      (calls : List PoolCall) (m : PoolImage), Allotted place (memPoolCreate size hsize).heap →
      Along (callStep place) (MallocKeeps place) (memPoolCreate size hsize) calls →
      calls.foldlM (PoolImage.step place) (newImage place size hsize mem) = some m →
      m.Shows place (fun s => RegionsApart s m.regions) := by
  intro h
  obtain ⟨t, hstore, hrun, mem, hmem, -⟩ := cleared_run chunkInFront 1024 (by decide)
    (fun _ => 0) (overrunCalls ++ [.pmalloc 48 ⟨true, true⟩]) 8 ⟨true, true⟩ (a := ⟨1, 1104⟩)
    (by decide) (by decide) rfl (by decide) (by decide)
  obtain ⟨s, -, hblock, hshown, -⟩ :=
    h chunkInFront 1024 (by decide) (fun _ => 0) _ _ (by decide) (by decide) hrun
  have hown : s.pool.block = 0 := by
    rw [hblock, PoolImage.next_store, hstore]
    rfl
  rw [hmem] at hshown
  obtain ⟨c, -, -, hlast⟩ := hshown.last_in
  rw [hown] at hlast
  have hzero := hlast.value_of_clear (by simp [word, Addr.pointer, chunkInFront])
    (by simp [word, Addr.pointer, chunkInFront])
  simp [word, chunkInFront] at hzero

/-! ## Chunks -/

/-- **Chunks are retired one by one, and `total` doubles with each new one**, in every run in
which each chunk that is added has room for its header. -/
theorem chunks_retired (place : Placement) (size : SizeT) (hsize : sizeofPool ≤ size.val)
    (hp : Allotted place (memPoolCreate size hsize).heap) (mem : Memory) (calls : List PoolCall)
    (hcalls : Along (callStep place) (Orderly place) (memPoolCreate size hsize) calls) :
    ∃ m, calls.foldlM (PoolImage.step place) (newImage place size hsize mem) = some m ∧
      m.Shows place (Chunked size) := by
  obtain ⟨m, hrun, -, hkept⟩ := image_run hp mem hcalls
  exact ⟨m, hrun, hkept.shows hkept.tidy.chunking.chunked⟩

/-- Three requests of a pool of 2048 bytes, of which two need a new chunk. -/
def twoFailures : List PoolCall := List.replicate 3 (.pmalloc ⟨1900, by decide⟩ ⟨true, true⟩)

/-- The first chunk has failed twice, the second once. -/
theorem chunks_retired_two :
    (∃ m, twoFailures.foldlM (PoolImage.step farApart)
        (newImage farApart 2048 (by decide) (fun _ => 7)) = some m ∧
      m.Shows farApart (Chunked 2048)) ∧
    (twoFailures.foldl (callStep farApart) (memPoolCreate 2048 (by decide))).pool.chunks.map
      Chunk.fail = [2, 1, 0] :=
  ⟨chunks_retired farApart 2048 (by decide) (by decide) (fun _ => 7) twoFailures (by decide),
    by decide⟩

/-- Behind the overrun the next 16 bytes from `pcalloc` are `pool->total` and `pool->max`. -/
theorem chunks_retired_cleared :
    ¬ ∀ (place : Placement) (size : SizeT) (hsize : sizeofPool ≤ size.val) (mem : Memory)
      (calls : List PoolCall) (m : PoolImage), Allotted place (memPoolCreate size hsize).heap →
      Along (callStep place) (fun s c => MallocKeeps place s c ∧ ∀ op ∈ c.request, TotalFits s op)
        (memPoolCreate size hsize) calls →
      calls.foldlM (PoolImage.step place) (newImage place size hsize mem) = some m →
      m.Shows place (Chunked size) := by
  intro h
  obtain ⟨t, hstore, hrun, mem, hmem, -⟩ := cleared_run chunkInFront 1024 (by decide)
    (fun _ => 0) overrunCalls 16 ⟨true, true⟩ (a := ⟨1, 1056⟩) (by decide) (by decide) rfl
    (by decide) (by decide)
  obtain ⟨s, -, hblock, hshown, hchunked⟩ :=
    h chunkInFront 1024 (by decide) (fun _ => 0) _ _ (by decide) (by decide) hrun
  have hown : s.pool.block = 0 := by
    rw [hblock, PoolImage.next_store, hstore]
    rfl
  rw [hmem] at hshown
  have htotal := hshown.total_in
  rw [hown] at htotal
  have hzero : s.pool.total = 0 := htotal.value_of_clear
    (by simp [word, Addr.pointer, chunkInFront]) (by simp [word, Addr.pointer, chunkInFront])
  have hdouble := hchunked.total
  rw [hzero] at hdouble
  simp at hdouble

/-! ## Large blocks -/

/-- The list of large blocks is right: each block that is held is the data of one entry, all
other entries are empty, and `pfree_large` succeeds for the blocks that are held and, NULL
aside, for nothing else. It frees its block, which is live, and empties its entry; when it
fails nothing changes. -/
structure LargeBooked (place : Placement) (s : Store) (held : List ℕ) : Prop where
  once : ∀ p ∈ held, s.pool.large.countP (fun l => pointerTo place l.data = p) = 1
  others : ∀ l ∈ s.pool.large, l.data = none ∨ pointerTo place l.data ∈ held
  frees_iff : ∀ p, p ≠ 0 → ((pfreeLargeAt place s p).1 = true ↔ p ∈ held)
  frees : ∀ p ∈ held, ∃ a, a.pointer place = p ∧ s.heap.isBlock a = true ∧
    ∃ i l, s.pool.large[i]? = some l ∧ l.data = some a ∧ (pfreeLargeAt place s p).2 =
      ⟨s.heap.free a, { s.pool with large := s.pool.large.set i { l with data := none } }⟩
  fails : ∀ p, p ∉ held → (pfreeLargeAt place s p).2 = s

lemma Accounted.booked {place : Placement} {size : ℕ} {m : PoolImage} (h : Accounted place size m) :
    LargeBooked place m.store m.held := by
  have hnull : 0 ∉ m.held := h.not_held (fun hne => absurd rfl hne)
  have hnodup : m.held.Nodup := by
    rw [h.held.nodup_iff]
    exact List.Nodup.map_on (fun a ha a' ha' heq => h.pointer_inj ha ha' heq) h.tidy.entries.nodup
  constructor
  · intro p hp
    have hcount := List.count_eq_one_of_mem hnodup hp
    rw [h.held.count_eq, dataOf, List.map_filterMap, List.count_filterMap] at hcount
    rw [← hcount]
    apply List.countP_congr
    intro l _
    rw [decide_eq_true_iff]
    cases l.data with
    | none =>
      have hne : 0 ≠ p := fun heq => hnull (heq ▸ hp)
      simp [pointerTo, hne]
    | some a => simp [pointerTo]
  · intro l hl
    cases hdata : l.data with
    | none => exact Or.inl rfl
    | some a => exact Or.inr (h.mem_held.mpr ⟨a, List.mem_filterMap.mpr ⟨l, hl, hdata⟩, rfl⟩)
  · intro p hp
    rcases pfreeLargeAt_cases place m.store p with ⟨-, hno⟩ | ⟨a, ha, hap, heq⟩
    · have hout := h.not_held (fun hne => (hno hne).2)
      simp [(hno hp).1, hout]
    · rw [heq]
      exact iff_of_true (h.tidy.entries.pfreeLarge ha).1 (h.mem_held.mpr ⟨a, ha, hap⟩)
  · intro p hp
    rcases pfreeLargeAt_cases place m.store p with ⟨-, hno⟩ | ⟨a, ha, hap, heq⟩
    · exact absurd hp (h.not_held (fun hne => (hno hne).2))
    · refine ⟨a, hap, ?_, ?_⟩
      · simp [Heap.isBlock, h.tidy.entries.start a ha, h.tidy.entries.live a ha]
      · rw [heq]
        cases hdrop : dropData a m.store.pool.large with
        | none => exact absurd ha (dropData_none_iff.mp hdrop)
        | some large =>
          obtain ⟨-, i, l, hget, hdata, rfl⟩ := dropData_some hdrop
          exact ⟨i, l, hget, hdata, by simp only [pfreeLarge, hdrop]⟩
  · intro p hp
    rcases pfreeLargeAt_cases place m.store p with ⟨heq, -⟩ | ⟨a, ha, hap, -⟩
    · exact heq
    · exact absurd (h.mem_held.mpr ⟨a, ha, hap⟩) hp

/-- **The list of large blocks is right** in every run in which each chunk that is added has
room for its header, whatever fails and whichever addresses `malloc` gives again. -/
theorem large_blocks_booked (place : Placement) (size : SizeT) (hsize : sizeofPool ≤ size.val)
    (hp : Allotted place (memPoolCreate size hsize).heap) (mem : Memory) (calls : List PoolCall)
    (hcalls : Along (callStep place) (Orderly place) (memPoolCreate size hsize) calls) :
    ∃ m, calls.foldlM (PoolImage.step place) (newImage place size hsize mem) = some m ∧
      m.Shows place (fun s => LargeBooked place s m.held) := by
  obtain ⟨m, hrun, -, hkept⟩ := image_run hp mem hcalls
  exact ⟨m, hrun, hkept.shows hkept.booked⟩

/-- A block is freed, and its address is that of the next one. -/
def againPlacement : Placement := fun b => if b = 0 then 8192 else 20480

def againCalls : List PoolCall :=
  [.pmalloc 2000 ⟨true, true⟩, .pfreeLarge 20480, .pcalloc 3000 ⟨true, true⟩]

theorem large_blocks_booked_again :
    (∃ m, againCalls.foldlM (PoolImage.step againPlacement)
        (newImage againPlacement 1024 (by decide) (fun _ => 7)) = some m ∧
      m.Shows againPlacement (fun s => LargeBooked againPlacement s m.held)) ∧
    (againCalls.foldl (callStep againPlacement) (memPoolCreate 1024 (by decide))).pool.large =
      [⟨⟨0, 88⟩, some ⟨2, 0⟩⟩] :=
  ⟨large_blocks_booked againPlacement 1024 (by decide) (by decide) (fun _ => 7) againCalls
    (by decide), by decide⟩

/-- A pool of 1024 bytes, and a chunk with the block of large data behind it. -/
def dataBehindChunk : Placement := fun b =>
  if b = 0 then 8192 else if b = 1 then 20480 else 21520

/-- The header of the next large block comes to lie behind the end of the chunk. -/
def headerCalls : List PoolCall :=
  [.pmalloc 10 ⟨true, true⟩, .pmalloc 512 ⟨true, true⟩, .pmalloc 1024 ⟨true, true⟩,
    .pmalloc 414 ⟨true, true⟩]

/-- It lies in its own block, and `pcalloc` clears it: the block is in no entry. -/
theorem large_blocks_booked_cleared :
    ¬ ∀ (place : Placement) (size : SizeT) (hsize : sizeofPool ≤ size.val) (mem : Memory)
      (calls : List PoolCall) (m : PoolImage), Allotted place (memPoolCreate size hsize).heap →
      Along (callStep place) (MallocKeeps place) (memPoolCreate size hsize) calls →
      calls.foldlM (PoolImage.step place) (newImage place size hsize mem) = some m →
      m.Shows place (fun s => LargeBooked place s m.held) := by
  intro h
  obtain ⟨t, hstore, hrun, mem, hmem, hmem'⟩ := cleared_run dataBehindChunk 1024 (by decide)
    (fun _ => 0) headerCalls 2000 ⟨true, true⟩ (a := ⟨2, 0⟩) (by decide) (by decide) rfl
    (by decide) (by decide)
  obtain ⟨s, -, hblock, hshown, hbooked⟩ :=
    h dataBehindChunk 1024 (by decide) (fun _ => 0) _ _ (by decide) (by decide) hrun
  have hown : s.pool.block = 0 := by
    rw [hblock, PoolImage.next_store, hstore]
    rfl
  -- `pool->large` is the header, whose fields are cleared
  have hlarge : pointerTo dataBehindChunk (s.pool.large.head?.map Large.header) = 21536 := by
    have hkept := hmem'.large_in.clear (a := 21520) (n := 2000) (by decide)
    have hseen := hshown.large_in
    rw [hmem, hown] at hseen
    exact hseen.value_eq hkept rfl rfl
  have hheld : 21520 ∈ (t.next dataBehindChunk (.pcalloc 2000 ⟨true, true⟩)).held := by
    simp only [PoolImage.next, PoolCall.held, hstore]
    exact List.mem_append_left _ (by decide)
  have honce := hbooked.once 21520 hheld
  cases hls : s.pool.large with
  | nil => simp [hls, pointerTo] at hlarge
  | cons l ls =>
    have hheader : l.header.pointer dataBehindChunk = 21536 := by
      simpa [hls, pointerTo] using hlarge
    obtain ⟨hdata, hnext⟩ := hshown.header_in hls
    rw [hmem, hheader] at hdata hnext
    have hnull : pointerTo dataBehindChunk l.data = 0 :=
      hdata.value_of_clear (by decide : _ ≤ 21536) (by decide : 21536 + 8 ≤ _)
    have hend : pointerTo dataBehindChunk (ls.head?.map Large.header) = 0 :=
      hnext.value_of_clear (by decide : _ ≤ 21544) (by decide : 21544 + 8 ≤ _)
    cases ls with
    | nil => simp [hls, hnull] at honce
    | cons l' ls =>
      simp only [pointerTo, List.head?_cons, Option.map_some, Option.elim_some, Addr.pointer,
        dataBehindChunk] at hend
      split_ifs at hend <;> omega

end Xpipe
