import Xpipe.Fields
import Xpipe.PoolChunks
import Xpipe.PoolMemory

/-!
# The pool in flat memory

The bytes of the structs of `mem_pool.h`. `malloc` places its blocks anywhere, so that a region
which runs over the end of its block can lie on the fields of the pool, and the `memset` of
`pcalloc` clears what is there.

A step takes a memory that shows the pool, stores into the fields what the call makes of them,
and clears the region that `pcalloc` returns. Where memory no longer shows the pool, or where
two structs meet, the step gives nothing: from there on the pool is not followed.
-/
namespace Xpipe
open Runs Fields

/-- The address at which `malloc` has placed each block. -/
abbrev Placement := ℕ → ℕ

/-- What `malloc` promises of the blocks that are live: no block is at NULL or leaves the
address space, and no two have an address in common. -/
structure Allotted (place : Placement) (h : Heap) : Prop where
  pos : ∀ b ∈ h.live, 0 < place b
  upper : ∀ b ∈ h.live, place b + h.size b < 2 ^ 64
  apart : ∀ b ∈ h.live, ∀ b' ∈ h.live, b ≠ b' →
    place b + h.size b ≤ place b' ∨ place b' + h.size b' ≤ place b
  distinct : ∀ b ∈ h.live, ∀ b' ∈ h.live, place b = place b' → b = b'

instance (place : Placement) (h : Heap) : Decidable (Allotted place h) :=
  decidable_of_iff ((∀ b ∈ h.live, 0 < place b) ∧ (∀ b ∈ h.live, place b + h.size b < 2 ^ 64) ∧
      (∀ b ∈ h.live, ∀ b' ∈ h.live, b ≠ b' →
        place b + h.size b ≤ place b' ∨ place b' + h.size b' ≤ place b) ∧
      ∀ b ∈ h.live, ∀ b' ∈ h.live, place b = place b' → b = b')
    ⟨fun ⟨hp, hu, ha, hd⟩ => ⟨hp, hu, ha, hd⟩, fun h => ⟨h.pos, h.upper, h.apart, h.distinct⟩⟩

/-- The pointer to an address. -/
def Addr.pointer (place : Placement) (a : Addr) : ℕ := place a.block + a.off

/-- A pointer that may be NULL. -/
def pointerTo (place : Placement) (a : Option Addr) : ℕ := a.elim 0 (Addr.pointer place)

def Chunk.addr (c : Chunk) : Addr := ⟨c.block, c.base⟩

/-! ## The structs -/

/-- A struct: where it lies, and its fields. -/
structure Record where
  region : Region
  fields : List Field

def word (a value : ℕ) : Field := ⟨a, 8, value⟩

/-- `mem_pool_t` in front of `chunk`: `total`, `max`, `current` and `large`. -/
def Pool.record (place : Placement) (p : Pool) : Record where
  region := ⟨⟨p.block, 0⟩, chunkOffset⟩
  fields :=
    let a := place p.block
    [word (a + 16) p.total, word (a + 24) p.max,
      word (a + 32) (pointerTo place (p.chunks[p.current]?.map Chunk.addr)),
      word (a + 40) (pointerTo place (p.large.head?.map Large.header))]

/-- `mem_pool_chunk_t`: `fail`, `last`, `end` and `next`. -/
def chunkRecords (place : Placement) : List Chunk → List Record
  | [] => []
  | c :: cs =>
    let a := c.addr.pointer place
    { region := ⟨c.addr, sizeofChunk⟩
      fields := [⟨a, 4, c.fail⟩, word (a + 8) (place c.block + c.last),
        word (a + 16) (place c.block + c.stop),
        word (a + 24) (pointerTo place (cs.head?.map Chunk.addr))] } :: chunkRecords place cs

/-- `mem_pool_large_t`: `data` and `next`. -/
def largeRecords (place : Placement) : List Large → List Record
  | [] => []
  | l :: ls =>
    let a := l.header.pointer place
    { region := ⟨l.header, sizeofLarge⟩
      fields := [word a (pointerTo place l.data),
        word (a + 8) (pointerTo place (ls.head?.map Large.header))] } :: largeRecords place ls

namespace Store

variable (place : Placement) (s : Store)

/-- The structs of a pool. `name` and `logger`, which no call changes, are not among the
fields. -/
def records : List Record :=
  s.pool.record place :: (chunkRecords place s.pool.chunks ++ largeRecords place s.pool.large)

def fields : List Field := (s.records place).flatMap Record.fields

/-- No field lies on another. -/
def FieldsApart : Prop := (s.fields place).Pairwise Field.Apart

instance : Decidable (s.FieldsApart place) := inferInstanceAs (Decidable (List.Pairwise _ _))

end Store

/-- The memory shows the pool: its own chunk is the first, and every field is there. -/
structure Displayed (place : Placement) (s : Store) (mem : Memory) : Prop where
  own : s.pool.chunks.head?.map Chunk.addr = some ⟨s.pool.block, chunkOffset⟩
  fields : ∀ f ∈ s.fields place, f.In mem

instance (place : Placement) (s : Store) (mem : Memory) : Decidable (Displayed place s mem) :=
  decidable_of_iff (s.pool.chunks.head?.map Chunk.addr = some ⟨s.pool.block, chunkOffset⟩ ∧
    ∀ f ∈ s.fields place, f.In mem) ⟨fun ⟨ho, hf⟩ => ⟨ho, hf⟩, fun h => ⟨h.own, h.fields⟩⟩

/-! ## The calls -/

/-- The calls on a pool; `pfree_large` takes a pointer. -/
inductive PoolCall
  | pmalloc (n : SizeT) (m : Mallocs)
  | pcalloc (n : SizeT) (m : Mallocs)
  | pfreeLarge (p : ℕ)
  | clear
  deriving DecidableEq

/-- `pfree_large`; the flag is `XPE_OK`. For NULL the loop stops at an empty entry, which it
leaves as it is. -/
def pfreeLargeAt (place : Placement) (s : Store) (p : ℕ) : Bool × Store :=
  match s.pool.large.find? (fun l => pointerTo place l.data = p) with
  | none => (false, s)
  | some l =>
    match l.data with
    | none => (true, s)
    | some a => pfreeLarge s a

namespace PoolCall

/-- The effect of a call, and the address it returns. -/
def call (place : Placement) (s : Store) : PoolCall → Option Addr × Store
  | .pmalloc n m => Xpipe.pmalloc s n m
  | .pcalloc n m => Xpipe.pcalloc s n m
  | .pfreeLarge p => (none, (pfreeLargeAt place s p).2)
  | .clear => (none, memPoolClear s)

/-- The request that a call is. -/
def request : PoolCall → Option PoolOp
  | .pmalloc n m => some (.pmalloc n m)
  | .pcalloc n m => some (.pcalloc n m)
  | .pfreeLarge _ => none
  | .clear => none

/-- What `pcalloc` clears: the region it returns. -/
def cleared (s : Store) : PoolCall → Option Region
  | .pcalloc n m => (Xpipe.pcalloc s n m).1.map (fun a => ⟨a, n⟩)
  | _ => none

/-- The chunk that a call adds, if it adds one, has room for its header. -/
def Fits (s : Store) (c : PoolCall) : Prop := ∀ op ∈ c.request, NewChunkFits s op

instance (s : Store) (c : PoolCall) : Decidable (c.Fits s) :=
  inferInstanceAs (Decidable (∀ op ∈ c.request, NewChunkFits s op))

/-- The small regions that have been taken from the pool since it was created or cleared. -/
def regions (s : Store) (rs : List Region) (c : PoolCall) : List Region :=
  if c = .clear then [] else (c.request.elim [] (PoolOp.regions s)) ++ rs

/-- The pointers to the large blocks that have been returned since then and not freed. -/
def held (place : Placement) (s : Store) (held : List ℕ) : PoolCall → List ℕ
  | .pmalloc n m => (if s.pool.max < n.val then
      (Xpipe.pmalloc s n m).1.toList.map (Addr.pointer place) else []) ++ held
  | .pcalloc n m => (if s.pool.max < n.val then
      (Xpipe.pcalloc s n m).1.toList.map (Addr.pointer place) else []) ++ held
  | .pfreeLarge p => if (pfreeLargeAt place s p).1 then held.erase p else held
  | .clear => []

end PoolCall

/-- The pool as a call leaves it. -/
def callStep (place : Placement) (s : Store) (c : PoolCall) : Store := (c.call place s).2

/-- The memory, the pool that the calls have made of it, and what they have handed out. -/
structure PoolImage where
  store : Store
  mem : Memory
  regions : List Region
  held : List ℕ

namespace PoolImage

/-- The memory after a call: the fields of the pool that it leaves, and zeros. -/
def stored (place : Placement) (m : PoolImage) (c : PoolCall) : Memory :=
  let mem := storeAll m.mem ((callStep place m.store c).fields place)
  match c.cleared m.store with
  | some r => clear mem (r.addr.pointer place) r.size
  | none => mem

def next (place : Placement) (m : PoolImage) (c : PoolCall) : PoolImage where
  store := callStep place m.store c
  mem := m.stored place c
  regions := c.regions m.store m.regions
  held := c.held place m.store m.held

lemma next_store (place : Placement) (m : PoolImage) (c : PoolCall) :
    (m.next place c).store = callStep place m.store c := rfl

/-- **One call**, on a memory that shows the pool. -/
def step (place : Placement) (m : PoolImage) (c : PoolCall) : Option PoolImage :=
  if Displayed place m.store m.mem ∧ (callStep place m.store c).FieldsApart place then
    some (m.next place c)
  else none

/-- What the memory shows has a property. -/
def Shows (place : Placement) (m : PoolImage) (P : Store → Prop) : Prop :=
  ∃ s, s.heap = m.store.heap ∧ s.pool.block = m.store.pool.block ∧ Displayed place s m.mem ∧ P s

end PoolImage

/-- `mem_pool_create`, in a memory that holds anything. -/
def newImage (place : Placement) (size : SizeT) (hsize : sizeofPool ≤ size.val) (mem : Memory) :
    PoolImage where
  store := memPoolCreate size hsize
  mem := storeAll mem ((memPoolCreate size hsize).fields place)
  regions := []
  held := []

/-- A step of a run in which `malloc` keeps its promise. -/
def MallocKeeps (place : Placement) (s : Store) (c : PoolCall) : Prop :=
  Allotted place (callStep place s c).heap

instance (place : Placement) (s : Store) (c : PoolCall) : Decidable (MallocKeeps place s c) :=
  inferInstanceAs (Decidable (Allotted _ _))

/-! ## Structs that are apart -/

/-- The region lies in a block that is live. -/
def Heap.Owns (h : Heap) (r : Region) : Prop :=
  r.addr.block ∈ h.live ∧ r.stop ≤ h.size r.addr.block

/-- Two regions without a common byte of memory. -/
def Region.Parted (place : Placement) (r r' : Region) : Prop :=
  r.addr.pointer place + r.size ≤ r'.addr.pointer place ∨
    r'.addr.pointer place + r'.size ≤ r.addr.pointer place

/-- **Regions that are apart in their blocks are apart in memory.** -/
lemma Allotted.parted {place : Placement} {h : Heap} (hp : Allotted place h) {r r' : Region}
    (hr : h.Owns r) (hr' : h.Owns r') (hapart : r.Apart r') : r.Parted place r' := by
  obtain ⟨hlive, hstop⟩ := hr
  obtain ⟨hlive', hstop'⟩ := hr'
  simp only [Region.stop] at hstop hstop'
  unfold Region.Parted Addr.pointer
  by_cases hblock : r.addr.block = r'.addr.block
  · have hsides := hapart hblock
    simp only [Region.stop] at hsides
    rw [hblock]
    omega
  · have hblocks := hp.apart _ hlive _ hlive' hblock
    omega

/-- The fields of a struct lie in it, one behind the other. -/
structure Record.Neat (place : Placement) (r : Record) : Prop where
  inside : ∀ f ∈ r.fields, r.region.addr.pointer place ≤ f.addr ∧
    f.addr + f.width ≤ r.region.addr.pointer place + r.region.size
  apart : r.fields.Pairwise Field.Apart

lemma Pool.record_neat (place : Placement) (p : Pool) : (p.record place).Neat place := by
  constructor
  · simp [Pool.record, word, Addr.pointer, chunkOffset, sizeofPool, sizeofChunk]
  · simp [Pool.record, word, Field.Apart, Field.Misses]

lemma chunkRecords_neat (place : Placement) (cs : List Chunk) :
    ∀ r ∈ chunkRecords place cs, r.Neat place := by
  induction cs with
  | nil => simp [chunkRecords]
  | cons c cs ih =>
    intro r hr
    rcases List.mem_cons.mp hr with rfl | hr
    · constructor
      · simp [word, sizeofChunk]
      · simp [word, Field.Apart, Field.Misses]
    · exact ih r hr

lemma largeRecords_neat (place : Placement) (ls : List Large) :
    ∀ r ∈ largeRecords place ls, r.Neat place := by
  induction ls with
  | nil => simp [largeRecords]
  | cons l ls ih =>
    intro r hr
    rcases List.mem_cons.mp hr with rfl | hr
    · constructor
      · simp [word, sizeofLarge]
      · simp [word, Field.Apart, Field.Misses]
    · exact ih r hr

lemma map_region_chunkRecords (place : Placement) (cs : List Chunk) :
    (chunkRecords place cs).map Record.region = cs.map (fun c => ⟨c.addr, sizeofChunk⟩) := by
  induction cs with
  | nil => rfl
  | cons c cs ih => rw [chunkRecords, List.map_cons, List.map_cons, ih]

lemma map_region_largeRecords (place : Placement) (ls : List Large) :
    (largeRecords place ls).map Record.region = ls.map (fun l => ⟨l.header, sizeofLarge⟩) := by
  induction ls with
  | nil => rfl
  | cons l ls ih => rw [largeRecords, List.map_cons, List.map_cons, ih]

/-- The regions of the structs of a pool. -/
def Store.structs (s : Store) : List Region :=
  ⟨⟨s.pool.block, 0⟩, chunkOffset⟩ ::
    (s.pool.chunks.map (fun c => ⟨c.addr, sizeofChunk⟩) ++
      s.pool.large.map (fun l => ⟨l.header, sizeofLarge⟩))

lemma map_region_records (place : Placement) (s : Store) :
    (s.records place).map Record.region = s.structs := by
  rw [Store.records, List.map_cons, List.map_append, map_region_chunkRecords,
    map_region_largeRecords]
  rfl

lemma records_neat (place : Placement) (s : Store) : ∀ r ∈ s.records place, r.Neat place := by
  intro r hr
  rcases List.mem_cons.mp hr with rfl | hr
  · exact s.pool.record_neat place
  · rcases List.mem_append.mp hr with hr | hr
    · exact chunkRecords_neat place _ r hr
    · exact largeRecords_neat place _ r hr

/-- A field lies in one of the structs. -/
lemma mem_fields {place : Placement} {s : Store} {f : Field} (hf : f ∈ s.fields place) :
    ∃ r ∈ s.structs, r.addr.pointer place ≤ f.addr ∧
      f.addr + f.width ≤ r.addr.pointer place + r.size := by
  obtain ⟨r, hr, hin⟩ := List.mem_flatMap.mp hf
  refine ⟨r.region, ?_, (records_neat place s r hr).inside f hin⟩
  rw [← map_region_records place s]
  exact List.mem_map.mpr ⟨r, hr, rfl⟩

/-- Where the structs are apart, so are the fields. -/
lemma fieldsApart_of_structs {place : Placement} {s : Store}
    (h : s.structs.Pairwise (Region.Parted place)) : s.FieldsApart place := by
  unfold Store.FieldsApart Store.fields
  rw [List.pairwise_flatMap]
  refine ⟨fun r hr => (records_neat place s r hr).apart, ?_⟩
  rw [← map_region_records place s, List.pairwise_map] at h
  refine List.Pairwise.imp_of_mem (fun {r r'} hr hr' hparted f hf g hg => ?_) h
  have hin := (records_neat place s r hr).inside f hf
  have hin' := (records_neat place s r' hr').inside g hg
  unfold Region.Parted at hparted
  unfold Field.Apart Field.Misses
  omega

/-- A region that the pool has handed out is behind the header of its chunk. -/
lemma Regions.behind {s : Store} {rs : List Region} (h : Regions s rs) {r : Region}
    (hr : r ∈ rs) : Region.Apart ⟨⟨s.pool.block, 0⟩, chunkOffset⟩ r ∧
      ∀ c ∈ s.pool.chunks, Region.Apart ⟨c.addr, sizeofChunk⟩ r := by
  obtain ⟨d, hd, hblock, hlow, -⟩ := h.inside r hr
  constructor
  · intro hown
    have hheader := h.payload d hd
    rw [Pool.headerEnd, if_pos (hblock.trans hown.symm)] at hheader
    left
    simp only [Region.stop, chunkOffset, sizeofPool, sizeofChunk] at hheader ⊢
    omega
  · intro c hc hsame
    obtain rfl : d = c := List.inj_on_of_nodup_map h.blocks hd hc (hblock.trans hsame.symm)
    exact Or.inl hlow

lemma Arranged.structs_apart {s : Store} {objs : List Obj} (h : Arranged s objs) :
    s.structs.Pairwise Region.Apart := by
  have hheader {l : Large} (hl : l ∈ s.pool.large) :
      ⟨l.header, sizeofLarge⟩ ∈ chunkRegions s objs :=
    List.mem_append_right _ (List.mem_map.mpr ⟨l, hl, rfl⟩)
  refine List.pairwise_cons.mpr ⟨fun r hr => ?_, List.pairwise_append.mpr ⟨?_, ?_, ?_⟩⟩
  · rcases List.mem_append.mp hr with hr | hr
    · obtain ⟨c, hc, rfl⟩ := List.mem_map.mp hr
      -- the chunk of the pool's own block is the last field of `mem_pool_t`
      intro hblock
      have hpayload := h.regions.payload c hc
      have hown : c.block = s.pool.block := hblock.symm
      rw [Pool.headerEnd, if_pos hown, Chunk.payload] at hpayload
      left
      simp only [Region.stop, Chunk.addr, chunkOffset, sizeofPool, sizeofChunk] at hpayload ⊢
      omega
    · obtain ⟨l, hl, rfl⟩ := List.mem_map.mp hr
      exact (h.regions.behind (hheader hl)).1
  · rw [List.pairwise_map]
    refine (List.pairwise_map.mp h.regions.blocks).imp (fun hne hblock => ?_)
    exact absurd hblock hne
  · exact (List.pairwise_append.mp h.regions.apart).2.1
  · intro r hr r' hr'
    obtain ⟨c, hc, rfl⟩ := List.mem_map.mp hr
    obtain ⟨l, hl, rfl⟩ := List.mem_map.mp hr'
    exact (h.regions.behind (hheader hl)).2 c hc

/-- No object meets a struct. -/
lemma Arranged.obj_apart {s : Store} {objs : List Obj} (h : Arranged s objs)
    (hown : s.pool.block ∈ s.pool.chunks.map Chunk.block) {o : Obj} (ho : o ∈ objs) :
    ∀ r ∈ s.structs, r.Apart o.region := by
  have hheader {l : Large} (hl : l ∈ s.pool.large) :
      (⟨l.header, sizeofLarge⟩ : Region) ∈
        s.pool.large.map (fun l => (⟨l.header, sizeofLarge⟩ : Region)) :=
    List.mem_map.mpr ⟨l, hl, rfl⟩
  intro r hr
  cases hlarge : o.large with
  | false =>
    have hmem := Arranged.small_mem (s := s) ho hlarge
    obtain ⟨hpool, hchunks⟩ := h.regions.behind hmem
    rcases List.mem_cons.mp hr with rfl | hr
    · exact hpool
    · rcases List.mem_append.mp hr with hr | hr
      · obtain ⟨c, hc, rfl⟩ := List.mem_map.mp hr
        exact hchunks c hc
      · obtain ⟨l, hl, rfl⟩ := List.mem_map.mp hr
        have hsmall : o.region ∈ (objs.filter (fun o => !o.large)).map Obj.region :=
          List.mem_map.mpr ⟨o, List.mem_filter.mpr ⟨ho, by simp [hlarge]⟩, rfl⟩
        exact ((List.pairwise_append.mp h.regions.apart).2.2 _ hsmall _ (hheader hl)).symm
  | true =>
    -- the structs are in the blocks of the chunks
    have hblock : r.addr.block ∈ s.pool.chunks.map Chunk.block := by
      rcases List.mem_cons.mp hr with rfl | hr
      · exact hown
      · rcases List.mem_append.mp hr with hr | hr
        · obtain ⟨c, hc, rfl⟩ := List.mem_map.mp hr
          exact List.mem_map.mpr ⟨c, hc, rfl⟩
        · obtain ⟨l, hl, rfl⟩ := List.mem_map.mp hr
          obtain ⟨c, hc, heq, -⟩ := h.header hl
          exact List.mem_map.mpr ⟨c, hc, heq⟩
    intro hsame
    exact absurd (hsame ▸ hblock) (h.large o ho hlarge).apart

lemma Arranged.chunk_owned {s : Store} {objs : List Obj} (h : Arranged s objs) {c : Chunk}
    (hc : c ∈ s.pool.chunks) {off n : ℕ} (hend : off + n ≤ c.last) :
    s.heap.Owns ⟨⟨c.block, off⟩, n⟩ := by
  have hsound := h.sound.chunk c hc
  exact ⟨h.chunks _ (List.mem_map.mpr ⟨c, hc, rfl⟩),
    (hend.trans hsound.upper).trans hsound.owned⟩

lemma Arranged.structs_owned {s : Store} {objs : List Obj} (h : Arranged s objs)
    (hown : s.pool.block ∈ s.pool.chunks.map Chunk.block) : ∀ r ∈ s.structs, s.heap.Owns r := by
  intro r hr
  rcases List.mem_cons.mp hr with rfl | hr
  · obtain ⟨c, hc, hblock⟩ := List.mem_map.mp hown
    have hheader := h.regions.payload c hc
    have hlow := (h.sound.chunk c hc).lower
    rw [Pool.headerEnd, if_pos hblock] at hheader
    rw [← hblock]
    apply h.chunk_owned hc
    simp only [chunkOffset, sizeofPool, sizeofChunk] at hheader ⊢
    omega
  · rcases List.mem_append.mp hr with hr | hr
    · obtain ⟨c, hc, rfl⟩ := List.mem_map.mp hr
      exact h.chunk_owned hc (h.sound.chunk c hc).lower
    · obtain ⟨l, hl, rfl⟩ := List.mem_map.mp hr
      obtain ⟨c, hc, hblock, -, hend⟩ := h.header hl
      have howned := h.chunk_owned hc hend
      rw [hblock] at howned
      exact howned

/-! ## The invariant -/

/-- What holds of the pool between calls: its objects and structs are arranged, its chunks
are in order, and its large blocks are booked. -/
structure Tidy (size : ℕ) (s : Store) : Prop where
  arranged : ∃ objs, Arranged s objs
  chunking : Chunking size s
  entries : Entries s

namespace Tidy

variable {size : ℕ} {s : Store} {place : Placement}

lemma own_mem (h : Tidy size s) : s.pool.block ∈ s.pool.chunks.map Chunk.block :=
  List.mem_of_mem_head? (Option.mem_def.mpr h.chunking.own)

lemma fieldsApart (h : Tidy size s) (hp : Allotted place s.heap) : s.FieldsApart place := by
  obtain ⟨objs, harranged⟩ := h.arranged
  apply fieldsApart_of_structs
  refine List.Pairwise.imp_of_mem (fun {r r'} hr hr' hapart => ?_) harranged.structs_apart
  have howned := harranged.structs_owned h.own_mem
  exact hp.parted (howned r hr) (howned r' hr') hapart

/-- A region that has been handed out misses the fields. -/
lemma misses (h : Tidy size s) (hp : Allotted place s.heap) {objs : List Obj}
    (harranged : Arranged s objs) {o : Obj} (ho : o ∈ objs) :
    ∀ f ∈ s.fields place, f.Misses (o.addr.pointer place) o.bytes.length := by
  intro f hf
  obtain ⟨r, hr, hlow, hhigh⟩ := mem_fields hf
  obtain ⟨hholds, hlive⟩ := harranged.holds ho
  have hparted := hp.parted (harranged.structs_owned h.own_mem r hr)
    (show s.heap.Owns o.region from ⟨hlive, hholds⟩) (harranged.obj_apart h.own_mem ho r hr)
  simp only [Region.Parted, Obj.region] at hparted
  unfold Field.Misses
  omega

end Tidy

/-! ### The values fit into their fields -/

lemma Allotted.pointer_lt {place : Placement} {h : Heap} (hp : Allotted place h) {a : Addr} {n : ℕ}
    (ha : h.Owns ⟨a, n⟩) : a.pointer place < 2 ^ 64 := by
  obtain ⟨hlive, hstop⟩ : a.block ∈ h.live ∧ a.off + n ≤ h.size a.block := ha
  have hupper := hp.upper _ hlive
  unfold Addr.pointer
  omega

lemma pointerTo_lt {place : Placement} {o : Option Addr}
    (h : ∀ a ∈ o, a.pointer place < 2 ^ 64) : pointerTo place o < 2 ^ 64 := by
  cases o with
  | none => exact Nat.two_pow_pos 64
  | some a => exact h a rfl

/-- The field can take its value. -/
def Suits (f : Field) : Prop := f.value < 256 ^ f.width

instance (f : Field) : Decidable (Suits f) := inferInstanceAs (Decidable (_ < _))

lemma suits_word {a v : ℕ} (h : v < 2 ^ 64) : Suits (word a v) := h

lemma chunkRecords_suit {place : Placement} {cs : List Chunk}
    (h : ∀ c ∈ cs, c.fail < 2 ^ 32 ∧ c.addr.pointer place < 2 ^ 64 ∧
      place c.block + c.last < 2 ^ 64 ∧ place c.block + c.stop < 2 ^ 64) :
    ∀ r ∈ chunkRecords place cs, ∀ f ∈ r.fields, Suits f := by
  induction cs with
  | nil => simp [chunkRecords]
  | cons c cs ih =>
    intro r hr
    obtain ⟨hfail, -, hlast, hstop⟩ := h c (by simp)
    rcases List.mem_cons.mp hr with rfl | hr
    · have hnext : pointerTo place (cs.head?.map Chunk.addr) < 2 ^ 64 := by
        apply pointerTo_lt
        intro a ha
        obtain ⟨d, hd, rfl⟩ := Option.map_eq_some_iff.mp ha
        exact (h d (List.mem_cons_of_mem c (List.mem_of_mem_head? hd))).2.1
      simp only [List.forall_mem_cons]
      exact ⟨hfail, suits_word hlast, suits_word hstop, suits_word hnext, by simp⟩
    · exact ih (fun d hd => h d (List.mem_cons_of_mem c hd)) r hr

lemma largeRecords_suit {place : Placement} {ls : List Large}
    (h : ∀ l ∈ ls, l.header.pointer place < 2 ^ 64 ∧ pointerTo place l.data < 2 ^ 64) :
    ∀ r ∈ largeRecords place ls, ∀ f ∈ r.fields, Suits f := by
  induction ls with
  | nil => simp [largeRecords]
  | cons l ls ih =>
    intro r hr
    rcases List.mem_cons.mp hr with rfl | hr
    · have hnext : pointerTo place (ls.head?.map Large.header) < 2 ^ 64 := by
        apply pointerTo_lt
        intro a ha
        obtain ⟨l', hl', rfl⟩ := Option.map_eq_some_iff.mp ha
        exact (h l' (List.mem_cons_of_mem l (List.mem_of_mem_head? hl'))).1
      simp only [List.forall_mem_cons]
      exact ⟨suits_word (h l (by simp)).2, suits_word hnext, by simp⟩
    · exact ih (fun l' hl' => h l' (List.mem_cons_of_mem l hl')) r hr

lemma Chunking.fail_le {size : ℕ} {s : Store} (h : Chunking size s) {c : Chunk}
    (hc : c ∈ s.pool.chunks) : c.fail ≤ 6 := by
  have hfail : c.fail ∈ s.pool.chunks.map Chunk.fail := List.mem_map_of_mem hc
  rw [← List.take_append_drop s.pool.current (s.pool.chunks.map Chunk.fail)] at hfail
  rcases List.mem_append.mp hfail with hfail | hfail
  · exact (h.retirement.retired _ hfail).le
  · exact (h.retirement.few _ hfail).trans (by decide)

lemma Tidy.suits {size : ℕ} {s : Store} {place : Placement} (h : Tidy size s)
    (hsize : size < 2 ^ 64) (hp : Allotted place s.heap) : ∀ f ∈ s.fields place, Suits f := by
  obtain ⟨objs, harranged⟩ := h.arranged
  have howned := harranged.structs_owned h.own_mem
  have hchunk {c : Chunk} (hc : c ∈ s.pool.chunks) : c.fail < 2 ^ 32 ∧
      c.addr.pointer place < 2 ^ 64 ∧ place c.block + c.last < 2 ^ 64 ∧
      place c.block + c.stop < 2 ^ 64 := by
    have hsound := harranged.sound.chunk c hc
    have hupper := hp.upper _ (harranged.chunks _ (List.mem_map.mpr ⟨c, hc, rfl⟩))
    have hlast := hsound.upper
    have hstop := hsound.owned
    have hstart := hp.pointer_lt (harranged.chunk_owned hc hsound.lower)
    have hfail := h.chunking.fail_le hc
    refine ⟨by omega, ?_, by omega, by omega⟩
    simp only [Addr.pointer, Chunk.addr] at hstart ⊢
    omega
  have hheader {l : Large} (hl : l ∈ s.pool.large) : l.header.pointer place < 2 ^ 64 := by
    apply hp.pointer_lt (n := sizeofLarge)
    exact howned _
      (List.mem_cons_of_mem _ (List.mem_append_right _ (List.mem_map.mpr ⟨l, hl, rfl⟩)))
  have hdata {l : Large} (hl : l ∈ s.pool.large) : pointerTo place l.data < 2 ^ 64 := by
    apply pointerTo_lt
    intro a ha
    have hin : a ∈ dataOf s.pool.large := List.mem_filterMap.mpr ⟨l, hl, ha⟩
    apply hp.pointer_lt (n := 0)
    refine ⟨h.entries.live a hin, ?_⟩
    simp only [Region.stop, h.entries.start a hin, Nat.add_zero, Nat.zero_le]
  intro f hf
  obtain ⟨r, hr, hin⟩ := List.mem_flatMap.mp hf
  rcases List.mem_cons.mp hr with rfl | hr
  · have hcurrent : pointerTo place (s.pool.chunks[s.pool.current]?.map Chunk.addr) < 2 ^ 64 := by
      apply pointerTo_lt
      intro a ha
      obtain ⟨c, hc, rfl⟩ := Option.map_eq_some_iff.mp ha
      exact (hchunk (List.mem_of_getElem? hc)).2.1
    have hlarge : pointerTo place (s.pool.large.head?.map Large.header) < 2 ^ 64 := by
      apply pointerTo_lt
      intro a ha
      obtain ⟨l, hl, rfl⟩ := Option.map_eq_some_iff.mp ha
      exact hheader (List.mem_of_mem_head? hl)
    have hall : ∀ f ∈ (s.pool.record place).fields, Suits f := by
      simp only [Pool.record, List.forall_mem_cons]
      exact ⟨suits_word harranged.sound.total, suits_word (h.chunking.max.trans_lt hsize),
        suits_word hcurrent, suits_word hlarge, by simp⟩
    exact hall f hin
  · rcases List.mem_append.mp hr with hr | hr
    · exact chunkRecords_suit (fun c hc => hchunk hc) r hr f hin
    · exact largeRecords_suit (fun l hl => ⟨hheader hl, hdata hl⟩) r hr f hin

/-! ## One call -/

/-- Blocks that have no address in common do not take more than there is. -/
lemma Allotted.sum_lt {place : Placement} {h : Heap} (hp : Allotted place h) (bs : List ℕ)
    (hnodup : bs.Nodup) (hlive : ∀ b ∈ bs, b ∈ h.live) : (bs.map h.size).sum < 2 ^ 64 := by
  let span (b : ℕ) : Finset ℕ := Finset.Ico (place b) (place b + h.size b)
  have hcard : (bs.map h.size).sum = (bs.toFinset.biUnion span).card := by
    rw [Finset.card_biUnion]
    · rw [List.sum_toFinset _ hnodup]
      simp [span]
    · intro b hb b' hb' hne
      have hsides := hp.apart b (hlive b (List.mem_toFinset.mp hb)) b'
        (hlive b' (List.mem_toFinset.mp hb')) hne
      simp only [span, Finset.disjoint_left, Finset.mem_Ico]
      omega
  have hsub : bs.toFinset.biUnion span ⊆ Finset.Ico 1 (2 ^ 64) := by
    intro a ha
    obtain ⟨b, hb, hin⟩ := Finset.mem_biUnion.mp ha
    have hin' := Finset.mem_Ico.mp hin
    have hb' := hlive b (List.mem_toFinset.mp hb)
    have hpos := hp.pos b hb'
    have hupper := hp.upper b hb'
    rw [Finset.mem_Ico]
    omega
  have hle := Finset.card_le_card hsub
  rw [Nat.card_Ico] at hle
  omega

/-- A chunk that `malloc` can place does not make `total` wrap. -/
lemma Chunking.doubles {size n : ℕ} {s : Store} {place : Placement} (h : Chunking size s)
    (hblocks : (s.pool.chunks.map Chunk.block).Nodup)
    (hlive : ∀ b ∈ s.pool.chunks.map Chunk.block, b ∈ s.heap.live) (hn : n ≤ s.pool.total)
    (hp : Allotted place (addMemChunk s n true).2.heap) :
    s.pool.total + s.pool.total < 2 ^ 64 := by
  have hheap : (addMemChunk s n true).2.heap = s.heap.malloc s.pool.total := by
    simp only [addMemChunk, if_true, if_neg (Nat.not_lt.mpr hn)]
  rw [hheap] at hp
  have hnew : s.heap.fresh ∉ s.pool.chunks.map Chunk.block := fun hin => (h.known _ hin).false
  have hsum := hp.sum_lt (s.heap.fresh :: s.pool.chunks.map Chunk.block)
    (List.nodup_cons.mpr ⟨hnew, hblocks⟩) (fun b hb => by
      rcases List.mem_cons.mp hb with rfl | hb
      · exact Finset.mem_insert_self _ _
      · exact Finset.mem_insert_of_mem (hlive b hb))
  have hold : (s.pool.chunks.map Chunk.block).map (s.heap.malloc s.pool.total).size =
      (s.pool.chunks.map Chunk.block).map s.heap.size :=
    List.map_congr_left (fun b hb => size_malloc _ (h.known b hb))
  rw [List.map_cons, List.sum_cons, size_malloc_self, hold, ← h.sum] at hsum
  exact hsum

namespace Tidy

variable {size : ℕ} {s : Store} {place : Placement}

/-- What a call of `pmalloc` adds to `total` does not make it wrap. -/
lemma totalFits (h : Tidy size s) {n : SizeT} {m : Mallocs}
    (hfits : NewChunkFits s (.pmalloc n m)) (hp : Allotted place (pmalloc s n m).2.heap) :
    TotalFits s (.pmalloc n m) := by
  obtain ⟨objs, harranged⟩ := h.arranged
  have hblocks := harranged.regions.blocks
  intro k hk
  have hroom := hfits k hk
  simp only [PoolOp.chunkRequest, Option.mem_def, Option.filter_eq_some_iff, Bool.and_eq_true]
    at hk
  obtain ⟨hrequest, hchunk, hnone⟩ := hk
  have hsmall : ¬ k > s.pool.total := by omega
  rw [if_neg hsmall]
  -- the request that adds the chunk, in the store in which it is made
  have hadds (t : Store) (ht : t.pool = s.pool) :
      pmallocSmall t k true = addMemChunk t k true := by
    rcases pmallocSmall_cases t k true with ⟨i, c, -, -, hsome, -⟩ | ⟨-, hf, -⟩ | ⟨-, -, heq⟩
    · rw [ht, hnone] at hsome
      cases hsome
    · cases hf
    · exact heq
  unfold smallRequest at hrequest
  unfold pmalloc at hp
  split_ifs at hrequest hp with hmax hlarge
  · cases hrequest
    rw [hchunk, hadds s rfl] at hp
    exact h.chunking.doubles hblocks harranged.chunks (by omega) hp
  · cases hrequest
    have hdata : Chunking size (withData s n) :=
      h.chunking.congr rfl rfl ⟨rfl, rfl, rfl, rfl⟩ (fun _ hb => size_malloc _ hb) (Nat.le_succ _)
    have hgrown := hadds (withData s n) rfl
    have hheap : (allocLargeMem s n m).2.heap =
        (addMemChunk (withData s n) sizeofLarge true).2.heap := by
      rw [← hgrown]
      simp only [allocLargeMem, hlarge.1, if_true, hlarge.2, hchunk, hgrown]
      rfl
    rw [hheap] at hp
    exact hdata.doubles (s := withData s n) hblocks
      (fun b hb => Finset.mem_insert_of_mem (harranged.chunks b hb))
      (show sizeofLarge ≤ s.pool.total by omega) hp

lemma pmalloc (h : Tidy size s) {n : SizeT} {m : Mallocs}
    (hfits : NewChunkFits s (.pmalloc n m)) (hp : Allotted place (pmalloc s n m).2.heap) :
    Tidy size (Xpipe.pmalloc s n m).2 := by
  obtain ⟨objs, harranged⟩ := h.arranged
  exact ⟨⟨_, harranged.pmalloc hfits (List.length_replicate (n := n.val) (a := (0 : UInt8)))⟩,
    h.chunking.pmalloc (h.totalFits hfits hp), (h.entries.pmalloc harranged.regions.live n m).1⟩

end Tidy

/-- What `pfree_large` finds: nothing, or an empty entry for NULL, or the data of an entry. -/
lemma pfreeLargeAt_cases (place : Placement) (s : Store) (p : ℕ) :
    ((pfreeLargeAt place s p).2 = s ∧ (p ≠ 0 → (pfreeLargeAt place s p).1 = false ∧
      ∀ a ∈ dataOf s.pool.large, a.pointer place ≠ p)) ∨
    ∃ a ∈ dataOf s.pool.large, a.pointer place = p ∧ pfreeLargeAt place s p = pfreeLarge s a := by
  unfold pfreeLargeAt
  cases hfind : s.pool.large.find? (fun l => pointerTo place l.data = p) with
  | none =>
    refine Or.inl ⟨rfl, fun _ => ⟨rfl, fun a ha hap => ?_⟩⟩
    obtain ⟨l, hl, hdata⟩ := List.mem_filterMap.mp ha
    have hno := List.find?_eq_none.mp hfind l hl
    simp [hdata, pointerTo, hap] at hno
  | some l =>
    have hp : pointerTo place l.data = p := by simpa using List.find?_some hfind
    cases hdata : l.data with
    | none =>
      rw [hdata] at hp
      exact Or.inl ⟨by simp only [hdata], fun hne => absurd hp.symm hne⟩
    | some a =>
      rw [hdata] at hp
      exact Or.inr ⟨a, List.mem_filterMap.mpr ⟨l, List.mem_of_find?_eq_some hfind, hdata⟩, hp,
        by simp only [hdata]⟩

lemma Tidy.pfreeLarge {size : ℕ} {s : Store} (h : Tidy size s) {a : Addr}
    (ha : a ∈ dataOf s.pool.large) : Tidy size (pfreeLarge s a).2 := by
  obtain ⟨objs, harranged⟩ := h.arranged
  obtain ⟨hfound, hentries, -⟩ := h.entries.pfreeLarge ha
  refine ⟨⟨_, harranged.pfreeLarge hfound⟩, ?_, hentries⟩
  exact @poolStep_chunking size s h.chunking (.pfreeLarge a)
    (by simp [TotalFits, PoolOp.chunkRequest])

/-- **One call** leaves the pool in order. -/
lemma callStep_tidy {size : ℕ} {s : Store} {place : Placement} (h : Tidy size s) {c : PoolCall}
    (hfits : c.Fits s) (hp : MallocKeeps place s c) : Tidy size (callStep place s c) := by
  cases c with
  | pmalloc n m => exact h.pmalloc (hfits _ rfl) hp
  | pcalloc n m =>
    have hroom : NewChunkFits s (.pcalloc n m) := hfits _ rfl
    exact h.pmalloc hroom hp
  | pfreeLarge p =>
    simp only [callStep, PoolCall.call]
    rcases pfreeLargeAt_cases place s p with ⟨heq, -⟩ | ⟨a, ha, -, heq⟩
    · rw [heq]
      exact h
    · rw [heq]
      exact h.pfreeLarge ha
  | clear =>
    obtain ⟨objs, harranged⟩ := h.arranged
    exact ⟨⟨_, harranged.clear⟩, h.chunking.clear, Entries.clear s⟩

end Xpipe
