import Xpipe.PoolBounds

/-!
# What the pool gives back

`mem_pool_clear` and `mem_pool_destroy` walk the list of large blocks and free
its headers, which lie inside the pool's own chunks, where they mean to free the
data. So the ledger of a pool balances exactly when no large block was ever
granted (`poolLedger_iff`).
-/
namespace Xpipe
open Runs

/-- `mem_pool_clear` frees exactly the live large data blocks. -/
def ClearsData (s : Store) : Prop :=
  ∃ fs, (memPoolClear s).heap.frees = fs ++ s.heap.frees ∧
    fs.Perm ((s.pool.large.filterMap Large.data).map (fun p => (p, true)))

/-- The ledger of a run that ends with `mem_pool_destroy` balances: only live
blocks are freed, none twice, none is left, and every `mem_pool_clear` on the
way frees the large data and nothing else. -/
structure Released (s : Store) (ops : List PoolOp) : Prop where
  valid : ∀ f ∈ (memPoolDestroy (ops.foldl poolStep s)).frees, f.2 = true
  once : ((memPoolDestroy (ops.foldl poolStep s)).frees.map Prod.fst).Nodup
  empty : (memPoolDestroy (ops.foldl poolStep s)).live = ∅
  clears : Along poolStep (fun s op => op = .clear → ClearsData s) s ops

/-- A request above `max` whose data is there, and for whose header there is an
empty one, room in a chunk or a new chunk. -/
def grantsLarge (s : Store) (n : SizeT) (m : Mallocs) : Bool :=
  s.pool.max < n.val && m.data && ((reuseHeader ⟨s.heap.fresh, 0⟩ s.pool.large 0).isSome ||
    !noRoom s.pool sizeofLarge || m.chunk)

/-- The call grants a large block. -/
def PoolOp.GrantsLarge (s : Store) : PoolOp → Prop
  | .pmalloc n m => grantsLarge s n m = true
  | .pcalloc n m => grantsLarge s n m = true
  | _ => False

instance (s : Store) : (op : PoolOp) → Decidable (op.GrantsLarge s)
  | .pmalloc n m => inferInstanceAs (Decidable (grantsLarge s n m = true))
  | .pcalloc n m => inferInstanceAs (Decidable (grantsLarge s n m = true))
  | .pfreeLarge _ => .isFalse id
  | .clear => .isFalse id

/-! ## Without large blocks the ledger balances -/

/-- A ledger in which every block freed was live, and is gone for good. -/
structure Heap.Settled (h : Heap) : Prop where
  valid : ∀ f ∈ h.frees, f.2 = true
  gone : ∀ f ∈ h.frees, f.1.off = 0 ∧ f.1.block ∉ h.live ∧ f.1.block < h.fresh
  once : (h.frees.map Prod.fst).Nodup
  known : ∀ b ∈ h.live, b < h.fresh

lemma Heap.Settled.malloc {h : Heap} (hs : h.Settled) (n : ℕ) : (h.malloc n).Settled := by
  refine ⟨hs.valid, ?_, hs.once, ?_⟩
  · intro f hf
    obtain ⟨hoff, hlive, hlt⟩ := hs.gone f hf
    refine ⟨hoff, ?_, by simp only [Heap.malloc]; omega⟩
    simp only [Heap.malloc, Finset.mem_insert, not_or]
    exact ⟨by omega, hlive⟩
  · intro b hb
    simp only [Heap.malloc, Finset.mem_insert] at hb ⊢
    rcases hb with rfl | hb
    · omega
    · have := hs.known b hb
      omega

lemma Heap.Settled.free {h : Heap} (hs : h.Settled) {b : ℕ} (hb : b ∈ h.live) :
    (h.free ⟨b, 0⟩).Settled ∧ (h.free ⟨b, 0⟩).live = h.live.erase b := by
  have hblock : h.isBlock ⟨b, 0⟩ = true := by simp [Heap.isBlock, hb]
  have hlive : (h.free ⟨b, 0⟩).live = h.live.erase b := by simp [Heap.free, hblock]
  refine ⟨⟨?_, ?_, ?_, ?_⟩, hlive⟩
  · intro f hf
    rcases List.mem_cons.mp hf with rfl | hf
    · exact hblock
    · exact hs.valid f hf
  · intro f hf
    rw [hlive]
    rcases List.mem_cons.mp hf with rfl | hf
    · exact ⟨rfl, by simp, hs.known b hb⟩
    · obtain ⟨hoff, hgone, hlt⟩ := hs.gone f hf
      exact ⟨hoff, fun hin => hgone (Finset.mem_of_mem_erase hin), hlt⟩
  · -- a block in the list of frees is not live, so this one is new there
    rw [show (h.free ⟨b, 0⟩).frees.map Prod.fst = ⟨b, 0⟩ :: h.frees.map Prod.fst from rfl,
      List.nodup_cons]
    refine ⟨fun hin => ?_, hs.once⟩
    obtain ⟨f, hf, hfb⟩ := List.mem_map.mp hin
    have hgone := (hs.gone f hf).2.1
    rw [hfb] at hgone
    exact hgone hb
  · intro c hc
    rw [hlive] at hc
    exact hs.known c (Finset.mem_of_mem_erase hc)

/-- Freeing a list of distinct live blocks takes exactly these from the ledger. -/
lemma settled_foldl_free {h : Heap} (hs : h.Settled) (cs : List Chunk)
    (hnodup : (cs.map Chunk.block).Nodup) (hlive : ∀ c ∈ cs, c.block ∈ h.live) :
    (cs.foldl (fun h c => h.free ⟨c.block, 0⟩) h).Settled ∧
      (cs.foldl (fun h c => h.free ⟨c.block, 0⟩) h).live =
        h.live \ (cs.map Chunk.block).toFinset := by
  induction cs generalizing h with
  | nil => simpa using hs
  | cons c cs ih =>
    rw [List.map_cons, List.nodup_cons] at hnodup
    obtain ⟨hset, herase⟩ := hs.free (hlive c (by simp))
    obtain ⟨hset', hlive'⟩ := ih hset hnodup.2 (fun d hd => by
      rw [herase, Finset.mem_erase]
      refine ⟨fun heq => hnodup.1 ?_, hlive d (by simp [hd])⟩
      exact heq ▸ List.mem_map_of_mem hd)
    refine ⟨hset', ?_⟩
    rw [List.foldl_cons, hlive', herase, List.map_cons, List.toFinset_cons]
    ext b
    simp only [Finset.mem_sdiff, Finset.mem_erase, Finset.mem_insert]
    tauto

/-- The live blocks are those of the chunks, and no large block was granted. -/
structure Ledger (s : Store) : Prop where
  settled : s.heap.Settled
  live : s.heap.live = (s.pool.chunks.map Chunk.block).toFinset
  nodup : (s.pool.chunks.map Chunk.block).Nodup
  own : (s.pool.chunks.map Chunk.block).head? = some s.pool.block
  large : s.pool.large = []

lemma memPoolCreate_ledger (size : SizeT) (h : sizeofPool ≤ size.val) :
    Ledger (memPoolCreate size h) := by
  have hempty : ({} : Heap).Settled := ⟨by simp, by simp, by simp, by simp⟩
  exact ⟨hempty.malloc _, by simp [memPoolCreate, Heap.malloc], by simp [memPoolCreate], rfl, rfl⟩

lemma Ledger.block_lt {s : Store} (hl : Ledger s) {b : ℕ}
    (hb : b ∈ s.pool.chunks.map Chunk.block) : b < s.heap.fresh :=
  hl.settled.known b (by rw [hl.live, List.mem_toFinset]; exact hb)

lemma pmallocSmall_ledger {s : Store} (hl : Ledger s) (n : ℕ) (ok : Bool) :
    Ledger (pmallocSmall s n ok).2 := by
  rcases pmallocSmall_cases s n ok with ⟨i, c, -, -, -, heq⟩ | ⟨-, -, heq⟩ | ⟨-, -, heq⟩
  · have hblocks := map_block_modify s.pool.chunks i n
    rw [heq]
    refine ⟨hl.settled, ?_, ?_, ?_, hl.large⟩
    · rw [hblocks]
      exact hl.live
    · rw [hblocks]
      exact hl.nodup
    · rw [hblocks]
      exact hl.own
  · rw [heq]
    exact hl
  · have hblocks := map_block_addMemChunk s n
    rw [heq]
    refine ⟨hl.settled.malloc _, ?_, ?_, ?_, hl.large⟩
    · rw [hblocks]
      simp only [addMemChunk, if_true, Heap.malloc, hl.live]
      ext b
      simp only [Finset.mem_insert, List.mem_toFinset, List.mem_append, List.mem_singleton]
      tauto
    · rw [hblocks, List.nodup_append]
      refine ⟨hl.nodup, by simp, ?_⟩
      intro b hb c hc
      have := hl.block_lt hb
      rw [List.mem_singleton] at hc
      omega
    · rw [hblocks, List.head?_append, hl.own]
      rfl

/-- A large request that is not granted leaves the ledger as it was. -/
lemma allocLargeMem_ledger {s : Store} (hl : Ledger s) (n : ℕ) (m : Mallocs)
    (hno : m.data = true → noRoom s.pool sizeofLarge = true ∧ m.chunk = false) :
    Ledger (allocLargeMem s n m).2 := by
  obtain ⟨data, chunk⟩ := m
  cases data with
  | false => exact hl
  | true =>
    obtain ⟨hroom, hchunk⟩ := hno rfl
    simp only at hchunk
    subst hchunk
    have hreuse : reuseHeader ⟨s.heap.fresh, 0⟩ s.pool.large 0 = none := by
      rw [hl.large]
      rfl
    have hfind : findRoom sizeofLarge (s.pool.chunks.drop s.pool.current) s.pool.current = none := by
      simpa [noRoom] using hroom
    have hsmall : pmallocSmall (withData s n) sizeofLarge false = (none, withData s n) := by
      simp only [pmallocSmall, withData, hfind]
      rfl
    simp only [allocLargeMem, if_true, hreuse, hsmall]
    have hmem : s.heap.fresh ∈ (s.heap.malloc n).live := by simp [Heap.malloc]
    obtain ⟨hsettled, hlive⟩ := (hl.settled.malloc n).free hmem
    refine ⟨hsettled, ?_, hl.nodup, hl.own, hl.large⟩
    have hfresh : s.heap.fresh ∉ s.heap.live := fun h => (hl.settled.known _ h).false
    calc ((s.heap.malloc n).free ⟨s.heap.fresh, 0⟩).live
        = (insert s.heap.fresh s.heap.live).erase s.heap.fresh := hlive
      _ = s.heap.live := Finset.erase_insert hfresh
      _ = _ := hl.live

lemma pmalloc_ledger {s : Store} (hl : Ledger s) (n : SizeT) (m : Mallocs)
    (hno : ¬ grantsLarge s n m = true) : Ledger (pmalloc s n m).2 := by
  unfold pmalloc
  split_ifs with hsmall
  · exact pmallocSmall_ledger hl n m.chunk
  · refine allocLargeMem_ledger hl n m (fun hdata => ?_)
    simpa [grantsLarge, hdata, Nat.lt_of_not_le hsmall, hl.large, reuseHeader] using hno

lemma memPoolClear_ledger {s : Store} (hl : Ledger s) : Ledger (memPoolClear s) := by
  have hblocks : (memPoolClear s).pool.chunks.map Chunk.block = s.pool.chunks.map Chunk.block := by
    simp [memPoolClear, Function.comp_def]
  have hheap : (memPoolClear s).heap = s.heap := by simp [memPoolClear, hl.large, freeLarge]
  exact ⟨hheap ▸ hl.settled, by rw [hblocks, hheap]; exact hl.live, hblocks ▸ hl.nodup,
    by rw [hblocks]; exact hl.own, rfl⟩

lemma poolStep_ledger {s : Store} (hl : Ledger s) (op : PoolOp) (hno : ¬ op.GrantsLarge s) :
    Ledger (poolStep s op) := by
  cases op with
  | pmalloc n m => exact pmalloc_ledger hl n m hno
  | pcalloc n m => exact pmalloc_ledger hl n m hno
  | pfreeLarge p =>
    have hsame : pfreeLarge s p = (false, s) := by simp [pfreeLarge, hl.large, dropData]
    rw [poolStep, PoolOp.call, hsame]
    exact hl
  | clear => exact memPoolClear_ledger hl

lemma Ledger.clearsData {s : Store} (hl : Ledger s) : ClearsData s :=
  ⟨[], by simp [memPoolClear, hl.large, freeLarge], by simp [hl.large]⟩

/-- `mem_pool_destroy` gives back all that a pool without large blocks has. -/
lemma Ledger.destroy {s : Store} (hl : Ledger s) :
    (memPoolDestroy s).Settled ∧ (memPoolDestroy s).live = ∅ := by
  obtain ⟨c, cs, hchunks⟩ : ∃ c cs, s.pool.chunks = c :: cs := by
    cases hc : s.pool.chunks with
    | nil => simpa [hc] using hl.own
    | cons c cs => exact ⟨c, cs, rfl⟩
  have hown : c.block = s.pool.block := by simpa [hchunks] using hl.own
  have hlive : s.heap.live = insert c.block (cs.map Chunk.block).toFinset := by
    rw [hl.live, hchunks, List.map_cons, List.toFinset_cons]
  have hnodup := hl.nodup
  rw [hchunks, List.map_cons, List.nodup_cons] at hnodup
  obtain ⟨hsettled, hrest⟩ := settled_foldl_free hl.settled cs hnodup.2 (fun d hd => by
    rw [hlive]
    simp only [Finset.mem_insert, List.mem_toFinset]
    exact Or.inr (List.mem_map_of_mem hd))
  have hsingle : (cs.foldl (fun h c => h.free ⟨c.block, 0⟩) s.heap).live = {c.block} := by
    rw [hrest, hlive]
    ext b
    simp only [Finset.mem_sdiff, Finset.mem_insert, List.mem_toFinset, Finset.mem_singleton]
    constructor
    · tauto
    · rintro rfl
      exact ⟨Or.inl rfl, hnodup.1⟩
  have hdestroy : memPoolDestroy s =
      (cs.foldl (fun h c => h.free ⟨c.block, 0⟩) s.heap).free ⟨c.block, 0⟩ := by
    simp [memPoolDestroy, freeLarge, hl.large, hchunks, hown]
  obtain ⟨hlast, hempty⟩ := hsettled.free (b := c.block) (by simp [hsingle])
  rw [hdestroy, hempty, hsingle]
  exact ⟨hlast, by simp⟩

/-! ## A large block spoils the ledger -/

/-- Headers lie inside chunks, never at the start of a block. -/
structure Inner (s : Store) : Prop where
  header : ∀ a ∈ s.pool.large.map Large.header, 0 < a.off
  last : ∀ c ∈ s.pool.chunks, 0 < c.last

/-- The ledger is spoilt, or a header is there to spoil it. -/
def Spoilt (s : Store) : Prop := (∃ f ∈ s.heap.frees, f.2 = false) ∨ s.pool.large ≠ []

lemma free_inner (h : Heap) {p : Addr} (hp : 0 < p.off) :
    ∃ f ∈ (h.free p).frees, f.2 = false := by
  refine ⟨(p, h.isBlock p), by simp [Heap.free], ?_⟩
  have : p.off ≠ 0 := by omega
  simp [Heap.isBlock, this]

lemma free_keeps {h : Heap} (p : Addr) (hf : ∃ f ∈ h.frees, f.2 = false) :
    ∃ f ∈ (h.free p).frees, f.2 = false := by
  obtain ⟨f, hmem, hbad⟩ := hf
  exact ⟨f, List.mem_cons_of_mem _ hmem, hbad⟩

/-- Freeing headers spoils the ledger. -/
lemma freeLarge_spoils {s : Store} (hi : Inner s) (hs : Spoilt s) :
    ∃ f ∈ (freeLarge s.heap s.pool.large).frees, f.2 = false := by
  have hkeep (ls : List Large) (h : Heap) (hf : ∃ f ∈ h.frees, f.2 = false) :
      ∃ f ∈ (freeLarge h ls).frees, f.2 = false := by
    induction ls generalizing h with
    | nil => exact hf
    | cons l ls ih => exact ih _ (free_keeps l.header hf)
  rcases hs with hs | hs
  · exact hkeep _ _ hs
  · obtain ⟨l, ls, hlarge⟩ := List.exists_cons_of_ne_nil hs
    rw [hlarge]
    exact hkeep ls _ (free_inner _ (hi.header l.header (by simp [hlarge])))

lemma destroy_spoils {s : Store} (hi : Inner s) (hs : Spoilt s) :
    ∃ f ∈ (memPoolDestroy s).frees, f.2 = false := by
  have hlarge := freeLarge_spoils hi hs
  have hkeep (cs : List Chunk) (h : Heap) (hf : ∃ f ∈ h.frees, f.2 = false) :
      ∃ f ∈ (cs.foldl (fun h c => h.free ⟨c.block, 0⟩) h).frees, f.2 = false := by
    induction cs generalizing h with
    | nil => exact hf
    | cons c cs ih => exact ih _ (free_keeps _ hf)
  exact free_keeps _ (hkeep _ _ hlarge)

lemma reuseHeader_headers {p : Addr} {ls ls' : List Large} {n : ℕ}
    (h : reuseHeader p ls n = some ls') : ls'.map Large.header = ls.map Large.header := by
  induction ls generalizing n ls' with
  | nil => simp [reuseHeader] at h
  | cons l ls ih =>
    simp only [reuseHeader] at h
    split_ifs at h
    · cases h
      rfl
    · obtain ⟨rest, hrest, rfl⟩ := Option.map_eq_some_iff.mp h
      simp [ih hrest]

lemma dropData_headers {p : Addr} {ls ls' : List Large} (h : dropData p ls = some ls') :
    ls'.map Large.header = ls.map Large.header := by
  induction ls generalizing ls' with
  | nil => simp [dropData] at h
  | cons l ls ih =>
    simp only [dropData] at h
    split_ifs at h
    · cases h
      rfl
    · obtain ⟨rest, hrest, rfl⟩ := Option.map_eq_some_iff.mp h
      simp [ih hrest]

lemma pmallocSmall_inner {s : Store} (hi : Inner s) (n : ℕ) (ok : Bool) :
    Inner (pmallocSmall s n ok).2 ∧ (pmallocSmall s n ok).2.heap.frees = s.heap.frees ∧
      (pmallocSmall s n ok).2.pool.large = s.pool.large ∧
      (∀ a, (pmallocSmall s n ok).1 = some a → 0 < a.off) ∧
      ((pmallocSmall s n ok).1.isSome = true ↔ noRoom s.pool n = false ∨ ok = true) := by
  rcases pmallocSmall_cases s n ok with
    ⟨i, c, hget, -, hroom, heq⟩ | ⟨hroom, hok, heq⟩ | ⟨hroom, hok, heq⟩
  · have hc := hi.last c (List.mem_of_getElem? hget)
    rw [heq]
    refine ⟨⟨hi.header, fun d hd => ?_⟩, rfl, rfl, ?_, by simp [hroom]⟩
    · rcases mem_modify hd with hd | ⟨e, he, rfl⟩
      · exact hi.last d hd
      · exact Nat.add_pos_left (hi.last e (List.mem_of_getElem? he)) n
    · rintro a h
      cases h
      exact hc
  · rw [heq]
    exact ⟨hi, rfl, rfl, by simp, by simp [hroom, hok]⟩
  · rw [heq]
    refine ⟨⟨hi.header, fun d hd => ?_⟩, rfl, rfl, ?_, ?_⟩
    · rw [addMemChunk_chunks] at hd
      simp only [List.mem_append, List.mem_map, List.mem_singleton] at hd
      rcases hd with (hd | ⟨e, he, rfl⟩) | rfl
      · exact hi.last d (List.mem_of_mem_take hd)
      · exact hi.last e (List.mem_of_mem_drop he)
      · simp [sizeofChunk]
    · rintro a h
      cases h
      simp [sizeofChunk]
    · exact iff_of_true rfl (Or.inr hok)

/-- A large request keeps the headers inner and the ledger spoilt, and spoils it
when it is granted. -/
lemma allocLargeMem_spoilt {s : Store} (hi : Inner s) (n : ℕ) (m : Mallocs) :
    Inner (allocLargeMem s n m).2 ∧ (Spoilt s → Spoilt (allocLargeMem s n m).2) ∧
      (m.data = true → ((reuseHeader ⟨s.heap.fresh, 0⟩ s.pool.large 0).isSome = true ∨
        noRoom s.pool sizeofLarge = false ∨ m.chunk = true) →
        (allocLargeMem s n m).2.pool.large ≠ []) := by
  have hdata : Inner (withData s n) := ⟨hi.header, hi.last⟩
  obtain ⟨hinner, hfrees, hlarge, hoff, hsome⟩ := pmallocSmall_inner hdata sizeofLarge m.chunk
  rcases allocLargeMem_cases s n m with
    ⟨hno, heq⟩ | ⟨large, -, hreuse, heq⟩ | ⟨s', -, hreuse, hsmall, heq⟩ | ⟨a, s', -, -, hsmall, heq⟩
  · rw [heq]
    exact ⟨hi, id, fun hm => by simp [hno] at hm⟩
  · have hheaders := reuseHeader_headers hreuse
    have hne : large ≠ [] := by
      rintro rfl
      have hnil : s.pool.large = [] := by simpa using hheaders.symm
      simp [hnil, reuseHeader] at hreuse
    rw [heq]
    exact ⟨⟨hheaders ▸ hi.header, hi.last⟩, fun _ => Or.inr hne, fun _ _ => hne⟩
  · rw [hsmall] at hinner hfrees hlarge hsome
    rw [heq]
    refine ⟨⟨hinner.header, hinner.last⟩, ?_, fun _ hgrant => ?_⟩
    · rintro (hbad | hne)
      · exact Or.inl (free_keeps _ (hfrees ▸ hbad))
      · exact Or.inr (hlarge ▸ hne)
    · rw [hreuse] at hgrant
      have hroom := hsome.mpr (hgrant.resolve_left (by simp))
      cases hroom
  · rw [hsmall] at hinner hoff
    rw [heq]
    refine ⟨⟨?_, hinner.last⟩, fun _ => Or.inr (by simp), fun _ _ => by simp⟩
    intro b hb
    simp only [List.map_cons, List.mem_cons] at hb
    rcases hb with rfl | hb
    · exact hoff _ rfl
    · exact hinner.header b hb

lemma pmalloc_spoilt {s : Store} (hi : Inner s) (n : SizeT) (m : Mallocs) :
    Inner (pmalloc s n m).2 ∧ (Spoilt s → Spoilt (pmalloc s n m).2) ∧
      (grantsLarge s n m = true → Spoilt (pmalloc s n m).2) := by
  unfold pmalloc
  split_ifs with hsmall
  · obtain ⟨hinner, hfrees, hlarge, -⟩ := pmallocSmall_inner hi n m.chunk
    refine ⟨hinner, ?_, ?_⟩
    · unfold Spoilt
      rw [hfrees, hlarge]
      exact id
    · intro hgrant
      simp only [grantsLarge, Bool.and_eq_true, decide_eq_true_eq] at hgrant
      omega
  · obtain ⟨hinner, hkeep, hgrant⟩ := allocLargeMem_spoilt hi n m
    refine ⟨hinner, hkeep, fun h => Or.inr ?_⟩
    simp only [grantsLarge, Bool.and_eq_true, Bool.or_eq_true, Bool.not_eq_true'] at h
    exact hgrant h.1.2 (or_assoc.mp h.2)

/-- Every call keeps a spoilt ledger spoilt, and granting a large block spoils it. -/
lemma poolStep_spoilt {s : Store} (hi : Inner s) (op : PoolOp) :
    Inner (poolStep s op) ∧ (Spoilt s → Spoilt (poolStep s op)) ∧
      (op.GrantsLarge s → Spoilt (poolStep s op)) := by
  cases op with
  | pmalloc n m => exact pmalloc_spoilt hi n m
  | pcalloc n m => exact pmalloc_spoilt hi n m
  | pfreeLarge p =>
    simp only [poolStep, PoolOp.call, pfreeLarge]
    split
    · rename_i large hdrop
      have hheaders := dropData_headers hdrop
      refine ⟨⟨hheaders ▸ hi.header, hi.last⟩, ?_, False.elim⟩
      rintro (hbad | hne)
      · exact Or.inl (free_keeps p hbad)
      · refine Or.inr ?_
        rintro rfl
        exact hne (by simpa using hheaders.symm)
    · exact ⟨hi, id, False.elim⟩
  | clear =>
    refine ⟨⟨by simp [poolStep, PoolOp.call, memPoolClear], ?_⟩, ?_, False.elim⟩
    · intro c hc
      obtain ⟨d, -, rfl⟩ := List.mem_map.mp hc
      simp [Chunk.payload, sizeofChunk]
    · exact fun hs => Or.inl (freeLarge_spoils hi hs)

/-- **The ledger of a pool balances exactly when no large block is granted**, in every run in
which each chunk that is added has room for its header. -/
theorem poolLedger_iff (size : SizeT) (hsize : sizeofPool ≤ size.val) (ops : List PoolOp)
    (hroom : Along poolStep NewChunkFits (memPoolCreate size hsize) ops) :
    Released (memPoolCreate size hsize) ops ↔
      Along poolStep (fun s op => ¬ op.GrantsLarge s) (memPoolCreate size hsize) ops := by
  have hledger := memPoolCreate_ledger size hsize
  constructor
  · intro hreleased
    have hinner : Inner (memPoolCreate size hsize) :=
      ⟨by simp [memPoolCreate], by simp [memPoolCreate, sizeofPool]⟩
    refine along_not_of_final (I := Inner) (W := Spoilt)
      (fun s op hi _ => (poolStep_spoilt hi op).1) (fun s op hi _ => (poolStep_spoilt hi op).2.2)
      (fun s op hi _ => (poolStep_spoilt hi op).2.1) hinner hroom (fun hspoilt => ?_)
    have hend : Inner (ops.foldl poolStep (memPoolCreate size hsize)) :=
      invariant_foldl (I := Inner) (fun s op hi _ => (poolStep_spoilt hi op).1) hinner hroom
    obtain ⟨f, hf, hbad⟩ := destroy_spoils hend hspoilt
    exact absurd (hreleased.valid f hf) (by simp [hbad])
  · intro hrun
    have hkeep : ∀ s op, Ledger s → ¬ op.GrantsLarge s → Ledger (poolStep s op) :=
      fun s op hl hno => poolStep_ledger hl op hno
    obtain ⟨hsettled, hempty⟩ := (invariant_foldl hkeep hledger hrun).destroy
    have hclears : Along poolStep (fun s op => op = .clear → ClearsData s)
        (memPoolCreate size hsize) ops :=
      along_mono (P := fun s op => op = .clear → ClearsData s) hkeep
        (fun s op hl _ _ => hl.clearsData) hledger hrun
    exact ⟨hsettled.valid, hsettled.once, hempty, hclears⟩

/-- A pool of 1024 bytes from which two small regions are taken. -/
theorem poolLedger_small :
    Released (memPoolCreate 1024 (by decide))
      [.pmalloc 512 ⟨true, true⟩, .pmalloc 512 ⟨true, true⟩, .clear] :=
  (poolLedger_iff 1024 (by decide) _ (by decide)).mpr (by decide)

/-- Destroying a pool of 1024 bytes that has granted 2000 bytes frees an address
inside the pool. -/
theorem poolLedger_large :
    ¬ ∀ (size : SizeT) (hsize : sizeofPool ≤ size.val) (ops : List PoolOp),
      Released (memPoolCreate size hsize) ops := by
  intro h
  have hvalid := (h 1024 (by decide) [.pmalloc 2000 ⟨true, true⟩]).valid
  revert hvalid
  decide

end Xpipe
