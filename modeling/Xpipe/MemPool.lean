import Xpipe.Bytes

/-!
# The memory pool

`mem_pool.c` over an explicit ledger of `malloc` blocks. An address is a block
and an offset into it. A chunk keeps its room as the two pointers `last` and
`end`; the list of chunks is the pool's own `chunk` followed by the chunks added
later, and `current` is an index into it. A large allocation has its data in a
block of its own and its header in pool memory.

The outcome of each `malloc` is an input. Addresses in different blocks are different
here, and nothing but the calls changes the fields: `PoolImage` places the blocks in one
memory, where the `memset` of `pcalloc` can reach the fields of the pool.
-/
namespace Xpipe

/-- `size_t`. -/
abbrev SizeT := Fin (2 ^ 64)

/-- An address: `off` bytes into the block `block`. -/
structure Addr where
  block : ℕ
  off : ℕ
  deriving DecidableEq, Repr

/-- The ledger of blocks: those that are live, the size each was asked for, and
the arguments given to `free`, newest first, each with whether it was a live
block at that moment. -/
structure Heap where
  fresh : ℕ := 0
  live : Finset ℕ := ∅
  size : ℕ → ℕ := fun _ => 0
  frees : List (Addr × Bool) := []

namespace Heap

/-- A successful `malloc(n)`: a new block, at offset zero. -/
def malloc (h : Heap) (n : ℕ) : Heap :=
  { h with
    fresh := h.fresh + 1, live := insert h.fresh h.live, size := Function.update h.size h.fresh n }

/-- `p` is what `malloc` returned for a block that is still live. -/
def isBlock (h : Heap) (p : Addr) : Bool := p.off = 0 && p.block ∈ h.live

/-- `free(p)`. An argument that is not a live block is recorded as such. -/
def free (h : Heap) (p : Addr) : Heap :=
  { h with
    live := if h.isBlock p then h.live.erase p.block else h.live
    frees := (p, h.isBlock p) :: h.frees }

end Heap

/-- `sizeof(mem_pool_chunk_t)`. -/
def sizeofChunk : ℕ := 32

/-- `sizeof(mem_pool_large_t)`. -/
def sizeofLarge : ℕ := 16

/-- `sizeof(mem_pool_t)`: seven words, then the first chunk. -/
def sizeofPool : ℕ := 88

/-- The offset of `chunk` in `mem_pool_t`. -/
def chunkOffset : ℕ := sizeofPool - sizeofChunk

/-- `MAX_SIZE_OF_CHUNK`. -/
def maxSizeOfChunk : ℕ := 4096

/-- `mem_pool_chunk_t`: the block it lies in, its own offset there, and its
fields. `last` and `stop` (the source's `end`) are offsets into the block. -/
structure Chunk where
  block : ℕ
  base : ℕ
  fail : ℕ
  last : ℕ
  stop : ℕ
  deriving DecidableEq, Repr

namespace Chunk

/-- `(u_char *) p + sizeof(mem_pool_chunk_t)`. -/
def payload (c : Chunk) : ℕ := c.base + sizeofChunk

/-- `(u_char *) chunk->end - p >= size`: a signed difference of pointers, taken
as a `size_t`. -/
def hasRoom (c : Chunk) (n : ℕ) : Bool := n ≤ toSizeT ((c.stop : ℤ) - c.last)

end Chunk

/-- `mem_pool_large_t`: where the header lies, and its data. -/
structure Large where
  header : Addr
  data : Option Addr
  deriving DecidableEq, Repr

/-- `mem_pool_t`, in the block `block`. A pool is at least as large as its own
header, so a large header is always a small request. -/
structure Pool where
  block : ℕ
  total : ℕ
  max : ℕ
  current : ℕ
  chunks : List Chunk
  large : List Large
  header_small : sizeofLarge ≤ max

structure Store where
  heap : Heap
  pool : Pool

/-- `mem_pool_create`, when `malloc` succeeds. -/
def memPoolCreate (size : SizeT) (h : sizeofPool ≤ size.val) : Store where
  heap := ({} : Heap).malloc size
  pool :=
    { block := 0
      total := size
      max := if size.val < maxSizeOfChunk then size else maxSizeOfChunk
      current := 0
      chunks := [⟨0, chunkOffset, 0, sizeofPool, size⟩]
      large := []
      header_small := by
        unfold sizeofPool at h
        unfold sizeofLarge maxSizeOfChunk
        split_ifs <;> omega }

/-- The `do` loop of `pmalloc`: the first chunk with room, and its index. -/
def findRoom (n : ℕ) : List Chunk → ℕ → Option (ℕ × Chunk)
  | [], _ => none
  | c :: cs, i => if c.hasRoom n then some (i, c) else findRoom n cs (i + 1)

/-- The loop of `add_mem_chunk` over the chunks from `current` on, the first of
them at index `i`: each failure is counted, and a chunk in front of another that
has failed often enough is left behind. -/
def countFailures : List Chunk → ℕ → ℕ → List Chunk × ℕ
  | [], _, current => ([], current)
  | [c], _, current => ([{ c with fail := c.fail + 1 }], current)
  | c :: cs, i, current =>
    let r := countFailures cs (i + 1) (if c.fail > 4 then i + 1 else current)
    ({ c with fail := c.fail + 1 } :: r.1, r.2)

/-- `add_mem_chunk`; `ok` is the outcome of its `malloc`. -/
def addMemChunk (s : Store) (n : ℕ) (ok : Bool) : Option Addr × Store :=
  let p := s.pool
  let allocSize := if n > p.total then n else p.total
  if ok then
    let aged := countFailures (p.chunks.drop p.current) p.current p.current
    let chunk : Chunk := ⟨s.heap.fresh, 0, 0, sizeofChunk + n, allocSize⟩
    (some ⟨s.heap.fresh, sizeofChunk⟩,
      { heap := s.heap.malloc allocSize
        pool := { p with
          total := toSizeT (p.total + allocSize)
          current := aged.2
          chunks := p.chunks.take p.current ++ aged.1 ++ [chunk] } })
  else (none, s)

/-- `pmalloc` for a request of at most `max` bytes. -/
def pmallocSmall (s : Store) (n : ℕ) (ok : Bool) : Option Addr × Store :=
  match findRoom n (s.pool.chunks.drop s.pool.current) s.pool.current with
  | some (i, c) =>
    (some ⟨c.block, c.last⟩,
      { s with pool := { s.pool with
          chunks := s.pool.chunks.modify i (fun c => { c with last := c.last + n }) } })
  | none => addMemChunk s n ok

/-- The loop of `alloc_large_mem`: the data goes to an empty header, if one is
among the first five. -/
def reuseHeader (p : Addr) : List Large → ℕ → Option (List Large)
  | [], _ => none
  | l :: ls, n =>
    if l.data = none then some ({ l with data := some p } :: ls)
    else if n > 3 then none
    else (reuseHeader p ls (n + 1)).map (fun ls => l :: ls)

/-- The outcomes of the `malloc` of large data and of the `malloc` of a chunk. -/
structure Mallocs where
  data : Bool
  chunk : Bool
  deriving DecidableEq, Repr

/-- The store after the `malloc` of large data. -/
def withData (s : Store) (n : ℕ) : Store := { s with heap := s.heap.malloc n }

/-- `alloc_large_mem`. -/
def allocLargeMem (s : Store) (n : ℕ) (m : Mallocs) : Option Addr × Store :=
  if m.data then
    let p : Addr := ⟨s.heap.fresh, 0⟩
    match reuseHeader p s.pool.large 0 with
    | some large => (some p, ⟨(withData s n).heap, { s.pool with large := large }⟩)
    | none =>
      let r := pmallocSmall (withData s n) sizeofLarge m.chunk
      match r.1 with
      | none => (none, ⟨r.2.heap.free p, r.2.pool⟩)
      | some a => (some p, ⟨r.2.heap, { r.2.pool with large := ⟨a, some p⟩ :: r.2.pool.large }⟩)
  else (none, s)

/-- `pmalloc`. -/
def pmalloc (s : Store) (n : SizeT) (m : Mallocs) : Option Addr × Store :=
  if n.val ≤ s.pool.max then pmallocSmall s n m.chunk else allocLargeMem s n m

/-- `pcalloc`, as far as the fields go. The bytes that it clears are in `PoolImage.stored`. -/
def pcalloc (s : Store) (n : SizeT) (m : Mallocs) : Option Addr × Store := pmalloc s n m

/-- The search of `pfree_large`: the headers with the data `p` taken out. -/
def dropData (p : Addr) : List Large → Option (List Large)
  | [] => none
  | l :: ls =>
    if l.data = some p then some ({ l with data := none } :: ls)
    else (dropData p ls).map (fun ls => l :: ls)

/-- `pfree_large`; the flag is `XPE_OK`. -/
def pfreeLarge (s : Store) (p : Addr) : Bool × Store :=
  match dropData p s.pool.large with
  | some large => (true, ⟨s.heap.free p, { s.pool with large := large }⟩)
  | none => (false, s)

/-- The loop over `pool->large` in `mem_pool_clear` and `mem_pool_destroy`: it is
the headers that are freed. -/
def freeLarge (h : Heap) (large : List Large) : Heap :=
  large.foldl (fun h l => h.free l.header) h

/-- `mem_pool_clear`. -/
def memPoolClear (s : Store) : Store where
  heap := freeLarge s.heap s.pool.large
  pool := { s.pool with
    large := []
    current := 0
    chunks := s.pool.chunks.map (fun c => { c with fail := 0, last := c.payload }) }

/-- `mem_pool_destroy`: the ledger it leaves. -/
def memPoolDestroy (s : Store) : Heap :=
  let h := freeLarge s.heap s.pool.large
  let h := s.pool.chunks.tail.foldl (fun h c => h.free ⟨c.block, 0⟩) h
  h.free ⟨s.pool.block, 0⟩

/-- The calls a user of a pool can make. -/
inductive PoolOp
  | pmalloc (n : SizeT) (m : Mallocs)
  | pcalloc (n : SizeT) (m : Mallocs)
  | pfreeLarge (p : Addr)
  | clear
  deriving DecidableEq

/-- The effect of a call, and the region it returns. -/
def PoolOp.call (s : Store) : PoolOp → Option Addr × Store
  | .pmalloc n m => Xpipe.pmalloc s n m
  | .pcalloc n m => Xpipe.pcalloc s n m
  | .pfreeLarge p => (none, (Xpipe.pfreeLarge s p).2)
  | .clear => (none, memPoolClear s)

/-- The number of bytes a call asks for. -/
def PoolOp.size : PoolOp → ℕ
  | .pmalloc n _ => n
  | .pcalloc n _ => n
  | _ => 0

def poolStep (s : Store) (op : PoolOp) : Store := (op.call s).2

end Xpipe
