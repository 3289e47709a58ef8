import Xpipe.Reassembly
import Xpipe.BufferMemory

/-!
# The receive chain in memory

The blocks of a request as bytes of its pool. `initInMemory` takes the request and its first
block from a new pool, and `recvInMemory` makes the stores that `tcp_server_recv`, the parser
and `tcp_request_process` make for each read. `tcp_request_t` starts with the pointers to the
first block and to the last; `Shown` says that what they lead to is the linked request.
-/
namespace Xpipe

/-- A linked request, and the memory of its pool. -/
structure RequestMemory where
  request : Chained
  memory : PoolMemory

/-- The number of blocks behind the first one. -/
def Chained.further (r : Chained) : ℕ := r.blocks.length - 1

/-- The object of block `k` when there are `n` further blocks; the newest object comes first. -/
def blockIndex (n k : ℕ) : ℕ := if k = 0 then n + 2 else n - k

/-- The object of `protocol_t`, and that of `tcp_request_t`. -/
def protocolIndex (n : ℕ) : ℕ := n
def requestIndex (n : ℕ) : ℕ := n + 3

/-- The offsets at which one call of the parser finds the end of the numeral; it stores NUL
in front of each. -/
def scanStores (w : Layout) (blk : ℕ) : ℕ → ℕ → Scan → List ℕ
  | 0, _, _ => []
  | n + 1, off, s =>
    let c := (received s.buffers blk)[off]?.getD NUL
    let stores := if s.state = .dataLenCr ∧ c = LF then [off] else []
    match scanByte w blk off c (s.touch blk off) with
    | .error _ => stores
    | .ok s => stores ++ scanStores w blk n (off + 1) s

/-- The offsets for the call that follows a read of `chunk`. -/
def Chained.stores (w : Layout) (r : Chained) (chunk : List UInt8) : List ℕ :=
  let blocks := r.blocks.modify r.lastBuffer (fun b => { b with bytes := b.bytes ++ chunk })
  scanStores w r.lastBuffer chunk.length (received r.blocks r.lastBuffer).length
    ⟨blocks, r.protocol, r.protocol.state, r.protocol.tmpDataLen⟩

/-- What a read and the calls behind it bring: the bytes, what `protocol_t` holds afterwards,
and for a new block the outcome of `malloc` and the contents of its memory. -/
structure ReadInput where
  chunk : List UInt8
  protocol : List UInt8
  malloc : Mallocs
  junk : Cells

/-- Where block `k` is. -/
def RequestMemory.addr (s : RequestMemory) (k : ℕ) : Addr :=
  (s.memory.objs[blockIndex s.request.further k]?.map Obj.addr).getD ⟨0, 0⟩

/-- The stores of one read: the bytes, those of the parser, and `b->last += n`. -/
def readStores (w : Layout) (place : ℕ → ℕ) (s : RequestMemory) (i : ReadInput) : List MemOp :=
  let k := s.request.lastBuffer
  let n := s.request.further
  let last := (received s.request.blocks k).length
  [.store (blockIndex n k) (bufferHeader + last) i.chunk] ++
    (s.request.stores w i.chunk).map (fun off => .store (blockIndex n k) (31 + off) [NUL]) ++
    [.store (protocolIndex n) 0 i.protocol,
      .store (blockIndex n k) 16
        (pointer ((s.addr k).value place + bufferHeader + last + i.chunk.length))]

/-- The stores for a new block, which `pmalloc` has just returned: its `buffer_t`, the field
`next` of the block that was the last, and `last_buffer`. -/
def linkStores (place : ℕ → ℕ) (a : Addr) (n k : ℕ) : List MemOp :=
  [.store 0 0 (bufferBytes (a.value place) bufferMinSize),
    .store (blockIndex (n + 1) k) 24 (pointer (a.value place)),
    .store (requestIndex (n + 1)) 8 (pointer (a.value place))]

/-- `tcp_request_process` after OK; NULL ends the request. -/
def growInMemory (place : ℕ → ℕ) (s : RequestMemory) (i : ReadInput) : Option RequestMemory :=
  if fullAt s.request.blocks s.request.lastBuffer then
    let size := sizeT (bufferMinSize + bufferHeader)
    (pmalloc s.memory.store size i.malloc).1.map (fun a =>
      ⟨s.request.link, (linkStores place a s.request.further s.request.lastBuffer).foldl memStep
        (s.memory.pmalloc size i.malloc i.junk)⟩)
  else some s

/-- The reads of a request until the first result other than OK. -/
def recvInMemory (w : Layout) (place : ℕ → ℕ) :
    RequestMemory → List ReadInput → Option (Code × RequestMemory)
  | s, [] => some (.ok, s)
  | s, i :: is =>
    let p := s.request.parse w i.chunk
    let s' : RequestMemory := ⟨s.request.after p, (readStores w place s i).foldl memStep s.memory⟩
    if p.code = .ok then (growInMemory place s' i).bind (fun s => recvInMemory w place s is)
    else some (p.code, s')

/-- What `tcp_request_init` finds: the outcome of each `malloc`, the contents of the memory,
and the pointers that it copies into the other fields of `tcp_request_t`. -/
structure InitInput where
  malloc : ℕ → Mallocs
  cells : Cells
  junk : ℕ → Cells
  conn : ℕ
  pool : ℕ
  logger : ℕ
  parser : ℕ

/-- The stores into `tcp_request_t` for the response block, and for `conn`, `done`, `finish`,
`error`, `pool` and `logger`. -/
def requestStores (i : InitInput) (response : ℕ) : List (ℕ × List UInt8) :=
  [(16, pointer response), (24, pointer response), (32, pointer i.conn), (56, leBytes 4 0),
    (60, leBytes 4 0), (64, leBytes 4 0), (72, pointer i.pool), (80, pointer i.logger)]

/-- Those of `protocol_init`. -/
def protocolStores (i : InitInput) (protocol : ℕ) : List (ℕ × List UInt8) :=
  [(40, pointer protocol), (48, pointer i.parser)]

/-- A call of `pmalloc` that returns memory. -/
def PoolMemory.granted (m : PoolMemory) (n : SizeT) (ms : Mallocs) (junk : Cells) :
    Option (Addr × PoolMemory) :=
  (Xpipe.pmalloc m.store n ms).1.map (fun a => (a, m.pmalloc n ms junk))

/-- A call of `pcalloc` that returns memory. -/
def PoolMemory.zeroed (m : PoolMemory) (n : SizeT) (ms : Mallocs) (junk : Cells) :
    Option (Addr × PoolMemory) :=
  (Xpipe.pmalloc m.store n ms).1.map (fun a => (a, m.pcalloc n ms junk))

/-- A new block of `size` bytes behind its `buffer_t`. -/
def PoolMemory.block (m : PoolMemory) (place : ℕ → ℕ) (size : ℕ) (ms : Mallocs) (junk : Cells) :
    Option (Addr × PoolMemory) :=
  (m.granted (sizeT (size + bufferHeader)) ms junk).map (fun r =>
    (r.1, r.2.storeAll 0 [(0, bufferBytes (r.1.value place) size)]))

/-- `tcp_request_init` with a first block of `first` bytes; NULL ends it. -/
def initInMemory (place : ℕ → ℕ) (first : ℕ) (i : InitInput) : Option PoolMemory :=
  ((newMemory (sizeT requestPoolSize) requestPool_fits i.cells).granted (sizeT sizeofRequest)
    (i.malloc 0) (i.junk 0)).bind (fun r =>
  (r.2.block place first (i.malloc 1) (i.junk 1)).bind (fun b =>
  ((b.2.storeAll 1 [(0, pointer (b.1.value place)), (8, pointer (b.1.value place))]).block
    place first (i.malloc 2) (i.junk 2)).bind (fun c =>
  ((c.2.storeAll 2 (requestStores i (c.1.value place))).zeroed (sizeT sizeofProtocol)
    (i.malloc 3) (i.junk 3)).map (fun p =>
  p.2.storeAll 3 (protocolStores i (p.1.value place))))))

/-! ## The stores of the parser -/

/-- What the stores of the parser do to the chain. -/
def terminateAll (bs : List Buffer) (blk : ℕ) (stores : List ℕ) : List Buffer :=
  stores.foldl (fun bs off => terminate bs blk off) bs

/-- The chain that a scan leaves. -/
def buffersOf : Except (Code × Scan) Scan → List Buffer
  | .error e => e.2.buffers
  | .ok s => s.buffers

/-- One byte stores only at the end of the numeral. -/
lemma scanByte_stores (w : Layout) (blk off : ℕ) (c : UInt8) (s : Scan) :
    buffersOf (scanByte w blk off c s) =
      terminateAll s.buffers blk (if s.state = .dataLenCr ∧ c = LF then [off] else []) := by
  unfold scanByte
  cases hs : s.state with
  | dataLenCr =>
    by_cases hc : c = LF
    · subst hc
      simp only [bne_self_eq_false, Bool.false_eq_true, if_false, and_self, if_true, scanDataLen]
      split_ifs
      · rfl
      · rfl
    · have hne : (c != LF) = true := by simpa using hc
      simp [hne, hc, terminateAll, buffersOf]
  | typeCr =>
    simp only [scanType, reduceCtorEq, false_and, if_false, terminateAll, List.foldl_nil]
    split_ifs
    · rfl
    · cases (lookupType (memoryAt w s.buffers s.pro.start)
        (w.addr s.pro.tokEnd - w.addr s.pro.start)).1 with
      | none => rfl
      | some t => rfl
  | dataLenLf => simp [terminateAll, buffersOf]
  | typeLf =>
    simp only [reduceCtorEq, false_and, if_false, terminateAll, List.foldl_nil]
    split_ifs
    all_goals rfl
  | _ =>
    simp only [reduceCtorEq, false_and, if_false, terminateAll, List.foldl_nil]
    split_ifs
    all_goals rfl

/-- **The stores of a scan** are all that it changes in the chain. -/
lemma scan_stores (w : Layout) (blk n off : ℕ) (s : Scan) :
    buffersOf (scan w blk n off s) = terminateAll s.buffers blk (scanStores w blk n off s) := by
  induction n generalizing off s with
  | zero => rfl
  | succ n ih =>
    have hbyte := scanByte_stores w blk off ((received s.buffers blk)[off]?.getD NUL)
      (s.touch blk off)
    rw [scan_succ]
    simp only [scanStores]
    cases hnext : scanByte w blk off ((received s.buffers blk)[off]?.getD NUL)
        (s.touch blk off) with
    | error e =>
      rw [hnext] at hbyte
      exact hbyte
    | ok s' =>
      rw [hnext] at hbyte
      have hbuffers : s'.buffers = _ := hbyte
      simp only
      rw [ih, hbuffers]
      unfold terminateAll
      rw [List.foldl_append]
      rfl

lemma finishScan_buffers (s : Scan) (stop : Ptr) : (finishScan s stop).buffers = s.buffers := by
  unfold finishScan
  split_ifs
  · rfl
  · rfl
  · rfl

/-- What a call of the parser leaves, from the stores it makes. -/
lemma Chained.parse_stores (w : Layout) (r : Chained) (chunk : List UInt8) :
    (r.parse w chunk).buffers = terminateAll
      (r.blocks.modify r.lastBuffer (fun b => { b with bytes := b.bytes ++ chunk })) r.lastBuffer
      (r.stores w chunk) := by
  have hscan := scan_stores w r.lastBuffer chunk.length
    (received r.blocks r.lastBuffer).length
    ⟨r.blocks.modify r.lastBuffer (fun b => { b with bytes := b.bytes ++ chunk }), r.protocol,
      r.protocol.state, r.protocol.tmpDataLen⟩
  unfold Chained.parse Chained.stores
  simp only
  split
  · rename_i e he
    rw [he] at hscan
    exact hscan
  · rename_i s hs
    rw [hs] at hscan
    rw [finishScan_buffers]
    exact hscan

lemma terminateAll_eq (bs : List Buffer) (k : ℕ) (offs : List ℕ) :
    terminateAll bs k offs =
      bs.modify k (fun b => { b with bytes := offs.foldl terminateBytes b.bytes }) := by
  induction offs generalizing bs with
  | nil => exact (List.modify_id k bs).symm
  | cons off offs ih =>
    have hone : terminate bs k off =
        bs.modify k (fun b => { b with bytes := terminateBytes b.bytes off }) := by
      unfold terminate terminateBytes
      split_ifs with hoff
      · exact (List.modify_id k bs).symm
      · rfl
    have hstep : terminateAll bs k (off :: offs) = terminateAll (terminate bs k off) k offs := rfl
    rw [hstep, ih, hone, List.modify_modify_eq]
    rfl

/-- A block into which `chunk` is read and parsed. -/
def Chained.filledBlock (w : Layout) (r : Chained) (chunk : List UInt8) (b : Buffer) : Buffer :=
  { b with bytes := (r.stores w chunk).foldl terminateBytes (b.bytes ++ chunk) }

/-- One read, and the call of the parser, change the block that is read into. -/
lemma Chained.parse_blocks (w : Layout) (r : Chained) (chunk : List UInt8) :
    (r.parse w chunk).buffers = r.blocks.modify r.lastBuffer (r.filledBlock w chunk) := by
  rw [r.parse_stores, terminateAll_eq, List.modify_modify_eq]
  rfl

/-! ## The request -/

/-- What is stored in the field `next` of block `k`. -/
def RequestMemory.nextValue (place : ℕ → ℕ) (s : RequestMemory) (k : ℕ) : ℕ :=
  (s.request.next k).elim 0 (fun j => (s.addr j).value place)

/-- The object of block `k` shows the block. -/
def RequestMemory.Shows (place : ℕ → ℕ) (s : RequestMemory) (k : ℕ) (b : Buffer) : Prop :=
  ∃ o, s.memory.objs[blockIndex s.request.further k]? = some o ∧
    BlockShown place o b.size b.bytes.length b.bytes (s.nextValue place k)

/-- The memory shows the linked request. -/
structure Shown (place : ℕ → ℕ) (s : RequestMemory) : Prop where
  pool : InPool (8360 + 1056 * s.request.further) s.memory
  count : s.memory.objs.length = s.request.further + 4
  order : s.request.InOrder
  ends : s.request.next s.request.lastBuffer = none
  inside : ∀ k j, s.request.next k = some j → j < s.request.blocks.length
  blocks : ∀ k b, s.request.blocks[k]? = some b → s.Shows place k b
  request : ∃ o, s.memory.objs[requestIndex s.request.further]? = some o ∧
    o.bytes.length = sizeofRequest ∧
    BytesAt o.bytes 0 (pointer ((s.addr s.request.buffers).value place)) ∧
    BytesAt o.bytes 8 (pointer ((s.addr s.request.lastBuffer).value place))

lemma RequestMemory.addr_eq {s : RequestMemory} {k : ℕ} {o : Obj}
    (h : s.memory.objs[blockIndex s.request.further k]? = some o) : s.addr k = o.addr := by
  unfold RequestMemory.addr
  rw [h]
  rfl

lemma RequestMemory.nextValue_end {s : RequestMemory} {k : ℕ} (place : ℕ → ℕ)
    (h : s.request.next k = none) : s.nextValue place k = 0 := by
  unfold RequestMemory.nextValue
  rw [h]
  rfl

/-- The field `next` of a block whose successor stays where it is. -/
lemma RequestMemory.nextValue_congr {s s' : RequestMemory} {k : ℕ} (place : ℕ → ℕ)
    (hnext : s'.request.next k = s.request.next k)
    (haddr : ∀ j, s.request.next k = some j → s'.addr j = s.addr j) :
    s'.nextValue place k = s.nextValue place k := by
  unfold RequestMemory.nextValue
  rw [hnext]
  cases hj : s.request.next k with
  | none => rfl
  | some j => simp only [Option.elim_some, haddr j hj]

/-- A read adds no block. -/
lemma Chained.length_after (w : Layout) (r : Chained) (chunk : List UInt8) :
    (r.after (r.parse w chunk)).blocks.length = r.blocks.length := by
  show (r.parse w chunk).buffers.length = r.blocks.length
  rw [r.parse_blocks, List.length_modify]

lemma Chained.further_after (w : Layout) (r : Chained) (chunk : List UInt8) :
    (r.after (r.parse w chunk)).further = r.further := by
  unfold Chained.further
  rw [r.length_after]

lemma blockIndex_inj {n k j : ℕ} (hk : k ≤ n) (hj : j ≤ n)
    (h : blockIndex n k = blockIndex n j) : k = j := by
  unfold blockIndex at h
  split_ifs at h <;> omega

lemma blockIndex_ne {n k : ℕ} (hk : k ≤ n) :
    blockIndex n k ≠ protocolIndex n ∧ blockIndex n k ≠ requestIndex n := by
  unfold blockIndex protocolIndex requestIndex
  split_ifs <;> omega

lemma blockIndex_succ {n k : ℕ} (hk : k ≤ n) : blockIndex (n + 1) k = blockIndex n k + 1 := by
  unfold blockIndex
  split_ifs <;> omega

lemma Shown.lt {place : ℕ → ℕ} {s : RequestMemory} (h : Shown place s) :
    s.request.lastBuffer < s.request.blocks.length ∧
      s.request.blocks.length = s.request.further + 1 := by
  have hpos := List.length_pos_iff.mpr h.order.ne_nil
  rw [h.order.last]
  unfold lastIndex Chained.further
  omega

/-- **The stores of one read** change the block that is read into and `protocol_t`. -/
lemma Shown.readStores {w : Layout} {place : ℕ → ℕ} {s : RequestMemory} (h : Shown place s)
    (i : ReadInput) {b : Buffer} (hb : s.request.blocks[s.request.lastBuffer]? = some b)
    (hroom : b.bytes.length + i.chunk.length ≤ b.size) :
    let m := (Xpipe.readStores w place s i).foldl memStep s.memory
    InPool (8360 + 1056 * s.request.further) m ∧ m.objs.length = s.memory.objs.length ∧
      (∀ j, j ≠ blockIndex s.request.further s.request.lastBuffer →
        j ≠ protocolIndex s.request.further → m.objs[j]? = s.memory.objs[j]?) ∧
      ∃ o, m.objs[blockIndex s.request.further s.request.lastBuffer]? = some o ∧
        o.addr = s.addr s.request.lastBuffer ∧
        BlockShown place o b.size (b.bytes.length + i.chunk.length)
          ((s.request.stores w i.chunk).foldl terminateBytes (b.bytes ++ i.chunk)) 0 := by
  obtain ⟨o, ho, hshown⟩ := h.blocks _ _ hb
  have hlt := h.lt
  have hne := (blockIndex_ne (n := s.request.further) (k := s.request.lastBuffer) (by omega)).1
  rw [RequestMemory.nextValue_end place h.ends] at hshown
  have hlast : (received s.request.blocks s.request.lastBuffer).length = b.bytes.length := by
    simp [received, hb]
  have haddr := RequestMemory.addr_eq ho
  have hlen := hshown.length
  -- the bytes
  have hin : bufferHeader + b.bytes.length + i.chunk.length ≤ o.bytes.length := by omega
  have hget := store_get ho hin
  have hsame := store_sameBut s.memory (blockIndex s.request.further s.request.lastBuffer)
    (bufferHeader + b.bytes.length) i.chunk
  -- the parser
  obtain ⟨hsame₂, o₂, ho₂, haddr₂, hshown₂⟩ :=
    parser_stores (s.request.stores w i.chunk) hget (hshown.read hroom)
  have hsame₁₂ := hsame.trans hsame₂
  have hlen₂ := hshown₂.length
  -- `protocol_t`, and `last`
  obtain ⟨m₂, hm₂⟩ : ∃ m₂, m₂ = ((s.request.stores w i.chunk).map (fun off => MemOp.store
      (blockIndex s.request.further s.request.lastBuffer) (31 + off) [NUL])).foldl memStep
      (memStep s.memory (.store (blockIndex s.request.further s.request.lastBuffer)
        (bufferHeader + b.bytes.length) i.chunk)) := ⟨_, rfl⟩
  rw [← hm₂] at ho₂ hsame₁₂
  have hsame₃ := store_sameBut m₂ (protocolIndex s.request.further) 0 i.protocol
  have ho₃ := (hsame₃.others _ hne).trans ho₂
  have hvalue : pointer ((s.addr s.request.lastBuffer).value place + bufferHeader +
      b.bytes.length + i.chunk.length) =
      pointer (o₂.addr.value place + bufferHeader + (b.bytes.length + i.chunk.length)) := by
    rw [haddr₂, haddr]
    congr 1
    simp only [Obj.stored]
    omega
  have hin₄ : 16 + (pointer (o₂.addr.value place + bufferHeader +
      (b.bytes.length + i.chunk.length))).length ≤ o₂.bytes.length := by
    rw [length_pointer, hlen₂]
    simp only [bufferHeader]
    omega
  have hget₄ := store_get ho₃ hin₄
  have hsame₄ := store_sameBut (memStep m₂ (.store (protocolIndex s.request.further) 0 i.protocol))
    (blockIndex s.request.further s.request.lastBuffer) 16
    (pointer (o₂.addr.value place + bufferHeader + (b.bytes.length + i.chunk.length)))
  have hfold : (Xpipe.readStores w place s i).foldl memStep s.memory =
      memStep (memStep m₂ (.store (protocolIndex s.request.further) 0 i.protocol))
        (.store (blockIndex s.request.further s.request.lastBuffer) 16
          (pointer (o₂.addr.value place + bufferHeader +
            (b.bytes.length + i.chunk.length)))) := by
    unfold Xpipe.readStores
    simp only [hlast, hvalue, List.foldl_append, List.foldl_cons, List.foldl_nil, hm₂]
  rw [hfold]
  refine ⟨?_, ?_, fun j hj hj' => ?_, _, hget₄, ?_, hshown₂.advance _⟩
  · exact ((h.pool.same hsame₁₂).same hsame₃).same hsame₄
  · rw [hsame₄.count, hsame₃.count, hsame₁₂.count]
  · rw [hsame₄.others j hj, hsame₃.others j hj', hsame₁₂.others j hj]
  · show o₂.addr = s.addr s.request.lastBuffer
    rw [haddr₂, haddr]
    rfl

/-- **A read keeps the picture.** -/
lemma Shown.after {w : Layout} {place : ℕ → ℕ} {s : RequestMemory} (h : Shown place s)
    (i : ReadInput) {b : Buffer} (hb : s.request.blocks[s.request.lastBuffer]? = some b)
    (hroom : b.bytes.length + i.chunk.length ≤ b.size) :
    Shown place ⟨s.request.after (s.request.parse w i.chunk),
      (Xpipe.readStores w place s i).foldl memStep s.memory⟩ := by
  obtain ⟨hpool, hcount, hothers, o, ho, haddr, hshown⟩ :=
    h.readStores (w := w) i hb hroom
  have hlt := h.lt
  have hblocks := s.request.parse_blocks w i.chunk
  have hfurther := s.request.further_after w i.chunk
  have hindex (k : ℕ) (hk : k < s.request.blocks.length) (hne : k ≠ s.request.lastBuffer) :
      blockIndex s.request.further k ≠ blockIndex s.request.further s.request.lastBuffer ∧
        blockIndex s.request.further k ≠ protocolIndex s.request.further := by
    refine ⟨fun heq => hne (blockIndex_inj (by omega) (by omega) heq), ?_⟩
    exact (blockIndex_ne (by omega)).1
  obtain ⟨s', hs'⟩ : ∃ s' : RequestMemory, s' = ⟨s.request.after (s.request.parse w i.chunk),
    (Xpipe.readStores w place s i).foldl memStep s.memory⟩ := ⟨_, rfl⟩
  have hobj (k : ℕ) (hk : k < s.request.blocks.length) (hne : k ≠ s.request.lastBuffer) :
      s'.memory.objs[blockIndex s'.request.further k]? =
        s.memory.objs[blockIndex s.request.further k]? := by
    rw [hs']
    simp only [hfurther]
    exact hothers _ (hindex k hk hne).1 (hindex k hk hne).2
  have haddrs (k : ℕ) (hk : k < s.request.blocks.length) : s'.addr k = s.addr k := by
    by_cases hne : k = s.request.lastBuffer
    · rw [hne, ← haddr]
      apply RequestMemory.addr_eq
      rw [hs']
      simp only [hfurther]
      exact ho
    · unfold RequestMemory.addr
      rw [hobj k hk hne]
  have hnexts (k : ℕ) : s'.nextValue place k = s.nextValue place k := by
    apply RequestMemory.nextValue_congr place
    · rw [hs']
      rfl
    · exact fun j hj => haddrs j (h.inside k j hj)
  rw [← hs']
  have hlength : s'.request.blocks.length = s.request.blocks.length := by
    rw [hs']
    exact s.request.length_after w i.chunk
  refine ⟨?_, ?_, ?_, ?_, fun k j hk => ?_, fun k b' hk => ?_, ?_⟩
  · rw [hs']
    simp only [hfurther]
    exact hpool
  · rw [hs']
    simp only [hfurther, hcount]
    exact h.count
  · rw [hs']
    exact h.order.after w i.chunk
  · rw [hs']
    exact h.ends
  · rw [hlength]
    rw [hs'] at hk
    exact h.inside k j hk
  · have hkl : k < s.request.blocks.length := by
      rw [← hlength]
      exact (List.getElem?_eq_some_iff.mp hk).1
    have hb' : (s.request.blocks.modify s.request.lastBuffer
        (s.request.filledBlock w i.chunk))[k]? = some b' := by
      rw [← hblocks]
      rw [hs'] at hk
      exact hk
    rw [List.getElem?_modify] at hb'
    unfold RequestMemory.Shows
    rw [hnexts]
    by_cases hlast : s.request.lastBuffer = k
    · subst hlast
      simp only [hb, if_true, Option.map_eq_map, Option.map_some, Option.some_inj] at hb'
      subst hb'
      rw [RequestMemory.nextValue_end place h.ends]
      refine ⟨o, ?_, ?_⟩
      · rw [hs']
        simp only [hfurther]
        exact ho
      · simp only [Chained.filledBlock, length_terminateBytes, List.length_append]
        exact hshown
    · simp only [if_neg hlast, Option.map_eq_map, Option.map_id'] at hb'
      rw [hobj k hkl (fun heq => hlast heq.symm)]
      exact h.blocks k b' hb'
  · obtain ⟨q, hor, hlen, hbuffers, hlastBuffer⟩ := h.request
    have hrequest := hothers (requestIndex s.request.further)
      (fun heq => (blockIndex_ne (by omega)).2 heq.symm) (by
        unfold requestIndex protocolIndex
        omega)
    have hfirst : s'.request.buffers = s.request.buffers := by rw [hs']; rfl
    have hlastb : s'.request.lastBuffer = s.request.lastBuffer := by rw [hs']; rfl
    rw [hfirst, hlastb, haddrs _ hlt.1, haddrs _ (by
      rw [h.order.head]
      omega)]
    refine ⟨q, ?_, hlen, hbuffers, hlastBuffer⟩
    rw [hs']
    simp only [hfurther]
    rw [hrequest, hor]

/-- The three stores for a new block go to three objects. -/
lemma link_stores (place : ℕ → ℕ) (a : Addr) {m : PoolMemory} {n k : ℕ} {o ol q : Obj}
    (hkn : k ≤ n) (ho : m.objs[0]? = some o) (hol : m.objs[blockIndex (n + 1) k]? = some ol)
    (hor : m.objs[requestIndex (n + 1)]? = some q) (hlen : 32 ≤ o.bytes.length)
    (hlenl : 32 ≤ ol.bytes.length) (hlenr : 16 ≤ q.bytes.length) :
    let m' := (linkStores place a n k).foldl memStep m
    (∀ used, InPool used m → InPool used m') ∧ m'.objs.length = m.objs.length ∧
      m'.objs[0]? = some (o.stored 0 (bufferBytes (a.value place) bufferMinSize)) ∧
      m'.objs[blockIndex (n + 1) k]? = some (ol.stored 24 (pointer (a.value place))) ∧
      m'.objs[requestIndex (n + 1)]? = some (q.stored 8 (pointer (a.value place))) ∧
      ∀ j, j ≠ 0 → j ≠ blockIndex (n + 1) k → j ≠ requestIndex (n + 1) →
        m'.objs[j]? = m.objs[j]? := by
  have hl0 : blockIndex (n + 1) k ≠ 0 := by
    rw [blockIndex_succ hkn]
    omega
  have hr0 : requestIndex (n + 1) ≠ 0 := by
    unfold requestIndex
    omega
  have hrl : requestIndex (n + 1) ≠ blockIndex (n + 1) k :=
    fun heq => (blockIndex_ne (by omega)).2 heq.symm
  have hin₂ : 0 + (bufferBytes (a.value place) bufferMinSize).length ≤ o.bytes.length := by
    simpa [bufferBytes] using hlen
  have hin₃ : 24 + (pointer (a.value place)).length ≤ ol.bytes.length := by
    rw [length_pointer]
    omega
  have hin₄ : 8 + (pointer (a.value place)).length ≤ q.bytes.length := by
    rw [length_pointer]
    omega
  have hsame₂ := store_sameBut m 0 0 (bufferBytes (a.value place) bufferMinSize)
  have hget₂ := store_get ho hin₂
  obtain ⟨m₂, hm₂⟩ : ∃ m₂, m₂ =
    memStep m (.store 0 0 (bufferBytes (a.value place) bufferMinSize)) := ⟨_, rfl⟩
  rw [← hm₂] at hget₂ hsame₂
  have hsame₃ := store_sameBut m₂ (blockIndex (n + 1) k) 24 (pointer (a.value place))
  have hget₃ := store_get ((hsame₂.others _ hl0).trans hol) hin₃
  obtain ⟨m₃, hm₃⟩ : ∃ m₃, m₃ =
    memStep m₂ (.store (blockIndex (n + 1) k) 24 (pointer (a.value place))) := ⟨_, rfl⟩
  rw [← hm₃] at hget₃ hsame₃
  have hsame₄ := store_sameBut m₃ (requestIndex (n + 1)) 8 (pointer (a.value place))
  have hget₄ := store_get ((hsame₃.others _ hrl).trans ((hsame₂.others _ hr0).trans hor)) hin₄
  have hfold : (linkStores place a n k).foldl memStep m =
      memStep m₃ (.store (requestIndex (n + 1)) 8 (pointer (a.value place))) := by
    rw [hm₃, hm₂]
    rfl
  rw [hfold]
  refine ⟨?_, ?_, ?_, ?_, hget₄, fun j h0 hl hr => ?_⟩
  · exact fun used hm => ((hm.same hsame₂).same hsame₃).same hsame₄
  · rw [hsame₄.count, hsame₃.count, hsame₂.count]
  · rw [hsame₄.others _ hr0.symm, hsame₃.others _ hl0.symm, hget₂]
  · rw [hsame₄.others _ hrl.symm, hget₃]
  · rw [hsame₄.others _ hr, hsame₃.others _ hl, hsame₂.others _ h0]

/-- **A new block keeps the picture.** -/
lemma Shown.link {place : ℕ → ℕ} {s : RequestMemory} (h : Shown place s)
    (hfull : fullAt s.request.blocks s.request.lastBuffer = true)
    (hfew : s.request.further + 1 < 2 ^ 48) {a : Addr} {ms : Mallocs} (junk : Cells)
    (hcall : (Xpipe.pmalloc s.memory.store (sizeT (bufferMinSize + bufferHeader)) ms).1 = some a) :
    Shown place ⟨s.request.link, (linkStores place a s.request.further
      s.request.lastBuffer).foldl memStep
        (s.memory.pmalloc (sizeT (bufferMinSize + bufferHeader)) ms junk)⟩ := by
  have hlt := h.lt
  have hkn : s.request.lastBuffer ≤ s.request.further := by omega
  -- the pool
  obtain ⟨-, o, hobjs, hoaddr, holen⟩ := pmalloc_objs hcall junk
  have hpool := h.pool.pmalloc (by omega) hcall junk
  have hshare : (PoolOp.pmalloc (sizeT (bufferMinSize + bufferHeader)) ms).share
      maxSizeOfChunk = 1056 := rfl
  rw [hshare] at hpool
  -- the stores
  have hsize : o.bytes.length = bufferHeader + bufferMinSize := holen
  obtain ⟨b, hb⟩ : ∃ b, s.request.blocks[s.request.lastBuffer]? = some b :=
    ⟨_, List.getElem?_eq_getElem hlt.1⟩
  obtain ⟨ol, hol, hlshown⟩ := h.blocks _ b hb
  obtain ⟨q, hor, horlen, hbuffers, hlastBuffer⟩ := h.request
  have hlenl := hlshown.length
  have hheader : bufferHeader = 32 := rfl
  have hrlen : sizeofRequest = 88 := rfl
  have hpick (j : ℕ) : (o :: s.memory.objs)[j + 1]? = s.memory.objs[j]? :=
    List.getElem?_cons_succ
  have hget : (s.memory.pmalloc (sizeT (bufferMinSize + bufferHeader)) ms junk).objs[0]? =
      some o := by
    rw [hobjs]
    rfl
  have hgetl' : (s.memory.pmalloc (sizeT (bufferMinSize + bufferHeader)) ms junk).objs[
      blockIndex (s.request.further + 1) s.request.lastBuffer]? = some ol := by
    rw [hobjs, blockIndex_succ hkn, hpick, hol]
  have hgetr' : (s.memory.pmalloc (sizeT (bufferMinSize + bufferHeader)) ms junk).objs[
      requestIndex (s.request.further + 1)]? = some q := by
    rw [hobjs]
    exact hor
  obtain ⟨hpool', hcount, hget0, hgetl, hgetr, hothers⟩ :=
    link_stores place a hkn hget hgetl' hgetr' (by omega) (by omega) (by omega)
  obtain ⟨s', hs'⟩ : ∃ s' : RequestMemory, s' = ⟨s.request.link, (linkStores place a
    s.request.further s.request.lastBuffer).foldl memStep
      (s.memory.pmalloc (sizeT (bufferMinSize + bufferHeader)) ms junk)⟩ := ⟨_, rfl⟩
  have hmemory : s'.memory = (linkStores place a s.request.further s.request.lastBuffer).foldl
      memStep (s.memory.pmalloc (sizeT (bufferMinSize + bufferHeader)) ms junk) := by rw [hs']
  have hrequest : s'.request = s.request.link := by rw [hs']
  have hfurther : s'.request.further = s.request.further + 1 := by
    rw [hrequest]
    simp only [Chained.further, Chained.link, List.length_append, List.length_singleton]
    omega
  rw [← hmemory] at hpool' hcount hget0 hgetl hgetr hothers
  rw [← hs']
  have hnew : s'.request.blocks.length = s.request.blocks.length + 1 := by
    rw [hrequest]
    simp [Chained.link]
  have hindex : blockIndex s'.request.further s.request.blocks.length = 0 := by
    unfold blockIndex
    rw [if_neg (by omega), hfurther]
    omega
  have hold (k : ℕ) (hk : k < s.request.blocks.length) (hne : k ≠ s.request.lastBuffer) :
      s'.memory.objs[blockIndex s'.request.further k]? =
        s.memory.objs[blockIndex s.request.further k]? := by
    have hsucc := blockIndex_succ (n := s.request.further) (k := k) (by omega)
    rw [hfurther, hothers _ (by omega) (fun heq => hne (blockIndex_inj (by omega) (by omega) heq))
      (blockIndex_ne (by omega)).2, hobjs, hsucc, hpick]
  have haddrs (k : ℕ) (hk : k < s.request.blocks.length) : s'.addr k = s.addr k := by
    unfold RequestMemory.addr
    by_cases hne : k = s.request.lastBuffer
    · rw [hne, hol, hfurther, hgetl]
      rfl
    · rw [hold k hk hne]
  have haddr : s'.addr s.request.blocks.length = a := by
    rw [← hoaddr]
    apply RequestMemory.addr_eq (o := o.stored 0 (bufferBytes (a.value place) bufferMinSize))
    rw [hindex]
    exact hget0
  have hnexts (k : ℕ) (hk : k < s.request.blocks.length) (hne : k ≠ s.request.lastBuffer) :
      s'.nextValue place k = s.nextValue place k := by
    have hnext : s'.request.next k = s.request.next k := by
      rw [hrequest]
      exact (if_neg hne).trans (if_neg (by omega))
    exact RequestMemory.nextValue_congr place hnext (fun j hj => haddrs j (h.inside k j hj))
  have hnextl : s'.nextValue place s.request.lastBuffer = a.value place := by
    have hnext : s'.request.next s.request.lastBuffer = some s.request.blocks.length := by
      rw [hrequest]
      exact if_pos rfl
    unfold RequestMemory.nextValue
    rw [hnext, Option.elim_some, haddr]
  have hend : s'.request.next s.request.blocks.length = none := by
    rw [hrequest]
    exact (if_neg (by omega)).trans (if_pos rfl)
  refine ⟨?_, ?_, ?_, ?_, fun k j hk => ?_, fun k b' hk => ?_, ?_⟩
  · rw [hfurther]
    exact (hpool' _ hpool).mono (by omega)
  · rw [hcount, hobjs, List.length_cons, h.count, hfurther]
  · rw [hrequest]
    exact h.order.link hfull
  · rw [hrequest] at hend ⊢
    exact hend
  · rw [hnew]
    rw [hrequest] at hk
    simp only [Chained.link] at hk
    split_ifs at hk with hkl hkn
    · rw [Option.some_inj] at hk
      omega
    · have hj := h.inside k j hk
      omega
  · unfold RequestMemory.Shows
    have hkl := (List.getElem?_eq_some_iff.mp hk).1
    rw [hrequest] at hk
    simp only [Chained.link] at hk
    by_cases hin : k < s.request.blocks.length
    · rw [List.getElem?_append_left hin] at hk
      by_cases hne : k = s.request.lastBuffer
      · subst hne
        rw [hb, Option.some_inj] at hk
        subst hk
        rw [hnextl, hfurther]
        exact ⟨_, hgetl, hlshown.link _⟩
      · rw [hold k hin hne, hnexts k hin hne]
        exact h.blocks k b' hk
    · have hkeq : k = s.request.blocks.length := by omega
      subst hkeq
      rw [List.getElem?_append_right (Nat.le_refl _), Nat.sub_self, List.getElem?_cons_zero,
        Option.some_inj] at hk
      subst hk
      rw [hindex, RequestMemory.nextValue_end place hend]
      exact ⟨_, hget0, hoaddr ▸ blockShown_new hsize⟩
  · have hfirst : s'.request.buffers = s.request.buffers := by rw [hrequest]; rfl
    have hlastb : s'.request.lastBuffer = s.request.blocks.length := by rw [hrequest]; rfl
    have hinr : 8 + (pointer (a.value place)).length ≤ q.bytes.length := by
      rw [length_pointer]
      omega
    rw [hfirst, hlastb, haddr, haddrs _ (by
      rw [h.order.head]
      omega), hfurther]
    refine ⟨_, hgetr, (length_stored hinr).trans horlen, ?_, bytesAt_stored hinr⟩
    exact hbuffers.stored hinr (Or.inl (by rw [length_pointer]))

/-- **What `tcp_request_process` does after OK keeps the picture.** -/
lemma Shown.grow {place : ℕ → ℕ} {s s' : RequestMemory} (h : Shown place s) (i : ReadInput)
    (hfew : s.request.further + 1 < 2 ^ 48) (hgrow : growInMemory place s i = some s') :
    Shown place s' ∧ s'.request = s.request.grow ∧
      s'.request.further ≤ s.request.further + 1 := by
  unfold growInMemory at hgrow
  unfold Chained.grow
  split_ifs at hgrow ⊢ with hfull
  · obtain ⟨a, hcall, rfl⟩ := Option.map_eq_some_iff.mp hgrow
    refine ⟨h.link hfull hfew i.junk hcall, rfl, ?_⟩
    simp only [Chained.further, Chained.link, List.length_append, List.length_singleton]
    omega
  · cases hgrow
    exact ⟨h, rfl, Nat.le_succ _⟩

/-! ## The reads -/

lemma Chained.grow_room {r : Chained} {b : Buffer} (hb : r.blocks[r.lastBuffer]? = some b)
    (hle : b.bytes.length ≤ b.size) :
    ∃ b', r.grow.blocks[r.grow.lastBuffer]? = some b' ∧
      b'.room = if b.room = 0 then bufferMinSize else b.room := by
  unfold Buffer.room
  unfold Chained.grow fullAt
  rw [hb]
  simp only [Option.map_some, Option.getD_some, Buffer.full, beq_iff_eq]
  split_ifs with hfull hroom hroom
  · refine ⟨⟨bufferMinSize, []⟩, ?_, rfl⟩
    simp [Chained.link]
  · omega
  · omega
  · exact ⟨b, hb, rfl⟩

/-- **The reads keep the picture**, and are those of the linked request. -/
lemma Shown.reads {w : Layout} {place : ℕ → ℕ} {s : RequestMemory} {b : Buffer}
    {x : Code × RequestMemory} (reads : List ReadInput) (h : Shown place s)
    (hb : s.request.blocks[s.request.lastBuffer]? = some b)
    (hfits : Fits b.room (reads.map ReadInput.chunk))
    (hfew : s.request.further + reads.length < 2 ^ 48)
    (hx : recvInMemory w place s reads = some x) :
    Shown place x.2 ∧ x.1 = (s.request.recvAll w (reads.map ReadInput.chunk)).code ∧
      x.2.request = (s.request.recvAll w (reads.map ReadInput.chunk)).request := by
  induction reads generalizing s b with
  | nil =>
    cases hx
    exact ⟨h, rfl, rfl⟩
  | cons i reads ih =>
    obtain ⟨-, hle, hrest⟩ := hfits
    obtain ⟨o, -, hshown⟩ := h.blocks _ b hb
    have hcap := hshown.fits
    have hroom : b.bytes.length + i.chunk.length ≤ b.size := by
      unfold Buffer.room at hle
      omega
    have hafter := h.after (w := w) i hb hroom
    have hblocks := s.request.parse_blocks w i.chunk
    have hb' : (s.request.parse w i.chunk).buffers[s.request.lastBuffer]? =
        some (s.request.filledBlock w i.chunk b) := by
      rw [hblocks, List.getElem?_modify, hb]
      simp
    have hfilled : (s.request.filledBlock w i.chunk b).bytes.length =
        b.bytes.length + i.chunk.length := by
      simp only [Chained.filledBlock, length_terminateBytes, List.length_append]
    have hfurther := s.request.further_after w i.chunk
    simp only [recvInMemory] at hx
    simp only [List.map_cons, Chained.recvAll]
    split_ifs at hx ⊢ with hcode
    · obtain ⟨s', hgrow, hrun⟩ := Option.bind_eq_some_iff.mp hx
      rw [List.length_cons] at hfew
      obtain ⟨hshown', hrequest, hmore⟩ := hafter.grow i (by
        simp only [hfurther]
        omega) hgrow
      obtain ⟨b', hlast, hleft⟩ := Chained.grow_room
        (r := s.request.after (s.request.parse w i.chunk)) hb' (by
          rw [hfilled]
          exact hroom)
      have hsame : b'.room =
          if i.chunk.length = b.room then bufferMinSize else b.room - i.chunk.length := by
        rw [hleft]
        unfold Buffer.room
        rw [hfilled]
        show (if b.size - (b.bytes.length + i.chunk.length) = 0 then _ else
          b.size - (b.bytes.length + i.chunk.length)) = _
        split_ifs <;> omega
      rw [← hsame] at hrest
      have hend := ih hshown' (by
        rw [hrequest]
        exact hlast) hrest (by
        simp only [hfurther] at hmore
        omega) hrun
      rw [hrequest] at hend
      exact hend
    · cases hx
      exact ⟨hafter, rfl, rfl⟩

/-! ## A new request -/

lemma InPool.granted {used : ℕ} {m : PoolMemory} (h : InPool used m) {n : SizeT} {ms : Mallocs}
    {junk : Cells} {x : Addr × PoolMemory} (hused : used < 2 ^ 60)
    (hx : m.granted n ms junk = some x) :
    InPool (used + (PoolOp.pmalloc n ms).share maxSizeOfChunk) x.2 ∧
      ∃ o, x.2.objs = o :: m.objs ∧ o.addr = x.1 ∧ o.bytes.length = n.val := by
  obtain ⟨a, hcall, rfl⟩ := Option.map_eq_some_iff.mp hx
  exact ⟨h.pmalloc hused hcall junk, (pmalloc_objs hcall junk).2⟩

lemma InPool.zeroed {used : ℕ} {m : PoolMemory} (h : InPool used m) {n : SizeT} {ms : Mallocs}
    {junk : Cells} {x : Addr × PoolMemory} (hused : used < 2 ^ 60)
    (hx : m.zeroed n ms junk = some x) :
    InPool (used + (PoolOp.pmalloc n ms).share maxSizeOfChunk) x.2 ∧
      ∃ o, x.2.objs = o :: m.objs := by
  obtain ⟨a, hcall, rfl⟩ := Option.map_eq_some_iff.mp hx
  exact ⟨h.pcalloc hused hcall junk, (pcalloc_objs hcall junk).2⟩

/-- A new block is shown as an empty one. -/
lemma InPool.block {used size : ℕ} {m : PoolMemory} (h : InPool used m) {place : ℕ → ℕ}
    {ms : Mallocs} {junk : Cells} {x : Addr × PoolMemory} (hused : used < 2 ^ 60)
    (hsize : size + bufferHeader < 2 ^ 64) (hx : m.block place size ms junk = some x) :
    InPool (used + 4096) x.2 ∧ x.2.objs.length = m.objs.length + 1 ∧
      (∃ o, x.2.objs[0]? = some o ∧ o.addr = x.1 ∧ BlockShown place o size 0 [] 0) ∧
      ∀ j, x.2.objs[j + 1]? = m.objs[j]? := by
  obtain ⟨⟨a, m'⟩, hgranted, rfl⟩ := Option.map_eq_some_iff.mp hx
  obtain ⟨hpool, o, hobjs, rfl, hlen⟩ := h.granted (by omega) hgranted
  have hshare : (PoolOp.pmalloc (sizeT (size + bufferHeader)) ms).share maxSizeOfChunk ≤
      maxSizeOfChunk := (share_le (by decide) _).1
  have hlimit : maxSizeOfChunk = 4096 := rfl
  rw [sizeT_val hsize, Nat.add_comm] at hlen
  have hsame := store_sameBut m' 0 0 (bufferBytes (o.addr.value place) size)
  have hin : 0 + (bufferBytes (o.addr.value place) size).length ≤ o.bytes.length := by
    rw [hlen]
    simp [bufferBytes, bufferHeader]
  have hfirst : m'.objs[0]? = some o := by
    rw [hobjs]
    rfl
  have hend := hpool.same hsame
  refine ⟨hend.mono (by omega), ?_, ?_, fun j => ?_⟩
  · exact hsame.count.trans (by rw [hobjs, List.length_cons])
  · exact ⟨_, store_get hfirst hin, rfl, blockShown_new hlen⟩
  · exact (hsame.others _ (by omega)).trans (by rw [hobjs, List.getElem?_cons_succ])

/-- **The memory of a new request shows it.** -/
lemma initInMemory_shown {place : ℕ → ℕ} {first : ℕ} {i : InitInput} {m : PoolMemory}
    (hsize : first + bufferHeader < 2 ^ 64) (h : initInMemory place first i = some m) :
    Shown place ⟨.init first, m⟩ := by
  obtain ⟨⟨r, m₁⟩, hr, h⟩ := Option.bind_eq_some_iff.mp h
  obtain ⟨⟨a, m₂⟩, ha, h⟩ := Option.bind_eq_some_iff.mp h
  obtain ⟨⟨c, m₃⟩, hc, h⟩ := Option.bind_eq_some_iff.mp h
  obtain ⟨⟨p, m₄⟩, hp, rfl⟩ := Option.map_eq_some_iff.mp h
  have h₀ : InPool 0 (newMemory (sizeT requestPoolSize) requestPool_fits i.cells) :=
    ⟨newMemory_faithful _ _ _, memPoolCreate_frugal (sizeT requestPoolSize) requestPool_fits, rfl⟩
  have hshare : (PoolOp.pmalloc (sizeT sizeofRequest) (i.malloc 0)).share maxSizeOfChunk = 88 :=
    rfl
  have hshare' : (PoolOp.pmalloc (sizeT sizeofProtocol) (i.malloc 3)).share maxSizeOfChunk = 80 :=
    rfl
  -- the request, and its block
  obtain ⟨h₁, q, hobjs₁, -, hlen₁⟩ := h₀.granted (Nat.two_pow_pos 60) hr
  rw [hshare] at h₁
  obtain ⟨h₂, hcount₂, ⟨o, ho, haddr, hshown⟩, hold₂⟩ := h₁.block (by omega) hsize ha
  have hq₂ : m₂.objs[1]? = some q := by
    rw [hold₂ 0, hobjs₁]
    rfl
  have hqlen : q.bytes.length = sizeofRequest := hlen₁
  have hrlen : sizeofRequest = 88 := rfl
  obtain ⟨hsame₂, q', hq', hlen', hbuffers, hlast⟩ := store_ends (a.value place) hq₂ (by omega)
  -- the block for the response, and the other fields
  obtain ⟨h₃, hcount₃, -, hold₃⟩ := (h₂.same hsame₂).block (by omega) hsize hc
  have hq₃ := (hold₃ 1).trans hq'
  have ho₃ := (hold₃ 0).trans ((hsame₂.others 0 (by omega)).trans ho)
  obtain ⟨hsame₃, q'', hq'', -, hlen'', hkept⟩ := storeAll_front 16
    (requestStores i (c.value place)) hq₃ (by
      rw [hlen', hqlen, hrlen]
      simp [requestStores, length_leBytes])
  -- `protocol_init`
  obtain ⟨h₄, o₄, hobjs₄⟩ := (h₃.same hsame₃).zeroed (by omega) hp
  rw [hshare'] at h₄
  have hpick (j : ℕ) : m₄.objs[j + 1]? =
      (m₃.storeAll 2 (requestStores i (c.value place))).objs[j]? := by
    rw [show m₄.objs = _ from hobjs₄, List.getElem?_cons_succ]
  have hq₄ := (hpick 2).trans hq''
  have ho₄ := (hpick 1).trans ((hsame₃.others 1 (by omega)).trans ho₃)
  obtain ⟨hsame₄, q₅, hq₅, -, hlen₅, hkept₅⟩ := storeAll_front 16
    (protocolStores i (p.value place)) hq₄ (by
      rw [hlen'', hlen', hqlen, hrlen]
      simp [protocolStores])
  have h₅ := h₄.same hsame₄
  have ho₅ := (hsame₄.others 2 (by omega)).trans ho₄
  obtain ⟨s, hs⟩ : ∃ s : RequestMemory, s = ⟨.init first,
    m₄.storeAll 3 (protocolStores i (p.value place))⟩ := ⟨_, rfl⟩
  have hblock : s.addr 0 = a := by
    unfold RequestMemory.addr
    rw [hs]
    show (((m₄.storeAll 3 _).objs[2]?).map Obj.addr).getD _ = _
    rw [ho₅]
    exact haddr
  have hfront : 0 + (pointer (a.value place)).length ≤ 16 ∧
      8 + (pointer (a.value place)).length ≤ 16 := by
    rw [length_pointer]
    omega
  rw [← hs]
  refine ⟨?_, ?_, ?_, ?_, fun k j hk => ?_, fun k b hk => ?_, ?_⟩
  · rw [hs]
    exact h₅.mono (by omega)
  · rw [hs]
    have hone : m₁.objs.length = 1 := congrArg List.length hobjs₁
    have htwo : m₂.objs.length = 2 := hcount₂.trans (congrArg (· + 1) hone)
    have hthree : m₃.objs.length = 3 :=
      hcount₃.trans (congrArg (· + 1) (hsame₂.count.trans htwo))
    have hfour : m₄.objs.length = 4 :=
      (congrArg List.length hobjs₄).trans (congrArg (· + 1) (hsame₃.count.trans hthree))
    exact hsame₄.count.trans hfour
  · rw [hs]
    exact Chained.inOrder_init first
  · rw [hs]
    rfl
  · rw [hs] at hk
    cases hk
  · rw [hs] at hk
    cases k with
    | zero =>
      cases hk
      have hnone : s.nextValue place 0 = 0 := by
        rw [hs]
        rfl
      refine ⟨o, ?_, ?_⟩
      · rw [hs]
        exact ho₅
      · show BlockShown place o first 0 [] (s.nextValue place 0)
        rw [hnone]
        exact hshown
    | succ k => cases hk
  · have hends : s.request.buffers = 0 ∧ s.request.lastBuffer = 0 := by
      rw [hs]
      exact ⟨rfl, rfl⟩
    rw [hends.1, hends.2, hblock]
    refine ⟨q₅, ?_, ?_, ?_, ?_⟩
    · rw [hs]
      exact hq₅
    · rw [hlen₅, hlen'', hlen', hqlen]
    · exact hkept₅ 0 _ hfront.1 (hkept 0 _ hfront.1 hbuffers)
    · exact hkept₅ 8 _ hfront.2 (hkept 8 _ hfront.2 hlast)

/-! ## The bytes of the chain -/

/-- **The receive chain in the memory of its pool.** `tcp_request_init` takes the request and
its first block from a new pool; reads and calls of the parser fill the blocks in place, and
`tcp_request_process` links new ones. The results of the calls are taken from the linked request
of `recvAll`, so they are the same. Whatever buffer size is configured, whatever the reads bring
and wherever `malloc` puts the memory, what the pointers in memory then lead to is that request:
`tcp_request_t` holds the addresses of the first block and of the last, every block begins with
its `buffer_t`, whose `next` is the address of the block behind it, and goes on with the bytes it
has received, and all these objects are apart, in live blocks of the pool. -/
theorem request_in_memory (w : Layout) (place : ℕ → ℕ) (configured : ℕ) (i : InitInput)
    (m : PoolMemory) (hinit : initInMemory place (requestBufferSize configured) i = some m)
    (reads : List ReadInput) (hfew : reads.length < 2 ^ 48)
    (hfits : Fits (requestBufferSize configured) (reads.map ReadInput.chunk))
    (x : Code × RequestMemory)
    (hx : recvInMemory w place ⟨.init (requestBufferSize configured), m⟩ reads = some x) :
    let rounds := (Chained.init (requestBufferSize configured)).recvAll w
      (reads.map ReadInput.chunk)
    let cells := x.2.memory.cells
    x.1 = rounds.code ∧ x.2.request = rounds.request ∧
      (∃ o, x.2.memory.objs[requestIndex rounds.request.further]? = some o ∧
        o.bytes.length = sizeofRequest ∧ readAt cells o.addr 16 =
          pointer ((x.2.addr rounds.request.buffers).value place) ++
            pointer ((x.2.addr rounds.request.lastBuffer).value place)) ∧
      (∀ k b, rounds.request.blocks[k]? = some b →
        readAt cells (x.2.addr k) (bufferHeader + b.bytes.length) =
          bufferHead ((x.2.addr k).value place) b.size b.bytes.length
            ((rounds.request.next k).elim 0 (fun j => (x.2.addr j).value place)) ++ b.bytes) ∧
      x.2.memory.objs.Pairwise (fun o o' => o.region.Apart o'.region) ∧
      ∀ o ∈ x.2.memory.objs, x.2.memory.store.heap.Holds o.addr o.bytes.length ∧
        o.addr.block ∈ x.2.memory.store.heap.live := by
  intro rounds cells
  have hlt := requestBufferSize_lt configured
  have hheader : bufferHeader = 32 := rfl
  have hstart := initInMemory_shown (by omega) hinit
  obtain ⟨hend, hcode, hrequest⟩ := hstart.reads reads rfl hfits (by
    simp only [Chained.further, Chained.init, List.length_singleton]
    omega) hx
  have hshows {o : Obj} {data : List UInt8} (ho : o ∈ x.2.memory.objs)
      (hat : BytesAt o.bytes 0 data) (hin : data.length ≤ o.bytes.length) :
      readAt cells o.addr data.length = data :=
    readAt_of_bytesAt (hend.pool.faithful.shows o ho) hat (by omega)
  refine ⟨hcode, hrequest, ?_, fun k b hk => ?_, hend.pool.faithful.arranged.pairwise, fun o ho =>
    hend.pool.faithful.arranged.holds ho⟩
  · obtain ⟨q, hq, hlen, hbuffers, hlast⟩ := hend.request
    rw [hrequest] at hbuffers hlast
    rw [hrequest] at hq
    have hmem := List.mem_of_getElem? hq
    refine ⟨q, hq, hlen, ?_⟩
    have hrlen : sizeofRequest = 88 := rfl
    have hboth := hshows hmem (hbuffers.append (by
      rw [length_pointer]
      exact hlast)) (by
        rw [List.length_append, length_pointer, length_pointer]
        omega)
    rw [List.length_append, length_pointer, length_pointer] at hboth
    exact hboth
  · obtain ⟨o, ho, hshown⟩ := hend.blocks k b (hrequest ▸ hk)
    have haddr := RequestMemory.addr_eq ho
    have hlen := hshown.length
    have hcap := hshown.fits
    have hhead : (bufferHead (o.addr.value place) b.size b.bytes.length
        (x.2.nextValue place k) ++ b.bytes).length = bufferHeader + b.bytes.length := by
      simp only [bufferHead, List.length_append, length_pointer]
      omega
    have hbytes := hshows (List.mem_of_getElem? ho) hshown.bytes (by
      rw [hhead]
      omega)
    rw [hhead] at hbytes
    rw [haddr, hbytes]
    unfold RequestMemory.nextValue
    rw [hrequest]

/-- Every `malloc` succeeds. -/
def willing : InitInput := ⟨noFailures, fun _ _ => 5, fun _ _ _ => 7, 1, 2, 3, 4⟩

/-- A read, after which `malloc` succeeds and `protocol_t` holds `protocol`. -/
def willingRead (protocol : List UInt8) (chunk : List UInt8) : ReadInput :=
  ⟨chunk, protocol, ⟨true, true⟩, fun _ _ => 9⟩

/-- A request of 1033 bytes, in a pool at address 4096: the `next` of the first block is the
address of the second. -/
theorem request_in_memory_two :
    ∃ m x, ∃ b : Buffer, initInMemory (fun _ => 4096) (requestBufferSize 0) willing = some m ∧
      recvInMemory ⟨fun _ => 0, fun _ => []⟩ (fun _ => 4096) ⟨.init (requestBufferSize 0), m⟩
        ((inTwo putLong.bytes).map (willingRead [])) = some x ∧ x.1 = .done ∧
      b.bytes.length = 1024 ∧
      readAt x.2.memory.cells (x.2.addr 0) (bufferHeader + b.bytes.length) =
        bufferHead ((x.2.addr 0).value (fun _ => 4096)) b.size b.bytes.length
          ((x.2.addr 1).value (fun _ => 4096)) ++ b.bytes := by
  obtain ⟨x, hx⟩ := Option.isSome_iff_exists.mp (by decide +kernel :
    ((initInMemory (fun _ => 4096) (requestBufferSize 0) willing).bind (fun m =>
      recvInMemory ⟨fun _ => 0, fun _ => []⟩ (fun _ => 4096) ⟨.init (requestBufferSize 0), m⟩
        ((inTwo putLong.bytes).map (willingRead [])))).isSome = true)
  obtain ⟨m, hm, hrun⟩ := Option.bind_eq_some_iff.mp hx
  have hchunks : ((inTwo putLong.bytes).map (willingRead [])).map ReadInput.chunk =
      inTwo putLong.bytes := by
    rw [List.map_map]
    exact List.map_id _
  obtain ⟨hcode, -, -, hblocks, -⟩ := request_in_memory ⟨fun _ => 0, fun _ => []⟩ (fun _ => 4096) 0
    willing m hm ((inTwo putLong.bytes).map (willingRead [])) (by simp [inTwo])
    (hchunks.symm ▸ putLong_fits) x hrun
  rw [hchunks] at hcode hblocks
  -- what the linked request says of the first block
  have hfirst : ((Chained.init (requestBufferSize 0)).recvAll ⟨fun _ => 0, fun _ => []⟩
      (inTwo putLong.bytes)).request.blocks[0]?.map (fun b => b.bytes.length) = some 1024 := by
    decide +kernel
  obtain ⟨b, hb, hlen⟩ := Option.map_eq_some_iff.mp hfirst
  have hblock := hblocks 0 b hb
  have hnext : ((Chained.init (requestBufferSize 0)).recvAll ⟨fun _ => 0, fun _ => []⟩
      (inTwo putLong.bytes)).request.next 0 = some 1 := by decide +kernel
  rw [hnext] at hblock
  exact ⟨m, x, b, hm, hrun, hcode.trans (by decide +kernel), hlen, hblock⟩

end Xpipe
