import Xpipe.RequestPool

/-!
# A buffer in memory

A block of a request as an object of the pool: `buffer_t`, whose four pointers are stored as
words, and the bytes behind it. Each store that the server and the parser make into a block
has a lemma that says what the block shows then.
-/
namespace Xpipe

/-- The bytes of a word, the lowest one first. -/
def leBytes : ℕ → ℕ → List UInt8
  | 0, _ => []
  | n + 1, v => UInt8.ofNat v :: leBytes n (v / 256)

/-- The address of a byte, for a place of each block. -/
def Addr.value (place : ℕ → ℕ) (a : Addr) : ℕ := place a.block + a.off

/-- A pointer as it is stored. -/
def pointer (v : ℕ) : List UInt8 := leBytes 8 v

/-- The bytes at `off` are `data`. -/
def BytesAt (bytes : List UInt8) (off : ℕ) (data : List UInt8) : Prop :=
  ∀ i < data.length, bytes[off + i]? = data[i]?

/-- `buffer_t` at `v`, for a block of `size` bytes that holds `used` bytes. -/
def bufferHead (v size used next : ℕ) : List UInt8 :=
  pointer (v + bufferHeader) ++ pointer (v + bufferHeader + size) ++
    pointer (v + bufferHeader + used) ++ pointer next

/-- `buffer_t` for an empty block of `size` bytes behind it. -/
def bufferBytes (v size : ℕ) : List UInt8 :=
  pointer (v + bufferHeader) ++ pointer (v + bufferHeader + size) ++
    pointer (v + bufferHeader) ++ pointer 0

/-- Stores into one object. -/
def PoolMemory.storeAll (m : PoolMemory) (i : ℕ) (stores : List (ℕ × List UInt8)) : PoolMemory :=
  (stores.map (fun st => MemOp.store i st.1 st.2)).foldl memStep m

/-! ## Bytes of an object -/

lemma length_leBytes (n v : ℕ) : (leBytes n v).length = n := by
  induction n generalizing v with
  | zero => rfl
  | succ n ih => rw [leBytes, List.length_cons, ih]

@[simp] lemma length_pointer (v : ℕ) : (pointer v).length = 8 := length_leBytes 8 v

lemma BytesAt.nil (bytes : List UInt8) (off : ℕ) : BytesAt bytes off [] := by
  intro i hi
  cases hi

lemma BytesAt.append {bytes a b : List UInt8} {off : ℕ} (ha : BytesAt bytes off a)
    (hb : BytesAt bytes (off + a.length) b) : BytesAt bytes off (a ++ b) := by
  intro i hi
  rw [List.length_append] at hi
  by_cases hin : i < a.length
  · rw [List.getElem?_append_left hin]
    exact ha i hin
  · have hat := hb (i - a.length) (by omega)
    rw [List.getElem?_append_right (by omega), ← hat]
    congr 1
    omega

lemma BytesAt.of_append {bytes a b : List UInt8} {off : ℕ} (h : BytesAt bytes off (a ++ b)) :
    BytesAt bytes off a ∧ BytesAt bytes (off + a.length) b := by
  constructor
  · intro i hi
    rw [h i (by
      rw [List.length_append]
      omega), List.getElem?_append_left hi]
  · intro i hi
    have hat := h (a.length + i) (by
      rw [List.length_append]
      omega)
    rw [List.getElem?_append_right (by omega), Nat.add_sub_cancel_left] at hat
    rw [← hat]
    congr 1
    omega

lemma bytesAt_stored {o : Obj} {off : ℕ} {data : List UInt8}
    (hin : off + data.length ≤ o.bytes.length) : BytesAt (o.stored off data).bytes off data := by
  intro i hi
  rw [getElem?_stored hin, if_pos (by omega)]
  congr 1
  omega

/-- A store elsewhere in the object. -/
lemma BytesAt.stored {o : Obj} {off off' : ℕ} {data data' : List UInt8}
    (h : BytesAt o.bytes off data) (hin : off' + data'.length ≤ o.bytes.length)
    (hside : off + data.length ≤ off' ∨ off' + data'.length ≤ off) :
    BytesAt (o.stored off' data').bytes off data := by
  intro i hi
  rw [getElem?_stored hin, if_neg (by omega)]
  exact h i hi

/-- A store of one byte inside. -/
lemma BytesAt.set {o : Obj} {off j : ℕ} {data : List UInt8} {v : UInt8}
    (h : BytesAt o.bytes off data) (hin : off + j + 1 ≤ o.bytes.length) :
    BytesAt (o.stored (off + j) [v]).bytes off (data.set j v) := by
  intro i hi
  rw [List.length_set] at hi
  rw [getElem?_stored (by simpa using hin), List.getElem?_set]
  by_cases hj : j = i
  · subst hj
    simp [hi]
  · rw [if_neg hj, if_neg (by
      simp only [List.length_singleton]
      omega)]
    exact h i hi

/-- What the memory shows at the bytes of an object. -/
lemma readAt_of_bytesAt {cells : Cells} {o : Obj} {off : ℕ} {data : List UInt8}
    (hshows : readAt cells o.addr o.bytes.length = o.bytes) (h : BytesAt o.bytes off data)
    (hin : off + data.length ≤ o.bytes.length) :
    readAt cells ⟨o.addr.block, o.addr.off + off⟩ data.length = data := by
  rw [readAt_eq_iff] at hshows ⊢
  intro i hi
  rw [← h i hi, hshows (off + i) (by omega), Nat.add_assoc]

/-! ## Stores through one pointer -/

/-- Only the bytes of object `i` differ, and the memory stays faithful. -/
structure SameBut (i : ℕ) (m m' : PoolMemory) : Prop where
  store : m'.store = m.store
  count : m'.objs.length = m.objs.length
  others : ∀ j, j ≠ i → m'.objs[j]? = m.objs[j]?
  faithful : m.Faithful → m'.Faithful

lemma SameBut.refl (i : ℕ) (m : PoolMemory) : SameBut i m m := ⟨rfl, rfl, fun _ _ => rfl, id⟩

lemma SameBut.trans {i : ℕ} {m₁ m₂ m₃ : PoolMemory} (h : SameBut i m₁ m₂) (h' : SameBut i m₂ m₃) :
    SameBut i m₁ m₃ :=
  ⟨h'.store.trans h.store, h'.count.trans h.count,
    fun j hj => (h'.others j hj).trans (h.others j hj), fun hm => h'.faithful (h.faithful hm)⟩

lemma store_sameBut (m : PoolMemory) (i off : ℕ) (data : List UInt8) :
    SameBut i m (memStep m (.store i off data)) := by
  refine ⟨?_, ?_, ?_, fun hm => hm.write i off data⟩
  · simp only [memStep, PoolMemory.write]
    split
    · rfl
    · split_ifs
      · rfl
      · rfl
  · simp only [memStep, PoolMemory.write]
    split
    · rfl
    · split_ifs
      · simp
      · rfl
  · intro j hj
    simp only [memStep, PoolMemory.write]
    split
    · rfl
    · split_ifs
      · exact List.getElem?_set_ne hj.symm
      · rfl

/-- A store inside the object. -/
lemma store_get {m : PoolMemory} {i off : ℕ} {data : List UInt8} {o : Obj}
    (hi : m.objs[i]? = some o) (hin : off + data.length ≤ o.bytes.length) :
    (memStep m (.store i off data)).objs[i]? = some (o.stored off data) := by
  simp only [memStep, PoolMemory.write, hi, if_pos hin]
  exact List.getElem?_set_self (List.getElem?_eq_some_iff.mp hi).1

/-- A store that would not be inside. -/
lemma store_outside {m : PoolMemory} {i off : ℕ} {data : List UInt8} {o : Obj}
    (hi : m.objs[i]? = some o) (hin : ¬ off + data.length ≤ o.bytes.length) :
    memStep m (.store i off data) = m := by
  simp only [memStep, PoolMemory.write, hi, if_neg hin]

/-- Stores that leave the bytes in front of `off` alone. -/
lemma storeAll_front {m : PoolMemory} {i : ℕ} {o : Obj} (off : ℕ) (stores : List (ℕ × List UInt8))
    (hi : m.objs[i]? = some o)
    (hin : ∀ st ∈ stores, off ≤ st.1 ∧ st.1 + st.2.length ≤ o.bytes.length) :
    SameBut i m (m.storeAll i stores) ∧ ∃ o', (m.storeAll i stores).objs[i]? = some o' ∧
      o'.addr = o.addr ∧ o'.bytes.length = o.bytes.length ∧
      ∀ at' data, at' + data.length ≤ off → BytesAt o.bytes at' data →
        BytesAt o'.bytes at' data := by
  induction stores generalizing m o with
  | nil => exact ⟨.refl i m, o, hi, rfl, rfl, fun _ _ _ hat => hat⟩
  | cons st stores ih =>
    obtain ⟨hoff, hend⟩ := hin st List.mem_cons_self
    have hlen := length_stored hend
    obtain ⟨hsame, o', hi', haddr, hlen', hkept⟩ := ih (store_get hi hend) (by
      intro st' hst'
      rw [hlen]
      exact hin st' (List.mem_cons_of_mem st hst'))
    refine ⟨(store_sameBut m i st.1 st.2).trans hsame, o', hi', haddr, hlen'.trans hlen, ?_⟩
    intro at' data hfront hat
    exact hkept at' data hfront (hat.stored hend (Or.inl (by omega)))

/-- `r->buffers = b; r->last_buffer = b`. -/
lemma store_ends {m : PoolMemory} {i : ℕ} {o : Obj} (v : ℕ) (hi : m.objs[i]? = some o)
    (hlen : 16 ≤ o.bytes.length) :
    SameBut i m (m.storeAll i [(0, pointer v), (8, pointer v)]) ∧
      ∃ o', (m.storeAll i [(0, pointer v), (8, pointer v)]).objs[i]? = some o' ∧
        o'.bytes.length = o.bytes.length ∧ BytesAt o'.bytes 0 (pointer v) ∧
        BytesAt o'.bytes 8 (pointer v) := by
  have hin : 0 + (pointer v).length ≤ o.bytes.length := by
    rw [length_pointer]
    omega
  have hlen₁ := length_stored hin
  have hin' : 8 + (pointer v).length ≤ (o.stored 0 (pointer v)).bytes.length := by
    rw [hlen₁, length_pointer]
    exact hlen
  have hget := store_get hi hin
  have hfirst := (bytesAt_stored hin).stored hin' (Or.inl (by rw [length_pointer]))
  exact ⟨(store_sameBut m i _ _).trans (store_sameBut _ i _ _), _, store_get hget hin',
    (length_stored hin').trans hlen₁, hfirst, bytesAt_stored hin'⟩

/-! ## One block -/

/-- The object shows a block of `size` bytes that holds `data`: its pointers, of which `last`
stands behind `used` bytes and `next` is `next`, and the bytes behind them. -/
structure BlockShown (place : ℕ → ℕ) (o : Obj) (size used : ℕ) (data : List UInt8) (next : ℕ) :
    Prop where
  length : o.bytes.length = bufferHeader + size
  fits : data.length ≤ size
  first : BytesAt o.bytes 0 (pointer (o.addr.value place + bufferHeader))
  stop : BytesAt o.bytes 8 (pointer (o.addr.value place + bufferHeader + size))
  last : BytesAt o.bytes 16 (pointer (o.addr.value place + bufferHeader + used))
  next : BytesAt o.bytes 24 (pointer next)
  data : BytesAt o.bytes bufferHeader data

section Block

variable {place : ℕ → ℕ} {o : Obj} {size used next : ℕ} {data : List UInt8}

/-- `read` stores behind the data. -/
lemma BlockShown.read (h : BlockShown place o size used data next) {chunk : List UInt8}
    (hroom : data.length + chunk.length ≤ size) :
    BlockShown place (o.stored (bufferHeader + data.length) chunk) size used (data ++ chunk)
      next := by
  have hlen := h.length
  have hin : bufferHeader + data.length + chunk.length ≤ o.bytes.length := by omega
  have hheader : bufferHeader = 32 := rfl
  refine ⟨(length_stored hin).trans hlen, by simpa using hroom, ?_, ?_, ?_, ?_, ?_⟩
  · exact h.first.stored hin (Or.inl (by rw [length_pointer]; omega))
  · exact h.stop.stored hin (Or.inl (by rw [length_pointer]; omega))
  · exact h.last.stored hin (Or.inl (by rw [length_pointer]; omega))
  · exact h.next.stored hin (Or.inl (by rw [length_pointer]; omega))
  · exact (h.data.stored hin (Or.inl (Nat.le_refl _))).append (bytesAt_stored hin)

lemma pointer_zero : pointer 0 = [0, 0, 0, 0, 0, 0, 0] ++ [NUL] := by decide

/-- What the NUL in front of offset `off` does to the data. -/
def terminateBytes (data : List UInt8) (off : ℕ) : List UInt8 :=
  if off = 0 then data else data.set (off - 1) NUL

/-- The parser stores NUL in front of offset `off`. At the first byte of the last block this is
the highest byte of `next`, which is zero. -/
lemma BlockShown.terminate (h : BlockShown place o size used data 0) {off : ℕ}
    (hin : 31 + off + 1 ≤ o.bytes.length) :
    BlockShown place (o.stored (31 + off) [NUL]) size used (terminateBytes data off) 0 := by
  have hheader : bufferHeader = 32 := rfl
  have hone : 31 + off + [NUL].length ≤ o.bytes.length := hin
  have hside {field : ℕ} (hat : field + 8 ≤ 31 + off) {v : ℕ} :
      field + (pointer v).length ≤ 31 + off ∨ 31 + off + [NUL].length ≤ field := by
    rw [length_pointer]
    exact Or.inl hat
  have hlength := (length_stored hone).trans h.length
  have hfirst := h.first.stored hone (hside (by omega))
  have hstop := h.stop.stored hone (hside (by omega))
  have hlast := h.last.stored hone (hside (by omega))
  unfold terminateBytes
  split_ifs with hoff
  · subst hoff
    refine ⟨hlength, h.fits, hfirst, hstop, hlast, ?_, ?_⟩
    · have hnext := h.next
      rw [pointer_zero] at hnext ⊢
      exact (hnext.of_append.1.stored hone (Or.inl (by decide))).append (bytesAt_stored hone)
    · exact h.data.stored hone (Or.inr (by simp [hheader]))
  · have hset := h.data.set (j := off - 1) (v := NUL) (by omega)
    have hplace : bufferHeader + (off - 1) = 31 + off := by omega
    rw [hplace] at hset
    exact ⟨hlength, by simpa using h.fits, hfirst, hstop, hlast,
      h.next.stored hone (hside (by omega)), hset⟩

/-- `b->last += n`. -/
lemma BlockShown.advance (h : BlockShown place o size used data next) (used' : ℕ) :
    BlockShown place (o.stored 16 (pointer (o.addr.value place + bufferHeader + used'))) size used'
      data next := by
  have hlen := h.length
  have hheader : bufferHeader = 32 := rfl
  have hin : 16 + (pointer (o.addr.value place + bufferHeader + used')).length ≤
      o.bytes.length := by
    rw [length_pointer]
    omega
  refine ⟨(length_stored hin).trans hlen, h.fits, ?_, ?_, bytesAt_stored hin, ?_, ?_⟩
  · exact h.first.stored hin (Or.inl (by rw [length_pointer]; omega))
  · exact h.stop.stored hin (Or.inl (by rw [length_pointer]))
  · exact h.next.stored hin (Or.inr (by rw [length_pointer]))
  · exact h.data.stored hin (Or.inr (by rw [length_pointer]; omega))

/-- `buf->next = new_buf`. -/
lemma BlockShown.link (h : BlockShown place o size used data next) (next' : ℕ) :
    BlockShown place (o.stored 24 (pointer next')) size used data next' := by
  have hlen := h.length
  have hheader : bufferHeader = 32 := rfl
  have hin : 24 + (pointer next').length ≤ o.bytes.length := by
    rw [length_pointer]
    omega
  refine ⟨(length_stored hin).trans hlen, h.fits, ?_, ?_, ?_, bytesAt_stored hin, ?_⟩
  · exact h.first.stored hin (Or.inl (by rw [length_pointer]; omega))
  · exact h.stop.stored hin (Or.inl (by rw [length_pointer]; omega))
  · exact h.last.stored hin (Or.inl (by rw [length_pointer]))
  · exact h.data.stored hin (Or.inr (by rw [length_pointer]; omega))

/-- A new block. -/
lemma blockShown_new (hlen : o.bytes.length = bufferHeader + size) :
    BlockShown place (o.stored 0 (bufferBytes (o.addr.value place) size)) size 0 [] 0 := by
  have hheader : bufferHeader = 32 := rfl
  have hbytes : (bufferBytes (o.addr.value place) size).length = 32 := by simp [bufferBytes]
  have hin : 0 + (bufferBytes (o.addr.value place) size).length ≤ o.bytes.length := by omega
  have hat := bytesAt_stored hin
  unfold bufferBytes at hat
  obtain ⟨hrest, hnext⟩ := hat.of_append
  obtain ⟨hrest, hlast⟩ := hrest.of_append
  obtain ⟨hfirst, hstop⟩ := hrest.of_append
  simp only [List.length_append, length_pointer] at hstop hlast hnext
  exact ⟨(length_stored hin).trans hlen, Nat.zero_le _, hfirst, hstop, hlast, hnext, .nil _ _⟩

lemma BlockShown.bytes {place : ℕ → ℕ} {o : Obj} {size next : ℕ} {data : List UInt8}
    (h : BlockShown place o size data.length data next) :
    BytesAt o.bytes 0 (bufferHead (o.addr.value place) size data.length next ++ data) := by
  have hheader : bufferHeader = 32 := rfl
  unfold bufferHead
  refine (((h.first.append ?_).append ?_).append ?_).append ?_
  · rw [length_pointer]
    exact h.stop
  · simp only [List.length_append, length_pointer]
    exact h.last
  · simp only [List.length_append, length_pointer]
    exact h.next
  · simp only [List.length_append, length_pointer]
    exact h.data

end Block

lemma length_terminateBytes (offs : List ℕ) (data : List UInt8) :
    (offs.foldl terminateBytes data).length = data.length := by
  induction offs generalizing data with
  | nil => rfl
  | cons off offs ih =>
    rw [List.foldl_cons, ih]
    unfold terminateBytes
    split_ifs
    · rfl
    · exact List.length_set ..

/-- The stores of the parser into the last block. -/
lemma parser_stores {place : ℕ → ℕ} {m : PoolMemory} {i size used : ℕ} {o : Obj}
    {data : List UInt8} (offs : List ℕ) (hi : m.objs[i]? = some o)
    (h : BlockShown place o size used data 0) :
    let m' := (offs.map (fun off => MemOp.store i (31 + off) [NUL])).foldl memStep m
    SameBut i m m' ∧ ∃ o', m'.objs[i]? = some o' ∧ o'.addr = o.addr ∧
      BlockShown place o' size used (offs.foldl terminateBytes data) 0 := by
  induction offs generalizing m o data with
  | nil => exact ⟨.refl i m, o, hi, rfl, h⟩
  | cons off offs ih =>
    simp only [List.map_cons, List.foldl_cons]
    by_cases hin : 31 + off + [NUL].length ≤ o.bytes.length
    · obtain ⟨hsame, o', hi', haddr, hshown⟩ := ih (store_get hi hin) (h.terminate hin)
      exact ⟨(store_sameBut m i _ _).trans hsame, o', hi', haddr, hshown⟩
    · -- behind the block the model stores nothing either
      have hlen := h.length
      have hfits := h.fits
      have hheader : bufferHeader = 32 := rfl
      have hkept : terminateBytes data off = data := by
        unfold terminateBytes
        split_ifs with hoff
        · rfl
        · apply List.set_eq_of_length_le
          simp only [List.length_singleton] at hin
          omega
      rw [store_outside hi hin, hkept]
      exact ih hi h

/-! ## Objects of the pool -/

/-- The memory is in the pool of a request, of which `used` bytes have been asked. -/
structure InPool (used : ℕ) (m : PoolMemory) : Prop where
  faithful : m.Faithful
  frugal : Frugal (1024 * 1024) used m.store
  max : m.store.pool.max = maxSizeOfChunk

lemma InPool.call {used : ℕ} {m : PoolMemory} (h : InPool used m) (n : SizeT) (ms : Mallocs)
    (hused : used < 2 ^ 60) :
    NewChunkFits m.store (.pmalloc n ms) ∧
      Frugal (1024 * 1024) (used + (PoolOp.pmalloc n ms).share maxSizeOfChunk)
        (Xpipe.pmalloc m.store n ms).2 ∧
      (Xpipe.pmalloc m.store n ms).2.pool.max = maxSizeOfChunk := by
  have hroomy : m.store.pool.max + sizeofChunk ≤ 1024 * 1024 := by
    rw [h.max]
    decide
  have hshare : (PoolOp.pmalloc n ms).share maxSizeOfChunk ≤ maxSizeOfChunk :=
    (share_le (by decide) _).1
  have hlimit : maxSizeOfChunk = 4096 := rfl
  have hheader : sizeofPool = 88 := rfl
  have hstep := poolStep_frugal h.frugal (by decide) (h.frugal.wide (by decide) (by omega))
    (.pmalloc n ms) (by
      rw [h.max]
      omega)
  rw [h.max] at hstep
  exact ⟨h.frugal.chunking.fits_of_roomy hroomy _, hstep, (pmalloc_max m.store n ms).trans h.max⟩

lemma InPool.mono {used used' : ℕ} {m : PoolMemory} (h : InPool used m) (hle : used ≤ used') :
    InPool used' m := ⟨h.faithful, h.frugal.mono hle, h.max⟩

/-- Stores through one pointer. -/
lemma InPool.same {used i : ℕ} {m m' : PoolMemory} (h : InPool used m) (hsame : SameBut i m m') :
    InPool used m' :=
  ⟨hsame.faithful h.faithful, hsame.store ▸ h.frugal, hsame.store ▸ h.max⟩

/-- The object that `pmalloc` adds. -/
lemma pmalloc_objs {m : PoolMemory} {n : SizeT} {ms : Mallocs} {a : Addr}
    (h : (Xpipe.pmalloc m.store n ms).1 = some a) (junk : Cells) :
    (m.pmalloc n ms junk).store = (Xpipe.pmalloc m.store n ms).2 ∧
      ∃ o, (m.pmalloc n ms junk).objs = o :: m.objs ∧ o.addr = a ∧ o.bytes.length = n.val := by
  unfold PoolMemory.pmalloc
  simp only [h, true_and]
  exact ⟨_, rfl, rfl, length_readAt _ _ _⟩

lemma InPool.pmalloc {used : ℕ} {m : PoolMemory} (h : InPool used m) {n : SizeT} {ms : Mallocs}
    {a : Addr} (hused : used < 2 ^ 60) (hcall : (Xpipe.pmalloc m.store n ms).1 = some a)
    (junk : Cells) :
    InPool (used + (PoolOp.pmalloc n ms).share maxSizeOfChunk) (m.pmalloc n ms junk) := by
  obtain ⟨hfits, hfrugal, hmax⟩ := h.call n ms hused
  have hstore := (pmalloc_objs hcall junk).1
  exact ⟨h.faithful.pmalloc hfits junk, hstore ▸ hfrugal, hstore ▸ hmax⟩

lemma pcalloc_objs {m : PoolMemory} {n : SizeT} {ms : Mallocs} {a : Addr}
    (h : (Xpipe.pmalloc m.store n ms).1 = some a) (junk : Cells) :
    (m.pcalloc n ms junk).store = (Xpipe.pmalloc m.store n ms).2 ∧
      ∃ o, (m.pcalloc n ms junk).objs = o :: m.objs := by
  unfold PoolMemory.pcalloc
  simp only [h, true_and]
  exact ⟨_, rfl⟩

lemma InPool.pcalloc {used : ℕ} {m : PoolMemory} (h : InPool used m) {n : SizeT} {ms : Mallocs}
    {a : Addr} (hused : used < 2 ^ 60) (hcall : (Xpipe.pmalloc m.store n ms).1 = some a)
    (junk : Cells) :
    InPool (used + (PoolOp.pmalloc n ms).share maxSizeOfChunk) (m.pcalloc n ms junk) := by
  obtain ⟨hfits, hfrugal, hmax⟩ := h.call n ms hused
  have hstore := (pcalloc_objs hcall junk).1
  exact ⟨h.faithful.pcalloc hfits junk, hstore ▸ hfrugal, hstore ▸ hmax⟩

end Xpipe
