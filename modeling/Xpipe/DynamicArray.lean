import Xpipe.MemPool
import Xpipe.Runs
import Xpipe.Storage

/-!
# The dynamic array

`dynamic_array.c` over a memory of separate regions, one for each `pmalloc`. The
outcome of each `pmalloc` is an input. A caller writes its element to the slot that
`dynamic_array_push` or `dynamic_array_push_ix` has returned.

`ArrayState` carries, beside the array and the memory, the list the array stands for
and the elements stored through `dynamic_array_push_ix`; the code reads neither.
-/
namespace Xpipe

open Runs Storage

/-- `dynamic_array_t`. `elts` is the region of the elements. -/
structure DynamicArray where
  elts : ℕ
  size : ℕ
  nelts : ℕ
  nalloc : ℕ
  deriving DecidableEq, Repr

/-- `sizeof(dynamic_array_t)`. -/
def sizeofDynamicArray : ℕ := 32

/-- `(u_char *) array->elts + index * array->size`. -/
def DynamicArray.slot (a : DynamicArray) (index : ℕ) : Addr :=
  ⟨a.elts, index * a.size % 2 ^ 64⟩

/-- The array that `dynamic_array_init` and `dynamic_array_create` leave once their
elements have a region. -/
def DynamicArray.empty (elts n size : ℕ) : DynamicArray := ⟨elts, size, 0, n⟩

/-- `dynamic_array_init`. The product is a `size_t`. -/
def dynamicArrayInit (m : Memory UInt8) (n size : ℕ) (ok : Bool) :
    Option DynamicArray × Memory UInt8 :=
  if ok then (some (.empty m.fresh n size), m.alloc (n * size % 2 ^ 64)) else (none, m)

/-- `dynamic_array_create`. The product of its two `uint_t` is a `uint_t`. -/
def dynamicArrayCreate (m : Memory UInt8) (n size : ℕ) (okArray okElts : Bool) :
    Option DynamicArray × Memory UInt8 :=
  if okArray then
    let m := m.alloc sizeofDynamicArray
    if okElts then (some (.empty m.fresh n size), m.alloc (n * size % 2 ^ 32)) else (none, m)
  else (none, m)

/-- The branch of `dynamic_array_push` for a full array: twice the room, and the old
elements copied there. -/
def dynamicArrayGrow (a : DynamicArray) (m : Memory UInt8) (ok : Bool) :
    Option (DynamicArray × Memory UInt8) :=
  let size := a.size * a.nalloc % 2 ^ 64
  if ok then
    some ({ a with nalloc := a.nalloc * 2 % 2 ^ 32, elts := m.fresh },
      (m.alloc (2 * size % 2 ^ 64)).copy m.fresh a.elts size)
  else none

/-- `dynamic_array_push`. -/
def dynamicArrayPush (a : DynamicArray) (m : Memory UInt8) (ok : Bool) :
    Option Addr × DynamicArray × Memory UInt8 :=
  match if a.nelts = a.nalloc then dynamicArrayGrow a m ok else some (a, m) with
  | none => (none, a, m)
  | some (a, m) => (some (a.slot a.nelts), { a with nelts := (a.nelts + 1) % 2 ^ 32 }, m)

/-- `dynamic_array_push_ix`. -/
def dynamicArrayPushIx (a : DynamicArray) (index : ℕ) : Option Addr :=
  if a.nalloc ≤ index then none else some (a.slot index)

/-- `dynamic_array_get_ix`. -/
def dynamicArrayGetIx (a : DynamicArray) (index : ℕ) : Option Addr :=
  if a.nelts ≤ index then none else some (a.slot index)

/-- An element of the caller's type, which has `size` bytes. -/
abbrev Element (size : ℕ) := Fin size → UInt8

/-- A call on the array, with the element the caller writes to the slot it gets. -/
inductive ArrayOp (size : ℕ)
  | push (v : Element size) (ok : Bool)
  | pushIx (index : ℕ) (v : Element size)
  | getIx (index : ℕ)

/-- The array, the memory, the list of the elements, and the element last stored
through `dynamic_array_push_ix` at each index. -/
structure ArrayState (size : ℕ) where
  array : DynamicArray
  mem : Memory UInt8
  values : List (Element size) := []
  stored : ℕ → Option (Element size) := fun _ => none

variable {size n : ℕ}

/-- The element at the slot that `dynamic_array_get_ix` returns. -/
def ArrayState.lookup (s : ArrayState size) (index : ℕ) : Option (Element size) :=
  (dynamicArrayGetIx s.array index).bind (fun p => s.mem.read p.block p.off size)

/-- One call, and the write to the slot it returned. -/
def arrayStep (s : ArrayState size) : ArrayOp size → ArrayState size
  | .push v ok =>
    match dynamicArrayPush s.array s.mem ok with
    | (none, a, m) => { s with array := a, mem := m }
    | (some p, a, m) =>
      { s with array := a, mem := m.write p.block p.off v, values := s.values ++ [v] }
  | .pushIx index v =>
    match dynamicArrayPushIx s.array index with
    | none => s
    | some p =>
      { s with
        mem := s.mem.write p.block p.off v
        values := s.values.set index v
        stored := Function.update s.stored index (some v) }
  | .getIx _ => s

/-- The array and the memory after a call of `dynamic_array_create` or
`dynamic_array_init` for `n` elements that succeeds. -/
def Made (n size : ℕ) (a : DynamicArray) (m : Memory UInt8) : Prop :=
  ∃ m₀, (∃ okArray okElts, dynamicArrayCreate m₀ n size okArray okElts = (some a, m)) ∨
    ∃ ok, dynamicArrayInit m₀ n size ok = (some a, m)

/-- A push that grows the array keeps its capacity a `uint_t` and its bytes a `size_t`. -/
def CapacityFits (s : ArrayState size) : ArrayOp size → Prop
  | .push _ ok => s.array.nelts = s.array.nalloc → ok = true →
      2 * s.array.nalloc < 2 ^ 32 ∧ 2 * (s.array.nalloc * size) < 2 ^ 64
  | _ => True

instance (s : ArrayState size) : (op : ArrayOp size) → Decidable (CapacityFits s op)
  | .push _ ok => inferInstanceAs (Decidable (s.array.nelts = s.array.nalloc → ok = true →
      2 * s.array.nalloc < 2 ^ 32 ∧ 2 * (s.array.nalloc * size) < 2 ^ 64))
  | .pushIx _ _ => .isTrue trivial
  | .getIx _ => .isTrue trivial

/-- A `dynamic_array_push_ix` that returns a slot returns one that has been pushed. -/
def IndexBelow (s : ArrayState size) : ArrayOp size → Prop
  | .pushIx index _ => index < s.array.nalloc → index < s.array.nelts
  | _ => True

instance (s : ArrayState size) : (op : ArrayOp size) → Decidable (IndexBelow s op)
  | .push _ _ => .isTrue trivial
  | .pushIx index _ => inferInstanceAs (Decidable (index < s.array.nalloc → index < s.array.nelts))
  | .getIx _ => .isTrue trivial

/-- The array and its memory hold the list `values`. The array was made for `n` elements. -/
structure Represents (n : ℕ) (a : DynamicArray) (m : Memory UInt8)
    (values : List (Element size)) : Prop where
  size_eq : a.size = size
  counted : a.nelts = values.length
  le_nalloc : a.nelts ≤ a.nalloc
  nalloc_pow : ∃ k, a.nalloc = n * 2 ^ k
  nalloc_lt : a.nalloc < 2 ^ 32
  bytes_lt : a.nalloc * size < 2 ^ 64
  room : a.nalloc * size ≤ m.room a.elts
  elts_lt : a.elts < m.fresh
  holds : ∀ i v, values[i]? = some v → m.read a.elts (i * size) size = some v

variable {a a' : DynamicArray} {m m' : Memory UInt8} {values : List (Element size)} {i j : ℕ}

lemma slot_end_le (h : i < n) : i * size + size ≤ n * size := by
  have hmul : (i + 1) * size ≤ n * size := Nat.mul_le_mul_right size h
  rwa [Nat.succ_mul] at hmul

lemma slots_apart (h : i ≠ j) : i * size + size ≤ j * size ∨ j * size + size ≤ i * size := by
  rcases Nat.lt_or_gt_of_ne h with hlt | hgt
  · exact .inl (slot_end_le hlt)
  · exact .inr (slot_end_le hgt)

namespace Represents

/-- Below the capacity the offset of a slot does not wrap. -/
lemma slot_eq (h : Represents n a m values) (hi : i < a.nalloc) :
    a.slot i = ⟨a.elts, i * size⟩ := by
  have hend : i * size + size ≤ a.nalloc * size := slot_end_le hi
  have hlt : i * size < 2 ^ 64 := by
    have hbytes := h.bytes_lt
    have hzero : size = 0 → i * size = 0 := fun h0 => by rw [h0, Nat.mul_zero]
    omega
  rw [DynamicArray.slot, h.size_eq, Nat.mod_eq_of_lt hlt]

lemma slot_room (h : Represents n a m values) (hi : i < a.nalloc) :
    i * size + size ≤ m.room a.elts :=
  (slot_end_le hi).trans h.room

lemma nalloc_pos (h : Represents n a m values) (hn : 1 ≤ n) : 0 < a.nalloc := by
  obtain ⟨k, hk⟩ := h.nalloc_pow
  rw [hk]
  exact Nat.mul_pos hn (Nat.two_pow_pos k)

/-- Growth keeps the list and makes room for one more element. -/
lemma grow (h : Represents n a m values) (hn : 1 ≤ n) (hfull : a.nelts = a.nalloc)
    (hcap : 2 * a.nalloc < 2 ^ 32) (hbytes : 2 * (a.nalloc * size) < 2 ^ 64)
    (hgrow : dynamicArrayGrow a m true = some (a', m')) :
    Represents n a' m' values ∧ a'.nelts < a'.nalloc := by
  have hpos := h.nalloc_pos hn
  have hsize : a.size * a.nalloc % 2 ^ 64 = a.nalloc * size := by
    rw [h.size_eq, Nat.mul_comm, Nat.mod_eq_of_lt h.bytes_lt]
  have htwice : 2 * (a.nalloc * size) % 2 ^ 64 = 2 * (a.nalloc * size) := Nat.mod_eq_of_lt hbytes
  have hnalloc : a.nalloc * 2 % 2 ^ 32 = 2 * a.nalloc := by omega
  simp only [dynamicArrayGrow, if_true, hsize, htwice, hnalloc, Option.some.injEq,
    Prod.mk.injEq] at hgrow
  obtain ⟨rfl, rfl⟩ := hgrow
  have hdouble : 2 * a.nalloc * size = 2 * (a.nalloc * size) := Nat.mul_assoc ..
  have hold : a.elts ≠ m.fresh := by
    have := h.elts_lt
    omega
  refine ⟨?_, by simp only; omega⟩
  constructor
  · exact h.size_eq
  · exact h.counted
  · simp only
    omega
  · obtain ⟨k, hk⟩ := h.nalloc_pow
    exact ⟨k + 1, by simp only [hk]; ring⟩
  · exact hcap
  · simp only
    omega
  · simp only [Memory.room_copy, Memory.room_alloc_self]
    omega
  · simp
  · intro i v hv
    have hi : i < a.nalloc := by
      have := (List.getElem?_eq_some_iff.mp hv).1
      have := h.counted
      omega
    have hroom : a.nalloc * size ≤ (m.alloc (2 * (a.nalloc * size))).room m.fresh := by
      rw [Memory.room_alloc_self]
      omega
    have hsrc : a.nalloc * size ≤ (m.alloc (2 * (a.nalloc * size))).room a.elts := by
      rw [Memory.room_alloc_of_ne hold]
      exact h.room
    rw [Memory.read_copy (slot_end_le hi) hroom hsrc, Memory.read_alloc hold]
    exact h.holds i v hv

/-- A write to a slot within the capacity changes the list at most in its place. -/
lemma store (h : Represents n a m values) (hi : i < a.nalloc) (v : Element size) {k : ℕ}
    {values' : List (Element size)} (hcount : k = values'.length) (hle : k ≤ a.nalloc)
    (hself : ∀ w, values'[i]? = some w → w = v)
    (hother : ∀ j w, j ≠ i → values'[j]? = some w → values[j]? = some w) :
    Represents n { a with nelts := k } (m.write (a.slot i).block (a.slot i).off v) values' := by
  rw [h.slot_eq hi]
  constructor
  · exact h.size_eq
  · exact hcount
  · exact hle
  · exact h.nalloc_pow
  · exact h.nalloc_lt
  · exact h.bytes_lt
  · exact h.room
  · exact h.elts_lt
  · intro j w hw
    by_cases hji : j = i
    · subst hji
      rw [hself w hw]
      exact Memory.read_write_self (h.slot_room hi)
    · exact (Memory.read_write_apart (slots_apart hji)).trans (h.holds j w (hother j w hji hw))

/-- The element written to the next slot is the new last one. -/
lemma append (h : Represents n a m values) (hroom : a.nelts < a.nalloc) (v : Element size) :
    Represents n { a with nelts := (a.nelts + 1) % 2 ^ 32 }
      (m.write (a.slot a.nelts).block (a.slot a.nelts).off v) (values ++ [v]) := by
  have hcounted := h.counted
  have hnext : (a.nelts + 1) % 2 ^ 32 = a.nelts + 1 := by
    have := h.nalloc_lt
    omega
  rw [hnext]
  apply h.store hroom v
  · simp [hcounted]
  · exact hroom
  · intro w hw
    rw [hcounted, List.getElem?_concat_length, Option.some.injEq] at hw
    exact hw.symm
  · intro j w hj hw
    have hlt : j < values.length := by
      have hle := (List.getElem?_eq_some_iff.mp hw).1
      rw [List.length_append, List.length_singleton] at hle
      omega
    rwa [List.getElem?_append_left hlt] at hw

/-- A write to the slot of an element replaces it in the list. -/
lemma set (h : Represents n a m values) (hi : i < a.nelts) (v : Element size) :
    Represents n a (m.write (a.slot i).block (a.slot i).off v) (values.set i v) := by
  apply h.store (hi.trans_le h.le_nalloc) v
  · rw [List.length_set]
    exact h.counted
  · exact h.le_nalloc
  · intro w hw
    rw [List.getElem?_set_self (h.counted ▸ hi), Option.some.injEq] at hw
    exact hw.symm
  · intro j w hj hw
    rwa [List.getElem?_set_ne (Ne.symm hj)] at hw

/-- A push either returns `NULL` and has changed nothing, or it returns the next slot of
an array that holds the same list and has room for one more. -/
lemma push_cases (h : Represents n a m values) (hn : 1 ≤ n) {ok : Bool}
    (hfits : a.nelts = a.nalloc → ok = true →
      2 * a.nalloc < 2 ^ 32 ∧ 2 * (a.nalloc * size) < 2 ^ 64) :
    dynamicArrayPush a m ok = (none, a, m) ∨
      ∃ a' m', Represents n a' m' values ∧ a'.nelts < a'.nalloc ∧ dynamicArrayPush a m ok =
        (some (a'.slot a'.nelts), { a' with nelts := (a'.nelts + 1) % 2 ^ 32 }, m') := by
  by_cases hfull : a.nelts = a.nalloc
  · cases ok with
    | false =>
      left
      simp [dynamicArrayPush, dynamicArrayGrow, hfull]
    | true =>
      right
      obtain ⟨hcap, hbytes⟩ := hfits hfull rfl
      obtain ⟨⟨a', m'⟩, hgrow⟩ : ∃ p, dynamicArrayGrow a m true = some p := ⟨_, rfl⟩
      obtain ⟨hrep, hroom⟩ := h.grow hn hfull hcap hbytes hgrow
      exact ⟨a', m', hrep, hroom, by simp only [dynamicArrayPush, if_pos hfull, hgrow]⟩
  · right
    have hle := h.le_nalloc
    exact ⟨a, m, h, by omega, by simp only [dynamicArrayPush, if_neg hfull]⟩

/-- `dynamic_array_get_ix` reads the list. -/
lemma lookup_eq {s : ArrayState size} (h : Represents n s.array s.mem s.values) (i : ℕ) :
    s.lookup i = s.values[i]? := by
  have hcounted := h.counted
  unfold ArrayState.lookup dynamicArrayGetIx
  by_cases hi : s.array.nelts ≤ i
  · rw [if_pos hi, List.getElem?_eq_none (by omega)]
    rfl
  · have hlen : i < s.values.length := by omega
    have hroom : i < s.array.nalloc := by
      have := h.le_nalloc
      omega
    rw [if_neg hi, Option.bind_some, h.slot_eq hroom, List.getElem?_eq_getElem hlen]
    exact h.holds i _ (List.getElem?_eq_getElem hlen)

end Represents

/-- The array represents its list, and what was stored by index is in the list. -/
structure SoundArray (n : ℕ) (s : ArrayState size) : Prop where
  represents : Represents n s.array s.mem s.values
  stored : ∀ i v, s.stored i = some v → s.values[i]? = some v

/-- A state after `dynamic_array_create` or `dynamic_array_init`. -/
def ArrayState.start (a : DynamicArray) (m : Memory UInt8) : ArrayState size :=
  { array := a, mem := m }

lemma Made.eq_empty (h : Made n size a m) :
    a = .empty a.elts n size ∧ a.elts < m.fresh ∧
      (m.room a.elts = n * size % 2 ^ 32 ∨ m.room a.elts = n * size % 2 ^ 64) := by
  obtain ⟨m₀, ⟨okArray, okElts, h⟩ | ⟨ok, h⟩⟩ := h
  · cases okArray <;> cases okElts <;> simp [dynamicArrayCreate] at h
    obtain ⟨rfl, rfl⟩ := h
    refine ⟨rfl, Nat.lt_succ_self _, .inl ?_⟩
    exact Memory.room_alloc_self (m := m₀.alloc sizeofDynamicArray)
  · cases ok <;> simp [dynamicArrayInit] at h
    obtain ⟨rfl, rfl⟩ := h
    refine ⟨rfl, Nat.lt_succ_self _, .inr ?_⟩
    exact Memory.room_alloc_self (m := m₀)

/-- A new array whose region has room for all its elements holds the empty list. -/
lemma Made.sound (h : Made n size a m) (hn : n < 2 ^ 32) (hroom : n * size ≤ m.room a.elts) :
    SoundArray n (ArrayState.start a m : ArrayState size) := by
  obtain ⟨ha, hlt, hroom'⟩ := h.eq_empty
  have hbytes : n * size < 2 ^ 64 := by omega
  refine ⟨?_, by simp [ArrayState.start]⟩
  rw [ha] at hroom hlt ⊢
  constructor
  · rfl
  · rfl
  · exact Nat.zero_le n
  · exact ⟨0, (Nat.mul_one n).symm⟩
  · exact hn
  · exact hbytes
  · exact hroom
  · exact hlt
  · simp [ArrayState.start]

/-- One step of the refinement: the list grows with every push that returns a slot and
is changed in place by every store below its length. -/
lemma SoundArray.step (hn : 1 ≤ n) {s : ArrayState size} (h : SoundArray n s) {op : ArrayOp size}
    (hfits : CapacityFits s op) (hindex : IndexBelow s op) : SoundArray n (arrayStep s op) := by
  cases op with
  | push v ok =>
    rcases h.represents.push_cases hn hfits with hnull | ⟨a', m', hrep, hroom, hpush⟩
    · simp only [arrayStep, hnull]
      exact h
    · simp only [arrayStep, hpush]
      refine ⟨hrep.append hroom v, fun i w hw => ?_⟩
      have hin := h.stored i w hw
      rw [List.getElem?_append_left (List.getElem?_eq_some_iff.mp hin).1]
      exact hin
  | pushIx index v =>
    by_cases hnull : s.array.nalloc ≤ index
    · simp only [arrayStep, dynamicArrayPushIx, if_pos hnull]
      exact h
    · have hi : index < s.array.nelts := hindex (Nat.lt_of_not_le hnull)
      simp only [arrayStep, dynamicArrayPushIx, if_neg hnull]
      refine ⟨h.represents.set hi v, fun i w hw => ?_⟩
      by_cases heq : i = index
      · subst heq
        change Function.update s.stored i (some v) i = some w at hw
        rw [Function.update_self] at hw
        rw [List.getElem?_set_self (h.represents.counted ▸ hi)]
        exact hw
      · change Function.update s.stored index (some v) i = some w at hw
        rw [Function.update_of_ne heq] at hw
        rw [List.getElem?_set_ne (Ne.symm heq)]
        exact h.stored i w hw
  | getIx => exact h

lemma SoundArray.run (hn : 1 ≤ n) {s : ArrayState size} (h : SoundArray n s)
    {ops : List (ArrayOp size)}
    (hrun : Along arrayStep (fun s op => CapacityFits s op ∧ IndexBelow s op) s ops) :
    SoundArray n (ops.foldl arrayStep s) :=
  invariant_foldl (I := SoundArray n) (fun _ _ hs hop => hs.step hn hop.1 hop.2) h hrun

/-- Without `dynamic_array_push_ix` there is no index to bound. -/
lemma along_indexBelow {s : ArrayState size} {ops : List (ArrayOp size)}
    (hops : ∀ index v, .pushIx index v ∉ ops) (hfits : Along arrayStep CapacityFits s ops) :
    Along arrayStep (fun s op => CapacityFits s op ∧ IndexBelow s op) s ops := by
  induction ops generalizing s with
  | nil => trivial
  | cons op ops ih =>
    have hrest : ∀ index v, .pushIx index v ∉ ops := by
      intro index v hmem
      exact hops index v (List.mem_cons_of_mem op hmem)
    have hindex : IndexBelow s op := by
      cases op with
      | push => trivial
      | pushIx index v => exact absurd List.mem_cons_self (hops index v)
      | getIx => trivial
    exact ⟨⟨hfits.1, hindex⟩, ih hrest hfits.2⟩

/-- The array refines a list. After every run of pushes and reads on a new array,
`dynamic_array_get_ix` reads the list of the elements of the successful pushes, the number
of elements is within a capacity that has only been doubled, one more push keeps every
element, and a push that returns `NULL` changes nothing. -/
theorem array_refines_list (hn : 1 ≤ n) (hcap : n < 2 ^ 32) (hbytes : n * size < 2 ^ 32)
    (hmade : Made n size a m) {ops : List (ArrayOp size)}
    (hops : ∀ index v, .pushIx index v ∉ ops)
    (hfits : Along arrayStep CapacityFits (ArrayState.start a m) ops) :
    let s := ops.foldl arrayStep (ArrayState.start a m)
    (∀ i, s.lookup i = s.values[i]? ∧
        (dynamicArrayGetIx s.array i = none ↔ s.values.length ≤ i)) ∧
      s.array.nelts ≤ s.array.nalloc ∧ (∃ k, s.array.nalloc = n * 2 ^ k) ∧
      (∀ v ok, CapacityFits s (.push v ok) → ∀ i < s.values.length,
        (arrayStep s (.push v ok)).lookup i = s.lookup i) ∧
      ∀ v ok, (dynamicArrayPush s.array s.mem ok).1 = none → arrayStep s (.push v ok) = s := by
  intro s
  have hroom : n * size ≤ m.room a.elts := by
    obtain ⟨-, -, hroom⟩ := hmade.eq_empty
    omega
  have hs : SoundArray n s := (hmade.sound hcap hroom).run hn (along_indexBelow hops hfits)
  refine ⟨?_, hs.represents.le_nalloc, hs.represents.nalloc_pow, ?_, ?_⟩
  · intro i
    refine ⟨hs.represents.lookup_eq i, ?_⟩
    rw [← hs.represents.counted]
    simp [dynamicArrayGetIx]
  · intro v ok hfits i hi
    rw [(hs.step hn hfits trivial).represents.lookup_eq, hs.represents.lookup_eq]
    rcases hs.represents.push_cases hn hfits with hnull | ⟨a', m', -, -, hpush⟩
    · simp only [arrayStep, hnull]
    · simp only [arrayStep, hpush]
      exact List.getElem?_append_left hi
  · intro v ok hnone
    have hnull : dynamicArrayPush s.array s.mem ok = (none, s.array, s.mem) := by
      unfold dynamicArrayPush at hnone ⊢
      split at hnone
      · rfl
      · cases hnone
    simp only [arrayStep, hnull]

/-- A memory without a region. -/
def noMemory : Memory UInt8 := ⟨0, fun _ => 0, fun _ _ => 0⟩

/-- Room for one element of two bytes, then two pushes of which the second grows the
array, and a third for which there is no memory. -/
theorem array_refines_list_grown :
    let s := [.push ![1, 2] true, .push ![3, 4] true, .getIx 0, .push ![5, 6] false].foldl arrayStep
      (ArrayState.start (.empty 1 1 2) ((noMemory.alloc 32).alloc 2))
    s.values = [![1, 2], ![3, 4]] ∧ s.lookup 0 = s.values[0]? ∧ s.lookup 2 = s.values[2]? := by
  have hmade : Made 1 2 (.empty 1 1 2) ((noMemory.alloc 32).alloc 2) :=
    ⟨noMemory, .inl ⟨true, true, rfl⟩⟩
  have hfits : Along arrayStep CapacityFits
      (ArrayState.start (.empty 1 1 2) ((noMemory.alloc 32).alloc 2))
      [.push ![1, 2] true, .push ![3, 4] true, .getIx 0, .push ![5, 6] false] := by decide
  have hrun := array_refines_list (by decide) (by decide) (by decide) hmade (by simp) hfits
  exact ⟨rfl, (hrun.1 0).1, (hrun.1 2).1⟩

/-- Every element stored by index is read back at its index, and a push does not hand out
an index that has been stored at. -/
def StoresVisible (s : ArrayState size) (op : ArrayOp size) : Prop :=
  (∀ i v, (arrayStep s op).stored i = some v → (arrayStep s op).lookup i = some v) ∧
    match op with
    | .push _ ok => (dynamicArrayPush s.array s.mem ok).1 ≠ none → s.stored s.array.nelts = none
    | _ => True

lemma SoundArray.visible (hn : 1 ≤ n) {s : ArrayState size} (h : SoundArray n s) {op : ArrayOp size}
    (hfits : CapacityFits s op) (hindex : IndexBelow s op) : StoresVisible s op := by
  constructor
  · intro i v hv
    have hs := h.step hn hfits hindex
    rw [hs.represents.lookup_eq]
    exact hs.stored i v hv
  · cases op with
    | push v ok =>
      intro _
      rw [Option.eq_none_iff_forall_ne_some]
      intro w hw
      have hin := (List.getElem?_eq_some_iff.mp (h.stored _ w hw)).1
      have := h.represents.counted
      omega
    | pushIx => trivial
    | getIx => trivial

/-- A store at an index that has not been pushed cannot be read back. -/
lemma StoresVisible.indexBelow {s : ArrayState size} {op : ArrayOp size} (h : StoresVisible s op) :
    IndexBelow s op := by
  cases op with
  | push => trivial
  | pushIx index v =>
    intro hlt
    by_contra hle
    have hstored : (arrayStep s (.pushIx index v)).stored index = some v := by
      simp [arrayStep, dynamicArrayPushIx, Nat.not_le_of_lt hlt]
    have hlookup := h.1 index v hstored
    simp only [ArrayState.lookup, arrayStep, dynamicArrayPushIx, if_neg (Nat.not_le_of_lt hlt),
      dynamicArrayGetIx, if_pos (Nat.le_of_not_lt hle), Option.bind_none] at hlookup
    cases hlookup
  | getIx => trivial

/-- Stores by index are visible and stable along every run on a new array whose sizes do not
wrap and in which every index stored at has been pushed; no other store is visible. -/
theorem stores_visible (hn : 1 ≤ n) (hcap : n < 2 ^ 32) (hmade : Made n size a m)
    (ops : List (ArrayOp size)) :
    (n * size ≤ m.room a.elts →
      Along arrayStep (fun s op => CapacityFits s op ∧ IndexBelow s op) (.start a m) ops →
        Along arrayStep StoresVisible (.start a m) ops) ∧
      (Along arrayStep StoresVisible (.start a m) ops →
        Along arrayStep IndexBelow (.start a m) ops) := by
  constructor
  · intro hroom hrun
    exact along_mono (I := SoundArray n) (fun _ _ hs hop => hs.step hn hop.1 hop.2)
      (fun _ _ hs hop => hs.visible hn hop.1 hop.2) (hmade.sound hcap hroom) hrun
  · intro hrun
    exact along_mono (I := fun _ => True) (fun _ _ _ _ => trivial)
      (fun _ _ _ hop => hop.indexBelow) trivial hrun

/-- One push, then a store in its place. -/
theorem stores_visible_pushed :
    Along arrayStep StoresVisible (.start (.empty 0 1 1) (noMemory.alloc 1))
      [.push ![1] true, .pushIx 0 ![7], .getIx 0] := by
  have hmade : Made 1 1 (.empty 0 1 1) (noMemory.alloc 1) := ⟨noMemory, .inr ⟨true, rfl⟩⟩
  exact (stores_visible (by decide) (by decide) hmade _).1 (by decide) (by decide)

/-- A store by index on a new array, as `conf_file_parser` files the first module: the
element cannot be read back. -/
theorem stores_visible_unpushed :
    Made 1 1 (.empty 0 1 1) (noMemory.alloc 1) ∧
      ¬ Along arrayStep StoresVisible (.start (.empty 0 1 1) (noMemory.alloc 1))
        [.pushIx 0 ![7]] := by
  refine ⟨⟨noMemory, .inr ⟨true, rfl⟩⟩, fun h => ?_⟩
  have hbelow : 0 < (DynamicArray.empty 0 1 1).nelts := h.1.indexBelow (by decide)
  exact absurd hbelow (by decide)

end Xpipe
