import Xpipe.Bytes

/-!
# The chain of receive buffers

A request keeps what it has received in a chain of `buffer_t` blocks. A block
is its capacity (`end - buffer`) and the bytes in `[buffer, last)`; the chain
from `buffers` by `next` is a list whose last element is `last_buffer`. A
pointer into the chain is a block and an offset.

Blocks lie anywhere in memory. `Layout` says where, and which bytes happen to
follow a block, so that the difference of two pointers and a walk that runs off
the end of a block have the value the machine gives them.
-/
namespace Xpipe

structure Ptr where
  blk : ℕ
  off : ℕ
  deriving DecidableEq, Repr

/-- `buffer_t`: the capacity and the received bytes. -/
structure Buffer where
  size : ℕ
  bytes : List UInt8
  deriving DecidableEq, Repr

namespace Buffer

/-- `b->end - b->last`. -/
def room (b : Buffer) : ℕ := b.size - b.bytes.length

/-- `b->last == b->end`. -/
def full (b : Buffer) : Bool := b.bytes.length == b.size

end Buffer

/-- The address of each block's first payload byte, and the bytes that a walk
off the end of its received part meets. -/
structure Layout where
  base : ℕ → ℤ
  beyond : ℕ → List UInt8

/-- `sizeof(buffer_t)`: four pointers, stored in front of the payload. -/
def bufferHeader : ℕ := 32

namespace Layout

/-- The address of a pointer; NULL is zero. -/
def addr (w : Layout) : Option Ptr → ℤ
  | none => 0
  | some p => w.base p.blk + p.off

/-- Blocks of the given capacities do not overlap, their headers included. -/
def Apart (w : Layout) (size : ℕ → ℕ) : Prop :=
  ∀ i j, i ≠ j → w.base i + size i + bufferHeader ≤ w.base j ∨
    w.base j + size j + bufferHeader ≤ w.base i

theorem addr_sub_same (w : Layout) (p q : Ptr) (h : p.blk = q.blk) :
    w.addr (some p) - w.addr (some q) = (p.off : ℤ) - q.off := by
  simp only [addr, h]
  omega

/-- Blocks at a stride that leaves room for any capacity the server uses, with
nothing readable behind them. -/
def spaced : Layout := ⟨fun k => 2 ^ 24 * k, fun _ => []⟩

end Layout

/-- The received bytes of block `k`. -/
def received (bs : List Buffer) (k : ℕ) : List UInt8 := (bs[k]?.map Buffer.bytes).getD []

/-- The received bytes of a block from `p` on. -/
def inside (bs : List Buffer) : Option Ptr → List UInt8
  | none => []
  | some p => (received bs p.blk).drop p.off

/-- Every byte a walk from `p` meets: the received ones, then whatever follows. -/
def memoryAt (w : Layout) (bs : List Buffer) : Option Ptr → List UInt8
  | none => []
  | some p => inside bs (some p) ++ w.beyond p.blk

/-- A walk that looks at `n` bytes stays inside the bytes `l`. -/
def within (n : ℕ) (l : List UInt8) : Bool := n ≤ l.length

/-- The store `*p = v`. Outside the received bytes it lands in memory that is
not part of the chain. -/
def setByte (bs : List Buffer) (p : Ptr) (v : UInt8) : List Buffer :=
  bs.modify p.blk (fun b => { b with bytes := b.bytes.set p.off v })

/-- The effect of `read` on the chain: bytes stored from `last_buffer->last` on. -/
def extendLast (bs : List Buffer) (cs : List UInt8) : List Buffer :=
  bs.modify (bs.length - 1) (fun b => { b with bytes := b.bytes ++ cs })

/-- The index of `last_buffer`. -/
def lastIndex (bs : List Buffer) : ℕ := bs.length - 1

@[simp] theorem length_setByte (bs : List Buffer) (p : Ptr) (v : UInt8) :
    (setByte bs p v).length = bs.length := by simp [setByte]

@[simp] theorem length_extendLast (bs : List Buffer) (cs : List UInt8) :
    (extendLast bs cs).length = bs.length := by simp [extendLast]

@[simp] theorem lastIndex_extendLast (bs : List Buffer) (cs : List UInt8) :
    lastIndex (extendLast bs cs) = lastIndex bs := by simp [lastIndex]

theorem map_size_modify (bs : List Buffer) (k : ℕ) (f : List UInt8 → List UInt8) :
    (bs.modify k (fun b => { b with bytes := f b.bytes })).map Buffer.size =
      bs.map Buffer.size := by
  apply List.ext_getElem?
  intro i
  rw [List.getElem?_map, List.getElem?_map, List.getElem?_modify]
  cases bs[i]? with
  | none => rfl
  | some b =>
    simp only [Option.map_some, Option.map_eq_map]
    split_ifs <;> rfl

/-- A store does not change the capacities. -/
theorem sizes_setByte (bs : List Buffer) (p : Ptr) (v : UInt8) :
    (setByte bs p v).map Buffer.size = bs.map Buffer.size :=
  map_size_modify bs p.blk (fun l => l.set p.off v)

theorem sizes_extendLast (bs : List Buffer) (cs : List UInt8) :
    (extendLast bs cs).map Buffer.size = bs.map Buffer.size :=
  map_size_modify bs (bs.length - 1) (fun l => l ++ cs)

theorem received_setByte (bs : List Buffer) (p : Ptr) (v : UInt8) (k : ℕ) :
    received (setByte bs p v) k =
      if k = p.blk then (received bs k).set p.off v else received bs k := by
  unfold received setByte
  rw [List.getElem?_modify]
  by_cases h : p.blk = k
  · subst h
    cases hb : bs[p.blk]? <;> simp
  · simp [h, Ne.symm h]

theorem received_extendLast (bs : List Buffer) (cs : List UInt8) (k : ℕ) (hbs : bs ≠ []) :
    received (extendLast bs cs) k =
      if k = lastIndex bs then received bs k ++ cs else received bs k := by
  unfold received extendLast lastIndex
  rw [List.getElem?_modify]
  by_cases h : bs.length - 1 = k
  · subst h
    have hlt : bs.length - 1 < bs.length := by
      have := List.length_pos_iff.mpr hbs
      omega
    simp [List.getElem?_eq_getElem hlt]
  · simp [h, Ne.symm h]

@[simp] theorem extendLast_nil (bs : List Buffer) : extendLast bs [] = bs := by
  simp only [extendLast, List.append_nil]
  exact List.modify_id _ bs

theorem extendLast_append (bs : List Buffer) (a b : List UInt8) :
    extendLast (extendLast bs a) b = extendLast bs (a ++ b) := by
  unfold extendLast
  rw [List.length_modify, List.modify_modify_eq]
  simp [Function.comp_def]

/-- A store in front of the new bytes commutes with their arrival. -/
theorem setByte_extendLast (bs : List Buffer) (cs : List UInt8) (p : Ptr) (v : UInt8)
    (h : p.blk = lastIndex bs → p.off < (received bs p.blk).length) :
    setByte (extendLast bs cs) p v = extendLast (setByte bs p v) cs := by
  unfold setByte extendLast
  rw [List.length_modify]
  by_cases hp : p.blk = bs.length - 1
  · rw [hp, List.modify_modify_eq, List.modify_modify_eq]
    rcases Nat.lt_or_ge (bs.length - 1) bs.length with hlt | hge
    · have hoff := h hp
      rw [received, hp, List.getElem?_eq_getElem hlt] at hoff
      simp only [Option.map_some, Option.getD_some] at hoff
      apply List.ext_getElem?
      intro i
      rw [List.getElem?_modify, List.getElem?_modify]
      by_cases hi : bs.length - 1 = i
      · subst hi
        simp [List.getElem?_eq_getElem hlt, List.set_append_left _ _ hoff]
      · simp [hi]
    · have : bs = [] := List.length_eq_zero_iff.mp (by omega)
      simp [this]
  · rw [List.modify_modify_ne _ _ _ hp]

end Xpipe
