import Mathlib.Logic.Function.Basic
import Mathlib.Tactic

/-!
# Storage in separate regions

A memory of numbered regions. Each allocation opens a region that was not used
before, so two regions never share a cell. A read that leaves its region gives
nothing. The rules say which reads an allocation, a copy between regions and a
write leave alone, and what they put in place of the others.
-/
namespace Storage

/-- The next unused region, the room of each region, and the cells of each. -/
structure Memory (β : Type*) where
  fresh : ℕ
  room : ℕ → ℕ
  cells : ℕ → ℕ → β

namespace Memory

variable {β : Type*} {m : Memory β} {r src off off' k n : ℕ}

/-- Opens a region of `n` cells. What the cells hold is not changed. -/
def alloc (m : Memory β) (n : ℕ) : Memory β :=
  { m with fresh := m.fresh + 1, room := Function.update m.room m.fresh n }

/-- Copies the first `n` cells of `src` to the region `r`. -/
def copy (m : Memory β) (r src n : ℕ) : Memory β :=
  { m with cells := fun q j => if q = r ∧ j < n then m.cells src j else m.cells q j }

/-- Writes the cells `v` at `off`. -/
def write (m : Memory β) (r off : ℕ) (v : Fin k → β) : Memory β :=
  { m with
    cells := fun q j =>
      if h : q = r ∧ off ≤ j ∧ j < off + k then v ⟨j - off, by omega⟩ else m.cells q j }

/-- The `k` cells at `off`, if they lie in the region. -/
def read (m : Memory β) (r off k : ℕ) : Option (Fin k → β) :=
  if off + k ≤ m.room r then some (fun j => m.cells r (off + j)) else none

@[simp] theorem fresh_alloc : (m.alloc n).fresh = m.fresh + 1 := rfl

@[simp] theorem room_alloc_self : (m.alloc n).room m.fresh = n :=
  Function.update_self ..

theorem room_alloc_of_ne (h : r ≠ m.fresh) : (m.alloc n).room r = m.room r :=
  Function.update_of_ne h ..

@[simp] theorem fresh_copy : (m.copy r src n).fresh = m.fresh := rfl

@[simp] theorem room_copy : (m.copy r src n).room = m.room := rfl

@[simp] theorem room_write {v : Fin k → β} : (m.write r off v).room = m.room := rfl

theorem read_alloc (h : r ≠ m.fresh) : (m.alloc n).read r off k = m.read r off k := by
  unfold read
  rw [room_alloc_of_ne h]
  rfl

/-- A copy shows the source, as far as it goes. -/
theorem read_copy (hk : off + k ≤ n) (hr : n ≤ m.room r) (hsrc : n ≤ m.room src) :
    (m.copy r src n).read r off k = m.read src off k := by
  unfold read
  rw [room_copy, if_pos (hk.trans hr), if_pos (hk.trans hsrc)]
  congr 1
  ext j
  have hj : off + j < n := by omega
  simp [copy, hj]

theorem read_write_self {v : Fin k → β} (h : off + k ≤ m.room r) :
    (m.write r off v).read r off k = some v := by
  unfold read
  rw [room_write, if_pos h]
  congr 1
  ext j
  have hj := j.isLt
  simp [write, hj]

theorem read_write_apart {v : Fin n → β} (h : off' + k ≤ off ∨ off + n ≤ off') :
    (m.write r off v).read r off' k = m.read r off' k := by
  unfold read
  rw [room_write]
  congr 2
  ext j
  have hout : ¬ (r = r ∧ off ≤ off' + j ∧ off' + j < off + n) := by omega
  exact dif_neg hout

end Memory

end Storage
