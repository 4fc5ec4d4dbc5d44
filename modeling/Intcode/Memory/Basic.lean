import Intcode.Fault

/-!
Memory: a row of words with addresses from zero. An address is a word, so it may be negative; it is
in bounds when it is the address of a cell. Reading and writing elsewhere is a fault, and no
operation shortens a memory.
-/

namespace Intcode

/-- A row of cells. -/
structure Memory where
  cells : Array Word := #[]
deriving DecidableEq

namespace Memory

/-- The number of cells. -/
def size (m : Memory) : Nat := m.cells.size

/-- Whether there is no cell. -/
def isEmpty (m : Memory) : Bool := m.cells.isEmpty

/-- `m.InBounds a` says that `a` is the address of a cell of `m`. -/
def InBounds (m : Memory) (a : Word) : Prop := 0 ≤ a ∧ a.toNatClampNeg < m.cells.size

instance (m : Memory) (a : Word) : Decidable (m.InBounds a) :=
  inferInstanceAs (Decidable (0 ≤ a ∧ a.toNatClampNeg < m.cells.size))

/-- The fault of an access at `a`. -/
def outOfBounds (m : Memory) (a : Word) : Fault := .outOfBounds a m.size

/-- The word in the cell at `a`. -/
def read (m : Memory) (a : Word) : Except Fault Word :=
  if h : m.InBounds a then
    have := h.2
    .ok m.cells[a.toNatClampNeg]
  else .error (m.outOfBounds a)

/-- `m.set a v` has `v` in the cell at `a`, if there is one, and is otherwise `m`. -/
def set (m : Memory) (a v : Word) : Memory :=
  if 0 ≤ a then ⟨m.cells.setIfInBounds a.toNatClampNeg v⟩ else m

/-- The memory with `v` in the cell at `a`. -/
def write (m : Memory) (a v : Word) : Except Fault Memory :=
  if m.InBounds a then .ok (m.set a v) else .error (m.outOfBounds a)

/-- `m.padded n` is `m` with zeros after its last cell, up to `n` cells; it is `m` if there are as many
already. -/
def padded (m : Memory) (n : Nat) : Memory := ⟨m.cells ++ Array.replicate (n - m.size) 0⟩

end Memory

end Intcode
