import Mathlib.Algebra.Group.Int.Defs
import Mathlib.Algebra.Group.Nat.Defs
import Intcode.Memory.Basic

/-! A memory seen as a partial map from integers to words: what it means to read and write is said of
the cell at the address's value, and every other cell is where it was. -/

namespace Intcode.Memory

/-- The word in the cell at a place counted from zero; there is none before the first cell or after the
last. -/
def cell? (m : Memory) : Int → Option Word
  | .ofNat k => m.cells[k]?
  | .negSucc _ => none

variable {m m' : Memory} {a b u v : Word} {k : Int}

@[simp] theorem cell?_natCast (k : Nat) : m.cell? (k : Int) = m.cells[k]? := rfl

theorem ext_cell? (h : ∀ k, m.cell? k = m'.cell? k) : m = m' := by
  obtain ⟨cells⟩ := m
  obtain ⟨cells'⟩ := m'
  have hcells : cells = cells' := Array.ext_getElem? fun k => h k
  rw [hcells]

theorem cell?_of_neg (h : k < 0) : m.cell? k = none := by
  cases k with
  | ofNat k => exact absurd h (Int.not_lt.mpr (Int.natCast_nonneg k))
  | negSucc k => rfl

theorem cell?_eq_none_iff : m.cell? k = none ↔ k < 0 ∨ (m.size : Int) ≤ k := by
  cases k with
  | ofNat k =>
      rw [Int.ofNat_eq_natCast, cell?_natCast, Array.getElem?_eq_none_iff, size]
      omega
  | negSucc k => simp [cell?]

theorem cell?_eq_some_bound {w : Word} (h : m.cell? k = some w) : 0 ≤ k ∧ k < m.size := by
  have hne : ¬(k < 0 ∨ (m.size : Int) ≤ k) := by
    rw [← cell?_eq_none_iff, h]
    simp
  omega

theorem inBounds_iff : m.InBounds a ↔ 0 ≤ a.toInt ∧ a.toInt < m.size := by
  have hnat : a.toNatClampNeg = a.toInt.toNat := rfl
  rw [InBounds, Int64.le_iff_toInt_le, Int64.toInt_zero, hnat, size]
  omega

theorem not_inBounds_iff : ¬m.InBounds a ↔ m.cell? a.toInt = none := by
  rw [inBounds_iff, cell?_eq_none_iff]
  omega

theorem cell?_toInt (h : 0 ≤ a.toInt) : m.cell? a.toInt = m.cells[a.toNatClampNeg]? := by
  have hnat : a.toNatClampNeg = a.toInt.toNat := rfl
  rw [hnat, ← cell?_natCast, Int.toNat_of_nonneg h]

theorem read_eq_ok_iff {w : Word} : m.read a = .ok w ↔ m.cell? a.toInt = some w := by
  rw [read]
  split
  · rename_i h
    rw [cell?_toInt (inBounds_iff.mp h).1, Array.getElem?_eq_getElem h.2]
    simp
  · rename_i h
    simp [not_inBounds_iff.mp h]

theorem read_eq_error_iff {f : Fault} :
    m.read a = .error f ↔ m.cell? a.toInt = none ∧ f = m.outOfBounds a := by
  rw [read]
  split
  · rename_i h
    have hsome : m.cell? a.toInt ≠ none := fun hnone => not_inBounds_iff.mpr hnone h
    simp [hsome]
  · rename_i h
    simp [not_inBounds_iff.mp h, eq_comm]

theorem inBounds_of_read (h : m.read a = .ok v) : m.InBounds a :=
  inBounds_iff.mpr (cell?_eq_some_bound (read_eq_ok_iff.mp h))

theorem read_eq_error_of_size {f : Fault} (hsize : m'.size = m.size) (h : m.read a = .error f) :
    m'.read a = .error f := by
  rw [read_eq_error_iff, cell?_eq_none_iff] at h ⊢
  rwa [outOfBounds, hsize]

theorem write_eq_ok_iff : m.write a v = .ok m' ↔ m.InBounds a ∧ m' = m.set a v := by
  unfold write
  split <;> simp_all [eq_comm]

@[simp] theorem size_set : (m.set a v).size = m.size := by
  unfold set
  split <;> simp [size]

theorem inBounds_set : (m.set a v).InBounds b ↔ m.InBounds b := by
  rw [inBounds_iff, inBounds_iff, size_set]

/-- A write changes the one cell at its address. -/
theorem cell?_set (h : m.InBounds a) (k : Int) :
    (m.set a v).cell? k = if k = a.toInt then some v else m.cell? k := by
  obtain ⟨hnonneg, hlt⟩ := inBounds_iff.mp h
  cases k with
  | ofNat k =>
      have hplace : a.toNatClampNeg = k ↔ (k : Int) = a.toInt := by
        have hnat : a.toNatClampNeg = a.toInt.toNat := rfl
        omega
      rw [set, if_pos h.1, Int.ofNat_eq_natCast, cell?_natCast, cell?_natCast]
      by_cases hk : (k : Int) = a.toInt
      · rw [if_pos hk, ← hplace.mpr hk, Array.getElem?_setIfInBounds_self_of_lt h.2]
      · rw [if_neg hk, Array.getElem?_setIfInBounds_ne (mt hplace.mp hk)]
  | negSucc k =>
      rw [if_neg (by omega)]
      rfl

theorem cell?_set_of_ne (ha : m.InBounds a) (hne : b ≠ a) : (m.set a v).cell? b.toInt = m.cell? b.toInt := by
  rw [cell?_set ha, if_neg (mt Int64.toInt_inj.mp hne)]

theorem read_set_self (ha : m.InBounds a) : (m.set a v).read a = .ok v := by
  rw [read_eq_ok_iff, cell?_set ha, if_pos rfl]

theorem read_set_of_ne (ha : m.InBounds a) (hne : b ≠ a) : (m.set a v).read b = m.read b := by
  cases hread : m.read b with
  | ok w => rw [read_eq_ok_iff, cell?_set_of_ne ha hne, read_eq_ok_iff.mp hread]
  | error f => exact read_eq_error_of_size size_set hread

theorem set_set_self (ha : m.InBounds a) : (m.set a u).set a v = m.set a v := by
  apply ext_cell?
  intro k
  rw [cell?_set (inBounds_set.mpr ha), cell?_set ha, cell?_set ha]
  split <;> rfl

theorem set_comm (ha : m.InBounds a) (hb : m.InBounds b) (hne : a ≠ b) :
    (m.set a u).set b v = (m.set b v).set a u := by
  have hplace : a.toInt ≠ b.toInt := mt Int64.toInt_inj.mp hne
  apply ext_cell?
  intro k
  rw [cell?_set (inBounds_set.mpr hb), cell?_set ha, cell?_set (inBounds_set.mpr ha), cell?_set hb]
  by_cases hka : k = a.toInt
  · rw [if_pos hka, if_pos hka, if_neg (hka ▸ hplace)]
  · rw [if_neg hka, if_neg hka]

theorem size_padded {n : Nat} : (m.padded n).size = max m.size n := by
  rw [padded, size, Array.size_append, Array.size_replicate, ← size]
  omega

/-- Padding adds cells behind the last one and changes none. -/
theorem cell?_padded (m : Memory) (n : Nat) (k : Int) :
    (m.padded n).cell? k = if m.size ≤ k ∧ k < n then some 0 else m.cell? k := by
  cases k with
  | ofNat k =>
      rw [Int.ofNat_eq_natCast, cell?_natCast, cell?_natCast, padded, Array.getElem?_append,
        Array.getElem?_replicate, ← size]
      by_cases hk : k < m.size
      · rw [if_pos hk, if_neg (by omega)]
      · rw [if_neg hk, Array.getElem?_eq_none (by rw [← size]; omega)]
        by_cases hn : k < n
        · rw [if_pos (by omega), if_pos (by omega)]
        · rw [if_neg (by omega), if_neg (by omega)]
  | negSucc k =>
      rw [if_neg (by omega)]
      rfl

/-- Every cell has an address. A row of words in a space of 64-bit addresses is never longer: it has
fewer than `2 ^ 60`. -/
def Addressable (m : Memory) : Prop := m.size ≤ 2 ^ 63

instance (m : Memory) : Decidable m.Addressable := inferInstanceAs (Decidable (m.size ≤ 2 ^ 63))

end Intcode.Memory
