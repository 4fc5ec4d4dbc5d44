import Intcode.Machine.Step
import Intcode.Proofs.Instruction

/-! The operands of an instruction, said of cells and digits: parameters are counted from one, the
parameter `i` stands `i` cells after the word at the counter, and what a source stands for depends on the
digit above the `i + 1` lowest of that word. -/

namespace Intcode

namespace Memory

variable {m : Memory} {pc : UInt64}

theorem toInt_toInt64 (pc : UInt64) :
    pc.toInt64.toInt = if pc.toNat < 2 ^ 63 then (pc.toNat : Int) else pc.toNat - 2 ^ 64 := by
  have hcond : pc.toInt64.toInt = pc.toBitVec.toInt := rfl
  have hnat : pc.toBitVec.toNat = pc.toNat := rfl
  rw [hcond, BitVec.toInt_eq_toNat_cond, hnat]
  split <;> split <;> omega

/-- A cell at a counter read as a signed word is the one at the counter itself. -/
theorem cell?_counter_some {w : Word} (h : m.cell? pc.toInt64.toInt = some w) :
    pc.toNat < 2 ^ 63 ∧ m.cell? pc.toNat = some w := by
  have hbound := (cell?_eq_some_bound h).1
  have hlt := pc.toNat_lt
  have hcast := toInt_toInt64 pc
  split at hcast
  · rename_i hsmall
    rw [hcast] at h
    exact ⟨hsmall, h⟩
  · omega

theorem cell?_counter (hm : m.Addressable) (pc : UInt64) :
    m.cell? pc.toInt64.toInt = m.cell? pc.toNat := by
  have hlt := pc.toNat_lt
  rw [toInt_toInt64]
  split
  · rfl
  · rename_i hlarge
    unfold Addressable at hm
    rw [cell?_of_neg (by omega), cell?_eq_none_iff.mpr (by omega)]

theorem add_ofNat_zero (pc : UInt64) : pc + .ofNat 0 = pc := UInt64.add_zero pc

theorem add_one_add_ofNat (pc : UInt64) (k : Nat) : pc + 1 + .ofNat k = pc + .ofNat (k + 1) := by
  rw [UInt64.ofNat_add, UInt64.add_assoc, UInt64.add_comm 1]
  rfl

/-- A parameter stands for the word in its cell, but a source in position mode for the word in the cell whose
address that is. -/
theorem operand_eq_ok_iff {a x : Word} {p : Role × Mode} :
    m.operand a p = .ok x ↔ ∃ raw, m.cell? a.toInt = some raw ∧
      (p = (.source, .position) ∧ m.cell? raw.toInt = some x ∨ p ≠ (.source, .position) ∧ x = raw) := by
  unfold operand
  split
  · cases hread : m.read a with
    | error f => simp [(read_eq_error_iff.mp hread).1]
    | ok raw => simp [read_eq_ok_iff.mp hread, read_eq_ok_iff]
  · rename_i hp
    have hne : p ≠ (.source, .position) := hp
    simp [read_eq_ok_iff, hne]

/-- It cannot be found without its cell, or without the cell whose address it holds. -/
theorem operand_eq_error_iff {a : Word} {p : Role × Mode} {f : Fault} :
    m.operand a p = .error f ↔ ∃ b, (m.cell? a.toInt = none ∧ b = a ∨
      p = (.source, .position) ∧ m.cell? a.toInt = some b ∧ m.cell? b.toInt = none) ∧ f = m.outOfBounds b := by
  unfold operand
  split
  · cases hread : m.read a with
    | error g =>
        obtain ⟨hnone, rfl⟩ := read_eq_error_iff.mp hread
        simp [hnone, eq_comm]
    | ok raw => simp [read_eq_ok_iff.mp hread, read_eq_error_iff, and_assoc]
  · rename_i hp
    have hne : p ≠ (.source, .position) := hp
    simp [read_eq_error_iff, hne, and_assoc]

theorem operands_eq_ok_iff {ps : List (Role × Mode)} {xs : List Word} :
    m.operands pc ps = .ok xs ↔ xs.length = ps.length ∧
      ∀ k p x, ps[k]? = some p → xs[k]? = some x → m.operand (pc + .ofNat k).toInt64 p = .ok x := by
  induction ps generalizing pc xs with
  | nil => cases xs <;> simp [operands]
  | cons p ps ih =>
      rw [operands]
      cases xs with
      | nil =>
          cases m.operand pc.toInt64 p with
          | error f => simp
          | ok x => cases m.operands (pc + 1) ps <;> simp
      | cons x xs =>
          have hcons : (∀ k q y, (p :: ps)[k]? = some q → (x :: xs)[k]? = some y →
                m.operand (pc + .ofNat k).toInt64 q = .ok y) ↔
              m.operand pc.toInt64 p = .ok x ∧ ∀ k q y, ps[k]? = some q → xs[k]? = some y →
                m.operand (pc + 1 + .ofNat k).toInt64 q = .ok y := by
            rw [← Nat.and_forall_add_one]
            simp [add_one_add_ofNat]
          rw [hcons, List.length_cons, List.length_cons, Nat.add_right_cancel_iff, and_left_comm, ← ih]
          cases m.operand pc.toInt64 p with
          | error f => simp
          | ok y => cases m.operands (pc + 1) ps <;> simp

/-- The operands cannot be found when one of them cannot, and the first such is at fault. -/
theorem operands_eq_error_iff {ps : List (Role × Mode)} {f : Fault} :
    m.operands pc ps = .error f ↔
      ∃ k p, ps[k]? = some p ∧ m.operand (pc + .ofNat k).toInt64 p = .error f ∧
        ∀ j < k, ∀ q, ps[j]? = some q → ∃ x, m.operand (pc + .ofNat j).toInt64 q = .ok x := by
  induction ps generalizing pc with
  | nil => simp [operands]
  | cons p ps ih =>
      let P (k : Nat) : Prop := ∃ q, (p :: ps)[k]? = some q ∧ m.operand (pc + .ofNat k).toInt64 q = .error f
      let Q (k : Nat) : Prop := ∀ q, (p :: ps)[k]? = some q → ∃ x, m.operand (pc + .ofNat k).toInt64 q = .ok x
      have hassoc : (∃ k q, (p :: ps)[k]? = some q ∧ m.operand (pc + .ofNat k).toInt64 q = .error f ∧
          ∀ j < k, ∀ q, (p :: ps)[j]? = some q → ∃ x, m.operand (pc + .ofNat j).toInt64 q = .ok x) ↔
          ∃ k, P k ∧ ∀ j < k, Q j := by
        simp only [P, Q, exists_and_right, ← and_assoc]
      have hP : P 0 ↔ m.operand pc.toInt64 p = .error f := by
        simp only [P, add_ofNat_zero, List.getElem?_cons_zero, Option.some.injEq, exists_eq_left']
      have hQ : Q 0 ↔ ∃ x, m.operand pc.toInt64 p = .ok x := by
        simp only [Q, add_ofNat_zero, List.getElem?_cons_zero, Option.some.injEq, forall_eq']
      rw [operands, hassoc]
      cases hp : m.operand pc.toInt64 p with
      | error g =>
          rw [exists_first_zero (by simp [hQ, hp]), hP, hp]
          simp
      | ok x =>
          have hrest : m.operands (pc + 1) ps = .error f ↔ ∃ k, P (k + 1) ∧ ∀ j < k, Q (j + 1) := by
            rw [ih]
            simp only [P, Q, List.getElem?_cons_succ, add_one_add_ofNat, ← exists_and_right, and_assoc]
          rw [exists_first_succ (by simp [hP, hp]) (by simp [hQ, hp]), ← hrest]
          cases m.operands (pc + 1) ps <;> simp

end Memory

/-- The role of the cell that is `i` cells after an instruction's word; the word itself has none. -/
def Opcode.role? (o : Opcode) : Nat → Option Role
  | 0 => none
  | i + 1 => o.parameters[i]?

namespace Machine

variable {m : Machine} {w : Word}

/-- The word in the cell that is `i` cells after the one at the counter. -/
def cell? (m : Machine) (i : Nat) : Option Word := m.memory.cell? ↑(m.pc.toNat + i)

/-- The word at the counter is `w`, and it codes the operation `o`. -/
def Codes (m : Machine) (w : Word) (o : Opcode) : Prop := m.cell? 0 = some w ∧ w.Codes o

instance (m : Machine) (w : Word) (o : Opcode) : Decidable (m.Codes w o) :=
  inferInstanceAs (Decidable (m.cell? 0 = some w ∧ w.Codes o))

/-- The parameter `i` of an instruction with word `w` stands for `x` as a source: its cell holds `x` if its
digit is one, and the address of `x` if it is zero. -/
def Source (m : Machine) (w : Word) (i : Nat) (x : Word) : Prop :=
  ∃ raw, m.cell? i = some raw ∧
    (w.digit (i + 1) = 1 ∧ x = raw ∨ w.digit (i + 1) = 0 ∧ m.memory.cell? raw.toInt = some x)

/-- What the parameter `i` stands for in its role; a destination is what its cell holds, whatever its
digit. -/
def Operand (m : Machine) (w : Word) (i : Nat) : Role → Word → Prop
  | .source, x => m.Source w i x
  | .destination, x => m.cell? i = some x

/-- The parameter `i` has no cell, or it is a source that holds the address `a` of no cell; where it has no
cell, `a` is the address that the cell would have. -/
def Offends (m : Machine) (w : Word) (o : Opcode) (i : Nat) (a : Word) : Prop :=
  ∃ role, o.role? i = some role ∧
    (m.cell? i = none ∧ a = .ofNat (m.pc.toNat + i) ∨
      role = .source ∧ w.digit (i + 1) = 0 ∧ m.cell? i = some a ∧
        (a.toInt < 0 ∨ m.memory.size ≤ a.toInt))

theorem Codes.unique {w' : Word} {o o' : Opcode} (h : m.Codes w o) (h' : m.Codes w' o') :
    w = w' ∧ o = o' := by
  have hw : w = w' := Option.some.inj (h.1.symm.trans h'.1)
  subst hw
  exact ⟨rfl, h.2.unique h'.2⟩

theorem parameter_counter {k : Nat} (hpc : m.pc.toNat < 2 ^ 63) (hk : k < 3) :
    (m.pc + 1 + .ofNat k).toNat = m.pc.toNat + (k + 1) := by
  have hone : (1 : UInt64).toNat = 1 := rfl
  rw [UInt64.toNat_add, UInt64.toNat_add, UInt64.toNat_ofNat', hone]
  omega

theorem cell?_of_parameter {k : Nat} (hpc : m.pc.toNat < 2 ^ 63) (hk : k < 3) {x : Word}
    (h : m.memory.cell? (m.pc + 1 + .ofNat k).toInt64.toInt = some x) : m.cell? (k + 1) = some x := by
  have hcell := (Memory.cell?_counter_some h).2
  rwa [parameter_counter hpc hk] at hcell

theorem cell?_parameter {k : Nat} (hm : m.memory.Addressable) (hpc : m.pc.toNat < 2 ^ 63) (hk : k < 3) :
    m.memory.cell? (m.pc + 1 + .ofNat k).toInt64.toInt = m.cell? (k + 1) := by
  rw [Memory.cell?_counter hm, parameter_counter hpc hk]
  rfl

theorem parameter_address {k : Nat} :
    (m.pc + 1 + .ofNat k).toInt64 = .ofNat (m.pc.toNat + (k + 1)) := by
  rw [Memory.add_one_add_ofNat, ← UInt64.toInt64_ofNat', UInt64.ofNat_add m.pc.toNat, UInt64.ofNat_toNat]

section Parameter

variable {k : Nat} {role : Role} {mode : Mode}

theorem operand_of_ok (hpc : m.pc.toNat < 2 ^ 63) (hk : k < 3) (hdigit : w.digit (k + 2) = mode.digit)
    {x : Word} (h : m.memory.operand (m.pc + 1 + .ofNat k).toInt64 (role, mode) = .ok x) :
    m.Operand w (k + 1) role x := by
  obtain ⟨raw, hraw, hvalue⟩ := Memory.operand_eq_ok_iff.mp h
  have hcell := cell?_of_parameter hpc hk hraw
  rcases hvalue with ⟨hp, hx⟩ | ⟨hne, rfl⟩
  · cases hp
    exact ⟨raw, hcell, .inr ⟨hdigit, hx⟩⟩
  · cases role with
    | destination => exact hcell
    | source =>
        cases mode with
        | position => exact absurd rfl hne
        | immediate => exact ⟨x, hcell, .inl ⟨hdigit, rfl⟩⟩

/-- An operand that cannot be found is at fault for the address that `Offends` names. -/
theorem operand_eq_error_iff (hm : m.memory.Addressable) (hpc : m.pc.toNat < 2 ^ 63) (hk : k < 3)
    {o : Opcode} (hrole : o.parameters[k]? = some role) (hdigit : w.digit (k + 2) = mode.digit)
    {f : Fault} :
    m.memory.operand (m.pc + 1 + .ofNat k).toInt64 (role, mode) = .error f ↔
      ∃ a, m.Offends w o (k + 1) a ∧ f = .outOfBounds a m.memory.size := by
  have hmode : w.digit (k + 2) = 0 ↔ mode = .position := by
    rw [hdigit]
    cases mode <;> simp [Mode.digit]
  have hoff (a : Word) : m.Offends w o (k + 1) a ↔
      m.cell? (k + 1) = none ∧ a = .ofNat (m.pc.toNat + (k + 1)) ∨
        role = .source ∧ mode = .position ∧ m.cell? (k + 1) = some a ∧
          m.memory.cell? a.toInt = none := by
    rw [Offends, Memory.cell?_eq_none_iff, hmode]
    constructor
    · rintro ⟨role', hrole', h⟩
      cases hrole.symm.trans hrole'
      exact h
    · intro h
      exact ⟨role, hrole, h⟩
  rw [Memory.operand_eq_error_iff, cell?_parameter hm hpc hk, parameter_address]
  simp only [hoff, Prod.mk.injEq, and_assoc, Memory.outOfBounds]

end Parameter

end Machine

end Intcode
