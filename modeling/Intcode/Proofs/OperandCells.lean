import Intcode.Proofs.Failure

/-! The operands of any instruction at any counter of any memory. Each parameter has its own cell, so many cells
behind the counter; a source in position mode needs a second cell, the one whose address is in the first. If all
these are there, the operands are what they hold, and otherwise the first address without a cell is at fault. -/

namespace Intcode

theorem Operands.eq_ofList_iff {x : Operands} {values : List Word} :
    x = .ofList values ↔ ∀ (k : Nat) y, x.toList[k]? = some y → y = values.getD k 0 := by
  obtain ⟨a, b, c⟩ := x
  constructor
  · rintro h k y hy
    cases h
    rcases k with _ | _ | _ | k <;> simp_all [toList]
  · intro h
    rw [ofList, ← h 0 a rfl, ← h 1 b rfl, ← h 2 c rfl]

namespace Instruction

/-- The address of the cell that is `i` cells behind the one at a counter, wrapped to a signed word. -/
def address (pc : UInt64) (i : Nat) : Word := .ofNat (pc.toNat + i)

/-- The parameter `i`, counted from one, is a destination, the last parameter of an operation that writes. -/
def IsDestination (c : Instruction) (i : Nat) : Prop :=
  c.opcode ∈ [.add, .mul, .store, .lessThan, .equal] ∧ i + 1 = c.opcode.length

/-- The parameter `i` is a source in position mode, so it holds the address of its value. -/
def Points (c : Instruction) (i : Nat) : Prop := c.modes[i - 1]? = some .position ∧ ¬c.IsDestination i

/-- With its word at `pc`, the parameter `i` of the instruction stands for `x` in the memory. -/
def Stands (c : Instruction) (m : Memory) (pc : UInt64) (i : Nat) (x : Word) : Prop :=
  ∃ raw, m.cell? (address pc i).toInt = some raw ∧
    (c.Points i ∧ m.cell? raw.toInt = some x ∨ ¬c.Points i ∧ x = raw)

/-- With its word at `pc`, the parameter `i` of the instruction wants a cell at `a` that the memory has not: its
own, or the one whose address it holds. -/
def Wants (c : Instruction) (m : Memory) (pc : UInt64) (i : Nat) (a : Word) : Prop :=
  m.cell? (address pc i).toInt = none ∧ a = address pc i ∨
    c.Points i ∧ m.cell? (address pc i).toInt = some a ∧ (a.toInt < 0 ∨ m.size ≤ a.toInt)

/-- With its word at `pc`, the parameter `i` of the instruction has its own cell in the memory and, if it points,
the one whose address it holds. -/
def Reaches (c : Instruction) (m : Memory) (pc : UInt64) (i : Nat) : Prop :=
  ∃ raw, m.cell? (address pc i).toInt = some raw ∧ (c.Points i → 0 ≤ raw.toInt ∧ raw.toInt < m.size)

variable {c : Instruction} {m : Memory} {pc : UInt64} {k : Nat} {x : Word} {f : Fault}

theorem isDestination_iff : c.IsDestination (k + 1) ↔ c.opcode.parameters[k]? = some .destination := by
  have hrole : c.opcode.parameters[k]? = some .destination ↔ c.opcode.role? (k + 1) = some .destination := Iff.rfl
  have hwrites : c.opcode ∈ [.add, .mul, .store, .lessThan, .equal] ↔ c.opcode.hasDestination = true := by
    cases c.opcode <;> decide
  rw [hrole, Opcode.role?_destination_iff, IsDestination, hwrites]

theorem points_iff {p : Role × Mode} (hp : c.parameters[k]? = some p) :
    c.Points (k + 1) ↔ p = (.source, .position) := by
  obtain ⟨role, mode⟩ := p
  obtain ⟨hrole, hmode⟩ := getElem?_parameters.mp hp
  rw [Points, isDestination_iff, hrole, Nat.add_sub_cancel, hmode]
  cases role <;> cases mode <;> simp

/-- The counter behind an instruction's word goes on cell by cell. -/
theorem address_succ (pc : UInt64) (k : Nat) : (pc + 1 + .ofNat k).toInt64 = address pc (k + 1) :=
  Machine.parameter_address (m := { memory := {}, pc })

theorem operand_eq_ok_iff_stands {p : Role × Mode} (hp : c.parameters[k]? = some p) :
    m.operand (pc + 1 + .ofNat k).toInt64 p = .ok x ↔ c.Stands m pc (k + 1) x := by
  rw [Memory.operand_eq_ok_iff, address_succ, Stands, points_iff hp]

theorem operand_eq_error_iff_wants {p : Role × Mode} (hp : c.parameters[k]? = some p) :
    m.operand (pc + 1 + .ofNat k).toInt64 p = .error f ↔
      ∃ a, c.Wants m pc (k + 1) a ∧ f = .outOfBounds a m.size := by
  simp only [Memory.operand_eq_error_iff, address_succ, Wants, points_iff hp, ← Memory.cell?_eq_none_iff,
    Memory.outOfBounds]

/-- An instruction's operands are those of its parameters, and zero where there is no parameter. -/
theorem operands_eq_ok_iff_stands {y : Operands} :
    c.operands m pc = .ok y ↔ ∀ (k : Nat) x, y.toList[k]? = some x →
      if k + 1 < c.opcode.length then c.Stands m pc (k + 1) x else x = 0 := by
  have hlength : c.parameters.length + 1 = c.opcode.length := congrArg (· + 1) c.length_parameters
  have hthree := c.opcode.length_parameters_le
  rw [operands_eq_ok_iff]
  constructor
  · rintro ⟨values, hvalues, hy⟩ k x hx
    obtain ⟨hcount, hvalue⟩ := Memory.operands_eq_ok_iff.mp hvalues
    have hx' := Operands.eq_ofList_iff.mp hy k x hx
    split
    · have hk : k < c.parameters.length := by omega
      have hget : values[k]? = some x := by
        rw [hx', List.getD_eq_getElem?_getD, List.getElem?_eq_getElem (by omega), Option.getD_some]
      have hp := List.getElem?_eq_getElem hk
      exact (operand_eq_ok_iff_stands hp).mp (hvalue k _ x hp hget)
    · rw [hx', List.getD_eq_getElem?_getD, List.getElem?_eq_none (by omega), Option.getD_none]
  · intro h
    have hthird : y.toList.length = 3 := rfl
    rw [← c.length_parameters] at hthree
    refine ⟨y.toList.take c.parameters.length, Memory.operands_eq_ok_iff.mpr ⟨?_, fun k p x hp hx => ?_⟩,
      Operands.eq_ofList_iff.mpr fun k x hx => ?_⟩
    · rw [List.length_take, hthird]
      omega
    · have hk := (List.getElem?_eq_some_iff.mp hp).1
      rw [List.getElem?_take_of_lt hk] at hx
      have hstands := h k x hx
      rw [if_pos (by omega)] at hstands
      exact (operand_eq_ok_iff_stands hp).mpr hstands
    · have hstands := h k x hx
      rw [List.getD_eq_getElem?_getD]
      by_cases hk : k < c.parameters.length
      · rw [List.getElem?_take_of_lt hk, hx, Option.getD_some]
      · rw [if_neg (by omega)] at hstands
        rw [List.getElem?_take_eq_none (by omega), hstands, Option.getD_none]

theorem reaches_iff {i : Nat} : c.Reaches m pc i ↔ ∀ a, ¬c.Wants m pc i a := by
  unfold Reaches Wants
  cases m.cell? (address pc i).toInt with
  | none => simp
  | some raw =>
      simp only [Option.some.injEq, exists_eq_left', reduceCtorEq, false_and, false_or, not_and, not_or,
        Int.not_lt, Int.not_le]
      constructor
      · rintro h a hpoints rfl
        exact h hpoints
      · intro h hpoints
        exact h raw hpoints rfl

theorem exists_operand_iff_reaches {p : Role × Mode} (hp : c.parameters[k]? = some p) :
    (∃ x, m.operand (pc + 1 + .ofNat k).toInt64 p = .ok x) ↔ c.Reaches m pc (k + 1) := by
  rw [reaches_iff]
  constructor
  · rintro ⟨x, hx⟩ a ha
    have herror := (operand_eq_error_iff_wants hp).mpr ⟨a, ha, rfl⟩
    rw [hx] at herror
    cases herror
  · intro h
    cases hoperand : m.operand (pc + 1 + .ofNat k).toInt64 p with
    | ok x => exact ⟨x, rfl⟩
    | error f =>
        obtain ⟨a, ha, -⟩ := (operand_eq_error_iff_wants hp).mp hoperand
        exact absurd ha (h a)

/-- The first parameter that wants a cell is at fault. -/
theorem operands_eq_error_iff_wants :
    c.operands m pc = .error f ↔ ∃ i a, 1 ≤ i ∧ i < c.opcode.length ∧ c.Wants m pc i a ∧
      (∀ j, 1 ≤ j → j < i → c.Reaches m pc j) ∧ f = .outOfBounds a m.size := by
  have hlength : c.parameters.length + 1 = c.opcode.length := congrArg (· + 1) c.length_parameters
  rw [operands_eq_error_iff, Memory.operands_eq_error_iff]
  constructor
  · rintro ⟨k, p, hp, herror, hbefore⟩
    obtain ⟨a, hwants, hf⟩ := (operand_eq_error_iff_wants hp).mp herror
    have hk := (List.getElem?_eq_some_iff.mp hp).1
    refine ⟨k + 1, a, by omega, by omega, hwants, fun j hone hj => ?_, hf⟩
    obtain ⟨j, rfl⟩ := Nat.exists_eq_add_of_le' hone
    have hq := List.getElem?_eq_getElem (l := c.parameters) (i := j) (by omega)
    exact (exists_operand_iff_reaches hq).mp (hbefore j (by omega) _ hq)
  · rintro ⟨i, a, hone, hi, hwants, hbefore, hf⟩
    obtain ⟨k, rfl⟩ := Nat.exists_eq_add_of_le' hone
    have hp := List.getElem?_eq_getElem (l := c.parameters) (i := k) (by omega)
    refine ⟨k, _, hp, (operand_eq_error_iff_wants hp).mpr ⟨a, hwants, hf⟩, fun j hj q hq => ?_⟩
    exact (exists_operand_iff_reaches hq).mpr (hbefore (j + 1) (by omega) (by omega))

theorem Stands.reaches {i : Nat} (h : c.Stands m pc i x) : c.Reaches m pc i := by
  obtain ⟨raw, hraw, ⟨-, hx⟩ | ⟨hno, -⟩⟩ := h
  · exact ⟨raw, hraw, fun _ => Memory.cell?_eq_some_bound hx⟩
  · exact ⟨raw, hraw, fun hpoints => absurd hpoints hno⟩

theorem exists_operands_iff :
    (∃ y, c.operands m pc = .ok y) ↔ ∀ i, 1 ≤ i → i < c.opcode.length → c.Reaches m pc i := by
  constructor
  · rintro ⟨y, hy⟩ i hone hi
    obtain ⟨k, rfl⟩ := Nat.exists_eq_add_of_le' hone
    have hthird : y.toList.length = 3 := rfl
    have hthree := c.opcode.length_parameters_le
    have hk : k < y.toList.length := by
      rw [Opcode.length] at hi
      omega
    have hstands := operands_eq_ok_iff_stands.mp hy k _ (List.getElem?_eq_getElem hk)
    rw [if_pos hi] at hstands
    exact hstands.reaches
  · intro h
    cases hy : c.operands m pc with
    | ok y => exact ⟨y, rfl⟩
    | error f =>
        obtain ⟨i, a, hone, hi, hwants, -⟩ := operands_eq_error_iff_wants.mp hy
        exact absurd hwants (reaches_iff.mp (h i hone hi) a)

theorem toInt_address (pc : UInt64) (i : Nat) : (address pc i).toInt = ((pc.toNat + i : Nat) : Int).bmod (2 ^ 64) :=
  Int64.toInt_ofNat'

/-- Where every cell has an address, the wrapped address is that of no other cell. -/
theorem cell?_address (hm : m.Addressable) {i : Nat} (hi : pc.toNat + i < 2 ^ 64) :
    m.cell? (address pc i).toInt = m.cell? ↑(pc.toNat + i) := by
  have hcounter := Memory.cell?_counter hm (.ofNat (pc.toNat + i))
  rwa [UInt64.toInt64_ofNat', UInt64.toNat_ofNat', Nat.mod_eq_of_lt hi] at hcounter

/-- **The operands are what the parameters' cells hold.** Take any instruction, whatever its word, and any counter
of any memory, whether or not the instruction was found there. It has operands exactly when each of its parameters
has its cell and, if it is a source in position mode, the one whose address it holds. Then a source in position
mode stands for what the second cell holds, any other parameter for what its own does, a destination so whatever
its mode; there is a zero for each parameter that the operation lacks. Otherwise the first parameter that wants a
cell is at fault, for its own address if it wants its own. That address is the sum of the counter and its place,
wrapped to a signed word, and where every cell has an address no cell but that of the sum itself is read. -/
theorem operands_by_cells (c : Instruction) (m : Memory) (pc : UInt64) (hpc : pc.toNat + 3 < 2 ^ 64) :
    ((∃ y, c.operands m pc = .ok y) ↔ ∀ i, 1 ≤ i → i < c.opcode.length → c.Reaches m pc i) ∧
    (∀ y, c.operands m pc = .ok y ↔ ∀ (k : Nat) x, y.toList[k]? = some x →
      if k + 1 < c.opcode.length then c.Stands m pc (k + 1) x else x = 0) ∧
    (∀ f, c.operands m pc = .error f ↔ ∃ i a, 1 ≤ i ∧ i < c.opcode.length ∧ c.Wants m pc i a ∧
      (∀ j, 1 ≤ j → j < i → c.Reaches m pc j) ∧ f = .outOfBounds a m.size) ∧
    ∀ i ≤ 3, (address pc i).toInt = ((pc.toNat + i : Nat) : Int).bmod (2 ^ 64) ∧
      (m.Addressable → m.cell? (address pc i).toInt = m.cell? ↑(pc.toNat + i)) :=
  ⟨exists_operands_iff, fun _ => operands_eq_ok_iff_stands, fun _ => operands_eq_error_iff_wants,
    fun i hi => ⟨toInt_address pc i, fun hm => cell?_address hm (by omega)⟩⟩

/-- The destination stands for the address of no cell, as it is; behind the greatest signed counter the addresses
of the parameters are negative. -/
theorem operands_by_cells_elsewhere :
    let c : Instruction := ⟨1001, .add, [.position, .immediate, .position], rfl⟩
    let m : Memory := ⟨#[99, 3, 7, 9]⟩
    let pc : UInt64 := 9223372036854775807
    (0 : UInt64).toNat + 3 < 2 ^ 64 ∧ c.operands m 0 = .ok ⟨9, 7, 9⟩ ∧ c.Stands m 0 1 9 ∧ c.Stands m 0 3 9 ∧
      m.Addressable ∧ m.cell? (address 0 3).toInt = m.cell? 3 ∧ pc.toNat + 3 < 2 ^ 64 ∧
      c.operands m pc = .error (.outOfBounds (-9223372036854775808) 4) := by
  intro c m pc
  have hzero : (0 : UInt64).toNat + 3 < 2 ^ 64 := by decide
  have hpc : pc.toNat + 3 < 2 ^ 64 := by decide
  have hm : m.Addressable := by decide
  have hoperands : c.operands m 0 = .ok ⟨9, 7, 9⟩ := rfl
  have hwants : c.Wants m pc 1 (-9223372036854775808) := .inl ⟨by decide, by decide⟩
  obtain ⟨-, hok, -, haddress⟩ := operands_by_cells c m 0 hzero
  have hstands := (hok _).mp hoperands
  obtain ⟨-, -, herror, -⟩ := operands_by_cells c m pc hpc
  refine ⟨hzero, hoperands, hstands 0 9 rfl, hstands 2 9 rfl, hm, (haddress 3 (by decide)).2 hm, hpc, ?_⟩
  exact (herror _).mpr ⟨1, _, by decide, by decide, hwants, fun j hone hj => absurd hone (Nat.not_le.mpr hj), rfl⟩

end Instruction

end Intcode
