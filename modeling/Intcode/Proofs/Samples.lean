import Intcode.Machine.Program
import Intcode.Proofs.Budget
import Intcode.Proofs.Footprint

/-! Sample programs: one that says how its input compares with eight, four that say whether it is eight or is
less, and two that say whether it is zero. Each is followed with the input left open: the instructions that it
performs are written down with their effects, in which the input stands for itself, and where the input decides
a jump or what is compared next there is a row of instructions for each way. -/

namespace Intcode

/-! ### Memories with open cells -/

namespace Reading

variable {α : Type}

/-- The word at an address in a row of words. -/
def lookup (words : List Word) (address : Word) : Option Word :=
  if address < 0 then none else words[address.toNatClampNeg]?

/-- What a computation comes to in a row of words. Each word that is read is taken out of the row before the
computation goes on, so it can be evaluated where other words of the row are variables. -/
def runOn (words : List Word) : Reading α → Except Fault α
  | done result => result
  | read address next =>
    match lookup words address with
    | none => .error (.outOfBounds address words.length)
    | some word => (next word).runOn words

theorem lookup_cells (m : Memory) (address : Word) : lookup m.cells.toList address = m.cell? address.toInt := by
  rw [lookup, Array.getElem?_toList]
  split
  · rename_i hneg
    exact (Memory.cell?_of_neg (Int64.lt_iff_toInt_lt.mp hneg)).symm
  · rename_i hnonneg
    rw [Int64.lt_iff_toInt_lt, Int64.toInt_zero] at hnonneg
    exact (Memory.cell?_toInt (by omega)).symm

theorem runOn_cells (m : Memory) (p : Reading α) : p.runOn m.cells.toList = p.run m := by
  induction p with
  | done result => rfl
  | read address next ih =>
      rw [runOn, run, lookup_cells]
      cases hread : m.read address with
      | ok word =>
          rw [Memory.read_eq_ok_iff.mp hread]
          exact ih word
      | error fault =>
          obtain ⟨hnone, rfl⟩ := Memory.read_eq_error_iff.mp hread
          rw [hnone]
          rfl

end Reading

/-! ### Rows of instructions -/

namespace Machine

variable {m m₁ m₂ : Machine} {row : List (Opcode × Effect)} {x : Operands}

/-- From `m₁` the machine performs a row of instructions, each with the operation and the effect given, and gets
to `m₂`. -/
def Performs (m₁ : Machine) : List (Opcode × Effect) → Machine → Prop
  | [], m₂ => m₁ = m₂
  | (o, e) :: row, m₂ => m₁.attempt = .ok (o, e) ∧ (m₁.apply o.length e).Performs row m₂

theorem Performs.append {row' : List (Opcode × Effect)} (h : m.Performs row m₁) (h' : m₁.Performs row' m₂) :
    m.Performs (row ++ row') m₂ := by
  induction row generalizing m with
  | nil =>
      cases h
      exact h'
  | cons instruction row ih =>
      exact ⟨h.1, ih h.2⟩

theorem outcome_of_ne_halt {e : Effect} (h : e ≠ .halt) : e.outcome = .ongoing := by
  cases e with
  | halt => exact absurd rfl h
  | write | output | jump | pass => rfl

/-- A run goes along a row that does not halt, and a halt behind the row is its end. -/
theorem Performs.ends (hm : m.status ≠ .halted) (h : m.Performs row m₁) (hrow : ∀ p ∈ row, p.2 ≠ .halt)
    (hhalt : m₁.attempt = .ok (.halt, .halt)) :
    m.Ends row.length .halted ∧ m.after (row.length + 1) = { m₁ with status := .halted } := by
  induction row generalizing m with
  | nil =>
      cases h
      obtain ⟨houtcome, hmachine⟩ := step_of_attempt_ok hm hhalt
      exact ⟨⟨fun k hk => absurd hk (Nat.not_lt_zero k), houtcome, by simp⟩, hmachine⟩
  | cons instruction row ih =>
      obtain ⟨o, e⟩ := instruction
      obtain ⟨hattempt, hrest⟩ := h
      obtain ⟨houtcome, hmachine⟩ := step_of_attempt_ok hm hattempt
      have hongoing : e.outcome = .ongoing := outcome_of_ne_halt (hrow _ List.mem_cons_self)
      have hstep : m.step.outcome = .ongoing := houtcome.trans hongoing
      rw [← hmachine] at hrest
      obtain ⟨hends, hafter⟩ :=
        ih (status_of_step_ongoing hstep).2 hrest fun p hp => hrow p (List.mem_cons_of_mem _ hp)
      exact ⟨hends.step hstep, hafter⟩

/-- The next instruction, its operands and its effect are found by evaluation. -/
theorem attempt_of_cells {i : Instruction} {o : Opcode} {e : Effect}
    (hfetch : (Reading.fetch m.pc).runOn m.memory.cells.toList = .ok (i, x)) (ho : i.opcode = o)
    (heffect : m.effect o x = .ok e) : m.attempt = .ok (o, e) := by
  rw [Reading.runOn_cells, Reading.run_fetch] at hfetch
  exact attempt_eq_ok_iff.mpr ⟨i, x, hfetch, ho, heffect⟩

theorem effect_jumpIfTrue_of_ne (h : x.first ≠ 0) : m.effect .jumpIfTrue x = m.jumping true x.second := by
  rw [effect, bne_iff_ne.mpr h]

theorem effect_jumpIfFalse_of_ne (h : x.first ≠ 0) : m.effect .jumpIfFalse x = m.jumping false x.second := by
  rw [effect, beq_eq_false_iff_ne.mpr h]

theorem effect_lessThan :
    m.effect .lessThan x = m.writing x.third (if x.first.toInt < x.second.toInt then 1 else 0) := by
  simp only [effect, Int64.lt_iff_toInt_lt]

/-- On the input `v` the machine performs a row of less than `limit` instructions of the program and then halts with
the output `w`. -/
def HaltsWith (program : Memory) (limit : Nat) (v w : Word) : Prop :=
  ∃ row last, Performs { memory := program, input := some v } row last ∧ (∀ p ∈ row, p.2 ≠ .halt) ∧
    row.length < limit ∧ last.attempt = .ok (.halt, .halt) ∧ last.output = some w

/-- The program in a text computes `f`: on every input `v` it halts after at most `limit` steps with the output
`f v`, and a run that is given no limit comes to the same. -/
def Computes (text : String) (limit : Nat) (f : Word → Word) : Prop :=
  ∃ start, ofText text = .ok start ∧ ∀ v, ∃ last, ∃ steps ≤ limit,
    (start.setInput v).reply (.runWithin limit) = ⟨.ok (), last, steps⟩ ∧
    (start.setInput v).reply .run = ⟨.ok (), last, steps⟩ ∧
    last.isHalted ∧ last.output = some (f v)

theorem computes_of_haltsWith {text : String} {program : Memory} {limit : Nat} {f : Word → Word}
    (htext : Memory.parse text = .ok program) (h : ∀ v, HaltsWith program limit v (f v)) :
    Computes text limit f := by
  refine ⟨load program, by rw [ofText, htext], fun v => ?_⟩
  obtain ⟨row, last, hperforms, hrow, hlimit, hhalt, houtput⟩ := h v
  obtain ⟨hends, hafter⟩ := hperforms.ends (by simp) hrow hhalt
  refine ⟨{ last with status := .halted }, row.length + 1, hlimit, ?_, ?_, rfl, houtput⟩
  · rw [reply, load, setInput, runWithin_of_ends hends hlimit, hafter]
    rfl
  · rw [reply, load, setInput, run_of_ends hends, hafter]
    rfl

end Machine

namespace Sample

open Machine

variable {v w : Word}

/-! ### Whether the input is eight, or is less -/

section Comparison

variable {o : Opcode}

/-- A comparison of the input with eight by the operation that `code` codes, with its sources in this mode; `cell`
is in the cell that takes the input and then what the comparison comes to. -/
def comparison (code cell : Word) : Mode → Memory
  | .position => ⟨#[3, 9, code, 9, 10, 9, 4, 9, 99, cell, 8]⟩
  | .immediate => ⟨#[3, 3, code, cell, 8, 3, 4, 3, 99]⟩

/-- The address of that cell. In immediate mode it is a parameter of the comparison itself. -/
def comparisonCell : Mode → Word
  | .position => 9
  | .immediate => 3

theorem comparison_performs {code cell : Word} {mode : Mode} (ho : o.length = 4)
    (hcompare : Machine.attempt { memory := comparison code v mode, pc := 2, input := some v } =
      .ok (o, .write (comparisonCell mode) w)) :
    Performs { memory := comparison code cell mode, input := some v }
      [(.store, .write (comparisonCell mode) v), (o, .write (comparisonCell mode) w), (.load, .output w)]
      { memory := comparison code w mode, pc := 8, input := some v, output := some w } := by
  cases mode
  all_goals
    refine ⟨attempt_of_cells rfl rfl rfl, hcompare, ?_⟩
    -- The counter behind the comparison can be evaluated once its length is a number.
    rw [ho]
    exact ⟨attempt_of_cells rfl rfl rfl, rfl⟩

theorem comparison_computes {text : String} {f : Word → Word} (code : Word) (mode : Mode)
    (htext : Memory.parse text = .ok (comparison code (-1) mode)) (ho : o.length = 4)
    (hcompare : ∀ v, Machine.attempt { memory := comparison code v mode, pc := 2, input := some v } =
      .ok (o, .write (comparisonCell mode) (f v))) :
    Computes text 15 f := by
  refine computes_of_haltsWith htext fun v =>
    ⟨_, _, comparison_performs ho (hcompare v), by simp, by simp, ?_, rfl⟩
  cases mode <;> exact attempt_of_cells rfl rfl rfl

def equalPosition : String := "3,9,8,9,10,9,4,9,99,-1,8"

def lessPosition : String := "3,9,7,9,10,9,4,9,99,-1,8"

def equalImmediate : String := "3,3,1108,-1,8,3,4,3,99"

def lessImmediate : String := "3,3,1107,-1,8,3,4,3,99"

theorem equalPosition_computes : Computes equalPosition 15 fun v => if v = 8 then 1 else 0 :=
  comparison_computes 8 .position rfl rfl fun _ => attempt_of_cells rfl rfl rfl

theorem lessPosition_computes : Computes lessPosition 15 fun v => if v.toInt < 8 then 1 else 0 :=
  comparison_computes 7 .position rfl rfl fun _ => attempt_of_cells rfl rfl effect_lessThan

theorem equalImmediate_computes : Computes equalImmediate 15 fun v => if v = 8 then 1 else 0 :=
  comparison_computes 1108 .immediate rfl rfl fun _ => attempt_of_cells rfl rfl rfl

theorem lessImmediate_computes : Computes lessImmediate 15 fun v => if v.toInt < 8 then 1 else 0 :=
  comparison_computes 1107 .immediate rfl rfl fun _ => attempt_of_cells rfl rfl effect_lessThan

end Comparison

/-! ### Whether the input is zero -/

theorem nonzero_computes {text : String} (program : Memory) (htext : Memory.parse text = .ok program)
    (hzero : HaltsWith program 15 0 0) (hne : ∀ v, v ≠ 0 → HaltsWith program 15 v 1) :
    Computes text 15 fun v => if v = 0 then 0 else 1 := by
  refine computes_of_haltsWith htext fun v => ?_
  by_cases h : v = 0
  · rw [if_pos h, h]
    exact hzero
  · rw [if_neg h]
    exact hne v h

def nonzeroPosition : String := "3,12,6,12,15,1,13,14,13,4,13,99,-1,0,1,9"

/-- The cells of `nonzeroPosition`, with `copy` in the one that takes the input and `result` in the one whose word
is put out. -/
def nonzeroPositionCells (copy result : Word) : Memory :=
  ⟨#[3, 12, 6, 12, 15, 1, 13, 14, 13, 4, 13, 99, copy, result, 1, 9]⟩

theorem nonzeroPosition_performs_zero :
    Performs { memory := nonzeroPositionCells (-1) 0, input := some 0 }
      [(.store, .write 12 0), (.jumpIfFalse, .jump 9), (.load, .output 0)]
      { memory := nonzeroPositionCells 0 0, pc := 11, input := some 0, output := some 0 } := by
  refine ⟨?_, ?_, ?_, rfl⟩
  all_goals exact attempt_of_cells rfl rfl rfl

theorem nonzeroPosition_performs (h : v ≠ 0) :
    Performs { memory := nonzeroPositionCells (-1) 0, input := some v }
      [(.store, .write 12 v), (.jumpIfFalse, .pass), (.add, .write 13 1), (.load, .output 1)]
      { memory := nonzeroPositionCells v 1, pc := 11, input := some v, output := some 1 } := by
  refine ⟨?_, attempt_of_cells rfl rfl (effect_jumpIfFalse_of_ne h), ?_, ?_, rfl⟩
  all_goals exact attempt_of_cells rfl rfl rfl

theorem nonzeroPosition_computes : Computes nonzeroPosition 15 fun v => if v = 0 then 0 else 1 :=
  nonzero_computes (nonzeroPositionCells (-1) 0) rfl
    ⟨_, _, nonzeroPosition_performs_zero, by simp, by simp, attempt_of_cells rfl rfl rfl, rfl⟩
    fun _ h => ⟨_, _, nonzeroPosition_performs h, by simp, by simp, attempt_of_cells rfl rfl rfl, rfl⟩

def nonzeroImmediate : String := "3,3,1105,-1,9,1101,0,0,12,4,12,99,1"

/-- The cells of `nonzeroImmediate`, with `copy` in the one that takes the input and is a parameter of the jump,
and `result` in the one whose word is put out. -/
def nonzeroImmediateCells (copy result : Word) : Memory :=
  ⟨#[3, 3, 1105, copy, 9, 1101, 0, 0, 12, 4, 12, 99, result]⟩

theorem nonzeroImmediate_performs_zero :
    Performs { memory := nonzeroImmediateCells (-1) 1, input := some 0 }
      [(.store, .write 3 0), (.jumpIfTrue, .pass), (.add, .write 12 0), (.load, .output 0)]
      { memory := nonzeroImmediateCells 0 0, pc := 11, input := some 0, output := some 0 } := by
  refine ⟨?_, ?_, ?_, ?_, rfl⟩
  all_goals exact attempt_of_cells rfl rfl rfl

theorem nonzeroImmediate_performs (h : v ≠ 0) :
    Performs { memory := nonzeroImmediateCells (-1) 1, input := some v }
      [(.store, .write 3 v), (.jumpIfTrue, .jump 9), (.load, .output 1)]
      { memory := nonzeroImmediateCells v 1, pc := 11, input := some v, output := some 1 } := by
  refine ⟨?_, attempt_of_cells rfl rfl (effect_jumpIfTrue_of_ne h), ?_, rfl⟩
  all_goals exact attempt_of_cells rfl rfl rfl

theorem nonzeroImmediate_computes : Computes nonzeroImmediate 15 fun v => if v = 0 then 0 else 1 :=
  nonzero_computes (nonzeroImmediateCells (-1) 1) rfl
    ⟨_, _, nonzeroImmediate_performs_zero, by simp, by simp, attempt_of_cells rfl rfl rfl, rfl⟩
    fun _ h => ⟨_, _, nonzeroImmediate_performs h, by simp, by simp, attempt_of_cells rfl rfl rfl, rfl⟩

/-! ### How the input compares with eight -/

def largerThanEight : String :=
  "3,21,1008,21,8,20,1005,20,22,107,8,21,20,1006,20,31,1106,0,36,98,0,0,1002,21,125,20,4,20,1105,1,46,104,999," ++
    "1105,1,46,1101,1000,1,20,4,20,1105,1,46,98,99"

/-- The cells of `largerThanEight`, with `result` in the one for the comparisons and for what is put out, and
`copy` in the one that takes the input. -/
def largerThanEightCells (result copy : Word) : Memory :=
  ⟨#[3, 21, 1008, 21, 8, 20, 1005, 20, 22, 107, 8, 21, 20, 1006, 20, 31, 1106, 0, 36, 98, result, copy, 1002, 21, 125,
    20, 4, 20, 1105, 1, 46, 104, 999, 1105, 1, 46, 1101, 1000, 1, 20, 4, 20, 1105, 1, 46, 98, 99]⟩

theorem largerThanEight_performs_eight :
    Performs { memory := largerThanEightCells 0 0, input := some 8 }
      [(.store, .write 21 8), (.equal, .write 20 1), (.jumpIfTrue, .jump 22), (.mul, .write 20 1000),
        (.load, .output 1000), (.jumpIfTrue, .jump 46)]
      { memory := largerThanEightCells 1000 8, pc := 46, input := some 8, output := some 1000 } := by
  refine ⟨?_, ?_, ?_, ?_, ?_, ?_, rfl⟩
  all_goals exact attempt_of_cells rfl rfl rfl

/-- What the program does first if the input is not eight. -/
theorem largerThanEight_performs_unequal (h : v ≠ 8) :
    Performs { memory := largerThanEightCells 0 0, input := some v }
      [(.store, .write 21 v), (.equal, .write 20 0), (.jumpIfTrue, .pass)]
      { memory := largerThanEightCells 0 v, pc := 9, input := some v } := by
  have hequal : Machine.attempt { memory := largerThanEightCells 0 v, pc := 2, input := some v } =
      .ok (.equal, .write 20 (if v = 8 then 1 else 0)) := attempt_of_cells rfl rfl rfl
  rw [if_neg h] at hequal
  exact ⟨attempt_of_cells rfl rfl rfl, hequal, attempt_of_cells rfl rfl rfl, rfl⟩

theorem largerThanEight_lessThan (v : Word) :
    Machine.attempt { memory := largerThanEightCells 0 v, pc := 9, input := some v } =
      .ok (.lessThan, .write 20 (if 8 < v.toInt then 1 else 0)) :=
  attempt_of_cells rfl rfl effect_lessThan

theorem largerThanEight_performs_less (h : ¬8 < v.toInt) :
    Performs { memory := largerThanEightCells 0 v, pc := 9, input := some v }
      [(.lessThan, .write 20 0), (.jumpIfFalse, .jump 31), (.load, .output 999), (.jumpIfTrue, .jump 46)]
      { memory := largerThanEightCells 0 v, pc := 46, input := some v, output := some 999 } := by
  have hless := largerThanEight_lessThan v
  rw [if_neg h] at hless
  refine ⟨hless, ?_, ?_, ?_, rfl⟩
  all_goals exact attempt_of_cells rfl rfl rfl

theorem largerThanEight_performs_greater (h : 8 < v.toInt) :
    Performs { memory := largerThanEightCells 0 v, pc := 9, input := some v }
      [(.lessThan, .write 20 1), (.jumpIfFalse, .pass), (.jumpIfFalse, .jump 36), (.add, .write 20 1001),
        (.load, .output 1001), (.jumpIfTrue, .jump 46)]
      { memory := largerThanEightCells 1001 v, pc := 46, input := some v, output := some 1001 } := by
  have hless := largerThanEight_lessThan v
  rw [if_pos h] at hless
  refine ⟨hless, ?_, ?_, ?_, ?_, ?_, rfl⟩
  all_goals exact attempt_of_cells rfl rfl rfl

theorem largerThanEight_computes :
    Computes largerThanEight 15 fun v => if v.toInt < 8 then 999 else if v = 8 then 1000 else 1001 := by
  have htext : Memory.parse largerThanEight = .ok (largerThanEightCells 0 0) := by decide +kernel
  refine computes_of_haltsWith htext fun v => ?_
  by_cases height : v = 8
  · subst height
    exact ⟨_, _, largerThanEight_performs_eight, by simp, by simp, attempt_of_cells rfl rfl rfl, rfl⟩
  · have hfirst := largerThanEight_performs_unequal height
    have hne : v.toInt ≠ 8 := fun h => height (Int64.toInt_inj.mp h)
    by_cases hless : v.toInt < 8
    · rw [if_pos hless]
      exact ⟨_, _, hfirst.append (largerThanEight_performs_less (by omega)), by simp, by simp,
        attempt_of_cells rfl rfl rfl, rfl⟩
    · rw [if_neg hless, if_neg height]
      exact ⟨_, _, hfirst.append (largerThanEight_performs_greater (by omega)), by simp, by simp,
        attempt_of_cells rfl rfl rfl, rfl⟩

/-- **The samples are right for every input.** Each is read from its text, and it halts within 15 steps and without
a fault. -/
theorem samples_answer_every_input :
    Computes largerThanEight 15 (fun v => if v.toInt < 8 then 999 else if v = 8 then 1000 else 1001) ∧
    Computes equalPosition 15 (fun v => if v = 8 then 1 else 0) ∧
    Computes lessPosition 15 (fun v => if v.toInt < 8 then 1 else 0) ∧
    Computes equalImmediate 15 (fun v => if v = 8 then 1 else 0) ∧
    Computes lessImmediate 15 (fun v => if v.toInt < 8 then 1 else 0) ∧
    Computes nonzeroPosition 15 (fun v => if v = 0 then 0 else 1) ∧
    Computes nonzeroImmediate 15 (fun v => if v = 0 then 0 else 1) :=
  ⟨largerThanEight_computes, equalPosition_computes, lessPosition_computes, equalImmediate_computes,
    lessImmediate_computes, nonzeroPosition_computes, nonzeroImmediate_computes⟩

end Sample

end Intcode
