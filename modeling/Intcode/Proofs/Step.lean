import Intcode.Proofs.Operands

/-! What one step can do. A step of a machine that has not halted is an attempt at the instruction at its
counter, and the attempt looks at the memory, the counter and the input alone: neither the status nor the
output has a part in it, and the input only when a word is to be stored. -/

namespace Intcode

theorem Opcode.length_parameters_le (o : Opcode) : o.parameters.length ≤ 3 := by cases o <;> decide

namespace Instruction

variable {i : Instruction}

theorem length_parameters : i.parameters.length = i.opcode.parameters.length := by
  rw [parameters, List.length_zip, i.length_modes, Nat.min_self]

theorem getElem?_parameters {k : Nat} {role : Role} {mode : Mode} :
    i.parameters[k]? = some (role, mode) ↔
      i.opcode.parameters[k]? = some role ∧ i.modes[k]? = some mode := by
  rw [parameters, List.getElem?_zip_eq_some]

theorem exists_mode {k : Nat} {role : Role} (h : i.opcode.parameters[k]? = some role) :
    ∃ mode, i.modes[k]? = some mode := by
  obtain ⟨hk, -⟩ := List.getElem?_eq_some_iff.mp h
  rw [← i.length_modes] at hk
  exact ⟨i.modes[k], List.getElem?_eq_getElem hk⟩

theorem operands_eq_ok_iff {m : Memory} {pc : UInt64} {x : Operands} :
    i.operands m pc = .ok x ↔ ∃ values, m.operands (pc + 1) i.parameters = .ok values ∧ x = .ofList values := by
  unfold operands
  cases m.operands (pc + 1) i.parameters <;> simp [eq_comm]

theorem operands_eq_error_iff {m : Memory} {pc : UInt64} {f : Fault} :
    i.operands m pc = .error f ↔ m.operands (pc + 1) i.parameters = .error f := by
  unfold operands
  cases m.operands (pc + 1) i.parameters <;> simp

end Instruction

namespace Machine

variable {m : Machine} {i : Instruction} {x : Operands} {f : Fault}

theorem codes_of_decode (h : Instruction.decode m.memory m.pc = .ok i) :
    m.pc.toNat < 2 ^ 63 ∧ m.Codes i.word i.opcode ∧ i.HasModes := by
  obtain ⟨hcell, hcodes, hmodes⟩ := Instruction.decode_eq_ok_iff.mp h
  obtain ⟨hpc, hword⟩ := Memory.cell?_counter_some hcell
  exact ⟨hpc, ⟨hword, hcodes⟩, hmodes⟩

theorem fetch_eq_ok_iff :
    m.fetch = .ok (i, x) ↔
      Instruction.decode m.memory m.pc = .ok i ∧ i.operands m.memory m.pc = .ok x := by
  unfold fetch
  cases Instruction.decode m.memory m.pc with
  | error g => simp
  | ok i' =>
      dsimp only
      cases hx : i'.operands m.memory m.pc with
      | error g =>
          simp only [reduceCtorEq, Except.ok.injEq, false_iff, not_and]
          rintro rfl
          simp [hx]
      | ok x' =>
          simp only [Except.ok.injEq, Prod.mk.injEq]
          constructor
          · rintro ⟨rfl, rfl⟩
            exact ⟨rfl, hx⟩
          · rintro ⟨rfl, hx'⟩
            exact ⟨rfl, Except.ok.inj (hx.symm.trans hx')⟩

theorem fetch_eq_error_iff :
    m.fetch = .error f ↔ Instruction.decode m.memory m.pc = .error f ∨
      ∃ i, Instruction.decode m.memory m.pc = .ok i ∧ i.operands m.memory m.pc = .error f := by
  unfold fetch
  cases Instruction.decode m.memory m.pc with
  | error g => simp
  | ok i' => cases hx : i'.operands m.memory m.pc <;> simp [hx]

/-- The operands that are found are what the parameters stand for, and where an operation has fewer than
three, the others are zero. -/
theorem operand_of_fetch (h : m.fetch = .ok (i, x)) :
    ∃ values, x = .ofList values ∧ values.length = i.opcode.parameters.length ∧
      ∀ k role, i.opcode.parameters[k]? = some role →
        m.Operand i.word (k + 1) role (values.getD k 0) := by
  obtain ⟨hdecode, hoperands⟩ := fetch_eq_ok_iff.mp h
  obtain ⟨hpc, -, hmodes⟩ := codes_of_decode hdecode
  obtain ⟨values, hvalues, hx⟩ := Instruction.operands_eq_ok_iff.mp hoperands
  obtain ⟨hlength, hvalue⟩ := Memory.operands_eq_ok_iff.mp hvalues
  rw [Instruction.length_parameters] at hlength
  refine ⟨values, hx, hlength, fun k role hrole => ?_⟩
  obtain ⟨mode, hmode⟩ := Instruction.exists_mode hrole
  obtain ⟨hk, -⟩ := List.getElem?_eq_some_iff.mp hrole
  have hthree := i.opcode.length_parameters_le
  have hget : values[k]? = some (values.getD k 0) := by
    rw [List.getD_eq_getElem?_getD, List.getElem?_eq_getElem (by omega), Option.getD_some]
  exact operand_of_ok hpc (by omega) (hmodes k mode hmode)
    (hvalue k _ _ (Instruction.getElem?_parameters.mpr ⟨hrole, hmode⟩) hget)

/-- The operation of the instruction at the counter and its effect, whatever the status. -/
def attempt (m : Machine) : Except Fault (Opcode × Effect) :=
  match m.fetch with
  | .error fault => .error fault
  | .ok (i, x) =>
    match m.effect i.opcode x with
    | .error fault => .error fault
    | .ok e => .ok (i.opcode, e)

theorem attempt_eq_ok_iff {o : Opcode} {e : Effect} :
    m.attempt = .ok (o, e) ↔ ∃ i x, m.fetch = .ok (i, x) ∧ i.opcode = o ∧ m.effect o x = .ok e := by
  unfold attempt
  cases m.fetch with
  | error g => simp
  | ok fetched =>
      obtain ⟨i, x⟩ := fetched
      dsimp only
      cases he : m.effect i.opcode x with
      | error g =>
          simp only [reduceCtorEq, Except.ok.injEq, Prod.mk.injEq, false_iff]
          rintro ⟨i', x', ⟨rfl, rfl⟩, rfl, he'⟩
          rw [he] at he'
          cases he'
      | ok e' =>
          simp only [Except.ok.injEq, Prod.mk.injEq]
          constructor
          · rintro ⟨rfl, rfl⟩
            exact ⟨i, x, ⟨rfl, rfl⟩, rfl, he⟩
          · rintro ⟨i', x', ⟨rfl, rfl⟩, rfl, he'⟩
            rw [he] at he'
            exact ⟨rfl, Except.ok.inj he'⟩

theorem attempt_eq_error_iff :
    m.attempt = .error f ↔
      m.fetch = .error f ∨ ∃ i x, m.fetch = .ok (i, x) ∧ m.effect i.opcode x = .error f := by
  unfold attempt
  cases m.fetch with
  | error g => simp
  | ok fetched =>
      obtain ⟨i, x⟩ := fetched
      dsimp only
      cases he : m.effect i.opcode x with
      | error g =>
          simp only [reduceCtorEq, Except.error.injEq, Except.ok.injEq, Prod.mk.injEq, false_or]
          constructor
          · rintro rfl
            exact ⟨i, x, ⟨rfl, rfl⟩, he⟩
          · rintro ⟨i', x', ⟨rfl, rfl⟩, he'⟩
            exact Except.error.inj (he.symm.trans he')
      | ok e =>
          simp only [reduceCtorEq, Except.ok.injEq, Prod.mk.injEq, false_or, false_iff]
          rintro ⟨i', x', ⟨rfl, rfl⟩, he'⟩
          rw [he] at he'
          cases he'

theorem step_of_halted (h : m.status = .halted) : m.step = ⟨.halted, m, []⟩ := by
  simp [step, isHalted, h]

theorem step_of_attempt_error (hm : m.status ≠ .halted) (h : m.attempt = .error f) :
    m.step.outcome = .faulted f ∧ m.step.machine = { m with status := .faulted } := by
  rw [step, if_neg (by simp [isHalted, hm])]
  rcases attempt_eq_error_iff.mp h with hfetch | ⟨i, x, hfetch, heffect⟩
  · rw [hfetch]
    exact ⟨rfl, rfl⟩
  · rw [hfetch]
    dsimp only
    rw [execute, heffect]
    exact ⟨rfl, rfl⟩

theorem step_of_attempt_ok {o : Opcode} {e : Effect} (hm : m.status ≠ .halted)
    (h : m.attempt = .ok (o, e)) :
    m.step.outcome = e.outcome ∧ m.step.machine = m.apply o.length e := by
  obtain ⟨i, x, hfetch, rfl, heffect⟩ := attempt_eq_ok_iff.mp h
  rw [step, if_neg (by simp [isHalted, hm]), hfetch]
  dsimp only
  rw [execute, heffect]
  exact ⟨rfl, rfl⟩

theorem effect_outcome_ne_faulted (e : Effect) : e.outcome ≠ .faulted f := by cases e <;> simp [Effect.outcome]

theorem step_faulted_iff_attempt :
    m.step.outcome = .faulted f ↔ m.status ≠ .halted ∧ m.attempt = .error f := by
  by_cases hm : m.status = .halted
  · simp [step_of_halted hm, hm]
  · cases h : m.attempt with
    | error g => simp [(step_of_attempt_error hm h).1, hm]
    | ok attempted =>
        obtain ⟨o, e⟩ := attempted
        simp [(step_of_attempt_ok hm h).1, effect_outcome_ne_faulted e]

/-- Two machines of one status that attempt the same take the same step, and what it leaves is related if
every way of leaving a machine keeps the relation. -/
theorem step_related {m' : Machine} {R : Machine → Machine → Prop} (hstatus : m'.status = m.status)
    (hsame : m'.attempt = m.attempt) (hstart : R m m')
    (hfail : R { m with status := .faulted } { m' with status := .faulted })
    (happly : ∀ (o : Opcode) (e : Effect), R (m.apply o.length e) (m'.apply o.length e)) :
    m'.step.outcome = m.step.outcome ∧ R m.step.machine m'.step.machine := by
  by_cases hm : m.status = .halted
  · rw [step_of_halted hm, step_of_halted (hstatus.trans hm)]
    exact ⟨rfl, hstart⟩
  · have hm' : m'.status ≠ .halted := by rwa [hstatus]
    cases hattempt : m.attempt with
    | error g =>
        obtain ⟨houtcome, hmachine⟩ := step_of_attempt_error hm hattempt
        obtain ⟨houtcome', hmachine'⟩ := step_of_attempt_error hm' (hsame.trans hattempt)
        rw [houtcome, houtcome', hmachine, hmachine']
        exact ⟨rfl, hfail⟩
    | ok attempted =>
        obtain ⟨o, e⟩ := attempted
        obtain ⟨houtcome, hmachine⟩ := step_of_attempt_ok hm hattempt
        obtain ⟨houtcome', hmachine'⟩ := step_of_attempt_ok hm' (hsame.trans hattempt)
        rw [houtcome, houtcome', hmachine, hmachine']
        exact ⟨rfl, happly o e⟩

theorem step_machine_of_faulted (h : m.step.outcome = .faulted f) :
    m.step.machine = { m with status := .faulted } := by
  obtain ⟨hm, hattempt⟩ := step_faulted_iff_attempt.mp h
  exact (step_of_attempt_error hm hattempt).2

@[simp] theorem attempt_status (m : Machine) (s : Status) :
    ({ m with status := s } : Machine).attempt = m.attempt := rfl

/-- Trying again without another input fails in the same way and changes nothing more. -/
theorem step_again_of_faulted (h : m.step.outcome = .faulted f) :
    m.step.machine.step.outcome = .faulted f ∧ m.step.machine.step.machine = m.step.machine := by
  obtain ⟨-, hattempt⟩ := step_faulted_iff_attempt.mp h
  rw [step_machine_of_faulted h]
  exact step_of_attempt_error (by simp) (by rwa [attempt_status])

end Machine

end Intcode
