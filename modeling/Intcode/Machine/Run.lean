import Intcode.Machine.Step

/-!
Runs: steps until the machine halts or fails, or until a limit is reached. A machine that has not
stopped after as many steps as it has states of memory and counter has been in one of them twice and
never stops, so that number is the limit of a run that is given none.
-/

namespace Intcode

/-- Why a run does not end in a halt. -/
inductive RunError where
  | fault (fault : Fault)
  | stepLimit (limit : Nat)
deriving DecidableEq

/-- What a user is told of a run that does not end in a halt. -/
def RunError.message : RunError → String
  | fault f => f.message
  | stepLimit limit => "Program did not halt within " ++ Text.Decimal.text limit ++ " steps"

/-- A row of steps: how it ends, the machine after it, and how many steps were taken. -/
structure Run where
  outcome : Outcome
  machine : Machine
  steps : Nat
deriving DecidableEq

/-- The result of a run that was given a limit. -/
def Run.result (run : Run) (limit : Nat) : Except RunError Unit :=
  match run.outcome with
  | .halted => .ok ()
  | .faulted fault => .error (.fault fault)
  | .ongoing => .error (.stepLimit limit)

namespace Machine

/-- At most `budget` steps after the `taken` ones before, up to the first that halts or fails. -/
def advance (m : Machine) (taken : Nat) : Nat → Run
  | 0 => ⟨if m.isHalted then .halted else .ongoing, m, taken⟩
  | budget + 1 =>
    match m.step with
    | ⟨.ongoing, next, _⟩ => next.advance (taken + 1) budget
    | ⟨outcome, next, _⟩ => ⟨outcome, next, taken + 1⟩

/-- At most `limit` steps, up to the first that halts or fails. -/
def runWithin (m : Machine) (limit : Nat) : Run := m.advance 0 limit

/-- At most `rounds` rounds of `budget` steps each after the `taken` ones before, up to the first step that
halts or fails. -/
def advanceRounds (m : Machine) (taken budget : Nat) : Nat → Run
  | 0 => m.advance taken 0
  | rounds + 1 =>
    match m.advance taken budget with
    | ⟨.ongoing, next, taken⟩ => next.advanceRounds taken budget rounds
    | r => r

/-- The number of states of a memory of this size and a counter. -/
def stateCount (m : Machine) : Nat := 1 <<< (64 * (m.memory.size + 1))

/-- Steps up to the first that halts or fails. They are counted in rounds, so that the number which goes
down at each step is small; together the rounds have `stateCount` steps. -/
def run (m : Machine) : Run := m.advanceRounds 0 (1 <<< 32) (1 <<< (64 * m.memory.size + 32))

theorem isHalted_of_step_ongoing {m : Machine} (h : m.step.outcome = .ongoing) :
    m.step.machine.isHalted = false := by
  unfold step at h ⊢
  split at h
  · cases h
  · rename_i hm
    rw [if_neg hm]
    cases hfetch : m.fetch with
    | error fault => simp [hfetch, fail] at h
    | ok fetched =>
      rw [hfetch] at h
      unfold execute at h ⊢
      cases heffect : m.effect fetched.1.opcode fetched.2 with
      | error fault => simp [heffect, fail] at h
      | ok e => cases e <;> simp_all [Effect.outcome, apply, isHalted]

/-- A row of steps may be cut in two. -/
theorem advance_add {m : Machine} (h : m.isHalted = false) (taken a b : Nat) :
    m.advance taken (a + b) =
      match m.advance taken a with
      | ⟨.ongoing, next, taken⟩ => next.advance taken b
      | r => r := by
  induction a generalizing m taken with
  | zero => simp [advance, h]
  | succ a ih =>
    rw [Nat.add_right_comm, advance, advance]
    have hnext := @isHalted_of_step_ongoing m
    match hstep : m.step with
    | ⟨.ongoing, next, log⟩ =>
      rw [hstep] at hnext
      exact ih (hnext rfl) _
    | ⟨.halted, next, log⟩ => rfl
    | ⟨.faulted fault, next, log⟩ => rfl

theorem advance_of_isHalted {m : Machine} (h : m.isHalted = true) (taken budget : Nat) :
    m.advance taken (budget + 1) = ⟨.halted, m, taken + 1⟩ := by
  simp [advance, step, h]

theorem advanceRounds_eq_advance (m : Machine) (taken budget rounds : Nat) :
    m.advanceRounds taken (budget + 1) rounds = m.advance taken ((budget + 1) * rounds) := by
  induction rounds generalizing m taken with
  | zero => rfl
  | succ rounds ih =>
    rw [advanceRounds, Nat.mul_succ, Nat.add_comm _ (budget + 1)]
    by_cases h : m.isHalted = true
    · rw [advance_of_isHalted h, Nat.add_right_comm, advance_of_isHalted h]
    · rw [advance_add (by simpa using h) taken (budget + 1) ((budget + 1) * rounds)]
      split
      · exact ih ..
      · rfl

/-- A run is limited by the number of states alone. -/
theorem run_eq_runWithin (m : Machine) : m.run = m.runWithin m.stateCount := by
  have hround : 1 <<< 32 - 1 + 1 = 1 <<< 32 := by decide
  have hcount : 1 <<< 32 * 1 <<< (64 * m.memory.size + 32) = m.stateCount := by
    rw [stateCount, Nat.one_shiftLeft, Nat.one_shiftLeft, Nat.one_shiftLeft, ← Nat.pow_add]
    congr 1
    omega
  rw [runWithin, ← hcount, ← hround, ← advanceRounds_eq_advance, hround]
  rfl

/-- Adds the records of the next `count` steps, whatever their outcome, to a log. -/
def logOnto (m : Machine) (log : Array Record) : Nat → Array Record
  | 0 => log
  | count + 1 =>
    let next := m.step
    next.machine.logOnto (log ++ next.log) count

/-- The records of the next `count` steps, whatever their outcome. -/
def log (m : Machine) (count : Nat) : List Record := (m.logOnto #[] count).toList

end Machine

end Intcode
