import Intcode.Machine.Session
import Intcode.Proofs.Failure
import Intcode.Proofs.Run

/-! Histories: a session, taken apart into the steps that its calls make and the inputs that they set. What
is preserved along a history is that the status tells the truth: a machine that has halted stands at the
word of a halt, and one that is faulted would fail again as its last failing step did, unless an input has
come for the instruction that had none. -/

namespace Intcode

/-- A part of a history. -/
inductive Move where
  | setInput (value : Word)
  | step
deriving DecidableEq

/-- The last step of a history that failed: its fault, and the last input that was set after it. -/
structure Failure where
  fault : Fault
  input : Option Word := none
deriving DecidableEq

/-- The step failed for want of an input, and `value` has been set since. -/
def Failure.Answered (failure : Failure) (value : Word) : Prop :=
  failure.input = some value ∧ ∃ p, failure.fault = .missingInput p

namespace Machine

/-- The machine after a move. -/
def move (m : Machine) : Move → Machine
  | .setInput value => m.setInput value
  | .step => m.step.machine

/-- The machine after a history. -/
def play (m : Machine) (moves : List Move) : Machine := moves.foldl move m

/-- The moves that a row of calls comes to. -/
def moves (m : Machine) : List Call → List Move
  | [] => []
  | .setInput value :: calls => .setInput value :: (m.setInput value).moves calls
  | call :: calls => List.replicate (m.reply call).steps .step ++ (m.reply call).machine.moves calls

/-- The last failure after a move, if `last` is the one before it. -/
def note (m : Machine) (last : Option Failure) : Move → Option Failure
  | .setInput value => last.map fun failure => { failure with input := some value }
  | .step =>
    match m.step.outcome with
    | .faulted fault => some ⟨fault, none⟩
    | .ongoing | .halted => last

/-- The last failure after a history, if `last` is the one before it. -/
def lastFailure? (m : Machine) (last : Option Failure) : List Move → Option Failure
  | [] => last
  | move :: rest => (m.move move).lastFailure? (m.note last move) rest

variable {m : Machine} {f : Fault} {o : Opcode} {e : Effect}

theorem play_append (m : Machine) (before rest : List Move) :
    m.play (before ++ rest) = (m.play before).play rest := List.foldl_append

theorem play_replicate_step (m : Machine) (n : Nat) : m.play (.replicate n .step) = m.after n := by
  induction n generalizing m with
  | zero => rfl
  | succ n ih => exact ih m.step.machine

/-! ### Replies of a run -/

theorem step_machine_status_of_halted (h : m.step.outcome = .halted) : m.step.machine.status = .halted := by
  by_cases hm : m.status = .halted
  · rw [step_of_halted hm]
    exact hm
  · cases hattempt : m.attempt with
    | error f =>
        rw [(step_of_attempt_error hm hattempt).1] at h
        cases h
    | ok attempted =>
        obtain ⟨o, e⟩ := attempted
        obtain ⟨houtcome, hmachine⟩ := step_of_attempt_ok hm hattempt
        rw [houtcome] at h
        rw [hmachine]
        cases e with
        | halt => rfl
        | write | output | jump | pass => cases h

theorem runWithin_machine (m : Machine) (n : Nat) :
    (m.runWithin n).machine = m.after (m.runWithin n).steps := by
  unfold runWithin
  rcases m.advance_cases 0 n with ⟨-, hrun⟩ | ⟨k, -, -, -, hrun⟩
  · rw [hrun, Nat.zero_add]
  · rw [hrun, Nat.zero_add]

theorem runWithin_status (m : Machine) (n : Nat) :
    ((m.runWithin n).outcome = .halted → (m.runWithin n).machine.status = .halted) ∧
      ∀ f, (m.runWithin n).outcome = .faulted f → (m.runWithin n).machine.status = .faulted := by
  unfold runWithin
  rcases m.advance_cases 0 n with ⟨-, hrun⟩ | ⟨k, -, -, -, hrun⟩
  · rw [hrun]
    dsimp only
    split
    · rename_i h
      refine ⟨fun _ => of_decide_eq_true h, fun f hf => ?_⟩
      cases hf
    · refine ⟨fun h => ?_, fun f hf => ?_⟩
      · cases h
      · cases hf
  · rw [hrun, after_succ]
    refine ⟨step_machine_status_of_halted, fun f hf => ?_⟩
    rw [step_machine_of_faulted hf]

theorem result_ok_iff {run : Run} {n : Nat} : run.result n = .ok () ↔ run.outcome = .halted := by
  unfold Run.result
  cases run.outcome <;> simp

theorem result_fault_iff {run : Run} {n : Nat} :
    run.result n = .error (.fault f) ↔ run.outcome = .faulted f := by
  unfold Run.result
  cases run.outcome <;> simp

/-- A run that is given no limit replies as one that is given the number of states. -/
theorem reply_run (m : Machine) : m.reply .run = m.reply (.runWithin m.stateCount) := by
  simp only [reply, run_eq_runWithin]

theorem reply_runWithin_status (m : Machine) (n : Nat) :
    ((m.reply (.runWithin n)).result = .ok () → (m.reply (.runWithin n)).machine.status = .halted) ∧
      ∀ f, (m.reply (.runWithin n)).result = .error (.fault f) →
        (m.reply (.runWithin n)).machine.status = .faulted := by
  simp only [reply, result_ok_iff, result_fault_iff]
  exact m.runWithin_status n

theorem reply_status {call : Call} (h : call = .run ∨ ∃ n, call = .runWithin n) :
    ((m.reply call).result = .ok () → (m.reply call).machine.status = .halted) ∧
      ∀ f, (m.reply call).result = .error (.fault f) → (m.reply call).machine.status = .faulted := by
  rcases h with rfl | ⟨n, rfl⟩
  · rw [reply_run]
    exact m.reply_runWithin_status _
  · exact m.reply_runWithin_status n

theorem reply_runWithin_machine (m : Machine) (n : Nat) :
    (m.reply (.runWithin n)).machine = m.after (m.reply (.runWithin n)).steps := m.runWithin_machine n

/-! ### Moves of a session -/

theorem play_moves_reply (m : Machine) (call : Call) (calls : List Call) :
    m.play (m.moves (call :: calls)) = (m.reply call).machine.play ((m.reply call).machine.moves calls) := by
  have hsteps (h : (m.reply call).machine = m.after (m.reply call).steps) :
      m.play (.replicate (m.reply call).steps .step ++ (m.reply call).machine.moves calls) =
        (m.reply call).machine.play ((m.reply call).machine.moves calls) := by
    rw [play_append, play_replicate_step, ← h]
  cases call with
  | setInput value => rfl
  | step =>
      refine hsteps ?_
      unfold reply
      cases hs : m.step with
      | mk outcome next log =>
          have hafter : m.after 1 = next := by
            rw [after_succ, after, hs]
          cases outcome <;> exact hafter.symm
  | run =>
      apply hsteps
      rw [reply_run]
      exact m.reply_runWithin_machine _
  | runWithin limit => exact hsteps (m.runWithin_machine limit)

/-- A session leaves the machine where its moves do. -/
theorem play_moves (m : Machine) (calls : List Call) : m.play (m.moves calls) = m.session calls := by
  induction calls generalizing m with
  | nil => rfl
  | cons call calls ih =>
      rw [play_moves_reply, ih]
      rfl

/-! ### Attempts and inputs -/

/-- The machine stands at an instruction that stores its input, and the operands are found. -/
def AtStore (m : Machine) : Prop := ∃ i x, m.fetch = .ok (i, x) ∧ i.opcode = .store

theorem outOfBounds_of_operand {a : Word} {p : Role × Mode} (h : m.memory.operand a p = .error f) :
    ∃ b, f = m.memory.outOfBounds b := by
  obtain ⟨b, -, hf⟩ := Memory.operand_eq_error_iff.mp h
  exact ⟨b, hf⟩

theorem outOfBounds_of_operands {i : Instruction} (h : i.operands m.memory m.pc = .error f) :
    ∃ b, f = m.memory.outOfBounds b := by
  have hvalues := Instruction.operands_eq_error_iff.mp h
  obtain ⟨k, q, -, hq, -⟩ := Memory.operands_eq_error_iff.mp hvalues
  exact outOfBounds_of_operand hq

/-- An input is missed only once the operands are found. -/
theorem fetch_ne_missingInput (p : UInt64) : m.fetch ≠ .error (.missingInput p) := by
  intro h
  rcases fetch_eq_error_iff.mp h with hdecode | ⟨i, -, hoperands⟩
  · rcases Instruction.decode_eq_error_iff.mp hdecode with ⟨-, hf⟩ | ⟨w, -, hword⟩
    · cases hf
    · rcases Instruction.ofWord_eq_error_iff.mp hword with ⟨-, hf⟩ | ⟨o, -, k, -, d, -, -, -, hf⟩
      · cases hf
      · cases hf
  · obtain ⟨b, hb⟩ := outOfBounds_of_operands hoperands
    cases hb

theorem writing_ne_missingInput {d v : Word} (p : UInt64) : m.writing d v ≠ .error (.missingInput p) := by
  intro h
  cases (writing_eq_error_iff.mp h).2

theorem effect_missingInput {x : Operands} {p : UInt64} (h : m.effect o x = .error (.missingInput p)) :
    o = .store ∧ m.input = none ∧ p = m.pc := by
  cases o with
  | store =>
      unfold effect at h
      cases hinput : m.input with
      | none =>
          rw [hinput] at h
          cases h
          exact ⟨rfl, rfl, rfl⟩
      | some v =>
          rw [hinput] at h
          exact absurd h (writing_ne_missingInput p)
  | add | mul | lessThan | equal => exact absurd h (writing_ne_missingInput p)
  | jumpIfTrue | jumpIfFalse =>
      simp only [effect, jumping] at h
      repeat' split at h
      all_goals cases h
  | load | halt => cases h

theorem attempt_missingInput {p : UInt64} (h : m.attempt = .error (.missingInput p)) :
    m.AtStore ∧ m.input = none ∧ p = m.pc := by
  rcases attempt_eq_error_iff.mp h with hfetch | ⟨i, x, hfetch, heffect⟩
  · exact absurd hfetch (fetch_ne_missingInput p)
  · obtain ⟨hstore, hrest⟩ := effect_missingInput heffect
    exact ⟨⟨i, x, hfetch, hstore⟩, hrest⟩

theorem effect_input {x : Operands} (ho : o ≠ .store) (input : Option Word) :
    ({ m with input } : Machine).effect o x = m.effect o x := by
  cases o with
  | store => exact absurd rfl ho
  | add | mul | load | jumpIfTrue | jumpIfFalse | lessThan | equal | halt => rfl

theorem effect_store {x : Operands} {v : Word} (h : m.input = some v) :
    m.effect .store x = m.writing x.first v := by
  rw [effect, h]

/-- Of a machine an effect sees, apart from its memory, the counter and the input: at two machines that have
these in common an instruction writes the same, jumps the same, or touches no memory at all. -/
theorem effect_shape (m m' : Machine) (hpc : m'.pc = m.pc) (hinput : m'.input = m.input) (o : Opcode)
    (x : Operands) :
    (∃ d v, m.effect o x = m.writing d v ∧ m'.effect o x = m'.writing d v) ∨
      (∃ taken b, m.effect o x = m.jumping taken b ∧ m'.effect o x = m'.jumping taken b) ∨
      m'.effect o x = m.effect o x ∧ ∀ d v, m.effect o x ≠ .ok (.write d v) := by
  cases o with
  | add | mul | lessThan | equal => exact .inl ⟨_, _, rfl, rfl⟩
  | jumpIfTrue | jumpIfFalse => exact .inr (.inl ⟨_, _, rfl, rfl⟩)
  | load | halt => exact .inr (.inr ⟨rfl, fun d v h => by cases h⟩)
  | store =>
      cases hin : m.input with
      | none =>
          have hnone : m.effect .store x = .error (.missingInput m.pc) := by rw [effect, hin]
          have hnone' : m'.effect .store x = .error (.missingInput m.pc) := by rw [effect, hinput, hin, hpc]
          rw [hnone, hnone']
          exact .inr (.inr ⟨rfl, fun d v h => by cases h⟩)
      | some v => exact .inl ⟨x.first, v, effect_store hin, effect_store (hinput.trans hin)⟩

theorem jumping_ne_write {taken : Bool} {b d v : Word} : m.jumping taken b ≠ .ok (.write d v) := by
  intro h
  unfold jumping at h
  repeat' split at h
  all_goals cases h

theorem inBounds_of_effect {x : Operands} {d v : Word} (h : m.effect o x = .ok (.write d v)) : m.memory.InBounds d := by
  rcases effect_shape m m rfl rfl o x with ⟨d', v', hm, -⟩ | ⟨taken, b, hm, -⟩ | ⟨-, hno⟩
  · obtain ⟨hbounds, heffect⟩ := writing_eq_ok_iff.mp (hm.symm.trans h)
    cases heffect
    exact hbounds
  · exact absurd (hm.symm.trans h) jumping_ne_write
  · exact absurd h (hno d v)

/-- Another input does not help an instruction that fails, unless it is the input that it lacked. -/
theorem attempt_error_setInput (h : m.attempt = .error f) (v : Word) :
    (m.setInput v).attempt = .error f ∨ f = .missingInput m.pc := by
  rcases attempt_eq_error_iff.mp h with hfetch | ⟨i, x, hfetch, heffect⟩
  · exact .inl (attempt_eq_error_iff.mpr (.inl hfetch))
  · by_cases hstore : i.opcode = .store
    -- whether a store fails for its destination does not depend on the word
    · rw [hstore] at heffect
      cases hinput : m.input with
      | none =>
          rw [effect, hinput] at heffect
          cases heffect
          exact .inr rfl
      | some u =>
          rw [effect_store hinput] at heffect
          refine .inl (attempt_eq_error_iff.mpr (.inr ⟨i, x, hfetch, ?_⟩))
          rw [hstore, effect_store rfl]
          exact writing_eq_error_iff.mpr (writing_eq_error_iff.mp heffect)
    · refine .inl (attempt_eq_error_iff.mpr (.inr ⟨i, x, hfetch, ?_⟩))
      exact (effect_input hstore (some v)).trans heffect

theorem attempt_halt_setInput (h : m.attempt = .ok (.halt, e)) (v : Word) :
    (m.setInput v).attempt = .ok (.halt, e) := by
  obtain ⟨i, x, hfetch, ho, heffect⟩ := attempt_eq_ok_iff.mp h
  refine attempt_eq_ok_iff.mpr ⟨i, x, hfetch, ho, ?_⟩
  exact (effect_input (by simp) (some v)).trans heffect

/-- A store that has its input is carried out unless its destination is the address of no cell. -/
theorem step_of_atStore {v : Word} (hm : m.status ≠ .halted) (hstore : m.AtStore)
    (hinput : m.input = some v) :
    ∃ w d, m.Codes w .store ∧ m.cell? 1 = some d ∧
      (m.step.outcome = .ongoing ∧ m.Writes .store d v m.step.machine ∨
        m.step.outcome = .faulted (.outOfBounds d m.memory.size) ∧
          m.step.machine = { m with status := .faulted } ∧ (d.toInt < 0 ∨ m.memory.size ≤ d.toInt)) := by
  obtain ⟨i, x, hfetch, ho⟩ := hstore
  obtain ⟨hpc, hcodes, -⟩ := codes_of_decode (fetch_eq_ok_iff.mp hfetch).1
  obtain ⟨values, rfl, -, hoperand⟩ := operand_of_fetch hfetch
  rw [ho] at hcodes hoperand
  have hd : m.cell? 1 = some (values.getD 0 0) := hoperand 0 .destination rfl
  refine ⟨i.word, values.getD 0 0, hcodes, hd, ?_⟩
  have heffect : m.effect i.opcode (.ofList values) = m.writing (values.getD 0 0) v := by
    rw [ho, effect_store hinput]
    rfl
  cases hwriting : m.writing (values.getD 0 0) v with
  | ok e =>
      rw [hwriting, ho] at heffect
      obtain ⟨houtcome, hmachine⟩ := step_of_attempt_ok hm
        (attempt_eq_ok_iff.mpr ⟨i, .ofList values, hfetch, ho, heffect⟩)
      rw [houtcome, hmachine]
      exact .inl ⟨outcome_of_effect heffect, writes_of_writing (o := .store) hpc hd hwriting⟩
  | error f =>
      rw [hwriting] at heffect
      obtain ⟨hbounds, rfl⟩ := writing_eq_error_iff.mp hwriting
      obtain ⟨houtcome, hmachine⟩ := step_of_attempt_error hm
        (attempt_eq_error_iff.mpr (.inr ⟨i, .ofList values, hfetch, heffect⟩))
      exact .inr ⟨houtcome, hmachine, hbounds⟩

/-! ### What is preserved -/

/-- The last failure is still that of the machine: the next step fails with the same fault, unless the input
that it lacked has been set since, and then the machine is about to store it. -/
structure Stuck (m : Machine) (failure : Failure) : Prop where
  again : (∀ v, ¬failure.Answered v) → m.attempt = .error failure.fault
  retry : ∀ v, failure.Answered v → m.AtStore ∧ m.input = some v

/-- The status of a machine tells the truth, `last` being the last failure of its history. -/
structure Truthful (m : Machine) (last : Option Failure) : Prop where
  halted : m.status = .halted → ∃ e, m.attempt = .ok (.halt, e)
  faulted : m.status = .faulted → ∃ failure, last = some failure ∧ m.Stuck failure

theorem truthful_load (memory : Memory) : (load memory).Truthful none where
  halted h := by cases h
  faulted h := by cases h

theorem Stuck.setInput {failure : Failure} (h : m.Stuck failure) (v : Word) :
    (m.setInput v).Stuck { failure with input := some v } where
  again hno := by
    have hother (p : UInt64) : failure.fault ≠ .missingInput p := fun hp => hno v ⟨rfl, p, hp⟩
    rcases attempt_error_setInput (h.again fun u hu => hno v ⟨rfl, hu.2⟩) v with hsame | hmissing
    · exact hsame
    · exact absurd hmissing (hother m.pc)
  retry u hu := by
    obtain ⟨hinput, p, hmissing⟩ := hu
    refine ⟨?_, hinput⟩
    -- an earlier input may have answered the same failure, and then the store is known already
    by_cases hanswered : ∃ before, failure.Answered before
    · obtain ⟨before, hbefore⟩ := hanswered
      exact (h.retry before hbefore).1
    · have hattempt := h.again fun before hbefore => hanswered ⟨before, hbefore⟩
      have hfault : failure.fault = .missingInput p := hmissing
      rw [hfault] at hattempt
      exact (attempt_missingInput hattempt).1

theorem stuck_of_step_faulted (h : m.step.outcome = .faulted f) : m.step.machine.Stuck ⟨f, none⟩ where
  again _ := by
    obtain ⟨-, hattempt⟩ := step_faulted_iff_attempt.mp h
    rwa [step_machine_of_faulted h, attempt_status]
  retry v hv := by cases hv.1

theorem opcode_of_halt (h : m.attempt = .ok (o, .halt)) : o = .halt := by
  obtain ⟨w, -, -, houtcome⟩ := table_of_attempt h
  by_cases ho : o = .halt
  · exact ho
  · rw [if_neg ho] at houtcome
    cases houtcome

theorem Truthful.move {last : Option Failure} (h : m.Truthful last) (move : Move) :
    (m.move move).Truthful (m.note last move) := by
  cases move with
  | setInput v =>
      refine ⟨fun hhalted => ?_, fun hfaulted => ?_⟩
      · obtain ⟨e, hattempt⟩ := h.halted hhalted
        exact ⟨e, attempt_halt_setInput hattempt v⟩
      · obtain ⟨failure, rfl, hstuck⟩ := h.faulted hfaulted
        exact ⟨{ failure with input := some v }, rfl, hstuck.setInput v⟩
  | step =>
      unfold Machine.move note
      by_cases hm : m.status = .halted
      · rw [step_of_halted hm]
        exact h
      · cases hattempt : m.attempt with
        | error f =>
            obtain ⟨houtcome, hmachine⟩ := step_of_attempt_error hm hattempt
            have hstuck := stuck_of_step_faulted houtcome
            rw [houtcome]
            refine ⟨fun hhalted => ?_, fun _ => ⟨⟨f, none⟩, rfl, hstuck⟩⟩
            rw [hmachine] at hhalted
            cases hhalted
        | ok attempted =>
            obtain ⟨o, e⟩ := attempted
            obtain ⟨houtcome, hmachine⟩ := step_of_attempt_ok hm hattempt
            rw [houtcome, hmachine]
            cases e with
            | halt =>
                cases opcode_of_halt hattempt
                refine ⟨fun _ => ⟨.halt, hattempt⟩, fun hfaulted => ?_⟩
                cases hfaulted
            | write | output | jump | pass =>
                refine ⟨fun hhalted => ?_, fun hfaulted => ?_⟩
                · cases hhalted
                · cases hfaulted

theorem Truthful.play {last : Option Failure} (h : m.Truthful last) (moves : List Move) :
    (m.play moves).Truthful (m.lastFailure? last moves) := by
  induction moves generalizing m last with
  | nil => exact h
  | cons move moves ih => exact ih (h.move move)

theorem truthful_session (memory : Memory) (calls : List Call) :
    ((load memory).session calls).Truthful
      ((load memory).lastFailure? none ((load memory).moves calls)) := by
  rw [← play_moves]
  exact (truthful_load memory).play _

/-! ### Halted and faulted machines -/

theorem runWithin_of_halted (hm : m.status = .halted) (n : Nat) :
    (m.runWithin n).outcome = .halted ∧ (m.runWithin n).machine = m := by
  have hhalted : m.isHalted = true := decide_eq_true hm
  unfold runWithin
  cases n with
  | zero =>
      rw [advance, if_pos hhalted]
      exact ⟨rfl, rfl⟩
  | succ n =>
      rw [advance_of_isHalted hhalted]
      exact ⟨rfl, rfl⟩

/-- A halted machine answers every call with success, and only a call that sets the input changes it. -/
theorem reply_of_halted (hm : m.status = .halted) (call : Call) :
    (m.reply call).result = .ok () ∧
      (m.reply call).machine = match call with
        | .setInput value => m.setInput value
        | .step | .run | .runWithin _ => m := by
  have hwithin (n : Nat) : (m.reply (.runWithin n)).result = .ok () ∧ (m.reply (.runWithin n)).machine = m := by
    obtain ⟨houtcome, hmachine⟩ := runWithin_of_halted hm n
    simp only [reply, result_ok_iff, houtcome, hmachine, and_self]
  cases call with
  | setInput value => exact ⟨rfl, rfl⟩
  | step =>
      unfold reply
      rw [step_of_halted hm]
      exact ⟨rfl, rfl⟩
  | run =>
      rw [reply_run]
      exact hwithin _
  | runWithin limit => exact hwithin limit

/-- Whatever is asked of a halted machine, its input alone changes. -/
theorem session_of_halted (hm : m.status = .halted) (calls : List Call) :
    m.session calls = { m with input := (m.session calls).input } := by
  induction calls generalizing m with
  | nil => rfl
  | cons call calls ih =>
      have hmachine : (m.reply call).machine = { m with input := (m.reply call).machine.input } := by
        rw [(reply_of_halted hm call).2]
        cases call <;> rfl
      have hstatus : (m.reply call).machine.status = .halted := by
        rw [hmachine]
        exact hm
      have hother (input : Option Word) :
          { (m.reply call).machine with input := input } = { m with input := input } := by
        rw [hmachine]
      exact (ih hstatus).trans (hother _)

theorem session_of_halted_status (hm : m.status = .halted) (calls : List Call) :
    (m.session calls).status = .halted := by
  rw [session_of_halted hm]
  exact hm

theorem Stuck.step_not_halted {failure : Failure} (hm : m.status ≠ .halted) (h : m.Stuck failure) :
    m.step.machine.status ≠ .halted := by
  intro hhalted
  by_cases hanswered : ∃ v, failure.Answered v
  · obtain ⟨v, hanswered⟩ := hanswered
    obtain ⟨hstore, hv⟩ := h.retry v hanswered
    obtain ⟨w, d, -, -, ⟨-, hwrites⟩ | ⟨-, hmachine, -⟩⟩ := step_of_atStore hm hstore hv
    · rw [hwrites.rest] at hhalted
      cases hhalted
    · rw [hmachine] at hhalted
      cases hhalted
  · have hattempt := h.again fun v hv => hanswered ⟨v, hv⟩
    rw [(step_of_attempt_error hm hattempt).2] at hhalted
    cases hhalted

/-- **The status tells the truth in every history.** Let a session start with a program. If the machine has
halted, its counter is at the word of a halt and no later call fails or changes anything but the input. If
it is faulted, its next step fails as the last failing step did and changes nothing, unless that step lacked
an input and one has been set since; then the word is stored, or its destination is the address of no cell.
A faulted machine does not halt with its next step, and a run ends well only in a machine that has halted,
and in the fault of a step only in one that is faulted. -/
theorem status_tells_truth (memory : Memory) (calls : List Call) :
    let start := load memory
    let m := start.session calls
    (m.status = .halted →
      (∃ w, m.pc.toNat < m.memory.size ∧ m.cell? 0 = some w ∧ 0 ≤ w.toInt ∧ w.toInt % 100 = 99) ∧
      ∀ later, (m.session later).step.outcome = .halted ∧
        (∀ call, ((m.session later).reply call).result = .ok ()) ∧
        m.session later = { m with input := (m.session later).input }) ∧
    (m.status = .faulted →
      (∃ failure, start.lastFailure? none (start.moves calls) = some failure ∧
        ((∀ v, ¬failure.Answered v) → m.step.outcome = .faulted failure.fault ∧ m.step.machine = m) ∧
        ∀ v, failure.Answered v → ∃ w d, m.Codes w .store ∧ m.cell? 1 = some d ∧
            (m.step.outcome = .ongoing ∧ m.Writes .store d v m.step.machine ∨
              m.step.outcome = .faulted (.outOfBounds d m.memory.size) ∧ m.step.machine = m ∧
                (d.toInt < 0 ∨ m.memory.size ≤ d.toInt))) ∧
      m.step.machine.status ≠ .halted) ∧
    ∀ call, call = .run ∨ (∃ limit, call = .runWithin limit) →
      ((m.reply call).result = .ok () → (m.reply call).machine.status = .halted) ∧
        ∀ f, (m.reply call).result = .error (.fault f) → (m.reply call).machine.status = .faulted := by
  intro start m
  have htruthful : m.Truthful (start.lastFailure? none (start.moves calls)) := truthful_session memory calls
  refine ⟨fun hm => ?_, fun hm => ?_, fun call => reply_status⟩
  · obtain ⟨e, hattempt⟩ := htruthful.halted hm
    obtain ⟨w, ⟨hcell, hnonneg, hcode⟩, -⟩ := table_of_attempt hattempt
    have hpc := (Memory.cell?_eq_some_bound hcell).2
    refine ⟨⟨w, by omega, hcell, hnonneg, hcode⟩, fun later => ?_⟩
    have hlater := session_of_halted_status hm later
    refine ⟨?_, fun call => (reply_of_halted hlater call).1, session_of_halted hm later⟩
    rw [step_of_halted hlater]
  · have hne : m.status ≠ .halted := by simp [hm]
    obtain ⟨failure, hlast, hstuck⟩ := htruthful.faulted hm
    have hsame : { m with status := .faulted } = m := by rw [← hm]
    refine ⟨⟨failure, hlast, fun hcase => ?_, fun v hanswered => ?_⟩, hstuck.step_not_halted hne⟩
    · rw [← hsame]
      exact step_of_attempt_error (by simp) (hstuck.again hcase)
    · obtain ⟨hstore, hv⟩ := hstuck.retry v hanswered
      have hstep := step_of_atStore hne hstore hv
      rwa [hsame] at hstep

/-- Between the failure and the step that stores it, the input may be set more than once. -/
example :
    let start := load ⟨#[3, 3, 99, 0]⟩
    let calls := [.step, .setInput 5, .setInput 7]
    (start.session calls).status = .faulted ∧
      start.lastFailure? none (start.moves calls) = some ⟨.missingInput 0, some 7⟩ ∧
      (start.session calls).step.machine.memory = ⟨#[3, 3, 99, 7]⟩ := by decide

end Machine

end Intcode
