import Intcode.Proofs.Counter

/-! What a log tells. Each step records the instruction that it is about to carry out, once the operands are
found, and then the end that it comes to unless it leaves the machine going. From a log alone one sees which
executions took effect: a failure is recorded right behind the execution that it undoes, and at the same
counter. The operations and operands of the others are enough to do the run again, on a replica that is
written to and never read. -/

namespace Intcode

/-- The record is one of a failure at `pc`. -/
def Record.isFaultAt (pc : UInt64) : Record → Bool
  | faulted pc' _ => pc' = pc
  | executed .. | halted _ | pairFaulted .. | pairFound .. => false

/-- The operands of an instruction that a record of it shows, one for each parameter. -/
def Instruction.shown (i : Instruction) (x : Operands) : List Word :=
  x.toList.take i.opcode.parameters.length

/-- The operations that a log shows to have been carried out, with their operands: those of its executions but
for each that the record of a failure at the same counter follows. -/
def carriedOut : List Record → List (Opcode × List Word)
  | [] => []
  | .executed pc i x :: rest =>
    if rest.head?.any (Record.isFaultAt pc) then carriedOut rest
    else (i.opcode, i.shown x) :: carriedOut rest
  | .halted _ :: rest | .faulted .. :: rest | .pairFaulted .. :: rest | .pairFound .. :: rest =>
    carriedOut rest

/-- A memory, a counter and an output to which a run is done again. -/
structure Replica where
  memory : Memory
  pc : UInt64
  output : Option Word
deriving DecidableEq

namespace Replica

/-- Goes on behind an instruction of the operation. -/
def next (r : Replica) (o : Opcode) : Replica := { r with pc := r.pc + .ofNat o.length }

/-- Puts a word into a cell and goes on. -/
def put (r : Replica) (o : Opcode) (d v : Word) : Replica := { r with memory := r.memory.set d v }.next o

/-- Goes on at the target of a jump if it is taken. -/
def branch (r : Replica) (o : Opcode) (taken : Prop) [Decidable taken] (target : Word) : Replica :=
  if taken then { r with pc := target.toUInt64 } else r.next o

/-- Does an operation again on operands that are given, one for each of its parameters. -/
def redo (input : Option Word) (r : Replica) : Opcode × List Word → Replica
  | (.add, [a, b, d]) => r.put .add d (a + b)
  | (.mul, [a, b, d]) => r.put .mul d (a * b)
  | (.store, [d]) => input.elim r (r.put .store d)
  | (.load, [a]) => { r with output := some a }.next .load
  | (.jumpIfTrue, [a, b]) => r.branch .jumpIfTrue (a ≠ 0) b
  | (.jumpIfFalse, [a, b]) => r.branch .jumpIfFalse (a = 0) b
  | (.lessThan, [a, b, d]) => r.put .lessThan d (if a < b then 1 else 0)
  | (.equal, [a, b, d]) => r.put .equal d (if a = b then 1 else 0)
  | _ => r

end Replica

namespace Machine

/-- The replica of a machine as it stands. -/
def replica (m : Machine) : Replica := ⟨m.memory, m.pc, m.output⟩

/-- The step fails with this fault after the operands have been found: there is no input for it, its destination
is the address of no cell, or it is a jump that is taken to a negative target. -/
def FailsLate (m : Machine) (f : Fault) : Prop :=
  m.MeetsFirst .input f ∨ m.MeetsFirst .destination f ∨ m.MeetsFirst .target f

/-- The machine stands at the instruction, and the operands shown are what its parameters stand for, one for
each. -/
structure Executes (m : Machine) (i : Instruction) (x : Operands) : Prop where
  codes : m.Codes i.word i.opcode
  length : (i.shown x).length = i.opcode.parameters.length
  operand : ∀ k role, i.opcode.parameters[k]? = some role →
    ∃ v, (i.shown x)[k]? = some v ∧ m.Operand i.word (k + 1) role v

/-- What the next step is to record, by what it comes to. -/
inductive Logs (m : Machine) : List Record → Prop where
  | idle (hm : m.status = .halted) : Logs m []
  | execution {i : Instruction} {x : Operands} (hstep : m.step.outcome = .ongoing) (hx : m.Executes i x) :
      Logs m [.executed m.pc i x]
  | halt {i : Instruction} {x : Operands} (hm : m.status ≠ .halted) (hstep : m.step.outcome = .halted)
      (hx : m.Executes i x) : Logs m [.executed m.pc i x, .halted m.pc]
  | lateFault {i : Instruction} {x : Operands} {f : Fault} (hstep : m.step.outcome = .faulted f)
      (hf : m.FailsLate f) (hx : m.Executes i x) : Logs m [.executed m.pc i x, .faulted m.pc f]
  | earlyFault {f : Fault} (hstep : m.step.outcome = .faulted f) (hf : ¬m.FailsLate f) :
      Logs m [.faulted m.pc f]

variable {m : Machine} {i : Instruction} {x : Operands} {o : Opcode} {e : Effect} {f : Fault} {n : Nat}

/-! ### The records of a step -/

/-- A step finds the machine halted, or fails before or after it has found the operands, or takes effect. -/
theorem step_cases (m : Machine) :
    m.status = .halted ∧ m.step = ⟨.halted, m, []⟩ ∨
      m.status ≠ .halted ∧
        ((∃ f, m.fetch = .error f ∧ m.step = m.fail [] f) ∨
          (∃ i x f, m.fetch = .ok (i, x) ∧ m.effect i.opcode x = .error f ∧
            m.step = m.fail [.executed m.pc i x] f) ∨
          ∃ i x e, m.fetch = .ok (i, x) ∧ m.effect i.opcode x = .ok e ∧
            m.step = ⟨e.outcome, m.apply i.opcode.length e, .executed m.pc i x :: e.log m.pc⟩) := by
  by_cases hm : m.status = .halted
  · exact .inl ⟨hm, step_of_halted hm⟩
  · have hrunning : ¬m.isHalted = true := by simp [isHalted, hm]
    refine .inr ⟨hm, ?_⟩
    cases hfetch : m.fetch with
    | error f =>
        refine .inl ⟨f, rfl, ?_⟩
        rw [step, if_neg hrunning, hfetch]
    | ok fetched =>
        obtain ⟨i, x⟩ := fetched
        apply Or.inr
        cases heffect : m.effect i.opcode x with
        | error f =>
            refine .inl ⟨i, x, f, rfl, heffect, ?_⟩
            rw [step, if_neg hrunning, hfetch]
            simp only [execute, heffect]
        | ok e =>
            refine .inr ⟨i, x, e, rfl, heffect, ?_⟩
            rw [step, if_neg hrunning, hfetch]
            simp only [execute, heffect]

theorem shown_ofList {values : List Word} (h : values.length = i.opcode.parameters.length) :
    i.shown (.ofList values) = values := by
  have hthree := i.opcode.length_parameters_le
  rw [Instruction.shown, ← h]
  rcases values with _ | ⟨a, _ | ⟨b, _ | ⟨c, _ | ⟨d, rest⟩⟩⟩⟩
  · rfl
  · rfl
  · rfl
  · rfl
  · simp only [List.length_cons] at h
    omega

theorem executes_of_fetch (h : m.fetch = .ok (i, x)) : m.Executes i x := by
  obtain ⟨-, hcodes, -⟩ := codes_of_decode (fetch_eq_ok_iff.mp h).1
  obtain ⟨values, rfl, hlength, hoperand⟩ := operand_of_fetch h
  have hshown := shown_ofList hlength
  refine ⟨hcodes, by rw [hshown, hlength], fun k role hrole => ?_⟩
  obtain ⟨hk, -⟩ := List.getElem?_eq_some_iff.mp hrole
  rw [hshown]
  refine ⟨values.getD k 0, ?_, hoperand k role hrole⟩
  rw [List.getD_eq_getElem?_getD, List.getElem?_eq_getElem (by omega), Option.getD_some]

/-- A fault is found late when the operands have been found before it. -/
theorem failsLate_iff (hm : m.memory.Addressable) (h : m.attempt = .error f) :
    m.FailsLate f ↔ ∃ i x, m.fetch = .ok (i, x) := by
  rw [exists_fetch_iff hm]
  constructor
  · rintro (⟨-, hbefore⟩ | ⟨-, hbefore⟩ | ⟨-, hbefore⟩) r hr
    · exact hbefore r hr
    · exact hbefore r (Nat.lt_of_lt_of_le hr (by decide))
    · exact hbefore r (Nat.lt_of_lt_of_le hr (by decide))
  · intro hearly
    obtain ⟨r, hmeets, hbefore⟩ := (attempt_error_iff hm).mp h
    cases r with
    | input => exact .inl ⟨hmeets, hbefore⟩
    | destination => exact .inr (.inl ⟨hmeets, hbefore⟩)
    | target => exact .inr (.inr ⟨hmeets, hbefore⟩)
    | counter | opcode | mode | parameter => exact absurd hmeets (hearly _ (by decide) f)

/-- A step records what it is to record. -/
theorem logs_step (hm : m.memory.Addressable) : m.Logs m.step.log := by
  obtain ⟨hhalted, hstep⟩ | ⟨hrunning, ⟨f, hfetch, hstep⟩ | ⟨i, x, f, hfetch, heffect, hstep⟩ |
    ⟨i, x, e, hfetch, heffect, hstep⟩⟩ := m.step_cases
  · rw [hstep]
    exact .idle hhalted
  · have hattempt : m.attempt = .error f := attempt_eq_error_iff.mpr (.inl hfetch)
    have hearly : ¬m.FailsLate f := by
      rw [failsLate_iff hm hattempt, hfetch]
      simp
    have hlog : m.step.log = [.faulted m.pc f] := by rw [hstep, fail, List.nil_append]
    rw [hlog]
    exact .earlyFault (by rw [hstep, fail]) hearly
  · have hattempt : m.attempt = .error f := attempt_eq_error_iff.mpr (.inr ⟨i, x, hfetch, heffect⟩)
    have hlate := (failsLate_iff hm hattempt).mpr ⟨i, x, hfetch⟩
    have hlog : m.step.log = [.executed m.pc i x, .faulted m.pc f] := by rw [hstep]; rfl
    rw [hlog]
    exact .lateFault (by rw [hstep, fail]) hlate (executes_of_fetch hfetch)
  · have hx := executes_of_fetch hfetch
    have houtcome : m.step.outcome = e.outcome := by rw [hstep]
    have hlog : m.step.log = .executed m.pc i x :: e.log m.pc := by rw [hstep]
    rw [hlog]
    cases e with
    | halt => exact .halt hrunning houtcome hx
    | write | output | jump | pass => exact .execution houtcome hx

/-! ### Doing an operation again -/

theorem replica_writing {d v : Word} (h : m.writing d v = .ok e) :
    m.replica.put o d v = (m.apply o.length e).replica := by
  obtain ⟨-, rfl⟩ := writing_eq_ok_iff.mp h
  rfl

theorem replica_jumping {taken : Bool} {p : Prop} [Decidable p] {b : Word} (hp : taken = true ↔ p)
    (h : m.jumping taken b = .ok e) : m.replica.branch o p b = (m.apply o.length e).replica := by
  unfold jumping at h
  unfold Replica.branch
  split at h
  · rename_i htaken
    rw [if_pos (hp.mp htaken)]
    split at h
    · cases h
    · cases h
      rfl
  · rename_i hnot
    rw [if_neg (mt hp.mpr hnot)]
    cases h
    rfl

/-- What an operation does to a machine, it does to a replica when it is given the operands. -/
theorem redo_of_effect (h : m.effect i.opcode x = .ok e) :
    m.replica.redo m.input (i.opcode, i.shown x) = (m.apply i.opcode.length e).replica := by
  unfold Instruction.shown
  generalize i.opcode = o at h
  cases o with
  | add | mul | lessThan | equal => exact replica_writing h
  | store =>
      cases hinput : m.input with
      | none =>
          rw [effect, hinput] at h
          cases h
      | some v =>
          rw [effect_store hinput] at h
          exact replica_writing h
  | load =>
      cases h
      rfl
  | jumpIfTrue => exact replica_jumping (by simp) h
  | jumpIfFalse => exact replica_jumping (by simp) h
  | halt =>
      cases h
      rfl

/-! ### Logs -/

theorem logOnto_eq (m : Machine) (log : Array Record) (n : Nat) :
    (m.logOnto log n).toList = log.toList ++ (List.range n).flatMap fun k => (m.after k).step.log := by
  induction n generalizing m log with
  | zero => simp [logOnto]
  | succ n ih =>
      rw [logOnto, ih, List.range_succ_eq_map, List.flatMap_cons, List.flatMap_map, ← List.append_assoc]
      simp [after]

/-- A log is the records of the steps, one after the other. -/
theorem log_eq_flatMap (m : Machine) (n : Nat) :
    m.log n = (List.range n).flatMap fun k => (m.after k).step.log := by
  rw [log, logOnto_eq]
  rfl

theorem log_succ (m : Machine) (n : Nat) : m.log (n + 1) = m.step.log ++ m.step.machine.log n := by
  rw [log_eq_flatMap, log_eq_flatMap, List.range_succ_eq_map, List.flatMap_cons, List.flatMap_map]
  rfl

theorem log_add (m : Machine) (a b : Nat) : m.log (a + b) = m.log a ++ (m.after a).log b := by
  induction a generalizing m with
  | zero =>
      rw [Nat.zero_add]
      rfl
  | succ a ih =>
      rw [Nat.add_right_comm, log_succ, log_succ, ih, List.append_assoc]
      rfl

/-- A step that leaves the counter where it is and the machine going is a jump to itself, and the step after it
is the same. -/
theorem step_ongoing_of_stays (h : m.step.outcome = .ongoing) (hpc : m.step.machine.pc = m.pc) :
    m.step.machine.step.outcome = .ongoing := by
  obtain ⟨hm, hm'⟩ := status_of_step_ongoing h
  obtain ⟨-, ⟨hahead, -⟩ | ⟨-, hmachine⟩⟩ := counter_of_ongoing h
  · rw [hpc] at hahead
    omega
  · have halike : m.Alike m.step.machine :=
      ⟨by rw [hmachine], hpc.symm, (m.step_input).symm⟩
    exact (halike.step hm hm').1.symm.trans h

/-- The record behind an execution that took effect is not one of a failure at the same counter. -/
theorem no_fault_behind (h : m.step.outcome = .ongoing) (n : Nat) :
    (m.step.machine.log n).head?.any (Record.isFaultAt m.pc) = false := by
  cases n with
  | zero => rfl
  | succ n =>
      rw [log_succ]
      obtain ⟨hhalted, -⟩ | ⟨-, ⟨f, -, hnext⟩ | ⟨i, x, f, -, -, hnext⟩ | ⟨i, x, e, -, -, hnext⟩⟩ :=
        m.step.machine.step_cases
      · exact absurd hhalted (status_of_step_ongoing h).2
      -- a fault is recorded first; at the same counter the step would be the one before, which did not fail
      · have hpc : m.step.machine.pc ≠ m.pc := by
          intro hpc
          have hongoing := step_ongoing_of_stays h hpc
          rw [hnext] at hongoing
          cases hongoing
        rw [hnext]
        exact decide_eq_false hpc
      · rw [hnext]
        rfl
      · rw [hnext]
        rfl

/-- What a log shows to have been carried out is shown step by step. -/
theorem carriedOut_log_succ (m : Machine) (n : Nat) :
    carriedOut (m.log (n + 1)) = carriedOut m.step.log ++ carriedOut (m.step.machine.log n) := by
  have hbehind := no_fault_behind (m := m) (n := n)
  rw [log_succ]
  obtain ⟨-, hstep⟩ | ⟨-, ⟨f, -, hstep⟩ | ⟨i, x, f, -, -, hstep⟩ | ⟨i, x, e, -, -, hstep⟩⟩ := m.step_cases
  · rw [hstep]
    rfl
  · rw [hstep]
    rfl
  · rw [hstep]
    simp [fail, carriedOut, Record.isFaultAt]
  · rw [hstep] at hbehind ⊢
    cases e with
    | halt => rfl
    -- here the execution ends the records of the step, and what follows it is from the next one
    | write | output | jump | pass =>
        simp only [Effect.log, List.cons_append, List.nil_append, carriedOut, hbehind rfl]
        rfl

theorem carriedOut_log_add (m : Machine) (a b : Nat) :
    carriedOut (m.log (a + b)) = carriedOut (m.log a) ++ carriedOut ((m.after a).log b) := by
  induction a generalizing m with
  | zero =>
      rw [Nat.zero_add]
      rfl
  | succ a ih =>
      rw [Nat.add_right_comm, carriedOut_log_succ, carriedOut_log_succ, ih, List.append_assoc]
      rfl

/-- A step carries out one operation at most, and doing that again does to a replica what it did. -/
theorem redo_step (m : Machine) :
    (carriedOut m.step.log).length ≤ 1 ∧
      (carriedOut m.step.log).foldl (Replica.redo m.input) m.replica = m.step.machine.replica := by
  obtain ⟨-, hstep⟩ | ⟨-, ⟨f, -, hstep⟩ | ⟨i, x, f, -, -, hstep⟩ | ⟨i, x, e, -, heffect, hstep⟩⟩ := m.step_cases
  · rw [hstep]
    exact ⟨Nat.zero_le 1, rfl⟩
  · rw [hstep]
    exact ⟨Nat.zero_le 1, rfl⟩
  · have hnone : carriedOut (m.fail [.executed m.pc i x] f).log = [] := by
      simp [fail, carriedOut, Record.isFaultAt]
    rw [hstep, hnone]
    exact ⟨Nat.zero_le 1, rfl⟩
  · have hone : carriedOut (.executed m.pc i x :: e.log m.pc) = [(i.opcode, i.shown x)] := by
      cases e <;> rfl
    rw [hstep, hone]
    exact ⟨Nat.le_refl 1, redo_of_effect heffect⟩

theorem carriedOut_log_last (m : Machine) (n : Nat) :
    carriedOut (m.log (n + 1)) = carriedOut (m.log n) ++ carriedOut (m.after n).step.log := by
  rw [carriedOut_log_add, carriedOut_log_succ]
  exact congrArg _ (List.append_nil _)

/-- Doing again what a log shows to have been carried out leads where the run led. -/
theorem redo_log (m : Machine) (n : Nat) :
    (carriedOut (m.log n)).foldl (Replica.redo m.input) m.replica = (m.after n).replica := by
  induction n with
  | zero => rfl
  | succ n ih =>
      rw [carriedOut_log_last, List.foldl_append, ih, after_succ, ← m.after_input n]
      exact (m.after n).redo_step.2

/-- What is done again goes through states of the run alone. -/
theorem exists_log_of_take (m : Machine) (n : Nat) {j : Nat} (hj : j ≤ (carriedOut (m.log n)).length) :
    ∃ k ≤ n, (carriedOut (m.log n)).take j = carriedOut (m.log k) := by
  induction n with
  | zero => exact ⟨0, Nat.le_refl 0, List.take_nil⟩
  | succ n ih =>
      have hone := (m.after n).redo_step.1
      rw [carriedOut_log_last] at hj ⊢
      by_cases hbefore : j ≤ (carriedOut (m.log n)).length
      · obtain ⟨k, hk, htake⟩ := ih hbefore
        rw [List.take_append_of_le_length hbefore]
        exact ⟨k, Nat.le_succ_of_le hk, htake⟩
      -- the last step carries out one operation at most, so these are all of them
      · rw [List.length_append] at hj
        rw [← carriedOut_log_last]
        refine ⟨n + 1, Nat.le_refl _, List.take_of_length_le ?_⟩
        rw [carriedOut_log_last, List.length_append]
        omega

/-- The execution that a step records is the first record of the step, and the step fails exactly when the next
record, of this step or of the one after it, is one of a failure at the same counter. -/
theorem fault_behind_step {pc : UInt64} (h : .executed pc i x ∈ m.step.log) (n : Nat) :
    pc = m.pc ∧ (m.log (n + 1))[0]? = some (.executed pc i x) ∧
      ((∃ f, m.step.outcome = .faulted f) ↔ ∃ f, (m.log (n + 1))[1]? = some (.faulted pc f)) := by
  have hbehind := no_fault_behind (m := m) (n := n)
  rw [log_succ]
  obtain ⟨-, hstep⟩ | ⟨-, ⟨f, -, hstep⟩ | ⟨i', x', f, -, -, hstep⟩ | ⟨i', x', e, -, -, hstep⟩⟩ := m.step_cases
  · rw [hstep] at h
    cases h
  · rw [hstep] at h
    simp [fail] at h
  · rw [hstep] at h ⊢
    simp only [fail, List.mem_append, List.mem_singleton, reduceCtorEq, or_false, Record.executed.injEq] at h
    obtain ⟨rfl, rfl, rfl⟩ := h
    exact ⟨rfl, rfl, fun _ => ⟨f, rfl⟩, fun _ => ⟨f, rfl⟩⟩
  · rw [hstep] at h hbehind ⊢
    cases e with
    | halt =>
        simp only [Effect.log, List.mem_cons, List.not_mem_nil, reduceCtorEq, or_false,
          Record.executed.injEq] at h
        obtain ⟨rfl, rfl, rfl⟩ := h
        exact ⟨rfl, rfl, by simp [Effect.outcome, Effect.log]⟩
    | write | output | jump | pass =>
        simp only [Effect.log, List.mem_cons, List.not_mem_nil, or_false, Record.executed.injEq] at h
        obtain ⟨rfl, rfl, rfl⟩ := h
        have hnone := hbehind rfl
        refine ⟨rfl, rfl, by simp [Effect.outcome], ?_⟩
        rintro ⟨f, hf⟩
        rw [List.cons_append, List.getElem?_cons_succ, ← List.head?_eq_getElem?, Effect.log,
          List.nil_append] at hf
        rw [hf] at hnone
        simp [Record.isFaultAt] at hnone

/-- As for a step, for each step of a run. -/
theorem fault_behind {k : Nat} {pc : UInt64} (hk : k < n) (h : .executed pc i x ∈ (m.after k).step.log) :
    pc = (m.after k).pc ∧ (m.log n)[(m.log k).length]? = some (.executed pc i x) ∧
      ((∃ f, (m.after k).step.outcome = .faulted f) ↔
        ∃ f, (m.log n)[(m.log k).length + 1]? = some (.faulted pc f)) := by
  have hsplit : m.log n = m.log k ++ (m.after k).log (n - k - 1 + 1) := by
    rw [← log_add, show k + (n - k - 1 + 1) = n by omega]
  have hat (j : Nat) :
      (m.log n)[(m.log k).length + j]? = ((m.after k).log (n - k - 1 + 1))[j]? := by
    rw [hsplit, List.getElem?_append_right (Nat.le_add_right _ _), Nat.add_sub_cancel_left]
  rw [hat 1, ← Nat.add_zero (m.log k).length, hat 0]
  exact fault_behind_step h _

/-! ### The log of a run -/

/-- **The log tells the run.** The log of any number of steps is what each of them is to record, one step after
the other: nothing once the machine has halted, the execution of an instruction with the word at the counter and
the operands that its parameters stand for, the end that it comes to behind it, and for a step that fails the
fault, behind an execution exactly if the operands had been found. An execution is that of a step that fails
exactly when a fault at the same counter is the next record. Doing the others again, on a replica of the machine
at the start and with its input, leads to the memory, the counter and the output at the end, and through those of
the run and through no others on the way. -/
theorem log_replays_run (m : Machine) (hm : m.memory.Addressable) (n : Nat) :
    m.log n = ((List.range n).flatMap fun k => (m.after k).step.log) ∧
    (∀ k, (m.after k).Logs (m.after k).step.log) ∧
    (∀ k < n, ∀ pc i x, .executed pc i x ∈ (m.after k).step.log →
      pc = (m.after k).pc ∧ (m.log n)[(m.log k).length]? = some (.executed pc i x) ∧
        ((∃ f, (m.after k).step.outcome = .faulted f) ↔
          ∃ f, (m.log n)[(m.log k).length + 1]? = some (.faulted pc f))) ∧
    (∀ k ≤ n, carriedOut (m.log k) <+: carriedOut (m.log n) ∧
      (carriedOut (m.log k)).foldl (Replica.redo m.input) m.replica = (m.after k).replica) ∧
    ∀ j ≤ (carriedOut (m.log n)).length, ∃ k ≤ n, (carriedOut (m.log n)).take j = carriedOut (m.log k) := by
  refine ⟨m.log_eq_flatMap n, fun k => logs_step ?_, fun k hk pc i x h => fault_behind hk h,
    fun k hk => ⟨?_, m.redo_log k⟩, fun j hj => m.exists_log_of_take n hj⟩
  · rw [Memory.Addressable, after_size]
    exact hm
  · rw [← Nat.add_sub_of_le hk, carriedOut_log_add]
    exact List.prefix_append _ _

/-- A sum is written over the instruction behind it, which then asks for an input that there is not: of the
three executions in the log only the first was carried out. -/
theorem log_replays_run_without_input :
    let m := Machine.load ⟨#[1101, 1, 2, 4, 98, 9]⟩
    m.memory.Addressable ∧ m.log 3 = m.log 1 ++ (m.after 1).step.log ++ (m.after 1).step.log ∧
      carriedOut (m.log 3) = [(.add, [1, 2, 4])] ∧
      [(.add, [1, 2, 4])].foldl (Replica.redo none) m.replica = (m.after 3).replica := by
  intro m
  have hm : m.memory.Addressable := by decide
  obtain ⟨-, -, -, hredo, -⟩ := log_replays_run m hm 3
  have hcarried : carriedOut (m.log 3) = [(.add, [1, 2, 4])] := by decide
  exact ⟨hm, by decide, hcarried, hcarried ▸ (hredo 3 (Nat.le_refl 3)).2⟩

end Machine

end Intcode
