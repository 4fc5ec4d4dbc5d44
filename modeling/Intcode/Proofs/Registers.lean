import Intcode.Proofs.Budget

/-! The registers for input and output, seen from the rest of a machine. The output is written and never
looked at, and the input is looked at by an instruction that stores it and by no other. So machines that
differ in the output alone do the same throughout, and so do machines that differ in the input alone until one
comes to such an instruction. A machine that has no input does not get past it, so what it does up to a halt it
does on every input. -/

namespace Intcode.Machine

variable {m : Machine} {v : Word} {o : Opcode} {e : Effect} {f : Fault} {k n : Nat}

/-- The next step is one that succeeds in putting out `v`. -/
def Loads (m : Machine) (v : Word) : Prop :=
  ∃ w, m.Codes w .load ∧ m.Source w 1 v ∧ m.step.outcome = .ongoing

/-- The next step finds the operands of an instruction that stores the input. -/
def Stores (m : Machine) : Prop := m.status ≠ .halted ∧ m.AtStore

/-! ### The output -/

/-- What a step does to the rest of a machine does not depend on the output. -/
theorem step_with_output (m : Machine) (output : Option Word) :
    let m' : Machine := { m with output }
    m'.step.outcome = m.step.outcome ∧
      m'.step.machine = { m.step.machine with output := m'.step.machine.output } := by
  intro m'
  have hsame : m'.attempt = m.attempt := rfl
  refine step_related (R := fun a b => b = { a with output := b.output }) rfl hsame rfl rfl fun o e => ?_
  cases e <;> rfl

theorem after_with_output (m : Machine) (output : Option Word) (n : Nat) :
    let m' : Machine := { m with output }
    m'.after n = { m.after n with output := (m'.after n).output } := by
  intro m'
  induction n with
  | zero => rfl
  | succ n ih =>
      have hstep := ((m.after n).step_with_output (m'.after n).output).2
      rw [← ih, ← after_succ, ← after_succ] at hstep
      exact hstep

theorem after_with_output_outcome (m : Machine) (output : Option Word) (n : Nat) :
    (({ m with output } : Machine).after n).step.outcome = (m.after n).step.outcome := by
  rw [m.after_with_output output n]
  exact ((m.after n).step_with_output _).1

/-- A step that puts out a word leaves it in the register, and any other leaves the register as it is. -/
theorem step_output_cases (m : Machine) :
    (∃ v, m.Loads v ∧ m.step.machine.output = some v) ∨
      (∀ v, ¬m.Loads v) ∧ m.step.machine.output = m.output := by
  by_cases hm : m.status = .halted
  · have hstep := step_of_halted hm
    refine .inr ⟨?_, by rw [hstep]⟩
    rintro v ⟨w, -, -, houtcome⟩
    rw [hstep] at houtcome
    cases houtcome
  · cases hattempt : m.attempt with
    | error f =>
        obtain ⟨houtcome, hmachine⟩ := step_of_attempt_error hm hattempt
        refine .inr ⟨?_, by rw [hmachine]⟩
        rintro v ⟨w, -, -, hongoing⟩
        rw [houtcome] at hongoing
        cases hongoing
    | ok attempted =>
        obtain ⟨o, e⟩ := attempted
        obtain ⟨houtcome, hmachine⟩ := step_of_attempt_ok hm hattempt
        obtain ⟨w, hcodes, htable, he⟩ := table_of_attempt hattempt
        rw [he] at houtcome
        rw [← hmachine] at htable
        by_cases ho : o = .load
        · subst ho
          obtain ⟨v, hv, -, hrest⟩ := htable
          exact .inl ⟨v, ⟨w, hcodes, hv, houtcome⟩, by rw [hrest]⟩
        · have hno : ∀ v, ¬m.Loads v := by
            rintro v ⟨w', hcodes', -⟩
            exact ho (hcodes.unique hcodes').2
          refine .inr ⟨hno, ?_⟩
          cases o with
          | load => exact absurd rfl ho
          | add | mul | lessThan | equal =>
              obtain ⟨a, b, d, v, -, -, hwrites, -⟩ := htable
              rw [hwrites.rest]
          | store =>
              obtain ⟨d, v, hwrites, -⟩ := htable
              rw [hwrites.rest]
          | jumpIfTrue | jumpIfFalse =>
              obtain ⟨a, b, -, -, hbranches⟩ := htable
              rw [hbranches.rest]
          | halt => rw [show m.step.machine = { m with status := .halted } from htable]

theorem Loads.output (h : m.Loads v) : m.step.machine.output = some v := by
  obtain ⟨w, hcodes, hv, -⟩ := id h
  rcases m.step_output_cases with ⟨v', ⟨w', hcodes', hv', -⟩, houtput⟩ | ⟨hno, -⟩
  · cases (hcodes.unique hcodes').1
    cases hv.unique hv'
    exact houtput
  · exact absurd h (hno v)

theorem step_output_of_not_loads (h : ∀ v, ¬m.Loads v) : m.step.machine.output = m.output := by
  rcases m.step_output_cases with ⟨v, hv, -⟩ | ⟨-, houtput⟩
  · exact absurd hv (h v)
  · exact houtput

theorem after_output_of_not_loads (h : ∀ k < n, ∀ v, ¬(m.after k).Loads v) :
    (m.after n).output = m.output := by
  induction n with
  | zero => rfl
  | succ n ih =>
      rw [after_succ, step_output_of_not_loads (h n (Nat.lt_succ_self n))]
      exact ih fun k hk => h k (Nat.lt_succ_of_lt hk)

theorem loads_with_output_iff (m : Machine) (output : Option Word) :
    ({ m with output } : Machine).Loads v ↔ m.Loads v := by
  unfold Loads
  rw [(m.step_with_output output).1]
  exact Iff.rfl

theorem after_loads_with_output_iff (m : Machine) (output : Option Word) (k : Nat) :
    (({ m with output } : Machine).after k).Loads v ↔ (m.after k).Loads v := by
  rw [m.after_with_output output k]
  exact loads_with_output_iff _ _

/-- Once a word has been put out, it does not matter what the register held before. -/
theorem after_output_of_loads (output : Option Word) (hk : k < n) (h : (m.after k).Loads v) :
    (({ m with output } : Machine).after n).output = (m.after n).output := by
  induction n with
  | zero => exact absurd hk (Nat.not_lt_zero k)
  | succ n ih =>
      rw [after_succ, after_succ]
      by_cases hlast : ∃ u, (m.after n).Loads u
      · obtain ⟨u, hu⟩ := hlast
        rw [hu.output, ((m.after_loads_with_output_iff output n).mpr hu).output]
      · have hno : ∀ u, ¬(m.after n).Loads u := fun u hu => hlast ⟨u, hu⟩
        have hno' : ∀ u, ¬(({ m with output } : Machine).after n).Loads u := fun u hu =>
          hno u ((m.after_loads_with_output_iff output n).mp hu)
        have hkn : k ≠ n := by
          rintro rfl
          exact hno v h
        rw [step_output_of_not_loads hno, step_output_of_not_loads hno']
        exact ih (by omega)

/-! ### The input -/

theorem attempt_input (h : ¬m.AtStore) (input : Option Word) :
    ({ m with input } : Machine).attempt = m.attempt := by
  have hfetch : ({ m with input } : Machine).fetch = m.fetch := rfl
  unfold attempt
  rw [hfetch]
  cases hcase : m.fetch with
  | error f => rfl
  | ok fetched =>
      have hstore : fetched.1.opcode ≠ .store := fun ho => h ⟨fetched.1, fetched.2, hcase, ho⟩
      dsimp only
      rw [effect_input hstore]

/-- A step that does not come to store the input is the same whatever the input is. -/
theorem step_with_input (h : ¬m.Stores) (input : Option Word) :
    let m' : Machine := { m with input }
    m'.step.outcome = m.step.outcome ∧ m'.step.machine = { m.step.machine with input } := by
  intro m'
  by_cases hm : m.status = .halted
  · have hm' : m'.status = .halted := hm
    rw [step_of_halted hm, step_of_halted hm']
    exact ⟨rfl, rfl⟩
  · have hsame : m'.attempt = m.attempt := attempt_input (fun hstore => h ⟨hm, hstore⟩) input
    refine step_related (R := fun a b => b = { a with input }) rfl hsame rfl rfl fun o e => ?_
    cases e <;> rfl

theorem after_with_input (h : ∀ k < n, ¬(m.after k).Stores) (input : Option Word) :
    ({ m with input } : Machine).after n = { m.after n with input } := by
  induction n with
  | zero => rfl
  | succ n ih =>
      rw [after_succ, after_succ, ih fun k hk => h k (Nat.lt_succ_of_lt hk)]
      exact (step_with_input (h n (Nat.lt_succ_self n)) input).2

theorem after_with_input_outcome (h : ∀ k < n, ¬(m.after k).Stores) (input : Option Word) (hk : k < n) :
    (({ m with input } : Machine).after k).step.outcome = (m.after k).step.outcome := by
  rw [after_with_input (fun j hj => h j (Nat.lt_trans hj hk)) input]
  exact (step_with_input (h k hk) input).1

/-- A machine that has no input does not get past an instruction that stores it. -/
theorem Stores.missingInput (h : m.Stores) (hinput : m.input = none) :
    m.step.outcome = .faulted (.missingInput m.pc) := by
  obtain ⟨hm, i, x, hfetch, ho⟩ := h
  have heffect : m.effect i.opcode x = .error (.missingInput m.pc) := by
    rw [ho, effect, hinput]
  exact (step_of_attempt_error hm (attempt_eq_error_iff.mpr (.inr ⟨i, x, hfetch, heffect⟩))).1

/-- A row of steps that ends otherwise than for want of an input is the same on every input. -/
theorem Ends.with_input {o : Outcome} (h : m.Ends k o) (hinput : m.input = none)
    (ho : ∀ p, o ≠ .faulted (.missingInput p)) (input : Option Word) :
    ({ m with input } : Machine).Ends k o ∧
      ({ m with input } : Machine).after (k + 1) = { m.after (k + 1) with input } := by
  have hstores : ∀ j < k + 1, ¬(m.after j).Stores := by
    intro j hj hstores
    have hmissing := hstores.missingInput ((m.after_input j).trans hinput)
    rcases Nat.lt_succ_iff_lt_or_eq.mp hj with hlt | rfl
    · exact h.unfaulted_before hlt _ hmissing
    · exact ho _ (h.last.symm.trans hmissing)
  have hsame (j : Nat) (hj : j < k + 1) := after_with_input_outcome hstores input hj
  refine ⟨⟨fun j hj => ?_, ?_, h.stops⟩, after_with_input hstores input⟩
  · rw [hsame j (Nat.lt_succ_of_lt hj)]
    exact h.before j hj
  · rw [hsame k (Nat.lt_succ_self k)]
    exact h.last

/-- What a machine that has no input does up to a halt, it does on every input. -/
theorem Runs.with_input {last : Machine} (h : m.Runs (.ok ()) last) (hinput : m.input = none)
    (input : Option Word) :
    ({ m with input } : Machine).Runs (.ok ()) { last with input } := by
  obtain ⟨k, o, hends, rfl, hresult⟩ := h.ends
  have ho : o = .halted := result_ok_iff.mp (hresult ⟨o, m, 0⟩ rfl 0).symm
  subst ho
  obtain ⟨hends', hlast⟩ := hends.with_input hinput (by simp) input
  have hruns := hends'.runs ⟨.halted, m, 0⟩ rfl 0
  rw [hlast] at hruns
  exact hruns

/-- **The registers are not observed but by what is said to use them.** Two machines that differ in the
output alone take the same steps for ever and differ in it alone afterwards, and no more from the first word
that is put out; until then each keeps its own. Two machines that differ in the input alone take the same
steps and differ in it alone afterwards as long as none comes to store it. So a program that halts without an
input halts on every input after as many steps, in the same state but for the input; and if it fails, and not
for want of an input, it fails in the same way on every input. -/
theorem registers_not_observed :
    (∀ (m : Machine) (output : Option Word) (n : Nat), let m' : Machine := { m with output }
      (∀ k < n, (m'.after k).step.outcome = (m.after k).step.outcome) ∧
      m'.after n = { m.after n with output := (m'.after n).output } ∧
      ((∃ k < n, ∃ v, (m.after k).Loads v) → (m'.after n).output = (m.after n).output) ∧
      ((∀ k < n, ∀ v, ¬(m.after k).Loads v) →
        (m.after n).output = m.output ∧ (m'.after n).output = output)) ∧
    (∀ (m : Machine) (input : Option Word) (n : Nat), let m' : Machine := { m with input }
      (∀ k < n, ¬(m.after k).Stores) →
        (∀ k < n, (m'.after k).step.outcome = (m.after k).step.outcome) ∧
        m'.after n = { m.after n with input }) ∧
    ∀ (memory : Memory) (v : Word) (k : Nat) (o : Outcome), let start := load memory
      let start' := start.setInput v
      start.Ends k o → (∀ p, o ≠ .faulted (.missingInput p)) →
        start'.Ends k o ∧ start'.after (k + 1) = (start.after (k + 1)).setInput v := by
  refine ⟨fun m output n => ⟨fun k _ => m.after_with_output_outcome output k, m.after_with_output output n,
    ?_, fun hno => ⟨after_output_of_not_loads hno, ?_⟩⟩, fun m input n h => ⟨fun k hk => ?_, ?_⟩,
    fun memory v k o h ho => h.with_input rfl ho (some v)⟩
  · rintro ⟨k, hk, v, hv⟩
    exact after_output_of_loads output hk hv
  · exact after_output_of_not_loads fun k hk v hv =>
      hno k hk v ((m.after_loads_with_output_iff output k).mp hv)
  · exact after_with_input_outcome h input hk
  · exact after_with_input h input

end Intcode.Machine
