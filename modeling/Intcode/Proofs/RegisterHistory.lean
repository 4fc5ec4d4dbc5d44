import Intcode.Proofs.Registers

/-! The registers along a history. The input is what the last call that sets it has set, whatever the machine has
done since; the output is the operand of the last instruction that has put one out, whatever has been set or tried
since. So a word that is stored is the last input before the step that stores it, and one input may be stored many
times. Setting an input and taking a step may change places unless the step comes to store it. -/

namespace Intcode

/-- The input that a call sets, if it sets one. -/
def Call.input? : Call → Option Word
  | .setInput value => some value
  | .step | .run | .runWithin _ => none

/-- The input that a move sets, if it sets one. -/
def Move.input? : Move → Option Word
  | .setInput value => some value
  | .step => none

namespace Machine

/-- The move at a place of a history is a step that succeeds in putting out `v`. -/
def LoadsAt (m : Machine) (moves : List Move) (k : Nat) (v : Word) : Prop :=
  moves[k]? = some .step ∧ (m.play (moves.take k)).Loads v

variable {m : Machine} {moves : List Move} {move : Move} {calls : List Call} {call : Call} {k : Nat} {u v w : Word}
  {o : Opcode}

/-! ### The input -/

/-- A history sets the inputs that its calls set, in their order. -/
theorem inputs_moves (m : Machine) (calls : List Call) :
    (m.moves calls).filterMap Move.input? = calls.filterMap Call.input? := by
  induction calls generalizing m with
  | nil => rfl
  | cons call calls ih =>
      have hsteps (n : Nat) : (List.replicate n Move.step).filterMap Move.input? = [] :=
        List.filterMap_replicate_of_none rfl
      cases call with
      | setInput value => exact congrArg (List.cons value) (ih (m.setInput value))
      | step | run | runWithin limit =>
          rw [moves, List.filterMap_append, hsteps, List.nil_append, ih, List.filterMap_cons_none rfl]
          simp

theorem play_concat (m : Machine) (moves : List Move) (move : Move) :
    m.play (moves ++ [move]) = (m.play moves).move move := m.play_append moves [move]

/-- Only a move that sets it changes the input. -/
theorem play_input (m : Machine) (moves : List Move) :
    (m.play moves).input = (moves.filterMap Move.input?).getLast?.or m.input := by
  induction moves using List.reverseRecOn with
  | nil => rfl
  | append_singleton moves move ih =>
      rw [play_concat, List.filterMap_append]
      cases move with
      | setInput value => simp [Machine.move, setInput, Move.input?]
      | step =>
          rw [Machine.move, step_input, ih]
          simp [Move.input?]

theorem play_take_succ (hk : moves[k]? = some move) :
    m.play (moves.take (k + 1)) = (m.play (moves.take k)).move move := by
  rw [List.take_add_one, hk]
  exact m.play_concat _ move

/-- A store that succeeds writes the input. -/
theorem writes_of_store (hcodes : m.Codes w .store) (h : m.step.outcome = .ongoing) :
    ∃ d v, m.Writes .store d v m.step.machine ∧ m.input = some v := by
  obtain ⟨w', o, hcodes', -, htable⟩ := table_of_ongoing h
  cases (hcodes.unique hcodes').2
  exact htable

/-! ### The output -/

theorem Loads.unique (hu : m.Loads u) (hv : m.Loads v) : u = v := Option.some.inj (hu.output.symm.trans hv.output)

/-- No operation but the one that puts a word out changes the output. -/
theorem step_output_of_codes (hcodes : m.Codes w o) (ho : o ≠ .load) : m.step.machine.output = m.output := by
  apply step_output_of_not_loads
  rintro v ⟨w', hcodes', -⟩
  exact ho (hcodes.unique hcodes').2

theorem LoadsAt.lt (h : m.LoadsAt moves k v) : k < moves.length := (List.getElem?_eq_some_iff.mp h.1).1

theorem LoadsAt.unique (hu : m.LoadsAt moves k u) (hv : m.LoadsAt moves k v) : u = v := hu.2.unique hv.2

theorem loadsAt_concat_iff :
    m.LoadsAt (moves ++ [move]) k v ↔
      m.LoadsAt moves k v ∨ k = moves.length ∧ move = .step ∧ (m.play moves).Loads v := by
  rcases Nat.lt_trichotomy k moves.length with hlt | rfl | hgt
  · rw [LoadsAt, LoadsAt, List.getElem?_append_left hlt, List.take_append_of_le_length (Nat.le_of_lt hlt)]
    simp [Nat.ne_of_lt hlt]
  · simp [LoadsAt]
  · have hno (ms : List Move) (hms : ms.length ≤ k) : ¬m.LoadsAt ms k v := fun h =>
      absurd h.lt (Nat.not_lt.mpr hms)
    have hlength : (moves ++ [move]).length ≤ k := by
      rw [List.length_append]
      exact hgt
    simp [hno _ hlength, hno _ (Nat.le_of_lt hgt), Nat.ne_of_gt hgt]

/-- The output is the word of the last step that has put one out, if there is such a step. -/
theorem play_output_cases (m : Machine) (moves : List Move) :
    (∃ k v, m.LoadsAt moves k v ∧ (∀ j, k < j → ∀ u, ¬m.LoadsAt moves j u) ∧
      (m.play moves).output = some v) ∨
    (∀ k v, ¬m.LoadsAt moves k v) ∧ (m.play moves).output = m.output := by
  induction moves using List.reverseRecOn with
  | nil => exact .inr ⟨fun k v h => absurd h.lt (Nat.not_lt_zero k), rfl⟩
  | append_singleton moves move ih =>
      rw [play_concat]
      by_cases hloads : move = .step ∧ ∃ v, (m.play moves).Loads v
      · obtain ⟨rfl, v, hv⟩ := hloads
        refine .inl ⟨moves.length, v, loadsAt_concat_iff.mpr (.inr ⟨rfl, rfl, hv⟩), fun j hj u hu => ?_, hv.output⟩
        rcases loadsAt_concat_iff.mp hu with hearlier | ⟨rfl, -⟩
        · exact absurd hearlier.lt (Nat.not_lt.mpr (Nat.le_of_lt hj))
        · exact absurd hj (Nat.lt_irrefl _)
      -- the last move puts nothing out, so the loads are those before it and the output stays
      · have hsame (k : Nat) (v : Word) : m.LoadsAt (moves ++ [move]) k v ↔ m.LoadsAt moves k v := by
          rw [loadsAt_concat_iff]
          exact or_iff_left fun h => hloads ⟨h.2.1, v, h.2.2⟩
        have houtput : ((m.play moves).move move).output = (m.play moves).output := by
          cases move with
          | setInput value => rfl
          | step => exact step_output_of_not_loads fun v hv => hloads ⟨rfl, v, hv⟩
        simp only [hsame, houtput]
        exact ih

section Fresh

variable (hm : m.output = none)

include hm

theorem play_output_eq_some_iff :
    (m.play moves).output = some v ↔ ∃ k, m.LoadsAt moves k v ∧ ∀ j, k < j → ∀ u, ¬m.LoadsAt moves j u := by
  rcases m.play_output_cases moves with ⟨k, u, hu, hlast, houtput⟩ | ⟨hno, houtput⟩
  · rw [houtput, Option.some_inj]
    constructor
    · rintro rfl
      exact ⟨k, hu, hlast⟩
    · rintro ⟨k', hv, hlast'⟩
      have hle : k' ≤ k := Nat.not_lt.mp fun hlt => hlast k' hlt v hv
      have hge : k ≤ k' := Nat.not_lt.mp fun hlt => hlast' k hlt u hu
      cases Nat.le_antisymm hle hge
      exact hu.unique hv
  · simp [houtput, hm, hno]

theorem play_output_eq_none_iff : (m.play moves).output = none ↔ ∀ k v, ¬m.LoadsAt moves k v := by
  rcases m.play_output_cases moves with ⟨k, u, hu, -, houtput⟩ | ⟨hno, houtput⟩
  · rw [houtput]
    simp only [reduceCtorEq, false_iff]
    exact fun hno => hno k u hu
  · simp [houtput, hm, hno]

end Fresh

/-! ### Calls that change neither -/

theorem reply_machine_of_halted (hm : m.status = .halted) (h : call.input? = none) :
    (m.reply call).machine = m := by
  rw [(reply_of_halted hm call).2]
  cases call with
  | setInput value => cases h
  | step | run | runWithin limit => rfl

/-- **The registers follow the history.** Take a session from the start of a program apart into its moves. These
set the inputs that the calls set, in their order. At every point of the history the input is the last one that
has been set, so that is the word that a store writes when it succeeds there; the output is the operand of the
last step that has succeeded in putting one out, and there is none if there is no such step. No step changes the
input. A step that fails does not change the output, nor does any operation but the one that puts a word out, and
a call on a machine that has halted changes nothing unless it sets the input. If a step does not come to store
the input, it makes no difference whether an input is set before it or after it. -/
theorem registers_follow_history :
    (∀ (memory : Memory) (calls : List Call), let start := load memory
      let moves := start.moves calls
      start.session calls = start.play moves ∧
      moves.filterMap Move.input? = calls.filterMap Call.input? ∧
      ∀ k, let before := moves.take k
        let m := start.play before
        m.input = (before.filterMap Move.input?).getLast? ∧
        (∀ w, moves[k]? = some .step → m.Codes w .store → m.step.outcome = .ongoing →
          ∃ d v, m.Writes .store d v (start.play (moves.take (k + 1))) ∧
            (before.filterMap Move.input?).getLast? = some v) ∧
        (∀ v, m.output = some v ↔
          ∃ i, start.LoadsAt before i v ∧ ∀ j, i < j → ∀ u, ¬start.LoadsAt before j u) ∧
        (m.output = none ↔ ∀ i v, ¬start.LoadsAt before i v)) ∧
    (∀ m : Machine, m.step.machine.input = m.input ∧
      (∀ f, m.step.outcome = .faulted f → m.step.machine.output = m.output) ∧
      (∀ w o, m.Codes w o → o ≠ .load → m.step.machine.output = m.output) ∧
      (m.status = .halted → ∀ call : Call, call.input? = none → (m.reply call).machine = m)) ∧
    ∀ (m : Machine) (v : Word), ¬m.Stores →
      (m.setInput v).step.outcome = m.step.outcome ∧
        (m.setInput v).step.machine = m.step.machine.setInput v := by
  refine ⟨fun memory calls => ?_, fun m => ⟨m.step_input, fun f hf => ?_, fun w o => step_output_of_codes,
    fun hm call => reply_machine_of_halted hm⟩, fun m v h => step_with_input h (some v)⟩
  · intro start moves
    refine ⟨(start.play_moves calls).symm, start.inputs_moves calls, fun k => ?_⟩
    intro before m
    have hinput : m.input = (before.filterMap Move.input?).getLast? := by
      rw [start.play_input before]
      exact Option.or_none
    refine ⟨hinput, fun w hmove hcodes hongoing => ?_, fun v => play_output_eq_some_iff rfl,
      play_output_eq_none_iff rfl⟩
    obtain ⟨d, v, hwrites, hv⟩ := writes_of_store hcodes hongoing
    rw [play_take_succ hmove]
    exact ⟨d, v, hwrites, hinput.symm.trans hv⟩
  · rw [step_machine_of_faulted hf]

end Machine

end Intcode
