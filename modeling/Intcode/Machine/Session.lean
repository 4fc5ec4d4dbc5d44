import Intcode.Machine.Run

/-!
Sessions: the calls that the user of a machine can make, and what each of them does. A session is a
row of calls, each on the machine that the one before it left.
-/

namespace Intcode

/-- A request to a machine. -/
inductive Call where
  | setInput (value : Word)
  | step
  | run
  | runWithin (limit : Nat)
deriving DecidableEq

/-- What a call comes to: its result, the machine after it, and how many steps were taken. -/
structure Reply where
  result : Except RunError Unit
  machine : Machine
  steps : Nat

namespace Machine

/-- The reply of a machine to a call. -/
def reply (m : Machine) : Call → Reply
  | .setInput value => ⟨.ok (), m.setInput value, 0⟩
  | .step =>
    match m.step with
    | ⟨.faulted fault, next, _⟩ => ⟨.error (.fault fault), next, 1⟩
    | ⟨_, next, _⟩ => ⟨.ok (), next, 1⟩
  | .run => let r := m.run; ⟨r.result m.stateCount, r.machine, r.steps⟩
  | .runWithin limit => let r := m.runWithin limit; ⟨r.result limit, r.machine, r.steps⟩

/-- The machine after a row of calls. -/
def session (m : Machine) (calls : List Call) : Machine :=
  calls.foldl (fun state call => (state.reply call).machine) m

end Machine

end Intcode
