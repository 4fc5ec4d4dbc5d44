import Intcode.Proofs.Budget

/-! The counter in every history. A step that succeeds has read the cells of its instruction, so the counter
moves at most one place behind the last cell unless a jump takes it further, and no jump takes it beyond the
greatest word. So the sums and casts by which a step finds its cells are those of the integers, and an address
that is reported as negative is one that the program holds. -/

namespace Intcode.Machine

/-- The instruction at the counter is a jump that is taken to `pc`. -/
def JumpsTo (m : Machine) (pc : UInt64) : Prop :=
  ∃ w o a b, m.Codes w o ∧ m.Source w 1 a ∧ m.Source w 2 b ∧ o.Jumps a ∧ (pc.toNat : Int) = b.toInt

/-- The machine before the last step that succeeded after a move, if `last` is the one before it. -/
def noteSuccess (m : Machine) (last : Option Machine) : Move → Option Machine
  | .setInput _ => last
  | .step =>
    match m.step.outcome with
    | .faulted _ => last
    | .ongoing | .halted => some m

/-- The machine before the last step of a history that succeeded, if `last` is the one before it. -/
def lastSuccess? (m : Machine) (last : Option Machine) : List Move → Option Machine
  | [] => last
  | move :: rest => (m.move move).lastSuccess? (m.noteSuccess last move) rest

/-- The counter stands at a cell or behind the last one, or it is where a jump led that was taken in the last
step that succeeded, `last` being the machine before that step. A machine that has halted stands at a cell. -/
structure Placed (m : Machine) (last : Option Machine) : Prop where
  counter : m.pc.toNat ≤ m.memory.size ∨ ∃ before, last = some before ∧ before.JumpsTo m.pc
  halted : m.status = .halted → m.pc.toNat < m.memory.size

/-- What a step computes with the counter is exact: the cast of the counter to an address, the counter of each
parameter and its cast, and the counter behind the instruction. So each of these addresses is that of the cell
that is meant. -/
structure Exact (m : Machine) : Prop where
  counter : m.pc.toInt64.toInt = m.pc.toNat
  word : ∀ w, m.memory.read m.pc.toInt64 = .ok w ↔ m.cell? 0 = some w
  parameter : ∀ i, Instruction.decode m.memory m.pc = .ok i → ∀ k < i.opcode.parameters.length,
    (m.pc + 1 + .ofNat k).toNat = m.pc.toNat + (k + 1) ∧
      (m.pc + 1 + .ofNat k).toInt64.toInt = m.pc.toNat + (k + 1) ∧
      ∀ x, m.memory.read (m.pc + 1 + .ofNat k).toInt64 = .ok x ↔ m.cell? (k + 1) = some x
  next : ∀ i, Instruction.decode m.memory m.pc = .ok i →
    (m.pc + .ofNat i.opcode.length).toNat = m.pc.toNat + i.opcode.length

/-- The instruction at the counter uses `a` as an address, and `a` is in the program: as what a source in
position mode or a destination holds, or as the target of a jump that is taken. -/
def Holds (m : Machine) (a : Word) : Prop :=
  ∃ w o, m.Codes w o ∧
    ((∃ i, o.role? i = some .source ∧ w.digit (i + 1) = 0 ∧ m.cell? i = some a) ∨
      (∃ i, o.role? i = some .destination ∧ m.cell? i = some a) ∨
      ∃ x, m.Source w 1 x ∧ m.Source w 2 a ∧ o.Jumps x)

variable {m m' : Machine} {w a d v : Word} {o : Opcode} {last : Option Machine} {f : Fault}

/-! ### One step -/

theorem cell?_lt {i : Nat} (h : m.cell? i = some v) : m.pc.toNat + i < m.memory.size := by
  have := (Memory.cell?_eq_some_bound h).2
  omega

theorem Source.lt {i : Nat} (h : m.Source w i a) : m.pc.toNat + i < m.memory.size := by
  obtain ⟨raw, hraw, -⟩ := h
  exact cell?_lt hraw

theorem Writes.counter_le (h : m.Writes o d v m') : m'.pc.toNat ≤ m'.memory.size := by
  have hlast := cell?_lt h.destination
  rw [h.size, h.pc]
  omega

/-- The cells of an instruction that has been carried out are cells of the memory. The counter goes on behind
the last of them unless the instruction is a jump that is taken, and such a jump moves the counter alone. -/
theorem Table.counter_cases (hcodes : m.Codes w o) (ho : o ≠ .halt) (h : m.Table w m' o) :
    m'.pc.toNat = m.pc.toNat + o.length ∧ m'.pc.toNat ≤ m'.memory.size ∨
      m.JumpsTo m'.pc ∧ m' = { m with pc := m'.pc, status := .running } := by
  have hwrite {d v : Word} (hwrites : m.Writes o d v m') :
      m'.pc.toNat = m.pc.toNat + o.length ∧ m'.pc.toNat ≤ m'.memory.size :=
    ⟨hwrites.pc, hwrites.counter_le⟩
  have hbranch {taken : Prop} {x b : Word} (hx : m.Source w 1 x) (hb : m.Source w 2 b)
      (hjumps : taken → o.Jumps x) (hlength : o.length = 3) (hbranches : m.Branches o taken b m') :
      m'.pc.toNat = m.pc.toNat + o.length ∧ m'.pc.toNat ≤ m'.memory.size ∨
        m.JumpsTo m'.pc ∧ m' = { m with pc := m'.pc, status := .running } := by
    by_cases htaken : taken
    · exact .inr ⟨⟨w, o, x, b, hcodes, hx, hb, hjumps htaken, hbranches.jump htaken⟩, hbranches.rest⟩
    · have hlt := hb.lt
      have hmemory : m'.memory = m.memory := by rw [hbranches.rest]
      rw [hmemory, hbranches.pass htaken, hlength]
      exact .inl ⟨rfl, hlt⟩
  cases o with
  | add | mul | lessThan | equal =>
      obtain ⟨a, b, d, v, -, -, hwrites, -⟩ := h
      exact .inl (hwrite hwrites)
  | store =>
      obtain ⟨d, v, hwrites, -⟩ := h
      exact .inl (hwrite hwrites)
  | load =>
      obtain ⟨a, ha, hpc, hrest⟩ := h
      have hlt := ha.lt
      have hmemory : m'.memory = m.memory := by rw [hrest]
      rw [hmemory, hpc]
      exact .inl ⟨rfl, hlt⟩
  | jumpIfTrue =>
      obtain ⟨a, b, ha, hb, hbranches⟩ := h
      exact hbranch ha hb (fun h => .inl ⟨rfl, h⟩) rfl hbranches
  | jumpIfFalse =>
      obtain ⟨a, b, ha, hb, hbranches⟩ := h
      exact hbranch ha hb (fun h => .inr ⟨rfl, h⟩) rfl hbranches
  | halt => exact absurd rfl ho

theorem Table.counter_le (hcodes : m.Codes w o) (h : m.Table w m' o) :
    m'.pc.toNat ≤ m'.memory.size ∨ m.JumpsTo m'.pc := by
  by_cases ho : o = .halt
  · subst ho
    have hmachine : m' = { m with status := .halted } := h
    rw [hmachine]
    exact .inl (Nat.le_of_lt (cell?_lt hcodes.1))
  · rcases h.counter_cases hcodes ho with ⟨-, hle⟩ | ⟨hjumps, -⟩
    · exact .inl hle
    · exact .inr hjumps

/-- A step that leaves the machine going has found its word in the memory. It moves the counter over two cells
at least, all of them in the memory, or it is a jump that is taken. -/
theorem counter_of_ongoing (h : m.step.outcome = .ongoing) :
    m.pc.toNat < m.memory.size ∧
      (m.pc.toNat + 2 ≤ m.step.machine.pc.toNat ∧ m.step.machine.pc.toNat ≤ m.memory.size ∨
        m.JumpsTo m.step.machine.pc ∧
          m.step.machine = { m with pc := m.step.machine.pc, status := .running }) := by
  obtain ⟨w, o, hcodes, ho, htable⟩ := table_of_ongoing h
  have hlength : 2 ≤ o.length := by
    cases o with
    | halt => exact absurd rfl ho
    | add | mul | store | load | jumpIfTrue | jumpIfFalse | lessThan | equal => decide
  refine ⟨cell?_lt hcodes.1, ?_⟩
  rcases htable.counter_cases hcodes ho with ⟨hpc, hle⟩ | hjumps
  · rw [step_size] at hle
    exact .inl ⟨by omega, hle⟩
  · exact .inr hjumps

theorem Placed.step (h : m.Placed last) : m.step.machine.Placed (m.noteSuccess last .step) := by
  unfold noteSuccess
  by_cases hm : m.status = .halted
  · rw [step_of_halted hm]
    exact ⟨.inl (Nat.le_of_lt (h.halted hm)), h.halted⟩
  · cases hattempt : m.attempt with
    | error f =>
        obtain ⟨houtcome, hmachine⟩ := step_of_attempt_error hm hattempt
        rw [houtcome, hmachine]
        refine ⟨h.counter, fun hhalted => ?_⟩
        cases hhalted
    | ok attempted =>
        obtain ⟨o, e⟩ := attempted
        obtain ⟨houtcome, hmachine⟩ := step_of_attempt_ok hm hattempt
        obtain ⟨w, hcodes, htable, he⟩ := table_of_attempt hattempt
        have hcounter := htable.counter_le hcodes
        rw [houtcome, hmachine, he]
        by_cases ho : o = .halt
        · subst ho
          have hmachine : m.apply Opcode.halt.length e = { m with status := .halted } := htable
          rw [hmachine]
          exact ⟨.inl (Nat.le_of_lt (cell?_lt hcodes.1)), fun _ => cell?_lt hcodes.1⟩
        · rw [if_neg ho] at he ⊢
          refine ⟨?_, fun hhalted => ?_⟩
          · rcases hcounter with hle | hjumps
            · exact .inl hle
            · exact .inr ⟨m, rfl, hjumps⟩
          · cases e with
            | halt => cases he
            | write | output | jump | pass => cases hhalted

theorem Placed.move (h : m.Placed last) (move : Move) : (m.move move).Placed (m.noteSuccess last move) := by
  cases move with
  | setInput value => exact ⟨h.counter, h.halted⟩
  | step => exact h.step

/-! ### Histories -/

theorem placed_load (memory : Memory) : (load memory).Placed none where
  counter := .inl (Nat.zero_le _)
  halted h := by cases h

theorem Placed.play (h : m.Placed last) (moves : List Move) :
    (m.play moves).Placed (m.lastSuccess? last moves) := by
  induction moves generalizing m last with
  | nil => exact h
  | cons move moves ih => exact ih (h.move move)

theorem play_size (m : Machine) (moves : List Move) : (m.play moves).memory.size = m.memory.size := by
  induction moves generalizing m with
  | nil => rfl
  | cons move moves ih =>
      have hmove : (m.move move).memory.size = m.memory.size := by
        cases move with
        | setInput value => rfl
        | step => exact m.step_size
      exact (ih (m.move move)).trans hmove

theorem session_size (m : Machine) (calls : List Call) : (m.session calls).memory.size = m.memory.size := by
  rw [← play_moves, play_size]

theorem Placed.counter_lt (h : m.Placed last) (hsize : m.memory.size < 2 ^ 60) : m.pc.toNat < 2 ^ 63 := by
  rcases h.counter with hle | ⟨before, -, w, o, a, b, -, -, -, -, hpc⟩
  · omega
  · have := b.toInt_lt
    omega

theorem placed_session (memory : Memory) (calls : List Call) :
    ((load memory).session calls).Placed ((load memory).lastSuccess? none ((load memory).moves calls)) := by
  rw [← play_moves]
  exact (placed_load memory).play _

/-! ### Sums and casts -/

section Small

variable (hsize : m.memory.size < 2 ^ 60) (hpc : m.pc.toNat < 2 ^ 63)

include hpc in
theorem toInt_counter : m.pc.toInt64.toInt = m.pc.toNat := by
  rw [Memory.toInt_toInt64, if_pos hpc]

include hsize in
theorem toInt_parameter_counter {i : Nat} (hcodes : m.Codes w o) (hi : i ≤ 3) :
    (Int64.ofNat (m.pc.toNat + i)).toInt = m.pc.toNat + i := by
  have hlt := cell?_lt hcodes.1
  exact Int64.toInt_ofNat_of_lt (by omega)

include hsize hpc in
theorem exact_of_small : m.Exact where
  counter := toInt_counter hpc
  word w := by
    rw [Memory.read_eq_ok_iff, toInt_counter hpc]
    rfl
  parameter i hdecode k hk := by
    obtain ⟨-, hcodes, -⟩ := codes_of_decode hdecode
    have hthree := i.opcode.length_parameters_le
    have haddress : (m.pc + 1 + .ofNat k).toInt64.toInt = m.pc.toNat + (k + 1) := by
      rw [parameter_address, toInt_parameter_counter hsize hcodes (by omega)]
      rfl
    refine ⟨parameter_counter hpc (by omega), haddress, fun x => ?_⟩
    rw [Memory.read_eq_ok_iff, haddress]
    rfl
  next i hdecode := pc_add_length hpc i.opcode

include hsize in
theorem step_behind_last (hm : m.status ≠ .halted) (hbehind : m.memory.size ≤ m.pc.toNat) :
    m.step.outcome = .faulted (.outOfBounds m.pc.toInt64 m.memory.size) ∧
      m.step.machine = { m with status := .faulted } := by
  have haddressable : m.memory.Addressable := by
    unfold Memory.Addressable
    omega
  have hmeets : m.Meets .counter (.outOfBounds m.pc.toInt64 m.memory.size) := ⟨hbehind, rfl⟩
  have hattempt := (attempt_error_iff haddressable).mpr
    ⟨.counter, hmeets, fun r hr => absurd hr (Nat.not_lt_zero _)⟩
  exact step_of_attempt_error hm hattempt

include hsize hpc in
/-- Where a negative address is reported, the program holds it: those that a step computes are not negative. -/
theorem holds_of_attempt {size : Nat} (h : m.attempt = .error (.outOfBounds a size)) (ha : a.toInt < 0) :
    m.Holds a := by
  have haddressable : m.memory.Addressable := by
    unfold Memory.Addressable
    omega
  obtain ⟨r, hmeets, -⟩ := (attempt_error_iff haddressable).mp h
  cases r with
  | counter =>
      obtain ⟨-, hf⟩ := hmeets
      cases hf
      rw [toInt_counter hpc] at ha
      omega
  | opcode =>
      obtain ⟨w, -, -, hf⟩ := hmeets
      cases hf
  | mode =>
      obtain ⟨w, o, i, digit, -, -, -, -, -, -, hf⟩ := hmeets
      cases hf
  | parameter =>
      obtain ⟨w, o, i, b, hcodes, ⟨role, hrole, hoffends⟩, -, hf⟩ := hmeets
      cases hf
      rcases hoffends with ⟨-, hcomputed⟩ | ⟨rfl, hdigit, hcell, -⟩
      · have hi : i ≤ 3 := by
          cases i with
          | zero => cases hrole
          | succ k =>
              have hk := (List.getElem?_eq_some_iff.mp hrole).1
              have hthree := o.length_parameters_le
              omega
        rw [hcomputed, toInt_parameter_counter hsize hcodes hi] at ha
        omega
      · exact ⟨w, o, hcodes, .inl ⟨i, hrole, hdigit, hcell⟩⟩
  | input =>
      obtain ⟨w, -, -, hf⟩ := hmeets
      cases hf
  | destination =>
      obtain ⟨w, o, i, b, hcodes, hrole, hcell, -, hf⟩ := hmeets
      cases hf
      exact ⟨w, o, hcodes, .inr (.inl ⟨i, hrole, hcell⟩)⟩
  | target =>
      obtain ⟨w, o, x, b, hcodes, hx, hb, hjumps, -, hf⟩ := hmeets
      cases hf
      exact ⟨w, o, hcodes, .inr (.inr ⟨x, hx, hb, hjumps⟩)⟩

end Small

/-- A call that ends in a fault leaves a machine that would fail in the same way again. -/
theorem attempt_of_reply_fault {call : Call} (h : (m.reply call).result = .error (.fault f)) :
    (m.reply call).machine.attempt = .error f := by
  have hstep (b : Machine) (hb : b.step.outcome = .faulted f) : b.step.machine.attempt = .error f := by
    rw [step_machine_of_faulted hb, attempt_status]
    exact (step_faulted_iff_attempt.mp hb).2
  have hwithin (n : Nat) (h : (m.reply (.runWithin n)).result = .error (.fault f)) :
      (m.reply (.runWithin n)).machine.attempt = .error f := by
    obtain ⟨k, -, -, hlast, hrun⟩ := runWithin_faulted (result_fault_iff.mp h)
    simp only [reply]
    rw [hrun, after_succ]
    exact hstep _ hlast
  cases call with
  | setInput value => cases h
  | step =>
      unfold reply at h ⊢
      cases hs : m.step with
      | mk outcome next log =>
          rw [hs] at h
          cases outcome with
          | ongoing | halted => cases h
          | faulted g =>
              cases h
              have hnext := hstep m (by rw [hs])
              rwa [hs] at hnext
  | run =>
      rw [reply_run] at h ⊢
      exact hwithin _ h
  | runWithin limit => exact hwithin limit h

theorem session_append_singleton (m : Machine) (calls : List Call) (call : Call) :
    m.session (calls ++ [call]) = ((m.session calls).reply call).machine := List.foldl_append

/-- **Arithmetic on the counter is exact.** Let a session start with a program of fewer than `2 ^ 60` cells.
The counter is no greater than the greatest word, and it stands at a cell or behind the last one, unless the
last step that succeeded was a jump that was taken to it. What the next step computes with it is exact, and
where it is behind the last cell that step fails for the counter's own value and changes nothing. So a
negative address that a call reports is one that the program holds. -/
theorem counter_exact (memory : Memory) (hmemory : memory.size < 2 ^ 60) (calls : List Call) :
    let start := load memory
    let m := start.session calls
    m.pc.toNat ≤ 2 ^ 63 - 1 ∧
    (m.pc.toNat ≤ m.memory.size ∨
      ∃ before, start.lastSuccess? none (start.moves calls) = some before ∧ before.JumpsTo m.pc) ∧
    m.Exact ∧
    (m.status ≠ .halted → m.memory.size ≤ m.pc.toNat →
      ∃ a : Word, a.toInt = m.pc.toNat ∧ m.step.outcome = .faulted (.outOfBounds a m.memory.size) ∧
        m.step.machine = { m with status := .faulted }) ∧
    ∀ call a size, (m.reply call).result = .error (.fault (.outOfBounds a size)) → a.toInt < 0 →
      (m.reply call).machine.Holds a := by
  intro start m
  have hsize (cs : List Call) : (start.session cs).memory.size < 2 ^ 60 := by
    rw [session_size]
    exact hmemory
  have hpc (cs : List Call) : (start.session cs).pc.toNat < 2 ^ 63 :=
    (placed_session memory cs).counter_lt (hsize cs)
  refine ⟨Nat.le_pred_of_lt (hpc calls), (placed_session memory calls).counter,
    exact_of_small (hsize calls) (hpc calls), fun hm hbehind => ?_, fun call a size h ha => ?_⟩
  · obtain ⟨houtcome, hmachine⟩ := step_behind_last (hsize calls) hm hbehind
    exact ⟨_, toInt_counter (hpc calls), houtcome, hmachine⟩
  · have hnext : start.session (calls ++ [call]) = (m.reply call).machine :=
      session_append_singleton start calls call
    have hattempt := attempt_of_reply_fault h
    rw [← hnext] at hattempt ⊢
    exact holds_of_attempt (hsize _) (hpc _) hattempt ha

/-- A jump leads behind the last cell; the step after it fails for the target, as it does when it is tried
again. -/
theorem counter_exact_behind_last :
    let memory : Memory := ⟨#[1105, 1, 7]⟩
    let start := load memory
    let calls := [.step, .step]
    let m := start.session calls
    memory.size < 2 ^ 60 ∧ m.memory.size < m.pc.toNat ∧
      (∃ before, start.lastSuccess? none (start.moves calls) = some before ∧ before.JumpsTo m.pc) ∧
      ∃ a : Word, a.toInt = m.pc.toNat ∧ m.step.outcome = .faulted (.outOfBounds a m.memory.size) ∧
        m.step.machine = { m with status := .faulted } := by
  intro memory start calls m
  have hmemory : memory.size < 2 ^ 60 := by decide
  have hbehind : m.memory.size < m.pc.toNat := by decide
  have hm : m.status ≠ .halted := by decide
  obtain ⟨-, hcounter, -, hstep, -⟩ := counter_exact memory hmemory calls
  refine ⟨hmemory, hbehind, ?_, hstep hm (Nat.le_of_lt hbehind)⟩
  rcases hcounter with hle | hjumps
  · exact absurd hle (Nat.not_le_of_lt hbehind)
  · exact hjumps

end Intcode.Machine
