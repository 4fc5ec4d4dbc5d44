import Intcode.Proofs.History
import Intcode.Proofs.Recurrence

/-! The cells that a run depends on. To find an instruction and its operands a step asks for the words in
cells, one after the other, and sees nothing else of the memory but its size: it is a computation whose only
access to a memory is to read at an address. So two memories that agree on the cells that it reads in the one
are the same to it, failures included. A row of steps depends in this way on the cells that it reads before it
has written them. -/

namespace Intcode

/-- A computation that looks at a memory by reading at addresses, each chosen from the words read before. -/
inductive Reading (α : Type) where
  /-- Nothing more is read. -/
  | done (result : Except Fault α)
  /-- Reads at an address and goes on with the word there; if the access fails, so does the computation. -/
  | read (address : Word) (next : Word → Reading α)

namespace Reading

variable {α β : Type}

/-- What a computation comes to in a memory. -/
def run (memory : Memory) : Reading α → Except Fault α
  | done result => result
  | read address next =>
    match memory.read address with
    | .error fault => .error fault
    | .ok word => (next word).run memory

/-- The addresses of the cells that a computation reads, in order. An access that fails reads none. -/
def reads (memory : Memory) : Reading α → List Word
  | done _ => []
  | read address next =>
    match memory.read address with
    | .error _ => []
    | .ok word => address :: (next word).reads memory

/-- One computation and then, unless it fails, another that starts from its result. -/
def bind : Reading α → (α → Reading β) → Reading β
  | done (.error fault), _ => done (.error fault)
  | done (.ok a), next => next a
  | read address more, next => read address fun word => (more word).bind next

/-- Reads one cell. -/
def cell (address : Word) : Reading Word := read address fun word => done (.ok word)

/-- Finds the operand of the parameter in the cell at an address. -/
def operand (address : Word) : Role × Mode → Reading Word
  | (.source, .position) => (cell address).bind cell
  | _ => cell address

/-- Finds the operands of the parameters in the cells from `pc` on. -/
def operands (pc : UInt64) : List (Role × Mode) → Reading (List Word)
  | [] => done (.ok [])
  | parameter :: rest =>
    (operand pc.toInt64 parameter).bind fun value =>
      (operands (pc + 1) rest).bind fun values => done (.ok (value :: values))

/-- Finds the instruction at `pc`. -/
def instruction (pc : UInt64) : Reading Instruction :=
  (cell pc.toInt64).bind fun word => done (Instruction.ofWord word pc)

/-- Finds the instruction at `pc` and its operands. -/
def fetch (pc : UInt64) : Reading (Instruction × Operands) :=
  (instruction pc).bind fun i =>
    (operands (pc + 1) i.parameters).bind fun values => done (.ok (i, .ofList values))

/-! ### What a machine finds -/

theorem run_bind (memory : Memory) (p : Reading α) (next : α → Reading β) :
    (p.bind next).run memory =
      match p.run memory with
      | .error fault => .error fault
      | .ok a => (next a).run memory := by
  induction p with
  | done result => cases result <;> rfl
  | read address more ih =>
      simp only [bind, run]
      cases memory.read address with
      | error fault => rfl
      | ok word => exact ih word

theorem run_cell (memory : Memory) (address : Word) : (cell address).run memory = memory.read address := by
  simp only [cell, run]
  cases memory.read address <;> rfl

theorem run_operand (memory : Memory) (address : Word) (parameter : Role × Mode) :
    (operand address parameter).run memory = memory.operand address parameter := by
  obtain ⟨role, mode⟩ := parameter
  cases role with
  | destination => exact run_cell memory address
  | source =>
      cases mode with
      | immediate => exact run_cell memory address
      | position =>
          simp only [operand, Memory.operand, run_bind, run_cell]
          cases memory.read address <;> rfl

theorem run_operands (memory : Memory) (pc : UInt64) (parameters : List (Role × Mode)) :
    (operands pc parameters).run memory = memory.operands pc parameters := by
  induction parameters generalizing pc with
  | nil => rfl
  | cons parameter rest ih =>
      simp only [operands, Memory.operands, run_bind, run_operand, ih, run]
      cases memory.operand pc.toInt64 parameter with
      | error fault => rfl
      | ok value => cases memory.operands (pc + 1) rest <;> rfl

theorem run_instruction (memory : Memory) (pc : UInt64) :
    (instruction pc).run memory = Instruction.decode memory pc := by
  simp only [instruction, Instruction.decode, run_bind, run_cell, run]
  cases memory.read pc.toInt64 <;> rfl

/-- The computation is what a machine does to find its instruction and the operands. -/
theorem run_fetch (m : Machine) : (fetch m.pc).run m.memory = m.fetch := by
  simp only [fetch, Machine.fetch, Instruction.operands, run_bind, run_instruction, run_operands, run]
  cases Instruction.decode m.memory m.pc with
  | error fault => rfl
  | ok i =>
      dsimp only
      cases m.memory.operands (m.pc + 1) i.parameters <;> rfl

/-! ### Memories that agree -/

/-- A computation comes to the same in every memory that agrees with this one on the cells that it reads in
this one, and there it reads the same cells. -/
theorem run_eq_of_agree {memory memory' : Memory} (hsize : memory'.size = memory.size) (p : Reading α)
    (hagree : ∀ a ∈ p.reads memory, memory'.cell? a.toInt = memory.cell? a.toInt) :
    p.run memory' = p.run memory ∧ p.reads memory' = p.reads memory := by
  induction p with
  | done result => exact ⟨rfl, rfl⟩
  | read address next ih =>
      simp only [run, reads] at hagree ⊢
      cases hread : memory.read address with
      | error fault =>
          rw [Memory.read_eq_error_of_size hsize hread]
          exact ⟨rfl, rfl⟩
      | ok word =>
          rw [hread] at hagree
          have hcell : memory'.cell? address.toInt = some word :=
            (hagree address List.mem_cons_self).trans (Memory.read_eq_ok_iff.mp hread)
          rw [Memory.read_eq_ok_iff.mpr hcell]
          obtain ⟨hrun, hreads⟩ := ih word fun a ha => hagree a (List.mem_cons_of_mem address ha)
          exact ⟨hrun, congrArg (address :: ·) hreads⟩

end Reading

namespace Machine

/-- The addresses of the cells that the next step reads to find its instruction and the operands, or reads
before it fails to. -/
def reads (m : Machine) : List Word := if m.isHalted then [] else (Reading.fetch m.pc).reads m.memory

/-- The address at which the next step writes, if it does, and the word. -/
def write? (m : Machine) : Option (Word × Word) :=
  if m.isHalted then none
  else
    match m.attempt with
    | .ok (_, .write address value) => some (address, value)
    | _ => none

/-- The addresses at which the first `n` steps write, in order. -/
def written (m : Machine) (n : Nat) : List Word :=
  (List.range n).filterMap fun k => (m.after k).write?.map Prod.fst

/-- The addresses of the cells that the first `n` steps read while none of them has written there. -/
def footprint (m : Machine) (n : Nat) : List Word :=
  (List.range n).flatMap fun k => (m.after k).reads.filter fun a => a ∉ m.written k

/-- The two machines differ in the memory alone, and the memories are of one size and agree on the cells
with an address in `S`. -/
structure Coupled (S : Word → Prop) (m m' : Machine) : Prop where
  rest : m' = { m with memory := m'.memory }
  size : m'.memory.size = m.memory.size
  agree : ∀ a, S a → m'.memory.cell? a.toInt = m.memory.cell? a.toInt

variable {m m' : Machine} {S : Word → Prop} {a d v : Word} {k n : Nat}

/-! ### Writes -/

theorem mem_written : a ∈ m.written n ↔ ∃ k < n, ∃ v, (m.after k).write? = some (a, v) := by
  simp [written]

theorem mem_footprint : a ∈ m.footprint n ↔ ∃ k < n, a ∈ (m.after k).reads ∧ a ∉ m.written k := by
  simp [footprint]

theorem write?_eq_some_iff :
    m.write? = some (d, v) ↔ m.status ≠ .halted ∧ ∃ o, m.attempt = .ok (o, .write d v) := by
  unfold write?
  by_cases hm : m.status = .halted
  · simp [isHalted, hm]
  · cases hattempt : m.attempt with
    | error f => simp [isHalted, hm]
    | ok attempted =>
        obtain ⟨o, e⟩ := attempted
        cases e <;> simp [isHalted, hm]

theorem cell?_step_of_write (h : m.write? = some (d, v)) (p : Int) :
    m.step.machine.memory.cell? p = if p = d.toInt then some v else m.memory.cell? p := by
  obtain ⟨hm, o, hattempt⟩ := write?_eq_some_iff.mp h
  obtain ⟨i, x, -, -, heffect⟩ := attempt_eq_ok_iff.mp hattempt
  rw [(step_of_attempt_ok hm hattempt).2]
  exact Memory.cell?_set (inBounds_of_effect heffect) p

theorem step_memory_of_no_write (h : m.write? = none) : m.step.machine.memory = m.memory := by
  by_cases hm : m.status = .halted
  · rw [step_of_halted hm]
  · cases hattempt : m.attempt with
    | error f => rw [(step_of_attempt_error hm hattempt).2]
    | ok attempted =>
        obtain ⟨o, e⟩ := attempted
        rw [(step_of_attempt_ok hm hattempt).2]
        cases e with
        | write d v =>
            rw [write?_eq_some_iff.mpr ⟨hm, o, hattempt⟩] at h
            cases h
        | output | jump | pass | halt => rfl

/-- A cell at whose address no step writes holds what it held at first. -/
theorem cell?_after_of_not_written {p : Int} (h : ∀ a ∈ m.written n, a.toInt ≠ p) :
    (m.after n).memory.cell? p = m.memory.cell? p := by
  induction n with
  | zero => rfl
  | succ n ih =>
      have hbefore : ∀ a ∈ m.written n, a.toInt ≠ p := by
        intro a ha
        obtain ⟨k, hk, hwrite⟩ := mem_written.mp ha
        exact h a (mem_written.mpr ⟨k, Nat.lt_succ_of_lt hk, hwrite⟩)
      rw [after_succ, ← ih hbefore]
      cases hwrite : (m.after n).write? with
      | none => rw [step_memory_of_no_write hwrite]
      | some written =>
          obtain ⟨d, v⟩ := written
          have hne := h d (mem_written.mpr ⟨n, Nat.lt_succ_self n, v, hwrite⟩)
          rw [cell?_step_of_write hwrite, if_neg hne.symm]

/-! ### Machines that agree on what is read -/

theorem writing_of_size (hsize : m'.memory.size = m.memory.size) (d v : Word) :
    m'.writing d v = m.writing d v := by
  have hbounds : m'.memory.InBounds d ↔ m.memory.InBounds d := by
    rw [Memory.inBounds_iff, Memory.inBounds_iff, hsize]
  simp only [writing, hbounds, Memory.outOfBounds, hsize]

theorem jumping_of_size (hsize : m'.memory.size = m.memory.size) (taken : Bool) (b : Word) :
    m'.jumping taken b = m.jumping taken b := by
  simp only [jumping, Memory.outOfBounds, hsize]

namespace Coupled

variable (h : Coupled S m m')

include h

theorem status : m'.status = m.status := by rw [h.rest]

theorem isHalted : m'.isHalted = m.isHalted := by rw [Machine.isHalted, Machine.isHalted, h.status]

/-- What an instruction does with its operands depends on no cell. -/
theorem effect (o : Opcode) (x : Operands) : m'.effect o x = m.effect o x := by
  have hpc : m'.pc = m.pc := by rw [h.rest]
  have hinput : m'.input = m.input := by rw [h.rest]
  rcases effect_shape m m' hpc hinput o x with ⟨d, v, hm, hm'⟩ | ⟨taken, b, hm, hm'⟩ | ⟨hsame, -⟩
  · rw [hm, hm', writing_of_size h.size]
  · rw [hm, hm', jumping_of_size h.size]
  · exact hsame

section Step

variable (hreads : ∀ a ∈ m.reads, S a)

include hreads

theorem attempt (hm : m.status ≠ .halted) : m'.attempt = m.attempt ∧ m'.reads = m.reads := by
  have hpc : m'.pc = m.pc := by rw [h.rest]
  have hrunning : m.isHalted = false := decide_eq_false hm
  have hagree : ∀ a ∈ (Reading.fetch m.pc).reads m.memory,
      m'.memory.cell? a.toInt = m.memory.cell? a.toInt := by
    intro a ha
    apply h.agree a
    apply hreads a
    simpa [reads, hrunning] using ha
  obtain ⟨hrun, hsame⟩ := Reading.run_eq_of_agree h.size (Reading.fetch m.pc) hagree
  have hfetch : m'.fetch = m.fetch := by
    rw [← Reading.run_fetch, ← Reading.run_fetch, hpc, hrun]
  constructor
  · simp only [Machine.attempt, hfetch, h.effect]
  · simp only [reads, h.isHalted, hpc, hsame]

theorem write? : m'.write? = m.write? := by
  unfold Machine.write?
  rw [h.isHalted]
  by_cases hm : m.status = .halted
  · simp [Machine.isHalted, hm]
  · rw [(h.attempt hreads hm).1]

theorem reads : m'.reads = m.reads := by
  by_cases hm : m.status = .halted
  · have hhalted : m.isHalted = true := decide_eq_true hm
    simp only [Machine.reads, h.isHalted, hhalted, if_true]
  · exact (h.attempt hreads hm).2

theorem step_rest :
    m'.step.outcome = m.step.outcome ∧
      m'.step.machine = { m.step.machine with memory := m'.step.machine.memory } := by
  by_cases hm : m.status = .halted
  · rw [step_of_halted hm, step_of_halted (h.status.trans hm)]
    exact ⟨rfl, h.rest⟩
  · have hattempt := (h.attempt hreads hm).1
    obtain ⟨memory', rfl⟩ : ∃ memory', m' = { m with memory := memory' } := ⟨_, h.rest⟩
    refine step_related (R := fun a b => b = { a with memory := b.memory }) rfl hattempt rfl rfl fun o e => ?_
    cases e <;> rfl

/-- Machines that agree on what the next step reads take the same step, and afterwards they agree on what it
writes as well. -/
theorem step :
    Coupled (fun a => S a ∨ ∃ v, m.write? = some (a, v)) m.step.machine m'.step.machine where
  rest := (h.step_rest hreads).2
  size := by rw [step_size, step_size, h.size]
  agree a ha := by
    have hsame := h.write? hreads
    cases hwrite : m.write? with
    | none =>
        rw [hwrite] at ha hsame
        rw [step_memory_of_no_write hwrite, step_memory_of_no_write hsame]
        rcases ha with ha | ⟨v, hv⟩
        · exact h.agree a ha
        · cases hv
    | some written =>
        obtain ⟨d, v⟩ := written
        rw [hwrite] at ha hsame
        rw [cell?_step_of_write hwrite, cell?_step_of_write hsame]
        by_cases hd : a.toInt = d.toInt
        · rw [if_pos hd, if_pos hd]
        · rw [if_neg hd, if_neg hd]
          rcases ha with ha | ⟨u, hu⟩
          · exact h.agree a ha
          · cases hu
            exact absurd rfl hd

end Step

end Coupled

/-- What a step reads is in the footprint or has been written before. -/
theorem footprint_or_written (hk : k < n) (ha : a ∈ (m.after k).reads) :
    a ∈ m.footprint n ∨ a ∈ m.written k := by
  by_cases hwritten : a ∈ m.written k
  · exact .inr hwritten
  · exact .inl (mem_footprint.mpr ⟨k, hk, ha, hwritten⟩)

/-- The cells on which the machines agree grow by what is written, and every step reads among them. -/
theorem Coupled.after (h : Coupled (· ∈ m.footprint n) m m') (hk : k ≤ n) :
    Coupled (fun a => a ∈ m.footprint n ∨ a ∈ m.written k) (m.after k) (m'.after k) := by
  induction k with
  | zero =>
      refine ⟨h.rest, h.size, fun a ha => h.agree a ?_⟩
      simpa [written] using ha
  | succ k ih =>
      have hstep := (ih (Nat.le_of_succ_le hk)).step fun a => footprint_or_written hk
      rw [after_succ, after_succ]
      refine ⟨hstep.rest, hstep.size, fun a ha => hstep.agree a ?_⟩
      rcases ha with ha | ha
      · exact .inl (.inl ha)
      · obtain ⟨j, hj, v, hv⟩ := mem_written.mp ha
        rcases Nat.lt_succ_iff_lt_or_eq.mp hj with hlt | rfl
        · exact .inl (.inr (mem_written.mpr ⟨j, hlt, v, hv⟩))
        · exact .inr ⟨v, hv⟩

/-- **Cells that are not read are not observed.** Let two machines differ in the memory alone, let the memories
be of one size, and let them agree on the cells that the first `n` steps of the one machine read before they
write there. Then the first `n` steps of both come to the same, fault for fault, read the same cells and write
the same words at the same addresses, and in between the machines differ in the memory alone. In the end the
memories agree on what has been read and on what has been written, and every other cell holds in each of them
what it held there at first. -/
theorem unread_cells_not_observed (m m' : Machine) (n : Nat) (hrest : m' = { m with memory := m'.memory })
    (hsize : m'.memory.size = m.memory.size)
    (hagree : ∀ a ∈ m.footprint n, m'.memory.cell? a.toInt = m.memory.cell? a.toInt) :
    (∀ k < n, (m'.after k).step.outcome = (m.after k).step.outcome ∧
      (m'.after k).reads = (m.after k).reads ∧ (m'.after k).write? = (m.after k).write?) ∧
    (∀ k ≤ n, m'.after k = { m.after k with memory := (m'.after k).memory }) ∧
    (∀ a, a ∈ m.footprint n ∨ a ∈ m.written n →
      (m'.after n).memory.cell? a.toInt = (m.after n).memory.cell? a.toInt) ∧
    ∀ p : Int, (∀ a ∈ m.written n, a.toInt ≠ p) →
      (m.after n).memory.cell? p = m.memory.cell? p ∧ (m'.after n).memory.cell? p = m'.memory.cell? p := by
  have hcoupled (k : Nat) (hk : k ≤ n) := Coupled.after ⟨hrest, hsize, hagree⟩ hk
  have hreads (k : Nat) (hk : k < n) (a : Word) (ha : a ∈ (m.after k).reads) :=
    footprint_or_written hk ha
  have hwrite (k : Nat) (hk : k < n) := (hcoupled k (Nat.le_of_lt hk)).write? (hreads k hk)
  refine ⟨fun k hk => ?_, fun k hk => (hcoupled k hk).rest, (hcoupled n (Nat.le_refl n)).agree,
    fun p hp => ⟨cell?_after_of_not_written hp, cell?_after_of_not_written fun a ha => ?_⟩⟩
  · have hbefore := hcoupled k (Nat.le_of_lt hk)
    exact ⟨(hbefore.step_rest (hreads k hk)).1, hbefore.reads (hreads k hk), hwrite k hk⟩
  · obtain ⟨k, hk, v, hv⟩ := mem_written.mp ha
    rw [hwrite k hk] at hv
    exact hp a (mem_written.mpr ⟨k, hk, v, hv⟩)

/-- The cell 7 is written before it is read, and the cell 8 is not looked at. -/
theorem unread_cells_not_observed_behind_write :
    let m := load ⟨#[1101, 2, 3, 7, 4, 7, 99, 50, 8]⟩
    let m' := load ⟨#[1101, 2, 3, 7, 4, 7, 99, 60, 9]⟩
    m.footprint 3 = [0, 1, 2, 3, 4, 5, 6] ∧ m.written 3 = [7] ∧
      m' = { m with memory := m'.memory } ∧ m'.memory.size = m.memory.size ∧
      (∀ a ∈ m.footprint 3, m'.memory.cell? a.toInt = m.memory.cell? a.toInt) ∧
      (m.after 3).output = some 5 ∧ m'.after 3 = { m.after 3 with memory := (m'.after 3).memory } ∧
      (m.after 3).memory.cell? 8 = some 8 ∧ (m'.after 3).memory.cell? 8 = some 9 := by
  intro m m'
  have hrest : m' = { m with memory := m'.memory } := rfl
  have hsize : m'.memory.size = m.memory.size := rfl
  have hfootprint : m.footprint 3 = [0, 1, 2, 3, 4, 5, 6] := by decide
  have hwritten : m.written 3 = [7] := by decide
  have hagree : ∀ a ∈ m.footprint 3, m'.memory.cell? a.toInt = m.memory.cell? a.toInt := by
    simp only [hfootprint, List.forall_mem_cons]
    exact ⟨rfl, rfl, rfl, rfl, rfl, rfl, rfl, nofun⟩
  obtain ⟨-, hafter, -, hother⟩ := unread_cells_not_observed m m' 3 hrest hsize hagree
  have hlast : ∀ a ∈ m.written 3, a.toInt ≠ 8 := by
    rw [hwritten, List.forall_mem_singleton]
    decide
  exact ⟨hfootprint, hwritten, hrest, hsize, hagree, by decide, hafter 3 (Nat.le_refl 3), hother 8 hlast⟩

end Machine

end Intcode
