import Intcode.Proofs.Footprint

/-! The digits of an instruction's word that are not observed. Nothing looks at the digits above those of the
modes, and the mode of a destination has to be one but is not used. So two words that pack one operation, with
the same modes for its sources, are as good as each other wherever they are read as the word of an instruction.
If a machine reads a cell in no other way, it does not notice which of the two the cell holds, until it writes
there; and then there is nothing left to notice. -/

namespace Intcode

/-! ### Words -/

namespace Instruction

/-- The instructions are of one operation, and a parameter that is a source has the same mode in both. -/
structure Matches (i i' : Instruction) : Prop where
  opcode : i'.opcode = i.opcode
  source : ∀ k : Nat, i.opcode.parameters[k]? = some Role.source → i'.modes[k]? = i.modes[k]?

variable {o : Opcode} {w : Word}

theorem Matches.refl (i : Instruction) : i.Matches i := ⟨rfl, fun _ _ => rfl⟩

/-- A word whose mode digits are zero or one packs an instruction, whatever stands above them. -/
theorem exists_ofWord_iff :
    (∃ i, i.opcode = o ∧ ∀ pc, ofWord w pc = .ok i) ↔
      w.Codes o ∧ ∀ k < o.parameters.length, w.digit (k + 2) ≤ 1 := by
  constructor
  · rintro ⟨i, rfl, h⟩
    obtain ⟨rfl, hcodes, hmodes⟩ := ofWord_eq_ok_iff.mp (h 0)
    refine ⟨hcodes, fun k hk => ?_⟩
    obtain ⟨mode, hmode⟩ := i.exists_mode (List.getElem?_eq_getElem hk)
    rw [hmodes k mode hmode]
    exact mode.digit_le_one
  · rintro ⟨hcodes, hdigits⟩
    cases hword : ofWord w 0 with
    | ok i =>
        have hi := ofWord_eq_ok_iff.mp hword
        exact ⟨i, hi.2.1.unique (hi.1 ▸ hcodes), fun pc => ofWord_eq_ok_iff.mpr hi⟩
    | error f =>
        rcases ofWord_eq_error_iff.mp hword with ⟨hno, -⟩ | ⟨o', hcodes', k, hk, d, -, htwo, -⟩
        · exact absurd hcodes (hno o)
        · cases hcodes.unique hcodes'
          have hone := hdigits k hk
          omega

end Instruction

namespace Word

variable {w w' : Word}

/-- Both words pack an instruction, and the instructions are of one operation and have the same modes for their
sources. -/
def Interchangeable (w w' : Word) : Prop :=
  ∃ i i', (∀ pc, Instruction.ofWord w pc = .ok i) ∧ (∀ pc, Instruction.ofWord w' pc = .ok i') ∧ i.Matches i'

/-- Words are interchangeable when they code one operation and their mode digits are zero or one and for each
source the same. The digit of a destination and those above the modes are left open. -/
theorem interchangeable_iff :
    w.Interchangeable w' ↔ ∃ o, w.Codes o ∧ w'.Codes o ∧ ∀ (k : Nat) (hk : k < o.parameters.length),
      w.digit (k + 2) ≤ 1 ∧ w'.digit (k + 2) ≤ 1 ∧
        (o.parameters[k] = Role.source → w'.digit (k + 2) = w.digit (k + 2)) := by
  constructor
  · rintro ⟨i, i', hi, hi', hmatch⟩
    obtain ⟨rfl, hcodes, hmodes⟩ := Instruction.ofWord_eq_ok_iff.mp (hi 0)
    obtain ⟨rfl, hcodes', hmodes'⟩ := Instruction.ofWord_eq_ok_iff.mp (hi' 0)
    refine ⟨i.opcode, hcodes, hmatch.opcode ▸ hcodes', fun k hk => ?_⟩
    have hrole := List.getElem?_eq_getElem hk
    obtain ⟨mode, hmode⟩ := i.exists_mode hrole
    obtain ⟨mode', hmode'⟩ := i'.exists_mode ((congrArg (·.parameters[k]?) hmatch.opcode).trans hrole)
    rw [hmodes k mode hmode, hmodes' k mode' hmode']
    refine ⟨mode.digit_le_one, mode'.digit_le_one, fun hsource => ?_⟩
    have hsame := hmatch.source k (hrole.trans (congrArg some hsource))
    rw [hmode, hmode', Option.some_inj] at hsame
    rw [hsame]
  · rintro ⟨o, hcodes, hcodes', hdigits⟩
    obtain ⟨i, rfl, hi⟩ := Instruction.exists_ofWord_iff.mpr ⟨hcodes, fun k hk => (hdigits k hk).1⟩
    obtain ⟨i', hopcode, hi'⟩ := Instruction.exists_ofWord_iff.mpr ⟨hcodes', fun k hk => (hdigits k hk).2.1⟩
    refine ⟨i, i', hi, hi', hopcode, fun k hsource => ?_⟩
    obtain ⟨rfl, -, hmodes⟩ := Instruction.ofWord_eq_ok_iff.mp (hi 0)
    obtain ⟨rfl, -, hmodes'⟩ := Instruction.ofWord_eq_ok_iff.mp (hi' 0)
    obtain ⟨mode, hmode⟩ := i.exists_mode hsource
    obtain ⟨mode', hmode'⟩ := i'.exists_mode (hopcode ▸ hsource)
    obtain ⟨hk, hrole⟩ := List.getElem?_eq_some_iff.mp hsource
    have hsame := (hdigits k hk).2.2 hrole
    rw [hmodes k mode hmode, hmodes' k mode' hmode'] at hsame
    rw [hmode, hmode', Mode.digit_injective hsame]

end Word

/-! ### Operands -/

namespace Reading

variable {α β : Type}

/-- What a computation reads that is put together of two. -/
theorem reads_bind (memory : Memory) (p : Reading α) (next : α → Reading β) :
    (p.bind next).reads memory = p.reads memory ++
      match p.run memory with
      | .error _ => []
      | .ok a => (next a).reads memory := by
  induction p with
  | done result => cases result <;> rfl
  | read address more ih =>
      simp only [bind, reads, run]
      cases memory.read address with
      | error fault => rfl
      | ok word => exact congrArg (address :: ·) (ih word)

/-- The mode of a destination makes no difference to what is read. -/
theorem operands_of_modes {roles : List Role} {modes modes' : List Mode} (pc : UInt64)
    (hlength : modes'.length = modes.length)
    (h : ∀ k : Nat, roles[k]? = some Role.source → modes'[k]? = modes[k]?) :
    operands pc (roles.zip modes') = operands pc (roles.zip modes) := by
  induction roles generalizing modes modes' pc with
  | nil => rfl
  | cons role roles ih =>
      cases modes with
      | nil => rw [List.length_eq_zero_iff.mp hlength]
      | cons mode modes =>
          obtain ⟨mode', modes', rfl⟩ := List.exists_cons_of_length_eq_add_one hlength
          have hfirst : operand pc.toInt64 (role, mode') = operand pc.toInt64 (role, mode) := by
            cases role with
            | destination => rfl
            | source => rw [Option.some_inj.mp (h 0 rfl)]
          have hrest := ih (pc + 1) (Nat.succ.inj hlength) fun k hk => h (k + 1) hk
          rw [List.zip_cons_cons, List.zip_cons_cons, operands, operands, hfirst, hrest]

end Reading

theorem Instruction.Matches.operands {i i' : Instruction} (h : i.Matches i') (pc : UInt64) :
    Reading.operands pc i'.parameters = Reading.operands pc i.parameters := by
  have hlength : i'.modes.length = i.modes.length := by rw [i.length_modes, i'.length_modes, h.opcode]
  rw [parameters, parameters, h.opcode]
  exact Reading.operands_of_modes pc hlength h.source

/-! ### Machines -/

namespace Machine

/-- The addresses of the cells that the next step reads to find the operands: all that it reads but the word of
the instruction, which it reads first. -/
def operandReads (m : Machine) : List Word := m.reads.tail

/-- The machines differ in the cell at `p` alone, which holds `w` in the one and `w'` in the other. -/
structure Patched (p w w' : Word) (m m' : Machine) : Prop where
  holds : m.memory.read p = .ok w
  rest : m' = { m with memory := m.memory.set p w' }

variable {m m' : Machine} {p w w' v : Word} {i : Instruction} {o : Opcode} {e : Effect} {k n : Nat}

theorem operandReads_eq (hm : m.status ≠ .halted) (h : Instruction.decode m.memory m.pc = .ok i) :
    m.operandReads = (Reading.operands (m.pc + 1) i.parameters).reads m.memory := by
  have hrunning : m.isHalted = false := decide_eq_false hm
  have hcell := Memory.read_eq_ok_iff.mpr (Instruction.decode_eq_ok_iff.mp h).1
  have hword : (Reading.instruction m.pc).reads m.memory = [m.pc.toInt64] := by
    simp only [Reading.instruction, Reading.cell, Reading.bind, Reading.reads, hcell]
  have hoperands : ((Reading.operands (m.pc + 1) i.parameters).bind
      fun values => .done (.ok (i, Operands.ofList values))).reads m.memory =
        (Reading.operands (m.pc + 1) i.parameters).reads m.memory := by
    rw [Reading.reads_bind]
    cases (Reading.operands (m.pc + 1) i.parameters).run m.memory <;> exact List.append_nil _
  rw [operandReads, reads, hrunning, Reading.fetch, Reading.reads_bind, Reading.run_instruction, h, hword]
  exact hoperands

namespace Patched

variable (h : Patched p w w' m m')

include h

theorem inBounds : m.memory.InBounds p := Memory.inBounds_of_read h.holds

theorem memory : m'.memory = m.memory.set p w' := by rw [h.rest]

/-- Except at `p` the memories agree. -/
theorem coupled : Coupled (· ≠ p) m m' where
  rest := by rw [h.rest]
  size := by rw [h.memory, Memory.size_set]
  agree a ha := by
    rw [h.memory]
    exact Memory.cell?_set_of_ne h.inBounds ha

theorem pc : m'.pc = m.pc := by rw [h.rest]

theorem status : m'.status = m.status := by rw [h.rest]

/-- The machines fail to decode an instruction alike, or they find instructions that match. -/
theorem decode_cases (hw : w.Interchangeable w') :
    (∃ f, Instruction.decode m.memory m.pc = .error f ∧ Instruction.decode m'.memory m.pc = .error f) ∨
      ∃ i i', Instruction.decode m.memory m.pc = .ok i ∧ Instruction.decode m'.memory m.pc = .ok i' ∧
        i.Matches i' := by
  rw [h.memory]
  unfold Instruction.decode
  by_cases hp : m.pc.toInt64 = p
  · obtain ⟨i, i', hi, hi', hmatch⟩ := hw
    rw [hp, h.holds, Memory.read_set_self h.inBounds]
    exact .inr ⟨i, i', hi m.pc, hi' m.pc, hmatch⟩
  · rw [Memory.read_set_of_ne h.inBounds hp]
    cases hread : m.memory.read m.pc.toInt64 with
    | error f => exact .inl ⟨f, rfl, rfl⟩
    | ok u =>
        dsimp only
        cases hword : Instruction.ofWord u m.pc with
        | error f => exact .inl ⟨f, rfl, rfl⟩
        | ok i => exact .inr ⟨i, i, rfl, rfl, .refl i⟩

section Step

variable (hw : w.Interchangeable w') (hm : m.status ≠ .halted) (hreads : p ∉ m.operandReads)

include hw hm hreads

theorem fetch_cases :
    (∃ f, m.fetch = .error f ∧ m'.fetch = .error f) ∨
      ∃ i i' x, m.fetch = .ok (i, x) ∧ m'.fetch = .ok (i', x) ∧ i.Matches i' := by
  unfold fetch
  rw [h.pc]
  rcases h.decode_cases hw with ⟨f, hf, hf'⟩ | ⟨i, i', hi, hi', hmatch⟩
  · rw [hf, hf']
    exact .inl ⟨f, rfl, rfl⟩
  · have hagree : ∀ a ∈ (Reading.operands (m.pc + 1) i.parameters).reads m.memory,
        m'.memory.cell? a.toInt = m.memory.cell? a.toInt := by
      rw [← operandReads_eq hm hi]
      exact fun a ha => h.coupled.agree a fun hap => hreads (hap ▸ ha)
    have hrun := (Reading.run_eq_of_agree h.coupled.size _ hagree).1
    have hsame : i'.operands m'.memory m.pc = i.operands m.memory m.pc := by
      unfold Instruction.operands
      rw [← Reading.run_operands, ← Reading.run_operands, hmatch.operands, hrun]
    rw [hi, hi']
    dsimp only
    rw [hsame]
    cases i.operands m.memory m.pc with
    | error f => exact .inl ⟨f, rfl, rfl⟩
    | ok x => exact .inr ⟨i, i', x, rfl, rfl, hmatch⟩

theorem attempt : m'.attempt = m.attempt := by
  unfold Machine.attempt
  rcases h.fetch_cases hw hm hreads with ⟨f, hf, hf'⟩ | ⟨i, i', x, hx, hx', hmatch⟩
  · rw [hf, hf']
  · rw [hx, hx']
    dsimp only
    rw [hmatch.opcode, h.coupled.effect]

end Step

/-- What is written at `p` makes the machines the same. -/
theorem apply_write (l : Nat) (v : Word) : m'.apply l (.write p v) = m.apply l (.write p v) := by
  rw [h.rest]
  simp only [apply, Memory.set_set_self h.inBounds]

/-- Any other effect leaves them as different as they were. -/
theorem apply_other {x : Operands} (heffect : m.effect o x = .ok e) (hne : ∀ v, e ≠ .write p v) (l : Nat) :
    Patched p w w' (m.apply l e) (m'.apply l e) := by
  cases e with
  | write d v =>
      have hd : m.memory.InBounds d := inBounds_of_effect heffect
      have hdp : p ≠ d := by
        rintro rfl
        exact hne v rfl
      refine ⟨?_, ?_⟩
      · exact (Memory.read_set_of_ne hd hdp).trans h.holds
      · rw [h.rest]
        simp only [apply, Memory.set_comm h.inBounds hd hdp]
  | output v => exact ⟨h.holds, by rw [h.rest]; rfl⟩
  | jump t => exact ⟨h.holds, by rw [h.rest]; rfl⟩
  | pass => exact ⟨h.holds, by rw [h.rest]; rfl⟩
  | halt => exact ⟨h.holds, by rw [h.rest]; rfl⟩

/-- The machines take the same step, and it makes them the same if it writes at `p`. -/
theorem step (hw : w.Interchangeable w') (hreads : p ∉ m.operandReads) :
    m'.step.outcome = m.step.outcome ∧
      ((∃ v, m.write? = some (p, v)) → m'.step.machine = m.step.machine) ∧
      ((∀ v, m.write? ≠ some (p, v)) → Patched p w w' m.step.machine m'.step.machine) := by
  by_cases hm : m.status = .halted
  · rw [step_of_halted hm, step_of_halted (h.status.trans hm)]
    refine ⟨rfl, ?_, fun _ => h⟩
    rintro ⟨v, hv⟩
    exact absurd hm (write?_eq_some_iff.mp hv).1
  · have hm' : m'.status ≠ .halted := by rwa [h.status]
    have hsame := h.attempt hw hm hreads
    cases hattempt : m.attempt with
    | error f =>
        obtain ⟨houtcome, hmachine⟩ := step_of_attempt_error hm hattempt
        obtain ⟨houtcome', hmachine'⟩ := step_of_attempt_error hm' (hsame.trans hattempt)
        rw [houtcome, houtcome', hmachine, hmachine']
        refine ⟨rfl, ?_, fun _ => ⟨h.holds, by rw [h.rest]⟩⟩
        rintro ⟨v, hv⟩
        obtain ⟨-, o, hok⟩ := write?_eq_some_iff.mp hv
        cases hattempt.symm.trans hok
    | ok attempted =>
        obtain ⟨o, e⟩ := attempted
        obtain ⟨houtcome, hmachine⟩ := step_of_attempt_ok hm hattempt
        obtain ⟨houtcome', hmachine'⟩ := step_of_attempt_ok hm' (hsame.trans hattempt)
        obtain ⟨-, x, -, -, heffect⟩ := attempt_eq_ok_iff.mp hattempt
        rw [houtcome, houtcome', hmachine, hmachine']
        refine ⟨rfl, ?_, fun hno => h.apply_other heffect (fun v hv => hno v ?_) _⟩
        · rintro ⟨v, hv⟩
          obtain ⟨-, o', hok⟩ := write?_eq_some_iff.mp hv
          cases hattempt.symm.trans hok
          exact h.apply_write _ v
        · subst hv
          exact write?_eq_some_iff.mpr ⟨hm, o, hattempt⟩

end Patched

theorem mem_written_succ : p ∈ m.written (n + 1) ↔ p ∈ m.written n ∨ ∃ v, (m.after n).write? = some (p, v) := by
  rw [mem_written, mem_written]
  constructor
  · rintro ⟨k, hk, hv⟩
    rcases Nat.lt_succ_iff_lt_or_eq.mp hk with hlt | rfl
    · exact .inl ⟨k, hlt, hv⟩
    · exact .inr hv
  · rintro (⟨k, hk, hv⟩ | hv)
    · exact ⟨k, Nat.lt_succ_of_lt hk, hv⟩
    · exact ⟨n, Nat.lt_succ_self n, hv⟩

/-- Until a step writes at `p` the machines differ there alone, and from then on they are the same. -/
theorem Patched.after (h : Patched p w w' m m') (hw : w.Interchangeable w')
    (hreads : ∀ k < n, p ∉ m.written k → p ∉ (m.after k).operandReads) (hk : k ≤ n) :
    (p ∉ m.written k → Patched p w w' (m.after k) (m'.after k)) ∧
      (p ∈ m.written k → m'.after k = m.after k) := by
  induction k with
  | zero => exact ⟨fun _ => h, fun hmem => absurd hmem List.not_mem_nil⟩
  | succ k ih =>
      obtain ⟨hpatched, hsame⟩ := ih (Nat.le_of_succ_le hk)
      rw [mem_written_succ, after_succ, after_succ]
      by_cases hmem : p ∈ m.written k
      · rw [hsame hmem]
        exact ⟨fun hno => absurd (.inl hmem) hno, fun _ => rfl⟩
      · obtain ⟨-, hwrite, hother⟩ := (hpatched hmem).step hw (hreads k hk hmem)
        refine ⟨fun hno => hother fun v hv => hno (.inr ⟨v, hv⟩), ?_⟩
        rintro (hmem' | hv)
        · exact absurd hmem' hmem
        · exact hwrite hv

/-- **Ignored digits are not observed.** Let a machine hold at `p` one of two interchangeable words, and for as
long as none of its first `n` steps has written there, let it read the cell only as the word of an instruction.
If the cell holds the other word instead, then the first `n` steps come to the same, fault for fault, and in
between the machines differ in the memory alone, and there in no cell but the one at `p`. If it has not been
written it still holds the word that it held; if it has, there is no difference left. -/
theorem ignored_digits_not_observed (hw : w.Interchangeable w') (m : Machine) (hp : m.memory.read p = .ok w)
    (n : Nat) (hreads : ∀ k < n, p ∉ m.written k → p ∉ (m.after k).operandReads) :
    let m' : Machine := { m with memory := m.memory.set p w' }
    (∀ k < n, (m'.after k).step.outcome = (m.after k).step.outcome) ∧
    (∀ k ≤ n, m'.after k = { m.after k with memory := (m'.after k).memory }) ∧
    (∀ a, a ≠ p → (m'.after n).memory.read a = (m.after n).memory.read a) ∧
    (p ∉ m.written n → (m.after n).memory.read p = .ok w ∧ (m'.after n).memory.read p = .ok w' ∧
      (m'.after n).memory = (m.after n).memory.set p w') ∧
    (p ∈ m.written n → (m'.after n).memory = (m.after n).memory) := by
  intro m'
  have hstart : Patched p w w' m m' := ⟨hp, rfl⟩
  have hafter (k : Nat) (hk : k ≤ n) := hstart.after hw hreads hk
  obtain ⟨hpatched, hsame⟩ := hafter n (Nat.le_refl n)
  refine ⟨fun k hk => ?_, fun k hk => ?_, fun a ha => ?_, fun hmem => ?_, fun hmem => by rw [hsame hmem]⟩
  · by_cases hmem : p ∈ m.written k
    · rw [(hafter k (Nat.le_of_lt hk)).2 hmem]
    · exact (((hafter k (Nat.le_of_lt hk)).1 hmem).step hw (hreads k hk hmem)).1
  · by_cases hmem : p ∈ m.written k
    · rw [(hafter k hk).2 hmem]
    · exact ((hafter k hk).1 hmem).coupled.rest
  · by_cases hmem : p ∈ m.written n
    · rw [hsame hmem]
    · rw [(hpatched hmem).memory]
      exact Memory.read_set_of_ne (hpatched hmem).inBounds ha
  · have hlast := hpatched hmem
    refine ⟨hlast.holds, ?_, hlast.memory⟩
    rw [hlast.memory]
    exact Memory.read_set_self hlast.inBounds

/-- The word at 0 is executed twice, and the second time around the sum is written over it. -/
theorem ignored_digits_not_observed_overwritten :
    let m := load ⟨#[101, -1, 12, 12, 1005, 12, 0, 1101, 40, 2, 0, 99, 2]⟩
    let m' := load ⟨#[7210101, -1, 12, 12, 1005, 12, 0, 1101, 40, 2, 0, 99, 2]⟩
    Word.Interchangeable 101 7210101 ∧ m.memory.read 0 = .ok 101 ∧ m.written 4 = [12, 12] ∧
      m.written 6 = [12, 12, 0] ∧ (∀ k < 6, 0 ∉ m.written k → 0 ∉ (m.after k).operandReads) ∧
      m'.after 4 = { m.after 4 with memory := (m'.after 4).memory } ∧
      (m.after 4).memory.read 0 = .ok 101 ∧ (m'.after 4).memory.read 0 = .ok 7210101 ∧
      (m'.after 5).step.outcome = (m.after 5).step.outcome ∧ (m.after 5).step.outcome = .halted ∧
      (m'.after 6).memory = (m.after 6).memory ∧ (m.after 6).memory.read 0 = .ok 42 := by
  intro m m'
  have hw : Word.Interchangeable 101 7210101 :=
    Word.interchangeable_iff.mpr ⟨.add, by decide, by decide, by decide⟩
  have hp : m.memory.read 0 = .ok 101 := rfl
  have hfirst : m.written 4 = [12, 12] := by decide
  have hall : m.written 6 = [12, 12, 0] := by decide
  have hreads : ∀ k < 6, 0 ∉ m.written k → 0 ∉ (m.after k).operandReads := by decide
  obtain ⟨-, hrest, -, hkept, -⟩ := ignored_digits_not_observed hw m hp 4
    fun k hk => hreads k (Nat.lt_trans hk (by decide))
  obtain ⟨houtcome, -, -, -, hgone⟩ := ignored_digits_not_observed hw m hp 6 hreads
  obtain ⟨hheld, hheld', -⟩ := hkept (by rw [hfirst]; decide)
  exact ⟨hw, hp, hfirst, hall, hreads, hrest 4 (Nat.le_refl 4), hheld, hheld', houtcome 5 (by decide),
    by decide, hgone (by rw [hall]; decide), by decide⟩

end Machine

end Intcode
