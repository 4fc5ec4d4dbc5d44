import Intcode.Proofs.Step

/-! The instruction table: for each operation the state that it leaves, said of cells, decimal digits and
integers, and determined by the state before it. A step that succeeds leaves that state, so no operand is
read after the write and nothing else changes. -/

namespace Intcode

namespace Machine

/-- After `m`, the machine `m'` goes on behind an instruction of the operation `o`, and it has the word `v`
in the cell at `d`, the address that the last parameter holds. -/
structure Writes (m : Machine) (o : Opcode) (d v : Word) (m' : Machine) : Prop where
  destination : m.cell? (o.length - 1) = some d
  bounds : 0 ≤ d.toInt ∧ d.toInt < m.memory.size
  size : m'.memory.size = m.memory.size
  cell : ∀ k, m'.memory.cell? k = if k = d.toInt then some v else m.memory.cell? k
  pc : m'.pc.toNat = m.pc.toNat + o.length
  rest : m' = { m with memory := m'.memory, pc := m'.pc, status := .running }

/-- After `m`, the machine `m'` goes on at `b` if the jump is taken, and behind the jump `o` if not. -/
structure Branches (m : Machine) (o : Opcode) (taken : Prop) (b : Word) (m' : Machine) : Prop where
  jump : taken → (m'.pc.toNat : Int) = b.toInt
  pass : ¬taken → m'.pc.toNat = m.pc.toNat + o.length
  rest : m' = { m with pc := m'.pc, status := .running }

/-- The instruction table: `m'` is the machine after `m` has carried out an instruction with word `w` of the
operation. Sums and products are reduced to the signed 64-bit value that is congruent to them. -/
def Table (m : Machine) (w : Word) (m' : Machine) : Opcode → Prop
  | .add => ∃ a b d v, m.Source w 1 a ∧ m.Source w 2 b ∧ m.Writes .add d v m' ∧
      v.toInt = (a.toInt + b.toInt).bmod (2 ^ 64)
  | .mul => ∃ a b d v, m.Source w 1 a ∧ m.Source w 2 b ∧ m.Writes .mul d v m' ∧
      v.toInt = (a.toInt * b.toInt).bmod (2 ^ 64)
  | .store => ∃ d v, m.Writes .store d v m' ∧ m.input = some v
  | .load => ∃ a, m.Source w 1 a ∧ m'.pc.toNat = m.pc.toNat + Opcode.load.length ∧
      m' = { m with output := some a, pc := m'.pc, status := .running }
  | .jumpIfTrue => ∃ a b, m.Source w 1 a ∧ m.Source w 2 b ∧
      m.Branches .jumpIfTrue (a.toInt ≠ 0) b m'
  | .jumpIfFalse => ∃ a b, m.Source w 1 a ∧ m.Source w 2 b ∧
      m.Branches .jumpIfFalse (a.toInt = 0) b m'
  | .lessThan => ∃ a b d v, m.Source w 1 a ∧ m.Source w 2 b ∧ m.Writes .lessThan d v m' ∧
      v.toInt = if a.toInt < b.toInt then 1 else 0
  | .equal => ∃ a b d v, m.Source w 1 a ∧ m.Source w 2 b ∧ m.Writes .equal d v m' ∧
      v.toInt = if a.toInt = b.toInt then 1 else 0
  | .halt => m' = { m with status := .halted }

variable {m m' m₁ m₂ : Machine} {w : Word} {o : Opcode} {e : Effect}

theorem pc_add_length (hpc : m.pc.toNat < 2 ^ 63) (o : Opcode) :
    (m.pc + .ofNat o.length).toNat = m.pc.toNat + o.length := by
  have hthree := o.length_parameters_le
  rw [UInt64.toNat_add, UInt64.toNat_ofNat', Opcode.length]
  omega

theorem writing_eq_ok_iff {d v : Word} :
    m.writing d v = .ok e ↔ m.memory.InBounds d ∧ e = .write d v := by
  unfold writing
  split <;> simp_all [eq_comm]

theorem writes_of_writing {d v : Word} (hpc : m.pc.toNat < 2 ^ 63)
    (hd : m.cell? (o.length - 1) = some d) (h : m.writing d v = .ok e) :
    m.Writes o d v (m.apply o.length e) := by
  obtain ⟨hbounds, rfl⟩ := writing_eq_ok_iff.mp h
  exact {
    destination := hd
    bounds := Memory.inBounds_iff.mp hbounds
    size := Memory.size_set
    cell := Memory.cell?_set hbounds
    pc := pc_add_length hpc o
    rest := rfl }

theorem branches_of_jumping {taken : Bool} {b : Word} {p : Prop} (hpc : m.pc.toNat < 2 ^ 63)
    (hp : taken = true ↔ p) (h : m.jumping taken b = .ok e) :
    m.Branches o p b (m.apply o.length e) := by
  unfold jumping at h
  split at h
  · rename_i htaken
    split at h
    · cases h
    · rename_i hnonneg
      cases h
      have hzero : 0 ≤ b := by
        rw [Int64.le_iff_toInt_le]
        rw [Int64.lt_iff_toInt_lt] at hnonneg
        omega
      have htarget : (b.toUInt64.toNat : Int) = b.toInt := by
        rw [Int64.toNat_toUInt64_of_le hzero, Int64.toInt_eq_toNatClampNeg hzero]
      exact { jump := fun _ => htarget, pass := fun hno => absurd (hp.mp htaken) hno, rest := rfl }
  · rename_i hnot
    cases h
    exact { jump := fun hyes => absurd (hp.mpr hyes) hnot, pass := fun _ => pc_add_length hpc o, rest := rfl }

theorem toInt_ite {p : Prop} [Decidable p] :
    (if p then (1 : Word) else 0).toInt = if p then 1 else 0 := by
  split <;> rfl

/-- An effect that an operation has on its operands makes the row of the table true. -/
theorem table_of_effect {x : Operands} {values : List Word} (hpc : m.pc.toNat < 2 ^ 63)
    (hx : x = .ofList values)
    (hoperand : ∀ k role, o.parameters[k]? = some role → m.Operand w (k + 1) role (values.getD k 0))
    (h : m.effect o x = .ok e) : m.Table w (m.apply o.length e) o := by
  subst hx
  cases o with
  | add =>
      have hwrites := writes_of_writing (o := .add) hpc (hoperand 2 .destination rfl) h
      exact ⟨_, _, _, _, hoperand 0 .source rfl, hoperand 1 .source rfl, hwrites, Int64.toInt_add _ _⟩
  | mul =>
      have hwrites := writes_of_writing (o := .mul) hpc (hoperand 2 .destination rfl) h
      exact ⟨_, _, _, _, hoperand 0 .source rfl, hoperand 1 .source rfl, hwrites, Int64.toInt_mul _ _⟩
  | store =>
      unfold effect at h
      dsimp only at h
      cases hinput : m.input with
      | none =>
          rw [hinput] at h
          cases h
      | some v =>
          rw [hinput] at h
          exact ⟨_, v, writes_of_writing (o := .store) hpc (hoperand 0 .destination rfl) h, hinput⟩
  | load =>
      cases h
      exact ⟨_, hoperand 0 .source rfl, pc_add_length hpc .load, rfl⟩
  | jumpIfTrue =>
      have hbranches := branches_of_jumping (o := .jumpIfTrue) hpc Word.bne_zero_iff h
      exact ⟨_, _, hoperand 0 .source rfl, hoperand 1 .source rfl, hbranches⟩
  | jumpIfFalse =>
      have hbranches := branches_of_jumping (o := .jumpIfFalse) hpc Word.beq_zero_iff h
      exact ⟨_, _, hoperand 0 .source rfl, hoperand 1 .source rfl, hbranches⟩
  | lessThan =>
      have hwrites := writes_of_writing (o := .lessThan) hpc (hoperand 2 .destination rfl) h
      refine ⟨_, _, _, _, hoperand 0 .source rfl, hoperand 1 .source rfl, hwrites, ?_⟩
      rw [toInt_ite]
      simp only [Int64.lt_iff_toInt_lt]
      rfl
  | equal =>
      have hwrites := writes_of_writing (o := .equal) hpc (hoperand 2 .destination rfl) h
      refine ⟨_, _, _, _, hoperand 0 .source rfl, hoperand 1 .source rfl, hwrites, ?_⟩
      rw [toInt_ite]
      simp only [← Int64.toInt_inj]
      rfl
  | halt =>
      cases h
      rfl

theorem Source.unique {i : Nat} {a b : Word} (ha : m.Source w i a) (hb : m.Source w i b) : a = b := by
  obtain ⟨raw, hraw, ha⟩ := ha
  obtain ⟨raw', hraw', hb⟩ := hb
  cases hraw.symm.trans hraw'
  rcases ha with ⟨hone, rfl⟩ | ⟨hzero, ha⟩ <;> rcases hb with ⟨hone', rfl⟩ | ⟨hzero', hb⟩
  · rfl
  · omega
  · omega
  · exact Option.some.inj (ha.symm.trans hb)

theorem Writes.unique {d d' v v' : Word} (h₁ : m.Writes o d v m₁) (h₂ : m.Writes o d' v' m₂)
    (hv : v.toInt = v'.toInt) : m₁ = m₂ := by
  cases h₁.destination.symm.trans h₂.destination
  cases Int64.toInt_inj.mp hv
  have hmemory : m₁.memory = m₂.memory := Memory.ext_cell? fun k => (h₁.cell k).trans (h₂.cell k).symm
  have hpc : m₁.pc = m₂.pc := UInt64.toNat_inj.mp (h₁.pc.trans h₂.pc.symm)
  rw [h₁.rest, h₂.rest, hmemory, hpc]

theorem Branches.unique {p : Prop} {b : Word} (h₁ : m.Branches o p b m₁) (h₂ : m.Branches o p b m₂) :
    m₁ = m₂ := by
  have hpc : m₁.pc.toNat = m₂.pc.toNat := by
    by_cases hp : p
    · exact Int.ofNat_inj.mp ((h₁.jump hp).trans (h₂.jump hp).symm)
    · exact (h₁.pass hp).trans (h₂.pass hp).symm
  rw [h₁.rest, h₂.rest, UInt64.toNat_inj.mp hpc]

theorem Table.unique (h₁ : m.Table w m₁ o) (h₂ : m.Table w m₂ o) : m₁ = m₂ := by
  cases o with
  | add | mul | lessThan | equal =>
      obtain ⟨a, b, d, v, ha, hb, hwrites, hv⟩ := h₁
      obtain ⟨a', b', d', v', ha', hb', hwrites', hv'⟩ := h₂
      cases ha.unique ha'
      cases hb.unique hb'
      exact hwrites.unique hwrites' (hv.trans hv'.symm)
  | store =>
      obtain ⟨d, v, hwrites, hinput⟩ := h₁
      obtain ⟨d', v', hwrites', hinput'⟩ := h₂
      cases hinput.symm.trans hinput'
      exact hwrites.unique hwrites' rfl
  | load =>
      obtain ⟨a, ha, hpc, hrest⟩ := h₁
      obtain ⟨a', ha', hpc', hrest'⟩ := h₂
      cases ha.unique ha'
      rw [hrest, hrest', UInt64.toNat_inj.mp (hpc.trans hpc'.symm)]
  | jumpIfTrue | jumpIfFalse =>
      obtain ⟨a, b, ha, hb, hbranches⟩ := h₁
      obtain ⟨a', b', ha', hb', hbranches'⟩ := h₂
      cases ha.unique ha'
      cases hb.unique hb'
      exact hbranches.unique hbranches'
  | halt => exact h₁.trans h₂.symm

theorem outcome_of_effect {x : Operands} (h : m.effect o x = .ok e) :
    e.outcome = if o = .halt then .halted else .ongoing := by
  cases o <;> simp only [effect, writing, jumping] at h
  case store =>
      cases hinput : m.input with
      | none =>
          rw [hinput] at h
          cases h
      | some v =>
          rw [hinput] at h
          dsimp only at h
          split at h <;> cases h
          rfl
  case halt =>
      cases h
      rfl
  all_goals
      repeat' split at h
      all_goals cases h
      all_goals rfl

theorem table_of_attempt (h : m.attempt = .ok (o, e)) :
    ∃ w, m.Codes w o ∧ m.Table w (m.apply o.length e) o ∧
      e.outcome = if o = .halt then .halted else .ongoing := by
  obtain ⟨i, x, hfetch, rfl, heffect⟩ := attempt_eq_ok_iff.mp h
  obtain ⟨hpc, hcodes, -⟩ := codes_of_decode (fetch_eq_ok_iff.mp hfetch).1
  obtain ⟨values, hx, -, hoperand⟩ := operand_of_fetch hfetch
  exact ⟨i.word, hcodes, table_of_effect hpc hx hoperand heffect, outcome_of_effect heffect⟩

/-- A step that leaves the machine going has done what the table says. -/
theorem table_of_ongoing (h : m.step.outcome = .ongoing) :
    ∃ w o, m.Codes w o ∧ o ≠ .halt ∧ m.Table w m.step.machine o := by
  by_cases hm : m.status = .halted
  · rw [step_of_halted hm] at h
    cases h
  · cases hattempt : m.attempt with
    | error f =>
        rw [(step_of_attempt_error hm hattempt).1] at h
        cases h
    | ok attempted =>
        obtain ⟨o, e⟩ := attempted
        obtain ⟨houtcome, hmachine⟩ := step_of_attempt_ok hm hattempt
        obtain ⟨w, hcodes, htable, he⟩ := table_of_attempt hattempt
        rw [← hmachine] at htable
        refine ⟨w, o, hcodes, ?_, htable⟩
        rintro rfl
        rw [houtcome, he] at h
        cases h

/-- **A step that succeeds follows the instruction table.** The machine has not halted, the word at its
counter codes an operation, and the state after the step is the one that the table leaves. -/
theorem step_follows_table (m : Machine) (hm : m.status ≠ .halted)
    (hok : ∀ f, m.step.outcome ≠ .faulted f) :
    ∃ w o, m.Codes w o ∧ m.Table w m.step.machine o ∧ (∀ m', m.Table w m' o → m' = m.step.machine) ∧
      m.step.outcome = if o = .halt then .halted else .ongoing := by
  cases hattempt : m.attempt with
  | error f => exact absurd (step_of_attempt_error hm hattempt).1 (hok f)
  | ok attempted =>
      obtain ⟨o, e⟩ := attempted
      obtain ⟨houtcome, hmachine⟩ := step_of_attempt_ok hm hattempt
      obtain ⟨w, hcodes, htable, he⟩ := table_of_attempt hattempt
      rw [houtcome, hmachine]
      exact ⟨w, o, hcodes, htable, fun m' h => h.unique htable, he⟩

/-- The sum is written over the word of the addition, which is also both of its operands. -/
theorem step_follows_table_overwriting_itself :
    let m := Machine.load ⟨#[1, 0, 0, 0, 99]⟩
    m.status ≠ .halted ∧ (∀ f, m.step.outcome ≠ .faulted f) ∧
      m.step.machine.memory = ⟨#[2, 0, 0, 0, 99]⟩ ∧
      ∃ w o, m.Codes w o ∧ m.Table w m.step.machine o ∧ (∀ m', m.Table w m' o → m' = m.step.machine) ∧
        m.step.outcome = if o = .halt then .halted else .ongoing := by
  intro m
  have hm : m.status ≠ .halted := by decide
  have houtcome : m.step.outcome = .ongoing := by decide
  have hok : ∀ f, m.step.outcome ≠ .faulted f := by simp [houtcome]
  exact ⟨hm, hok, by decide, step_follows_table m hm hok⟩

end Machine

end Intcode
