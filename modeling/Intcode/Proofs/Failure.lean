import Intcode.Proofs.Table

/-! When and how a step fails. Seven obstacles can be in the way of an instruction, each a condition on the
machine and on one fault that names it; several may be there at once. A step fails exactly when one is, and
it reports the first in a fixed order. -/

namespace Intcode

/-- What can be in the way of an instruction, in the order in which it is looked for. -/
inductive Obstacle where
  /-- The counter is behind the last cell. -/
  | counter
  /-- The word at the counter codes no operation. -/
  | opcode
  /-- The digit of a parameter codes no mode. -/
  | mode
  /-- A parameter has no cell, or is a source that holds the address of none. -/
  | parameter
  /-- A word is to be stored and there is no input. -/
  | input
  /-- The destination is the address of no cell. -/
  | destination
  /-- The target of a jump that is taken is negative. -/
  | target
deriving DecidableEq

/-- The place of an obstacle in the order. -/
def Obstacle.rank : Obstacle → Nat
  | counter => 0
  | opcode => 1
  | mode => 2
  | parameter => 3
  | input => 4
  | destination => 5
  | target => 6

/-- The operation is a jump that is taken if its first operand is `a`. -/
def Opcode.Jumps (o : Opcode) (a : Word) : Prop :=
  o = .jumpIfTrue ∧ a.toInt ≠ 0 ∨ o = .jumpIfFalse ∧ a.toInt = 0

namespace Machine

/-- The obstacle is in the way of the machine's next instruction, and the fault is the one that names it. Of
several parameters that are in the way as one and the same obstacle, the fault names the first. -/
def Meets (m : Machine) : Obstacle → Fault → Prop
  | .counter, f =>
    m.memory.size ≤ m.pc.toNat ∧ f = .outOfBounds m.pc.toInt64 m.memory.size
  | .opcode, f => ∃ w, m.cell? 0 = some w ∧
      (w.toInt < 0 ∨ ¬(1 ≤ w.toInt % 100 ∧ w.toInt % 100 ≤ 8 ∨ w.toInt % 100 = 99)) ∧
      f = .invalidOpcode w m.pc
  | .mode, f => ∃ (w : Word) (o : Opcode) (i : Nat) (d : Word), m.Codes w o ∧ o.role? i ≠ none ∧
      d.toInt = w.digit (i + 1) ∧ 2 ≤ d.toInt ∧ d.toInt ≤ 9 ∧
      (∀ j, 0 < j → j < i → w.digit (j + 1) ≤ 1) ∧ f = .invalidMode w m.pc d
  | .parameter, f => ∃ w o i a, m.Codes w o ∧ m.Offends w o i a ∧
      (∀ j < i, ∀ b, ¬m.Offends w o j b) ∧ f = .outOfBounds a m.memory.size
  | .input, f => ∃ w, m.Codes w .store ∧ m.input = none ∧ f = .missingInput m.pc
  | .destination, f => ∃ w o i d, m.Codes w o ∧ o.role? i = some .destination ∧ m.cell? i = some d ∧
      (d.toInt < 0 ∨ m.memory.size ≤ d.toInt) ∧ f = .outOfBounds d m.memory.size
  | .target, f => ∃ w o a b, m.Codes w o ∧ m.Source w 1 a ∧ m.Source w 2 b ∧ o.Jumps a ∧
      b.toInt < 0 ∧ f = .outOfBounds b m.memory.size

/-- The obstacle is in the way and none before it is. -/
def MeetsFirst (m : Machine) (r : Obstacle) (f : Fault) : Prop :=
  m.Meets r f ∧ ∀ r', r'.rank < r.rank → ∀ g, ¬m.Meets r' g

end Machine

/-- An operation has one destination at most, its last parameter. -/
theorem Opcode.role?_destination_iff {o : Opcode} {i : Nat} :
    o.role? i = some .destination ↔ o.hasDestination = true ∧ i + 1 = o.length := by
  rcases i with _ | _ | _ | _ | i <;> cases o <;> simp [role?, parameters, hasDestination, length]

theorem Opcode.role?_ne_none_iff {o : Opcode} {i : Nat} : o.role? i ≠ none ↔ 1 ≤ i ∧ i ≤ o.length - 1 := by
  have hlength : o.length - 1 = o.parameters.length := rfl
  cases i with
  | zero => simp [role?]
  | succ k =>
      rw [role?, Ne, List.getElem?_eq_none_iff, hlength]
      omega

theorem Opcode.exists_code_iff {n : Int} :
    (∃ o : Opcode, n = o.code.toInt) ↔ 1 ≤ n ∧ n ≤ 8 ∨ n = 99 := by
  constructor
  · rintro ⟨o, rfl⟩
    cases o <;> decide
  · intro h
    rcases show n = 1 ∨ n = 2 ∨ n = 3 ∨ n = 4 ∨ n = 5 ∨ n = 6 ∨ n = 7 ∨ n = 8 ∨ n = 99 by omega with
      rfl | rfl | rfl | rfl | rfl | rfl | rfl | rfl | rfl
    · exact ⟨.add, rfl⟩
    · exact ⟨.mul, rfl⟩
    · exact ⟨.store, rfl⟩
    · exact ⟨.load, rfl⟩
    · exact ⟨.jumpIfTrue, rfl⟩
    · exact ⟨.jumpIfFalse, rfl⟩
    · exact ⟨.lessThan, rfl⟩
    · exact ⟨.equal, rfl⟩
    · exact ⟨.halt, rfl⟩

theorem Word.forall_not_codes_iff {w : Word} :
    (∀ o, ¬w.Codes o) ↔
      w.toInt < 0 ∨ ¬(1 ≤ w.toInt % 100 ∧ w.toInt % 100 ≤ 8 ∨ w.toInt % 100 = 99) := by
  rw [← Opcode.exists_code_iff]
  unfold Word.Codes
  constructor
  · intro h
    by_cases hw : 0 ≤ w.toInt
    · exact .inr fun ⟨o, ho⟩ => h o ⟨hw, ho⟩
    · exact .inl (Int.not_le.mp hw)
  · rintro (hneg | hnone) o ⟨hw, ho⟩
    · omega
    · exact hnone ⟨o, ho⟩

namespace Machine

variable {m : Machine} {i : Instruction} {x : Operands} {f : Fault}

theorem decode_error_iff (hm : m.memory.Addressable) :
    Instruction.decode m.memory m.pc = .error f ↔
      m.Meets .counter f ∨ m.Meets .opcode f ∨ m.Meets .mode f := by
  have hcell : m.memory.cell? m.pc.toInt64.toInt = m.cell? 0 := Memory.cell?_counter hm m.pc
  rw [Instruction.decode_eq_error_iff, hcell]
  have hnone : m.cell? 0 = none ↔ m.memory.size ≤ m.pc.toNat := by
    rw [cell?, Memory.cell?_eq_none_iff]
    omega
  constructor
  · rintro (⟨h, rfl⟩ | ⟨w, hw, herror⟩)
    · exact .inl ⟨hnone.mp h, rfl⟩
    · rcases Instruction.ofWord_eq_error_iff.mp herror with
        ⟨hno, rfl⟩ | ⟨o, hcodes, k, hk, d, hd, htwo, hbelow, rfl⟩
      · exact .inr (.inl ⟨w, hw, Word.forall_not_codes_iff.mp hno, rfl⟩)
      · have hten := w.digit_lt_ten (k + 2)
        have hrole : o.role? (k + 1) ≠ none := Opcode.role?_ne_none_iff.mpr ⟨Nat.succ_pos k, hk⟩
        refine .inr (.inr ⟨w, o, k + 1, d, ⟨hw, hcodes⟩, hrole, hd, by omega, by omega, ?_, rfl⟩)
        intro j hj hjk
        cases j with
        | zero => omega
        | succ j => exact hbelow j (by omega)
  · rintro (⟨h, rfl⟩ | ⟨w, hw, hno, rfl⟩ | ⟨w, o, i, d, ⟨hw, hcodes⟩, hrole, hd, htwo, -, hbelow, rfl⟩)
    · exact .inl ⟨hnone.mpr h, rfl⟩
    · exact .inr ⟨w, hw, Instruction.ofWord_eq_error_iff.mpr
        (.inl ⟨Word.forall_not_codes_iff.mpr hno, rfl⟩)⟩
    · cases i with
      | zero => exact absurd rfl hrole
      | succ k =>
          have hk : k < o.parameters.length := (Opcode.role?_ne_none_iff.mp hrole).2
          have hdigit : d.toInt = w.digit (k + 2) := hd
          refine .inr ⟨w, hw, Instruction.ofWord_eq_error_iff.mpr
            (.inr ⟨o, hcodes, k, hk, d, hdigit, by omega, fun j hj => ?_, rfl⟩)⟩
          exact hbelow (j + 1) (by omega) (by omega)

/-- Where an operand of an instruction cannot be found, its parameter offends, and the other way round. -/
theorem parameter_error_iff (hm : m.memory.Addressable)
    (hdecode : Instruction.decode m.memory m.pc = .ok i) {k : Nat} {role : Role} {mode : Mode}
    (hk : i.parameters[k]? = some (role, mode)) {g : Fault} :
    m.memory.operand (m.pc + 1 + .ofNat k).toInt64 (role, mode) = .error g ↔
      ∃ a, m.Offends i.word i.opcode (k + 1) a ∧ g = .outOfBounds a m.memory.size := by
  obtain ⟨hpc, -, hmodes⟩ := codes_of_decode hdecode
  obtain ⟨hrole, hmode⟩ := Instruction.getElem?_parameters.mp hk
  obtain ⟨hlt, -⟩ := List.getElem?_eq_some_iff.mp hrole
  have hthree := i.opcode.length_parameters_le
  exact operand_eq_error_iff hm hpc (by omega) hrole (hmodes k mode hmode)

theorem operands_error_iff (hm : m.memory.Addressable)
    (hdecode : Instruction.decode m.memory m.pc = .ok i) :
    i.operands m.memory m.pc = .error f ↔ m.Meets .parameter f := by
  obtain ⟨hpc, hcodes, hmodes⟩ := codes_of_decode hdecode
  rw [Instruction.operands_eq_error_iff, Memory.operands_eq_error_iff]
  constructor
  · rintro ⟨k, ⟨role, mode⟩, hk, herror, hbelow⟩
    obtain ⟨a, hoffends, rfl⟩ := (parameter_error_iff hm hdecode hk).mp herror
    refine ⟨i.word, i.opcode, k + 1, a, hcodes, hoffends, fun j hj b hb => ?_, rfl⟩
    obtain ⟨role', hrole', hoff⟩ := hb
    cases j with
    | zero => cases hrole'
    | succ j =>
        obtain ⟨mode', hmode'⟩ := Instruction.exists_mode hrole'
        have hj' := Instruction.getElem?_parameters.mpr ⟨hrole', hmode'⟩
        obtain ⟨y, hy⟩ := hbelow j (Nat.lt_of_succ_lt_succ hj) _ hj'
        have herror' := (parameter_error_iff hm hdecode hj').mpr ⟨b, ⟨role', hrole', hoff⟩, rfl⟩
        rw [hy] at herror'
        cases herror'
  · rintro ⟨w, o, k, a, hcodes', hoffends, hbelow, rfl⟩
    obtain ⟨rfl, rfl⟩ := hcodes.unique hcodes'
    obtain ⟨role, hrole, hoff⟩ := hoffends
    cases k with
    | zero => cases hrole
    | succ k =>
        obtain ⟨mode, hmode⟩ := Instruction.exists_mode hrole
        have hk := Instruction.getElem?_parameters.mpr ⟨hrole, hmode⟩
        refine ⟨k, (role, mode), hk,
          (parameter_error_iff hm hdecode hk).mpr ⟨a, ⟨role, hrole, hoff⟩, rfl⟩, fun j hj q hq => ?_⟩
        obtain ⟨role', mode'⟩ := q
        cases hy : m.memory.operand (m.pc + 1 + .ofNat j).toInt64 (role', mode') with
        | ok y => exact ⟨y, rfl⟩
        | error g =>
            obtain ⟨b, hb, -⟩ := (parameter_error_iff hm hdecode hq).mp hy
            exact absurd hb (hbelow (j + 1) (by omega) b)

theorem writing_eq_error_iff {d v : Word} :
    m.writing d v = .error f ↔
      (d.toInt < 0 ∨ m.memory.size ≤ d.toInt) ∧ f = .outOfBounds d m.memory.size := by
  have hout : ¬m.memory.InBounds d ↔ d.toInt < 0 ∨ m.memory.size ≤ d.toInt := by
    rw [Memory.inBounds_iff]
    omega
  rw [← hout]
  unfold writing
  split
  · rename_i h
    simp [h]
  · rename_i h
    simp [h, Memory.outOfBounds, eq_comm]

theorem jumping_eq_error_iff {taken : Bool} {b : Word} :
    m.jumping taken b = .error f ↔
      taken = true ∧ b.toInt < 0 ∧ f = .outOfBounds b m.memory.size := by
  have hneg : b < 0 ↔ b.toInt < 0 := by rw [Int64.lt_iff_toInt_lt, Int64.toInt_zero]
  unfold jumping
  cases taken with
  | false => simp
  | true => by_cases hb : b.toInt < 0 <;> simp [hneg, hb, Memory.outOfBounds, eq_comm]

section Effect

variable {w : Word} {o : Opcode} (hcodes : m.Codes w o)

include hcodes

theorem meets_input_iff : m.Meets .input f ↔ o = .store ∧ m.input = none ∧ f = .missingInput m.pc := by
  constructor
  · rintro ⟨w', hcodes', hinput, hf⟩
    exact ⟨(hcodes.unique hcodes').2, hinput, hf⟩
  · rintro ⟨rfl, hinput, hf⟩
    exact ⟨w, hcodes, hinput, hf⟩

theorem meets_destination_iff {d : Word} (hdestination : o.hasDestination = true)
    (hd : m.cell? (o.length - 1) = some d) :
    m.Meets .destination f ↔
      (d.toInt < 0 ∨ m.memory.size ≤ d.toInt) ∧ f = .outOfBounds d m.memory.size := by
  constructor
  · rintro ⟨w', o', i, d', hcodes', hi, hd', hout, hf⟩
    cases (hcodes.unique hcodes').2
    have hlast : i = o.length - 1 := by
      have := (Opcode.role?_destination_iff.mp hi).2
      omega
    subst hlast
    cases hd.symm.trans hd'
    exact ⟨hout, hf⟩
  · rintro ⟨hout, hf⟩
    exact ⟨w, o, o.length - 1, d, hcodes, Opcode.role?_destination_iff.mpr ⟨hdestination, rfl⟩, hd, hout, hf⟩

theorem not_meets_destination (hno : o.hasDestination = false) : ¬m.Meets .destination f := by
  rintro ⟨w', o', i, d', hcodes', hi, -⟩
  cases (hcodes.unique hcodes').2
  rw [Opcode.role?_destination_iff, hno] at hi
  cases hi.1

theorem meets_target_iff {a b : Word} (ha : m.Source w 1 a) (hb : m.Source w 2 b) :
    m.Meets .target f ↔ o.Jumps a ∧ b.toInt < 0 ∧ f = .outOfBounds b m.memory.size := by
  constructor
  · rintro ⟨w', o', a', b', hcodes', ha', hb', hjumps, hneg, hf⟩
    obtain ⟨rfl, rfl⟩ := hcodes.unique hcodes'
    cases ha.unique ha'
    cases hb.unique hb'
    exact ⟨hjumps, hneg, hf⟩
  · rintro ⟨hjumps, hneg, hf⟩
    exact ⟨w, o, a, b, hcodes, ha, hb, hjumps, hneg, hf⟩

theorem not_meets_target (htrue : o ≠ .jumpIfTrue) (hfalse : o ≠ .jumpIfFalse) : ¬m.Meets .target f := by
  rintro ⟨w', o', a', b', hcodes', -, -, hjumps, -⟩
  cases (hcodes.unique hcodes').2
  rcases hjumps with ⟨h, -⟩ | ⟨h, -⟩
  · exact htrue h
  · exact hfalse h

theorem writing_error_iff {d v : Word} (hdestination : o.hasDestination = true)
    (hd : m.cell? (o.length - 1) = some d) (hinput : o = .store → m.input ≠ none) :
    m.writing d v = .error f ↔ m.Meets .input f ∨
      (∀ g, ¬m.Meets .input g) ∧ m.Meets .destination f ∨ m.Meets .target f := by
  have hno (g : Fault) : ¬m.Meets .input g := by
    rw [meets_input_iff hcodes]
    rintro ⟨ho, hnone, -⟩
    exact hinput ho hnone
  have htarget : ¬m.Meets .target f := by
    apply not_meets_target hcodes <;> rintro rfl <;> cases hdestination
  rw [writing_eq_error_iff, ← meets_destination_iff hcodes hdestination hd]
  simp [hno, htarget]

theorem jumping_error_iff {a b : Word} {taken : Bool} (htaken : taken = true ↔ o.Jumps a)
    (ha : m.Source w 1 a) (hb : m.Source w 2 b) (hno : o.hasDestination = false) :
    m.jumping taken b = .error f ↔ m.Meets .input f ∨
      (∀ g, ¬m.Meets .input g) ∧ m.Meets .destination f ∨ m.Meets .target f := by
  have hstore : o ≠ .store := by
    rintro rfl
    cases hno
  rw [jumping_eq_error_iff, htaken, ← meets_target_iff hcodes ha hb, meets_input_iff hcodes]
  simp [hstore, not_meets_destination hcodes hno]

theorem not_meets_after_fetch (hno : o.hasDestination = false) (htrue : o ≠ .jumpIfTrue)
    (hfalse : o ≠ .jumpIfFalse) : ¬(m.Meets .input f ∨
      (∀ g, ¬m.Meets .input g) ∧ m.Meets .destination f ∨ m.Meets .target f) := by
  have hstore : o ≠ .store := by
    rintro rfl
    cases hno
  rw [meets_input_iff hcodes]
  simp [hstore, not_meets_destination hcodes hno, not_meets_target hcodes htrue hfalse]

end Effect

theorem effect_error_iff (hfetch : m.fetch = .ok (i, x)) :
    m.effect i.opcode x = .error f ↔ m.Meets .input f ∨
      (∀ g, ¬m.Meets .input g) ∧ m.Meets .destination f ∨ m.Meets .target f := by
  obtain ⟨-, hcodes, -⟩ := codes_of_decode (fetch_eq_ok_iff.mp hfetch).1
  obtain ⟨values, rfl, -, hoperand⟩ := operand_of_fetch hfetch
  generalize i.opcode = o at hcodes hoperand
  cases o with
  | add | mul | lessThan | equal =>
      exact writing_error_iff hcodes rfl (hoperand 2 .destination rfl) (by simp)
  | store =>
      unfold effect
      dsimp only
      cases hinput : m.input with
      | none =>
          have hmeets := meets_input_iff (f := .missingInput m.pc) hcodes
          have hno : ¬m.Meets .target f := not_meets_target hcodes (by simp) (by simp)
          rw [meets_input_iff hcodes]
          simp only [hinput, true_and] at hmeets ⊢
          simp only [hno, or_false, Except.error.injEq, eq_comm, iff_self_or]
          rintro ⟨hnone, -⟩
          exact absurd (hmeets.mpr trivial) (hnone _)
      | some v => exact writing_error_iff hcodes rfl (hoperand 0 .destination rfl) (by simp [hinput])
  | load | halt =>
      have hno := not_meets_after_fetch (f := f) hcodes rfl (by simp) (by simp)
      simp [effect, hno]
  | jumpIfTrue =>
      have htaken (a : Word) : (a != 0) = true ↔ Opcode.jumpIfTrue.Jumps a := by
        rw [Word.bne_zero_iff]
        simp [Opcode.Jumps]
      exact jumping_error_iff hcodes (htaken _) (hoperand 0 .source rfl) (hoperand 1 .source rfl) rfl
  | jumpIfFalse =>
      have htaken (a : Word) : (a == 0) = true ↔ Opcode.jumpIfFalse.Jumps a := by
        rw [Word.beq_zero_iff]
        simp [Opcode.Jumps]
      exact jumping_error_iff hcodes (htaken _) (hoperand 0 .source rfl) (hoperand 1 .source rfl) rfl

/-- An instruction can be decoded when none of the first three obstacles is there. -/
theorem exists_decode_iff (hm : m.memory.Addressable) :
    (∃ i, Instruction.decode m.memory m.pc = .ok i) ↔ ∀ r : Obstacle, r.rank < 3 → ∀ g, ¬m.Meets r g := by
  constructor
  · rintro ⟨i, hdecode⟩ r hr g hmeets
    have herror : Instruction.decode m.memory m.pc = .error g := by
      rw [decode_error_iff hm]
      cases r with
      | counter => exact .inl hmeets
      | opcode => exact .inr (.inl hmeets)
      | mode => exact .inr (.inr hmeets)
      | parameter | input | destination | target => exact absurd hr (by decide)
    rw [hdecode] at herror
    cases herror
  · intro hno
    cases hdecode : Instruction.decode m.memory m.pc with
    | ok i => exact ⟨i, rfl⟩
    | error g =>
        rcases (decode_error_iff hm).mp hdecode with h | h | h
        · exact absurd h (hno .counter (by decide) g)
        · exact absurd h (hno .opcode (by decide) g)
        · exact absurd h (hno .mode (by decide) g)

/-- The operands are found when none of the first four obstacles is there. -/
theorem exists_fetch_iff (hm : m.memory.Addressable) :
    (∃ i x, m.fetch = .ok (i, x)) ↔ ∀ r : Obstacle, r.rank < 4 → ∀ g, ¬m.Meets r g := by
  constructor
  · rintro ⟨i, x, hfetch⟩ r hr g hmeets
    obtain ⟨hdecode, hoperands⟩ := fetch_eq_ok_iff.mp hfetch
    by_cases hparameter : r = .parameter
    · subst hparameter
      rw [← operands_error_iff hm hdecode, hoperands] at hmeets
      cases hmeets
    · have hthree : r.rank < 3 := by
        cases r <;> simp_all [Obstacle.rank]
      exact (exists_decode_iff hm).mp ⟨i, hdecode⟩ r hthree g hmeets
  · intro hno
    obtain ⟨i, hdecode⟩ := (exists_decode_iff hm).mpr fun r hr => hno r (by omega)
    cases hoperands : i.operands m.memory m.pc with
    | ok x => exact ⟨i, x, fetch_eq_ok_iff.mpr ⟨hdecode, hoperands⟩⟩
    | error g =>
        exact absurd ((operands_error_iff hm hdecode).mp hoperands) (hno .parameter (by decide) g)

/-- There is no cell at the counter, or a word that codes nothing, or one that codes an operation: of the
first three obstacles only one can be there. -/
theorem meetsFirst_of_decode {r : Obstacle} (hr : r.rank < 3) (h : m.Meets r f) : m.MeetsFirst r f := by
  refine ⟨h, fun r' hr' g h' => ?_⟩
  have hcell (hcounter : m.Meets .counter g) : m.cell? 0 = none := by
    rw [cell?, Memory.cell?_eq_none_iff]
    have := hcounter.1
    omega
  cases r with
  | counter => exact absurd hr' (Nat.not_lt_zero _)
  | opcode =>
      cases r' with
      | counter =>
          obtain ⟨w, hw, -⟩ := h
          rw [hcell h'] at hw
          cases hw
      | opcode | mode | parameter | input | destination | target => exact absurd hr' (by decide)
  | mode =>
      obtain ⟨w, o, i, d, hcodes, -⟩ := h
      cases r' with
      | counter =>
          rw [Codes, hcell h'] at hcodes
          cases hcodes.1
      | opcode =>
          obtain ⟨w', hw', hno, -⟩ := h'
          cases hcodes.1.symm.trans hw'
          exact Word.forall_not_codes_iff.mpr hno o hcodes.2
      | mode | parameter | input | destination | target => exact absurd hr' (by decide)
  | parameter | input | destination | target => exact absurd hr (by decide)

theorem meets_target_alone {g : Fault} (h : m.Meets .target f) :
    ¬m.Meets .input g ∧ ¬m.Meets .destination g := by
  obtain ⟨w, o, a, b, hcodes, -, -, hjumps, -⟩ := h
  have hno : o.hasDestination = false := by
    rcases hjumps with ⟨rfl, -⟩ | ⟨rfl, -⟩ <;> rfl
  refine ⟨fun hinput => ?_, not_meets_destination hcodes hno⟩
  cases ((meets_input_iff hcodes).mp hinput).1
  cases hno

/-- An attempt fails exactly with the fault of the first obstacle. -/
theorem attempt_error_iff (hm : m.memory.Addressable) :
    m.attempt = .error f ↔ ∃ r, m.MeetsFirst r f := by
  rw [attempt_eq_error_iff]
  constructor
  · rintro (hfetch | ⟨i, x, hfetch, heffect⟩)
    · rcases fetch_eq_error_iff.mp hfetch with hdecode | ⟨i, hdecode, hoperands⟩
      · rcases (decode_error_iff hm).mp hdecode with h | h | h
        · exact ⟨.counter, meetsFirst_of_decode (by decide) h⟩
        · exact ⟨.opcode, meetsFirst_of_decode (by decide) h⟩
        · exact ⟨.mode, meetsFirst_of_decode (by decide) h⟩
      · exact ⟨.parameter, (operands_error_iff hm hdecode).mp hoperands,
          (exists_decode_iff hm).mp ⟨i, hdecode⟩⟩
    -- the operands are found, so the first four obstacles are not there
    · have hearlier := (exists_fetch_iff hm).mp ⟨i, x, hfetch⟩
      rcases (effect_error_iff hfetch).mp heffect with h | ⟨hinput, h⟩ | h
      · exact ⟨.input, h, hearlier⟩
      · refine ⟨.destination, h, fun r hr g => ?_⟩
        by_cases hr4 : r.rank < 4
        · exact hearlier r hr4 g
        · cases r with
          | input => exact hinput g
          | counter | opcode | mode | parameter => exact absurd (by decide) hr4
          | destination | target => exact absurd hr (by decide)
      · refine ⟨.target, h, fun r hr g => ?_⟩
        by_cases hr4 : r.rank < 4
        · exact hearlier r hr4 g
        · cases r with
          | input => exact (meets_target_alone h).1
          | destination => exact (meets_target_alone h).2
          | counter | opcode | mode | parameter => exact absurd (by decide) hr4
          | target => exact absurd hr (by decide)
  · rintro ⟨r, h, hbefore⟩
    by_cases hr3 : r.rank < 3
    · refine .inl (fetch_eq_error_iff.mpr (.inl ((decode_error_iff hm).mpr ?_)))
      cases r with
      | counter => exact .inl h
      | opcode => exact .inr (.inl h)
      | mode => exact .inr (.inr h)
      | parameter | input | destination | target => exact absurd hr3 (by decide)
    · by_cases hparameter : r = .parameter
      · subst hparameter
        obtain ⟨i, hdecode⟩ := (exists_decode_iff hm).mpr hbefore
        exact .inl (fetch_eq_error_iff.mpr (.inr ⟨i, hdecode, (operands_error_iff hm hdecode).mpr h⟩))
      · have hfour : 4 ≤ r.rank := by
          cases r <;> simp_all [Obstacle.rank]
        obtain ⟨i, x, hfetch⟩ := (exists_fetch_iff hm).mpr fun r' hr' => hbefore r' (by omega)
        refine .inr ⟨i, x, hfetch, (effect_error_iff hfetch).mpr ?_⟩
        cases r with
        | input => exact .inl h
        | destination => exact .inr (.inl ⟨hbefore .input (by decide), h⟩)
        | target => exact .inr (.inr h)
        | counter | opcode | mode | parameter => exact absurd hfour (by decide)

section Jump

variable {w : Word} {o : Opcode} {a b : Word}

theorem Source.digit_le_one {k : Nat} (h : m.Source w k a) : w.digit (k + 1) ≤ 1 := by
  obtain ⟨raw, -, ⟨hone, -⟩ | ⟨hzero, -⟩⟩ := h <;> omega

theorem Source.not_offends {k : Nat} {c : Word} (h : m.Source w k a) : ¬m.Offends w o k c := by
  obtain ⟨raw, hraw, hvalue⟩ := h
  rintro ⟨role, -, ⟨hnone, -⟩ | ⟨-, hzero, hc, hout⟩⟩
  · rw [hraw] at hnone
    cases hnone
  · cases hraw.symm.trans hc
    rcases hvalue with ⟨hone, -⟩ | ⟨-, hcell⟩
    · omega
    · have := Memory.cell?_eq_some_bound hcell
      omega

/-- A jump whose operands can be found is carried out unless it is taken to a negative target. -/
theorem attempt_of_jump (hm : m.memory.Addressable) (hcodes : m.Codes w o)
    (hjump : o = .jumpIfTrue ∨ o = .jumpIfFalse) (ha : m.Source w 1 a) (hb : m.Source w 2 b)
    (htarget : o.Jumps a → 0 ≤ b.toInt) : ∃ e, m.attempt = .ok (o, e) := by
  have hplace {k : Nat} (hk : o.role? k ≠ none) : k = 1 ∨ k = 2 := by
    rcases hjump with rfl | rfl <;> rcases k with _ | _ | _ | k <;> simp_all [Opcode.role?, Opcode.parameters]
  cases hattempt : m.attempt with
  | ok attempted =>
      obtain ⟨o', e⟩ := attempted
      obtain ⟨w', hcodes', -⟩ := table_of_attempt hattempt
      cases (hcodes.unique hcodes').2
      exact ⟨e, rfl⟩
  | error f =>
      exfalso
      obtain ⟨r, h, -⟩ := (attempt_error_iff hm).mp hattempt
      cases r with
      | counter =>
          have hlt := (Memory.cell?_eq_some_bound hcodes.1).2
          have hle := h.1
          omega
      | opcode =>
          obtain ⟨w', hw', hno, -⟩ := h
          cases hcodes.1.symm.trans hw'
          exact Word.forall_not_codes_iff.mpr hno o hcodes.2
      | mode =>
          obtain ⟨w', o', k, d, hcodes', hk, hd, htwo, -⟩ := h
          obtain ⟨rfl, rfl⟩ := hcodes.unique hcodes'
          have hone : w.digit (k + 1) ≤ 1 := by
            rcases hplace hk with rfl | rfl
            · exact ha.digit_le_one
            · exact hb.digit_le_one
          omega
      | parameter =>
          obtain ⟨w', o', k, c, hcodes', hoffends, -⟩ := h
          obtain ⟨rfl, rfl⟩ := hcodes.unique hcodes'
          have hk : o.role? k ≠ none := by
            obtain ⟨role, hrole, -⟩ := hoffends
            simp [hrole]
          rcases hplace hk with rfl | rfl
          · exact ha.not_offends hoffends
          · exact hb.not_offends hoffends
      | input =>
          cases ((meets_input_iff hcodes).mp h).1
          rcases hjump with h | h <;> cases h
      | destination =>
          have hno : o.hasDestination = false := by rcases hjump with rfl | rfl <;> rfl
          exact not_meets_destination hcodes hno h
      | target =>
          obtain ⟨hjumps, hneg, -⟩ := (meets_target_iff hcodes ha hb).mp h
          have := htarget hjumps
          omega

theorem step_of_jump (hstatus : m.status ≠ .halted) (hm : m.memory.Addressable) (hcodes : m.Codes w o)
    (hjump : o = .jumpIfTrue ∨ o = .jumpIfFalse) (ha : m.Source w 1 a) (hb : m.Source w 2 b)
    (htarget : o.Jumps a → 0 ≤ b.toInt) :
    m.step.outcome = .ongoing ∧ m.Branches o (o.Jumps a) b m.step.machine := by
  obtain ⟨e, hattempt⟩ := attempt_of_jump hm hcodes hjump ha hb htarget
  obtain ⟨houtcome, hmachine⟩ := step_of_attempt_ok hstatus hattempt
  obtain ⟨w', hcodes', htable, he⟩ := table_of_attempt hattempt
  cases (hcodes.unique hcodes').1
  rw [houtcome, hmachine, he]
  rcases hjump with rfl | rfl
  all_goals
    obtain ⟨a', b', ha', hb', hbranches⟩ := htable
    cases ha.unique ha'
    cases hb.unique hb'
    refine ⟨rfl, ?_⟩
    simpa [Opcode.Jumps] using hbranches

end Jump

/-- **A step fails at the first obstacle.** It fails exactly when one is in the way, with the fault that names
the first. So a jump whose operands are there succeeds if it is taken to a target behind the last cell, and
it succeeds whatever its target if it is not taken. -/
theorem step_fails_at_first_obstacle (m : Machine) (hm : m.status ≠ .halted)
    (hmemory : m.memory.Addressable) :
    (∀ f, m.step.outcome = .faulted f ↔ ∃ r, m.MeetsFirst r f) ∧
    ∀ w o a b, m.Codes w o → o = .jumpIfTrue ∨ o = .jumpIfFalse → m.Source w 1 a → m.Source w 2 b →
      (o.Jumps a → m.memory.size ≤ b.toInt →
        m.step.outcome = .ongoing ∧ (m.step.machine.pc.toNat : Int) = b.toInt) ∧
      (¬o.Jumps a → m.step.outcome = .ongoing ∧ m.step.machine.pc.toNat = m.pc.toNat + o.length) := by
  refine ⟨fun f => ?_, fun w o a b hcodes hjump ha hb => ⟨fun hjumps hlarge => ?_, fun hnot => ?_⟩⟩
  · rw [step_faulted_iff_attempt, attempt_error_iff hmemory]
    exact and_iff_right hm
  · obtain ⟨houtcome, hbranches⟩ := step_of_jump hm hmemory hcodes hjump ha hb (fun _ => by omega)
    exact ⟨houtcome, hbranches.jump hjumps⟩
  · obtain ⟨houtcome, hbranches⟩ := step_of_jump hm hmemory hcodes hjump ha hb (absurd · hnot)
    exact ⟨houtcome, hbranches.pass hnot⟩

/-- Without an input a word cannot be stored, and that its destination is no cell either is not said. -/
theorem step_fails_at_missing_input :
    let m := Machine.load ⟨#[3, 9]⟩
    m.status ≠ .halted ∧ m.memory.Addressable ∧
      (∃ r, m.MeetsFirst r (.missingInput 0)) ∧ m.step.outcome = .faulted (.missingInput 0) ∧
      m.Meets .destination (.outOfBounds 9 2) := by
  intro m
  have hm : m.status ≠ .halted := by decide
  have hmemory : m.memory.Addressable := by decide
  have houtcome : m.step.outcome = .faulted (.missingInput 0) := by decide
  have hcodes : m.Codes 3 .store := by decide
  exact ⟨hm, hmemory, ((step_fails_at_first_obstacle m hm hmemory).1 _).mp houtcome, houtcome,
    3, .store, 1, 9, hcodes, rfl, rfl, by decide, rfl⟩

end Machine

end Intcode
