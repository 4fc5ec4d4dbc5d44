import Intcode.Instruction.Basic
import Intcode.Proofs.Memory

/-! Decoding, said of decimal digits. A word that codes an operation is not negative, so the truncated
quotients and remainders that take it apart are those of its digits; the digits above the two of the
code are looked at one by one, as many as there are parameters. -/

namespace Intcode

section First

variable {P Q : Nat → Prop}

/-- A first place at which `Q` fails is the place zero if it fails there. -/
theorem exists_first_zero (hQ : ¬Q 0) : (∃ k, P k ∧ ∀ j < k, Q j) ↔ P 0 := by
  constructor
  · rintro ⟨k, hk, hbelow⟩
    cases k with
    | zero => exact hk
    | succ k => exact absurd (hbelow 0 (Nat.succ_pos k)) hQ
  · intro h
    exact ⟨0, h, fun j hj => absurd hj (Nat.not_lt_zero j)⟩

/-- If it does not fail there, the first place is looked for among the others. -/
theorem exists_first_succ (hP : ¬P 0) (hQ : Q 0) :
    (∃ k, P k ∧ ∀ j < k, Q j) ↔ ∃ k, P (k + 1) ∧ ∀ j < k, Q (j + 1) := by
  rw [← Nat.or_exists_add_one]
  constructor
  · rintro (⟨hzero, -⟩ | ⟨k, hk, hbelow⟩)
    · exact absurd hzero hP
    · exact ⟨k, hk, fun j hj => hbelow (j + 1) (Nat.succ_lt_succ hj)⟩
  · rintro ⟨k, hk, hbelow⟩
    refine .inr ⟨k, hk, fun j hj => ?_⟩
    cases j with
    | zero => exact hQ
    | succ j => exact hbelow j (Nat.lt_of_succ_lt_succ hj)

end First

namespace Word

/-- The decimal digit of a word that has `k` digits below it. -/
def digit (w : Word) (k : Nat) : Int := w.toInt / 10 ^ k % 10

/-- The word is not negative and its two lowest digits are the code of the operation. -/
def Codes (w : Word) (o : Opcode) : Prop := 0 ≤ w.toInt ∧ w.toInt % 100 = o.code.toInt

instance (w : Word) (o : Opcode) : Decidable (w.Codes o) :=
  inferInstanceAs (Decidable (0 ≤ w.toInt ∧ w.toInt % 100 = o.code.toInt))

variable {w : Word}

theorem beq_zero_iff : (w == 0) = true ↔ w.toInt = 0 := by
  rw [beq_iff_eq, ← Int64.toInt_inj, Int64.toInt_zero]

theorem bne_zero_iff : (w != 0) = true ↔ w.toInt ≠ 0 := by
  rw [bne_iff_ne, Ne, Ne, ← Int64.toInt_inj, Int64.toInt_zero]

theorem digit_nonneg (w : Word) (k : Nat) : 0 ≤ w.digit k := Int.emod_nonneg _ (by decide)

theorem digit_lt_ten (w : Word) (k : Nat) : w.digit k < 10 := Int.emod_lt_of_pos _ (by decide)

theorem toInt_mod_ten (hw : 0 ≤ w.toInt) : (w % 10).toInt = w.digit 0 := by
  rw [Int64.toInt_mod, Int.tmod_eq_emod_of_nonneg hw, digit, Int.pow_zero, Int.ediv_one]
  rfl

theorem toInt_div_ten (hw : 0 ≤ w.toInt) : (w / 10).toInt = w.toInt / 10 := by
  rw [Int64.toInt_div_of_ne_right _ _ (by decide), Int.tdiv_eq_ediv_of_nonneg hw]
  rfl

theorem toInt_div_hundred (hw : 0 ≤ w.toInt) : (w / 100).toInt = w.toInt / 100 := by
  rw [Int64.toInt_div_of_ne_right _ _ (by decide), Int.tdiv_eq_ediv_of_nonneg hw]
  rfl

theorem digit_div_ten (hw : 0 ≤ w.toInt) (k : Nat) : digit (w / 10) k = w.digit (k + 1) := by
  rw [digit, digit, toInt_div_ten hw, Int.ediv_ediv_of_nonneg (by decide), Int.pow_succ']

theorem digit_div_hundred (hw : 0 ≤ w.toInt) (k : Nat) :
    digit (w / 100) k = w.digit (k + 2) := by
  rw [digit, digit, toInt_div_hundred hw, Int.ediv_ediv_of_nonneg (by decide), Int.pow_succ',
    Int.pow_succ', ← Int.mul_assoc]
  rfl

end Word

namespace Opcode

theorem ofCode?_eq_some_iff {c : Word} {o : Opcode} : ofCode? c = some o ↔ c = o.code := by
  constructor
  · intro h
    have hfind : all.find? (fun opcode => opcode.code == c) = some o := h
    have hcode := List.find?_some hfind
    exact (eq_of_beq hcode).symm
  · intro h
    subst h
    cases o <;> decide

theorem code_pos (o : Opcode) : 0 < o.code.toInt := by cases o <;> decide

theorem code_inj {o o' : Opcode} (h : o.code.toInt = o'.code.toInt) : o = o' := by
  have hsome := ofCode?_eq_some_iff.mpr (Int64.toInt_inj.mp h)
  rw [ofCode?_eq_some_iff.mpr rfl] at hsome
  exact Option.some.inj hsome

/-- The remainder of a negative word is not positive, so it is no code. -/
theorem ofCode?_mod_eq_some_iff {w : Word} {o : Opcode} :
    ofCode? (w % 100) = some o ↔ w.Codes o := by
  have hmod : (w % 100).toInt = w.toInt.tmod 100 := Int64.toInt_mod w 100
  rw [ofCode?_eq_some_iff, ← Int64.toInt_inj, hmod, Word.Codes]
  by_cases hw : 0 ≤ w.toInt
  · rw [Int.tmod_eq_emod_of_nonneg hw]
    simp [hw]
  · have hpos := o.code_pos
    have hneg := Int.tmod_nonneg 100 (show 0 ≤ -w.toInt by omega)
    rw [Int.neg_tmod] at hneg
    constructor
    · intro h
      omega
    · intro h
      exact absurd h.1 hw

end Opcode

theorem Word.Codes.unique {w : Word} {o o' : Opcode} (h : w.Codes o) (h' : w.Codes o') : o = o' :=
  Opcode.code_inj (h.2.symm.trans h'.2)

namespace Mode

/-- The digit that codes a mode. -/
def digit : Mode → Int
  | position => 0
  | immediate => 1

theorem digit_le_one (mode : Mode) : mode.digit ≤ 1 := by cases mode <;> decide

theorem digit_injective {mode mode' : Mode} (h : mode.digit = mode'.digit) : mode = mode' := by
  revert h
  cases mode <;> cases mode' <;> decide

theorem ofDigit?_eq_some_iff {d : Word} {mode : Mode} :
    ofDigit? d = some mode ↔ d.toInt = mode.digit := by
  unfold ofDigit?
  split
  · rename_i h
    subst h
    cases mode <;> decide
  · rename_i h0
    split
    · rename_i h
      subst h
      cases mode <;> decide
    · rename_i h1
      have hne0 : d.toInt ≠ 0 := fun h => h0 (Int64.toInt_inj.mp h)
      have hne1 : d.toInt ≠ 1 := fun h => h1 (Int64.toInt_inj.mp h)
      cases mode <;> simp [digit, hne0, hne1]

theorem ofDigit?_eq_none_iff {d : Word} (hd : 0 ≤ d.toInt) : ofDigit? d = none ↔ 2 ≤ d.toInt := by
  have hposition := @ofDigit?_eq_some_iff d .position
  have himmediate := @ofDigit?_eq_some_iff d .immediate
  simp only [digit] at hposition himmediate
  cases h : ofDigit? d with
  | none =>
      simp only [h, reduceCtorEq, false_iff] at hposition himmediate
      simp only [true_iff]
      omega
  | some mode =>
      cases mode <;> simp [h] at hposition himmediate <;> simp <;> omega

variable {w : Word} {count : Nat}

theorem ofDigits_eq_ok_iff {modes : List Mode} (hw : 0 ≤ w.toInt) :
    ofDigits w count = .ok modes ↔
      modes.length = count ∧ ∀ k mode, modes[k]? = some mode → w.digit k = mode.digit := by
  induction count generalizing w modes with
  | zero =>
      cases modes <;> simp [ofDigits]
  | succ count ih =>
      have hdiv : 0 ≤ (w / 10).toInt := by
        rw [Word.toInt_div_ten hw]
        omega
      have hfirst := @ofDigit?_eq_some_iff (w % 10)
      rw [Word.toInt_mod_ten hw] at hfirst
      rw [ofDigits]
      cases modes with
      | nil =>
          cases ofDigit? (w % 10) with
          | none => simp
          | some mode => cases ofDigits (w / 10) count <;> simp
      | cons mode modes =>
          have hcons : (∀ k md, (mode :: modes)[k]? = some md → w.digit k = md.digit) ↔
              w.digit 0 = mode.digit ∧
                ∀ k md, modes[k]? = some md → Word.digit (w / 10) k = md.digit := by
            rw [← Nat.and_forall_add_one]
            simp [Word.digit_div_ten hw]
          rw [hcons, ← hfirst, List.length_cons, Nat.add_right_cancel_iff, and_left_comm, ← ih hdiv]
          cases ofDigit? (w % 10) with
          | none => simp
          | some first => cases ofDigits (w / 10) count <;> simp

theorem ofDigits_eq_error_iff {d : Word} (hw : 0 ≤ w.toInt) :
    ofDigits w count = .error d ↔
      ∃ k < count, d.toInt = w.digit k ∧ 2 ≤ w.digit k ∧ ∀ j < k, w.digit j ≤ 1 := by
  induction count generalizing w with
  | zero => simp [ofDigits]
  | succ count ih =>
      have hdiv : 0 ≤ (w / 10).toInt := by
        rw [Word.toInt_div_ten hw]
        omega
      have hnone := ofDigit?_eq_none_iff (d := w % 10)
        (by rw [Word.toInt_mod_ten hw]; exact Word.digit_nonneg w 0)
      rw [Word.toInt_mod_ten hw] at hnone
      have hrest := ih (w := w / 10) hdiv
      simp only [Word.digit_div_ten hw] at hrest
      let P (k : Nat) : Prop := k < count + 1 ∧ d.toInt = w.digit k ∧ 2 ≤ w.digit k
      have hassoc : (∃ k < count + 1, d.toInt = w.digit k ∧ 2 ≤ w.digit k ∧ ∀ j < k, w.digit j ≤ 1) ↔
          ∃ k, P k ∧ ∀ j < k, w.digit j ≤ 1 := by
        simp only [P, and_assoc]
      rw [ofDigits, hassoc]
      cases hfirst : ofDigit? (w % 10) with
      | none =>
          have htwo := hnone.mp hfirst
          rw [exists_first_zero (by omega), Except.error.injEq, ← Int64.toInt_inj, Word.toInt_mod_ten hw]
          simp [P, htwo, eq_comm]
      | some mode =>
          have hone : ¬2 ≤ w.digit 0 := by
            rw [← hnone, hfirst]
            simp
          rw [exists_first_succ (fun h => hone h.2.2) (by omega)]
          simp only [P, and_assoc, Nat.add_lt_add_iff_right]
          rw [← hrest]
          cases ofDigits (w / 10) count <;> simp

end Mode

namespace Instruction

variable {m : Memory} {w : Word} {pc : UInt64}

/-- The modes of an instruction are the digits of its word above the code. -/
def HasModes (i : Instruction) : Prop :=
  ∀ k mode, i.modes[k]? = some mode → i.word.digit (k + 2) = mode.digit

theorem ofDigits_div_hundred {modes : List Mode} {count : Nat} (hw : 0 ≤ w.toInt) :
    Mode.ofDigits (w / 100) count = .ok modes ↔
      modes.length = count ∧ ∀ k mode, modes[k]? = some mode → w.digit (k + 2) = mode.digit := by
  have hdiv : 0 ≤ (w / 100).toInt := by
    rw [Word.toInt_div_hundred hw]
    omega
  rw [Mode.ofDigits_eq_ok_iff hdiv]
  simp only [Word.digit_div_hundred hw]

theorem ofDigits_div_hundred_error {d : Word} {count : Nat} (hw : 0 ≤ w.toInt) :
    Mode.ofDigits (w / 100) count = .error d ↔ ∃ k < count, d.toInt = w.digit (k + 2) ∧
      2 ≤ w.digit (k + 2) ∧ ∀ j < k, w.digit (j + 2) ≤ 1 := by
  have hdiv : 0 ≤ (w / 100).toInt := by
    rw [Word.toInt_div_hundred hw]
    omega
  rw [Mode.ofDigits_eq_error_iff hdiv]
  simp only [Word.digit_div_hundred hw]

theorem ofWord_eq_ok_iff {i : Instruction} :
    ofWord w pc = .ok i ↔ i.word = w ∧ w.Codes i.opcode ∧ i.HasModes := by
  unfold ofWord
  split
  · rename_i hnone
    have hno : ¬w.Codes i.opcode := by
      rw [← Opcode.ofCode?_mod_eq_some_iff, hnone]
      simp
    simp [hno]
  · rename_i o hcode
    have hcodes := Opcode.ofCode?_mod_eq_some_iff.mp hcode
    split
    · rename_i d herror
      simp only [reduceCtorEq, false_iff]
      rintro ⟨rfl, hi, hmodes⟩
      have hok := (ofDigits_div_hundred hi.1).mpr ⟨i.length_modes, hmodes⟩
      rw [hi.unique hcodes, herror] at hok
      cases hok
    · rename_i modes hok
      have hmodes := (ofDigits_div_hundred hcodes.1).mp hok
      constructor
      · intro h
        cases h
        exact ⟨rfl, hcodes, hmodes.2⟩
      · rintro ⟨rfl, hi, hmodes'⟩
        obtain ⟨word, opcode, modes', hlength⟩ := i
        cases hi.unique hcodes
        have hok' := (ofDigits_div_hundred hi.1).mpr ⟨hlength, hmodes'⟩
        rw [hok] at hok'
        cases hok'
        rfl

/-- The word codes no operation, or the first mode digit that codes no mode is at fault. -/
theorem ofWord_eq_error_iff {f : Fault} :
    ofWord w pc = .error f ↔ ((∀ o, ¬w.Codes o) ∧ f = .invalidOpcode w pc) ∨
      ∃ o, w.Codes o ∧ ∃ k < o.parameters.length, ∃ d : Word, d.toInt = w.digit (k + 2) ∧
        2 ≤ w.digit (k + 2) ∧ (∀ j < k, w.digit (j + 2) ≤ 1) ∧ f = .invalidMode w pc d := by
  unfold ofWord
  split
  · rename_i hnone
    have hno : ∀ o, ¬w.Codes o := fun o => by
      rw [← Opcode.ofCode?_mod_eq_some_iff, hnone]
      simp
    simp [hno, eq_comm]
  · rename_i o hcode
    have hcodes := Opcode.ofCode?_mod_eq_some_iff.mp hcode
    split
    · rename_i d herror
      have hd := (ofDigits_div_hundred_error hcodes.1).mp herror
      rw [Except.error.injEq]
      constructor
      · rintro rfl
        obtain ⟨k, hk, hdigit, htwo, hbelow⟩ := hd
        exact .inr ⟨o, hcodes, k, hk, d, hdigit, htwo, hbelow, rfl⟩
      · rintro (⟨hno, -⟩ | ⟨o', hcodes', k, hk, d', hdigit, htwo, hbelow, rfl⟩)
        · exact absurd hcodes (hno o)
        · cases hcodes.unique hcodes'
          have herror' := (ofDigits_div_hundred_error hcodes.1).mpr ⟨k, hk, hdigit, htwo, hbelow⟩
          rw [herror] at herror'
          cases herror'
          rfl
    · rename_i modes hok
      simp only [reduceCtorEq, false_iff]
      rintro (⟨hno, -⟩ | ⟨o', hcodes', k, hk, d', hdigit, htwo, hbelow, rfl⟩)
      · exact absurd hcodes (hno o)
      · cases hcodes.unique hcodes'
        have herror := (ofDigits_div_hundred_error hcodes.1).mpr ⟨k, hk, hdigit, htwo, hbelow⟩
        rw [hok] at herror
        cases herror

theorem decode_eq_ok_iff {i : Instruction} :
    decode m pc = .ok i ↔
      m.cell? pc.toInt64.toInt = some i.word ∧ i.word.Codes i.opcode ∧ i.HasModes := by
  unfold decode
  cases hread : m.read pc.toInt64 with
  | error f =>
      rw [(Memory.read_eq_error_iff.mp hread).1]
      simp
  | ok w =>
      rw [Memory.read_eq_ok_iff.mp hread, Option.some_inj, ofWord_eq_ok_iff]
      constructor
      · rintro ⟨rfl, h⟩
        exact ⟨rfl, h⟩
      · rintro ⟨rfl, h⟩
        exact ⟨rfl, h⟩

theorem decode_eq_error_iff {f : Fault} :
    decode m pc = .error f ↔
      (m.cell? pc.toInt64.toInt = none ∧ f = m.outOfBounds pc.toInt64) ∨
        ∃ w, m.cell? pc.toInt64.toInt = some w ∧ ofWord w pc = .error f := by
  unfold decode
  cases hread : m.read pc.toInt64 with
  | error g =>
      obtain ⟨hnone, rfl⟩ := Memory.read_eq_error_iff.mp hread
      simp [hnone, eq_comm]
  | ok w => simp [Memory.read_eq_ok_iff.mp hread]

end Instruction

end Intcode
