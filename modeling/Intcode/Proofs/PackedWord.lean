import Mathlib.Algebra.BigOperators.Fin
import Mathlib.Algebra.BigOperators.Intervals
import Mathlib.Data.Int.ModEq
import Mathlib.Tactic.Positivity
import Mathlib.Tactic.Ring
import Intcode.Proofs.Failure

/-! The words that are instructions. A word packs an operation and the modes of its parameters as a decimal
number: the code, a digit for each mode, and what is above these digits. A number has its digits one by one
exactly when it is their sum and a multiple of the next power of ten, so the digits of a packed word are
unique and the multiple is free. Decoding accepts the packed words that stand in a memory and says of any other
place what is wrong with it. -/

open Finset

namespace Intcode

/-- The lowest digits of a number are given ones if it is their sum, each with its power of ten, but for a
multiple of the next power. -/
theorem digits_eq_iff {n : Int} {c : Nat → Int} (hn : 0 ≤ n) (hc : ∀ k, 0 ≤ c k ∧ c k < 10) (count : Nat) :
    (∀ k < count, n / 10 ^ k % 10 = c k) ↔
      ∃ rest : Nat, n = ∑ k ∈ range count, c k * 10 ^ k + rest * 10 ^ count := by
  induction count generalizing n c with
  | zero =>
      obtain ⟨rest, rfl⟩ := Int.eq_ofNat_of_zero_le hn
      simp
  | succ count ih =>
      have hdigits : (∀ k < count + 1, n / 10 ^ k % 10 = c k) ↔
          n % 10 = c 0 ∧ ∀ k < count, n / 10 / 10 ^ k % 10 = c (k + 1) := by
        rw [Nat.forall_lt_succ_left, pow_zero, Int.ediv_one]
        simp only [pow_succ', Int.ediv_ediv_of_nonneg (show (0 : Int) ≤ 10 by decide)]
      have hsum (rest : Nat) : ∑ k ∈ range (count + 1), c k * 10 ^ k + rest * 10 ^ (count + 1) =
          c 0 + 10 * (∑ k ∈ range count, c (k + 1) * 10 ^ k + rest * 10 ^ count) := by
        rw [sum_range_succ', mul_add, mul_sum]
        have hterm (k : Nat) : c (k + 1) * 10 ^ (k + 1) = 10 * (c (k + 1) * 10 ^ k) := by ring
        simp only [hterm, pow_zero, mul_one]
        ring
      have hzero := hc 0
      rw [hdigits, ih (Int.ediv_nonneg hn (by decide)) fun k => hc (k + 1)]
      simp only [hsum]
      constructor
      · rintro ⟨hfirst, rest, hrest⟩
        exact ⟨rest, by omega⟩
      · rintro ⟨rest, hrest⟩
        exact ⟨by omega, rest, by omega⟩

namespace Mode

/-- The digit that codes the mode at a place of a row; there are zeros behind the last. -/
def digitAt (modes : List Mode) (k : Nat) : Int := modes[k]?.elim 0 digit

variable {modes : List Mode}

theorem digitAt_bounds (modes : List Mode) (k : Nat) : 0 ≤ digitAt modes k ∧ digitAt modes k < 10 := by
  unfold digitAt
  cases modes[k]? with
  | none => decide
  | some mode => cases mode <;> decide

theorem sum_digits (modes : List Mode) :
    ∑ k : Fin modes.length, modes[k].digit * 10 ^ (k.val + 2) =
      100 * ∑ k ∈ range modes.length, digitAt modes k * 10 ^ k := by
  rw [Finset.sum_range, mul_sum]
  apply sum_congr rfl
  intro k _
  rw [digitAt, List.getElem?_eq_getElem k.isLt, Option.elim_some, pow_add]
  simp only [Fin.getElem_fin]
  ring

theorem sum_digits_nonneg (modes : List Mode) : 0 ≤ ∑ k ∈ range modes.length, digitAt modes k * 10 ^ k :=
  sum_nonneg fun k _ => mul_nonneg (digitAt_bounds modes k).1 (by positivity)

end Mode

namespace Word

/-- The word packs the code of the operation in its two lowest digits and a mode for each parameter in the digits
above, the first parameter's lowest. -/
def Packs (w : Word) (o : Opcode) (modes : List Mode) : Prop :=
  modes.length = o.length - 1 ∧ ∃ rest : Nat,
    w.toInt = o.code.toInt + ∑ k : Fin modes.length, modes[k].digit * 10 ^ (k.val + 2) +
      rest * 10 ^ (modes.length + 2)

variable {w w' : Word} {o o' : Opcode} {modes modes' : List Mode}

theorem digits_above_iff (w : Word) (modes : List Mode) :
    (∀ k mode, modes[k]? = some mode → w.digit (k + 2) = mode.digit) ↔
      ∀ k < modes.length, w.toInt / 100 / 10 ^ k % 10 = Mode.digitAt modes k := by
  have hdigit (k : Nat) : w.digit (k + 2) = w.toInt / 100 / 10 ^ k % 10 := by
    rw [digit, Int.ediv_ediv_of_nonneg (by decide), pow_add, mul_comm]
    rfl
  simp only [hdigit]
  constructor
  · intro h k hk
    rw [h k _ (List.getElem?_eq_getElem hk), Mode.digitAt, List.getElem?_eq_getElem hk, Option.elim_some]
  · intro h k mode hmode
    rw [h k (List.getElem?_eq_some_iff.mp hmode).1, Mode.digitAt, hmode, Option.elim_some]

/-- A word packs an operation and modes when its digits are those of the code and of the modes. -/
theorem packs_iff :
    w.Packs o modes ↔ w.Codes o ∧ modes.length = o.parameters.length ∧
      ∀ k mode, modes[k]? = some mode → w.digit (k + 2) = mode.digit := by
  have hlength : o.length - 1 = o.parameters.length := rfl
  have hsum := Mode.sum_digits_nonneg modes
  have hcode := o.code_pos
  have hcode' : o.code.toInt < 100 := by cases o <;> decide
  have hpower : (10 : Int) ^ (modes.length + 2) = 100 * 10 ^ modes.length := by
    rw [pow_add, mul_comm]
    rfl
  rw [Packs, hlength, digits_above_iff, Mode.sum_digits, hpower]
  constructor
  · rintro ⟨hcount, rest, hrest⟩
    have hrest' : w.toInt = o.code.toInt + 100 *
        (∑ k ∈ range modes.length, Mode.digitAt modes k * 10 ^ k + rest * 10 ^ modes.length) := by
      rw [hrest]
      ring
    have hnonneg : 0 ≤ (rest : Int) * 10 ^ modes.length := by positivity
    refine ⟨⟨by omega, by omega⟩, hcount, ?_⟩
    exact (digits_eq_iff (by omega) (Mode.digitAt_bounds modes) _).mpr ⟨rest, by omega⟩
  · rintro ⟨⟨hw, hcodes⟩, hcount, hdigits⟩
    obtain ⟨rest, hrest⟩ := (digits_eq_iff (by omega) (Mode.digitAt_bounds modes) _).mp hdigits
    refine ⟨hcount, rest, ?_⟩
    calc
      w.toInt = o.code.toInt + 100 * (w.toInt / 100) := by omega
      _ = o.code.toInt + 100 * ∑ k ∈ range modes.length, Mode.digitAt modes k * 10 ^ k +
          rest * (100 * 10 ^ modes.length) := by
        rw [hrest]
        ring

/-- What a word packs is unique. -/
theorem Packs.unique (h : w.Packs o modes) (h' : w.Packs o' modes') : o = o' ∧ modes = modes' := by
  obtain ⟨hcodes, hlength, hdigits⟩ := packs_iff.mp h
  obtain ⟨hcodes', hlength', hdigits'⟩ := packs_iff.mp h'
  cases hcodes.unique hcodes'
  refine ⟨rfl, List.ext_getElem (hlength.trans hlength'.symm) fun k hk hk' => ?_⟩
  have hdigit := hdigits k _ (List.getElem?_eq_getElem hk)
  have hdigit' := hdigits' k _ (List.getElem?_eq_getElem hk')
  exact Mode.digit_injective (hdigit.symm.trans hdigit')

theorem digit_congr {n : Nat} (h : w'.toInt % 10 ^ n = w.toInt % 10 ^ n) {k : Nat} (hk : k < n) :
    w'.digit k = w.digit k := by
  obtain ⟨j, rfl⟩ := Nat.exists_eq_add_of_lt hk
  obtain ⟨t, ht⟩ := Int.modEq_iff_add_fac.mp h.symm
  have hpower : w'.toInt = w.toInt + 10 ^ k * (10 * (10 ^ j * t)) := by
    rw [ht]
    ring
  calc
    w'.digit k = (w.toInt + 10 ^ k * (10 * (10 ^ j * t))) / 10 ^ k % 10 := by rw [digit, hpower]
    _ = (w.toInt / 10 ^ k + 10 * (10 ^ j * t)) % 10 := by rw [Int.add_mul_ediv_left _ _ (by positivity)]
    _ = w.digit k := Int.add_mul_emod_self_left _ _ _

/-- The digits above the last mode are free. -/
theorem Packs.of_emod (h : w.Packs o modes) (hw : 0 ≤ w'.toInt)
    (hsame : w'.toInt % 10 ^ (o.length + 1) = w.toInt % 10 ^ (o.length + 1)) : w'.Packs o modes := by
  obtain ⟨⟨-, hcode⟩, hlength, hdigits⟩ := packs_iff.mp h
  have hhundred : (100 : Int) ∣ 10 ^ (o.length + 1) := by
    rw [Opcode.length, pow_add _ _ 2]
    exact Dvd.intro_left _ rfl
  refine packs_iff.mpr ⟨⟨hw, ?_⟩, hlength, fun k mode hmode => ?_⟩
  · rw [← hcode, ← Int.emod_emod_of_dvd _ hhundred, hsame, Int.emod_emod_of_dvd _ hhundred]
  · have hk := (List.getElem?_eq_some_iff.mp hmode).1
    rw [digit_congr hsame (by rw [Opcode.length]; omega), hdigits k mode hmode]

end Word

namespace Instruction

/-- What is wrong with a place at which a memory holds no instruction, and the fault that says so: it is behind
the last cell, its word codes no operation, or the digit of a parameter codes no mode. Of several such
parameters the fault names the digit of the first. -/
inductive Rejected (m : Memory) (pc : UInt64) : Fault → Prop where
  | counter {a : Word} (hpc : m.size ≤ pc.toNat) (ha : a.toInt = (pc.toNat : Int).bmod (2 ^ 64)) :
      Rejected m pc (.outOfBounds a m.size)
  | opcode {w : Word} (hw : m.cell? pc.toNat = some w)
      (hcode : w.toInt < 0 ∨ ∀ o : Opcode, w.toInt % 100 ≠ o.code.toInt) :
      Rejected m pc (.invalidOpcode w pc)
  | mode {w digit : Word} {o : Opcode} {i : Nat} (hw : m.cell? pc.toNat = some w) (hnonneg : 0 ≤ w.toInt)
      (hcode : w.toInt % 100 = o.code.toInt) (hi : 1 ≤ i ∧ i ≤ o.length - 1)
      (hdigit : digit.toInt = w.toInt / 10 ^ (i + 1) % 10) (hlarge : 1 < digit.toInt)
      (hleast : ∀ j, 1 ≤ j → j < i → w.toInt / 10 ^ (j + 1) % 10 ≤ 1) :
      Rejected m pc (.invalidMode w pc digit)

variable {m : Memory} {pc : UInt64} {o : Opcode} {modes : List Mode} {f : Fault} {w : Word}

theorem toInt_counter_eq_bmod (pc : UInt64) : pc.toInt64.toInt = (pc.toNat : Int).bmod (2 ^ 64) :=
  BitVec.toInt_eq_toNat_bmod pc.toBitVec

theorem exists_decode_packed (hm : m.Addressable) :
    (∃ i, decode m pc = .ok i ∧ i.opcode = o ∧ i.modes = modes) ↔
      pc.toNat < m.size ∧ ∃ w, m.cell? pc.toNat = some w ∧ w.Packs o modes := by
  simp only [decode_eq_ok_iff, Memory.cell?_counter hm]
  constructor
  · rintro ⟨i, ⟨hcell, hcodes, hmodes⟩, rfl, rfl⟩
    have hpc := (Memory.cell?_eq_some_bound hcell).2
    exact ⟨by omega, i.word, hcell, Word.packs_iff.mpr ⟨hcodes, i.length_modes, hmodes⟩⟩
  · rintro ⟨-, w, hcell, hpacks⟩
    obtain ⟨hcodes, hlength, hmodes⟩ := Word.packs_iff.mp hpacks
    exact ⟨⟨w, o, modes, hlength⟩, ⟨hcell, hcodes, hmodes⟩, rfl, rfl⟩

/-- The fault of a place is that of the first obstacle in the way of a machine that stands there. -/
theorem decode_error_iff_rejected (hm : m.Addressable) : decode m pc = .error f ↔ Rejected m pc f := by
  let there : Machine := { memory := m, pc }
  have hmeets : decode m pc = .error f ↔
      there.Meets .counter f ∨ there.Meets .opcode f ∨ there.Meets .mode f := Machine.decode_error_iff (m := there) hm
  have hcast := toInt_counter_eq_bmod pc
  have hcodes (n : Int) : ¬(1 ≤ n ∧ n ≤ 8 ∨ n = 99) ↔ ∀ o : Opcode, n ≠ o.code.toInt := by
    rw [← Opcode.exists_code_iff, not_exists]
  rw [hmeets]
  constructor
  · rintro (⟨hpc, rfl⟩ | ⟨w, hw, hno, rfl⟩ | ⟨w, o, i, digit, ⟨hw, hcode⟩, hrole, hdigit, hlarge, -, hleast, rfl⟩)
    · exact .counter hpc hcast
    · exact .opcode hw (by rwa [← hcodes])
    · exact .mode hw hcode.1 hcode.2 (Opcode.role?_ne_none_iff.mp hrole) hdigit (by omega) hleast
  · intro h
    cases h with
    | @counter a hpc ha =>
        cases Int64.toInt_inj.mp (ha.trans hcast.symm)
        exact .inl ⟨hpc, rfl⟩
    | @opcode w hw hcode => exact .inr (.inl ⟨w, hw, by rwa [hcodes], rfl⟩)
    | @mode w digit o i hw hnonneg hcode hi hdigit hlarge hleast =>
        have hten : digit.toInt < 10 := by
          rw [hdigit]
          exact w.digit_lt_ten (i + 1)
        exact .inr (.inr ⟨w, o, i, digit, ⟨hw, hnonneg, hcode⟩, Opcode.role?_ne_none_iff.mpr hi, hdigit, by omega,
          by omega, hleast, rfl⟩)

/-- **Decoding accepts exactly the packed words.** In a memory of at most `2 ^ 63 - 1` cells, at any counter: an
instruction with an operation and modes is found exactly when the counter is that of a cell and the word in the
cell packs them. What a word packs is unique, and the digits above the last mode are free. At every other place
there is one fault, which says what is wrong with it; behind the last cell that is the counter itself, wrapped to
a signed word, and no cell is read in its stead. -/
theorem decode_accepts_packed (m : Memory) (hm : m.size ≤ 2 ^ 63 - 1) (pc : UInt64) :
    (∀ o modes, (∃ i, decode m pc = .ok i ∧ i.opcode = o ∧ i.modes = modes) ↔
      pc.toNat < m.size ∧ ∃ w, m.cell? pc.toNat = some w ∧ w.Packs o modes) ∧
    (∀ i, decode m pc = .ok i → m.cell? pc.toNat = some i.word) ∧
    (∀ f, decode m pc = .error f ↔ Rejected m pc f) ∧
    (∀ (w : Word) (o o' : Opcode) (modes modes' : List Mode),
      w.Packs o modes → w.Packs o' modes' → o = o' ∧ modes = modes') ∧
    ∀ (w w' : Word) (o : Opcode) (modes : List Mode), w.Packs o modes → 0 ≤ w'.toInt →
      w'.toInt % 10 ^ (o.length + 1) = w.toInt % 10 ^ (o.length + 1) → w'.Packs o modes := by
  have haddressable : m.Addressable := by
    unfold Memory.Addressable
    omega
  refine ⟨fun o modes => exists_decode_packed haddressable, fun i hi => ?_,
    fun f => decode_error_iff_rejected haddressable, fun w o o' modes modes' => Word.Packs.unique,
    fun w w' o modes => Word.Packs.of_emod⟩
  rw [← Memory.cell?_counter haddressable]
  exact (decode_eq_ok_iff.mp hi).1

/-- Above the three modes of a product there may be more digits; a digit two in the place of a mode is at
fault. -/
theorem decode_accepts_packed_many_digits :
    let m : Memory := ⟨#[7701002, 4, 3, 4, 21202]⟩
    m.size ≤ 2 ^ 63 - 1 ∧
      (∃ i, decode m 0 = .ok i ∧ i.opcode = .mul ∧ i.modes = [.position, .immediate, .position]) ∧
      decode m 4 = .error (.invalidMode 21202 4 2) ∧ decode m 18446744073709551615 = .error (.outOfBounds (-1) 5) := by
  intro m
  have hm : m.size ≤ 2 ^ 63 - 1 := by decide
  have hpacks : (7701002 : Word).Packs .mul [.position, .immediate, .position] := ⟨rfl, 77, by decide⟩
  have hmode : Rejected m 4 (.invalidMode 21202 4 2) :=
    .mode (o := .mul) (i := 1) rfl (by decide) (by decide) (by decide) (by decide) (by decide)
      fun j hj hj' => absurd hj' (Nat.not_lt.mpr hj)
  refine ⟨hm, ?_, ?_, ?_⟩
  · exact ((decode_accepts_packed m hm 0).1 _ _).mpr ⟨by decide, _, rfl, hpacks⟩
  · exact ((decode_accepts_packed m hm 4).2.2.1 _).mpr hmode
  · exact ((decode_accepts_packed m hm 18446744073709551615).2.2.1 _).mpr (.counter (by decide) (by decide))

end Instruction

end Intcode
