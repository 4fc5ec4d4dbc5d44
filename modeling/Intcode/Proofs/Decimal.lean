import Mathlib.Data.List.Basic
import Mathlib.Algebra.Group.Int.Defs
import Mathlib.Algebra.Group.Nat.Defs
import Intcode.Word

/-! Decimal forms. Reading undoes writing, and a text that can be read is the written form of its value unless
it has a plus sign, a zero too many in front, or a minus sign before zero. -/

namespace Intcode

namespace Text.Decimal

variable {c : Char} {cs : List Char} {n : Nat} {k : Int}

/-! ### Digits -/

theorem digitChar_of_isDigit (hc : c.isDigit = true) : Nat.digitChar (c.toNat - 48) = c := by
  have hrange : 48 ≤ c.toNat ∧ c.toNat ≤ 57 := Char.isDigit_iff_toNat.mp hc
  rw [← Char.toNat_inj, Nat.toNat_digitChar_of_lt_ten (by omega)]
  omega

/-- Digits behind a number that is not zero are those of the value that they have there. -/
theorem toDigits_append (hn : 0 < n) (hcs : ∀ c ∈ cs, c.isDigit = true) :
    Nat.toDigits 10 n ++ cs = Nat.toDigits 10 (Nat.ofDigitChars 10 cs n) := by
  induction cs generalizing n with
  | nil => rw [Nat.ofDigitChars_nil, List.append_nil]
  | cons c cs ih =>
      have hc := hcs c List.mem_cons_self
      have hrange : 48 ≤ c.toNat ∧ c.toNat ≤ 57 := Char.isDigit_iff_toNat.mp hc
      have hlast : Nat.toDigits 10 (c.toNat - 48) = [c] := by
        rw [Nat.toDigits_of_lt_base (by omega), digitChar_of_isDigit hc]
      have hrest := ih (n := 10 * n + (c.toNat - 48)) (by omega) fun d hd => hcs d (List.mem_cons_of_mem c hd)
      rw [Nat.ofDigitChars_cons]
      calc
        Nat.toDigits 10 n ++ c :: cs = Nat.toDigits 10 n ++ [c] ++ cs := by simp
        _ = Nat.toDigits 10 (10 * n + (c.toNat - 48)) ++ cs := by
          rw [← hlast, Nat.toDigits_append_toDigits (by decide) hn (by omega)]
        _ = Nat.toDigits 10 (Nat.ofDigitChars 10 cs (10 * n + (c.toNat - 48))) := hrest

/-- The digits of a number that is not zero do not begin with a zero. -/
theorem head?_toDigits (hn : 0 < n) : (Nat.toDigits 10 n).head? ≠ some '0' := by
  induction n using Nat.strongRecOn with
  | ind n ih =>
      rw [Nat.toDigits_eq_if (by decide)]
      split
      · rename_i hlt
        intro hhead
        have hzero := congrArg Char.toNat (Option.some.inj hhead)
        rw [Nat.toNat_digitChar_of_lt_ten hlt] at hzero
        have hval : '0'.toNat = 48 := rfl
        omega
      · rename_i hge
        rw [List.head?_append_of_ne_nil _ Nat.toDigits_ne_nil]
        exact ih (n / 10) (by omega) (by omega)

theorem isDigit_toDigits (hc : c ∈ Nat.toDigits 10 n) : c.isDigit = true :=
  Nat.isDigit_of_mem_toDigits (by decide) (by decide) hc

theorem toNat?_eq_some_iff :
    toNat? cs = some n ↔ cs ≠ [] ∧ (∀ c ∈ cs, c.isDigit = true) ∧ Nat.ofDigitChars 10 cs 0 = n := by
  unfold toNat?
  split
  · rename_i h
    simp only [Bool.and_eq_true, Bool.not_eq_true', List.isEmpty_eq_false_iff, List.all_eq_true] at h
    rw [Option.some_inj]
    exact ⟨fun hn => ⟨h.1, h.2, hn⟩, fun hn => hn.2.2⟩
  · rename_i h
    simp only [Bool.and_eq_true, Bool.not_eq_true', List.isEmpty_eq_false_iff, List.all_eq_true] at h
    simp only [reduceCtorEq, false_iff]
    rintro ⟨hne, hdigits, -⟩
    exact h ⟨hne, hdigits⟩

theorem toNat?_toDigits (n : Nat) : toNat? (Nat.toDigits 10 n) = some n :=
  toNat?_eq_some_iff.mpr ⟨Nat.toDigits_ne_nil, fun _ hc => isDigit_toDigits hc, Nat.ofDigitChars_ten_toDigits⟩

/-- A row of digits without a zero too many is the written form of its value. -/
theorem toDigits_of_toNat? (h : toNat? cs = some n) (hzero : ∀ c rest, cs ≠ '0' :: c :: rest) :
    Nat.toDigits 10 n = cs := by
  obtain ⟨hne, hdigits, rfl⟩ := toNat?_eq_some_iff.mp h
  cases cs with
  | nil => exact absurd rfl hne
  | cons c cs =>
      have hc := hdigits c List.mem_cons_self
      by_cases hfirst : c = '0'
      · subst hfirst
        cases cs with
        | nil => rfl
        | cons d rest => exact absurd rfl (hzero d rest)
      · have hrange : 48 ≤ c.toNat ∧ c.toNat ≤ 57 := Char.isDigit_iff_toNat.mp hc
        have hpos : c.toNat ≠ 48 := fun heq => hfirst (Char.toNat_inj.mp heq)
        have happend := toDigits_append (n := c.toNat - 48) (by omega)
          fun d hd => hdigits d (List.mem_cons_of_mem c hd)
        rw [Nat.toDigits_of_lt_base (by omega), digitChar_of_isDigit hc] at happend
        rw [Nat.ofDigitChars_cons, Nat.mul_zero, Nat.zero_add]
        exact happend.symm

/-! ### Signs -/

/-- After a sign, if there is one, a zero stands before another character. -/
def LeadingZero (cs : List Char) : Prop :=
  ∃ sign c rest, (sign = [] ∨ sign = ['-'] ∨ sign = ['+']) ∧ cs = sign ++ '0' :: c :: rest

/-- There is no plus sign, no zero too many in front, and no minus sign before zero alone. -/
def Plain (cs : List Char) : Prop := '+' ∉ cs ∧ ¬LeadingZero cs ∧ cs ≠ ['-', '0']

/-- What stands behind the sign, if there is one. -/
def unsigned : List Char → List Char
  | '-' :: cs => cs
  | '+' :: cs => cs
  | cs => cs

theorem leadingZero_iff : LeadingZero cs ↔ (unsigned cs).head? = some '0' ∧ 2 ≤ (unsigned cs).length := by
  have hzero (ds : List Char) : ds.head? = some '0' ∧ 2 ≤ ds.length ↔ ∃ c rest, ds = '0' :: c :: rest := by
    constructor
    · intro ⟨hhead, hlength⟩
      match ds, hhead, hlength with
      | d :: c :: rest, hhead, _ =>
          cases hhead
          exact ⟨c, rest, rfl⟩
    · rintro ⟨c, rest, rfl⟩
      exact ⟨rfl, by simp⟩
  rw [hzero]
  constructor
  · rintro ⟨sign, c, rest, rfl | rfl | rfl, rfl⟩ <;> exact ⟨c, rest, rfl⟩
  · rintro ⟨c, rest, h⟩
    unfold unsigned at h
    split at h
    · exact ⟨['-'], c, rest, .inr (.inl rfl), by rw [h]; rfl⟩
    · exact ⟨['+'], c, rest, .inr (.inr rfl), by rw [h]; rfl⟩
    · exact ⟨[], c, rest, .inl rfl, h⟩

instance (cs : List Char) : Decidable (LeadingZero cs) := decidable_of_iff _ leadingZero_iff.symm

instance (cs : List Char) : Decidable (Plain cs) :=
  inferInstanceAs (Decidable ('+' ∉ cs ∧ ¬LeadingZero cs ∧ cs ≠ ['-', '0']))

theorem toInt?_of_isDigit (h : ∀ c ∈ cs, c.isDigit = true) : toInt? cs = (toNat? cs).map Int.ofNat := by
  unfold toInt?
  split
  · cases h '+' List.mem_cons_self
  · cases h '-' List.mem_cons_self
  · cases toNat? cs <;> rfl

theorem toInt?_ofInt (k : Int) : toInt? (ofInt k) = some k := by
  cases k with
  | ofNat n =>
      rw [ofInt, toInt?_of_isDigit fun _ hc => isDigit_toDigits hc, toNat?_toDigits]
      rfl
  | negSucc n =>
      rw [ofInt, toInt?, toNat?_toDigits]
      rfl

/-- No two integers have one written form. -/
theorem ofInt_injective : Function.Injective ofInt := by
  intro j k h
  rw [← Option.some_inj, ← toInt?_ofInt j, h, toInt?_ofInt]

theorem isDigit_or_minus_of_mem (hc : c ∈ ofInt k) : c.isDigit = true ∨ c = '-' := by
  cases k with
  | ofNat n => exact .inl (isDigit_toDigits hc)
  | negSucc n =>
      rcases List.mem_cons.mp hc with rfl | hc
      · exact .inr rfl
      · exact .inl (isDigit_toDigits hc)

theorem toDigits_ne_leadingZero (n : Nat) (c : Char) (rest : List Char) :
    Nat.toDigits 10 n ≠ '0' :: c :: rest := by
  intro h
  rcases Nat.eq_zero_or_pos n with rfl | hn
  · cases h
  · apply head?_toDigits hn
    rw [h]
    rfl

theorem ofInt_plain (k : Int) : Plain (ofInt k) := by
  refine ⟨fun hplus => ?_, ?_, ?_⟩
  · rcases isDigit_or_minus_of_mem hplus with h | h <;> cases h
  · rintro ⟨sign, c, rest, hsign, heq⟩
    have hdigit (n : Nat) (d : Char) (ds : List Char) (hn : Nat.toDigits 10 n = d :: ds) : d.isDigit = true :=
      isDigit_toDigits (n := n) (by rw [hn]; exact List.mem_cons_self)
    cases k with
    | ofNat n =>
        rcases hsign with rfl | rfl | rfl
        · exact toDigits_ne_leadingZero n c rest heq
        · cases hdigit n _ _ heq
        · cases hdigit n _ _ heq
    | negSucc n =>
        rcases hsign with rfl | rfl | rfl
        · cases heq
        · exact toDigits_ne_leadingZero (n + 1) c rest (List.cons.inj heq).2
        · cases heq
  · intro heq
    cases k with
    | ofNat n =>
        have hminus : '-' ∈ Nat.toDigits 10 n := by
          rw [show Nat.toDigits 10 n = ['-', '0'] from heq]
          exact List.mem_cons_self
        cases isDigit_toDigits hminus
    | negSucc n =>
        apply head?_toDigits (Nat.succ_pos n)
        rw [(List.cons.inj heq).2]
        rfl

/-- A text that can be read is the written form of its value if it is plain. -/
theorem ofInt_of_toInt? (h : toInt? cs = some k) (hplain : Plain cs) : ofInt k = cs := by
  obtain ⟨hplus, hzero, hminus⟩ := hplain
  unfold toInt? at h
  split at h
  · exact absurd List.mem_cons_self hplus
  · rename_i ds
    cases hn : toNat? ds with
    | none =>
        rw [hn] at h
        cases h
    | some n =>
        rw [hn] at h
        cases h
        have hdigits := toDigits_of_toNat? hn fun c rest hds =>
          hzero ⟨['-'], c, rest, .inr (.inl rfl), congrArg (List.cons '-') hds⟩
        cases n with
        | zero => exact absurd (congrArg (List.cons '-') hdigits).symm hminus
        | succ n => exact congrArg (List.cons '-') hdigits
  · cases hn : toNat? cs with
    | none =>
        rw [hn] at h
        cases h
    | some n =>
        rw [hn] at h
        cases h
        exact toDigits_of_toNat? hn fun c rest hcs => hzero ⟨[], c, rest, .inl rfl, hcs⟩

end Text.Decimal

namespace Word

variable {w : Word} {k : Int} {cs : List Char}

theorem ofInt?_eq_some_iff : ofInt? k = some w ↔ w.toInt = k := by
  have hmin : Int64.minValue.toInt = -2 ^ 63 := rfl
  have hmax : Int64.maxValue.toInt = 2 ^ 63 - 1 := rfl
  unfold ofInt?
  rw [hmin, hmax]
  split
  · rename_i h
    rw [Option.some_inj, ← Int64.toInt_inj, Int64.toInt_ofInt_of_le h.1 (by omega), eq_comm]
  · rename_i h
    simp only [reduceCtorEq, false_iff]
    rintro rfl
    have hlow := w.le_toInt
    have hhigh := w.toInt_lt
    omega

theorem ofText?_eq_some_iff : ofText? cs = some w ↔ Text.Decimal.toInt? cs = some w.toInt := by
  unfold ofText?
  rw [Option.bind_eq_some_iff]
  simp only [ofInt?_eq_some_iff]
  constructor
  · rintro ⟨k, hk, rfl⟩
    exact hk
  · intro h
    exact ⟨w.toInt, h, rfl⟩

/-- Reading a word's written form gives the word. -/
theorem ofText?_chars (w : Word) : ofText? w.chars = some w :=
  ofText?_eq_some_iff.mpr (Text.Decimal.toInt?_ofInt w.toInt)

theorem chars_of_ofText? (h : ofText? cs = some w) (hplain : Text.Decimal.Plain cs) : w.chars = cs :=
  Text.Decimal.ofInt_of_toInt? (ofText?_eq_some_iff.mp h) hplain

end Word

end Intcode
