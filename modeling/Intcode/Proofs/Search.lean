import Intcode.Proofs.Evaluation

/-! The order of a search. Positions below the number of pairs stand for the pairs of words in the interval,
one for each, and a lower position for a pair that comes before: first the noun counts, then the verb. So the
first position that is a hit is that of the first pair that makes the program leave the target. -/

namespace Intcode

theorem firstFrom_eq_some_iff {p : Nat → Bool} {k count i : Nat} :
    firstFrom p k count = some i ↔
      (k ≤ i ∧ i < k + count) ∧ p i = true ∧ ∀ j, k ≤ j → j < i → p j = false := by
  induction count generalizing k with
  | zero =>
      simp only [firstFrom, reduceCtorEq, false_iff]
      omega
  | succ count ih =>
      rw [firstFrom]
      by_cases hk : p k = true
      · rw [if_pos hk, Option.some_inj]
        constructor
        · rintro rfl
          exact ⟨by omega, hk, fun j hj hji => by omega⟩
        · rintro ⟨hi, -, hbelow⟩
          by_contra hne
          have hfalse := hbelow k (Nat.le_refl k) (by omega)
          rw [hk] at hfalse
          cases hfalse
      · rw [if_neg hk, ih]
        constructor
        · rintro ⟨hi, hpi, hbelow⟩
          refine ⟨by omega, hpi, fun j hj hji => ?_⟩
          by_cases hjk : j = k
          · rw [hjk]
            exact Bool.eq_false_of_not_eq_true hk
          · exact hbelow j (by omega) hji
        · rintro ⟨hi, hpi, hbelow⟩
          have hne : i ≠ k := by
            rintro rfl
            exact hk hpi
          exact ⟨by omega, hpi, fun j hj hji => hbelow j (by omega) hji⟩

theorem firstFrom_eq_none_iff {p : Nat → Bool} {k count : Nat} :
    firstFrom p k count = none ↔ ∀ j, k ≤ j → j < k + count → p j = false := by
  induction count generalizing k with
  | zero =>
      simp only [firstFrom, true_iff]
      omega
  | succ count ih =>
      rw [firstFrom]
      by_cases hk : p k = true
      · rw [if_pos hk]
        simp only [reduceCtorEq, false_iff]
        intro hall
        have hfalse := hall k (Nat.le_refl k) (by omega)
        rw [hk] at hfalse
        cases hfalse
      · rw [if_neg hk, ih]
        constructor
        · intro hall j hj hlt
          by_cases hjk : j = k
          · rw [hjk]
            exact Bool.eq_false_of_not_eq_true hk
          · exact hall j (by omega) (by omega)
        · intro hall j hj hlt
          exact hall j (by omega) (by omega)

namespace Interval

/-- The word is one of the interval's. -/
def Contains (r : Interval) (w : Word) : Prop := r.first ≤ w ∧ w ≤ r.last

instance (r : Interval) (w : Word) : Decidable (r.Contains w) :=
  inferInstanceAs (Decidable (r.first ≤ w ∧ w ≤ r.last))

variable {r : Interval} {k : Nat} {w : Word}

/-- No word of an interval is beyond its last, so none is out of range. -/
theorem toInt_word (hk : k < r.size) : (r.word k).toInt = r.first.toInt + k := by
  have hfirst := r.first.le_toInt
  have hlast := r.last.toInt_lt
  unfold size at hk
  exact Int64.toInt_ofInt_of_le (by omega) (by omega)

theorem contains_iff : r.Contains w ↔ ∃ k < r.size, r.word k = w := by
  rw [Contains, Int64.le_iff_toInt_le, Int64.le_iff_toInt_le]
  constructor
  · rintro ⟨hfirst, hlast⟩
    have hk : (w.toInt - r.first.toInt).toNat < r.size := by
      unfold size
      omega
    refine ⟨_, hk, Int64.toInt_inj.mp ?_⟩
    rw [toInt_word hk]
    omega
  · rintro ⟨k, hk, rfl⟩
    rw [toInt_word hk]
    unfold size at hk
    omega

end Interval

namespace Pair

/-- `q` is tried before `p`: its noun is less, or the nouns are the same and its verb is less. -/
def Before (q p : Pair) : Prop := q.noun < p.noun ∨ q.noun = p.noun ∧ q.verb < p.verb

instance (q p : Pair) : Decidable (q.Before p) :=
  inferInstanceAs (Decidable (q.noun < p.noun ∨ q.noun = p.noun ∧ q.verb < p.verb))

/-- Both words of the pair are in the interval. -/
def Within (p : Pair) (r : Interval) : Prop := r.Contains p.noun ∧ r.Contains p.verb

instance (p : Pair) (r : Interval) : Decidable (p.Within r) :=
  inferInstanceAs (Decidable (r.Contains p.noun ∧ r.Contains p.verb))

theorem ext_words {p q : Pair} (hnoun : p.noun = q.noun) (hverb : p.verb = q.verb) : p = q := by
  obtain ⟨noun, verb⟩ := p
  obtain ⟨noun', verb'⟩ := q
  cases hnoun
  cases hverb
  rfl

end Pair

namespace Search

variable {s : Search} {p : Pair} {j k : Nat}

theorem noun_position_lt (hk : k < s.count) : k / s.range.size < s.range.size := Nat.div_lt_of_lt_mul hk

theorem verb_position_lt (hk : k < s.count) : k % s.range.size < s.range.size := by
  apply Nat.mod_lt
  apply Nat.pos_of_ne_zero
  intro hzero
  rw [count, hzero] at hk
  omega

/-- The positions stand for the pairs of the interval. -/
theorem within_iff : p.Within s.range ↔ ∃ k < s.count, s.pair k = p := by
  rw [Pair.Within, Interval.contains_iff, Interval.contains_iff]
  constructor
  · rintro ⟨⟨a, ha, hnoun⟩, b, hb, hverb⟩
    have hpos : 0 < s.range.size := Nat.zero_lt_of_lt hb
    have hdiv : (s.range.size * a + b) / s.range.size = a := by
      rw [Nat.mul_add_div hpos, Nat.div_eq_of_lt hb, Nat.add_zero]
    have hmod : (s.range.size * a + b) % s.range.size = b := by
      rw [Nat.mul_add_mod, Nat.mod_eq_of_lt hb]
    have hlt : s.range.size * a + b < s.count := by
      calc
        s.range.size * a + b < s.range.size * a + s.range.size := Nat.add_lt_add_left hb _
        _ = s.range.size * (a + 1) := (Nat.mul_succ _ _).symm
        _ ≤ s.count := Nat.mul_le_mul_left _ ha
    refine ⟨_, hlt, Pair.ext_words ?_ ?_⟩
    · rw [pair, hdiv, hnoun]
    · rw [pair, hmod, hverb]
  · rintro ⟨k, hk, rfl⟩
    exact ⟨⟨_, noun_position_lt hk, rfl⟩, _, verb_position_lt hk, rfl⟩

/-- A lower position stands for a pair that is tried before. -/
theorem before_iff (hj : j < s.count) (hk : k < s.count) : (s.pair j).Before (s.pair k) ↔ j < k := by
  have hj' := Nat.div_add_mod j s.range.size
  have hk' := Nat.div_add_mod k s.range.size
  have hmod := verb_position_lt hj
  have hmod' := verb_position_lt hk
  rw [Pair.Before, Int64.lt_iff_toInt_lt, Int64.lt_iff_toInt_lt, ← Int64.toInt_inj]
  simp only [pair]
  rw [Interval.toInt_word (noun_position_lt hj), Interval.toInt_word (noun_position_lt hk),
    Interval.toInt_word hmod, Interval.toInt_word hmod']
  constructor
  · rintro (hnoun | ⟨hnoun, hverb⟩)
    · have hmul := Nat.mul_le_mul_left s.range.size (show j / s.range.size + 1 ≤ k / s.range.size by omega)
      rw [Nat.mul_succ] at hmul
      omega
    · have hsame : j / s.range.size = k / s.range.size := by omega
      rw [hsame] at hj'
      omega
  · intro hlt
    have hdiv : j / s.range.size ≤ k / s.range.size := Nat.div_le_div_right (Nat.le_of_lt hlt)
    rcases Nat.lt_or_eq_of_le hdiv with hless | hsame
    · exact .inl (by omega)
    · rw [hsame] at hj'
      exact .inr ⟨by omega, by omega⟩

theorem isHit_iff : s.isHit k = true ↔ (s.pair k).evaluate s.base = .ok s.target := by
  unfold isHit
  cases (s.pair k).evaluate s.base <;> simp

theorem isHit_eq_false_iff : s.isHit k = false ↔ (s.pair k).evaluate s.base ≠ .ok s.target := by
  rw [← Bool.not_eq_true, isHit_iff]

theorem firstHit?_eq_some_iff :
    s.firstHit? = some k ↔ k < s.count ∧ (s.pair k).evaluate s.base = .ok s.target ∧
      ∀ j < k, (s.pair j).evaluate s.base ≠ .ok s.target := by
  unfold firstHit?
  rw [firstFrom_eq_some_iff, isHit_iff]
  simp only [isHit_eq_false_iff, Nat.zero_le, Nat.zero_add, true_and, true_implies]

theorem firstHit?_eq_none_iff :
    s.firstHit? = none ↔ ∀ k < s.count, (s.pair k).evaluate s.base ≠ .ok s.target := by
  unfold firstHit?
  rw [firstFrom_eq_none_iff]
  simp only [isHit_eq_false_iff, Nat.zero_le, Nat.zero_add, true_implies]

theorem isTooShort_iff : s.isTooShort = true ↔ s.base.size < 3 := by
  rw [isTooShort, decide_eq_true_eq]
  omega

theorem solve_of_short (h : s.base.size < 3) : s.solve = .error .programTooShort := by
  rw [solve, if_pos (isTooShort_iff.mpr h)]

section Long

variable (hlong : 3 ≤ s.base.size)

include hlong

theorem not_isTooShort : ¬s.isTooShort = true := by
  rw [isTooShort_iff]
  omega

theorem solve_of_hit (h : s.firstHit? = some k) : s.solve = .ok (s.pair k) := by
  rw [solve, if_neg (not_isTooShort hlong), h]

theorem solve_of_no_hit (h : s.firstHit? = none) : s.solve = .error (.noSolution s.target) := by
  rw [solve, if_neg (not_isTooShort hlong), h]

theorem solve_eq_ok_iff_position : s.solve = .ok p ↔ ∃ k, s.firstHit? = some k ∧ s.pair k = p := by
  cases hhit : s.firstHit? with
  | some k => simp [solve_of_hit hlong hhit]
  | none => simp [solve_of_no_hit hlong hhit]

end Long

theorem solve_eq_programTooShort_iff : s.solve = .error .programTooShort ↔ s.base.size < 3 := by
  constructor
  · intro h
    by_contra hshort
    have hlong : 3 ≤ s.base.size := by omega
    cases hhit : s.firstHit? with
    | some k =>
        rw [solve_of_hit hlong hhit] at h
        cases h
    | none =>
        rw [solve_of_no_hit hlong hhit] at h
        cases h
  · exact solve_of_short

/-- The pair found is the first in the interval that makes the program leave the target. -/
theorem solve_eq_ok_iff :
    s.solve = .ok p ↔ 3 ≤ s.base.size ∧ p.Within s.range ∧ p.evaluate s.base = .ok s.target ∧
      ∀ q : Pair, q.Within s.range → q.Before p → q.evaluate s.base ≠ .ok s.target := by
  by_cases hlong : 3 ≤ s.base.size
  · rw [solve_eq_ok_iff_position hlong]
    constructor
    · rintro ⟨k, hfirst, rfl⟩
      obtain ⟨hk, hhit, hbelow⟩ := firstHit?_eq_some_iff.mp hfirst
      refine ⟨hlong, within_iff.mpr ⟨k, hk, rfl⟩, hhit, fun q hq hbefore => ?_⟩
      obtain ⟨j, hj, rfl⟩ := within_iff.mp hq
      exact hbelow j ((before_iff hj hk).mp hbefore)
    · rintro ⟨-, hwithin, hhit, hbelow⟩
      obtain ⟨k, hk, rfl⟩ := within_iff.mp hwithin
      refine ⟨k, firstHit?_eq_some_iff.mpr ⟨hk, hhit, fun j hjk => ?_⟩, rfl⟩
      have hj : j < s.count := Nat.lt_trans hjk hk
      exact hbelow (s.pair j) (within_iff.mpr ⟨j, hj, rfl⟩) ((before_iff hj hk).mpr hjk)
  · rw [solve_of_short (by omega)]
    simp [hlong]

theorem solve_eq_noSolution_iff {t : Word} :
    s.solve = .error (.noSolution t) ↔ 3 ≤ s.base.size ∧ t = s.target ∧
      ∀ q : Pair, q.Within s.range → q.evaluate s.base ≠ .ok s.target := by
  by_cases hlong : 3 ≤ s.base.size
  · have hnone : (∀ q : Pair, q.Within s.range → q.evaluate s.base ≠ .ok s.target) ↔ s.firstHit? = none := by
      rw [firstHit?_eq_none_iff]
      constructor
      · intro hall k hk
        exact hall (s.pair k) (within_iff.mpr ⟨k, hk, rfl⟩)
      · intro hall q hq
        obtain ⟨k, hk, rfl⟩ := within_iff.mp hq
        exact hall k hk
    rw [hnone]
    cases hhit : s.firstHit? with
    | some k => simp [solve_of_hit hlong hhit]
    | none => simp [solve_of_no_hit hlong hhit, hlong, eq_comm]
  · rw [solve_of_short (by omega)]
    simp [hlong]

/-- **A search yields the first pair.** It is too short exactly when the program has fewer than three cells.
Otherwise it yields the pair of the interval that makes the program leave the target and before which no
other does, and it reports that there is none exactly when no pair of the interval makes the program leave
the target. In a program of three cells or more there is room for every pair, and every run that halts
leaves a result: a pair that gives no value is one whose own run faults, or has no end. -/
theorem solve_yields_first (s : Search) :
    (s.solve = .error .programTooShort ↔ s.base.size < 3) ∧
    (∀ p, s.solve = .ok p ↔ 3 ≤ s.base.size ∧ p.Within s.range ∧ p.evaluate s.base = .ok s.target ∧
      ∀ q : Pair, q.Within s.range → q.Before p → q.evaluate s.base ≠ .ok s.target) ∧
    (∀ t, s.solve = .error (.noSolution t) ↔ 3 ≤ s.base.size ∧ t = s.target ∧
      ∀ q : Pair, q.Within s.range → q.evaluate s.base ≠ .ok s.target) ∧
    (3 ≤ s.base.size → ∀ p : Pair, ∃ edited, p.place s.base = .ok edited ∧
      (∀ r m, (Machine.load edited).Runs r m → ∃ v, m.memory.read Pair.resultAddress = .ok v) ∧
      (∀ v, p.evaluate s.base = .ok v ↔
        ∃ m, (Machine.load edited).Runs (.ok ()) m ∧ m.memory.read Pair.resultAddress = .ok v) ∧
      (∀ f, p.evaluate s.base = .error (.fault f) ↔ ∃ m, (Machine.load edited).Runs (.error (.fault f)) m) ∧
      ((∃ l, p.evaluate s.base = .error (.stepLimit l)) ↔ ¬∃ r m, (Machine.load edited).Runs r m)) := by
  refine ⟨solve_eq_programTooShort_iff, fun p => solve_eq_ok_iff, fun t => solve_eq_noSolution_iff,
    fun hlong p => ?_⟩
  obtain ⟨edited, hplace⟩ := p.exists_place hlong
  exact ⟨edited, hplace, fun r m h => Pair.exists_result hplace h, fun v => Pair.evaluate_eq_ok_iff hplace,
    fun f => Pair.evaluate_eq_fault_iff hplace, Pair.evaluate_eq_stepLimit_iff hplace⟩

end Search

end Intcode
