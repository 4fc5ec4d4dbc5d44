import Mathlib.Data.List.DropRight
import Mathlib.Data.Nat.Digits.Defs
import Intcode.Proofs.ProgramText

/-! The grammar of program texts. A text is cut at its commas and the blanks are taken off each piece; what is
left is to be a numeral, a sign that may be left out and one or more digits, with a value in range. Every text
of this form is read as the memory of the values, and in any other the first piece that is no such numeral is
reported. -/

namespace Intcode

namespace Text

variable {cs p q front back : List Char}

/-! ### Blanks at both ends -/

/-- `q` is `p` without the blanks at both of its ends. -/
def Strips (p q : List Char) : Prop :=
  ∃ front back, p = front ++ q ++ back ∧
    (∀ c ∈ front, isBlank c = true) ∧ (∀ c ∈ back, isBlank c = true) ∧
    (∀ c, q.head? = some c → isBlank c = false) ∧ ∀ c, q.getLast? = some c → isBlank c = false

theorem trim_eq_rdropWhile (cs : List Char) : trim cs = (cs.dropWhile isBlank).rdropWhile isBlank := rfl

theorem trim_of_blank_front (hfront : ∀ c ∈ front, isBlank c = true) : trim (front ++ cs) = trim cs := by
  rw [trim, trim, List.dropWhile_append_of_pos hfront]

theorem trim_of_blank_back (hback : ∀ c ∈ back, isBlank c = true) : trim (cs ++ back) = trim cs := by
  have hnone : back.dropWhile isBlank = [] := List.dropWhile_eq_nil_iff.mpr hback
  have hreverse : ∀ c ∈ back.reverse, isBlank c = true := fun c hc => hback c (List.mem_reverse.mp hc)
  rw [trim, trim, List.dropWhile_append]
  split
  · rename_i hempty
    rw [hnone, List.isEmpty_iff.mp hempty]
  · rw [List.reverse_append, List.dropWhile_append_of_pos hreverse]

/-- Blanks that are put before or behind a text are taken off again. -/
theorem trim_of_blank_ends (hfront : ∀ c ∈ front, isBlank c = true) (hback : ∀ c ∈ back, isBlank c = true) :
    trim (front ++ cs ++ back) = trim cs := by
  rw [trim_of_blank_back hback, trim_of_blank_front hfront]

theorem trim_of_ends (hhead : ∀ c, q.head? = some c → isBlank c = false)
    (hlast : ∀ c, q.getLast? = some c → isBlank c = false) : trim q = q := by
  have hdrop : q.dropWhile isBlank = q := by
    rw [List.dropWhile_eq_self_iff]
    intro hpos hblank
    rw [hhead q[0] (by rw [List.head?_eq_getElem?, List.getElem?_eq_getElem hpos])] at hblank
    cases hblank
  rw [trim_eq_rdropWhile, hdrop, List.rdropWhile_eq_self_iff]
  intro hne hblank
  rw [hlast (q.getLast hne) (List.getLast?_eq_some_getLast hne)] at hblank
  cases hblank

theorem strips_trim (p : List Char) : Strips p (trim p) := by
  have hfirst := List.head?_dropWhile_not isBlank p
  refine ⟨p.takeWhile isBlank, (p.dropWhile isBlank).rtakeWhile isBlank, ?_,
    fun c hc => List.mem_takeWhile_imp hc, fun c hc => List.mem_rtakeWhile_imp hc, fun c hc => ?_, fun c hc => ?_⟩
  · rw [trim_eq_rdropWhile, List.append_assoc, List.rdropWhile_append_rtakeWhile,
      List.takeWhile_append_dropWhile]
  · -- the first character that is left is the first behind the blanks in front
    obtain ⟨rest, hrest⟩ := List.rdropWhile_prefix isBlank (l := p.dropWhile isBlank)
    rw [trim_eq_rdropWhile] at hc
    rw [← hrest, List.head?_append, hc] at hfirst
    exact hfirst
  · have hne : trim p ≠ [] := by
      intro hnil
      rw [hnil] at hc
      cases hc
    have hnot := List.rdropWhile_last_not isBlank (p.dropWhile isBlank) hne
    rw [List.getLast?_eq_some_getLast hne] at hc
    cases hc
    exact Bool.eq_false_of_not_eq_true hnot

theorem strips_iff : Strips p q ↔ trim p = q := by
  constructor
  · rintro ⟨front, back, rfl, hfront, hback, hhead, hlast⟩
    rw [trim_of_blank_ends hfront hback, trim_of_ends hhead hlast]
  · rintro rfl
    exact strips_trim p

theorem Strips.unique {q' : List Char} (h : Strips p q) (h' : Strips p q') : q = q' :=
  (strips_iff.mp h).symm.trans (strips_iff.mp h')

/-! ### Pieces between commas -/

/-- What holds of texts without a comma, and of two texts with a comma between them if it holds of both,
holds of every text. -/
@[elab_as_elim]
theorem comma_induction {P : List Char → Prop} (piece : ∀ cs, ',' ∉ cs → P cs)
    (join : ∀ s t, P s → P t → P (s ++ ',' :: t)) (cs : List Char) : P cs := by
  induction hlength : cs.length using Nat.strong_induction_on generalizing cs with
  | _ n ih =>
      by_cases hcomma : ',' ∈ cs
      · obtain ⟨s, t, rfl⟩ := List.append_of_mem hcomma
        rw [List.length_append, List.length_cons] at hlength
        exact join s t (ih s.length (by omega) s rfl) (ih t.length (by omega) t rfl)
      · exact piece cs hcomma

theorem comma_not_mem_of_mem_splitOn (h : p ∈ cs.splitOn ',') : ',' ∉ p := by
  induction cs using comma_induction with
  | piece cs hcomma =>
      rw [List.splitOn_eq_singleton hcomma, List.mem_singleton] at h
      rwa [h]
  | join s t hs ht =>
      rw [List.splitOn_append_cons_self, List.mem_append] at h
      exact h.elim hs ht

theorem length_splitOn_comma (cs : List Char) : (cs.splitOn ',').length = cs.count ',' + 1 := by
  induction cs using comma_induction with
  | piece cs hcomma =>
      rw [List.splitOn_eq_singleton hcomma, List.count_eq_zero_of_not_mem hcomma, List.length_singleton]
  | join s t hs ht =>
      rw [List.splitOn_append_cons_self, List.length_append, hs, ht, List.count_append,
        List.count_cons_self]
      omega

theorem comma_not_mem_of_blank (h : ∀ c ∈ cs, isBlank c = true) : ',' ∉ cs := by
  intro hc
  have hblank : isBlank ',' = false := by decide
  rw [h ',' hc] at hblank
  cases hblank

/-- Blanks at the ends of a whole text are blanks at an end of its first piece and of its last. -/
theorem map_trim_splitOn_of_blank_ends (hfront : ∀ c ∈ front, isBlank c = true)
    (hback : ∀ c ∈ back, isBlank c = true) :
    ((front ++ cs ++ back).splitOn ',').map trim = (cs.splitOn ',').map trim := by
  induction cs using comma_induction generalizing front back with
  | piece cs hcomma =>
      have hall : ',' ∉ front ++ cs ++ back := by
        rw [List.mem_append, List.mem_append]
        rintro ((h | h) | h)
        · exact comma_not_mem_of_blank hfront h
        · exact hcomma h
        · exact comma_not_mem_of_blank hback h
      rw [List.splitOn_eq_singleton hall, List.splitOn_eq_singleton hcomma, List.map_singleton,
        List.map_singleton, trim_of_blank_ends hfront hback]
  | join s t hs ht =>
      have hnone : ∀ c ∈ ([] : List Char), isBlank c = true := fun c hc => absurd hc List.not_mem_nil
      have hs := hs hfront hnone
      have ht := ht hnone hback
      rw [List.append_nil] at hs
      rw [List.nil_append] at ht
      calc
        ((front ++ (s ++ ',' :: t) ++ back).splitOn ',').map trim
            = (((front ++ s) ++ ',' :: (t ++ back)).splitOn ',').map trim := by simp
        _ = ((front ++ s).splitOn ',').map trim ++ ((t ++ back).splitOn ',').map trim := by
          rw [List.splitOn_append_cons_self, List.map_append]
        _ = ((s ++ ',' :: t).splitOn ',').map trim := by
          rw [hs, ht, List.splitOn_append_cons_self, List.map_append]

namespace Decimal

/-! ### Numerals -/

/-- The value of a row of digits, in which each counts ten times as much as the one behind it. -/
def value (digits : List Char) : Nat := Nat.ofDigits 10 (digits.reverse.map fun c => c.toNat - '0'.toNat)

/-- A sign, which may be left out, and one or more digits; the value is `k`. -/
def Numeral (cs : List Char) (k : Int) : Prop :=
  ∃ sign digits, cs = sign ++ digits ∧ digits ≠ [] ∧ (∀ c ∈ digits, '0' ≤ c ∧ c ≤ '9') ∧
    ((sign = [] ∨ sign = ['+']) ∧ k = value digits ∨ sign = ['-'] ∧ k = -value digits)

theorem isDigit_iff {c : Char} : c.isDigit = true ↔ '0' ≤ c ∧ c ≤ '9' := by
  rw [Char.isDigit_iff_toNat, Char.le_def, Char.le_def, UInt32.le_iff_toNat_le, UInt32.le_iff_toNat_le]
  rfl

theorem ofDigitChars_eq_value (digits : List Char) : Nat.ofDigitChars 10 digits 0 = value digits := by
  rw [value, Nat.ofDigits_eq_foldr, List.foldr_map, List.foldr_reverse, Nat.ofDigitChars_eq_foldl]
  congr 1
  funext n c
  exact Nat.add_comm _ _

theorem toNat?_eq_some_value_iff {cs : List Char} {n : Nat} :
    toNat? cs = some n ↔ cs ≠ [] ∧ (∀ c ∈ cs, '0' ≤ c ∧ c ≤ '9') ∧ value cs = n := by
  simp only [toNat?_eq_some_iff, ofDigitChars_eq_value, isDigit_iff]

/-- Digits are what is read behind a sign, whatever the sign makes of their value. -/
theorem digits_of_map_toNat? {cs : List Char} {k : Int} {f : Int → Int} (h : (toNat? cs).map f = some k) :
    cs ≠ [] ∧ (∀ c ∈ cs, '0' ≤ c ∧ c ≤ '9') ∧ k = f (value cs) := by
  cases hn : toNat? cs with
  | none =>
      rw [hn] at h
      cases h
  | some n =>
      obtain ⟨hne, hdigits, rfl⟩ := toNat?_eq_some_value_iff.mp hn
      rw [hn] at h
      cases h
      exact ⟨hne, hdigits, rfl⟩

theorem toInt?_eq_some_iff {cs : List Char} {k : Int} : toInt? cs = some k ↔ Numeral cs k := by
  constructor
  · intro h
    unfold toInt? at h
    split at h
    · rename_i digits
      obtain ⟨hne, hdigits, hk⟩ := digits_of_map_toNat? h
      exact ⟨['+'], digits, rfl, hne, hdigits, .inl ⟨.inr rfl, hk⟩⟩
    · rename_i digits
      obtain ⟨hne, hdigits, hk⟩ := digits_of_map_toNat? h
      exact ⟨['-'], digits, rfl, hne, hdigits, .inr ⟨rfl, hk⟩⟩
    · obtain ⟨hne, hdigits, hk⟩ := digits_of_map_toNat? h
      exact ⟨[], cs, rfl, hne, hdigits, .inl ⟨.inl rfl, hk⟩⟩
  · rintro ⟨sign, digits, rfl, hne, hdigits, ⟨rfl | rfl, rfl⟩ | ⟨rfl, rfl⟩⟩
    all_goals
      have hvalue : toNat? digits = some (value digits) := toNat?_eq_some_value_iff.mpr ⟨hne, hdigits, rfl⟩
    · have hnosign : ∀ c ∈ digits, c.isDigit = true := fun c hc => isDigit_iff.mpr (hdigits c hc)
      rw [List.nil_append, toInt?_of_isDigit hnosign, hvalue]
      rfl
    · rw [List.singleton_append, toInt?, hvalue]
      rfl
    · rw [List.singleton_append, toInt?, hvalue]
      rfl

/-- A numeral whose value is that of a word. -/
def Token (cs : List Char) (k : Int) : Prop := Numeral cs k ∧ -2 ^ 63 ≤ k ∧ k ≤ 2 ^ 63 - 1

end Decimal

end Text

namespace Word

variable {cs : List Char} {w : Word}

theorem ofText?_eq_some_iff_token : ofText? cs = some w ↔ Text.Decimal.Token cs w.toInt := by
  have hlow := w.le_toInt
  have hhigh := w.toInt_lt
  rw [ofText?_eq_some_iff, Text.Decimal.toInt?_eq_some_iff, Text.Decimal.Token]
  constructor
  · intro h
    exact ⟨h, by omega, by omega⟩
  · rintro ⟨h, -⟩
    exact h

theorem ofText?_eq_none_iff : ofText? cs = none ↔ ¬∃ k, Text.Decimal.Token cs k := by
  rw [Option.eq_none_iff_forall_ne_some]
  constructor
  · rintro h ⟨k, htoken⟩
    have hk : (Int64.ofInt k).toInt = k := Int64.toInt_ofInt_of_le htoken.2.1 (by have := htoken.2.2; omega)
    rw [← hk] at htoken
    exact h _ (ofText?_eq_some_iff_token.mpr htoken)
  · intro h w hw
    exact h ⟨w.toInt, ofText?_eq_some_iff_token.mp hw⟩

end Word

namespace Memory

variable {t : String} {m : Memory}

/-! ### Reading -/

/-- The first field that is no word is reported, with its position. -/
theorem readFields_eq_error_iff {words : Array Word} {fs : List (List Char)} {e : ParseError} :
    readFields words fs = .error e ↔ ∃ i f, fs[i]? = some f ∧ Word.ofText? f = none ∧
      (∀ j < i, ∀ g, fs[j]? = some g → Word.ofText? g ≠ none) ∧ e = ⟨words.size + i, String.ofList f⟩ := by
  induction fs generalizing words with
  | nil => simp [readFields]
  | cons f fs ih =>
      rw [readFields]
      cases hf : Word.ofText? f with
      | none =>
          dsimp only
          rw [Except.error.injEq]
          constructor
          · rintro rfl
            exact ⟨0, f, rfl, hf, fun j hj => absurd hj (Nat.not_lt_zero j), rfl⟩
          · rintro ⟨i, g, hg, -, hbelow, rfl⟩
            cases i with
            | zero =>
                cases hg
                rfl
            | succ i => exact absurd hf (hbelow 0 (Nat.succ_pos i) f rfl)
      | some w =>
          dsimp only
          rw [ih, Array.size_push]
          constructor
          · rintro ⟨i, g, hg, hnone, hbelow, rfl⟩
            refine ⟨i + 1, g, hg, hnone, fun j hj g' hg' => ?_, ?_⟩
            · cases j with
              | zero =>
                  cases hg'
                  simp [hf]
              | succ j => exact hbelow j (Nat.lt_of_succ_lt_succ hj) g' hg'
            · rw [Nat.add_assoc, Nat.add_comm 1 i]
          · rintro ⟨i, g, hg, hnone, hbelow, rfl⟩
            cases i with
            | zero =>
                cases hg
                rw [hf] at hnone
                cases hnone
            | succ i =>
                refine ⟨i, g, hg, hnone, fun j hj => hbelow (j + 1) (Nat.succ_lt_succ hj), ?_⟩
                rw [Nat.add_assoc, Nat.add_comm 1 i]

theorem parse_eq_error_iff {e : ParseError} :
    parse t = .error e ↔ ∃ f, (fields t)[e.index]? = some f ∧ Word.ofText? f = none ∧
      (∀ j < e.index, ∀ g, (fields t)[j]? = some g → Word.ofText? g ≠ none) ∧ e.token = String.ofList f := by
  have hread : parse t = .error e ↔ readFields #[] (fields t) = .error e := by
    unfold parse
    cases readFields #[] (fields t) <;> simp
  rw [hread, readFields_eq_error_iff]
  constructor
  · rintro ⟨i, f, hf, hnone, hbelow, rfl⟩
    have hindex : (#[] : Array Word).size + i = i := Nat.zero_add i
    dsimp only
    rw [hindex]
    exact ⟨f, hf, hnone, hbelow, rfl⟩
  · rintro ⟨f, hf, hnone, hbelow, htoken⟩
    refine ⟨e.index, f, hf, hnone, hbelow, ?_⟩
    obtain ⟨index, token⟩ := e
    cases htoken
    exact congrArg (ParseError.mk · _) (Nat.zero_add index).symm

theorem parse_eq_ok_iff_cells :
    parse t = .ok m ↔ m.size = (fields t).length ∧
      ∀ (i : Nat) f, (fields t)[i]? = some f → ∃ w, m.cells[i]? = some w ∧ Word.ofText? f = some w := by
  rw [parse_eq_ok_iff]
  constructor
  · intro h
    have hlength := congrArg List.length h
    rw [List.length_map, List.length_map, Array.length_toList] at hlength
    refine ⟨hlength.symm, fun i f hf => ?_⟩
    have hi := congrArg (·[i]?) h
    simp only [List.getElem?_map, hf, Option.map_some, Array.getElem?_toList] at hi
    cases hcell : m.cells[i]? with
    | none =>
        rw [hcell] at hi
        cases hi
    | some w =>
        rw [hcell] at hi
        exact ⟨w, rfl, Option.some.inj hi⟩
  · rintro ⟨hsize, hcells⟩
    apply List.ext_getElem?
    intro i
    rw [List.getElem?_map, List.getElem?_map]
    cases hf : (fields t)[i]? with
    | some f =>
        obtain ⟨w, hw, hword⟩ := hcells i f hf
        have hcell : m.cells.toList[i]? = some w := by rw [Array.getElem?_toList, hw]
        rw [hcell, Option.map_some, Option.map_some, hword]
    | none =>
        have hlong : m.cells.size ≤ i := by
          rw [List.getElem?_eq_none_iff, ← hsize] at hf
          exact hf
        have hcell : m.cells.toList[i]? = none := by rw [Array.getElem?_toList, Array.getElem?_eq_none hlong]
        rw [hcell, Option.map_none, Option.map_none]

/-- What stands between the commas of a text. -/
def pieces (t : String) : List (List Char) := t.toList.splitOn ','

theorem getElem?_fields {i : Nat} {f : List Char} :
    (fields t)[i]? = some f ↔ ∃ p, (pieces t)[i]? = some p ∧ Text.Strips p f := by
  rw [fields, pieces, List.getElem?_map, Option.map_eq_some_iff]
  simp only [Text.strips_iff]

/-- Every piece of a text between commas gives one field. -/
theorem length_fields (t : String) : (fields t).length = (pieces t).length := List.length_map _

/-- Taking the blanks off the ends of a text before it is cut makes no difference. -/
theorem fields_trim (t : String) : fields (String.ofList (Text.trim t.toList)) = fields t := by
  obtain ⟨front, back, hends, hfront, hback, -⟩ := Text.strips_trim t.toList
  have hsame : ((front ++ Text.trim t.toList ++ back).splitOn ',').map Text.trim =
      ((Text.trim t.toList).splitOn ',').map Text.trim :=
    Text.map_trim_splitOn_of_blank_ends hfront hback
  rw [← hends] at hsame
  rw [fields, fields, String.toList_ofList, hsame]

/-- What is left of the piece without the blanks at its ends is a token. -/
def Readable (p : List Char) : Prop := ∃ q k, Text.Strips p q ∧ Text.Decimal.Token q k

theorem readable_iff {p q : List Char} (h : Text.Strips p q) : Readable p ↔ Word.ofText? q ≠ none := by
  rw [Ne, Word.ofText?_eq_none_iff, not_not]
  constructor
  · rintro ⟨q', k, h', htoken⟩
    rw [h'.unique h] at htoken
    exact ⟨k, htoken⟩
  · rintro ⟨k, htoken⟩
    exact ⟨q, k, h, htoken⟩

theorem exists_parse_iff : (∃ m, parse t = .ok m) ↔ ∀ p ∈ pieces t, Readable p := by
  constructor
  · rintro ⟨m, h⟩ p hp
    obtain ⟨i, hi⟩ := List.mem_iff_getElem?.mp hp
    have hstrips := Text.strips_trim p
    obtain ⟨w, -, hw⟩ := (parse_eq_ok_iff_cells.mp h).2 i _ (getElem?_fields.mpr ⟨p, hi, hstrips⟩)
    rw [readable_iff hstrips, hw]
    simp
  · intro hall
    cases h : parse t with
    | ok m => exact ⟨m, rfl⟩
    | error e =>
        obtain ⟨f, hf, hnone, -⟩ := parse_eq_error_iff.mp h
        obtain ⟨p, hp, hstrips⟩ := getElem?_fields.mp hf
        exact absurd hnone ((readable_iff hstrips).mp (hall p (List.mem_of_getElem? hp)))

/-- **A text is read by its grammar, and its first bad piece is reported.** The pieces are what stands between
the commas of the text, one more than there are commas. A text is read when every piece is a numeral in range
once the blanks are off it; then the memory has a cell for each piece, which holds the value. Otherwise the
first piece that is no such numeral is reported, with its position and without its blanks. Whether the blanks
at the ends of the text are taken off before it is cut makes no difference. -/
theorem parse_by_grammar (t : String) :
    ((pieces t).length = t.toList.count ',' + 1 ∧ [','].intercalate (pieces t) = t.toList ∧
      ∀ p ∈ pieces t, ',' ∉ p) ∧
    ((∃ m, parse t = .ok m) ↔ ∀ p ∈ pieces t, Readable p) ∧
    (∀ m, parse t = .ok m ↔ m.size = (pieces t).length ∧ ∀ (i : Nat) p, (pieces t)[i]? = some p →
      ∃ q w, Text.Strips p q ∧ Text.Decimal.Token q w.toInt ∧ m.cells[i]? = some w) ∧
    (∀ e, parse t = .error e ↔ ∃ p q, (pieces t)[e.index]? = some p ∧ Text.Strips p q ∧ ¬Readable p ∧
      e.token = String.ofList q ∧ ∀ j < e.index, ∀ p', (pieces t)[j]? = some p' → Readable p') ∧
    parse (String.ofList (Text.trim t.toList)) = parse t := by
  refine ⟨⟨Text.length_splitOn_comma _, List.intercalate_splitOn ',',
    fun p hp => Text.comma_not_mem_of_mem_splitOn hp⟩, exists_parse_iff, fun m => ?_, fun e => ?_, ?_⟩
  · rw [parse_eq_ok_iff_cells, length_fields]
    refine and_congr_right fun _ => ⟨fun h i p hp => ?_, fun h i f hf => ?_⟩
    · have hstrips := Text.strips_trim p
      obtain ⟨w, hw, hword⟩ := h i _ (getElem?_fields.mpr ⟨p, hp, hstrips⟩)
      exact ⟨_, w, hstrips, Word.ofText?_eq_some_iff_token.mp hword, hw⟩
    · obtain ⟨p, hp, hstrips⟩ := getElem?_fields.mp hf
      obtain ⟨q, w, hstrips', htoken, hw⟩ := h i p hp
      rw [hstrips'.unique hstrips] at htoken
      exact ⟨w, hw, Word.ofText?_eq_some_iff_token.mpr htoken⟩
  · rw [parse_eq_error_iff]
    constructor
    · rintro ⟨f, hf, hnone, hbelow, htoken⟩
      obtain ⟨p, hp, hstrips⟩ := getElem?_fields.mp hf
      refine ⟨p, f, hp, hstrips, mt (readable_iff hstrips).mp (not_not.mpr hnone), htoken,
        fun j hj p' hp' => ?_⟩
      have hstrips' := Text.strips_trim p'
      exact (readable_iff hstrips').mpr (hbelow j hj _ (getElem?_fields.mpr ⟨p', hp', hstrips'⟩))
    · rintro ⟨p, q, hp, hstrips, hbad, htoken, hbelow⟩
      rw [readable_iff hstrips, not_not] at hbad
      refine ⟨q, getElem?_fields.mpr ⟨p, hp, hstrips⟩, hbad, fun j hj g hg => ?_, htoken⟩
      obtain ⟨p', hp', hstrips'⟩ := getElem?_fields.mp hg
      exact (readable_iff hstrips').mp (hbelow j hj p' hp')
  · rw [parse, parse, fields_trim]

end Memory

end Intcode
