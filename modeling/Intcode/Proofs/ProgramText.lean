import Mathlib.Data.List.Basic
import Intcode.Memory.Text
import Intcode.Proofs.Decimal

/-! Program texts. A memory's written form is read as the memory, since its fields are the decimal forms of
the cells and hold neither a comma nor a blank. A text that is read as a memory is the written form of that
memory if none of what reading allows beyond it is used. -/

namespace Intcode

namespace Text

variable {c s : Char} {cs : List Char} {ls : List (List Char)}

theorem mem_intercalate_iff :
    c ∈ [s].intercalate ls ↔ c = s ∧ 2 ≤ ls.length ∨ ∃ l ∈ ls, c ∈ l := by
  induction ls with
  | nil => simp [List.intercalate_nil]
  | cons l ls ih =>
      cases ls with
      | nil => simp [List.intercalate_singleton]
      | cons l' ls =>
          rw [List.intercalate_cons_cons, List.mem_append, List.mem_append, ih]
          simp only [List.mem_singleton, List.length_cons, List.exists_mem_cons_iff]
          constructor
          · rintro ((h | h) | h | h)
            · exact .inr (.inl h)
            · exact .inl ⟨h, by omega⟩
            · exact .inl ⟨h.1, by omega⟩
            · exact .inr (.inr h)
          · rintro (h | h | h)
            · exact .inl (.inr h.1)
            · exact .inl (.inl h)
            · exact .inr (.inr h)

theorem isBlank_of_isDigit (hc : c.isDigit = true) : isBlank c = false := by
  have hrange : 48 ≤ c.toNat ∧ c.toNat ≤ 57 := Char.isDigit_iff_toNat.mp hc
  rw [isBlank, within, List.any_eq_false]
  intro range hrange'
  simp only [blankRanges, List.mem_cons, List.not_mem_nil, or_false] at hrange'
  rw [Bool.and_eq_true, decide_eq_true_eq, decide_eq_true_eq]
  rcases hrange' with rfl | rfl | rfl | rfl | rfl | rfl | rfl | rfl | rfl | rfl <;> omega

theorem dropWhile_isBlank (h : ∀ c ∈ cs, isBlank c = false) : cs.dropWhile isBlank = cs := by
  cases cs with
  | nil => rfl
  | cons c cs => rw [List.dropWhile_cons_of_neg (by simp [h c List.mem_cons_self])]

theorem trim_of_no_blank (h : ∀ c ∈ cs, isBlank c = false) : trim cs = cs := by
  have hreverse : ∀ c ∈ cs.reverse, isBlank c = false := fun c hc => h c (List.mem_reverse.mp hc)
  rw [trim, dropWhile_isBlank h, dropWhile_isBlank hreverse, List.reverse_reverse]

end Text

namespace Word

variable {w : Word} {c : Char}

theorem isBlank_of_mem_chars (hc : c ∈ w.chars) : Text.isBlank c = false := by
  rcases Text.Decimal.isDigit_or_minus_of_mem hc with h | rfl
  · exact Text.isBlank_of_isDigit h
  · decide

theorem comma_not_mem_chars (w : Word) : ',' ∉ w.chars := by
  intro hc
  rcases Text.Decimal.isDigit_or_minus_of_mem hc with h | h <;> cases h

theorem trim_chars (w : Word) : Text.trim w.chars = w.chars :=
  Text.trim_of_no_blank fun _ hc => isBlank_of_mem_chars hc

/-- Plain texts are the written forms of the words that they are read as. -/
theorem map_chars_of_map_ofText? {tokens : List (List Char)} {ws : List Word}
    (h : tokens.map ofText? = ws.map some) (hplain : ∀ token ∈ tokens, Text.Decimal.Plain token) :
    ws.map chars = tokens := by
  induction tokens generalizing ws with
  | nil => rw [List.map_eq_nil_iff.mp h.symm, List.map_nil]
  | cons token tokens ih =>
      cases ws with
      | nil => cases h
      | cons w ws =>
          obtain ⟨hw, hrest⟩ := List.cons.inj h
          rw [List.map_cons, chars_of_ofText? hw (hplain token List.mem_cons_self),
            ih hrest fun token' htoken' => hplain token' (List.mem_cons_of_mem token htoken')]

end Word

namespace Memory

variable {m : Memory} {t : String}

/-! ### Reading -/

theorem readFields_eq_ok_iff {words out : Array Word} {fs : List (List Char)} :
    readFields words fs = .ok out ↔
      ∃ ws : List Word, fs.map Word.ofText? = ws.map some ∧ out = words ++ ws.toArray := by
  induction fs generalizing words with
  | nil =>
      rw [readFields, Except.ok.injEq]
      constructor
      · rintro rfl
        exact ⟨[], rfl, by simp⟩
      · rintro ⟨ws, hws, rfl⟩
        have hnil : ws = [] := List.map_eq_nil_iff.mp hws.symm
        simp [hnil]
  | cons f fs ih =>
      rw [readFields, List.map_cons]
      cases hf : Word.ofText? f with
      | none =>
          simp only [reduceCtorEq, false_iff]
          rintro ⟨ws, hws, -⟩
          cases ws <;> cases hws
      | some w =>
          dsimp only
          rw [ih]
          constructor
          · rintro ⟨ws, hws, rfl⟩
            exact ⟨w :: ws, congrArg (List.cons (some w)) hws, by simp⟩
          · rintro ⟨ws, hws, rfl⟩
            cases ws with
            | nil => cases hws
            | cons w' ws =>
                obtain ⟨hw, hrest⟩ := List.cons.inj hws
                cases hw
                exact ⟨ws, hrest, by simp⟩

/-- A text is read as a memory when its fields are texts of the cells, in order. -/
theorem parse_eq_ok_iff : parse t = .ok m ↔ (fields t).map Word.ofText? = m.cells.toList.map some := by
  unfold parse
  cases hread : readFields #[] (fields t) with
  | error e =>
      simp only [reduceCtorEq, false_iff]
      intro h
      have hok : readFields #[] (fields t) = .ok (#[] ++ m.cells.toList.toArray) :=
        readFields_eq_ok_iff.mpr ⟨m.cells.toList, h, rfl⟩
      rw [hread] at hok
      cases hok
  | ok out =>
      obtain ⟨ws, hws, rfl⟩ := readFields_eq_ok_iff.mp hread
      obtain ⟨cells⟩ := m
      rw [hws]
      simp only [Except.ok.injEq, Memory.mk.injEq]
      constructor
      · rintro rfl
        simp
      · intro h
        have hcells : ws = cells.toList := List.map_injective_iff.mpr (fun _ _ => Option.some.inj) h
        simp [hcells]

theorem fields_ne_nil (t : String) : fields t ≠ [] := by
  unfold fields
  simp [List.splitOn_ne_nil]

theorem cells_ne_nil_of_size (h : 0 < m.size) : m.cells.toList ≠ [] := by
  rw [← List.length_pos_iff, Array.length_toList]
  exact h

theorem cells_ne_nil_of_parse (h : parse t = .ok m) : m.cells.toList ≠ [] := by
  intro hnil
  have hfields := parse_eq_ok_iff.mp h
  rw [hnil, List.map_nil, List.map_eq_nil_iff] at hfields
  exact fields_ne_nil t hfields

/-! ### Writing -/

theorem splitOn_text (hm : m.cells.toList ≠ []) :
    m.text.toList.splitOn ',' = m.cells.toList.map Word.chars := by
  rw [text, String.toList_ofList]
  apply List.splitOn_intercalate
  · intro l hl
    obtain ⟨w, -, rfl⟩ := List.mem_map.mp hl
    exact w.comma_not_mem_chars
  · simpa using hm

theorem fields_text (hm : m.cells.toList ≠ []) : fields m.text = m.cells.toList.map Word.chars := by
  rw [fields, splitOn_text hm, List.map_map]
  apply List.map_congr_left
  intro w _
  exact w.trim_chars

theorem parse_text (hm : m.cells.toList ≠ []) : parse m.text = .ok m := by
  rw [parse_eq_ok_iff, fields_text hm, List.map_map]
  apply List.map_congr_left
  intro w _
  exact w.ofText?_chars

/-- No two memories have one written form. -/
theorem text_injective : Function.Injective text := by
  intro m m' h
  have hempty (m : Memory) : m.text = "" ↔ m.cells.toList = [] := by
    constructor
    · intro htext
      by_contra hm
      have hnone : parse "" = .error ⟨0, ""⟩ := rfl
      have hread := parse_text hm
      rw [htext, hnone] at hread
      cases hread
    · intro hm
      rw [text, hm]
      rfl
  by_cases hm : m.cells.toList = []
  · have hm' : m'.cells.toList = [] := by
      rw [← hempty, ← h, hempty]
      exact hm
    obtain ⟨cells⟩ := m
    obtain ⟨cells'⟩ := m'
    exact congrArg Memory.mk (Array.toList_inj.mp (hm.trans hm'.symm))
  · have hm' : m'.cells.toList ≠ [] := by
      rw [Ne, ← hempty, ← h, hempty]
      exact hm
    have hread := parse_text hm
    rw [h, parse_text hm'] at hread
    exact (Except.ok.inj hread).symm

/-- The text is as a memory is written: no blank anywhere, and no token with a plus sign, a zero too many in
front, or a minus sign before zero. -/
def Canonical (t : String) : Prop :=
  (∀ c ∈ t.toList, Text.isBlank c = false) ∧ ∀ token ∈ t.toList.splitOn ',', Text.Decimal.Plain token

instance (t : String) : Decidable (Canonical t) :=
  -- by the members of the two lists: there are also instances that go through all characters
  @instDecidableAnd _ _ (List.decidableBAll (fun c => Text.isBlank c = false) t.toList)
    (List.decidableBAll Text.Decimal.Plain (t.toList.splitOn ','))

theorem text_canonical (hm : m.cells.toList ≠ []) : Canonical m.text := by
  refine ⟨fun c hc => ?_, fun token htoken => ?_⟩
  · rw [text, String.toList_ofList, Text.mem_intercalate_iff] at hc
    rcases hc with ⟨rfl, -⟩ | ⟨l, hl, hc⟩
    · decide
    · obtain ⟨w, -, rfl⟩ := List.mem_map.mp hl
      exact Word.isBlank_of_mem_chars hc
  · rw [splitOn_text hm] at htoken
    obtain ⟨w, -, rfl⟩ := List.mem_map.mp htoken
    exact Text.Decimal.ofInt_plain w.toInt

theorem fields_of_no_blank (h : ∀ c ∈ t.toList, Text.isBlank c = false) : fields t = t.toList.splitOn ',' := by
  have htrim : ∀ token ∈ t.toList.splitOn ',', Text.trim token = id token := by
    intro token htoken
    apply Text.trim_of_no_blank
    intro c hc
    apply h
    have hjoin : [','].intercalate (t.toList.splitOn ',') = t.toList := List.intercalate_splitOn ','
    rw [← hjoin, Text.mem_intercalate_iff]
    exact .inr ⟨token, htoken, hc⟩
  rw [fields, List.map_congr_left htrim, List.map_id]

theorem text_of_parse (h : parse t = .ok m) (ht : Canonical t) : m.text = t := by
  obtain ⟨hblank, hplain⟩ := ht
  have hfields := parse_eq_ok_iff.mp h
  rw [fields_of_no_blank hblank] at hfields
  rw [text, Word.map_chars_of_map_ofText? hfields hplain, List.intercalate_splitOn, String.ofList_toList]

/-- **Reading undoes writing, and writing undoes the reading of a canonical text.** Every memory with cells is
read from its written form, and the one without cells has the empty text, in which there is no word. A text
that is read as a memory gives one with cells, and it is the written form of that memory exactly when it is
canonical. -/
theorem parse_text_round_trip :
    (∀ m : Memory, m.isEmpty = false → parse m.text = .ok m) ∧
    (∀ m : Memory, m.isEmpty = true → m.text = "" ∧ parse m.text = .error ⟨0, ""⟩) ∧
    ∀ t m, parse t = .ok m →
      m.isEmpty = false ∧ parse m.text = .ok m ∧ (m.text = t ↔ Canonical t) := by
  have hempty (m : Memory) : m.isEmpty = true ↔ m.cells.toList = [] := by
    simp [isEmpty]
  refine ⟨fun m hm => ?_, fun m hm => ?_, fun t m h => ?_⟩
  · apply parse_text
    rw [Ne, ← hempty, hm]
    simp
  · have htext : m.text = "" := by
      rw [text, (hempty m).mp hm]
      rfl
    rw [htext]
    exact ⟨rfl, rfl⟩
  · have hne := cells_ne_nil_of_parse h
    refine ⟨?_, parse_text hne, fun htext => ?_, text_of_parse h⟩
    · rw [← Bool.not_eq_true, hempty]
      exact hne
    · rw [← htext]
      exact text_canonical hne

example : Canonical "3,-12,0" ∧ ¬Canonical "3, 4" ∧ ¬Canonical "3,-04" ∧ ¬Canonical "-0" := by decide

end Memory

end Intcode
