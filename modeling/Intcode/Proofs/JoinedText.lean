import Intcode.Proofs.Grammar

/-! Texts with a comma between them, and blanks beside a comma. The fields of a joined text are those of its
parts, one after the other, so it is read as the parts are, and the first field that is no word has as many
more before it as the first part has fields. Blanks at an end of a text or beside a comma are at an end of a
field, and are taken off it. -/

namespace Intcode.Memory

variable {s t u v blanks front back : String} {a b : Memory} {e : ParseError}

/-! ### A comma between two texts -/

theorem fields_join (s t : String) : fields (s ++ "," ++ t) = fields s ++ fields t := by
  have hjoin : (s ++ "," ++ t).toList = s.toList ++ ',' :: t.toList := by
    rw [String.toList_append, String.toList_append, List.append_assoc]
    rfl
  rw [fields, hjoin, List.splitOn_append_cons_self, List.map_append]
  rfl

theorem length_fields_of_parse (h : parse t = .ok a) : (fields t).length = a.size :=
  (parse_eq_ok_iff_cells.mp h).1.symm

theorem words_of_parse (h : parse s = .ok a) {i : Nat} {f : List Char} (hf : (fields s)[i]? = some f) :
    Word.ofText? f ≠ none := by
  obtain ⟨w, -, hw⟩ := (parse_eq_ok_iff_cells.mp h).2 i f hf
  simp [hw]

theorem parse_join_of_error (h : parse s = .error e) (t : String) : parse (s ++ "," ++ t) = .error e := by
  obtain ⟨f, hf, hnone, hbefore, htoken⟩ := parse_eq_error_iff.mp h
  have hlt := (List.getElem?_eq_some_iff.mp hf).1
  rw [parse_eq_error_iff, fields_join]
  refine ⟨f, ?_, hnone, fun j hj g hg => ?_, htoken⟩
  · rw [List.getElem?_append_left hlt, hf]
  · rw [List.getElem?_append_left (hj.trans hlt)] at hg
    exact hbefore j hj g hg

theorem parse_join_of_ok_error (hs : parse s = .ok a) (ht : parse t = .error e) :
    parse (s ++ "," ++ t) = .error ⟨a.size + e.index, e.token⟩ := by
  obtain ⟨f, hf, hnone, hbefore, htoken⟩ := parse_eq_error_iff.mp ht
  have hlength := length_fields_of_parse hs
  rw [parse_eq_error_iff, fields_join]
  dsimp only
  refine ⟨f, ?_, hnone, fun j hj g hg => ?_, htoken⟩
  · rw [List.getElem?_append_right (by omega), hlength, Nat.add_sub_cancel_left, hf]
  · by_cases hfirst : j < a.size
    · rw [List.getElem?_append_left (by omega)] at hg
      exact words_of_parse hs hg
    · rw [List.getElem?_append_right (by omega), hlength] at hg
      exact hbefore (j - a.size) (by omega) g hg

theorem parse_join_of_ok (hs : parse s = .ok a) (ht : parse t = .ok b) :
    parse (s ++ "," ++ t) = .ok ⟨a.cells ++ b.cells⟩ := by
  rw [parse_eq_ok_iff] at hs ht ⊢
  rw [fields_join, List.map_append, hs, ht, Array.toList_append, List.map_append]

/-! ### Blanks beside a comma -/

/-- There is nothing but blanks in the text. -/
def Blank (blanks : String) : Prop := ∀ c ∈ blanks.toList, Text.isBlank c = true

instance (blanks : String) : Decidable (Blank blanks) :=
  List.decidableBAll (fun c => Text.isBlank c = true) blanks.toList

/-- The place between two parts of a text is at the start or at the end of the text, or directly behind or
before a comma. -/
inductive Margin : String → String → Prop where
  | start (t : String) : Margin "" t
  | finish (t : String) : Margin t ""
  | behind (s t : String) : Margin (s ++ ",") t
  | before (s t : String) : Margin s ("," ++ t)

/-- `Respaced t t'` says that `t'` comes from `t` by putting in or taking out blanks at such places, any number
of times. -/
inductive Respaced (t : String) : String → Prop where
  | refl : Respaced t t
  | insert (u v blanks : String) : Respaced t (u ++ v) → Margin u v → Blank blanks →
      Respaced t (u ++ blanks ++ v)
  | remove (u v blanks : String) : Respaced t (u ++ blanks ++ v) → Margin u v → Blank blanks →
      Respaced t (u ++ v)

/-- Blanks at the ends of a text are blanks at an end of its first field and of its last. -/
theorem fields_of_blank_ends (hfront : Blank front) (hback : Blank back) (t : String) :
    fields (front ++ t ++ back) = fields t := by
  rw [fields, fields, String.toList_append, String.toList_append]
  exact Text.map_trim_splitOn_of_blank_ends hfront hback

theorem blank_empty : Blank "" := fun _ hc => absurd hc List.not_mem_nil

theorem fields_blanks_append (h : Blank front) (t : String) : fields (front ++ t) = fields t := by
  have hends := fields_of_blank_ends h blank_empty t
  rwa [String.append_empty] at hends

theorem fields_append_blanks (h : Blank back) (t : String) : fields (t ++ back) = fields t := by
  have hends := fields_of_blank_ends blank_empty h t
  rwa [String.empty_append] at hends

theorem parse_append_blanks (h : Blank back) (t : String) : parse (t ++ back) = parse t := by
  rw [parse, parse, fields_append_blanks h]

/-- The commas beside a place stay where they are, so the blanks there are those at an end of one part. -/
theorem fields_insert_blanks (h : Margin u v) (hblanks : Blank blanks) :
    fields (u ++ blanks ++ v) = fields (u ++ v) := by
  cases h with
  | start => rw [String.empty_append, String.empty_append, fields_blanks_append hblanks]
  | finish => rw [String.append_empty, String.append_empty, fields_append_blanks hblanks]
  | behind s => rw [String.append_assoc, fields_join, fields_join, fields_blanks_append hblanks]
  | before s t =>
      rw [← String.append_assoc, ← String.append_assoc, fields_join, fields_join, fields_append_blanks hblanks]

theorem Respaced.fields_eq {t' : String} (h : Respaced t t') : fields t' = fields t := by
  induction h with
  | refl => rfl
  | insert u v blanks _ hplace hblanks ih => rw [fields_insert_blanks hplace hblanks, ih]
  | remove u v blanks _ hplace hblanks ih => rw [← fields_insert_blanks hplace hblanks, ih]

/-- **A text is read part by part, and blanks beside a comma make no difference.** If the first of two texts
cannot be read, a comma and the second behind it do not change what is reported. If only the second cannot, its
first bad field is reported, with the fields of the first text counted too. If both can be read, the cells are
those of the one and then those of the other. And blanks may be put in or taken out at both ends of a text and
directly before and behind any comma: what is read, or the field that is reported with its position and its
text, stays the same. -/
theorem parse_part_by_part :
    (∀ s t e, parse s = .error e → parse (s ++ "," ++ t) = .error e) ∧
    (∀ s t a e, parse s = .ok a → parse t = .error e →
      parse (s ++ "," ++ t) = .error ⟨a.size + e.index, e.token⟩) ∧
    (∀ s t a b, parse s = .ok a → parse t = .ok b → parse (s ++ "," ++ t) = .ok ⟨a.cells ++ b.cells⟩) ∧
    (∀ u v blanks, Margin u v → Blank blanks → parse (u ++ blanks ++ v) = parse (u ++ v)) ∧
    ∀ t t', Respaced t t' → parse t' = parse t := by
  refine ⟨fun s t e hs => parse_join_of_error hs t, fun s t a e => parse_join_of_ok_error,
    fun s t a b => parse_join_of_ok, fun u v blanks hplace hblanks => ?_, fun t t' h => ?_⟩
  · rw [parse, parse, fields_insert_blanks hplace hblanks]
  · rw [parse, parse, h.fields_eq]

/-- The second text has an empty field at its end, and the blanks around each field are of several kinds. -/
theorem parse_part_by_part_with_blanks :
    parse " 1,\t2 " = .ok ⟨#[1, 2]⟩ ∧ parse "\n7 , " = .error ⟨1, ""⟩ ∧
      parse (" 1,\t2 " ++ "," ++ "\n7 , ") = .error ⟨3, ""⟩ ∧
      parse ("\n7 , " ++ "," ++ " 1,\t2 ") = .error ⟨1, ""⟩ ∧
      parse (" 1,\t2 " ++ "," ++ " 1,\t2 ") = .ok ⟨#[1, 2, 1, 2]⟩ ∧
      Margin "\n7 " ", " ∧ Blank "\u00a0" ∧ parse ("\n7 " ++ "\u00a0" ++ ", ") = .error ⟨1, ""⟩ ∧
      Respaced " 1,\t2 " "1, 2" ∧ parse "1, 2" = .ok ⟨#[1, 2]⟩ := by
  have hread : parse " 1,\t2 " = .ok ⟨#[1, 2]⟩ := by decide
  have hbad : parse "\n7 , " = .error ⟨1, ""⟩ := by decide
  have hplace : Margin "\n7 " ", " := .before "\n7 " " "
  have hblank : Blank "\u00a0" := by decide
  have hrespaced : Respaced " 1,\t2 " "1, 2" := by
    have hfront : Respaced " 1,\t2 " "1,\t2 " := .remove "" "1,\t2 " " " .refl (.start _) (by decide)
    have hback : Respaced " 1,\t2 " "1,\t2" := .remove "1,\t2" "" " " hfront (.finish _) (by decide)
    have htab : Respaced " 1,\t2 " "1,2" := .remove "1," "2" "\t" hback (.behind "1" "2") (by decide)
    exact .insert "1," "2" " " htab (.behind "1" "2") (by decide)
  obtain ⟨hfirst, hsecond, hboth, hinsert, hspaced⟩ := parse_part_by_part
  exact ⟨hread, hbad, hsecond _ _ _ _ hread hbad, hfirst _ _ _ hbad, hboth _ _ _ _ hread hread, hplace, hblank,
    (hinsert _ _ _ hplace hblank).trans hbad, hrespaced, (hspaced _ _ hrespaced).trans hread⟩

end Intcode.Memory
