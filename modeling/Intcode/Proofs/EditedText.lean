import Intcode.Machine.Program
import Intcode.Proofs.Evaluation
import Intcode.Proofs.ProgramText

/-! A pair in a program and in its text. What a program makes of a pair can be found in two ways: the two words
are written into its memory, or the memory with these words is written down and the text is run. The text is
read back as the memory that was written down, so both start the same machine. The words take the place of those
that the program holds at their addresses, which are therefore not observed. -/

namespace Intcode

namespace Machine

variable {t : String} {memory : Memory} {last : Machine} {f : Fault}

section Parsed

variable (hparse : Memory.parse t = .ok memory)

include hparse

theorem ofText_of_parse : ofText t = .ok (load memory) := by
  rw [ofText, hparse]

theorem runText_of_halt (h : (load memory).Runs (.ok ()) last) : runText t = .ok last := by
  obtain ⟨hresult, hmachine⟩ := h.reply
  simp only [runText, ofText_of_parse hparse, hresult, hmachine]

theorem runText_of_fault (h : (load memory).Runs (.error (.fault f)) last) :
    runText t = .error (.run (.fault f)) := by
  simp only [runText, ofText_of_parse hparse, h.reply.1]

theorem runText_of_forever (h : ¬∃ r last, (load memory).Runs r last) :
    runText t = .error (.run (.stepLimit (load memory).stateCount)) := by
  simp only [runText, ofText_of_parse hparse, reply_of_forever h]

end Parsed

end Machine

namespace Pair

open Machine

variable {p : Pair} {base edited other : Memory} {v : Word} {f : Fault} {e : RunError}

/-- `edited` is the program `base` with the noun in its second cell and the verb in its third. -/
structure Edits (p : Pair) (base edited : Memory) : Prop where
  size : edited.size = base.size
  cell : ∀ k, edited.cell? k = if k = 2 then some p.verb else if k = 1 then some p.noun else base.cell? k

theorem edits_of_place (h : p.place base = .ok edited) : p.Edits base edited where
  size := size_of_place h
  cell k := by
    obtain ⟨hlong, rfl⟩ := place_eq_ok_iff.mp h
    have hnoun : base.InBounds nounAddress := inBounds_nounAddress.mpr (Nat.le_of_succ_le hlong)
    have hverb : (base.set nounAddress p.noun).InBounds verbAddress :=
      Memory.inBounds_set.mpr (inBounds_verbAddress.mpr hlong)
    rw [Memory.cell?_set hverb, Memory.cell?_set hnoun]
    rfl

theorem place_of_edits (h : p.Edits base edited) : p.place base = .ok edited := by
  have hverb := (Memory.cell?_eq_some_bound (h.cell 2)).2
  rw [h.size] at hverb
  have hlong : 3 ≤ base.size := by omega
  obtain ⟨placed, hplace⟩ := p.exists_place hlong
  have hsame : edited = placed :=
    Memory.ext_cell? fun k => (h.cell k).trans ((edits_of_place hplace).cell k).symm
  rw [hsame, hplace]

theorem place_of_size_le_one (h : base.size ≤ 1) : p.place base = .error (.outOfBounds 1 base.size) := by
  have hnoun : ¬base.InBounds nounAddress := by
    rw [inBounds_nounAddress]
    omega
  rw [place, Memory.write, if_neg hnoun]
  rfl

theorem place_of_size_eq_two (h : base.size = 2) : p.place base = .error (.outOfBounds 2 2) := by
  have hnoun : base.InBounds nounAddress := inBounds_nounAddress.mpr (Nat.le_of_eq h.symm)
  have hverb : ¬(base.set nounAddress p.noun).InBounds verbAddress := by
    rw [Memory.inBounds_set, inBounds_verbAddress]
    omega
  rw [place, Memory.write, if_pos hnoun]
  dsimp only
  rw [Memory.write, if_neg hverb, Memory.outOfBounds, Memory.size_set, h]
  rfl

theorem evaluate_of_place_error (h : p.place base = .error f) : p.evaluate base = .error (.fault f) := by
  rw [evaluate, h]

/-- A program without room for the pair is at fault for the first of the two addresses that it lacks. -/
theorem evaluate_of_short (h : base.size < 3) :
    p.evaluate base = .error (.fault (.outOfBounds (if base.size ≤ 1 then 1 else 2) base.size)) := by
  apply evaluate_of_place_error
  split
  · rename_i hone
    exact place_of_size_le_one hone
  · rename_i hone
    have htwo : base.size = 2 := by omega
    rw [htwo]
    exact place_of_size_eq_two htwo

/-- The pair stands in the place of what the program held there. -/
theorem place_congr (hsize : other.size = base.size)
    (hcell : ∀ k, k ≠ 1 → k ≠ 2 → other.cell? k = base.cell? k) : p.place other = p.place base := by
  by_cases hlong : 3 ≤ base.size
  · obtain ⟨edited, hplace⟩ := p.exists_place hlong
    obtain ⟨edited', hplace'⟩ := p.exists_place (hsize ▸ hlong)
    have hsame : edited' = edited := by
      apply Memory.ext_cell?
      intro k
      rw [(edits_of_place hplace).cell, (edits_of_place hplace').cell]
      split
      · rfl
      · rename_i hverb
        split
        · rfl
        · rename_i hnoun
          exact hcell k hnoun hverb
    rw [hplace, hplace', hsame]
  · by_cases hone : base.size ≤ 1
    · rw [place_of_size_le_one hone, place_of_size_le_one (hsize ▸ hone), hsize]
    · have htwo : base.size = 2 := by omega
      rw [place_of_size_eq_two htwo, place_of_size_eq_two (hsize.trans htwo)]

section Placed

variable (hplace : p.place base = .ok edited)

include hplace

theorem parse_text_of_place : Memory.parse edited.text = .ok edited := by
  have hsize := size_of_place hplace
  have hlong := (place_eq_ok_iff.mp hplace).1
  exact Memory.parse_text (Memory.cells_ne_nil_of_size (by omega))

/-- Both ways come to the same: a halt, with the value in the first cell, or an error. -/
theorem runText_cases :
    (∃ last v, runText edited.text = .ok last ∧ last.memory.cell? 0 = some v ∧ p.evaluate base = .ok v) ∨
      ∃ e, runText edited.text = .error (.run e) ∧ p.evaluate base = .error e := by
  have hparse := parse_text_of_place hplace
  by_cases hruns : ∃ r last, (load edited).Runs r last
  · obtain ⟨r, last, h⟩ := hruns
    rcases h.ok_or_fault with rfl | ⟨f, rfl⟩
    · obtain ⟨v, hread⟩ := exists_result hplace h
      have hvalue := evaluate_of_halt hplace h hread
      exact .inl ⟨last, v, runText_of_halt hparse h, Memory.read_eq_ok_iff.mp hread, hvalue⟩
    · exact .inr ⟨.fault f, runText_of_fault hparse h, evaluate_of_fault hplace h⟩
  · exact .inr ⟨_, runText_of_forever hparse hruns, evaluate_of_forever hplace hruns⟩

theorem evaluate_eq_error_iff_runText :
    p.evaluate base = .error e ↔ runText edited.text = .error (.run e) := by
  rcases runText_cases hplace with ⟨last, v, hrun, -, hvalue⟩ | ⟨e', hrun, hvalue⟩
  · simp [hrun, hvalue]
  · simp [hrun, hvalue]

theorem evaluate_eq_ok_iff_runText :
    p.evaluate base = .ok v ↔ ∃ last, runText edited.text = .ok last ∧ last.memory.cell? 0 = some v := by
  rcases runText_cases hplace with ⟨last, v', hrun, hcell, hvalue⟩ | ⟨e, hrun, hvalue⟩
  · simp [hrun, hvalue, hcell]
  · simp [hrun, hvalue]

end Placed

/-- **Evaluating a pair agrees with running the edited text.** In a program of three cells or more there is room
for every pair. Let the program with the noun in its second cell and the verb in its third be written down. The
text is read back; running it comes to an end exactly when evaluating the pair does, fails with the same error,
and halts with the value of the pair in the first cell. Evaluating does not depend on what the program held in
these two cells, and in a program with less than three it fails for the address of the first that it lacks. -/
theorem evaluate_agrees_with_text (p : Pair) (base : Memory) :
    (3 ≤ base.size → ∃ edited, p.Edits base edited ∧
      ((∃ r last, (load edited).Runs r last) ↔ ∀ l, p.evaluate base ≠ .error (.stepLimit l)) ∧
      ((∃ r last, (load edited).Runs r last) ↔ ∀ l, runText edited.text ≠ .error (.run (.stepLimit l))) ∧
      (∀ e, runText edited.text ≠ .error (.text e)) ∧
      (∀ e, p.evaluate base = .error e ↔ runText edited.text = .error (.run e)) ∧
      (∀ v, p.evaluate base = .ok v ↔
        ∃ last, runText edited.text = .ok last ∧ last.memory.cell? 0 = some v) ∧
      ∀ last, runText edited.text = .ok last → ∃ v, last.memory.cell? 0 = some v) ∧
    (∀ other : Memory, other.size = base.size → (∀ k, k ≠ 1 → k ≠ 2 → other.cell? k = base.cell? k) →
      p.evaluate other = p.evaluate base) ∧
    (base.size < 3 →
      p.evaluate base = .error (.fault (.outOfBounds (if base.size ≤ 1 then 1 else 2) base.size))) := by
  refine ⟨fun hlong => ?_, fun other hsize hcell => ?_, evaluate_of_short⟩
  · obtain ⟨edited, hplace⟩ := p.exists_place hlong
    have hends : (∃ r last, (load edited).Runs r last) ↔ ∀ l, p.evaluate base ≠ .error (.stepLimit l) := by
      rw [← not_iff_not, ← evaluate_eq_stepLimit_iff hplace]
      simp
    refine ⟨edited, edits_of_place hplace, hends, ?_, fun e => ?_,
      fun e => evaluate_eq_error_iff_runText hplace, fun v => evaluate_eq_ok_iff_runText hplace,
      fun last hlast => ?_⟩
    · simp only [hends, ne_eq, evaluate_eq_error_iff_runText hplace]
    · rcases runText_cases hplace with ⟨last, v, hrun, -⟩ | ⟨e', hrun, -⟩
      · simp [hrun]
      · simp [hrun]
    · rcases runText_cases hplace with ⟨last', v, hrun, hcell, -⟩ | ⟨e, hrun, -⟩
      · cases hrun.symm.trans hlast
        exact ⟨v, hcell⟩
      · cases hrun.symm.trans hlast
  · rw [evaluate, evaluate, place_congr hsize hcell]

end Pair

end Intcode
