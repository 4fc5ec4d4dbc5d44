import Intcode.Proofs.Budget
import Intcode.Search.Basic

/-! What a program makes of a pair. A program of three cells or more has room for the pair, and its run
shortens no memory, so the result can be read when the run has halted: a pair fails to give a value only by
a fault of that run, or because the run has no end. -/

namespace Intcode.Pair

open Machine

variable {p : Pair} {base edited : Memory} {v : Word} {f : Fault}

theorem inBounds_nounAddress : base.InBounds nounAddress ↔ 2 ≤ base.size := by
  rw [Memory.inBounds_iff, show nounAddress.toInt = 1 from rfl]
  omega

theorem inBounds_verbAddress : base.InBounds verbAddress ↔ 3 ≤ base.size := by
  rw [Memory.inBounds_iff, show verbAddress.toInt = 2 from rfl]
  omega

theorem place_eq_ok_iff :
    p.place base = .ok edited ↔
      3 ≤ base.size ∧ edited = (base.set nounAddress p.noun).set verbAddress p.verb := by
  unfold place
  by_cases hfirst : base.InBounds nounAddress
  · rw [Memory.write, if_pos hfirst]
    dsimp only
    rw [Memory.write_eq_ok_iff, Memory.inBounds_set, inBounds_verbAddress]
  · rw [Memory.write, if_neg hfirst]
    rw [inBounds_nounAddress] at hfirst
    simp only [reduceCtorEq, false_iff]
    omega

theorem exists_place (p : Pair) (h : 3 ≤ base.size) : ∃ edited, p.place base = .ok edited :=
  ⟨_, place_eq_ok_iff.mpr ⟨h, rfl⟩⟩

theorem size_of_place (h : p.place base = .ok edited) : edited.size = base.size := by
  rw [(place_eq_ok_iff.mp h).2, Memory.size_set, Memory.size_set]

section Placed

variable (hplace : p.place base = .ok edited)

include hplace

theorem exists_result {r : Except RunError Unit} {m : Machine} (h : (load edited).Runs r m) :
    ∃ v, m.memory.read resultAddress = .ok v := by
  have hsize : m.memory.size = base.size := h.size.trans (size_of_place hplace)
  have hthree := (place_eq_ok_iff.mp hplace).1
  cases hread : m.memory.read resultAddress with
  | ok v => exact ⟨v, rfl⟩
  | error fault =>
      have hnone := (Memory.read_eq_error_iff.mp hread).1
      rw [Memory.cell?_eq_none_iff, show resultAddress.toInt = 0 from rfl] at hnone
      omega

theorem evaluate_of_halt {m : Machine} (h : (load edited).Runs (.ok ()) m)
    (hread : m.memory.read resultAddress = .ok v) : p.evaluate base = .ok v := by
  obtain ⟨hresult, hmachine⟩ := h.reply
  simp only [reply] at hresult hmachine
  simp only [evaluate, hplace, hresult, hmachine, hread]

theorem evaluate_of_fault {m : Machine} (h : (load edited).Runs (.error (.fault f)) m) :
    p.evaluate base = .error (.fault f) := by
  have hresult := h.reply.1
  simp only [reply] at hresult
  simp only [evaluate, hplace, hresult]

theorem evaluate_of_forever (h : ¬∃ r m, (load edited).Runs r m) :
    p.evaluate base = .error (.stepLimit (load edited).stateCount) := by
  have hresult := reply_of_forever h
  simp only [reply] at hresult
  simp only [evaluate, hplace, hresult]

theorem evaluate_cases :
    (∃ m v, (load edited).Runs (.ok ()) m ∧ m.memory.read resultAddress = .ok v ∧ p.evaluate base = .ok v) ∨
      (∃ m f, (load edited).Runs (.error (.fault f)) m ∧ p.evaluate base = .error (.fault f)) ∨
      (¬∃ r m, (load edited).Runs r m) ∧ ∃ l, p.evaluate base = .error (.stepLimit l) := by
  by_cases hruns : ∃ r m, (load edited).Runs r m
  · obtain ⟨r, m, h⟩ := hruns
    rcases h.ok_or_fault with rfl | ⟨f, rfl⟩
    · obtain ⟨v, hread⟩ := exists_result hplace h
      exact .inl ⟨m, v, h, hread, evaluate_of_halt hplace h hread⟩
    · exact .inr (.inl ⟨m, f, h, evaluate_of_fault hplace h⟩)
  · exact .inr (.inr ⟨hruns, _, evaluate_of_forever hplace hruns⟩)

theorem evaluate_eq_ok_iff :
    p.evaluate base = .ok v ↔
      ∃ m, (load edited).Runs (.ok ()) m ∧ m.memory.read resultAddress = .ok v := by
  constructor
  · intro h
    rcases evaluate_cases hplace with ⟨m, v', hruns, hread, hvalue⟩ | ⟨m, f, -, hvalue⟩ | ⟨-, l, hvalue⟩
    · cases hvalue.symm.trans h
      exact ⟨m, hruns, hread⟩
    · cases hvalue.symm.trans h
    · cases hvalue.symm.trans h
  · rintro ⟨m, hruns, hread⟩
    exact evaluate_of_halt hplace hruns hread

theorem evaluate_eq_fault_iff :
    p.evaluate base = .error (.fault f) ↔ ∃ m, (load edited).Runs (.error (.fault f)) m := by
  constructor
  · intro h
    rcases evaluate_cases hplace with ⟨m, v, -, -, hvalue⟩ | ⟨m, f', hruns, hvalue⟩ | ⟨-, l, hvalue⟩
    · cases hvalue.symm.trans h
    · cases hvalue.symm.trans h
      exact ⟨m, hruns⟩
    · cases hvalue.symm.trans h
  · rintro ⟨m, hruns⟩
    exact evaluate_of_fault hplace hruns

theorem evaluate_eq_stepLimit_iff :
    (∃ l, p.evaluate base = .error (.stepLimit l)) ↔ ¬∃ r m, (load edited).Runs r m := by
  constructor
  · rintro ⟨l, h⟩
    rcases evaluate_cases hplace with ⟨m, v, -, -, hvalue⟩ | ⟨m, f, -, hvalue⟩ | ⟨hforever, -⟩
    · cases hvalue.symm.trans h
    · cases hvalue.symm.trans h
    · exact hforever
  · intro h
    exact ⟨_, evaluate_of_forever hplace h⟩

end Placed

end Intcode.Pair
