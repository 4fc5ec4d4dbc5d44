import Intcode.Proofs.Search

/-! More cells behind the last one. What a step does in a memory it does in a padded one too, unless it fails
because an address is not in bounds: cells that hold something hold the same, and nothing else of a memory
is looked at. So a run that halts takes the same steps, and a pair that gives a value gives the same; only a
pair whose run fails can give a value that it did not give before. -/

namespace Intcode

namespace Memory

variable {m : Memory} {a v w : Word} {k : Int} {n : Nat}

theorem cell?_padded_of_some (h : m.cell? k = some w) : (m.padded n).cell? k = some w := by
  have hlt := (cell?_eq_some_bound h).2
  rw [cell?_padded, if_neg (by omega), h]

theorem read_padded (h : m.read a = .ok w) : (m.padded n).read a = .ok w :=
  read_eq_ok_iff.mpr (cell?_padded_of_some (read_eq_ok_iff.mp h))

theorem inBounds_padded (h : m.InBounds a) : (m.padded n).InBounds a := by
  rw [inBounds_iff] at h ⊢
  rw [size_padded]
  omega

/-- Writing into a cell and padding may be exchanged. -/
theorem set_padded (h : m.InBounds a) : (m.padded n).set a v = (m.set a v).padded n := by
  have hlt := (inBounds_iff.mp h).2
  apply ext_cell?
  intro k
  rw [cell?_set (inBounds_padded h), cell?_padded, cell?_padded, cell?_set h, size_set]
  by_cases hk : k = a.toInt
  · rw [if_pos hk, if_pos hk, if_neg (by omega)]
  · rw [if_neg hk, if_neg hk]

theorem operand_padded {parameter : Role × Mode} (h : m.operand a parameter = .ok w) :
    (m.padded n).operand a parameter = .ok w := by
  obtain ⟨raw, hraw, hvalue⟩ := operand_eq_ok_iff.mp h
  refine operand_eq_ok_iff.mpr ⟨raw, cell?_padded_of_some hraw, ?_⟩
  rcases hvalue with ⟨hparameter, hw⟩ | hvalue
  · exact .inl ⟨hparameter, cell?_padded_of_some hw⟩
  · exact .inr hvalue

theorem operands_padded {pc : UInt64} {ps : List (Role × Mode)} {xs : List Word}
    (h : m.operands pc ps = .ok xs) : (m.padded n).operands pc ps = .ok xs := by
  rw [operands_eq_ok_iff] at h ⊢
  exact ⟨h.1, fun k p x hp hx => operand_padded (h.2 k p x hp hx)⟩

/-- A pair is placed in a padded program as in the program itself. -/
theorem place_padded {p : Pair} {edited : Memory} (h : p.place m = .ok edited) :
    p.place (m.padded n) = .ok (edited.padded n) := by
  obtain ⟨hthree, rfl⟩ := Pair.place_eq_ok_iff.mp h
  have hnoun : m.InBounds Pair.nounAddress := by
    rw [inBounds_iff, show Pair.nounAddress.toInt = 1 from rfl]
    omega
  have hverb : (m.set Pair.nounAddress p.noun).InBounds Pair.verbAddress := by
    rw [inBounds_iff, size_set, show Pair.verbAddress.toInt = 2 from rfl]
    omega
  rw [Pair.place_eq_ok_iff, size_padded, set_padded hnoun, set_padded hverb]
  exact ⟨by omega, rfl⟩

end Memory

namespace Instruction

variable {m : Memory} {pc : UInt64} {i : Instruction} {f : Fault} {n : Nat}

theorem decode_padded (h : decode m pc = .ok i) : decode (m.padded n) pc = .ok i := by
  rw [decode_eq_ok_iff] at h ⊢
  exact ⟨Memory.cell?_padded_of_some h.1, h.2⟩

theorem decode_padded_of_error (h : decode m pc = .error f) (hf : ∀ a size, f ≠ .outOfBounds a size) :
    decode (m.padded n) pc = .error f := by
  rcases decode_eq_error_iff.mp h with ⟨-, rfl⟩ | ⟨w, hcell, hword⟩
  · exact absurd rfl (hf _ _)
  · exact decode_eq_error_iff.mpr (.inr ⟨w, Memory.cell?_padded_of_some hcell, hword⟩)

theorem operands_padded {x : Operands} (h : i.operands m pc = .ok x) :
    i.operands (m.padded n) pc = .ok x := by
  obtain ⟨values, hvalues, hx⟩ := operands_eq_ok_iff.mp h
  exact operands_eq_ok_iff.mpr ⟨values, Memory.operands_padded hvalues, hx⟩

end Instruction

namespace Machine

/-- The machine with a padded memory. -/
def padded (m : Machine) (n : Nat) : Machine := { m with memory := m.memory.padded n }

variable {m : Machine} {i : Instruction} {x : Operands} {o : Opcode} {e : Effect} {f : Fault} {n : Nat}

theorem fetch_padded (h : m.fetch = .ok (i, x)) : (m.padded n).fetch = .ok (i, x) := by
  rw [fetch_eq_ok_iff] at h ⊢
  exact ⟨Instruction.decode_padded h.1, Instruction.operands_padded h.2⟩

theorem fetch_padded_of_error (h : m.fetch = .error f) (hf : ∀ a size, f ≠ .outOfBounds a size) :
    (m.padded n).fetch = .error f := by
  rcases fetch_eq_error_iff.mp h with hdecode | ⟨i, -, hoperands⟩
  · exact fetch_eq_error_iff.mpr (.inl (Instruction.decode_padded_of_error hdecode hf))
  · obtain ⟨a, rfl⟩ := outOfBounds_of_operands hoperands
    exact absurd rfl (hf _ _)

theorem writing_padded {d v : Word} (h : m.writing d v = .ok e) : (m.padded n).writing d v = .ok e := by
  rw [writing_eq_ok_iff] at h ⊢
  exact ⟨Memory.inBounds_padded h.1, h.2⟩

theorem jumping_padded {taken : Bool} {b : Word} (h : m.jumping taken b = .ok e) :
    (m.padded n).jumping taken b = .ok e := by
  unfold jumping at h ⊢
  cases taken with
  | false => exact h
  | true =>
      by_cases hb : b < 0
      · simp [hb] at h
      · simpa [hb] using h

theorem effect_padded (h : m.effect o x = .ok e) : (m.padded n).effect o x = .ok e := by
  rcases effect_shape m (m.padded n) rfl rfl o x with ⟨d, v, hm, hm'⟩ | ⟨taken, b, hm, hm'⟩ | ⟨hsame, -⟩
  · rw [hm']
    exact writing_padded (hm.symm.trans h)
  · rw [hm']
    exact jumping_padded (hm.symm.trans h)
  · exact hsame.trans h

theorem effect_padded_of_error (h : m.effect o x = .error f) (hf : ∀ a size, f ≠ .outOfBounds a size) :
    (m.padded n).effect o x = .error f := by
  rcases effect_shape m (m.padded n) rfl rfl o x with ⟨d, v, hm, -⟩ | ⟨taken, b, hm, -⟩ | ⟨hsame, -⟩
  · exact absurd (writing_eq_error_iff.mp (hm.symm.trans h)).2 (hf _ _)
  · exact absurd (jumping_eq_error_iff.mp (hm.symm.trans h)).2.2 (hf _ _)
  · exact hsame.trans h

theorem apply_padded (h : m.effect o x = .ok e) (length : Nat) :
    (m.padded n).apply length e = (m.apply length e).padded n := by
  cases e with
  | output | jump | pass | halt => rfl
  | write d v =>
      have hbounds : m.memory.InBounds d := inBounds_of_effect h
      have hset := Memory.set_padded (v := v) (n := n) hbounds
      simp only [apply, padded, hset]

/-! ### Steps and runs -/

theorem attempt_padded (h : m.attempt = .ok (o, e)) : (m.padded n).attempt = .ok (o, e) := by
  obtain ⟨i, x, hfetch, ho, heffect⟩ := attempt_eq_ok_iff.mp h
  exact attempt_eq_ok_iff.mpr ⟨i, x, fetch_padded hfetch, ho, effect_padded heffect⟩

theorem attempt_padded_of_error (h : m.attempt = .error f) (hf : ∀ a size, f ≠ .outOfBounds a size) :
    (m.padded n).attempt = .error f := by
  rcases attempt_eq_error_iff.mp h with hfetch | ⟨i, x, hfetch, heffect⟩
  · exact attempt_eq_error_iff.mpr (.inl (fetch_padded_of_error hfetch hf))
  · exact attempt_eq_error_iff.mpr (.inr ⟨i, x, fetch_padded hfetch, effect_padded_of_error heffect hf⟩)

/-- A step that does not miss a cell is the same in a padded memory. -/
theorem step_padded (h : ∀ a size, m.step.outcome ≠ .faulted (.outOfBounds a size)) (n : Nat) :
    (m.padded n).step.outcome = m.step.outcome ∧ (m.padded n).step.machine = m.step.machine.padded n := by
  by_cases hm : m.status = .halted
  · have hm' : (m.padded n).status = .halted := hm
    rw [step_of_halted hm, step_of_halted hm']
    exact ⟨rfl, rfl⟩
  · have hm' : (m.padded n).status ≠ .halted := hm
    cases hattempt : m.attempt with
    | error f =>
        obtain ⟨houtcome, hmachine⟩ := step_of_attempt_error hm hattempt
        have hf : ∀ a size, f ≠ .outOfBounds a size := by
          rintro a size rfl
          exact h a size houtcome
        obtain ⟨houtcome', hmachine'⟩ := step_of_attempt_error hm' (attempt_padded_of_error hattempt hf)
        rw [houtcome, houtcome', hmachine, hmachine']
        exact ⟨rfl, rfl⟩
    | ok attempted =>
        obtain ⟨o, e⟩ := attempted
        obtain ⟨i, x, -, rfl, heffect⟩ := attempt_eq_ok_iff.mp hattempt
        obtain ⟨houtcome, hmachine⟩ := step_of_attempt_ok hm hattempt
        obtain ⟨houtcome', hmachine'⟩ := step_of_attempt_ok hm' (attempt_padded (n := n) hattempt)
        rw [houtcome, houtcome', hmachine, hmachine']
        exact ⟨rfl, apply_padded heffect _⟩

theorem after_padded {k : Nat} (h : m.Ongoing k) (n : Nat) :
    (m.padded n).Ongoing k ∧ (m.padded n).after k = (m.after k).padded n := by
  induction k with
  | zero => exact ⟨fun j hj => absurd hj (Nat.not_lt_zero j), rfl⟩
  | succ k ih =>
      obtain ⟨hongoing, hafter⟩ := ih (h.mono (Nat.le_succ k))
      have hlast := h k (Nat.lt_succ_self k)
      obtain ⟨houtcome, hmachine⟩ := step_padded (m := m.after k) (by simp [hlast]) n
      refine ⟨fun j hj => ?_, ?_⟩
      · rcases Nat.lt_succ_iff_lt_or_eq.mp hj with hlt | rfl
        · exact hongoing j hlt
        · rw [hafter, houtcome, hlast]
      · rw [after_succ, hafter, hmachine, ← after_succ]

/-- A row of steps that does not end with a missed cell is the same in a padded memory. -/
theorem Ends.padded {k : Nat} {o : Outcome} (h : m.Ends k o) (ho : ∀ a size, o ≠ .faulted (.outOfBounds a size))
    (n : Nat) : (m.padded n).Ends k o ∧ (m.padded n).after (k + 1) = (m.after (k + 1)).padded n := by
  obtain ⟨hongoing, hafter⟩ := after_padded h.before n
  have hlast := h.last
  obtain ⟨houtcome, hmachine⟩ := step_padded (m := m.after k) (by rwa [hlast]) n
  refine ⟨⟨hongoing, ?_, h.stops⟩, ?_⟩
  · rw [hafter, houtcome, hlast]
  · rw [after_succ, hafter, hmachine, ← after_succ]

theorem Runs.padded {r : Except RunError Unit} {m' : Machine} (h : m.Runs r m')
    (hr : ∀ a size, r ≠ .error (.fault (.outOfBounds a size))) (n : Nat) :
    (m.padded n).Runs r (m'.padded n) := by
  induction h with
  | @halt m hlast =>
      obtain ⟨houtcome, hmachine⟩ := step_padded (m := m) (by simp [hlast]) n
      rw [← hmachine]
      exact .halt (houtcome.trans hlast)
  | @fault m f hlast =>
      have hf : ∀ a size, m.step.outcome ≠ .faulted (.outOfBounds a size) := by
        intro a size ho
        cases hlast.symm.trans ho
        exact hr a size rfl
      obtain ⟨houtcome, hmachine⟩ := step_padded hf n
      rw [← hmachine]
      exact .fault (houtcome.trans hlast)
  | @next m _ _ hstep _ ih =>
      obtain ⟨houtcome, hmachine⟩ := step_padded (m := m) (by simp [hstep]) n
      have hrest := ih hr
      rw [← hmachine] at hrest
      exact .next (houtcome.trans hstep) hrest

theorem run_padded {k : Nat} (h : m.Ends k .halted) (n : Nat) :
    (m.padded n).run = ⟨.halted, (m.after (k + 1)).padded n, k + 1⟩ := by
  obtain ⟨hends, hafter⟩ := h.padded (by simp) n
  rw [run_of_ends hends, hafter]

end Machine

/-! ### Pairs -/

theorem Pair.evaluate_padded {p : Pair} {base : Memory} {v : Word} (h : p.evaluate base = .ok v) (n : Nat) :
    p.evaluate (base.padded n) = .ok v := by
  cases hplace : p.place base with
  | error f =>
      rw [evaluate, hplace] at h
      cases h
  | ok edited =>
      obtain ⟨m, hruns, hread⟩ := (evaluate_eq_ok_iff hplace).mp h
      have hruns' : (Machine.load (edited.padded n)).Runs (.ok ()) (m.padded n) := hruns.padded (by simp) n
      exact evaluate_of_halt (Memory.place_padded hplace) hruns' (Memory.read_padded hread)

theorem Pair.before_trichotomy (p q : Pair) : p.Before q ∨ p = q ∨ q.Before p := by
  have hwords (a b : Word) : a < b ∨ a = b ∨ b < a := by
    rw [Int64.lt_iff_toInt_lt, Int64.lt_iff_toInt_lt, ← Int64.toInt_inj]
    omega
  rcases hwords p.noun q.noun with hlt | heq | hgt
  · exact .inl (.inl hlt)
  · rcases hwords p.verb q.verb with hlt | hverb | hgt
    · exact .inl (.inr ⟨heq, hlt⟩)
    · exact .inr (.inl (Pair.ext_words heq hverb))
    · exact .inr (.inr (.inr ⟨heq.symm, hgt⟩))
  · exact .inr (.inr (.inl hgt))

/-- In a padded program a search stops at the same pair or at one before it. -/
theorem Search.solve_padded {s : Search} {p : Pair} (h : s.solve = .ok p) (n : Nat) :
    ∃ q, ({ s with base := s.base.padded n } : Search).solve = .ok q ∧ (q = p ∨ q.Before p) := by
  obtain ⟨hlong, hwithin, hhit, -⟩ := solve_eq_ok_iff.mp h
  have hhit' := Pair.evaluate_padded hhit n
  have hlong' : 3 ≤ (s.base.padded n).size := by
    rw [Memory.size_padded]
    omega
  cases hsolve : ({ s with base := s.base.padded n } : Search).solve with
  | error e =>
      cases e with
      | programTooShort =>
          have hshort := solve_eq_programTooShort_iff.mp hsolve
          dsimp only at hshort
          omega
      | noSolution t =>
          obtain ⟨-, -, hnone⟩ := solve_eq_noSolution_iff.mp hsolve
          exact absurd hhit' (hnone p hwithin)
  | ok q =>
      obtain ⟨-, -, -, hbelow⟩ := solve_eq_ok_iff.mp hsolve
      refine ⟨q, rfl, ?_⟩
      rcases p.before_trichotomy q with hbefore | rfl | hbefore
      · exact absurd hhit' (hbelow p hwithin hbefore)
      · exact .inl rfl
      · exact .inr hbefore

namespace Machine

/-- **Padding is not observed by programs that stay in bounds.** A step that does not miss a cell comes to the
same in a padded memory and leaves the padded machine. So a program that halts does so in a padded memory,
after as many steps, with the same counter and output and with the same memory padded; a pair that gives a
value gives it in the padded program; and where a search finds a pair, the search in the padded program finds
the same or an earlier one. -/
theorem padding_not_observed (n : Nat) :
    (∀ m : Machine, (∀ a size, m.step.outcome ≠ .faulted (.outOfBounds a size)) →
      (m.padded n).step.outcome = m.step.outcome ∧ (m.padded n).step.machine = m.step.machine.padded n) ∧
    (∀ memory input k, let start : Machine := { load memory with input }
      let start' : Machine := { load (memory.padded n) with input }
      start.Ends k .halted → start'.Ends k .halted ∧ start'.after (k + 1) = (start.after (k + 1)).padded n ∧
        start'.run = ⟨.halted, (start.after (k + 1)).padded n, k + 1⟩) ∧
    (∀ (p : Pair) (base : Memory) (v : Word),
      p.evaluate base = .ok v → p.evaluate (base.padded n) = .ok v) ∧
    ∀ (s : Search) (p : Pair), s.solve = .ok p →
      ∃ q, ({ s with base := s.base.padded n } : Search).solve = .ok q ∧ (q = p ∨ q.Before p) := by
  refine ⟨fun m h => step_padded h n, fun memory input k => ?_, fun p base v h => Pair.evaluate_padded h n,
    fun s p h => Search.solve_padded h n⟩
  intro start start' h
  obtain ⟨hends, hafter⟩ := h.padded (by simp) n
  exact ⟨hends, hafter, run_padded h n⟩

end Machine

end Intcode
