import Mathlib.Data.Fintype.BigOperators
import Mathlib.Data.Fintype.Pigeonhole
import Intcode.Proofs.Run
import Intcode.Proofs.Table

/-! Steps without a limit. What a machine does next depends on its memory, its counter and its input alone,
and there are only so many of these: a machine that is still going after as many steps as there are has
been in one state twice and goes on for ever. So the limit of a run that is given none cuts nothing off. -/

namespace Intcode.Machine

variable {m m' : Machine} {f : Fault}

/-! ### What a step keeps -/

theorem apply_input (m : Machine) (length : Nat) (e : Effect) : (m.apply length e).input = m.input := by
  cases e <;> rfl

theorem apply_size (m : Machine) (length : Nat) (e : Effect) :
    (m.apply length e).memory.size = m.memory.size := by
  cases e with
  | write address value => exact Memory.size_set
  | output | jump | pass | halt => rfl

theorem step_input (m : Machine) : m.step.machine.input = m.input := by
  by_cases hm : m.status = .halted
  · rw [step_of_halted hm]
  · cases hattempt : m.attempt with
    | error f => rw [(step_of_attempt_error hm hattempt).2]
    | ok attempted => rw [(step_of_attempt_ok hm hattempt).2, apply_input]

theorem step_size (m : Machine) : m.step.machine.memory.size = m.memory.size := by
  by_cases hm : m.status = .halted
  · rw [step_of_halted hm]
  · cases hattempt : m.attempt with
    | error f => rw [(step_of_attempt_error hm hattempt).2]
    | ok attempted => rw [(step_of_attempt_ok hm hattempt).2, apply_size]

theorem after_input (m : Machine) (n : Nat) : (m.after n).input = m.input := by
  induction n with
  | zero => rfl
  | succ n ih => rw [after_succ, step_input, ih]

theorem after_size (m : Machine) (n : Nat) : (m.after n).memory.size = m.memory.size := by
  induction n with
  | zero => rfl
  | succ n ih => rw [after_succ, step_size, ih]

theorem after_add (m : Machine) (a b : Nat) : m.after (a + b) = (m.after a).after b := by
  induction b with
  | zero => rfl
  | succ b ih => rw [← Nat.add_assoc, after_succ, ih, ← after_succ]

theorem Ongoing.mono {a b : Nat} (h : m.Ongoing b) (hab : a ≤ b) : m.Ongoing a :=
  fun k hk => h k (Nat.lt_of_lt_of_le hk hab)

theorem status_of_step_ongoing (h : m.step.outcome = .ongoing) :
    m.status ≠ .halted ∧ m.step.machine.status ≠ .halted := by
  refine ⟨fun hm => ?_, fun hm => ?_⟩
  · rw [step_of_halted hm] at h
    cases h
  · have hnext := isHalted_of_step_ongoing h
    rw [isHalted, hm] at hnext
    cases hnext

theorem Ongoing.status_ne_halted {n : Nat} (h : m.Ongoing n) (hm : m.status ≠ .halted) :
    (m.after n).status ≠ .halted := by
  cases n with
  | zero => exact hm
  | succ n =>
      rw [after_succ]
      exact (status_of_step_ongoing (h n (Nat.lt_succ_self n))).2

/-! ### Machines that do the same -/

/-- The two machines have the same memory, counter and input, and so the same next instruction. -/
structure Alike (m m' : Machine) : Prop where
  memory : m.memory = m'.memory
  pc : m.pc = m'.pc
  input : m.input = m'.input

theorem Alike.eq (h : m.Alike m') : { m with status := m'.status, output := m'.output } = m' := by
  obtain ⟨memory, pc, status, input, output⟩ := m
  obtain ⟨memory', pc', status', input', output'⟩ := m'
  obtain ⟨rfl, rfl, rfl⟩ := h
  rfl

theorem Alike.attempt (h : m.Alike m') : m.attempt = m'.attempt := by
  rw [← h.eq]
  rfl

theorem Alike.apply (h : m.Alike m') (length : Nat) (e : Effect) :
    (m.apply length e).Alike (m'.apply length e) := by
  rw [← h.eq]
  cases e <;> exact ⟨rfl, rfl, rfl⟩

/-- Machines that are alike take the same step, unless one of them has halted. -/
theorem Alike.step (h : m.Alike m') (hm : m.status ≠ .halted) (hm' : m'.status ≠ .halted) :
    m.step.outcome = m'.step.outcome ∧ m.step.machine.Alike m'.step.machine := by
  cases hattempt : m.attempt with
  | error f =>
      obtain ⟨houtcome, hmachine⟩ := step_of_attempt_error hm hattempt
      obtain ⟨houtcome', hmachine'⟩ := step_of_attempt_error hm' (h.attempt.symm.trans hattempt)
      rw [houtcome, houtcome', hmachine, hmachine']
      exact ⟨rfl, ⟨h.memory, h.pc, h.input⟩⟩
  | ok attempted =>
      obtain ⟨o, e⟩ := attempted
      obtain ⟨houtcome, hmachine⟩ := step_of_attempt_ok hm hattempt
      obtain ⟨houtcome', hmachine'⟩ := step_of_attempt_ok hm' (h.attempt.symm.trans hattempt)
      rw [houtcome, houtcome', hmachine, hmachine']
      exact ⟨rfl, h.apply o.length e⟩

theorem Alike.after {n : Nat} (h : m.Alike m') (hm : m.Ongoing n) (hm' : m'.Ongoing n) :
    (m.after n).Alike (m'.after n) := by
  induction n with
  | zero => exact h
  | succ n ih =>
      have hn := Nat.lt_succ_self n
      have halike := ih (hm.mono (Nat.le_succ n)) (hm'.mono (Nat.le_succ n))
      rw [after_succ, after_succ]
      exact (halike.step (status_of_step_ongoing (hm n hn)).1 (status_of_step_ongoing (hm' n hn)).1).2

/-! ### Recurrence -/

/-- A memory of `size` cells and a counter, as a finite thing. -/
def code (size : Nat) (m : Machine) : (Fin size → Fin (2 ^ 64)) × Fin (2 ^ 64) :=
  (fun k => (m.memory.cells.getD k 0).toBitVec.toFin, m.pc.toBitVec.toFin)

theorem card_code (m : Machine) :
    Fintype.card ((Fin m.memory.size → Fin (2 ^ 64)) × Fin (2 ^ 64)) = m.stateCount := by
  rw [Fintype.card_prod, Fintype.card_fun, Fintype.card_fin, Fintype.card_fin, stateCount,
    Nat.one_shiftLeft, ← Nat.pow_mul, ← Nat.pow_add, Nat.mul_succ]

theorem eq_of_code {size : Nat} (hsize : m.memory.size = size) (hsize' : m'.memory.size = size)
    (h : m.code size = m'.code size) : m.memory = m'.memory ∧ m.pc = m'.pc := by
  obtain ⟨hcells, hpc⟩ := Prod.ext_iff.mp h
  refine ⟨Memory.ext_cell? fun k => ?_, UInt64.toBitVec_inj.mp (BitVec.toFin_inj.mp hpc)⟩
  by_cases hk : 0 ≤ k ∧ k < size
  · obtain ⟨k, rfl⟩ := Int.eq_ofNat_of_zero_le hk.1
    have hcell := Int64.toBitVec_inj.mp (BitVec.toFin_inj.mp (congrFun hcells ⟨k, by omega⟩))
    have hlt : k < m.memory.cells.size := by
      rw [← Memory.size]
      omega
    have hlt' : k < m'.memory.cells.size := by
      rw [← Memory.size]
      omega
    simp only [Array.getD_eq_getD_getElem?, Array.getElem?_eq_getElem hlt,
      Array.getElem?_eq_getElem hlt', Option.getD_some] at hcell
    rw [Memory.cell?_natCast, Memory.cell?_natCast, Array.getElem?_eq_getElem hlt,
      Array.getElem?_eq_getElem hlt', hcell]
  · rw [Memory.cell?_eq_none_iff.mpr (by omega), Memory.cell?_eq_none_iff.mpr (by omega)]

/-- Of the states that a machine is in before and after each of `stateCount` steps, two are alike. -/
theorem exists_alike (m : Machine) :
    ∃ i j, i < j ∧ j ≤ m.stateCount ∧ (m.after i).Alike (m.after j) := by
  have hcard : Fintype.card ((Fin m.memory.size → Fin (2 ^ 64)) × Fin (2 ^ 64)) <
      Fintype.card (Fin (m.stateCount + 1)) := by
    rw [card_code, Fintype.card_fin]
    exact Nat.lt_succ_self _
  obtain ⟨i, j, hne, hcode⟩ := Fintype.exists_ne_map_eq_of_card_lt
    (fun k : Fin (m.stateCount + 1) => (m.after k).code m.memory.size) hcard
  have halike : (m.after i).Alike (m.after j) := by
    obtain ⟨hmemory, hpc⟩ := eq_of_code (m.after_size i) (m.after_size j) hcode
    exact ⟨hmemory, hpc, (m.after_input i).trans (m.after_input j).symm⟩
  have hi := i.isLt
  have hj := j.isLt
  rcases Nat.lt_or_gt_of_ne (Fin.val_ne_of_ne hne) with h | h
  · exact ⟨i, j, h, by omega, halike⟩
  · exact ⟨j, i, h, by omega, halike.memory.symm, halike.pc.symm, halike.input.symm⟩

/-- A machine that comes to a state in which it was before goes on for ever. -/
theorem ongoing_of_alike {i j : Nat} (hij : i < j) (hj : m.Ongoing j)
    (halike : (m.after i).Alike (m.after j)) (n : Nat) : m.Ongoing n := by
  have hall (k : Nat) : (m.after k).step.outcome = .ongoing := by
    -- a step behind the second of the two states is as the step that is `j - i` before it
    induction k using Nat.strong_induction_on with
    | _ k ih =>
        by_cases hk : k < j
        · exact hj k hk
        · have hbefore : m.Ongoing k := ih
          have hfrom (a : Nat) (ha : a ≤ j) : (m.after a).Ongoing (k - j) := by
            intro t ht
            rw [← after_add]
            exact hbefore (a + t) (by omega)
          have halike := halike.after (hfrom i (by omega)) (hfrom j (Nat.le_refl j))
          rw [← after_add, ← after_add, show j + (k - j) = k by omega] at halike
          have hearlier := hbefore (i + (k - j)) (by omega)
          have hstart := (status_of_step_ongoing (hbefore 0 (by omega))).1
          have hsame := halike.step (status_of_step_ongoing hearlier).1 (hbefore.status_ne_halted hstart)
          exact hsame.1.symm.trans hearlier
  exact fun k _ => hall k

/-- A machine that `stateCount` steps leave going goes on for ever. -/
theorem ongoing_of_stateCount (h : m.Ongoing m.stateCount) (n : Nat) : m.Ongoing n := by
  obtain ⟨i, j, hij, hj, halike⟩ := m.exists_alike
  exact ongoing_of_alike hij (h.mono hj) halike n

end Intcode.Machine
