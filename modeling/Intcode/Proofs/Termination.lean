import Intcode.Proofs.Counter

/-! Runs that have no end. A machine goes on for ever exactly when it comes back to a memory and a counter that
it had before; and to come back it has to jump back. What is written over the program does not matter for
that: a step that succeeds has read all the cells of its instruction, and each has two of them at least unless
it halts, so without a jump the counter runs out of memory after half as many steps as there are cells left,
and with jumps that lead ahead only after as many. -/

namespace Intcode.Machine

variable {m : Machine} {n : Nat}

/-! ### Recurrence -/

theorem reply_stepLimit_iff :
    (m.reply (.runWithin n)).result = .error (.stepLimit n) ↔ m.status ≠ .halted ∧ m.Ongoing n := by
  rw [← runWithin_ongoing_iff]
  exact result_stepLimit_iff.trans (and_iff_right rfl)

theorem exists_recurrence (h : ∀ n, m.Ongoing n) :
    ∃ i j, i < j ∧ m.Ongoing j ∧ (m.after i).memory = (m.after j).memory ∧
      (m.after i).pc = (m.after j).pc := by
  obtain ⟨i, j, hij, -, halike⟩ := m.exists_alike
  exact ⟨i, j, hij, h j, halike.memory, halike.pc⟩

theorem ongoing_of_recurrence {i j : Nat} (hij : i < j) (hj : m.Ongoing j)
    (hmemory : (m.after i).memory = (m.after j).memory) (hpc : (m.after i).pc = (m.after j).pc) (n : Nat) :
    m.Ongoing n := by
  have hinput : (m.after i).input = (m.after j).input := (m.after_input i).trans (m.after_input j).symm
  exact ongoing_of_alike hij hj ⟨hmemory, hpc, hinput⟩ n

/-- **A run is endless exactly when its state recurs.** No limit is enough for a machine if and only if it
goes on from one memory and counter to the same memory and counter; the output may be another. -/
theorem endless_iff_recurs (m : Machine) :
    (∀ n, (m.reply (.runWithin n)).result = .error (.stepLimit n)) ↔
      ∃ i j, i < j ∧ (∀ k < j, (m.after k).step.outcome = .ongoing) ∧
        (m.after i).memory = (m.after j).memory ∧ (m.after i).pc = (m.after j).pc := by
  simp only [reply_stepLimit_iff]
  constructor
  · intro h
    exact exists_recurrence fun n => (h n).2
  · rintro ⟨i, j, hij, hj, hmemory, hpc⟩ n
    have hfirst : m.step.outcome = .ongoing := hj 0 (by omega)
    exact ⟨(status_of_step_ongoing hfirst).1, ongoing_of_recurrence hij hj hmemory hpc n⟩

/-- The output is not a part of the state that recurs: here it is set in between. -/
example :
    let m := load ⟨#[104, 7, 1105, 1, 0]⟩
    (m.after 0).memory = (m.after 2).memory ∧ (m.after 0).pc = (m.after 2).pc ∧
      (m.after 0).output ≠ (m.after 2).output := by decide

/-! ### Jumps back -/

/-- The next step is a jump that is taken; its target is where the counter is after it. -/
def TakesJump (m : Machine) : Prop := m.step.outcome = .ongoing ∧ m.JumpsTo m.step.machine.pc

theorem counter_step_cases (h : m.step.outcome = .ongoing) :
    m.pc.toNat < m.memory.size ∧
      (m.TakesJump ∨ m.pc.toNat + 2 ≤ m.step.machine.pc.toNat ∧ m.step.machine.pc.toNat ≤ m.memory.size) := by
  obtain ⟨hlt, hahead | ⟨hjumps, -⟩⟩ := counter_of_ongoing h
  · exact ⟨hlt, .inr hahead⟩
  · exact ⟨hlt, .inl ⟨h, hjumps⟩⟩

/-- Without a jump each step moves the counter over two cells. -/
theorem counter_without_jump (h : m.Ongoing n) (hno : ∀ k < n, ¬(m.after k).TakesJump) :
    m.pc.toNat + 2 * n ≤ (m.after n).pc.toNat ∧ (n = 0 ∨ (m.after n).pc.toNat ≤ m.memory.size) := by
  induction n with
  | zero => exact ⟨Nat.le_refl _, .inl rfl⟩
  | succ n ih =>
      have hn := Nat.lt_succ_self n
      obtain ⟨hsofar, -⟩ := ih (h.mono (Nat.le_succ n)) fun k hk => hno k (Nat.lt_succ_of_lt hk)
      obtain ⟨-, hjump | ⟨hahead, hle⟩⟩ := counter_step_cases (h n hn)
      · exact absurd hjump (hno n hn)
      · rw [after_size] at hle
        rw [after_succ]
        exact ⟨by omega, .inr hle⟩

/-- If no jump leads back each step moves the counter over one cell. -/
theorem counter_without_jump_back (h : m.Ongoing n)
    (hahead : ∀ k < n, (m.after k).TakesJump → (m.after k).pc < (m.after (k + 1)).pc) :
    m.pc.toNat + n ≤ (m.after n).pc.toNat := by
  induction n with
  | zero => exact Nat.le_refl _
  | succ n ih =>
      have hn := Nat.lt_succ_self n
      have hsofar := ih (h.mono (Nat.le_succ n)) fun k hk => hahead k (Nat.lt_succ_of_lt hk)
      have hnext : (m.after n).pc.toNat < (m.after (n + 1)).pc.toNat := by
        obtain ⟨-, hjump | ⟨htwo, -⟩⟩ := counter_step_cases (h n hn)
        · exact UInt64.lt_iff_toNat_lt.mp (hahead n hn hjump)
        · rw [after_succ]
          omega
      omega

theorem steps_without_jump (h : m.Ongoing n) (hno : ∀ k < n, ¬(m.after k).TakesJump) :
    n ≤ (m.memory.size - m.pc.toNat) / 2 := by
  obtain ⟨hsofar, hzero | hle⟩ := counter_without_jump h hno
  · omega
  · omega

theorem steps_without_jump_back (h : m.Ongoing n)
    (hahead : ∀ k < n, (m.after k).TakesJump → (m.after k).pc < (m.after (k + 1)).pc) :
    n ≤ m.memory.size - m.pc.toNat := by
  cases n with
  | zero => exact Nat.zero_le _
  | succ n =>
      have hsofar := counter_without_jump_back (h.mono (Nat.le_succ n))
        fun k hk => hahead k (Nat.lt_succ_of_lt hk)
      have hlast := (counter_step_cases (h n (Nat.lt_succ_self n))).1
      rw [after_size] at hlast
      omega

theorem ongoing_of_endless (h : ¬∃ r m', m.Runs r m') (n : Nat) : m.Ongoing n := by
  rcases m.ongoing_or_ends n with hongoing | ⟨k, -, o, hends⟩
  · exact hongoing
  · exact absurd ⟨_, _, hends.runs ⟨o, m, 0⟩ rfl 0⟩ h

theorem exists_jump_back (h : ∀ n, m.Ongoing n) (a : Nat) :
    ∃ k, a ≤ k ∧ k < a + (m.memory.size + 1) ∧ (m.after k).TakesJump ∧
      (m.after (k + 1)).pc ≤ (m.after k).pc := by
  by_contra hno
  have hwindow : (m.after a).Ongoing (m.memory.size + 1) := by
    intro k hk
    rw [← after_add]
    exact h (a + k + 1) (a + k) (Nat.lt_succ_self _)
  have hbound := steps_without_jump_back hwindow fun k hk hjump => by
    rw [← after_add] at hjump
    rw [← after_add, ← after_add, ← Nat.add_assoc]
    by_contra hback
    exact hno ⟨a + k, Nat.le_add_right a k, by omega, hjump, UInt64.not_lt.mp hback⟩
  rw [after_size] at hbound
  omega

/-- **Runs that do not jump back are short.** Of steps in a row that leave the machine going there are half as
many as there are cells from the counter on, at most, if none is a jump that is taken, and as many as there
are such cells if every such jump leads ahead. So a program that takes no jump is done within half as many
steps as it has cells and one more, whatever it writes over itself; and a run that has no end jumps back, or
stays, at least once in any row of steps that is longer than the memory. -/
theorem short_without_jumps_back :
    (∀ (m : Machine) (n : Nat), m.Ongoing n → (∀ k < n, ¬(m.after k).TakesJump) →
      n ≤ (m.memory.size - m.pc.toNat) / 2) ∧
    (∀ (m : Machine) (n : Nat), m.Ongoing n →
      (∀ k < n, (m.after k).TakesJump → (m.after k).pc < (m.after (k + 1)).pc) →
      n ≤ m.memory.size - m.pc.toNat) ∧
    (∀ (memory : Memory) (input : Option Word), let start : Machine := { load memory with input }
      let limit := memory.size / 2 + 1
      (∀ k < limit, ¬(start.after k).TakesJump) →
        ∀ l, (start.reply (.runWithin limit)).result ≠ .error (.stepLimit l)) ∧
    ∀ m : Machine, (¬∃ r m', m.Runs r m') →
      ∀ a, ∃ k, a ≤ k ∧ k < a + (m.memory.size + 1) ∧ (m.after k).TakesJump ∧
        (m.after (k + 1)).pc ≤ (m.after k).pc := by
  refine ⟨fun m n => steps_without_jump, fun m n => steps_without_jump_back, fun memory input => ?_,
    fun m h => exists_jump_back (ongoing_of_endless h)⟩
  intro start limit hno
  refine result_ne_stepLimit_iff.mpr fun hongoing => ?_
  have hbound := steps_without_jump (runWithin_ongoing_iff.mp hongoing).2 hno
  have hsize : start.memory.size = memory.size := rfl
  omega

end Intcode.Machine
