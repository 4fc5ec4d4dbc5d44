import Intcode.Machine.Run
import Intcode.Proofs.Step

/-! Rows of steps. A run is a row of calls of `step`: those before its last left the machine going, and what
the last came to is what the run comes to. A fault at the end of a row takes back nothing of what the
steps before it did, and adds nothing to it. -/

namespace Intcode.Machine

variable {m : Machine} {f : Fault}

/-- The machine after `n` calls of `step`, whatever they come to. -/
def after (m : Machine) : Nat → Machine
  | 0 => m
  | n + 1 => m.step.machine.after n

/-- The first `n` steps leave the machine going. -/
def Ongoing (m : Machine) (n : Nat) : Prop := ∀ k < n, (m.after k).step.outcome = .ongoing

theorem after_succ (m : Machine) (n : Nat) : m.after (n + 1) = (m.after n).step.machine := by
  induction n generalizing m with
  | zero => rfl
  | succ n ih => exact ih m.step.machine

theorem ongoing_succ {n : Nat} :
    m.Ongoing (n + 1) ↔ m.step.outcome = .ongoing ∧ m.step.machine.Ongoing n := by
  constructor
  · intro h
    exact ⟨h 0 (Nat.succ_pos n), fun k hk => h (k + 1) (Nat.succ_lt_succ hk)⟩
  · rintro ⟨hfirst, hrest⟩ k hk
    cases k with
    | zero => exact hfirst
    | succ k => exact hrest k (Nat.lt_of_succ_lt_succ hk)

/-- A run takes all its steps, each of which leaves the machine going, or it ends with the first that does
not. -/
theorem advance_cases (m : Machine) (taken budget : Nat) :
    m.Ongoing budget ∧ m.advance taken budget =
        ⟨if (m.after budget).isHalted then .halted else .ongoing, m.after budget, taken + budget⟩ ∨
      ∃ k < budget, m.Ongoing k ∧ (m.after k).step.outcome ≠ .ongoing ∧
        m.advance taken budget = ⟨(m.after k).step.outcome, m.after (k + 1), taken + (k + 1)⟩ := by
  induction budget generalizing m taken with
  | zero => exact .inl ⟨fun k hk => absurd hk (Nat.not_lt_zero k), rfl⟩
  | succ budget ih =>
      by_cases hstep : m.step.outcome = .ongoing
      · have hadvance : m.advance taken (budget + 1) = m.step.machine.advance (taken + 1) budget := by
          rw [advance]
          cases hs : m.step with
          | mk outcome next log =>
              rw [hs] at hstep
              cases hstep
              rfl
        rw [hadvance]
        rcases ih m.step.machine (taken + 1) with ⟨hongoing, hrun⟩ | ⟨k, hk, hongoing, hend, hrun⟩
        · refine .inl ⟨ongoing_succ.mpr ⟨hstep, hongoing⟩, ?_⟩
          rw [hrun, show taken + 1 + budget = taken + (budget + 1) by omega]
          rfl
        · refine .inr ⟨k + 1, by omega, ongoing_succ.mpr ⟨hstep, hongoing⟩, hend, ?_⟩
          rw [hrun, show taken + 1 + (k + 1) = taken + (k + 1 + 1) by omega]
          rfl
      · refine .inr ⟨0, Nat.succ_pos budget, fun k hk => absurd hk (Nat.not_lt_zero k), hstep, ?_⟩
        rw [advance]
        have hafter : m.after 1 = m.step.machine := rfl
        rw [hafter]
        cases hs : m.step with
        | mk outcome next log =>
            simp only [after, hs] at hstep ⊢
            cases outcome with
            | ongoing => exact absurd rfl hstep
            | halted => rfl
            | faulted f => rfl

theorem runWithin_faulted {n : Nat} (h : (m.runWithin n).outcome = .faulted f) :
    ∃ k < n, m.Ongoing k ∧ (m.after k).step.outcome = .faulted f ∧
      m.runWithin n = ⟨.faulted f, m.after (k + 1), k + 1⟩ := by
  unfold runWithin at h ⊢
  rcases m.advance_cases 0 n with ⟨-, hrun⟩ | ⟨k, hk, hongoing, -, hrun⟩
  · rw [hrun] at h
    dsimp only at h
    split at h <;> cases h
  · rw [hrun] at h
    dsimp only at h
    rw [h, Nat.zero_add] at hrun
    exact ⟨k, hk, hongoing, h, hrun⟩

/-- Steps after a fault repeat it, so a row of steps whose last one fails has one first failure. -/
theorem exists_first_fault {n : Nat} (h : (m.after n).step.outcome = .faulted f) :
    ∃ k ≤ n, (∀ i < k, ∀ g, (m.after i).step.outcome ≠ .faulted g) ∧
      (∀ i, k ≤ i → i ≤ n → (m.after i).step.outcome = .faulted f) ∧
      m.after (n + 1) = { m.after k with status := .faulted } := by
  induction n with
  | zero =>
      refine ⟨0, Nat.le_refl 0, fun i hi => absurd hi (Nat.not_lt_zero i), fun i _ hi => ?_, ?_⟩
      · rwa [Nat.le_zero.mp hi]
      · exact step_machine_of_faulted h
  | succ n ih =>
      by_cases hprev : ∃ g, (m.after n).step.outcome = .faulted g
      · obtain ⟨g, hg⟩ := hprev
        obtain ⟨hagain, hsame⟩ := step_again_of_faulted hg
        rw [← after_succ] at hagain hsame
        cases hagain.symm.trans h
        obtain ⟨k, hk, hbelow, hfrom, hmachine⟩ := ih hg
        refine ⟨k, by omega, hbelow, fun i hki hin => ?_, ?_⟩
        · by_cases hi : i ≤ n
          · exact hfrom i hki hi
          · rwa [show i = n + 1 by omega]
        · rw [after_succ, hsame, hmachine]
      -- an earlier fault would be repeated by every step up to this one
      · have hclean : ∀ i < n + 1, ∀ g, (m.after i).step.outcome ≠ .faulted g := by
          intro i hi g hg
          have hlast : ∀ j, (m.after (i + j)).step.outcome = .faulted g := by
            intro j
            induction j with
            | zero => exact hg
            | succ j ihj =>
                rw [← Nat.add_assoc, after_succ]
                exact (step_again_of_faulted ihj).1
          have hn := hlast (n - i)
          rw [show i + (n - i) = n by omega] at hn
          exact hprev ⟨g, hn⟩
        refine ⟨n + 1, Nat.le_refl _, hclean, fun i hi hin => ?_, ?_⟩
        · rwa [show i = n + 1 by omega]
        · rw [after_succ]
          exact step_machine_of_faulted h

/-- **A fault commits nothing.** A step that fails changes the status alone; and where a row of steps or a
run ends in a fault after `k` steps that succeeded, the machine is as the last of these left it, but for the
status. -/
theorem fault_commits_nothing (m : Machine) :
    (∀ f, m.step.outcome = .faulted f → m.step.machine = { m with status := .faulted }) ∧
    (∀ n f, (m.after n).step.outcome = .faulted f →
      ∃ k ≤ n, (∀ i < k, ∀ g, (m.after i).step.outcome ≠ .faulted g) ∧
        (∀ i, k ≤ i → i ≤ n → (m.after i).step.outcome = .faulted f) ∧
        m.after (n + 1) = { m.after k with status := .faulted }) ∧
    (∀ n f, (m.runWithin n).outcome = .faulted f →
      ∃ k < n, m.Ongoing k ∧ (m.after k).step.outcome = .faulted f ∧ (m.runWithin n).steps = k + 1 ∧
        (m.runWithin n).machine = { m.after k with status := .faulted }) ∧
    (∀ f, m.run.outcome = .faulted f →
      ∃ k, m.Ongoing k ∧ (m.after k).step.outcome = .faulted f ∧ m.run.steps = k + 1 ∧
        m.run.machine = { m.after k with status := .faulted }) := by
  have hwithin (n : Nat) (f : Fault) (h : (m.runWithin n).outcome = .faulted f) :
      ∃ k < n, m.Ongoing k ∧ (m.after k).step.outcome = .faulted f ∧ (m.runWithin n).steps = k + 1 ∧
        (m.runWithin n).machine = { m.after k with status := .faulted } := by
    obtain ⟨k, hk, hongoing, hfault, hrun⟩ := runWithin_faulted h
    rw [hrun, after_succ]
    exact ⟨k, hk, hongoing, hfault, rfl, step_machine_of_faulted hfault⟩
  refine ⟨fun f h => step_machine_of_faulted h, fun n f h => exists_first_fault h, hwithin, fun f h => ?_⟩
  rw [run_eq_runWithin] at h ⊢
  obtain ⟨k, -, hrest⟩ := hwithin _ f h
  exact ⟨k, hrest⟩

end Intcode.Machine
