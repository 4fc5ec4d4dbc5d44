import Intcode.Proofs.History
import Intcode.Proofs.Recurrence

/-! Single steps, runs within a limit, and runs without one. All three go along one row of steps: the row ends
with the first step that does not leave the machine going, later steps repeat what that one came to, and a
limit says how many steps a run may take to get there. So limits add up. -/

namespace Intcode.Machine

/-- Steps are taken until one of them halts or fails: then `r` is what the run comes to and `m'` the machine
that it leaves. A machine for which there is no such end goes on for ever. -/
inductive Runs : Machine → Except RunError Unit → Machine → Prop where
  | halt {m : Machine} : m.step.outcome = .halted → Runs m (.ok ()) m.step.machine
  | fault {m : Machine} {f : Fault} : m.step.outcome = .faulted f →
      Runs m (.error (.fault f)) m.step.machine
  | next {m m' : Machine} {r : Except RunError Unit} : m.step.outcome = .ongoing →
      Runs m.step.machine r m' → Runs m r m'

/-- The first `k` steps leave the machine going, and the one behind them does not: it comes to `o`. -/
structure Ends (m : Machine) (k : Nat) (o : Outcome) : Prop where
  before : m.Ongoing k
  last : (m.after k).step.outcome = o
  stops : o ≠ .ongoing

variable {m m' : Machine} {k n : Nat} {o : Outcome} {r : Except RunError Unit}

/-! ### The end of a row of steps -/

/-- A step behind one that does not leave the machine going repeats it. -/
theorem step_stays (h : m.step.outcome ≠ .ongoing) :
    m.step.machine.step.outcome = m.step.outcome ∧ m.step.machine.step.machine = m.step.machine := by
  cases houtcome : m.step.outcome with
  | ongoing => exact absurd houtcome h
  | halted =>
      rw [step_of_halted (step_machine_status_of_halted houtcome)]
      exact ⟨rfl, rfl⟩
  | faulted f => exact step_again_of_faulted houtcome

theorem after_stays (h : m.step.outcome ≠ .ongoing) (n : Nat) :
    (m.after n).step.outcome = m.step.outcome ∧ m.after (n + 1) = m.step.machine := by
  induction n with
  | zero => exact ⟨rfl, rfl⟩
  | succ n ih =>
      obtain ⟨houtcome, hmachine⟩ := ih
      rw [after_succ m (n + 1), hmachine]
      exact step_stays h

theorem after_of_halted (hm : m.status = .halted) (n : Nat) : m.after n = m := by
  induction n with
  | zero => rfl
  | succ n ih => rw [after_succ, ih, step_of_halted hm]

theorem Ends.repeats (h : m.Ends k o) (hk : k ≤ n) :
    (m.after n).step.outcome = o ∧ m.after (n + 1) = m.after (k + 1) := by
  have hstop : (m.after k).step.outcome ≠ .ongoing := by
    rw [h.last]
    exact h.stops
  obtain ⟨j, rfl⟩ := Nat.exists_eq_add_of_le hk
  obtain ⟨houtcome, hmachine⟩ := after_stays hstop j
  rw [Nat.add_assoc, after_add, after_add, houtcome, hmachine, after_succ]
  exact ⟨h.last, rfl⟩

theorem ongoing_or_ends (m : Machine) (n : Nat) : m.Ongoing n ∨ ∃ k < n, ∃ o, m.Ends k o := by
  rcases m.advance_cases 0 n with ⟨hongoing, -⟩ | ⟨k, hk, hongoing, hstop, -⟩
  · exact .inl hongoing
  · exact .inr ⟨k, hk, _, hongoing, rfl, hstop⟩

theorem exists_ends (h : (m.after n).step.outcome = o) (ho : o ≠ .ongoing) : ∃ k ≤ n, m.Ends k o := by
  rcases m.ongoing_or_ends (n + 1) with hongoing | ⟨k, hk, o', hends⟩
  · exact absurd (h.symm.trans (hongoing n (Nat.lt_succ_self n))) ho
  · have hk' := Nat.le_of_lt_succ hk
    cases (hends.repeats hk').1.symm.trans h
    exact ⟨k, hk', hends⟩

theorem Ends.unfaulted_before (h : m.Ends k o) {j : Nat} (hj : j < k) (f : Fault) :
    (m.after j).step.outcome ≠ .faulted f := by
  rw [h.before j hj]
  simp

theorem Ends.step (hstep : m.step.outcome = .ongoing) (h : m.step.machine.Ends k o) : m.Ends (k + 1) o where
  before := ongoing_succ.mpr ⟨hstep, h.before⟩
  last := h.last
  stops := h.stops

theorem Ends.of_after (h : m.Ends (n + k) o) : (m.after n).Ends k o where
  before j hj := by
    rw [← after_add]
    exact h.before (n + j) (Nat.add_lt_add_left hj n)
  last := by
    rw [← after_add]
    exact h.last
  stops := h.stops

/-! ### Runs within a limit -/

theorem runWithin_of_ends (h : m.Ends k o) (hk : k < n) : m.runWithin n = ⟨o, m.after (k + 1), k + 1⟩ := by
  unfold runWithin
  rcases m.advance_cases 0 n with ⟨hongoing, -⟩ | ⟨j, -, hongoing, hstop, hrun⟩
  · exact absurd (h.last.symm.trans (hongoing k hk)) h.stops
  · have hjk : j = k := by
      rcases Nat.lt_trichotomy j k with hlt | heq | hgt
      · exact absurd (h.before j hlt) hstop
      · exact heq
      · exact absurd (h.last.symm.trans (hongoing k hgt)) h.stops
    subst hjk
    rw [hrun, h.last, Nat.zero_add]

theorem runWithin_of_ongoing (hm : m.status ≠ .halted) (h : m.Ongoing n) :
    m.runWithin n = ⟨.ongoing, m.after n, n⟩ := by
  unfold runWithin
  rcases m.advance_cases 0 n with ⟨-, hrun⟩ | ⟨k, hk, -, hstop, -⟩
  · have hstatus : (m.after n).isHalted = false := decide_eq_false (h.status_ne_halted hm)
    rw [hrun, hstatus, Nat.zero_add]
    rfl
  · exact absurd (h k hk) hstop

/-- A run does nothing to a machine that has halted. Otherwise it ends at its limit, or with the row of steps. -/
theorem runWithin_cases (m : Machine) (n : Nat) :
    (m.status = .halted ∧ (m.runWithin n).outcome = .halted ∧ (m.runWithin n).machine = m) ∨
      (m.status ≠ .halted ∧ m.Ongoing n ∧ m.runWithin n = ⟨.ongoing, m.after n, n⟩) ∨
      m.status ≠ .halted ∧ ∃ k < n, ∃ o, m.Ends k o ∧ m.runWithin n = ⟨o, m.after (k + 1), k + 1⟩ := by
  by_cases hm : m.status = .halted
  · exact .inl ⟨hm, runWithin_of_halted hm n⟩
  · rcases m.ongoing_or_ends n with hongoing | ⟨k, hk, o, hends⟩
    · exact .inr (.inl ⟨hm, hongoing, runWithin_of_ongoing hm hongoing⟩)
    · exact .inr (.inr ⟨hm, k, hk, o, hends, runWithin_of_ends hends hk⟩)

/-- A run leaves the machine that as many steps as its limit leave, whatever they come to. -/
theorem runWithin_machine_eq_after (m : Machine) (n : Nat) : (m.runWithin n).machine = m.after n := by
  rcases m.runWithin_cases n with ⟨hm, -, hmachine⟩ | ⟨-, -, hrun⟩ | ⟨-, k, hk, o, hends, hrun⟩
  · rw [hmachine, after_of_halted hm]
  · rw [hrun]
  · obtain ⟨n, rfl⟩ := Nat.exists_eq_add_of_lt hk
    rw [hrun, (hends.repeats (Nat.le_add_right k n)).2]

theorem runWithin_halted_iff :
    (m.runWithin n).outcome = .halted ↔
      m.status = .halted ∨ ∃ k < n, (m.after k).step.outcome = .halted ∧
        ∀ j < k, ∀ f, (m.after j).step.outcome ≠ .faulted f := by
  constructor
  · intro h
    rcases m.runWithin_cases n with ⟨hm, -⟩ | ⟨-, -, hrun⟩ | ⟨-, k, hk, o, hends, hrun⟩
    · exact .inl hm
    · rw [hrun] at h
      cases h
    · rw [hrun] at h
      cases h
      exact .inr ⟨k, hk, hends.last, fun j hj => hends.unfaulted_before hj⟩
  · rintro (hm | ⟨k, hk, hlast, -⟩)
    · exact (runWithin_of_halted hm n).1
    · obtain ⟨j, hj, hends⟩ := exists_ends hlast (by simp)
      rw [runWithin_of_ends hends (by omega)]

theorem runWithin_faulted_iff {f : Fault} :
    (m.runWithin n).outcome = .faulted f ↔ ∃ k < n, (m.after k).step.outcome = .faulted f ∧
      ∀ j < k, ∀ g, (m.after j).step.outcome ≠ .faulted g := by
  constructor
  · intro h
    obtain ⟨k, hk, hongoing, hlast, -⟩ := runWithin_faulted h
    have hends : m.Ends k (.faulted f) := ⟨hongoing, hlast, by simp⟩
    exact ⟨k, hk, hlast, fun j hj => hends.unfaulted_before hj⟩
  · rintro ⟨k, hk, hlast, -⟩
    obtain ⟨j, hj, hends⟩ := exists_ends hlast (by simp)
    rw [runWithin_of_ends hends (by omega)]

theorem runWithin_ongoing_iff :
    (m.runWithin n).outcome = .ongoing ↔ m.status ≠ .halted ∧ m.Ongoing n := by
  constructor
  · intro h
    rcases m.runWithin_cases n with ⟨-, houtcome, -⟩ | ⟨hm, hongoing, -⟩ | ⟨-, k, hk, o, hends, hrun⟩
    · cases houtcome.symm.trans h
    · exact ⟨hm, hongoing⟩
    · rw [hrun] at h
      exact absurd h hends.stops
  · rintro ⟨hm, hongoing⟩
    rw [runWithin_of_ongoing hm hongoing]

theorem result_stepLimit_iff {run : Run} {l : Nat} :
    run.result n = .error (.stepLimit l) ↔ l = n ∧ run.outcome = .ongoing := by
  unfold Run.result
  cases run.outcome <;> simp [eq_comm]

theorem result_ne_stepLimit_iff {run : Run} :
    (∀ l, run.result n ≠ .error (.stepLimit l)) ↔ run.outcome ≠ .ongoing := by
  simp [result_stepLimit_iff]

theorem result_eq_of_outcome {run run' : Run} (h : run.outcome = run'.outcome) (ho : run.outcome ≠ .ongoing)
    (n n' : Nat) : run.result n = run'.result n' := by
  unfold Run.result
  rw [← h]
  cases houtcome : run.outcome with
  | ongoing => exact absurd houtcome ho
  | halted | faulted f => rfl

/-! ### Runs without a limit -/

/-- What a run comes to, if it has an end, does not depend on its limit. -/
theorem run_of_ends (h : m.Ends k o) : m.run = ⟨o, m.after (k + 1), k + 1⟩ := by
  have hcount : k < m.stateCount := by
    by_contra hlarge
    have hforever := ongoing_of_stateCount (h.before.mono (Nat.le_of_not_lt hlarge)) (k + 1)
    exact h.stops (h.last.symm.trans (hforever k (Nat.lt_succ_self k)))
  rw [run_eq_runWithin, runWithin_of_ends h hcount]

theorem Ends.runs (h : m.Ends k o) (run : Run) (hrun : run.outcome = o) (n : Nat) :
    m.Runs (run.result n) (m.after (k + 1)) := by
  induction k generalizing m with
  | zero =>
      have hlast : m.step.outcome = o := h.last
      cases o with
      | ongoing => exact absurd rfl h.stops
      | halted =>
          rw [result_ok_iff.mpr hrun]
          exact .halt hlast
      | faulted f =>
          rw [result_fault_iff.mpr hrun]
          exact .fault hlast
  | succ k ih =>
      obtain ⟨hstep, hbefore⟩ := ongoing_succ.mp h.before
      exact .next hstep (ih ⟨hbefore, h.last, h.stops⟩)

theorem Runs.ends (h : m.Runs r m') :
    ∃ k o, m.Ends k o ∧ m' = m.after (k + 1) ∧ ∀ run : Run, run.outcome = o → ∀ n, r = run.result n := by
  induction h with
  | halt hlast =>
      exact ⟨0, .halted, ⟨fun j hj => absurd hj (Nat.not_lt_zero j), hlast, by simp⟩, rfl,
        fun run hrun n => (result_ok_iff.mpr hrun).symm⟩
  | @fault m f hlast =>
      exact ⟨0, .faulted f, ⟨fun j hj => absurd hj (Nat.not_lt_zero j), hlast, by simp⟩, rfl,
        fun run hrun n => (result_fault_iff.mpr hrun).symm⟩
  | next hstep _ ih =>
      obtain ⟨k, o, hends, hmachine, hresult⟩ := ih
      exact ⟨k + 1, o, hends.step hstep, hmachine, hresult⟩

/-- A run that is given no limit comes to what its steps come to, if they come to an end. -/
theorem Runs.reply (h : m.Runs r m') : (m.reply .run).result = r ∧ (m.reply .run).machine = m' := by
  obtain ⟨k, o, hends, rfl, hresult⟩ := h.ends
  simp only [reply, run_of_ends hends]
  exact ⟨(hresult _ rfl m.stateCount).symm, trivial⟩

theorem runs_of_runWithin (h : (m.runWithin n).outcome ≠ .ongoing) :
    m.Runs ((m.runWithin n).result n) (m.runWithin n).machine := by
  rcases m.runWithin_cases n with ⟨hm, houtcome, hmachine⟩ | ⟨-, -, hrun⟩ | ⟨-, k, hk, o, hends, hrun⟩
  · have hstep := step_of_halted hm
    have hruns : m.Runs (.ok ()) m.step.machine := .halt (by rw [hstep])
    rw [result_ok_iff.mpr houtcome, hmachine]
    rwa [hstep] at hruns
  · rw [hrun] at h
    exact absurd rfl h
  · rw [hrun]
    exact hends.runs _ rfl n

theorem exists_runWithin (h : m.Runs r m') : ∃ n, (m.runWithin n).outcome ≠ .ongoing := by
  obtain ⟨k, o, hends, -⟩ := h.ends
  refine ⟨k + 1, ?_⟩
  rw [runWithin_of_ends hends (Nat.lt_succ_self k)]
  exact hends.stops

theorem Runs.unique {r' : Except RunError Unit} {m₁ m₂ : Machine} (h₁ : m.Runs r m₁) (h₂ : m.Runs r' m₂) :
    r = r' ∧ m₁ = m₂ :=
  ⟨h₁.reply.1.symm.trans h₂.reply.1, h₁.reply.2.symm.trans h₂.reply.2⟩

theorem Runs.ok_or_fault (h : m.Runs r m') : r = .ok () ∨ ∃ f, r = .error (.fault f) := by
  induction h with
  | halt => exact .inl rfl
  | @fault _ f => exact .inr ⟨f, rfl⟩
  | next _ _ ih => exact ih

theorem Runs.size (h : m.Runs r m') : m'.memory.size = m.memory.size := by
  obtain ⟨k, o, -, rfl, -⟩ := h.ends
  exact m.after_size (k + 1)

/-- A run without a limit has an end when the number of states, which stands for no limit, is enough. -/
theorem exists_runs_iff : (∃ r m', m.Runs r m') ↔ m.run.outcome ≠ .ongoing := by
  constructor
  · rintro ⟨r, m', h⟩
    obtain ⟨k, o, hends, -⟩ := h.ends
    rw [run_of_ends hends]
    exact hends.stops
  · intro h
    rw [run_eq_runWithin] at h
    exact ⟨_, _, runs_of_runWithin h⟩

theorem reply_of_forever (h : ¬∃ r m', m.Runs r m') :
    (m.reply .run).result = .error (.stepLimit m.stateCount) :=
  result_stepLimit_iff.mpr ⟨rfl, not_not.mp (mt exists_runs_iff.mpr h)⟩

/-! ### Limits one after the other -/

theorem runWithin_after_machine (m : Machine) (a b : Nat) :
    ((m.after a).runWithin b).machine = (m.runWithin (a + b)).machine := by
  rw [runWithin_machine_eq_after, runWithin_machine_eq_after, after_add]

/-- Where the first limit is too small, the second goes on with the same row of steps. -/
theorem runWithin_after_outcome {a : Nat} (h : (m.runWithin a).outcome = .ongoing) (b : Nat) :
    ((m.after a).runWithin b).outcome = (m.runWithin (a + b)).outcome := by
  obtain ⟨hm, hongoing⟩ := runWithin_ongoing_iff.mp h
  have hm' := hongoing.status_ne_halted hm
  rcases m.ongoing_or_ends (a + b) with hall | ⟨k, hk, o, hends⟩
  · have hrest : (m.after a).Ongoing b := by
      intro j hj
      rw [← after_add]
      exact hall (a + j) (Nat.add_lt_add_left hj a)
    rw [runWithin_of_ongoing hm hall, runWithin_of_ongoing hm' hrest]
  · have hak : a ≤ k := by
      by_contra hlt
      exact hends.stops (hends.last.symm.trans (hongoing k (Nat.lt_of_not_le hlt)))
    obtain ⟨j, rfl⟩ := Nat.exists_eq_add_of_le hak
    rw [runWithin_of_ends hends hk, runWithin_of_ends hends.of_after (by omega)]

/-- Where the first limit is enough, more steps come to the same. -/
theorem runWithin_add_of_stopped {a : Nat} (h : (m.runWithin a).outcome ≠ .ongoing) (b : Nat) :
    (m.runWithin (a + b)).outcome = (m.runWithin a).outcome := by
  rcases m.runWithin_cases a with ⟨hm, houtcome, -⟩ | ⟨-, -, hrun⟩ | ⟨-, k, hk, o, hends, hrun⟩
  · rw [houtcome, (runWithin_of_halted hm (a + b)).1]
  · rw [hrun] at h
    exact absurd rfl h
  · rw [hrun, runWithin_of_ends hends (by omega)]

theorem runWithin_after_halted {a : Nat} (h : (m.runWithin a).outcome = .halted) (b : Nat) :
    ((m.after a).runWithin b).outcome = .halted := by
  rw [← runWithin_machine_eq_after]
  exact (runWithin_of_halted ((m.runWithin_status a).1 h) b).1

/-- A fault is repeated by the first step of a second limit that allows one. -/
theorem runWithin_after_faulted {a : Nat} {f : Fault} (h : (m.runWithin a).outcome = .faulted f) (b : Nat) :
    ((m.after a).runWithin b).outcome = if b = 0 then .ongoing else .faulted f := by
  have hstatus := (m.runWithin_status a).2 f h
  rw [runWithin_machine_eq_after] at hstatus
  split
  · rename_i hb
    subst hb
    exact runWithin_ongoing_iff.mpr ⟨by simp [hstatus], fun k hk => absurd hk (Nat.not_lt_zero k)⟩
  · obtain ⟨k, hk, hongoing, hlast, -⟩ := runWithin_faulted h
    have hends : m.Ends k (.faulted f) := ⟨hongoing, hlast, by simp⟩
    have hagain := (hends.repeats (Nat.le_of_lt hk)).1
    exact runWithin_faulted_iff.mpr ⟨0, by omega, hagain, fun j hj => absurd hj (Nat.not_lt_zero j)⟩

theorem reply_after_stepLimit {a : Nat} (h : (m.reply (.runWithin a)).result = .error (.stepLimit a)) (b : Nat) :
    ((m.after a).reply (.runWithin b)).result = .error (.stepLimit b) ∧
        (m.reply (.runWithin (a + b))).result = .error (.stepLimit (a + b)) ∨
      ((m.after a).reply (.runWithin b)).result = (m.reply (.runWithin (a + b))).result ∧
        ∀ l, (m.reply (.runWithin (a + b))).result ≠ .error (.stepLimit l) := by
  have hsame := runWithin_after_outcome (result_stepLimit_iff.mp h).2 b
  by_cases hwhole : (m.runWithin (a + b)).outcome = .ongoing
  · apply Or.inl
    exact ⟨result_stepLimit_iff.mpr ⟨rfl, hsame.trans hwhole⟩, result_stepLimit_iff.mpr ⟨rfl, hwhole⟩⟩
  · apply Or.inr
    exact ⟨(result_eq_of_outcome hsame.symm hwhole _ _).symm, result_ne_stepLimit_iff.mpr hwhole⟩

theorem reply_after_ok {a : Nat} (h : (m.reply (.runWithin a)).result = .ok ()) (b : Nat) :
    ((m.after a).reply (.runWithin b)).result = .ok () ∧ (m.reply (.runWithin (a + b))).result = .ok () := by
  have hhalted : (m.runWithin a).outcome = .halted := result_ok_iff.mp h
  have hstop : (m.runWithin a).outcome ≠ .ongoing := by simp [hhalted]
  exact ⟨result_ok_iff.mpr (runWithin_after_halted hhalted b),
    result_ok_iff.mpr ((runWithin_add_of_stopped hstop b).trans hhalted)⟩

theorem reply_after_fault {a : Nat} {f : Fault} (h : (m.reply (.runWithin a)).result = .error (.fault f))
    (b : Nat) : (m.reply (.runWithin (a + b))).result = .error (.fault f) ∧
      ((m.after a).reply (.runWithin b)).result =
        if b = 0 then .error (.stepLimit 0) else .error (.fault f) := by
  have hfaulted : (m.runWithin a).outcome = .faulted f := result_fault_iff.mp h
  have hstop : (m.runWithin a).outcome ≠ .ongoing := by simp [hfaulted]
  have hsecond := runWithin_after_faulted hfaulted b
  refine ⟨result_fault_iff.mpr ((runWithin_add_of_stopped hstop b).trans hfaulted), ?_⟩
  by_cases hb : b = 0
  · subst hb
    exact result_stepLimit_iff.mpr ⟨rfl, hsecond⟩
  · rw [if_neg hb] at hsecond ⊢
    exact result_fault_iff.mpr hsecond

/-- **Steps, runs within a limit and runs without one agree.** A run within `n` steps leaves the machine that
`n` steps leave, whatever they come to. It ends well when the machine has halted or one of these steps halts
and none fails before it, in the fault of the first step that fails when one does, and at its limit when the
machine has not halted and every step leaves it going. A run without a limit has an end when some limit is
enough, and every limit that is enough shows it. So two limits, one after the other, are as good as their
sum. -/
theorem runs_agree_with_steps (m : Machine) :
    (∀ n, let reply := m.reply (.runWithin n)
      reply.machine = m.after n ∧
      (reply.result = .ok () ↔ m.status = .halted ∨ ∃ k < n, (m.after k).step.outcome = .halted ∧
        ∀ j < k, ∀ f, (m.after j).step.outcome ≠ .faulted f) ∧
      (∀ f, reply.result = .error (.fault f) ↔ ∃ k < n, (m.after k).step.outcome = .faulted f ∧
        ∀ j < k, ∀ g, (m.after j).step.outcome ≠ .faulted g) ∧
      ∀ l, reply.result = .error (.stepLimit l) ↔
        l = n ∧ m.status ≠ .halted ∧ ∀ k < n, (m.after k).step.outcome = .ongoing) ∧
    ((∃ r m', m.Runs r m') ↔ ∃ n, ∀ l, (m.reply (.runWithin n)).result ≠ .error (.stepLimit l)) ∧
    ((∃ r m', m.Runs r m') ↔ ∀ l, (m.reply .run).result ≠ .error (.stepLimit l)) ∧
    (∀ r m', m.Runs r m' → (m.reply .run).result = r ∧ (m.reply .run).machine = m') ∧
    (∀ n, (∀ l, (m.reply (.runWithin n)).result ≠ .error (.stepLimit l)) →
      m.Runs (m.reply (.runWithin n)).result (m.reply (.runWithin n)).machine ∧
      (m.reply .run).result = (m.reply (.runWithin n)).result ∧
      (m.reply .run).machine = (m.reply (.runWithin n)).machine) ∧
    ∀ a b, let first := m.reply (.runWithin a)
      let second := first.machine.reply (.runWithin b)
      let whole := m.reply (.runWithin (a + b))
      second.machine = whole.machine ∧
      (first.result = .error (.stepLimit a) →
        second.result = .error (.stepLimit b) ∧ whole.result = .error (.stepLimit (a + b)) ∨
          second.result = whole.result ∧ ∀ l, whole.result ≠ .error (.stepLimit l)) ∧
      (first.result = .ok () → second.result = .ok () ∧ whole.result = .ok ()) ∧
      ∀ f, first.result = .error (.fault f) → whole.result = .error (.fault f) ∧
        second.result = if b = 0 then .error (.stepLimit 0) else .error (.fault f) := by
  refine ⟨fun n => ⟨m.runWithin_machine_eq_after n, ?_, fun f => ?_, fun l => ?_⟩, ⟨?_, ?_⟩,
    exists_runs_iff.trans result_ne_stepLimit_iff.symm, fun r m' h => h.reply, fun n hn => ?_, fun a b => ?_⟩
  · exact result_ok_iff.trans runWithin_halted_iff
  · exact result_fault_iff.trans runWithin_faulted_iff
  · exact result_stepLimit_iff.trans (and_congr_right fun _ => runWithin_ongoing_iff)
  · rintro ⟨r, m', h⟩
    obtain ⟨n, hn⟩ := exists_runWithin h
    exact ⟨n, result_ne_stepLimit_iff.mpr hn⟩
  · rintro ⟨n, hn⟩
    exact ⟨_, _, runs_of_runWithin (result_ne_stepLimit_iff.mp hn)⟩
  · have hruns := runs_of_runWithin (result_ne_stepLimit_iff.mp hn)
    exact ⟨hruns, hruns.reply⟩
  · have hmachine : (m.reply (.runWithin a)).machine = m.after a := m.runWithin_machine_eq_after a
    dsimp only
    rw [hmachine]
    exact ⟨m.runWithin_after_machine a b, fun h => reply_after_stepLimit h b, fun h => reply_after_ok h b,
      fun f h => reply_after_fault h b⟩

end Intcode.Machine
