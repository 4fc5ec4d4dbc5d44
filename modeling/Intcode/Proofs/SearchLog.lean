import Intcode.Proofs.EditedText
import Intcode.Proofs.LogLevel
import Intcode.Proofs.Search

/-! The log of a search. A run makes no record of severity `debug` or above but for the last of its steps, which
makes one. So each pair that is tried is one halt in the log, or one fault of the machine with one of the search
behind it, and the pair that is found has a further record behind its halt. Pairs have room in the program and
results can be read, so there is no fault of the search without one of the machine. -/

namespace Intcode

namespace Record

variable {threshold : Threshold}

theorem shown_append (log log' : List Record) :
    shown threshold (log ++ log') = shown threshold log ++ shown threshold log' := List.filter_append ..

theorem shown_flatMap {α : Type} (l : List α) (f : α → List Record) :
    shown threshold (l.flatMap f) = l.flatMap fun a => shown threshold (f a) := by
  simp only [shown, List.filter_flatMap]

/-- What is seen of a record: its severity, the part of the program that it is from, and its text. -/
def seen (r : Record) : Level × String × String := (r.level, r.target, r.message)

/-- What is seen of a log at the severity `debug`. -/
def seenLog (log : List Record) : List (Level × String × String) := (shown (some .debug) log).map seen

theorem seenLog_flatMap {α : Type} (l : List α) (f : α → List Record) :
    seenLog (l.flatMap f) = l.flatMap fun a => seenLog (f a) := by
  simp only [seenLog, shown_flatMap, List.map_flatMap]

end Record

namespace Machine

open Record

variable {m last : Machine} {f : Fault} {k : Nat} {o : Outcome}

/-! ### The records of a run -/

/-- The records of severity `debug` or above that tell how a run ends. -/
def endRecords (pc : UInt64) : Outcome → List Record
  | .ongoing => []
  | .halted => [.halted pc]
  | .faulted f => [.faulted pc f]

/-- Of a step it is seen only that it is the last of a run. -/
theorem shown_step (hm : m.status ≠ .halted) :
    shown (some .debug) m.step.log = endRecords m.step.machine.pc m.step.outcome := by
  obtain ⟨hhalted, -⟩ | ⟨-, ⟨f, -, hstep⟩ | ⟨i, x, f, -, -, hstep⟩ | ⟨i, x, e, -, -, hstep⟩⟩ := m.step_cases
  · exact absurd hhalted hm
  · rw [hstep]
    rfl
  · rw [hstep]
    rfl
  · rw [hstep]
    cases e <;> rfl

/-- Of a row of steps the last alone is seen. -/
theorem Ends.shown_log (hm : m.status ≠ .halted) (h : m.Ends k o) :
    shown (some .debug) (m.log m.run.steps) = endRecords (m.after (k + 1)).pc o := by
  have hbefore : shown (some .debug) (m.log k) = [] := by
    rw [log_eq_flatMap, shown_flatMap, List.flatMap_eq_nil_iff]
    intro j hj
    have hjk := List.mem_range.mp hj
    rw [shown_step ((h.before.mono (Nat.le_of_lt hjk)).status_ne_halted hm), h.before j hjk]
    rfl
  have hlast : (m.after k).log 1 = (m.after k).step.log := by
    rw [log_succ]
    exact List.append_nil _
  rw [run_of_ends h, log_add, shown_append, hbefore, List.nil_append, hlast,
    shown_step (h.before.status_ne_halted hm), h.last, after_succ]

theorem Runs.shown_log_of_halt (hm : m.status ≠ .halted) (h : m.Runs (.ok ()) last) :
    shown (some .debug) (m.log m.run.steps) = [.halted last.pc] := by
  obtain ⟨k, o, hends, rfl, hresult⟩ := h.ends
  cases result_ok_iff.mp (hresult ⟨o, m, 0⟩ rfl 0).symm
  exact hends.shown_log hm

theorem Runs.shown_log_of_fault (hm : m.status ≠ .halted) (h : m.Runs (.error (.fault f)) last) :
    shown (some .debug) (m.log m.run.steps) = [.faulted last.pc f] := by
  obtain ⟨k, o, hends, rfl, hresult⟩ := h.ends
  cases result_fault_iff.mp (hresult ⟨o, m, 0⟩ rfl 0).symm
  exact hends.shown_log hm

theorem level_ne_info_of_mem_step_log {r : Record} (h : r ∈ m.step.log) : r.level ≠ .info := by
  intro hinfo
  by_cases hm : m.status = .halted
  · rw [step_of_halted hm] at h
    cases h
  -- a record as severe as that would be one of those that tell how the run ends
  · have hshown : r ∈ shown (some .debug) m.step.log := List.mem_filter.mpr ⟨h, by rw [hinfo]; rfl⟩
    rw [shown_step hm] at hshown
    generalize m.step.outcome = o at hshown
    cases o with
    | ongoing => cases hshown
    | halted | faulted f =>
        cases List.mem_singleton.mp hshown
        cases hinfo

/-- No record of a machine is as severe as `info`. -/
theorem level_ne_info_of_mem_log {r : Record} {n : Nat} (h : r ∈ m.log n) : r.level ≠ .info := by
  rw [log_eq_flatMap, List.mem_flatMap] at h
  obtain ⟨j, -, hr⟩ := h
  exact level_ne_info_of_mem_step_log hr

end Machine

namespace Search

open Machine Pair Record

variable {s : Search} {p : Pair} {edited : Memory} {k : Nat}

/-! ### The pairs that are tried -/

/-- The pair is tried: it is one of the interval's, and none before it makes the program leave the target. -/
def Tried (s : Search) (p : Pair) : Prop :=
  p.Within s.range ∧ ∀ q : Pair, q.Within s.range → q.Before p → q.evaluate s.base ≠ .ok s.target

/-- The number of pairs that are tried. -/
def tries (s : Search) : Nat :=
  match s.firstHit? with
  | some k => k + 1
  | none => s.count

theorem tries_of_hit (h : s.firstHit? = some k) : s.tries = k + 1 := by rw [tries, h]

theorem tries_of_no_hit (h : s.firstHit? = none) : s.tries = s.count := by rw [tries, h]

theorem lt_tries_iff :
    k < s.tries ↔ k < s.count ∧ ∀ j < k, (s.pair j).evaluate s.base ≠ .ok s.target := by
  cases hhit : s.firstHit? with
  | some i =>
      obtain ⟨hi, hvalue, hbelow⟩ := firstHit?_eq_some_iff.mp hhit
      rw [tries_of_hit hhit]
      constructor
      · intro hk
        exact ⟨by omega, fun j hj => hbelow j (by omega)⟩
      · rintro ⟨-, hnone⟩
        by_contra hk
        exact hnone i (by omega) hvalue
  | none =>
      have hnone := firstHit?_eq_none_iff.mp hhit
      rw [tries_of_no_hit hhit]
      exact ⟨fun hk => ⟨hk, fun j hj => hnone j (by omega)⟩, fun h => h.1⟩

theorem tried_iff : s.Tried p ↔ ∃ k < s.tries, s.pair k = p := by
  constructor
  · rintro ⟨hwithin, hbelow⟩
    obtain ⟨k, hk, rfl⟩ := within_iff.mp hwithin
    refine ⟨k, lt_tries_iff.mpr ⟨hk, fun j hj => ?_⟩, rfl⟩
    have hcount : j < s.count := Nat.lt_trans hj hk
    exact hbelow (s.pair j) (within_iff.mpr ⟨j, hcount, rfl⟩) ((before_iff hcount hk).mpr hj)
  · rintro ⟨k, hk, rfl⟩
    obtain ⟨hcount, hnone⟩ := lt_tries_iff.mp hk
    refine ⟨within_iff.mpr ⟨k, hcount, rfl⟩, fun q hq hbefore => ?_⟩
    obtain ⟨j, hj, rfl⟩ := within_iff.mp hq
    exact hnone j ((before_iff hj hcount).mp hbefore)

/-- The pairs that are tried, in their order. -/
def triedPairs (s : Search) : List Pair := (List.range s.tries).map s.pair

theorem mem_triedPairs_iff : p ∈ s.triedPairs ↔ s.Tried p := by
  rw [triedPairs, List.mem_map, tried_iff]
  simp only [List.mem_range]

theorem mem_triedPairs_of_noSolution {t : Word} (h : s.solve = .error (.noSolution t)) :
    p ∈ s.triedPairs ↔ p.Within s.range := by
  have hnone := (solve_eq_noSolution_iff.mp h).2.2
  rw [mem_triedPairs_iff, Tried, and_iff_left_iff_imp]
  exact fun _ q hq _ => hnone q hq

theorem pairwise_triedPairs (s : Search) : s.triedPairs.Pairwise Before := by
  rw [triedPairs, List.pairwise_map]
  refine List.pairwise_lt_range.imp_of_mem fun {j k} hj hk hlt => ?_
  rw [List.mem_range, lt_tries_iff] at hj hk
  exact (before_iff hj.1 hk.1).mpr hlt

/-! ### The records of a pair -/

/-- What the log of a search tells of a pair that is tried, as it is seen at the severity `debug`. -/
inductive Tells (s : Search) (p : Pair) : List (Level × String × String) → Prop
  /-- The run halts and leaves another word than the target. -/
  | miss {edited : Memory} {last : Machine} {v : Word} (edits : p.Edits s.base edited)
      (runs : (load edited).Runs (.ok ()) last) (cell : last.memory.cell? 0 = some v) (ne : v ≠ s.target) :
      Tells s p [(.debug, "intcode::vm", "halt at pc " ++ counterText last.pc)]
  /-- The run halts and leaves the target. -/
  | hit {edited : Memory} {last : Machine} (edits : p.Edits s.base edited)
      (runs : (load edited).Runs (.ok ()) last) (cell : last.memory.cell? 0 = some s.target) :
      Tells s p [(.debug, "intcode::vm", "halt at pc " ++ counterText last.pc),
        (.info, "intcode::search",
          "noun " ++ p.noun.text ++ " verb " ++ p.verb.text ++ " produces " ++ s.target.text)]
  /-- The run faults. -/
  | fault {edited : Memory} {last : Machine} {f : Fault} (edits : p.Edits s.base edited)
      (runs : (load edited).Runs (.error (.fault f)) last) :
      Tells s p [(.debug, "intcode::vm", "fault at pc " ++ counterText last.pc ++ ": " ++ f.message),
        (.debug, "intcode::search",
          "noun " ++ p.noun.text ++ " verb " ++ p.verb.text ++ " faulted: " ++ f.message)]

theorem tells_pairLog {r : Except RunError Unit} {last : Machine} (hplace : (s.pair k).place s.base = .ok edited)
    (h : (load edited).Runs r last) : s.Tells (s.pair k) (seenLog (s.pairLog k)) := by
  have hedits := edits_of_place hplace
  have hlog : (s.pair k).log s.base = (load edited).log (load edited).run.steps := by
    rw [Pair.log, hplace]
  have hstart : (load edited).status ≠ .halted := (nofun : Status.running ≠ .halted)
  rcases h.ok_or_fault with rfl | ⟨f, rfl⟩
  · obtain ⟨v, hread⟩ := exists_result hplace h
    have hcell := Memory.read_eq_ok_iff.mp hread
    rw [seenLog, pairLog, hlog, shown_append, h.shown_log_of_halt hstart, evaluate_of_halt hplace h hread]
    dsimp only
    by_cases hv : v = s.target
    · rw [if_pos hv]
      exact .hit hedits h (hv ▸ hcell)
    · rw [if_neg hv]
      exact .miss hedits h hcell hv
  · rw [seenLog, pairLog, hlog, shown_append, h.shown_log_of_fault hstart, evaluate_of_fault hplace h]
    exact .fault hedits h

theorem level_ne_info_of_mem_pair_log {r : Record} {base : Memory} (h : r ∈ p.log base) : r.level ≠ .info := by
  rw [Pair.log] at h
  split at h
  · cases h
  · exact level_ne_info_of_mem_log h

theorem pairLog_of_hit (h : (s.pair k).evaluate s.base = .ok s.target) :
    s.pairLog k = (s.pair k).log s.base ++ [.pairFound (s.pair k).noun (s.pair k).verb s.target] := by
  rw [pairLog, h]
  dsimp only
  rw [if_pos rfl]

theorem level_ne_info_of_mem_pairLog {r : Record} (h : (s.pair k).evaluate s.base ≠ .ok s.target)
    (hr : r ∈ s.pairLog k) : r.level ≠ .info := by
  rw [pairLog, List.mem_append] at hr
  rcases hr with hr | hr
  · exact level_ne_info_of_mem_pair_log hr
  · cases hvalue : (s.pair k).evaluate s.base with
    | ok value =>
        rw [hvalue] at h hr
        dsimp only at hr
        rw [if_neg fun hsame => h (congrArg Except.ok hsame)] at hr
        cases hr
    | error e =>
        rw [hvalue] at hr
        cases e with
        | fault f =>
            rw [List.mem_singleton.mp hr]
            exact nofun
        | stepLimit l => cases hr

/-! ### The records of the search -/

theorem log_of_short (h : s.base.size < 3) : s.log = [] := by
  rw [log, if_pos (isTooShort_iff.mpr h)]

section Long

variable (hlong : 3 ≤ s.base.size)

include hlong

theorem log_of_long : s.log = (List.range s.tries).flatMap s.pairLog := by
  rw [log, if_neg (not_isTooShort hlong)]
  rfl

theorem log_of_hit (hhit : s.firstHit? = some k) :
    ∃ earlier, s.log = earlier ++ [.pairFound (s.pair k).noun (s.pair k).verb s.target] ∧
      ∀ r ∈ earlier, r.level ≠ .info := by
  obtain ⟨-, hvalue, hbelow⟩ := firstHit?_eq_some_iff.mp hhit
  refine ⟨(List.range k).flatMap s.pairLog ++ (s.pair k).log s.base, ?_, fun r hr => ?_⟩
  · rw [log_of_long hlong, tries_of_hit hhit, List.range_succ, List.flatMap_append, List.flatMap_singleton,
      pairLog_of_hit hvalue, List.append_assoc]
  · rw [List.mem_append, List.mem_flatMap] at hr
    rcases hr with ⟨j, hj, hr⟩ | hr
    · exact level_ne_info_of_mem_pairLog (hbelow j (List.mem_range.mp hj)) hr
    · exact level_ne_info_of_mem_pair_log hr

theorem log_of_no_hit (hhit : s.firstHit? = none) : ∀ r ∈ s.log, r.level ≠ .info := by
  intro r hr
  rw [log_of_long hlong, tries_of_no_hit hhit, List.mem_flatMap] at hr
  obtain ⟨k, hk, hr⟩ := hr
  exact level_ne_info_of_mem_pairLog (firstHit?_eq_none_iff.mp hhit k (List.mem_range.mp hk)) hr

theorem getLast?_triedPairs (h : s.solve = .ok p) : s.triedPairs.getLast? = some p := by
  obtain ⟨k, hhit, rfl⟩ := (solve_eq_ok_iff_position hlong).mp h
  rw [triedPairs, tries_of_hit hhit, List.range_succ, List.map_append, List.map_singleton, List.getLast?_concat]

end Long

/-- The pair that is found is in the last record, and in no other of its severity. -/
theorem log_of_ok (h : s.solve = .ok p) :
    ∃ earlier, s.log = earlier ++ [.pairFound p.noun p.verb s.target] ∧ ∀ r ∈ earlier, r.level ≠ .info := by
  have hlong := (solve_eq_ok_iff.mp h).1
  obtain ⟨k, hhit, rfl⟩ := (solve_eq_ok_iff_position hlong).mp h
  exact log_of_hit hlong hhit

theorem exists_info_iff : (∃ r ∈ s.log, r.level = .info) ↔ ∃ p, s.solve = .ok p := by
  constructor
  · rintro ⟨r, hr, hinfo⟩
    by_cases hlong : 3 ≤ s.base.size
    · cases hhit : s.firstHit? with
      | some k => exact ⟨_, solve_of_hit hlong hhit⟩
      | none => exact absurd hinfo (log_of_no_hit hlong hhit r hr)
    · rw [log_of_short (by omega)] at hr
      cases hr
  · rintro ⟨p, h⟩
    obtain ⟨earlier, hlog, -⟩ := log_of_ok h
    refine ⟨.pairFound p.noun p.verb s.target, ?_, rfl⟩
    rw [hlog]
    exact List.mem_append_right _ (List.mem_singleton_self _)

/-- **The log of a search tells the search.** Let the run of every pair that is tried have an end. The pairs
tried are those of the interval, in their order, up to the one that is found, or all of them if there is none.
At the severity `debug` the log is a row of what is told of each of them: one halt of the machine, or one fault of
the machine and behind it one of the search with the same message. The pair that is found is told behind its
halt by the last record of the log; this is the only one of severity `info`, and there is one exactly when the
search yields a pair. The log of a search whose program is too short is empty. -/
theorem log_tells_search (s : Search)
    (hends : ∀ p edited, s.Tried p → p.Edits s.base edited → ∃ r last, (load edited).Runs r last) :
    (3 ≤ s.base.size → ∃ (tried : List Pair) (told : List (List (Level × String × String))),
      tried.Pairwise Before ∧ (∀ p, p ∈ tried ↔ s.Tried p) ∧
      (∀ p, s.solve = .ok p → tried.getLast? = some p) ∧
      (∀ t, s.solve = .error (.noSolution t) → ∀ p, p ∈ tried ↔ p.Within s.range) ∧
      List.Forall₂ s.Tells tried told ∧ seenLog s.log = told.flatten) ∧
    (∀ p, s.solve = .ok p → ∃ earlier, s.log = earlier ++ [.pairFound p.noun p.verb s.target] ∧
      ∀ r ∈ earlier, r.level ≠ .info) ∧
    ((∃ r ∈ s.log, r.level = .info) ↔ ∃ p, s.solve = .ok p) ∧
    (s.solve = .error .programTooShort → s.log = []) := by
  refine ⟨fun hlong => ?_, fun p => log_of_ok, exists_info_iff,
    fun h => log_of_short (solve_eq_programTooShort_iff.mp h)⟩
  refine ⟨s.triedPairs, (List.range s.tries).map fun k => seenLog (s.pairLog k), s.pairwise_triedPairs,
    fun p => mem_triedPairs_iff, fun p => getLast?_triedPairs hlong,
    fun t h p => mem_triedPairs_of_noSolution h, ?_, ?_⟩
  · rw [triedPairs, List.forall₂_map_left_iff, List.forall₂_map_right_iff, List.forall₂_same]
    intro k hk
    obtain ⟨edited, hplace⟩ := (s.pair k).exists_place hlong
    have htried : s.Tried (s.pair k) := tried_iff.mpr ⟨k, List.mem_range.mp hk, rfl⟩
    obtain ⟨r, last, hruns⟩ := hends (s.pair k) edited htried (edits_of_place hplace)
    exact tells_pairLog hplace hruns
  · rw [log_of_long hlong, seenLog_flatMap, List.flatMap_def]

/-- The pairs are added up as addresses. The first word of the interval is not one, so four pairs fault before one
that misses the target and the one that leaves it; the last three pairs are not tried. -/
theorem log_tells_search_of_mixed_pairs :
    let s : Search := ⟨⟨#[1, 0, 0, 0, 99]⟩, 1, ⟨-1, 1⟩⟩
    (∀ p edited, s.Tried p → p.Edits s.base edited → ∃ r last, (load edited).Runs r last) ∧
    (∃ (tried : List Pair) (told : List (List (Level × String × String))),
      tried.Pairwise Before ∧ (∀ p, p ∈ tried ↔ s.Tried p) ∧ tried.getLast? = some ⟨0, 1⟩ ∧
      List.Forall₂ s.Tells tried told ∧ seenLog s.log = told.flatten) ∧
    (∃ earlier, s.log = earlier ++ [.pairFound 0 1 1] ∧ ∀ r ∈ earlier, r.level ≠ .info) := by
  intro s
  have hsolve : s.solve = .ok ⟨0, 1⟩ := by decide +kernel
  have hends : ∀ p edited, s.Tried p → p.Edits s.base edited → ∃ r last, (load edited).Runs r last := by
    have hall : ∀ k < s.count, ((load ((s.base.set nounAddress (s.pair k).noun).set verbAddress
        (s.pair k).verb)).runWithin 2).outcome ≠ .ongoing := by decide +kernel
    intro p edited hp hedits
    obtain ⟨k, hk, rfl⟩ := within_iff.mp hp.1
    obtain ⟨-, rfl⟩ := place_eq_ok_iff.mp (place_of_edits hedits)
    exact ⟨_, _, runs_of_runWithin (hall k hk)⟩
  obtain ⟨hlong, hfound, -, -⟩ := log_tells_search s hends
  obtain ⟨tried, told, hbefore, hmem, hlast, -, htells, hlog⟩ := hlong (by decide)
  exact ⟨hends, ⟨tried, told, hbefore, hmem, hlast _ hsolve, htells, hlog⟩, hfound _ hsolve⟩

end Search

end Intcode
