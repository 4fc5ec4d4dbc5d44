import Intcode.Proofs.Answers
import Intcode.Proofs.Replay

/-! The setting of the log, which is not observed but in the log. It is looked at once, when the lines are put
together: what is computed and how the program ends do not depend on it, and the lines in front of the results
are those of the records that are severe enough, out of one row of records. No record is more severe than
`info`, so many settings show none. -/

namespace Intcode

namespace Level

variable {name : String} {level : Level}

theorem mem_all (level : Level) : level ∈ all := by cases level <;> decide

theorem name_injective {level' : Level} (h : level.name = level'.name) : level = level' := by
  revert h
  cases level <;> cases level' <;> decide

theorem ofName?_eq_some_iff : ofName? name = some level ↔ name.toUpper = level.name := by
  unfold ofName?
  constructor
  · intro h
    have hfound := List.find?_some h
    exact (eq_of_beq hfound).symm
  · intro h
    cases hfind : all.find? (fun level => level.name == name.toUpper) with
    | none =>
        have hno := List.find?_eq_none.mp hfind level (mem_all level)
        rw [h] at hno
        exact absurd (beq_self_eq_true level.name) hno
    | some other =>
        have hother := List.find?_some hfind
        rw [name_injective ((eq_of_beq hother).trans h)]

end Level

namespace Threshold

variable {name : String} {level : Level} {setting : Option String}

theorem ofSetting_of_level (h : name.toUpper = level.name) : ofSetting (some name) = some level := by
  have hoff : name.toUpper ≠ "OFF" := by
    rw [h]
    cases level <;> decide
  rw [ofSetting, if_neg hoff, Level.ofName?_eq_some_iff.mpr h, Option.getD_some]

/-- A setting that names no severity up to `info` does not show records of that severity. -/
theorem admits_info_of_quiet (h : ∀ name, setting = some name → name.toUpper ∉ ["TRACE", "DEBUG", "INFO"]) :
    (ofSetting setting).admits .info = false := by
  cases setting with
  | none => rfl
  | some name =>
      have hname := h name rfl
      rw [ofSetting]
      split
      · rfl
      · cases hlevel : Level.ofName? name with
        | none => rfl
        | some level =>
            rw [Level.ofName?_eq_some_iff.mp hlevel] at hname
            cases level with
            | trace | debug | info => exact absurd (by decide) hname
            | warn | error => rfl

end Threshold

namespace Record

variable {threshold : Threshold} {records : List Record}

theorem rank_level_le (r : Record) : r.level.rank ≤ Level.info.rank := by
  cases r with
  | executed => exact Nat.zero_le 2
  | halted | faulted | pairFaulted => exact Nat.le_succ 1
  | pairFound => exact Nat.le_refl 2

theorem shown_some (least : Level) (records : List Record) :
    shown (some least) records = records.filter fun r => least.rank ≤ r.level.rank := rfl

theorem shown_trace (records : List Record) : shown (some .trace) records = records := by
  rw [shown_some, List.filter_eq_self]
  exact fun r _ => decide_eq_true (Nat.zero_le r.level.rank)

theorem shown_eq_nil (h : threshold.admits .info = false) : shown threshold records = [] := by
  rw [shown, List.filter_eq_nil_iff]
  intro r _
  cases threshold with
  | none => exact Bool.false_ne_true
  | some least =>
      have hinfo : ¬least.rank ≤ Level.info.rank := of_decide_eq_false h
      have hrecord := r.rank_level_le
      exact decide_eq_true_iff.not.mpr (by omega)

end Record

namespace Command

variable {threshold : Threshold} {memory : Memory} {c : Command}

/-- The lines of the log are those of the records that the threshold admits, also where it is known beforehand
that there are none. -/
theorem logLines_eq (threshold : Threshold) (memory : Memory) (c : Command) :
    c.logLines threshold memory = (Record.shown threshold (c.log memory)).map Record.line := by
  rw [logLines]
  split
  · rfl
  · rename_i h
    rw [Record.shown_eq_nil (Bool.eq_false_of_not_eq_true h), List.map_nil]

/-- The records of a run are those of its steps. -/
theorem log_run (path : String) (input : Option Word) (memory : Memory) :
    let start : Machine := { Machine.load memory with input }
    ∃ n, start.run.machine = start.after n ∧
      (run path input).log memory = (List.range n).flatMap fun k => (start.after k).step.log := by
  intro start
  refine ⟨start.run.steps, ?_, start.log_eq_flatMap _⟩
  rw [Machine.run_eq_runWithin]
  exact start.runWithin_machine _

/-- The records that a command makes on a file: those on the memory that the file holds, if it holds one. -/
def fileLog (c : Command) : Except ReadError ByteArray → List Record
  | .error _ => []
  | .ok bytes =>
    match (String.fromUTF8? bytes).map Memory.parse with
    | some (.ok memory) => c.log memory
    | some (.error _) | none => []

theorem fileLog_of_text {t : String} (h : Memory.parse t = .ok memory) : c.fileLog (.ok t.toUTF8) = c.log memory := by
  simp only [fileLog, fromUTF8?_eq_some_iff.mpr rfl, Option.map_some, h]

/-- The threshold chooses among the records of a report, and nothing else in it depends on it. -/
theorem report_eq (threshold : Threshold) (c : Command) (file : Except ReadError ByteArray) :
    let quiet := c.report none file
    c.report threshold file =
      ⟨(Record.shown threshold (c.fileLog file)).map Record.line ++ quiet.lines, quiet.ending⟩ := by
  intro quiet
  cases file with
  | error e => rfl
  | ok bytes =>
      simp only [quiet, report, fileLog]
      cases String.fromUTF8? bytes with
      | none => rfl
      | some t =>
          simp only [Option.map_some]
          cases Memory.parse t with
          | error e => rfl
          | ok memory =>
              have hquiet : c.logLines none memory = [] := rfl
              cases hresults : c.results memory with
              | error message => simp only [hresults, hquiet, logLines_eq, List.append_nil]
              | ok lines => simp only [hresults, hquiet, logLines_eq, List.nil_append]

theorem report_of_quiet (h : threshold.admits .info = false) (c : Command) (file : Except ReadError ByteArray) :
    c.report threshold file = c.report none file := by
  rw [report_eq, Record.shown_eq_nil h]
  rfl

end Command

namespace Report

open Command

variable {arguments : List String} {files : FileSystem}

/-- The records that the program makes on a row of arguments, whether or not they are shown. -/
def records (arguments : List String) (files : FileSystem) : List Record :=
  match Command.ofArguments arguments with
  | .error _ => []
  | .ok c => c.fileLog (files c.path)

theorem records_of_asks {c : Command} {memory : Memory} (hasks : Asks arguments c)
    (hfile : Holds files c.path memory) : records arguments files = c.log memory := by
  obtain ⟨t, hfile, hparse⟩ := hfile
  rw [records, ofArguments_eq_ok_iff.mpr hasks]
  dsimp only
  rw [hfile, fileLog_of_text hparse]

/-- Without a setting no record is shown, and the setting decides about nothing else. -/
theorem ofArguments_eq (arguments : List String) (files : FileSystem) (setting : Option String) :
    let quiet := ofArguments arguments files none
    ofArguments arguments files setting =
      ⟨(Record.shown (.ofSetting setting) (records arguments files)).map Record.line ++ quiet.lines,
        quiet.ending⟩ := by
  intro quiet
  simp only [quiet, ofArguments, records]
  cases Command.ofArguments arguments with
  | error e => cases e <;> rfl
  | ok c =>
      dsimp only
      have hquiet : (Threshold.ofSetting none).admits .info = false := rfl
      rw [report_of_quiet hquiet]
      exact report_eq (.ofSetting setting) c (files c.path)

/-- **The setting of the log is not observed but in the log.** Whatever it is, the program ends in the same way
and prints the same results, behind the lines of the log. Out of one row of records, which are those of the
steps taken, a setting that names a severity shows those that are at least as severe, in their order: `trace`
shows all of them, and a setting that is neither this nor `debug` nor `info` shows none, like no setting. -/
theorem log_level_not_observed (arguments : List String) (files : FileSystem) :
    let quiet := ofArguments arguments files none
    ∃ records : List Record,
      (∀ (name : String) (least : Level), name.toUpper = least.name →
        ofArguments arguments files (some name) =
          ⟨(records.filter fun r => least.rank ≤ r.level.rank).map Record.line ++ quiet.lines, quiet.ending⟩) ∧
      (∀ name : String, name.toUpper = "TRACE" →
        ofArguments arguments files (some name) = ⟨records.map Record.line ++ quiet.lines, quiet.ending⟩) ∧
      (∀ setting : Option String, (∀ name, setting = some name → name.toUpper ∉ ["TRACE", "DEBUG", "INFO"]) →
        ofArguments arguments files setting = quiet) ∧
      (∀ c memory, Asks arguments c → Holds files c.path memory → records = c.log memory) ∧
      ∀ path input memory, Asks arguments (.run path input) → Holds files path memory →
        let start : Machine := { Machine.load memory with input }
        ∃ n, start.run.machine = start.after n ∧
          records = (List.range n).flatMap fun k => (start.after k).step.log := by
  intro quiet
  have heq (setting : Option String) := ofArguments_eq arguments files setting
  refine ⟨records arguments files, fun name least h => ?_, fun name h => ?_, fun setting h => ?_,
    fun c memory hasks hfile => records_of_asks hasks hfile, fun path input memory hasks hfile => ?_⟩
  · rw [heq, Threshold.ofSetting_of_level h, Record.shown_some]
  · have htrace : name.toUpper = Level.trace.name := h
    rw [heq, Threshold.ofSetting_of_level htrace, Record.shown_trace]
  · rw [heq, Record.shown_eq_nil (Threshold.admits_info_of_quiet h), List.map_nil, List.nil_append]
  · rw [records_of_asks hasks hfile]
    exact log_run path input memory

end Report

end Intcode
