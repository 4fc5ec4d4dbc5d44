import Mathlib.Data.List.Basic
import Intcode.CommandLine.Report
import Intcode.Proofs.Evaluation
import Intcode.Proofs.ProgramText

/-! The command line on a file that holds a text. A command that runs a program succeeds when the run halts,
and one that searches succeeds when there is a pair, whose numbers can be read off the line that tells of it.
Without a setting there is no log, so nothing else is printed. -/

namespace Intcode

/-- Bytes are those of one text at most. -/
theorem fromUTF8?_eq_some_iff {bytes : ByteArray} {t : String} :
    String.fromUTF8? bytes = some t ↔ bytes = t.toUTF8 := by
  unfold String.fromUTF8? String.toUTF8
  constructor
  · intro h
    split at h
    · cases h
      rfl
    · cases h
  · rintro rfl
    rw [dif_pos t.isValidUTF8]
    rfl

namespace Machine

variable {m : Machine}

theorem run_result_eq_ok_iff : m.run.result m.stateCount = .ok () ↔ m.Runs (.ok ()) m.run.machine := by
  constructor
  · intro h
    have hends : m.run.outcome ≠ .ongoing := by
      rw [result_ok_iff.mp h]
      simp
    obtain ⟨r, m', hruns⟩ := exists_runs_iff.mpr hends
    obtain ⟨hresult, hmachine⟩ := hruns.reply
    simp only [reply] at hresult hmachine
    rw [hmachine, ← h, hresult]
    exact hruns
  · intro h
    exact h.reply.1

end Machine

namespace Command

variable {arguments lines : List String} {c : Command} {path : String} {memory : Memory}

/-! ### What is asked for -/

/-- The arguments ask for the command. An input and a target are written as integers, with nothing around
them. -/
inductive Asks : List String → Command → Prop where
  | run (path : String) : Asks ["run", path] (.run path none)
  | runOn {path argument : String} {input : Word} : Word.ofText? argument.toList = some input →
      Asks ["run", path, argument] (.run path (some input))
  | search {path argument : String} {target : Word} : Word.ofText? argument.toList = some target →
      Asks ["search", path, argument] (.search path target)

theorem map_integer_eq_ok_iff {argument : String} {f : Word → Command} :
    (integer argument).map f = .ok c ↔ ∃ w, Word.ofText? argument.toList = some w ∧ f w = c := by
  unfold integer
  cases Word.ofText? argument.toList <;> simp [Except.map]

theorem ofArguments_eq_ok_iff : ofArguments arguments = .ok c ↔ Asks arguments c := by
  constructor
  · intro h
    unfold ofArguments at h
    split at h
    · cases h
      exact .run _
    · obtain ⟨w, hw, rfl⟩ := map_integer_eq_ok_iff.mp h
      exact .runOn hw
    · obtain ⟨w, hw, rfl⟩ := map_integer_eq_ok_iff.mp h
      exact .search hw
    · cases h
  · intro h
    cases h with
    | run path => rfl
    | runOn hinput => exact map_integer_eq_ok_iff.mpr ⟨_, hinput, rfl⟩
    | search htarget => exact map_integer_eq_ok_iff.mpr ⟨_, htarget, rfl⟩

theorem asks_search_iff {argument : String} :
    Asks ["search", path, argument] c ↔ ∃ w, Word.ofText? argument.toList = some w ∧ search path w = c := by
  rw [← ofArguments_eq_ok_iff]
  exact map_integer_eq_ok_iff

/-! ### What has results -/

theorem results_run_eq_ok_iff {input : Option Word} :
    (run path input).results memory = .ok lines ↔
      ∃ last, ({ Machine.load memory with input } : Machine).Runs (.ok ()) last ∧
        lines = last.output.toList.map (fun w => "output: " ++ w.text) ++ [last.memory.text] := by
  have hresult := @Machine.run_result_eq_ok_iff { Machine.load memory with input }
  rw [results]
  dsimp only
  constructor
  · intro h
    split at h
    · cases h
    · rename_i hok
      cases h
      exact ⟨_, hresult.mp hok, rfl⟩
  · rintro ⟨last, hruns, rfl⟩
    obtain ⟨hok, hlast⟩ := hruns.reply
    simp only [Machine.reply] at hok hlast
    rw [hok, hlast]

/-- The line that tells of a pair. -/
def foundLine (noun verb answer : Int) : String :=
  "noun " ++ Text.Decimal.text noun ++ " verb " ++ Text.Decimal.text verb ++ " (answer " ++
    Text.Decimal.text answer ++ ")"

theorem results_search_eq_ok_iff {target : Word} :
    (search path target).results memory = .ok lines ↔
      ∃ p, ({ base := memory, target : Search }).solve = .ok p ∧
        lines = [foundLine p.noun.toInt p.verb.toInt p.answer.toInt] := by
  rw [results]
  cases Search.solve { base := memory, target } with
  | error e => simp
  | ok p => simp [foundLine, Word.text, eq_comm]

/-- Between its blanks, the line has the numbers and the words around them. -/
theorem splitOn_foundLine (noun verb answer : Int) :
    (foundLine noun verb answer).toList.splitOn ' ' =
      ["noun".toList, Text.Decimal.ofInt noun, "verb".toList, Text.Decimal.ofInt verb, "(answer".toList,
        Text.Decimal.ofInt answer ++ [')']] := by
  have hnumber (k : Int) : ' ' ∉ Text.Decimal.ofInt k := by
    intro hc
    rcases Text.Decimal.isDigit_or_minus_of_mem hc with h | h <;> cases h
  have hwords : (foundLine noun verb answer).toList = [' '].intercalate
      ["noun".toList, Text.Decimal.ofInt noun, "verb".toList, Text.Decimal.ofInt verb, "(answer".toList,
        Text.Decimal.ofInt answer ++ [')']] := by
    simp [foundLine, Text.Decimal.text, List.intercalate_cons_cons]
  rw [hwords]
  apply List.splitOn_intercalate
  · simp [hnumber]
  · simp

theorem foundLine_inj {noun verb answer noun' verb' answer' : Int}
    (h : foundLine noun verb answer = foundLine noun' verb' answer') :
    noun = noun' ∧ verb = verb' ∧ answer = answer' := by
  have hwords := congrArg (fun line : String => line.toList.splitOn ' ') h
  simp only [splitOn_foundLine, List.cons.injEq, List.append_cancel_right_eq, true_and, and_true] at hwords
  obtain ⟨hnoun, hverb, hanswer⟩ := hwords
  exact ⟨Text.Decimal.ofInt_injective hnoun, Text.Decimal.ofInt_injective hverb,
    Text.Decimal.ofInt_injective hanswer⟩

end Command

namespace Report

open Command

variable {arguments results : List String} {c : Command} {memory : Memory} {setting : Option String}
  {files : FileSystem}

/-- The arguments ask for a command, the file that it needs holds the text of a memory, and the command has
results for that memory. -/
structure Succeeds (arguments : List String) (files : FileSystem) (c : Command) (memory : Memory)
    (results : List String) : Prop where
  asks : Asks arguments c
  text : ∃ t : String, files c.path = .ok t.toUTF8 ∧ Memory.parse t = .ok memory
  results : c.results memory = .ok results

theorem Succeeds.report (h : Succeeds arguments files c memory results) (setting : Option String) :
    ofArguments arguments files setting = ⟨c.logLines (.ofSetting setting) memory ++ results, .success⟩ := by
  obtain ⟨hasks, ⟨t, hfile, hparse⟩, hresults⟩ := h
  simp only [ofArguments, ofArguments_eq_ok_iff.mpr hasks, hfile, Command.report,
    fromUTF8?_eq_some_iff.mpr rfl, hparse, hresults]

/-- The text is the one that the bytes of the file are those of. -/
theorem Succeeds.parse {t : String} (h : Succeeds arguments files c memory results)
    (hfile : files c.path = .ok t.toUTF8) : Memory.parse t = .ok memory := by
  obtain ⟨t', hfile', hparse⟩ := h.text
  have hbytes : t.toUTF8 = t'.toUTF8 := Except.ok.inj (hfile.symm.trans hfile')
  have ht : some t = some t' :=
    (fromUTF8?_eq_some_iff.mpr rfl).symm.trans (fromUTF8?_eq_some_iff.mpr hbytes)
  rw [Option.some_inj.mp ht]
  exact hparse

theorem exists_results_of_report {threshold : Threshold} {file : Except ReadError ByteArray}
    (h : (c.report threshold file).ending.exitCode = 0) :
    ∃ t memory results, file = .ok (String.toUTF8 t) ∧ Memory.parse t = .ok memory ∧
      c.results memory = .ok results := by
  unfold Command.report at h
  split at h
  · cases h
  · rename_i bytes
    split at h
    · cases h
    · rename_i t ht
      split at h
      · cases h
      · rename_i memory hparse
        cases hresults : c.results memory with
        | error message =>
            rw [hresults] at h
            cases h
        | ok results => exact ⟨t, memory, results, by rw [fromUTF8?_eq_some_iff.mp ht], hparse, hresults⟩

theorem exitCode_eq_zero_iff :
    (ofArguments arguments files setting).ending.exitCode = 0 ↔
      ∃ c memory results, Succeeds arguments files c memory results := by
  constructor
  · intro h
    unfold ofArguments at h
    split at h
    · cases h
    · cases h
    · rename_i c hasks
      obtain ⟨t, memory, results, hfile, hparse, hresults⟩ := exists_results_of_report h
      exact ⟨c, memory, results, ofArguments_eq_ok_iff.mp hasks, ⟨t, hfile, hparse⟩, hresults⟩
  · rintro ⟨c, memory, results, h⟩
    rw [h.report]
    rfl

/-- Without a setting, what the command has as results is all that is printed. -/
theorem Succeeds.lines (h : Succeeds arguments files c memory results) :
    (ofArguments arguments files none).lines = results := by
  rw [h.report]
  rfl

end Report

end Intcode
