import Intcode.Proofs.CommandLine
import Intcode.Proofs.Counter
import Intcode.Proofs.JoinedText

/-! What a machine leaves, written down and read again. A text has a cell for each piece between its commas,
so there is one at least, and no call changes their number. A memory with cells is read from its written form,
whatever words a run has put into them, and the end of a line behind it is a blank. So the last line that is
printed of a run that ends well is itself a program text, that of the memory in which the machine halted. -/

namespace Intcode

namespace Memory

variable {t : String} {m : Memory}

theorem parse_append_newline (t : String) : parse (t ++ "\n") = parse t := parse_append_blanks (by decide) t

/-- A memory that is read has one cell more than its text has commas. -/
theorem size_of_parse (h : parse t = .ok m) : m.size = t.toList.count ',' + 1 := by
  rw [(parse_eq_ok_iff_cells.mp h).1, length_fields, pieces, Text.length_splitOn_comma]

/-- A memory that has cells is read from its written form, whether or not the line is ended. -/
theorem parse_text_of_size (h : 0 < m.size) : parse m.text = .ok m ∧ parse (m.text ++ "\n") = .ok m := by
  have hread := parse_text (cells_ne_nil_of_size h)
  exact ⟨hread, (parse_append_newline m.text).trans hread⟩

end Memory

theorem Machine.Runs.status {m last : Machine} (h : m.Runs (.ok ()) last) : last.status = .halted := by
  obtain ⟨hresult, hmachine⟩ := h.reply
  rw [← hmachine]
  exact (reply_status (.inl rfl)).1 hresult

namespace Report

open Command

variable {arguments : List String} {path t : String} {input : Option Word} {memory : Memory}
  {files : FileSystem} {setting : Option String}

/-- A run from a file that ends well has printed the memory in which the machine halted as its last line. -/
theorem exists_run_of_exitCode (hasks : Asks arguments (.run path input)) (hfile : files path = .ok t.toUTF8)
    (hparse : Memory.parse t = .ok memory) (hexit : (ofArguments arguments files setting).ending.exitCode = 0) :
    ∃ last : Machine, ({ Machine.load memory with input } : Machine).Runs (.ok ()) last ∧
      (ofArguments arguments files setting).lines.getLast? = some last.memory.text := by
  obtain ⟨c, memory', results, hsucceeds⟩ := exitCode_eq_zero_iff.mp hexit
  have hreport := hsucceeds.report setting
  cases (ofArguments_eq_ok_iff.mpr hasks).symm.trans (ofArguments_eq_ok_iff.mpr hsucceeds.asks)
  cases hparse.symm.trans (hsucceeds.parse hfile)
  obtain ⟨last, hruns, rfl⟩ := results_run_eq_ok_iff.mp hsucceeds.results
  refine ⟨last, hruns, ?_⟩
  rw [hreport, ← List.append_assoc, List.getLast?_concat]

/-- **What a machine leaves can be saved and read again.** Let a text be that of a memory. Whatever is asked of
the machine that starts with it, and whatever the calls come to, the memory has one cell more than the text has
commas, and it is read again from its written form, with and without the end of a line behind it. So when the
program in a file that holds the text is run and ends well, with an input or without and with any log, the last
line that is printed is the text of the memory in which the machine has halted. -/
theorem memory_survives_saving (t : String) (memory : Memory) (h : Memory.parse t = .ok memory) :
    (∀ calls, let m := (Machine.load memory).session calls
      m.memory.size = t.toList.count ',' + 1 ∧ Memory.parse m.memory.text = .ok m.memory ∧
        Memory.parse (m.memory.text ++ "\n") = .ok m.memory) ∧
    ∀ (arguments : List String) (path : String) (input : Option Word) (files : FileSystem)
      (setting : Option String), let report := ofArguments arguments files setting
      Asks arguments (.run path input) → files path = .ok t.toUTF8 → report.ending.exitCode = 0 →
        ∃ (last : Machine) (line : String),
          ({ Machine.load memory with input } : Machine).Runs (.ok ()) last ∧ last.status = .halted ∧
          report.lines.getLast? = some line ∧ Memory.parse line = .ok last.memory ∧
          Memory.parse (line ++ "\n") = .ok last.memory := by
  have hsize : memory.size = t.toList.count ',' + 1 := Memory.size_of_parse h
  have hcells : 0 < memory.size := by omega
  refine ⟨fun calls => ?_, fun arguments path input files setting => ?_⟩
  · have hsame : ((Machine.load memory).session calls).memory.size = memory.size :=
      Machine.session_size _ calls
    exact ⟨hsame.trans hsize, Memory.parse_text_of_size (hsame ▸ hcells)⟩
  · intro report hasks hfile hexit
    obtain ⟨last, hruns, hline⟩ := exists_run_of_exitCode hasks hfile h hexit
    have hsame : last.memory.size = memory.size := hruns.size
    exact ⟨last, _, hruns, hruns.status, hline, Memory.parse_text_of_size (hsame ▸ hcells)⟩

/-- The sum is beyond the greatest word, and the program puts what it wraps to over its own first cell. -/
theorem memory_survives_saving_overflow :
    let t := "1101, +9223372036854775807,1,0, 99\n"
    let start := Machine.load ⟨#[1101, 9223372036854775807, 1, 0, 99]⟩
    let files : FileSystem := fun _ => .ok t.toUTF8
    let report := ofArguments ["run", "sum"] files none
    (start.session [.runWithin 1, .setInput 7, .run]).memory.size = 5 ∧ report.ending.exitCode = 0 ∧
      ∃ (last : Machine) (line : String), start.Runs (.ok ()) last ∧
        report.lines.getLast? = some line ∧ Memory.parse (line ++ "\n") = .ok last.memory ∧
        report.lines = ["-9223372036854775808,9223372036854775807,1,0,99"] := by
  intro t start files report
  have hparse : Memory.parse t = .ok ⟨#[1101, 9223372036854775807, 1, 0, 99]⟩ := by decide
  have hreport : report = ⟨["-9223372036854775808,9223372036854775807,1,0,99"], .success⟩ := by decide +kernel
  have hexit : report.ending.exitCode = 0 := by
    rw [hreport]
    rfl
  obtain ⟨hsession, hrun⟩ := memory_survives_saving t _ hparse
  obtain ⟨last, line, hruns, -, hline, -, hread⟩ := hrun ["run", "sum"] "sum" none files none (.run "sum") rfl hexit
  have hcommas : t.toList.count ',' + 1 = 5 := by decide
  refine ⟨(hsession _).1.trans hcommas, hexit, last, line, hruns, hline, hread, ?_⟩
  rw [hreport]

end Report

end Intcode
