import Intcode.Proofs.CommandLine
import Intcode.Proofs.Registers
import Intcode.Proofs.Search

/-! A pair that a search finds, put into the program and run. The search runs the program in a memory and
without an input; a user writes the edited program into a file and runs that, with an input or without one.
The file is read back as the edited memory, and a run that halts without an input halts on every input in the
same memory, so the target stands first in what is printed. -/

namespace Intcode

namespace Memory

variable {m : Memory} {w : Word}

/-- A memory is written with its first cell in front. -/
theorem head?_splitOn_text (h : m.cell? 0 = some w) : (m.text.toList.splitOn ',').head? = some w.chars := by
  have hfirst : m.cells.toList.head? = some w := by
    rw [List.head?_eq_getElem?, Array.getElem?_toList]
    exact h
  have hsize : 0 < m.size := by
    have hbound := cell?_eq_some_bound h
    omega
  rw [splitOn_text (cells_ne_nil_of_size hsize), List.head?_map, hfirst, Option.map_some]

end Memory

namespace Pair

variable {p : Pair} {base edited : Memory} {w : Word}

/-- The words of a pair that is tried are small, so its number does not wrap. -/
theorem toInt_answer (h : p.Within Search.defaultRange) :
    (1 ≤ p.noun.toInt ∧ p.noun.toInt ≤ 99) ∧ (1 ≤ p.verb.toInt ∧ p.verb.toInt ≤ 99) ∧
      p.answer.toInt = 100 * p.noun.toInt + p.verb.toInt := by
  have hcontains {v : Word} (hv : Search.defaultRange.Contains v) : 1 ≤ v.toInt ∧ v.toInt ≤ 99 := by
    rw [Interval.Contains, Int64.le_iff_toInt_le, Int64.le_iff_toInt_le] at hv
    exact hv
  have hnoun := hcontains h.1
  have hverb := hcontains h.2
  refine ⟨hnoun, hverb, ?_⟩
  have hhundred : (100 : Word).toInt = 100 := rfl
  have hproduct : (100 * p.noun).toInt = 100 * p.noun.toInt := by
    rw [Int64.toInt_mul, hhundred]
    exact Int.bmod_eq_of_le (by omega) (by omega)
  rw [answer, Int64.toInt_add, hproduct]
  exact Int.bmod_eq_of_le (by omega) (by omega)

/-- The value of a pair is left in the first cell whatever the program's input is. -/
theorem runs_of_evaluate (hplace : p.place base = .ok edited) (h : p.evaluate base = .ok w)
    (input : Option Word) :
    ∃ last : Machine, ({ Machine.load edited with input } : Machine).Runs (.ok ()) last ∧
      last.memory.cell? 0 = some w := by
  obtain ⟨last, hruns, hread⟩ := (evaluate_eq_ok_iff hplace).mp h
  exact ⟨_, hruns.with_input rfl input, Memory.read_eq_ok_iff.mp hread⟩

end Pair

namespace Report

open Command

variable {files : FileSystem} {arguments : List String} {path target t : String} {noun verb answer : Int}

/-- Running the program in a file that holds the written form of a memory is running it in that memory. -/
theorem run_of_text {m : Memory} {last : Machine} {input : Option Word} (hm : 0 < m.size)
    (hfile : files path = .ok m.text.toUTF8) (hasks : Asks arguments (.run path input))
    (hruns : ({ Machine.load m with input } : Machine).Runs (.ok ()) last) :
    (ofArguments arguments files none).ending.exitCode = 0 ∧
      (ofArguments arguments files none).lines.getLast? = some last.memory.text := by
  have hsucceeds : Succeeds arguments files (.run path input) m
      (last.output.toList.map (fun w => "output: " ++ w.text) ++ [last.memory.text]) :=
    ⟨hasks, ⟨m.text, hfile, Memory.parse_text (Memory.cells_ne_nil_of_size hm)⟩,
      results_run_eq_ok_iff.mpr ⟨last, hruns, rfl⟩⟩
  refine ⟨exitCode_eq_zero_iff.mpr ⟨_, _, _, hsucceeds⟩, ?_⟩
  rw [hsucceeds.lines, List.getLast?_concat]

/-- A search that tells of numbers has found the pair of them. -/
theorem solve_of_search (hfile : files path = .ok t.toUTF8)
    (hexit : (ofArguments ["search", path, target] files none).ending.exitCode = 0)
    (hprinted : foundLine noun verb answer ∈ (ofArguments ["search", path, target] files none).lines) :
    ∃ w memory p, Word.ofText? target.toList = some w ∧ Memory.parse t = .ok memory ∧
      ({ base := memory, target := w : Search }).solve = .ok p ∧
      noun = p.noun.toInt ∧ verb = p.verb.toInt ∧ answer = p.answer.toInt := by
  obtain ⟨c, memory, results, hsucceeds⟩ := exitCode_eq_zero_iff.mp hexit
  rw [hsucceeds.lines] at hprinted
  obtain ⟨w, hw, rfl⟩ := asks_search_iff.mp hsucceeds.asks
  obtain ⟨p, hsolve, rfl⟩ := results_search_eq_ok_iff.mp hsucceeds.results
  exact ⟨w, memory, p, hw, hsucceeds.parse hfile, hsolve, foundLine_inj (List.mem_singleton.mp hprinted)⟩

/-- **A pair that is found is confirmed by running the program.** Let a search in the file that holds a text end
with success and print a noun, a verb and an answer. Both words are from 1 to 99 and the answer is the number
of the pair. The text is that of a memory, and if a file holds the written form of that memory with the noun in
its second cell and the verb in its third, then running this file, without an input or with any integer, ends
with success; the last line that is printed is the text of a memory, and the target is its first token. -/
theorem search_confirmed_by_run (hfile : files path = .ok t.toUTF8)
    (hexit : (ofArguments ["search", path, target] files none).ending.exitCode = 0)
    (hprinted : foundLine noun verb answer ∈ (ofArguments ["search", path, target] files none).lines) :
    (1 ≤ noun ∧ noun ≤ 99) ∧ (1 ≤ verb ∧ verb ≤ 99) ∧ answer = 100 * noun + verb ∧
      ∃ w memory, Word.ofText? target.toList = some w ∧ Memory.parse t = .ok memory ∧ 3 ≤ memory.size ∧
        let edited := (memory.set 1 (.ofInt noun)).set 2 (.ofInt verb)
        ∀ (files' : FileSystem) (path' : String) (arguments : List String) (input : Option Word),
          files' path' = .ok edited.text.toUTF8 → Asks arguments (.run path' input) →
          ∃ last : Machine, ({ Machine.load edited with input } : Machine).Runs (.ok ()) last ∧
            (ofArguments arguments files' none).ending.exitCode = 0 ∧
            (ofArguments arguments files' none).lines.getLast? = some last.memory.text ∧
            Memory.parse last.memory.text = .ok last.memory ∧
            (last.memory.text.toList.splitOn ',').head? = some w.chars := by
  obtain ⟨w, memory, p, hw, hparse, hsolve, rfl, rfl, rfl⟩ := solve_of_search hfile hexit hprinted
  obtain ⟨hlong, hwithin, hvalue, -⟩ := Search.solve_eq_ok_iff.mp hsolve
  obtain ⟨hnoun, hverb, hanswer⟩ := Pair.toInt_answer hwithin
  refine ⟨hnoun, hverb, hanswer, w, memory, hw, hparse, hlong, ?_⟩
  rw [Int64.ofInt_toInt, Int64.ofInt_toInt]
  intro edited files' path' arguments input hfile' hasks
  have hplace : p.place memory = .ok edited := Pair.place_eq_ok_iff.mpr ⟨hlong, rfl⟩
  have hedited : 0 < edited.size := by
    rw [Pair.size_of_place hplace]
    exact Nat.lt_of_lt_of_le (Nat.succ_pos 2) hlong
  obtain ⟨last, hruns, hfirst⟩ := Pair.runs_of_evaluate hplace hvalue input
  have hcells : 0 < last.memory.size := by
    rw [hruns.size]
    exact hedited
  obtain ⟨hexit', hlast⟩ := run_of_text hedited hfile' hasks hruns
  exact ⟨last, hruns, hexit', hlast, Memory.parse_text (Memory.cells_ne_nil_of_size hcells),
    Memory.head?_splitOn_text hfirst⟩

/-- The program adds what is in the cells that the pair names, here those of the pair itself. -/
theorem search_confirmed_by_run_one_two :
    let files : FileSystem := fun _ => .ok "1,0,0,0,99".toUTF8
    let files' : FileSystem := fun _ => .ok "1,1,2,0,99".toUTF8
    let report := ofArguments ["search", "sum", "3"] files none
    report.ending.exitCode = 0 ∧ foundLine 1 2 102 ∈ report.lines ∧
      ∀ arguments input, Asks arguments (.run "sum" input) →
        (ofArguments arguments files' none).ending.exitCode = 0 ∧
        ∃ text : String, (ofArguments arguments files' none).lines.getLast? = some text ∧
          (text.toList.splitOn ',').head? = some ['3'] := by
  intro files files' report
  have hreport : report = ⟨[foundLine 1 2 102], .success⟩ := by decide +kernel
  have hexit : report.ending.exitCode = 0 := by
    rw [hreport]
    rfl
  have hprinted : foundLine 1 2 102 ∈ report.lines := by
    rw [hreport]
    exact List.mem_singleton_self _
  obtain ⟨-, -, -, w, memory, hw, hparse, -, hrun⟩ := search_confirmed_by_run rfl hexit hprinted
  have hw' : Word.ofText? "3".toList = some 3 := by decide
  have hparse' : Memory.parse "1,0,0,0,99" = .ok ⟨#[1, 0, 0, 0, 99]⟩ := by decide
  cases hw.symm.trans hw'
  cases hparse.symm.trans hparse'
  refine ⟨hexit, hprinted, fun arguments input hasks => ?_⟩
  obtain ⟨last, -, hexit', hlast, -, hfirst⟩ := hrun files' "sum" arguments input (by decide) hasks
  exact ⟨hexit', _, hlast, hfirst⟩

end Report

end Intcode
