import Intcode.Proofs.CommandLine
import Intcode.Proofs.Grammar

/-! What the program answers to every command line. Six things can be amiss, and the first of them is what a
user is told: the arguments ask for nothing, the integer among them is none, the file cannot be read, its bytes
are no text, the text is no memory, or the run or the search comes to nothing. The answers are written down
once, as a relation that has a rule for each of these and for the two ways to succeed, and the program gives
the answer of the one rule that applies. -/

namespace Intcode

namespace Command

variable {arguments : List String} {argument path : String} {c : Command} {memory : Memory}

theorem integer_eq_error_iff {e : ArgumentError} :
    integer argument = .error e ↔ Word.ofText? argument.toList = none ∧ e = .notInteger argument := by
  unfold integer
  cases Word.ofText? argument.toList <;> simp [eq_comm]

theorem map_integer_eq_error_iff {e : ArgumentError} {f : Word → Command} :
    (integer argument).map f = .error e ↔
      Word.ofText? argument.toList = none ∧ e = .notInteger argument := by
  rw [← integer_eq_error_iff]
  cases integer argument <;> simp [Except.map]

/-- The arguments are a row of one of the three forms. -/
inductive Formed : List String → Prop where
  | run (path : String) : Formed ["run", path]
  | runOn (path input : String) : Formed ["run", path, input]
  | search (path target : String) : Formed ["search", path, target]

theorem ofArguments_eq_usage_iff : ofArguments arguments = .error .usage ↔ ¬Formed arguments := by
  constructor
  · intro h hformed
    cases hformed with
    | run path => cases h
    | runOn path input => cases (map_integer_eq_error_iff.mp h).2
    | search path target => cases (map_integer_eq_error_iff.mp h).2
  · intro h
    unfold ofArguments
    split
    · exact absurd (.run _) h
    · exact absurd (.runOn _ _) h
    · exact absurd (.search _ _) h
    · rfl

theorem ofArguments_eq_notInteger_iff :
    ofArguments arguments = .error (.notInteger argument) ↔
      ∃ verb path, (verb = "run" ∨ verb = "search") ∧ arguments = [verb, path, argument] ∧
        ¬∃ k, Text.Decimal.Token argument.toList k := by
  rw [← Word.ofText?_eq_none_iff]
  constructor
  · intro h
    unfold ofArguments at h
    split at h
    · cases h
    · obtain ⟨hnone, heq⟩ := map_integer_eq_error_iff.mp h
      cases heq
      exact ⟨"run", _, .inl rfl, rfl, hnone⟩
    · obtain ⟨hnone, heq⟩ := map_integer_eq_error_iff.mp h
      cases heq
      exact ⟨"search", _, .inr rfl, rfl, hnone⟩
    · cases h
  · rintro ⟨verb, path, rfl | rfl, rfl, hnone⟩
    · exact map_integer_eq_error_iff.mpr ⟨hnone, rfl⟩
    · exact map_integer_eq_error_iff.mpr ⟨hnone, rfl⟩

theorem results_run_of_fault {input : Option Word} {last : Machine} {f : Fault}
    (h : ({ Machine.load memory with input } : Machine).Runs (.error (.fault f)) last) :
    (run path input).results memory = .error f.message := by
  have hresult := h.reply.1
  simp only [Machine.reply] at hresult
  rw [results]
  dsimp only
  rw [hresult]
  rfl

theorem results_search_of_error {target : Word} {e : SearchError}
    (h : ({ base := memory, target } : Search).solve = .error e) :
    (search path target).results memory = .error e.message := by
  simp only [results, h]

end Command

namespace Report

open Command

variable {arguments lines messages : List String} {argument path t : String} {c : Command} {memory : Memory}
  {files : FileSystem} {code : Nat}

/-- The bytes behind a path are those of a text, and the text is that of a memory. -/
def Holds (files : FileSystem) (path : String) (memory : Memory) : Prop :=
  ∃ t : String, files path = .ok t.toUTF8 ∧ Memory.parse t = .ok memory

/-- What is answered to a row of arguments when there is no setting: the number that the program returns to the
system, the lines that it prints, and the messages of an error or of wrong usage. -/
inductive Answers (arguments : List String) (files : FileSystem) : Nat → List String → List String → Prop where
  | usage : ¬Formed arguments → Answers arguments files 2 []
      ["usage: intcode run <program> [input] | intcode search <program> <target>"]
  | notInteger {verb path argument : String} : verb = "run" ∨ verb = "search" →
      arguments = [verb, path, argument] → (¬∃ k, Text.Decimal.Token argument.toList k) →
      Answers arguments files 1 [] ["expected an integer, got " ++ Text.quoted argument]
  | unreadable {c : Command} {e : ReadError} : Asks arguments c → files c.path = .error e →
      Answers arguments files 1 [] ["reading " ++ c.path, e.message]
  | notText {c : Command} {bytes : ByteArray} : Asks arguments c → files c.path = .ok bytes →
      (∀ t : String, bytes ≠ t.toUTF8) →
      Answers arguments files 1 [] ["reading " ++ c.path, "stream did not contain valid UTF-8"]
  | notProgram {c : Command} {t : String} {e : ParseError} : Asks arguments c →
      files c.path = .ok t.toUTF8 → Memory.parse t = .error e → Answers arguments files 1 [] [e.message]
  | fault {path : String} {input : Option Word} {memory : Memory} {f : Fault} {last : Machine} :
      Asks arguments (.run path input) → Holds files path memory →
      ({ Machine.load memory with input } : Machine).Runs (.error (.fault f)) last →
      Answers arguments files 1 [] [f.message]
  | halt {path : String} {input : Option Word} {memory : Memory} {last : Machine} :
      Asks arguments (.run path input) → Holds files path memory →
      ({ Machine.load memory with input } : Machine).Runs (.ok ()) last →
      Answers arguments files 0
        (last.output.toList.map (fun w => "output: " ++ w.text) ++ [last.memory.text]) []
  | notFound {path : String} {target : Word} {memory : Memory} {e : SearchError} :
      Asks arguments (.search path target) → Holds files path memory →
      Search.solve ⟨memory, target, ⟨1, 99⟩⟩ = .error e → Answers arguments files 1 [] [e.message]
  | found {path : String} {target : Word} {memory : Memory} {p : Pair} :
      Asks arguments (.search path target) → Holds files path memory →
      Search.solve ⟨memory, target, ⟨1, 99⟩⟩ = .ok p →
      Answers arguments files 0 [foundLine p.noun.toInt p.verb.toInt p.answer.toInt] []

/-- If the arguments ask to run the program in a file that holds a memory, the run has an end. -/
def Terminates (arguments : List String) (files : FileSystem) : Prop :=
  ∀ path input memory, Asks arguments (.run path input) → Holds files path memory →
    ∃ r last, ({ Machine.load memory with input } : Machine).Runs r last

/-! ### One report for each rule -/

theorem report_of_usage (h : ¬Formed arguments) : ofArguments arguments files none = ⟨[], .usage⟩ := by
  simp only [ofArguments, ofArguments_eq_usage_iff.mpr h]

theorem report_of_no_integer {verb : String} (hverb : verb = "run" ∨ verb = "search")
    (harguments : arguments = [verb, path, argument]) (hnot : ¬∃ k, Text.Decimal.Token argument.toList k) :
    ofArguments arguments files none =
      ⟨[], .failure ["expected an integer, got " ++ Text.quoted argument]⟩ := by
  simp only [ofArguments, ofArguments_eq_notInteger_iff.mpr ⟨verb, path, hverb, harguments, hnot⟩]

section Asked

variable (hasks : Asks arguments c)

include hasks

theorem report_of_asks : ofArguments arguments files none = c.report (.ofSetting none) (files c.path) := by
  unfold ofArguments
  rw [ofArguments_eq_ok_iff.mpr hasks]

theorem report_of_read_error {e : ReadError} (hfile : files c.path = .error e) :
    ofArguments arguments files none = ⟨[], .failure ["reading " ++ c.path, e.message]⟩ := by
  rw [report_of_asks hasks, hfile]
  rfl

theorem report_of_no_text {bytes : ByteArray} (hfile : files c.path = .ok bytes)
    (hbytes : ∀ t : String, bytes ≠ t.toUTF8) :
    ofArguments arguments files none =
      ⟨[], .failure ["reading " ++ c.path, "stream did not contain valid UTF-8"]⟩ := by
  have hnone : String.fromUTF8? bytes = none := by
    rw [Option.eq_none_iff_forall_ne_some]
    exact fun t ht => hbytes t (fromUTF8?_eq_some_iff.mp ht)
  rw [report_of_asks hasks, hfile]
  simp only [Command.report, hnone]

theorem report_of_parse_error {e : ParseError} (hfile : files c.path = .ok t.toUTF8)
    (hparse : Memory.parse t = .error e) : ofArguments arguments files none = ⟨[], .failure [e.message]⟩ := by
  rw [report_of_asks hasks, hfile]
  simp only [Command.report, fromUTF8?_eq_some_iff.mpr rfl, hparse]

theorem report_of_error {message : String} (hfile : Holds files c.path memory)
    (hresults : c.results memory = .error message) :
    ofArguments arguments files none = ⟨[], .failure [message]⟩ := by
  obtain ⟨t, hfile, hparse⟩ := hfile
  rw [report_of_asks hasks, hfile]
  simp only [Command.report, fromUTF8?_eq_some_iff.mpr rfl, hparse, hresults]
  rfl

theorem report_of_results (hfile : Holds files c.path memory) (hresults : c.results memory = .ok lines) :
    ofArguments arguments files none = ⟨lines, .success⟩ :=
  (Succeeds.mk hasks hfile hresults).report none

end Asked

/-- The program gives no other answer than that of a rule. -/
theorem Answers.given (h : Answers arguments files code lines messages) :
    let report := ofArguments arguments files none
    report.ending.exitCode = code ∧ report.lines = lines ∧ report.ending.messages = messages := by
  have hreport (ending : Ending) (h : ofArguments arguments files none = ⟨lines, ending⟩)
      (hcode : ending.exitCode = code) (hmessages : ending.messages = messages) :
      let report := ofArguments arguments files none
      report.ending.exitCode = code ∧ report.lines = lines ∧ report.ending.messages = messages := by
    intro report
    rw [show report = ⟨lines, ending⟩ from h]
    exact ⟨hcode, rfl, hmessages⟩
  cases h with
  | usage hform => exact hreport _ (report_of_usage hform) rfl rfl
  | notInteger hverb harguments hnot =>
      exact hreport _ (report_of_no_integer hverb harguments hnot) rfl rfl
  | unreadable hasks hfile => exact hreport _ (report_of_read_error hasks hfile) rfl rfl
  | notText hasks hfile hbytes => exact hreport _ (report_of_no_text hasks hfile hbytes) rfl rfl
  | notProgram hasks hfile hparse => exact hreport _ (report_of_parse_error hasks hfile hparse) rfl rfl
  | fault hasks hfile hruns =>
      exact hreport _ (report_of_error hasks hfile (results_run_of_fault hruns)) rfl rfl
  | halt hasks hfile hruns =>
      exact hreport _ (report_of_results hasks hfile (results_run_eq_ok_iff.mpr ⟨_, hruns, rfl⟩)) rfl rfl
  | notFound hasks hfile hsolve =>
      exact hreport _ (report_of_error hasks hfile (results_search_of_error hsolve)) rfl rfl
  | found hasks hfile hsolve =>
      exact hreport _ (report_of_results hasks hfile (results_search_eq_ok_iff.mpr ⟨_, hsolve, rfl⟩)) rfl rfl

/-! ### A rule for each command line -/

theorem exists_answer_of_command (hasks : Asks arguments c) (hfile : Holds files c.path memory)
    (hends : Terminates arguments files) : ∃ code lines messages, Answers arguments files code lines messages := by
  cases c with
  | run path input =>
      obtain ⟨r, last, hruns⟩ := hends path input memory hasks hfile
      rcases hruns.ok_or_fault with rfl | ⟨f, rfl⟩
      · exact ⟨_, _, _, .halt hasks hfile hruns⟩
      · exact ⟨_, _, _, .fault hasks hfile hruns⟩
  | search path target =>
      cases hsolve : Search.solve ⟨memory, target, ⟨1, 99⟩⟩ with
      | ok p => exact ⟨_, _, _, .found hasks hfile hsolve⟩
      | error e => exact ⟨_, _, _, .notFound hasks hfile hsolve⟩

theorem exists_answer_of_asks (hasks : Asks arguments c) (hends : Terminates arguments files) :
    ∃ code lines messages, Answers arguments files code lines messages := by
  cases hfile : files c.path with
  | error e => exact ⟨_, _, _, .unreadable hasks hfile⟩
  | ok bytes =>
      by_cases htext : ∃ t : String, bytes = t.toUTF8
      · obtain ⟨t, rfl⟩ := htext
        cases hparse : Memory.parse t with
        | error e => exact ⟨_, _, _, .notProgram hasks hfile hparse⟩
        | ok memory => exact exists_answer_of_command hasks ⟨t, hfile, hparse⟩ hends
      · exact ⟨_, _, _, .notText hasks hfile (not_exists.mp htext)⟩

theorem exists_answer (hends : Terminates arguments files) :
    ∃ code lines messages, Answers arguments files code lines messages := by
  cases hcommand : Command.ofArguments arguments with
  | ok c => exact exists_answer_of_asks (ofArguments_eq_ok_iff.mp hcommand) hends
  | error e =>
      cases e with
      | usage => exact ⟨_, _, _, .usage (ofArguments_eq_usage_iff.mp hcommand)⟩
      | notInteger argument =>
          obtain ⟨verb, path, hverb, harguments, hnot⟩ := ofArguments_eq_notInteger_iff.mp hcommand
          exact ⟨_, _, _, .notInteger hverb harguments hnot⟩

/-- **Every command line gets its answer.** Without a setting the program gives the answer of every rule that
applies, so there is one such answer at most; and unless it is asked for a run that has no end, some rule
applies, and the answer is what the program returns, prints and tells the user. -/
theorem answers_every_command_line (arguments : List String) (files : FileSystem) :
    let report := ofArguments arguments files none
    (∀ code lines messages, Answers arguments files code lines messages →
      report.ending.exitCode = code ∧ report.lines = lines ∧ report.ending.messages = messages) ∧
    (Terminates arguments files →
      Answers arguments files report.ending.exitCode report.lines report.ending.messages) := by
  intro report
  refine ⟨fun code lines messages h => h.given, fun hends => ?_⟩
  obtain ⟨code, lines, messages, h⟩ := exists_answer hends
  obtain ⟨hcode, hlines, hmessages⟩ := h.given
  rwa [← hcode, ← hlines, ← hmessages] at h

/-- The arguments are read before the file is. -/
example : ofArguments ["run", "nowhere", " 1"] (fun _ => .error .missing) none =
    ⟨[], .failure ["expected an integer, got \" 1\""]⟩ := by decide +kernel

end Report

end Intcode
