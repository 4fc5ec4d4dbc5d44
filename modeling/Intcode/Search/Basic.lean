import Intcode.Machine.Run
import Intcode.Search.Interval

/-!
The search for a pair of words, a noun and a verb, with which a program leaves a wanted word in its
first cell. The noun is put into the second cell and the verb into the third before the program is
run. Pairs are tried in order of their nouns and, for one noun, of their verbs; a pair whose run does
not end in a halt is passed over.
-/

namespace Intcode

/-- The words that a program is given. -/
structure Pair where
  noun : Word
  verb : Word
deriving DecidableEq

namespace Pair

/-- The address of the noun. -/
def nounAddress : Word := 1

/-- The address of the verb. -/
def verbAddress : Word := 2

/-- The address of the result. -/
def resultAddress : Word := 0

/-- The number that stands for a pair. -/
def answer (p : Pair) : Word := 100 * p.noun + p.verb

/-- The program with the pair in its cells. -/
def place (p : Pair) (base : Memory) : Except Fault Memory :=
  match base.write nounAddress p.noun with
  | .error fault => .error fault
  | .ok edited => edited.write verbAddress p.verb

/-- The word that the program leaves in its first cell if it is given the pair. -/
def evaluate (p : Pair) (base : Memory) : Except RunError Word :=
  match p.place base with
  | .error fault => .error (.fault fault)
  | .ok edited =>
    let start := Machine.load edited
    let run := start.run
    match run.result start.stateCount with
    | .error e => .error e
    | .ok () =>
      match run.machine.memory.read resultAddress with
      | .error fault => .error (.fault fault)
      | .ok value => .ok value

/-- The records of the run of the program that is given the pair. -/
def log (p : Pair) (base : Memory) : List Record :=
  match p.place base with
  | .error _ => []
  | .ok edited =>
    let start := Machine.load edited
    start.log start.run.steps

end Pair

/-- The interval from which noun and verb are taken if none is given. -/
def Search.defaultRange : Interval := ⟨1, 99⟩

/-- A program, the word that it is to leave in its first cell, and the interval from which noun and verb
are taken. -/
structure Search where
  base : Memory
  target : Word
  range : Interval := Search.defaultRange
deriving DecidableEq

/-- Why a search yields no pair. -/
inductive SearchError where
  | noSolution (target : Word)
  | programTooShort
deriving DecidableEq

/-- What a user is told of a search that yields no pair. -/
def SearchError.message : SearchError → String
  | noSolution target => "No noun/verb pair produces " ++ target.text
  | programTooShort => "Program has no room for a noun and verb"

namespace Search

/-- Whether the program is too short for a noun and a verb. -/
def isTooShort (s : Search) : Bool := s.base.size ≤ 2

/-- The number of pairs. -/
def count (s : Search) : Nat := s.range.size * s.range.size

/-- The pair at a position of the order in which pairs are tried. -/
def pair (s : Search) (k : Nat) : Pair :=
  ⟨s.range.word (k / s.range.size), s.range.word (k % s.range.size)⟩

/-- Whether the pair at a position makes the program leave the target. -/
def isHit (s : Search) (k : Nat) : Bool :=
  match (s.pair k).evaluate s.base with
  | .ok value => value == s.target
  | .error _ => false

/-- The position of the first pair that makes the program leave the target. -/
def firstHit? (s : Search) : Option Nat := firstFrom s.isHit 0 s.count

/-- The first pair that makes the program leave the target. -/
def solve (s : Search) : Except SearchError Pair :=
  if s.isTooShort then .error .programTooShort
  else
    match s.firstHit? with
    | some k => .ok (s.pair k)
    | none => .error (.noSolution s.target)

/-- The records of trying the pair at a position: those of its run, and what the search makes of it. -/
def pairLog (s : Search) (k : Nat) : List Record :=
  let p := s.pair k
  p.log s.base ++
    match p.evaluate s.base with
    | .ok value => if value = s.target then [.pairFound p.noun p.verb s.target] else []
    | .error (.fault fault) => [.pairFaulted p.noun p.verb fault]
    | .error (.stepLimit _) => []

/-- The records of a search: those of every pair up to the one that it yields. -/
def log (s : Search) : List Record :=
  if s.isTooShort then []
  else
    let tried := match s.firstHit? with
      | some k => k + 1
      | none => s.count
    (List.range tried).flatMap s.pairLog

end Search

end Intcode
