import Intcode.Memory.Basic
import Intcode.Text.Blank
import Intcode.Text.Quoted

/-!
Memories as text. The written form has the cells in decimal with commas between them; what is read
may have blanks around each field. The first field that is no word is what reading reports.
-/

namespace Intcode

/-- A field of a program text that is no word: its position, from zero, and its text without the blanks
around it. -/
structure ParseError where
  index : Nat
  token : String
deriving DecidableEq

/-- What a user is told of a field that is no word. -/
def ParseError.message (e : ParseError) : String :=
  "Invalid integer " ++ Text.quoted e.token ++ " at index " ++ Text.Decimal.text e.index

namespace Memory

/-- The fields of a text: its pieces between commas, each without the blanks around it. -/
def fields (text : String) : List (List Char) := (text.toList.splitOn ',').map Text.trim

/-- Reads the fields in order after the words of those before them. -/
def readFields (words : Array Word) : List (List Char) → Except ParseError (Array Word)
  | [] => .ok words
  | field :: rest =>
    match Word.ofText? field with
    | some w => readFields (words.push w) rest
    | none => .error ⟨words.size, String.ofList field⟩

/-- The memory that a text describes, one cell for each field. -/
def parse (text : String) : Except ParseError Memory :=
  match readFields #[] (fields text) with
  | .ok words => .ok ⟨words⟩
  | .error e => .error e

/-- The written form of a memory; that of a memory without cells is empty. -/
def text (m : Memory) : String :=
  String.ofList ([','].intercalate (m.cells.toList.map Word.chars))

end Memory

end Intcode
