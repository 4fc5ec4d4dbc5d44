/-!
What the command line sees of a file system: for a path, the bytes of a file or the reason for which
they cannot be read. A directory of plain files answers for the paths that start in it.
-/

namespace Intcode

/-- Why the bytes of a file cannot be read. -/
inductive ReadError where
  /-- There is no such file. -/
  | missing
  /-- The path goes on after a file. -/
  | notDirectory
  /-- The path is that of a directory. -/
  | isDirectory
  /-- The path, or a name in it, is longer than the system admits. -/
  | nameTooLong
  /-- The system gives another reason. -/
  | other (reason : String)
deriving DecidableEq

/-- What a user is told of a file that cannot be read. -/
def ReadError.message : ReadError → String
  | missing => "No such file or directory (os error 2)"
  | notDirectory => "Not a directory (os error 20)"
  | isDirectory => "Is a directory (os error 21)"
  | nameTooLong => "File name too long (os error 36)"
  | other reason => reason

/-- The bytes behind each path. -/
abbrev FileSystem := String → Except ReadError ByteArray

/-- A directory that holds plain files, by their names. -/
structure Directory where
  files : List (String × ByteArray)

namespace Directory

/-- Where the part of a path that has been followed leads. -/
inductive Place where
  /-- The directory. -/
  | here
  /-- A directory that is not known further. -/
  | elsewhere
  /-- A file with these bytes. -/
  | file (bytes : ByteArray)

/-- The greatest number of bytes of a name. -/
def nameLimit : Nat := 255

/-- The greatest number of bytes of a path. -/
def pathLimit : Nat := 4095

/-- The reason for which a name that no file has cannot be followed. -/
def absence (name : String) : ReadError :=
  if nameLimit < name.utf8ByteSize then .nameTooLong else .missing

/-- The place that a path component leads to. -/
def follow (d : Directory) (component : String) : Place → Except ReadError Place
  | .file _ => .error .notDirectory
  | .here =>
    if component = "" ∨ component = "." then .ok .here
    else if component = ".." then .ok .elsewhere
    else
      match d.files.lookup component with
      | some bytes => .ok (.file bytes)
      | none => .error (absence component)
  | .elsewhere =>
    if component = "" ∨ component = "." ∨ component = ".." then .ok .elsewhere
    else .error (absence component)

/-- The place that a row of path components leads to. -/
def walk (d : Directory) (place : Place) : List String → Except ReadError Place
  | [] => .ok place
  | component :: rest =>
    match d.follow component place with
    | .error e => .error e
    | .ok next => d.walk next rest

/-- The bytes behind a path that starts in the directory, or at the root if a slash is its first
character. -/
def read (d : Directory) : FileSystem := fun path =>
  if path = "" then .error .missing
  else if pathLimit < path.utf8ByteSize then .error .nameTooLong
  else
    let start := if path.startsWith "/" then Place.elsewhere else Place.here
    match d.walk start ((path.toList.splitOn '/').map String.ofList) with
    | .error e => .error e
    | .ok (.file bytes) => .ok bytes
    | .ok _ => .error .isDirectory

end Directory

end Intcode
