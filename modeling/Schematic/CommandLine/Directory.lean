/-!
# A directory of files

The files that a run can read, in one directory, with the reasons why a path cannot be read. A
path may lead out of the directory, but out there no file can be read.
-/

namespace Schematic.CommandLine

/-- Why a path cannot be read. -/
inductive Unreadable where
  /-- There is nothing. -/
  | missing
  /-- It goes through a file. -/
  | notADirectory
  /-- It is a directory. -/
  | isADirectory
  /-- A name in it is too long, or all of it. -/
  | nameTooLong
  /-- The file is not text in UTF-8. -/
  | notText
  deriving DecidableEq, Repr

/-- What the reader is told. -/
def Unreadable.reason : Unreadable → String
  | missing => "No such file or directory (os error 2)"
  | notADirectory => "Not a directory (os error 20)"
  | isADirectory => "Is a directory (os error 21)"
  | nameTooLong => "File name too long (os error 36)"
  | notText => "stream did not contain valid UTF-8"

/-- The files of a directory. -/
structure Directory where
  /-- Their names and contents. -/
  files : List (String × ByteArray)

namespace Directory

/-- The longest name of a file, in bytes. -/
def longestName : Nat := 255

/-- The longest path, in bytes. -/
def longestPath : Nat := 4095

/-- The names that a path goes through; the empty name is where it ends in a slash. -/
def names (path : List Char) : List (List Char) :=
  match path with
  | [] => [[]]
  | '/' :: path => [] :: names path
  | c :: path =>
    match names path with
    | [] => [[c]]
    | name :: more => (c :: name) :: more

/-- What stands in a file, as text. -/
def text (contents : ByteArray) : Except Unreadable String :=
  match String.fromUTF8? contents with
  | some text => .ok text
  | none => .error .notText

/-- What is outside the directory. -/
def outside : Directory := ⟨[]⟩

/-- What stands at the end of a path that goes on from the directory. -/
def lookUp (directory : Directory) : List (List Char) → Except Unreadable String
  | [] => .error .isADirectory
  | [] :: more | ['.'] :: more => directory.lookUp more
  | ['.', '.'] :: more => outside.lookUp more
  | name :: more =>
    if longestName < (String.ofList name).utf8ByteSize then .error .nameTooLong
    else
      match directory.files.lookup (String.ofList name) with
      | none => .error .missing
      | some contents => if more.isEmpty then text contents else .error .notADirectory

/-- Reads the file at a path. A path that is too long is not followed, wherever it leads. -/
def read (directory : Directory) (path : String) : Except Unreadable String :=
  if longestPath < path.utf8ByteSize then .error .nameTooLong
  else
    match path.toList with
    | '/' :: path => outside.lookUp (names path)
    | path => directory.lookUp (names path)

end Directory

end Schematic.CommandLine
