/-! Source files, as the contents of a folder. A path is followed one component at a time, so
that of several faults the first one on the way is reported. -/
namespace StyleAudit

inductive ReadFailure where
  | nulInPath
  | notFound
  | notADirectory
  | isADirectory
  | nameTooLong
  | notUtf8
  /-- Anything else that the system reports, in its own words. -/
  | other (reason : String)
  deriving DecidableEq, Repr

namespace ReadFailure

def reason : ReadFailure → String
  | .nulInPath => "file name contained an unexpected NUL byte"
  | .notFound => "No such file or directory (os error 2)"
  | .notADirectory => "Not a directory (os error 20)"
  | .isADirectory => "Is a directory (os error 21)"
  | .nameTooLong => "File name too long (os error 36)"
  | .notUtf8 => "stream did not contain valid UTF-8"
  | .other reason => reason

def message (path : String) (failure : ReadFailure) : String :=
  "could not read " ++ path ++ ": " ++ failure.reason

end ReadFailure

/-- The bytes that a path may have, its end mark included. -/
def maxPathBytes : Nat := 4096

def maxNameBytes : Nat := 255

/-- Faults that a path has whatever the files are. -/
def pathFault? (path : String) : Option ReadFailure :=
  if path.toList.contains '\x00' then some .nulInPath
  else if maxPathBytes ≤ path.utf8ByteSize then some .nameTooLong
  else if path = "" then some .notFound
  else none

def decodeSource (bytes : ByteArray) : Except ReadFailure String :=
  match String.fromUTF8? bytes with
  | some source => .ok source
  | none => .error .notUtf8

inductive Item where
  | file (bytes : ByteArray)
  | folder

/-- The files below the current directory, each by the names that lead to it. The directories
on the way exist without being listed. -/
structure Folder where
  items : List (List String × Item)

/-- Where a path has led so far. Nothing is known of directories outside the folder but that
they are directories. -/
inductive Place where
  | inside (names : List String) (item : Item)
  | outside

namespace Folder

def find? (folder : Folder) (names : List String) : Option Item :=
  match folder.items.lookup names with
  | some item => some item
  | none =>
    if names = [] ∨ folder.items.any fun item => names.isPrefixOf item.1 then some .folder
    else none

/-- One component of a path. A file has nothing below it, itself and its parent included. -/
def enter (folder : Folder) (place : Place) (name : String) : Except ReadFailure Place :=
  match place with
  | .inside _ (.file _) => .error .notADirectory
  | .inside names .folder =>
    if name = "." then .ok place
    else if name = ".." then
      .ok (if names = [] then .outside else .inside names.dropLast .folder)
    else if maxNameBytes < name.utf8ByteSize then .error .nameTooLong
    else match folder.find? (names ++ [name]) with
      | some item => .ok (.inside (names ++ [name]) item)
      | none => .error .notFound
  | .outside =>
    if name = "." ∨ name = ".." then .ok .outside
    else if maxNameBytes < name.utf8ByteSize then .error .nameTooLong
    else .error .notFound

def top (path : String) : Place :=
  if path.toList.head? = some '/' then .outside else .inside [] .folder

/-- The components of a path. Slashes in a row count once, and one at the end asks for a
directory, just as a final dot does. -/
def components (path : String) : List String :=
  (path.splitOn "/").filter (· ≠ "") ++ if path.toList.getLast? = some '/' then ["."] else []

def bytes (folder : Folder) (path : String) : Except ReadFailure ByteArray := do
  match pathFault? path with
  | some failure => throw failure
  | none =>
    match ← (components path).foldlM folder.enter (top path) with
    | .inside _ (.file bytes) => return bytes
    | _ => throw .isADirectory

def read (folder : Folder) (path : String) : Except ReadFailure String :=
  folder.bytes path >>= decodeSource

end Folder

end StyleAudit
