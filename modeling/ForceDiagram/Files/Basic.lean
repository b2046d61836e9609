/-
ForceDiagram/Files/Basic.lean

Files and directories, as far as reading a dataset and writing a drawing need
them.

A place is told from the working directory: some steps up, and the parts of the
way down from there.  Places above the working directory that it is not in are
told in the same way, and the root is as many steps up as the working directory
is deep.  No place is told in two ways, as a way down that leads towards the
working directory takes back a step up.

A path is walked part by part, from the root if it begins with a slash and else
from the working directory.  Every part but the last has to lead into a
directory, empty parts and single dots stay where they are, and two dots go up.

Some paths lead nowhere whatever files there are: an empty one, one with a NUL in
it, and one that is too long.  A part of a path that is too long is an error of
its own as soon as the walk comes to it.
-/
namespace ForceDiagram

inductive FileError where
  | notFound
  | notDirectory
  | isDirectory
  | denied
  | nameTooLong
  | nameWithNul
  | notText
deriving DecidableEq, Repr

/-- The wording of an error. -/
def FileError.message : FileError → String
  | .notFound => "No such file or directory (os error 2)"
  | .notDirectory => "Not a directory (os error 20)"
  | .isDirectory => "Is a directory (os error 21)"
  | .denied => "Permission denied (os error 13)"
  | .nameTooLong => "File name too long (os error 36)"
  | .nameWithNul => "file name contained an unexpected NUL byte"
  | .notText => "stream did not contain valid UTF-8"

inductive FileEntry where
  | file (content : List UInt8)
  | directory
deriving DecidableEq, Repr

/-- Files and directories by their places, where `home` is the way from the root to
the working directory.  A directory with something in it need not be listed. -/
structure Files (home : List String := ["work"]) where
  entries : List (List String × FileEntry)

namespace Files

variable {home : List String}

/-- The parts of a path. -/
def partsOf (path : String) : List String :=
  path.splitOn "/"

/-- The number of bytes that a path has to stay below. -/
def pathLimit : Nat := 4096

/-- The greatest number of bytes in a part of a path. -/
def partLimit : Nat := 255

/-- What is wrong with a path, whatever files there are. -/
def pathFault? (path : String) : Option FileError :=
  if path.toList.contains '\x00' then some .nameWithNul
  else if path.isEmpty then some .notFound
  else if pathLimit ≤ path.utf8ByteSize then some .nameTooLong
  else none

/-- Whether a place is the working directory or one of the directories it is in. -/
def isAbove (place : List String) : Bool := place.all (· == "..")

/-- What stands at a place. -/
def at? (files : Files home) (place : List String) : Option FileEntry :=
  if isAbove place then some .directory
  else
    match files.entries.find? fun entry => entry.1 == place with
    | some entry => some entry.2
    | none =>
      if files.entries.any fun entry => place.isPrefixOf entry.1 then some .directory
      else none

/-- The root. -/
def root (home : List String) : List String := List.replicate home.length ".."

/-- Where one part of a path leads from a directory. -/
def enter (home place : List String) (part : String) : List String :=
  if part == "" || part == "." then place
  else if isAbove place then
    if part == ".." then
      -- above the root there is nothing
      if place.length < home.length then place ++ [".."] else place
    else if home[home.length - place.length]? == some part then place.dropLast
    else place ++ [part]
  else if part == ".." then place.dropLast
  else place ++ [part]

/-- Where parts of a path lead. -/
def walk (files : Files home) (place : List String) : List String → Except FileError (List String)
  | [] => .ok place
  | part :: parts =>
    match files.at? place with
    | some .directory =>
      if partLimit < part.utf8ByteSize then .error .nameTooLong
      else files.walk (enter home place part) parts
    | some (.file _) => .error .notDirectory
    | none => .error .notFound

/-- Where the walk along a path begins. -/
def origin (home : List String) (path : String) : List String :=
  if path.toList.head? == some '/' then root home else []

/-- The content of the file at a path. -/
def read (files : Files home) (path : String) : Except FileError (List UInt8) := do
  if let some error := pathFault? path then throw error
  let place ← files.walk (origin home path) (partsOf path)
  match files.at? place with
  | some (.file content) => return content
  | some .directory => throw .isDirectory
  | none => throw .notFound

/-- Puts a file at a place, over the file that stood there. -/
def put (files : Files home) (place : List String) (content : List UInt8) : Files home :=
  ⟨(place, .file content) :: files.entries.filter (·.1 != place)⟩

/-- Writes a file at a path.  Its directory has to be there, and a path that
ends in a slash names no file. -/
def write (files : Files home) (path : String) (content : List UInt8) :
    Except FileError (Files home) := do
  if let some error := pathFault? path then throw error
  let parts := (partsOf path).reverse
  let named := parts.dropWhile (· == "")
  let parent ← files.walk (origin home path) named.tail.reverse
  match files.at? parent with
  | none => throw .notFound
  | some (.file _) => throw .notDirectory
  | some .directory =>
    let name := named.headD ""
    let place := enter home parent name
    if parts.head? == some "" then throw .isDirectory
    if partLimit < name.utf8ByteSize then throw .nameTooLong
    if files.at? place == some .directory then throw .isDirectory
    return files.put place content

end Files

end ForceDiagram
