import ClassScript.Command.Files

/-!
# Files in memory

A `Folder` is a file system in memory, seen from a working directory. A path is
followed part by part: every place that is left by a further part must be a
directory, and names and paths have a greatest length.
-/

namespace ClassScript.Command

/-! ### Places -/

/-- Where the way to a place begins. -/
inductive Anchor where
  /-- The root of the file system. -/
  | root
  /-- The directory some levels above the working directory. -/
  | above (levels : Nat)
deriving DecidableEq

/-- A place in the file system: where the way to it begins, and the names of the
directories on the way and of the place itself. -/
structure Place where
  anchor : Anchor
  names : List String
deriving DecidableEq

namespace Place

/-- The place where a path begins: the root for an absolute path, the working
directory for any other. -/
def start (path : String) : Place :=
  if path.toList.head? = some '/' then ⟨.root, []⟩ else ⟨.above 0, []⟩

/-- The directory that holds a place. The root holds itself. -/
def parent : Place → Place
  | ⟨.root, []⟩ => ⟨.root, []⟩
  | ⟨.above levels, []⟩ => ⟨.above (levels + 1), []⟩
  | ⟨anchor, names⟩ => ⟨anchor, names.dropLast⟩

/-- The place that a part of a path leads to. -/
def step (place : Place) (part : String) : Place :=
  if part = "" ∨ part = "." then place
  else if part = ".." then place.parent
  else ⟨place.anchor, place.names ++ [part]⟩

end Place

/-! ### Folders -/

/-- The files and directories that are known. The root, the working directory
and what is above it are directories without being listed. -/
structure Folder where
  files : List (Place × ByteArray)
  directories : List Place

namespace Folder

/-- The directories that a system has below its root. -/
def systemDirectories : List String :=
  ["bin", "boot", "dev", "etc", "home", "lib", "media", "mnt", "opt", "proc", "root", "run",
   "sbin", "srv", "sys", "tmp", "usr", "var"]

/-- An empty working directory, on a system with a null device. -/
def empty : Folder :=
  ⟨[(⟨.root, ["dev", "null"]⟩, .empty)], systemDirectories.map fun name => ⟨.root, [name]⟩⟩

/-- What stands at a place. -/
inductive Entry where
  | file (bytes : ByteArray)
  | directory
  | missing

/-- What stands at `place`. -/
def entry (f : Folder) (place : Place) : Entry :=
  match f.files.lookup place with
  | some bytes => .file bytes
  | none =>
    if place.names.isEmpty || f.directories.contains place then .directory else .missing

/-- Puts contents at a place. -/
def put (f : Folder) (place : Place) (bytes : ByteArray) : Folder :=
  { f with files := (place, bytes) :: f.files.filter (·.1 ≠ place) }

/-- Makes a directory at a place, unless it is one already. -/
def makeDirectory (f : Folder) (place : Place) : Folder :=
  match f.entry place with
  | .directory => f
  | _ => { f with directories := place :: f.directories }

/-- Follows the parts of a path and makes a directory at each place on the way. -/
def makeDirectories (f : Folder) (place : Place) : List String → Folder × Place
  | [] => (f, place)
  | part :: parts => (f.makeDirectory (place.step part)).makeDirectories (place.step part) parts

/-- Puts contents at a path, with all directories on the way. -/
def install (f : Folder) (path : String) (bytes : ByteArray) : Folder :=
  let parts := pathParts path
  let (f, directory) := f.makeDirectories (.start path) parts.dropLast
  f.put (directory.step (parts.getLastD "")) bytes

/-! ### Following paths -/

/-- The greatest number of bytes in a name. -/
def nameLimit : Nat := 255

/-- The greatest number of bytes in a path. -/
def pathLimit : Nat := 4095

/-- Refuses a path that is too long. -/
def checkLength (path : String) : Except FileError Unit :=
  if pathLimit < path.utf8ByteSize then .error .nameTooLong else .ok ()

/-- Refuses a place that is no directory. -/
def checkDirectory (f : Folder) (place : Place) : Except FileError Unit :=
  match f.entry place with
  | .directory => .ok ()
  | .file _ => .error .notDirectory
  | .missing => .error .notFound

/-- Follows the parts of a path. Nothing need stand at the place they lead to. -/
def follow (f : Folder) (place : Place) : List String → Except FileError Place
  | [] => .ok place
  | part :: parts => do
    f.checkDirectory place
    if nameLimit < part.utf8ByteSize then throw .nameTooLong
    f.follow (place.step part) parts

/-- The contents of the file at a path. -/
def readBytes (f : Folder) (path : String) : Except FileError ByteArray := do
  checkLength path
  match f.entry (← f.follow (.start path) (pathParts path)) with
  | .file bytes => return bytes
  | .directory => throw .isDirectory
  | .missing => throw .notFound

/-- A path without the slashes at its end. -/
def dropSlashes (path : String) : String :=
  String.ofList (path.toList.reverse.dropWhile (· == '/')).reverse

/-- The folder after writing a file. The directory it goes to must be there, and
a path with a slash at its end never means a file. -/
def writeBytes (f : Folder) (path : String) (bytes : ByteArray) : Except FileError Folder := do
  checkLength path
  let parts := pathParts (dropSlashes path)
  let directory ← f.follow (.start path) parts.dropLast
  f.checkDirectory directory
  if dropSlashes path ≠ path then throw .isDirectory
  let place ← f.follow directory [parts.getLastD ""]
  match f.entry place with
  | .directory => throw .isDirectory
  | .file _ | .missing => return f.put place bytes

/-- Files in memory as the command sees them. -/
def access : FileAccess (StateM Folder) where
  read path := return (← get).readBytes path >>= decodeText
  write path text := do
    match (← get).writeBytes path text.toUTF8 with
    | .ok f =>
      set f
      return .ok ()
    | .error e => return .error e

end Folder

end ClassScript.Command
