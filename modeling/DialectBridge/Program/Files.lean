import DialectBridge.Program.Basic

/-!
# Files by path

A tree of files and a working directory in it.  A path is walked one step at a time: only a
directory can be stepped out of, even to where one already is, and a name has a limited length.

* `FileTree.find` walks a path;
* `FileTree.read` is what reading a file gives;
* `FileTree.startError` is why a program that is not installed does not start.
-/

namespace DialectBridge

/-- What a path can lead to. -/
inductive FileNode where
  | file (bytes : List UInt8)
  | directory
  deriving DecidableEq, Repr

/-- Files by the steps that lead to them from the root, and where relative paths start. -/
structure FileTree where
  workingDirectory : List String
  files : List (List String × List UInt8)
  deriving DecidableEq, Repr

namespace FileTree

/-- The steps of a path. -/
def steps (path : String) : List String :=
  (path.splitOn "/").filter fun step => step ≠ "" && step ≠ "."

/-- The files with the given names in a working directory, beside the empty device. -/
def ofFiles (named : List (String × List UInt8)) : FileTree :=
  let workingDirectory := ["tmp", "work"]
  { workingDirectory
    files := (["dev", "null"], []) ::
      named.map fun file => (workingDirectory ++ steps file.1, file.2) }

/-- What stands at the end of some steps; a directory is what leads to a file, and the working
directory. -/
def node? (t : FileTree) (place : List String) : Option FileNode :=
  match t.files.find? fun file => file.1 = place with
  | some file => some (.file file.2)
  | none =>
    if place.isPrefixOf t.workingDirectory || t.files.any fun file => place.isPrefixOf file.1 then
      some .directory
    else none

/-- A name has at most this many bytes. -/
def maxName : Nat := 255

/-- Walks on from a place. -/
def walk (t : FileTree) : List String → List String → Except OsError FileNode
  | place, [] =>
    match t.node? place with
    | some node => .ok node
    | none => .error .notFound
  | place, step :: rest =>
    match t.node? place with
    | none => .error .notFound
    | some (.file _) => .error .notDirectory
    | some .directory =>
      if step = "" || step = "." then t.walk place rest
      else if step = ".." then t.walk place.dropLast rest
      else if maxName < step.utf8ByteSize then .error .nameTooLong
      else t.walk (place ++ [step]) rest

/-- What a path leads to. -/
def find (t : FileTree) (path : String) : Except OsError FileNode :=
  if path.isEmpty then .error .notFound
  else t.walk (if "/".isPrefixOf path then [] else t.workingDirectory) (path.splitOn "/")

/-- The bytes of the file at a path. -/
def read (t : FileTree) (path : String) : Except OsError (List UInt8) :=
  match t.find path with
  | .ok (.file bytes) => .ok bytes
  | .ok .directory => .error .isDirectory
  | .error e => .error e

/-- Why a program that is not installed does not start.  A path is walked, and what it leads to may
not be run; a name without a slash is looked for among the installed programs, and so are the names
of directories. -/
def startError (t : FileTree) (c : Command) : OsError :=
  if c.holdsNul then .nulByte
  else if c.program.contains '/' then
    match t.find c.program with
    | .ok _ => .permissionDenied
    | .error e => e
  else if c.program = "." || c.program = ".." then .permissionDenied
  else if maxName < c.program.utf8ByteSize then .nameTooLong
  else .notFound

end FileTree

end DialectBridge
