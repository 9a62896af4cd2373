/-
  File:      Collation/Files.lean
  Subject:   Files, and the paths that lead to them.

  A run sees files only through `Files`.  `Disk` is a tree of files in memory, on which a run
  is a function of its arguments and of the tree.  A path is followed name by name, and the
  first name that leads nowhere decides why the whole path is refused.

  * `Path.ofString` -- the names of a path, which may not be too long as a text;
  * `Disk.walk` -- follows names from one directory to the next;
  * `Disk.target` -- the place a path speaks of, whether there is something or not;
  * `Disk.read`, `Disk.write` -- a whole file by its path.
-/
import Collation.Fault
import Collation.Text.Blank

namespace Collation

/-- The files that a program can read and write. -/
structure Files (m : Type → Type) where
  read : String → m (Except Refusal (List UInt8))
  /-- Writes a file; the answer is what went wrong. -/
  write : String → List UInt8 → m (Option Refusal)

/-! ## 1. Paths -/

/-- A path, taken apart at its slashes. -/
structure Path where
  /-- It starts at the root, and not at the current directory. -/
  absolute : Bool
  names : List String
  /-- A slash follows the last name, so that only a directory is meant. -/
  closed : Bool
  deriving DecidableEq, Repr

namespace Path

/-- The most bytes in a name. -/
def nameLimit : Nat := 255

/-- The most bytes in a path. -/
def limit : Nat := 4095

/-- The parts of a path; slashes in a row count as one. -/
def ofString (text : String) : Except Refusal Path :=
  let cs := text.toList
  if cs = [] then .error .notFound
  else if limit < text.utf8ByteSize then .error .nameTooLong
  else .ok {
    absolute := cs.head? = some '/'
    names := ((Text.splitOn '/' cs).filter (· ≠ [])).map String.ofList
    closed := cs.getLast? = some '/' }

end Path

/-! ## 2. Disks -/

/-- The names that lead to a file or a directory, the last one first; none for the root. -/
abbrev Place := List String

/-- What is found at a place. -/
inductive Entry where
  | directory
  /-- A file, and how many bytes it takes if there is a bound. -/
  | file (content : List UInt8) (room : Option Nat)
  deriving DecidableEq, Repr

/-- A tree of files. -/
structure Disk where
  entries : List (Place × Entry)
  /-- Where paths start that do not start at the root. -/
  current : Place
  deriving DecidableEq, Repr

/-- What a path speaks of. -/
inductive Target where
  /-- A directory that was walked into. -/
  | directory
  /-- A name in a directory. -/
  | named (parent : Place) (name : String)
  deriving DecidableEq, Repr

namespace Disk

/-- What is at a place. -/
def entry? (d : Disk) (place : Place) : Option Entry :=
  if place = [] then some .directory else d.entries.lookup place

/-- Looks a name up in a directory. -/
def find (d : Disk) (parent : Place) (name : String) : Except Refusal (Option Entry) :=
  if Path.nameLimit < name.utf8ByteSize then .error .nameTooLong
  else .ok (d.entry? (name :: parent))

/-- The directory that a name leads to. -/
def enter (d : Disk) (parent : Place) (name : String) : Except Refusal Place :=
  if name = "." then .ok parent
  else if name = ".." then .ok parent.tail
  else
    match d.find parent name with
    | .error cause => .error cause
    | .ok none => .error .notFound
    | .ok (some .directory) => .ok (name :: parent)
    | .ok (some (.file _ _)) => .error .notDirectory

/-- Follows names from directory to directory. -/
def walk (d : Disk) (place : Place) : List String → Except Refusal Place
  | [] => .ok place
  | name :: names =>
    match d.enter place name with
    | .ok next => d.walk next names
    | .error cause => .error cause

/-- What a path speaks of: all its names but the last are walked. -/
def target (d : Disk) (p : Path) : Except Refusal Target :=
  match p.names.getLast? with
  | none => .ok .directory
  | some name =>
    match d.walk (if p.absolute then [] else d.current) p.names.dropLast with
    | .error cause => .error cause
    | .ok parent =>
      .ok (if name = "." ∨ name = ".." then .directory else .named parent name)

/-- Puts an entry in the place of any other. -/
def put (d : Disk) (place : Place) (entry : Entry) : Disk :=
  { d with entries := (place, entry) :: d.entries }

/-- The content of a file. -/
def read (d : Disk) (text : String) : Except Refusal (List UInt8) := do
  let p ← Path.ofString text
  match ← d.target p with
  | .directory => throw .isDirectory
  | .named parent name =>
    match ← d.find parent name with
    | none => throw .notFound
    | some .directory => throw .isDirectory
    | some (.file content _) => if p.closed then throw .notDirectory else return content

/-- The place of a file to be written, and the bytes that it takes; a new file takes any
    number. -/
def destination (d : Disk) (text : String) : Except Refusal (Place × Option Nat) := do
  let p ← Path.ofString text
  match ← d.target p with
  | .directory => throw .isDirectory
  | .named parent name =>
    if p.closed then throw .isDirectory
    match ← d.find parent name with
    | none => return (name :: parent, none)
    | some .directory => throw .isDirectory
    | some (.file _ room) => return (name :: parent, room)

/-- Makes bytes the content of a file, or as many of them as it takes. -/
def write (d : Disk) (text : String) (bytes : List UInt8) : Option Refusal × Disk :=
  match d.destination text with
  | .error cause => (some cause, d)
  | .ok (place, none) => (none, d.put place (.file bytes none))
  | .ok (place, some room) =>
    (if room < bytes.length then some .noSpace else none,
      d.put place (.file (bytes.take room) (some room)))

/-- The files of the disk that is the state. -/
def files : Files (StateM Disk) where
  read text := fun d => (d.read text, d)
  write text bytes := fun d => d.write text bytes

end Disk

end Collation
