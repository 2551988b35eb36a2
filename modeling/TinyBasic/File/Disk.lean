import TinyBasic.File.Failure
/-!
# A directory tree

The files and directories below one top directory, as the command sees them. A path is
followed part by part from the top: each part before the last must name a directory, `..`
goes up one level, and going up from the top leaves the tree, where nothing is known to exist.
A name is at most 255 bytes long in UTF-8, and a whole path less than 4096; a longer name is
refused when the walk reaches it, a longer path before the walk starts.

* `Disk.isDirectory`, `Disk.read` and `Disk.write` are the three things the command asks of
  the files: whether a path is a directory, the bytes of a file, and replacing or creating a
  file.
-/

namespace TinyBasic

/-- Regular files with their bytes, and directories, each by the parts of its path from the top.
-/
structure Disk where
  files : List (List String × List UInt8) := []
  dirs : List (List String) := []
  deriving Repr, Inhabited

/-- Where following a path leads: a directory of the tree, or out of it. -/
inductive Place where
  | inside (parts : List String)
  | outside
  deriving DecidableEq, Repr, Inhabited

/-- What a path names. -/
inductive Entry where
  | file (bytes : List UInt8)
  | dir
  | missing
  deriving DecidableEq, Repr, Inhabited

namespace Disk

/-- The longest name of a file or directory, in bytes of UTF-8. -/
def nameMax : Nat := 255

/-- The length in bytes of UTF-8 that a whole path must stay below. -/
def pathMax : Nat := 4096

/-- Whether a name is too long to stand in a directory. -/
def tooLong (name : String) : Bool :=
  decide (name.utf8ByteSize > nameMax)

/-- What is at the parts `ps`; the top itself is a directory. -/
def entry (d : Disk) (ps : List String) : Entry :=
  if ps.isEmpty || d.dirs.contains ps then .dir
  else match d.files.lookup ps with
    | some b => .file b
    | none => .missing

/-- Steps from the place `pl` through one part of a path, which must lead to a directory. -/
def enter (d : Disk) (pl : Place) (part : String) : Except OsError Place :=
  if part ≠ ".." && tooLong part then .error .nameTooLong
  else match pl with
  | .outside => if part = ".." then .ok .outside else .error .noEntry
  | .inside ps =>
    if part = ".." then .ok (if ps.isEmpty then .outside else .inside ps.dropLast)
    else match d.entry (ps ++ [part]) with
      | .dir => .ok (.inside (ps ++ [part]))
      | .file _ => .error .notDirectory
      | .missing => .error .noEntry

/-- Follows the parts of a path from `pl`, each a directory. -/
def enterAll (d : Disk) (pl : Place) : List String → Except OsError Place
  | [] => .ok pl
  | p :: ps =>
    match d.enter pl p with
    | .ok pl' => d.enterAll pl' ps
    | .error e => .error e

/-- The directory a path's last part stands in, and that last part; a path whose last part is
`..`, or that has no parts, names a directory itself and has no last name. -/
def locate (d : Disk) (p : Path) : Except OsError (Place × Option String) :=
  if p.render.utf8ByteSize ≥ pathMax then .error .nameTooLong
  else match p.parts.getLast? with
  | none => .ok (.inside [], none)
  | some last =>
    match d.enterAll (.inside []) p.parts.dropLast with
    | .error e => .error e
    | .ok pl =>
      if last = ".." then
        match d.enter pl last with
        | .ok pl' => .ok (pl', none)
        | .error e => .error e
      else if tooLong last then .error .nameTooLong
      else .ok (pl, some last)

/-- Whether a path leads to a directory. -/
def isDirectory (d : Disk) (p : Path) : Bool :=
  match d.locate p with
  | .ok (_, none) => true
  | .ok (.inside ps, some n) => d.entry (ps ++ [n]) == .dir
  | _ => false

/-- Whether a path written as `s` leads to a directory; the empty text names nothing. -/
def isDirectoryAt (d : Disk) (s : String) : Bool :=
  !s.isEmpty && s.utf8ByteSize < pathMax && d.isDirectory (Path.ofString s)

/-- The bytes of the file at a path. -/
def read (d : Disk) (p : Path) : Except OsError (List UInt8) :=
  match d.locate p with
  | .error e => .error e
  | .ok (_, none) => .error .isDirectory
  | .ok (.outside, some _) => .error .noEntry
  | .ok (.inside ps, some n) =>
    match d.entry (ps ++ [n]) with
    | .file b => .ok b
    | .dir => .error .isDirectory
    | .missing => .error .noEntry

/-- Replaces the file at a path with `bytes`, or creates it. Files out of the tree are not
kept. -/
def write (d : Disk) (p : Path) (bytes : List UInt8) : Except OsError Disk :=
  match d.locate p with
  | .error e => .error e
  | .ok (_, none) => .error .isDirectory
  | .ok (.outside, some _) => .ok d
  | .ok (.inside ps, some n) =>
    let key := ps ++ [n]
    match d.entry key with
    | .dir => .error .isDirectory
    | _ => .ok { d with files := (d.files.filter fun f => f.1 != key) ++ [(key, bytes)] }

/-- Adds a directory and the directories above it. -/
def addDir (d : Disk) (ps : List String) : Disk :=
  let chain := (List.range ps.length).map fun i => ps.take (i + 1)
  { d with dirs := d.dirs ++ chain.filter fun c => !d.dirs.contains c }

/-- Adds a file and the directories above it. -/
def addFile (d : Disk) (ps : List String) (bytes : List UInt8) : Disk :=
  let d := d.addDir ps.dropLast
  { d with files := (d.files.filter fun f => f.1 != ps) ++ [(ps, bytes)] }

end Disk

end TinyBasic
