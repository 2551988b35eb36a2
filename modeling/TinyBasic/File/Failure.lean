import TinyBasic.File.Path
/-!
# Failed file access

A file that could not be read or written, and why: the system's reason, or for a source that
is not valid UTF-8, the decoding fault. The report reads `cannot read 'path': reason`, with the
path in canonical form.
-/

namespace TinyBasic

/-- Why the system refused to open a file. -/
inductive OsError where
  | noEntry
  | notDirectory
  | isDirectory
  /-- A part of the path, or the whole path, is longer than the system takes. -/
  | nameTooLong
  /-- Any other refusal, in the system's words. -/
  | other (reason : String)
  deriving DecidableEq, Repr, Inhabited

/-- The system's wording of each reason. -/
def OsError.text : OsError → String
  | .noEntry => "No such file or directory"
  | .notDirectory => "Not a directory"
  | .isDirectory => "Is a directory"
  | .nameTooLong => "File name too long"
  | .other r => r

/-- A refusal as the system reports it: its error number, as written, and its wording. -/
structure SystemRefusal where
  number : String
  wording : String
  deriving DecidableEq, Repr, Inhabited

/-- The reason given for a refusal: its wording, or when that is empty, the error number before
it, as `[Errno 2] `. -/
def SystemRefusal.reason (r : SystemRefusal) : String :=
  if r.wording.isEmpty then "[Errno " ++ r.number ++ "] " ++ r.wording else r.wording

/-- Reading a source or writing an output. -/
inductive Access where
  | read
  | write
  deriving DecidableEq, Repr, Inhabited

/-- A file that could not be read or written: which, where, and why. -/
structure IoFailure where
  access : Access
  path : Path
  reason : String
  deriving Repr, Inhabited

/-- The report of a failed access. -/
def IoFailure.message (f : IoFailure) : String :=
  let verb := match f.access with
    | .read => "read"
    | .write => "write"
  "cannot " ++ verb ++ " '" ++ f.path.render ++ "': " ++ f.reason

end TinyBasic
