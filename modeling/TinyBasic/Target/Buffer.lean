import TinyBasic.Diagnostic
/-!
# The output buffer

Generated C is collected in two parts: the prologue lines (`header`) and the body fragments
(`body`). Finishing the buffer joins them, with one empty line between, and closes it: after
that nothing can be added and it cannot be finished again. A refused operation leaves the buffer
as it was.

* `Buffer.append`, `Buffer.appendLine` and `Buffer.declare` add a fragment, a line, or a
  prologue line; on an open buffer they are `Buffer.push` and `Buffer.pushHeader`, which the
  translator uses while it reads.
* `Buffer.finish` gives the text and closes the buffer.
* `Buffer.finishFor` finishes on the way to a destination, which must be given.
* `Buffer.Call` is one call on the buffer that touches no file, and `Buffer.perform` makes it:
  a refused call gives its diagnostic and keeps the buffer. `Buffer.performAll` makes calls
  one after another.
-/

namespace TinyBasic

/-- Prologue lines, body fragments, and whether the buffer has been finished. -/
@[ext] structure Buffer where
  header : List String := []
  body : List String := []
  finished : Bool := false
  deriving DecidableEq, Repr, Inhabited

namespace Buffer

/-- The diagnostic for a buffer that is used after it was finished. -/
def closedError : Diagnostic :=
  { problem := .other .output "output has already been finalized" none }

/-- The diagnostic for writing a buffer without a destination. -/
def noDestinationError : Diagnostic :=
  { problem := .other .output "no output path given" none }

/-- The buffer with one more fragment in its body. -/
def push (b : Buffer) (code : String) : Buffer :=
  { b with body := b.body ++ [code] }

/-- The buffer with one more line in its prologue. -/
def pushHeader (b : Buffer) (code : String) : Buffer :=
  { b with header := b.header ++ [code ++ "\n"] }

/-- Adds a fragment to the body. -/
def append (b : Buffer) (code : String) : Except Diagnostic Buffer :=
  if b.finished then .error closedError else .ok (b.push code)

/-- Adds a fragment and a line feed to the body. -/
def appendLine (b : Buffer) (code : String) : Except Diagnostic Buffer :=
  b.append (code ++ "\n")

/-- Adds a line to the prologue. -/
def declare (b : Buffer) (code : String) : Except Diagnostic Buffer :=
  if b.finished then .error closedError else .ok (b.pushHeader code)

/-- An open buffer takes every addition: adding a fragment or a prologue line is pushing it. -/
theorem append_of_open {b : Buffer} (h : b.finished = false) (code : String) :
    b.append code = .ok (b.push code) := by
  simp [append, h]

theorem declare_of_open {b : Buffer} (h : b.finished = false) (code : String) :
    b.declare code = .ok (b.pushHeader code) := by
  simp [declare, h]

@[simp] theorem push_header (b : Buffer) (code : String) : (b.push code).header = b.header := rfl

@[simp] theorem push_body (b : Buffer) (code : String) : (b.push code).body = b.body ++ [code] :=
  rfl

@[simp] theorem push_finished (b : Buffer) (code : String) :
    (b.push code).finished = b.finished := rfl

@[simp] theorem pushHeader_header (b : Buffer) (code : String) :
    (b.pushHeader code).header = b.header ++ [code ++ "\n"] := rfl

@[simp] theorem pushHeader_body (b : Buffer) (code : String) : (b.pushHeader code).body = b.body :=
  rfl

@[simp] theorem pushHeader_finished (b : Buffer) (code : String) :
    (b.pushHeader code).finished = b.finished := rfl

/-- The text of the buffer: the prologue, an empty line, the body. -/
def text (b : Buffer) : String :=
  String.join b.header ++ "\n" ++ String.join b.body

/-- Gives the text and closes the buffer. -/
def finish (b : Buffer) : Except Diagnostic (String × Buffer) :=
  if b.finished then .error closedError else .ok (b.text, { b with finished := true })

/-- Finishes the buffer for writing to `dest`; without a destination nothing happens. -/
def finishFor (b : Buffer) (dest : Option String) : Except Diagnostic (String × Buffer) :=
  match dest with
  | none => .error noDestinationError
  | some _ => b.finish

/-- A call on the buffer that touches no file: adding a fragment, a line or a prologue line,
finishing, or finishing for a destination that was not given. -/
inductive Call where
  | append (code : String)
  | appendLine (code : String)
  | declare (code : String)
  | finish
  | finishUnaddressed
  deriving DecidableEq, Repr

/-- What a call gives back: nothing, the finished text, or the diagnostic it was refused with. -/
inductive Reply where
  | done
  | text (s : String)
  | refused (d : Diagnostic)
  deriving Repr

/-- The reply to an addition, and the buffer after it; a refused addition keeps `b`. -/
def settle (b : Buffer) : Except Diagnostic Buffer → Reply × Buffer
  | .ok b' => (.done, b')
  | .error d => (.refused d, b)

/-- The reply to a finish, and the buffer after it; a refused finish keeps `b`. -/
def settleText (b : Buffer) : Except Diagnostic (String × Buffer) → Reply × Buffer
  | .ok (t, b') => (.text t, b')
  | .error d => (.refused d, b)

/-- Makes one call. -/
def perform (b : Buffer) : Call → Reply × Buffer
  | .append code => b.settle (b.append code)
  | .appendLine code => b.settle (b.appendLine code)
  | .declare code => b.settle (b.declare code)
  | .finish => b.settleText b.finish
  | .finishUnaddressed => b.settleText (b.finishFor none)

/-- Makes calls one after another: their replies, and the buffer after the last. -/
def performAll (b : Buffer) : List Call → List Reply × Buffer
  | [] => ([], b)
  | c :: cs =>
    let r := b.perform c
    let t := r.2.performAll cs
    (r.1 :: t.1, t.2)

end Buffer

end TinyBasic
