import TinyBasic.Syntax.Parser
import TinyBasic.Target.Buffer
import TinyBasic.Target.Fragments
/-!
# Compiling

From BASIC source text to C text: read and check the program, which emits the prologue and the
body into a buffer as it goes, then finish the buffer.

* `compile` runs the whole way for one source and precision.
* `Precision.rangeMessage` is the complaint about a precision outside 0 to 17.
-/

namespace TinyBasic

/-- A finished compilation: the file name it was made under, the program as read, the finished
buffer and its text. -/
structure Compilation where
  file : String
  parsed : Parsed
  buffer : Buffer
  code : String
  deriving Repr, Inhabited

/-- Compiles a source, named `file` in diagnostics, printing numbers with precision `p`: the
parse emits the C into its buffer, which is then finished. -/
def compile (p : Precision) (file source : String) : Except Diagnostic Compilation := do
  let r ← Program.parse p file source
  let (code, b) ← r.out.finish
  pure ⟨file, r, b, code⟩

/-- The complaint about a precision that is not between 0 and 17. -/
def Precision.rangeMessage (n : Int) : String :=
  "print_precision must be between 0 and " ++ toString Precision.max ++ ", got " ++ toString n

end TinyBasic
