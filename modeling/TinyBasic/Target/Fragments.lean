import TinyBasic.Syntax
/-!
# C fragments

What each construct becomes in C. An expression or a comparison is the texts of its tokens,
one fragment each, with nothing between them. A statement is a fixed frame around those:

| statement | C |
|---|---|
| `PRINT "v"` | `printf("v\n");` |
| `PRINT e` | `printf("%.pf\n", (float)(e));` |
| `IF c THEN … ENDIF` | `if (c) {` … `}` |
| `WHILE c REPEAT … ENDWHILE` | `while (c) {` … `}` |
| `LABEL n` / `GOTO n` | `n:` / `goto n;` |
| `LET n = e` | `n = e;` |
| `INPUT n` | a `scanf` that sets `n` to 0 and skips a word it cannot read |

The prologue includes `stdio.h`, opens `main` and declares each variable as a `float`; the
body ends with `return 0;` and the closing brace.

* `Precision` is the number of digits after the point when a number is printed, 0 to 17.
* `Stmt.fragments` and `Program.body` give the body fragments, `Program.header` the prologue
  lines, each with its line feed.
-/

namespace TinyBasic

/-- The number of digits after the point when `PRINT` shows a number: 0 to 17. -/
structure Precision where
  digits : Nat
  bounded : digits ≤ 17 := by omega
  deriving Repr

/-- The largest precision. -/
def Precision.max : Nat := 17

/-- Two digits after the point. -/
instance : Inhabited Precision := ⟨⟨2, by omega⟩⟩

/-- The precision of a whole number, when it lies in 0 to 17. -/
def Precision.ofInt? (n : Int) : Option Precision :=
  if h : 0 ≤ n ∧ n ≤ 17 then some ⟨n.toNat, by omega⟩ else none

/-- The start of the `printf` call that shows a number with `p` digits after the point, up to
the number itself. -/
def Precision.printOpener (p : Precision) : String :=
  "printf(\"%." ++ toString p.digits ++ "f\\n\", (float)("

/-- The text of a sign. -/
def Sign.text : Sign → String
  | .plus => "+"
  | .minus => "-"

/-- The text of an additive operator. -/
def AddOp.text : AddOp → String
  | .add => "+"
  | .sub => "-"

/-- The text of a multiplicative operator. -/
def MulOp.text : MulOp → String
  | .mul => "*"
  | .div => "/"

/-- The text of a comparison operator. -/
def Relation.text : Relation → String
  | .eq => "=="
  | .ne => "!="
  | .lt => "<"
  | .le => "<="
  | .gt => ">"
  | .ge => ">="

/-- The text of an operand. -/
def Atom.text : Atom → String
  | .number t => t
  | .var n => n

/-- A factor's tokens: its sign, if any, and its operand. -/
def Factor.fragments (f : Factor) : List String :=
  (f.sign.map Sign.text).toList ++ [f.atom.text]

/-- A term's tokens. -/
def Term.fragments (t : Term) : List String :=
  t.first.fragments ++ t.rest.flatMap fun p => p.1.text :: p.2.fragments

/-- An expression's tokens. -/
def Expr.fragments (e : Expr) : List String :=
  e.first.fragments ++ e.rest.flatMap fun p => p.1.text :: p.2.fragments

/-- A comparison's tokens. -/
def Comparison.fragments (c : Comparison) : List String :=
  c.left.fragments ++ c.rel.text :: c.right.fragments ++
    c.more.flatMap fun p => p.1.text :: p.2.fragments

mutual

/-- The body fragments of a statement. -/
def Stmt.fragments (p : Precision) : Stmt → List String
  | .printText v => ["printf(\"" ++ v ++ "\\n\");\n"]
  | .printValue e =>
    [p.printOpener] ++ e.fragments ++ ["));\n"]
  | .ifThen c body => ["if ("] ++ c.fragments ++ [") \x7b\n"] ++ Stmt.blockFragments p body ++ ["\x7d\n"]
  | .whileRepeat c body =>
    ["while ("] ++ c.fragments ++ [") \x7b\n"] ++ Stmt.blockFragments p body ++ ["\x7d\n"]
  | .label n => [n ++ ":\n"]
  | .goto n => ["goto " ++ n ++ ";\n"]
  | .assign n e => [n ++ " = "] ++ e.fragments ++ [";\n"]
  | .input n =>
    ["if (0 == scanf(\"%f\", &" ++ n ++ ")) \x7b\n", n ++ " = 0;\n", "scanf(\"%*s\");\n", "\x7d\n"]

/-- The body fragments of a list of statements. -/
def Stmt.blockFragments (p : Precision) : List Stmt → List String
  | [] => []
  | s :: ss => Stmt.fragments p s ++ Stmt.blockFragments p ss

end

/-- The prologue lines for a program with the given variables. -/
def Program.header (names : List String) : List String :=
  ["#include <stdio.h>\n", "int main(void) \x7b\n"] ++ names.map fun v => "float " ++ v ++ ";\n"

/-- The body fragments of a program, closing `main`. -/
def Program.body (p : Precision) (prog : Program) : List String :=
  Stmt.blockFragments p prog ++ ["return 0;\n", "\x7d\n"]

end TinyBasic
