/-!
# Programs

The abstract syntax of the dialect. There are no parentheses: an expression is a sum of
terms, a term a product of factors, a factor an optionally signed number or variable. A
condition compares two or more expressions in a chain. Numbers keep the text they were written
with, since the output copies it.

* `Expr`, `Term`, `Factor` follow the precedence of `+ -` below `* /` below a sign, each level
  a first member and a list of operator-member pairs, read from the left.
* `Comparison` is an expression and at least one comparison operator with its right operand.
* `Stmt` is one statement; `IF` and `WHILE` hold the statements of their block.
-/

namespace TinyBasic

/-- An operand: a number as written, or a variable. -/
inductive Atom where
  | number (text : String)
  | var (name : String)
  deriving DecidableEq, Repr, Inhabited

/-- A sign written before an operand. -/
inductive Sign where
  | plus
  | minus
  deriving DecidableEq, Repr, Inhabited

/-- The multiplicative operators. -/
inductive MulOp where
  | mul
  | div
  deriving DecidableEq, Repr, Inhabited

/-- The additive operators. -/
inductive AddOp where
  | add
  | sub
  deriving DecidableEq, Repr, Inhabited

/-- The comparison operators. -/
inductive Relation where
  | eq
  | ne
  | lt
  | le
  | gt
  | ge
  deriving DecidableEq, Repr, Inhabited

/-- An operand with an optional sign. -/
structure Factor where
  sign : Option Sign
  atom : Atom
  deriving DecidableEq, Repr, Inhabited

/-- A product: the first factor, then each further factor with the operator before it. -/
structure Term where
  first : Factor
  rest : List (MulOp × Factor)
  deriving DecidableEq, Repr, Inhabited

/-- A sum: the first term, then each further term with the operator before it. -/
structure Expr where
  first : Term
  rest : List (AddOp × Term)
  deriving DecidableEq, Repr, Inhabited

/-- A chain of comparisons: the left operand, the first operator with its right operand, then
any further operators with theirs. -/
structure Comparison where
  left : Expr
  rel : Relation
  right : Expr
  more : List (Relation × Expr)
  deriving DecidableEq, Repr, Inhabited

/-- A statement. -/
inductive Stmt where
  /-- `PRINT "text"` -/
  | printText (text : String)
  /-- `PRINT expression` -/
  | printValue (e : Expr)
  /-- `IF comparison THEN ... ENDIF` -/
  | ifThen (c : Comparison) (body : List Stmt)
  /-- `WHILE comparison REPEAT ... ENDWHILE` -/
  | whileRepeat (c : Comparison) (body : List Stmt)
  /-- `LABEL name` -/
  | label (name : String)
  /-- `GOTO name` -/
  | goto (name : String)
  /-- `LET name = expression` -/
  | assign (name : String) (e : Expr)
  /-- `INPUT name` -/
  | input (name : String)
  deriving Repr, Inhabited

/-- A program is its statements in order. -/
abbrev Program := List Stmt

end TinyBasic
