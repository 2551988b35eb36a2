import TinyBasic.Text.Escape
/-!
# Diagnostics

Why compiling stopped, where, and how the report reads. A diagnostic is a `Problem` (the
cause, with the data the text needs), an optional `Location` and an optional copy of the
source line. Its report is

```
file:line:column: error: <text>
    <source line>
    <spaces>^
hint: <hint>
```

where the second and third lines need both a location and a source line, the caret needs a
positive column, and the hint line needs a non-empty hint.

* `Problem.text` and `Problem.hint` give the wording of each cause.
* `Diagnostic.render` lays out the whole report.
-/

namespace TinyBasic

/-- A place in a named source. Lines and columns count from 1; a column below 1 is reported
without a caret. -/
structure Location where
  file : String
  line : Int
  column : Int
  deriving DecidableEq, Repr, Inhabited

/-- The place as `file:line:column`. -/
def Location.render (l : Location) : String :=
  l.file ++ ":" ++ toString l.line ++ ":" ++ toString l.column

/-- The broad family of a diagnostic: the stream, the grammar, the scoping rules, the output
buffer, or none of these. -/
inductive Family where
  | general
  | lexical
  | grammar
  | semantic
  | output
  deriving DecidableEq, Repr, Inhabited

/-- Why compiling stopped. -/
inductive Problem where
  /-- A character that starts no token. -/
  | unknownCharacter (c : Char)
  /-- A `!` that is not followed by `=`; `next` is the character after it, if any. -/
  | loneBang (next : Option Char)
  /-- A character that a string literal may not hold, given as text. -/
  | stringCharacter (c : String)
  /-- A number whose point has no digit after it; `text` runs from its first digit to the
  point. -/
  | bareFraction (text : String)
  /-- A token that starts nothing here; `expected` says what could have stood there. -/
  | unexpected (found : String) (expected : Option String) (hint : Option String)
  /-- A token of one kind was needed and another was found. -/
  | missing (expected found : String) (hint : Option String)
  /-- A condition without a comparison operator. -/
  | noComparison (found : String)
  /-- A variable read before it is assigned; `similar` are assigned names close to it. -/
  | unassignedRead (name : String) (similar : List String)
  /-- A label declared a second time; `first` is where it was declared first. -/
  | labelRedeclared (name : String) (first : Option Location)
  /-- A jump to a label that no statement declares. -/
  | missingLabel (name : String)
  /-- Any other problem of a family, with its own text and hint. -/
  | other (family : Family) (text : String) (hint : Option String)
  deriving Repr, Inhabited

/-- The upper-case hexadecimal digits of `n`, at least two of them. -/
def upperHex (n : Nat) : String :=
  String.ofList ((Text.hexDigits 2 n).map Char.toUpper)

/-- The text shown for the character after a lone `!`: nothing at the end of the text or for
NUL, else the character in plain ASCII. -/
def bangFollower : Option Char → String
  | none => ""
  | some c => if c = '\x00' then "" else Text.asciiEscape (String.singleton c)

namespace Problem

/-- The family of each problem. -/
def family : Problem → Family
  | unknownCharacter _ | loneBang _ | stringCharacter _ | bareFraction _ => .lexical
  | unexpected .. | missing .. | noComparison _ => .grammar
  | unassignedRead .. | labelRedeclared .. | missingLabel _ => .semantic
  | other f _ _ => f

/-- The first line of the report, after `error: `. -/
def text : Problem → String
  | unknownCharacter c => "unknown token '" ++ String.singleton c ++ "' (0x" ++ upperHex c.toNat ++ ")"
  | loneBang next => "expected '!=', got '!" ++ bangFollower next ++ "'"
  | stringCharacter c => "illegal character " ++ Text.quote c ++ " in string"
  | bareFraction t => "illegal character in number '" ++ t ++ "'"
  | unexpected found _ _ => "unexpected token " ++ found
  | missing expected found _ => "expected " ++ expected ++ ", got " ++ found
  | noComparison found => "expected comparison operator at " ++ found
  | unassignedRead name _ => "referencing variable before assignment: '" ++ name ++ "'"
  | labelRedeclared name _ => "label already exists: '" ++ name ++ "'"
  | missingLabel name => "attempting to GOTO undeclared label: '" ++ name ++ "'"
  | other _ t _ => t

/-- The names offered for an undeclared variable, at most three, each in single quotes. -/
def suggestion (similar : List String) : String :=
  "did you mean " ++ ", ".intercalate ((similar.take 3).map fun s => "'" ++ s ++ "'") ++ "?"

/-- The hint of a problem, if it has one. An unexpected token with no hint of its own hints
at what was expected, when that is said. -/
def hint : Problem → Option String
  | unknownCharacter _ => none
  | loneBang _ => some "'!' is only valid as part of '!='"
  | stringCharacter c =>
    if c = "\n" then some "add closing '\"' before the end of the line" else none
  | bareFraction _ => some "write at least one digit after the decimal point"
  | unexpected _ expected hint =>
    match hint, expected with
    | some h, _ => some h
    | none, some e => if e.isEmpty then none else some ("expected " ++ e)
    | none, none => none
  | missing _ _ hint => hint
  | noComparison _ => some "use one of ==, !=, <, <=, >, >="
  | unassignedRead name similar =>
    if similar.isEmpty then some ("assign '" ++ name ++ "' with LET or INPUT before using it")
    else some (suggestion similar)
  | labelRedeclared name first => first.map fun l => "'" ++ name ++ "' was first declared at " ++ l.render
  | missingLabel name => some ("add 'LABEL " ++ name ++ "' somewhere in the program")
  | other _ _ hint => hint

end Problem

/-- A problem with the place it was found and the text of the line there. -/
structure Diagnostic where
  problem : Problem
  location : Option Location := none
  sourceLine : Option String := none
  deriving Repr, Inhabited

namespace Diagnostic

/-- The lines of the report. -/
def lines (d : Diagnostic) : List String :=
  let head := match d.location with
    | some l => l.render ++ ": error: " ++ d.problem.text
    | none => "error: " ++ d.problem.text
  let context := match d.location, d.sourceLine with
    | some l, some s =>
      ("    " ++ s) ::
        (if 0 < l.column then [String.ofList (List.replicate (3 + l.column.toNat) ' ') ++ "^"] else [])
    | _, _ => []
  let hint := match d.problem.hint with
    | some h => if h.isEmpty then [] else ["hint: " ++ h]
    | none => []
  head :: context ++ hint

/-- The whole report, its lines joined by line feeds. -/
def render (d : Diagnostic) : String :=
  "\n".intercalate d.lines

end Diagnostic

end TinyBasic
