import TinyBasic.Syntax
import TinyBasic.Token.Window
import TinyBasic.Text.Levenshtein
import TinyBasic.Target.Buffer
import TinyBasic.Target.Fragments
/-!
# Reading programs

Recursive descent over the token window that emits the C text as it reads, with the scoping
rules checked on the way:

* a variable is assigned by its first `LET` or `INPUT`, and may be read only after that (the
  target of a `LET` counts as assigned in its own right-hand side);
* no two `LABEL` statements share a name;
* every `GOTO` names some label of the program, which is checked once the whole program has
  been read, so that jumps may go forward.

Each reader takes the window at its first token and returns what it read with the window after
it, in a subtype that says the window moved on (`Window.After`) or at least did not move back
(`Window.NotBefore`). That is what makes the readers total.

The C text goes into a buffer the readers carry along: each statement adds its body fragments
as its tokens are read, and the first assignment of a variable adds its declaration to the
prologue while the body is still being written. An expression's fragments, one per token, are
added once the expression has been read, since nothing else is emitted meanwhile.

* `Scope` holds the names met so far, the precision numbers are printed with, and the buffer.
* `Factor.read`, `Term.read`, `Expr.read`, `Comparison.read` read the expression levels.
* `Stmt.read` reads one statement with its line break, `Stmt.readBlock` the statements of a
  block up to its closing keyword.
* `Program.parse` reads a whole source.
-/

namespace TinyBasic

/-- What the translator keeps while it reads: the names declared so far (variables in the
order of their first assignment, labels in the order of declaration with where they were
declared, and the targets of jumps in source order with where the jump stands), the precision
`PRINT` shows numbers with, and the buffer the C text goes into. -/
structure Scope where
  assigned : List String := []
  labels : List (String × Location) := []
  jumps : List (String × Location) := []
  precision : Precision := default
  out : Buffer := {}
  deriving Repr, Inhabited

namespace Scope

/-- Adds a fragment to the body. The buffer is finished only after the whole program has been
read, so the addition is the buffer's own (`Buffer.append_of_open`). -/
def emit (sc : Scope) (code : String) : Scope :=
  { sc with out := sc.out.push code }

/-- Adds a fragment and a line feed to the body. -/
def emitLine (sc : Scope) (code : String) : Scope :=
  sc.emit (code ++ "\n")

/-- Adds fragments to the body one after another: the texts of an expression's tokens. -/
def emitAll (sc : Scope) (codes : List String) : Scope :=
  codes.foldl emit sc

/-- Adds a line to the prologue. -/
def emitHeader (sc : Scope) (code : String) : Scope :=
  { sc with out := sc.out.pushHeader code }

/-- Assigns a variable; the first assignment declares it in the prologue, and a name already
assigned keeps its place. -/
def declare (sc : Scope) (name : String) : Scope :=
  if sc.assigned.contains name then sc
  else { sc with assigned := sc.assigned ++ [name] }.emitHeader ("float " ++ name ++ ";")

/-- The translator before it reads: the prologue's first two lines are emitted. -/
def initial (p : Precision) : Scope :=
  (({ precision := p } : Scope).emitHeader "#include <stdio.h>").emitHeader "int main(void) \x7b"

section Emission

variable (sc : Scope) (code : String)

/-! Emitting touches the buffer only. -/

@[simp] theorem emit_assigned : (sc.emit code).assigned = sc.assigned := rfl
@[simp] theorem emit_labels : (sc.emit code).labels = sc.labels := rfl
@[simp] theorem emit_jumps : (sc.emit code).jumps = sc.jumps := rfl
@[simp] theorem emit_precision : (sc.emit code).precision = sc.precision := rfl
@[simp] theorem emit_out : (sc.emit code).out = sc.out.push code := rfl

@[simp] theorem emitLine_eq : sc.emitLine code = sc.emit (code ++ "\n") := rfl

@[simp] theorem emitHeader_assigned : (sc.emitHeader code).assigned = sc.assigned := rfl
@[simp] theorem emitHeader_labels : (sc.emitHeader code).labels = sc.labels := rfl
@[simp] theorem emitHeader_jumps : (sc.emitHeader code).jumps = sc.jumps := rfl
@[simp] theorem emitHeader_precision : (sc.emitHeader code).precision = sc.precision := rfl
@[simp] theorem emitHeader_out : (sc.emitHeader code).out = sc.out.pushHeader code := rfl

/-- Emitting fragments one after another adds them, in order, to the body. -/
theorem emitAll_eq (codes : List String) :
    sc.emitAll codes = { sc with out := { sc.out with body := sc.out.body ++ codes } } := by
  induction codes generalizing sc with
  | nil => simp [emitAll]
  | cons c cs ih =>
    show (sc.emit c).emitAll cs = _
    rw [ih]
    simp [emit, Buffer.push]

variable (codes : List String)

@[simp] theorem emitAll_assigned : (sc.emitAll codes).assigned = sc.assigned := by
  rw [emitAll_eq]
@[simp] theorem emitAll_labels : (sc.emitAll codes).labels = sc.labels := by
  rw [emitAll_eq]
@[simp] theorem emitAll_jumps : (sc.emitAll codes).jumps = sc.jumps := by
  rw [emitAll_eq]
@[simp] theorem emitAll_precision : (sc.emitAll codes).precision = sc.precision := by
  rw [emitAll_eq]
@[simp] theorem emitAll_out :
    (sc.emitAll codes).out = { sc.out with body := sc.out.body ++ codes } := by
  rw [emitAll_eq]

/-- Assigning a variable declares no label. -/
@[simp] theorem declare_labels (name : String) : (sc.declare name).labels = sc.labels := by
  unfold declare
  split <;> rfl

end Emission

/-- Where a label was declared, if it was. -/
def labelAt? (sc : Scope) (name : String) : Option Location :=
  sc.labels.lookup name

/-- Declares a label at a location. -/
def addLabel (sc : Scope) (name : String) (l : Location) : Scope :=
  { sc with labels := sc.labels ++ [(name, l)] }

@[simp] theorem addLabel_assigned (sc : Scope) (name : String) (l : Location) :
    (sc.addLabel name l).assigned = sc.assigned := rfl

@[simp] theorem addLabel_labels (sc : Scope) (name : String) (l : Location) :
    (sc.addLabel name l).labels = sc.labels ++ [(name, l)] := rfl

/-- Records a jump to a label from a location. -/
def addJump (sc : Scope) (name : String) (l : Location) : Scope :=
  { sc with jumps := sc.jumps ++ [(name, l)] }

/-- The first jump, in source order, whose label is never declared. -/
def danglingJump? (sc : Scope) : Option (String × Location) :=
  sc.jumps.find? fun j => (sc.labelAt? j.1).isNone

@[simp] theorem emit_danglingJump? (sc : Scope) (code : String) :
    (sc.emit code).danglingJump? = sc.danglingJump? := rfl

/-- A name in lower case; names are made of ASCII letters. -/
def fold (name : String) : String :=
  name.map Char.toLower

/-- Orders candidates by distance, then by name. -/
def closer (a b : Nat × String) : Bool :=
  a.1 < b.1 || (a.1 == b.1 && decide (a.2 ≤ b.2))

/-- The assigned variables that may be meant by `name`: those whose length differs by at most
one and whose edit distance, ignoring case, is at most two; closest first, then by name, at
most three. -/
def similar (sc : Scope) (name : String) : List String :=
  let near := sc.assigned.filterMap fun v =>
    if v.length + 1 < name.length || name.length + 1 < v.length then none
    else
      let d := Text.distance (fold name) (fold v)
      if d ≤ 2 then some (d, v) else none
  ((near.mergeSort closer).take 3).map (·.2)

end Scope

/-- The sign a token kind writes, if it is one. -/
def Sign.ofKind : Kind → Option Sign
  | .plus => some .plus
  | .minus => some .minus
  | _ => none

/-- The additive operator a token kind writes, if it is one. -/
def AddOp.ofKind : Kind → Option AddOp
  | .plus => some .add
  | .minus => some .sub
  | _ => none

/-- The multiplicative operator a token kind writes, if it is one. -/
def MulOp.ofKind : Kind → Option MulOp
  | .asterisk => some .mul
  | .slash => some .div
  | _ => none

/-- The comparison operator a token kind writes, if it is one. -/
def Relation.ofKind : Kind → Option Relation
  | .eqEq => some .eq
  | .notEq => some .ne
  | .lt => some .lt
  | .ltEq => some .le
  | .gt => some .gt
  | .gtEq => some .ge
  | _ => none

/-- A sign is never the end of the text. -/
theorem Sign.ne_eof_of_ofKind {k : Kind} {s : Sign} (h : Sign.ofKind k = some s) : k ≠ .eof := by
  rintro rfl
  simp [Sign.ofKind] at h

/-- An additive operator is never the end of the text. -/
theorem AddOp.ne_eof_of_ofKind {k : Kind} {o : AddOp} (h : AddOp.ofKind k = some o) :
    k ≠ .eof := by
  rintro rfl
  simp [AddOp.ofKind] at h

/-- A multiplicative operator is never the end of the text. -/
theorem MulOp.ne_eof_of_ofKind {k : Kind} {o : MulOp} (h : MulOp.ofKind k = some o) :
    k ≠ .eof := by
  rintro rfl
  simp [MulOp.ofKind] at h

/-- A comparison operator is never the end of the text. -/
theorem Relation.ne_eof_of_ofKind {k : Kind} {r : Relation} (h : Relation.ofKind k = some r) :
    k ≠ .eof := by
  rintro rfl
  simp [Relation.ofKind] at h

/-- An optional sign. -/
def Sign.read? (w : Window) : Except Diagnostic (Option Sign × w.NotBefore) :=
  match h : Sign.ofKind w.current.kind with
  | some s => do
    let ⟨w1, h1⟩ ← w.step (Sign.ne_eof_of_ofKind h)
    pure (some s, ⟨w1, Nat.le_of_lt h1⟩)
  | none => pure (none, ⟨w, Nat.le_refl _⟩)

/-- A factor: an optional sign, then a number or a variable that has been assigned. -/
def Factor.read (sc : Scope) (w : Window) : Except Diagnostic (Factor × w.After) := do
  let (sign, ⟨w1, h1⟩) ← Sign.read? w
  let t := w1.current
  match hk : t.kind with
  | .number =>
    let ⟨w2, h2⟩ ← w1.step (Window.current_ne_eof hk rfl)
    pure (⟨sign, .number t.text⟩, ⟨w2, Nat.lt_of_lt_of_le h2 h1⟩)
  | .identifier =>
    if sc.assigned.contains t.text then
      let ⟨w2, h2⟩ ← w1.step (Window.current_ne_eof hk rfl)
      pure (⟨sign, .var t.text⟩, ⟨w2, Nat.lt_of_lt_of_le h2 h1⟩)
    else throw (w1.diagnose t (.unassignedRead t.text (sc.similar t.text)))
  | _ => throw (w1.diagnose t (.unexpected t.mention (some "a number or variable") none))

/-- The further factors of a term, each after its operator. -/
def Term.readRest (sc : Scope) (w : Window) :
    Except Diagnostic (List (MulOp × Factor) × w.NotBefore) :=
  match h : MulOp.ofKind w.current.kind with
  | some op => do
    let ⟨w1, h1⟩ ← w.step (MulOp.ne_eof_of_ofKind h)
    let (f, ⟨w2, h2⟩) ← Factor.read sc w1
    let (fs, ⟨w3, h3⟩) ← Term.readRest sc w2
    pure ((op, f) :: fs, ⟨w3, Nat.le_of_lt (Nat.lt_of_le_of_lt h3 (Nat.lt_trans h2 h1))⟩)
  | none => pure ([], ⟨w, Nat.le_refl _⟩)
termination_by w.size

/-- A term: factors joined by `*` and `/`. -/
def Term.read (sc : Scope) (w : Window) : Except Diagnostic (Term × w.After) := do
  let (f, ⟨w1, h1⟩) ← Factor.read sc w
  let (fs, ⟨w2, h2⟩) ← Term.readRest sc w1
  pure (⟨f, fs⟩, ⟨w2, Nat.lt_of_le_of_lt h2 h1⟩)

/-- The further terms of an expression, each after its operator. -/
def Expr.readRest (sc : Scope) (w : Window) :
    Except Diagnostic (List (AddOp × Term) × w.NotBefore) :=
  match h : AddOp.ofKind w.current.kind with
  | some op => do
    let ⟨w1, h1⟩ ← w.step (AddOp.ne_eof_of_ofKind h)
    let (t, ⟨w2, h2⟩) ← Term.read sc w1
    let (ts, ⟨w3, h3⟩) ← Expr.readRest sc w2
    pure ((op, t) :: ts, ⟨w3, Nat.le_of_lt (Nat.lt_of_le_of_lt h3 (Nat.lt_trans h2 h1))⟩)
  | none => pure ([], ⟨w, Nat.le_refl _⟩)
termination_by w.size

/-- An expression: terms joined by `+` and `-`. -/
def Expr.read (sc : Scope) (w : Window) : Except Diagnostic (Expr × w.After) := do
  let (t, ⟨w1, h1⟩) ← Term.read sc w
  let (ts, ⟨w2, h2⟩) ← Expr.readRest sc w1
  pure (⟨t, ts⟩, ⟨w2, Nat.lt_of_le_of_lt h2 h1⟩)

/-- The further links of a comparison chain, each operator with its right operand. -/
def Comparison.readRest (sc : Scope) (w : Window) :
    Except Diagnostic (List (Relation × Expr) × w.NotBefore) :=
  match h : Relation.ofKind w.current.kind with
  | some rel => do
    let ⟨w1, h1⟩ ← w.step (Relation.ne_eof_of_ofKind h)
    let (e, ⟨w2, h2⟩) ← Expr.read sc w1
    let (es, ⟨w3, h3⟩) ← Comparison.readRest sc w2
    pure ((rel, e) :: es, ⟨w3, Nat.le_of_lt (Nat.lt_of_le_of_lt h3 (Nat.lt_trans h2 h1))⟩)
  | none => pure ([], ⟨w, Nat.le_refl _⟩)
termination_by w.size

/-- A comparison: an expression, then at least one comparison operator with its right
operand. -/
def Comparison.read (sc : Scope) (w : Window) : Except Diagnostic (Comparison × w.After) := do
  let (l, ⟨w1, h1⟩) ← Expr.read sc w
  let t := w1.current
  match h : Relation.ofKind t.kind with
  | some rel =>
    let ⟨w2, h2⟩ ← w1.step (Relation.ne_eof_of_ofKind h)
    let (r, ⟨w3, h3⟩) ← Expr.read sc w2
    let (more, ⟨w4, h4⟩) ← Comparison.readRest sc w3
    pure (⟨l, rel, r, more⟩,
      ⟨w4, Nat.lt_of_le_of_lt h4 (Nat.lt_trans h3 (Nat.lt_trans h2 h1))⟩)
  | none => throw (w1.diagnose t (.noComparison t.mention))

/-- The hint for a token that cannot start a statement: a name followed by `=` is taken for an
assignment without `LET`. -/
def statementHint (t next : Token) : String :=
  if t.kind = .identifier && next.kind = .eq then
    "assignments need LET: 'LET " ++ t.text ++ " = ...'"
  else "a statement starts with PRINT, IF, WHILE, LABEL, GOTO, LET or INPUT"

mutual

/-- One statement and the line break after it, with its C emitted. -/
def Stmt.read (sc : Scope) (w : Window) : Except Diagnostic (Stmt × Scope × w.After) :=
  match hk : w.current.kind with
  | .printKw => do
    let ⟨w1, h1⟩ ← w.step (Window.current_ne_eof hk rfl)
    if hs : w1.current.kind = .string then
      let text := w1.current.text
      let sc := sc.emitLine ("printf(\"" ++ text ++ "\\n\");")
      let ⟨w2, h2⟩ ← w1.step (Window.current_ne_eof hs rfl)
      let ⟨w3, h3⟩ ← w2.lineBreak
      pure (.printText text, sc, ⟨w3, Nat.lt_trans h3 (Nat.lt_trans h2 h1)⟩)
    else
      let sc := sc.emit sc.precision.printOpener
      let (e, ⟨w2, h2⟩) ← Expr.read sc w1
      let sc := (sc.emitAll e.fragments).emitLine "));"
      let ⟨w3, h3⟩ ← w2.lineBreak
      pure (.printValue e, sc, ⟨w3, Nat.lt_trans h3 (Nat.lt_trans h2 h1)⟩)
  | .ifKw => do
    let ⟨w1, h1⟩ ← w.step (Window.current_ne_eof hk rfl)
    let sc := sc.emit "if ("
    let (c, ⟨w2, h2⟩) ← Comparison.read sc w1
    let sc := sc.emitAll c.fragments
    let (_, ⟨w3, h3⟩) ← w2.expect .thenKw rfl (some "conditions end with THEN")
    let ⟨w4, h4⟩ ← w3.lineBreak
    let sc := sc.emitLine ") \x7b"
    let (body, sc, ⟨w5, h5⟩) ← Stmt.readBlock .endifKw "every IF needs a matching ENDIF" sc w4
    let (_, ⟨w6, h6⟩) ← w5.expect .endifKw rfl none
    let sc := sc.emitLine "\x7d"
    let ⟨w7, h7⟩ ← w6.lineBreak
    pure (.ifThen c body, sc, ⟨w7, Nat.lt_trans h7 (Nat.lt_trans h6 (Nat.lt_of_le_of_lt h5
      (Nat.lt_trans h4 (Nat.lt_trans h3 (Nat.lt_trans h2 h1)))))⟩)
  | .whileKw => do
    let ⟨w1, h1⟩ ← w.step (Window.current_ne_eof hk rfl)
    let sc := sc.emit "while ("
    let (c, ⟨w2, h2⟩) ← Comparison.read sc w1
    let sc := sc.emitAll c.fragments
    let (_, ⟨w3, h3⟩) ←
      w2.expect .repeatKw rfl (some "loop conditions end with REPEAT")
    let ⟨w4, h4⟩ ← w3.lineBreak
    let sc := sc.emitLine ") \x7b"
    let (body, sc, ⟨w5, h5⟩) ←
      Stmt.readBlock .endwhileKw "every WHILE needs a matching ENDWHILE" sc w4
    let (_, ⟨w6, h6⟩) ← w5.expect .endwhileKw rfl none
    let sc := sc.emitLine "\x7d"
    let ⟨w7, h7⟩ ← w6.lineBreak
    pure (.whileRepeat c body, sc, ⟨w7, Nat.lt_trans h7 (Nat.lt_trans h6 (Nat.lt_of_le_of_lt h5
      (Nat.lt_trans h4 (Nat.lt_trans h3 (Nat.lt_trans h2 h1)))))⟩)
  | .labelKw => do
    let ⟨w1, h1⟩ ← w.step (Window.current_ne_eof hk rfl)
    let (t, ⟨w2, h2⟩) ← w1.expect .identifier rfl (some "LABEL needs a name")
    -- The name is taken first, so a fault of the stream two tokens on is reported before
    -- a second declaration.
    match sc.labelAt? t.text with
    | some first => throw (w2.diagnose t (.labelRedeclared t.text (some first)))
    | none =>
      let sc := (sc.addLabel t.text (w2.locate t)).emitLine (t.text ++ ":")
      let ⟨w3, h3⟩ ← w2.lineBreak
      pure (.label t.text, sc, ⟨w3, Nat.lt_trans h3 (Nat.lt_trans h2 h1)⟩)
  | .gotoKw => do
    let ⟨w1, h1⟩ ← w.step (Window.current_ne_eof hk rfl)
    let (t, ⟨w2, h2⟩) ← w1.expect .identifier rfl (some "GOTO needs a label name")
    let sc := (sc.addJump t.text (w2.locate t)).emitLine ("goto " ++ t.text ++ ";")
    let ⟨w3, h3⟩ ← w2.lineBreak
    pure (.goto t.text, sc, ⟨w3, Nat.lt_trans h3 (Nat.lt_trans h2 h1)⟩)
  | .letKw => do
    let ⟨w1, h1⟩ ← w.step (Window.current_ne_eof hk rfl)
    let (t, ⟨w2, h2⟩) ← w1.expect .identifier rfl (some "LET needs a variable name")
    -- The target counts as assigned in its own right-hand side.
    let sc := (sc.declare t.text).emit (t.text ++ " = ")
    let (_, ⟨w3, h3⟩) ← w2.expect .eq rfl none
    let (e, ⟨w4, h4⟩) ← Expr.read sc w3
    let sc := (sc.emitAll e.fragments).emitLine ";"
    let ⟨w5, h5⟩ ← w4.lineBreak
    pure (.assign t.text e, sc,
      ⟨w5, Nat.lt_trans h5 (Nat.lt_trans h4 (Nat.lt_trans h3 (Nat.lt_trans h2 h1)))⟩)
  | .inputKw => do
    let ⟨w1, h1⟩ ← w.step (Window.current_ne_eof hk rfl)
    let (t, ⟨w2, h2⟩) ← w1.expect .identifier rfl (some "INPUT needs a variable name")
    -- A word that is not a number reads as zero and is skipped.
    let sc := (sc.declare t.text).emitLine ("if (0 == scanf(\"%f\", &" ++ t.text ++ ")) \x7b")
    let sc := ((sc.emitLine (t.text ++ " = 0;")).emitLine "scanf(\"%*s\");").emitLine "\x7d"
    let ⟨w3, h3⟩ ← w2.lineBreak
    pure (.input t.text, sc, ⟨w3, Nat.lt_trans h3 (Nat.lt_trans h2 h1)⟩)
  | _ =>
    let t := w.current
    throw (w.diagnose t (.unexpected t.mention (some "statement") (some (statementHint t w.peek))))
termination_by (w.size, 0)

/-- The statements of a block, up to its closing keyword `stop`, which stays current. The end
of the text before it is reported with `hint`. -/
def Stmt.readBlock (stop : Kind) (hint : String) (sc : Scope) (w : Window) :
    Except Diagnostic (List Stmt × Scope × w.NotBefore) :=
  if w.current.kind = stop then pure ([], sc, ⟨w, Nat.le_refl _⟩)
  else if w.current.kind = .eof then
    throw (w.diagnose w.current (.missing stop.name w.current.mention (some hint)))
  else do
    let (s, sc, ⟨w1, h1⟩) ← Stmt.read sc w
    let (ss, sc, ⟨w2, h2⟩) ← Stmt.readBlock stop hint sc w1
    pure (s :: ss, sc, ⟨w2, Nat.le_of_lt (Nat.lt_of_le_of_lt h2 h1)⟩)
termination_by (w.size, 1)

end

/-- The statements up to the end of the text. -/
def Program.readFrom (sc : Scope) (w : Window) :
    Except Diagnostic (Program × Scope × w.NotBefore) :=
  if w.current.kind = .eof then pure ([], sc, ⟨w, Nat.le_refl _⟩)
  else do
    let (s, sc, ⟨w1, h1⟩) ← Stmt.read sc w
    let (ss, sc, ⟨w2, h2⟩) ← Program.readFrom sc w1
    pure (s :: ss, sc, ⟨w2, Nat.le_of_lt (Nat.lt_of_le_of_lt h2 h1)⟩)
termination_by w.size

/-- A program that has been read and checked: its statements, its variables in the order of
first assignment, its labels in the order of declaration, how many tokens were read, the end
included, and the buffer its C text was emitted into. -/
structure Parsed where
  program : Program
  assigned : List String
  labels : List String
  tokenCount : Nat
  out : Buffer
  deriving Repr, Inhabited

/-- Reads and checks a whole source, emitting its C with numbers printed at precision `p`: the
prologue's first lines, then empty lines, the statements, the end of the text, and the end of
`main`; then every jump's label is checked. -/
def Program.parse (p : Precision) (file source : String) : Except Diagnostic Parsed := do
  let s := TokenStream.start file source
  let w ← Window.start s
  let ⟨w, _⟩ ← w.skipNewlines
  let (prog, sc, ⟨w, _⟩) ← Program.readFrom (Scope.initial p) w
  let sc := (sc.emitLine "return 0;").emitLine "\x7d"
  match sc.danglingJump? with
  | some (name, l) =>
    throw { problem := .missingLabel name, location := some l, sourceLine := s.lineText l.line }
  | none => pure ⟨prog, sc.assigned, sc.labels.map (·.1), w.taken, sc.out⟩

end TinyBasic
