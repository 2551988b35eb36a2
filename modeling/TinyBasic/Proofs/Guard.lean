import TinyBasic.Proofs.Scoping
/-!
# `IF` and `WHILE`

The statement reader reads `IF` and `WHILE` alike: the keyword, a comparison, a separator
keyword and a line break, a block up to a closing keyword, then that keyword and its line break.
The two differ only in their keywords, in the hints of their errors and in the statement they
build.

* `Guard` names the two statements, with the data that tells them apart.
* `Stmt.readGuarded` is the reader they share, in any monad that the readers can be run in.
* `Stmt.read_of_guard`: at either keyword, `Stmt.read` is this reader.
* `StmtOf.guard` and `Guard.marks_make` give the grammar rule of the statement and the names it
  mentions.

A property of the statement reader is proved once for both statements, about
`Stmt.readGuarded`.
-/

namespace TinyBasic

/-- The two statements guarded by a comparison, `IF` and `WHILE`. -/
inductive Guard where
  | ifThen
  | whileRepeat

namespace Guard

/-- The keyword that starts the statement. -/
def keyword : Guard → Kind
  | ifThen => .ifKw
  | whileRepeat => .whileKw

/-- The keyword that ends the comparison. -/
def sep : Guard → Kind
  | ifThen => .thenKw
  | whileRepeat => .repeatKw

/-- The hint given when the comparison is not followed by `sep`. -/
def sepHint : Guard → String
  | ifThen => "conditions end with THEN"
  | whileRepeat => "loop conditions end with REPEAT"

/-- The keyword that closes the body. -/
def stop : Guard → Kind
  | ifThen => .endifKw
  | whileRepeat => .endwhileKw

/-- The hint given when the text ends before `stop`. -/
def stopHint : Guard → String
  | ifThen => "every IF needs a matching ENDIF"
  | whileRepeat => "every WHILE needs a matching ENDWHILE"

/-- The C text that opens the statement, before its condition. -/
def opener : Guard → String
  | ifThen => "if ("
  | whileRepeat => "while ("

/-- The statement built from the comparison and the body. -/
def make : Guard → Comparison → List Stmt → Stmt
  | ifThen => .ifThen
  | whileRepeat => .whileRepeat

theorem sep_isEnd (g : Guard) : g.sep.isEnd = false := by
  cases g <;> rfl

theorem stop_isEnd (g : Guard) : g.stop.isEnd = false := by
  cases g <;> rfl

theorem ne_eof {g : Guard} {w : Window} (hk : w.current.kind = g.keyword) :
    w.current.kind ≠ .eof := by
  cases g <;> exact Window.current_ne_eof hk rfl

/-- The statement mentions the names of its comparison, then those of its body. -/
theorem marks_make (g : Guard) (c : Comparison) (body : List Stmt) :
    (g.make c body).marks = c.marks ++ Stmt.blockMarks body := by
  cases g <;> rfl

end Guard

/-- The statement `g` in the grammar, from its parts. -/
theorem StmtOf.guard {g : Guard} {i th en : Token} {r₁ r₂ r₃ r₄ r₅ : List Token}
    {c : Comparison} {body : List Stmt} (hi : i.kind = g.keyword)
    (hc : ComparisonOf r₁ c (th :: r₂)) (hth : th.kind = g.sep) (hb : BreakOf r₂ r₃)
    (hbody : BlockOf r₃ body (en :: r₄)) (hen : en.kind = g.stop) (hb' : BreakOf r₄ r₅) :
    StmtOf (i :: r₁) (g.make c body) r₅ := by
  cases g
  · exact .ifThen hi hc hth hb hbody hen hb'
  · exact .whileRepeat hi hc hth hb hbody hen hb'

/-- The reader of the statement `g` at its keyword: the keyword, the comparison, `g.sep` and a
line break, the body that `block` reads up to `g.stop`, then `g.stop` and a line break, emitting
`g.opener`, the comparison's tokens and `) {` before the body and `}` after it. It runs in any
monad that `lift` runs the readers in. -/
def Stmt.readGuarded {m : Type → Type} [Monad m] (lift : {α : Type} → Except Diagnostic α → m α)
    (block : Kind → String → Scope → (v : Window) → m (List Stmt × Scope × v.NotBefore))
    (g : Guard) (sc : Scope) (w : Window) (hk : w.current.kind = g.keyword) :
    m (Stmt × Scope × w.After) := do
  let w1 ← lift (w.step (Guard.ne_eof hk))
  let sc := sc.emit g.opener
  let cond ← lift (Comparison.read sc w1.1)
  let sc := sc.emitAll cond.1.fragments
  let w3 ← lift (cond.2.1.expect g.sep g.sep_isEnd (some g.sepHint))
  let w4 ← lift w3.2.1.lineBreak
  let sc := sc.emitLine ") \x7b"
  let body ← block g.stop g.stopHint sc w4.1
  let w6 ← lift (body.2.2.1.expect g.stop g.stop_isEnd none)
  let sc := body.2.1.emitLine "\x7d"
  let w7 ← lift w6.2.1.lineBreak
  pure (g.make cond.1 body.1, sc, ⟨w7.1, Nat.lt_trans w7.2 (Nat.lt_trans w6.2.2
    (Nat.lt_of_le_of_lt body.2.2.2 (Nat.lt_trans w4.2 (Nat.lt_trans w3.2.2
      (Nat.lt_trans cond.2.2 w1.2)))))⟩)

/-- At `IF` and at `WHILE`, the statement reader is the guarded reader. -/
theorem Stmt.read_of_guard {sc : Scope} {w : Window} (g : Guard)
    (hk : w.current.kind = g.keyword) :
    Stmt.read sc w = Stmt.readGuarded (fun x => x) Stmt.readBlock g sc w hk := by
  have hk' := hk
  cases g <;> simp only [Guard.keyword] at hk' <;> rw [Stmt.read] <;> split
  all_goals first
    | rfl
    | (rename_i h; rw [hk'] at h; cases h)
    | exact absurd hk' ‹_›

end TinyBasic
