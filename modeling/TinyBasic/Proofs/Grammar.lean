import TinyBasic.Syntax.Parser
/-!
# The grammar, as relations on token lists

The language of the dialect, said without the parser. Each rule is a relation
`R ts x r`: the token list `ts` begins with a phrase of the rule that stands for `x`, and `r` is
what follows it. A phrase is therefore what `ts` has that `r` has not, and rules compose by
handing on the rest, which spares every statement a list concatenation.

```
program     ::= {NEWLINE} {statement} EOF
statement   ::= PRINT (STRING | expression) break
              | IF comparison THEN break {statement} ENDIF break
              | WHILE comparison REPEAT break {statement} ENDWHILE break
              | LABEL IDENTIFIER break | GOTO IDENTIFIER break
              | LET IDENTIFIER "=" expression break | INPUT IDENTIFIER break
comparison  ::= expression relop expression {relop expression}
expression  ::= term {("+" | "-") term}
term        ::= unary {("*" | "/") unary}
unary       ::= ["+" | "-"] primary
primary     ::= NUMBER | IDENTIFIER
break       ::= NEWLINE {NEWLINE}
```

The relations are those of a context-free grammar: a repetition may stop anywhere, so a phrase
need not be the longest one the tokens allow. That the parser's greedy choices agree with them
on whole programs is proved elsewhere.

* `FactorOf`, `ChainOf`, `TermOf`, `ExprOf`, `ComparisonOf` for the expression levels;
  `ChainOf` is the one repetition `{op item}` that all three levels share.
* `BlankOf` and `BreakOf` for runs of line breaks.
* `StmtOf` and `BlockOf`, one statement and a run of statements.
* `SentenceOf ts prog`: the whole of `ts` is a program with the statements `prog`.
-/

namespace TinyBasic

/-- The operand a token stands for: a number as written, or a variable. -/
def Atom.ofToken? (t : Token) : Option Atom :=
  match t.kind with
  | .number => some (.number t.text)
  | .identifier => some (.var t.text)
  | _ => none

/-! ## Expressions -/

/-- The tokens of an optional sign: none, or one sign token. -/
def SignTokens : List Token → Option Sign → Prop
  | [], none => True
  | [t], some s => Sign.ofKind t.kind = some s
  | _, _ => False

/-- `unary ::= ["+" | "-"] primary`. -/
inductive FactorOf : List Token → Factor → List Token → Prop where
  | bare {t : Token} {a : Atom} {r : List Token} (ha : Atom.ofToken? t = some a) :
      FactorOf (t :: r) ⟨none, a⟩ r
  | signed {s t : Token} {sg : Sign} {a : Atom} {r : List Token}
      (hs : Sign.ofKind s.kind = some sg) (ha : Atom.ofToken? t = some a) :
      FactorOf (s :: t :: r) ⟨some sg, a⟩ r

theorem FactorOf.of_sign {pre : List Token} {sg : Option Sign} {t : Token} {a : Atom}
    {r : List Token} (hpre : SignTokens pre sg) (ha : Atom.ofToken? t = some a) :
    FactorOf (pre ++ t :: r) ⟨sg, a⟩ r := by
  match pre, sg, hpre with
  | [], none, _ => exact .bare ha
  | [s], some _, hs => exact .signed hs ha

/-- `{op item}`: operator tokens that `op` reads, each followed by an `item`. -/
inductive ChainOf {O E : Type} (op : Kind → Option O) (item : List Token → E → List Token → Prop) :
    List Token → List (O × E) → List Token → Prop where
  | nil {r : List Token} : ChainOf op item r [] r
  | cons {t : Token} {r₁ r₂ r₃ : List Token} {o : O} {e : E} {es : List (O × E)}
      (ho : op t.kind = some o) (he : item r₁ e r₂) (hes : ChainOf op item r₂ es r₃) :
      ChainOf op item (t :: r₁) ((o, e) :: es) r₃

/-- `term ::= unary {("*" | "/") unary}`. -/
inductive TermOf : List Token → Term → List Token → Prop where
  | mk {r₁ r₂ r₃ : List Token} {f : Factor} {fs : List (MulOp × Factor)}
      (hf : FactorOf r₁ f r₂) (hfs : ChainOf MulOp.ofKind FactorOf r₂ fs r₃) :
      TermOf r₁ ⟨f, fs⟩ r₃

/-- `expression ::= term {("+" | "-") term}`. -/
inductive ExprOf : List Token → Expr → List Token → Prop where
  | mk {r₁ r₂ r₃ : List Token} {t : Term} {ts : List (AddOp × Term)}
      (ht : TermOf r₁ t r₂) (hts : ChainOf AddOp.ofKind TermOf r₂ ts r₃) :
      ExprOf r₁ ⟨t, ts⟩ r₃

/-- `comparison ::= expression relop expression {relop expression}`. -/
inductive ComparisonOf : List Token → Comparison → List Token → Prop where
  | mk {r₁ r₂ r₃ r₄ : List Token} {t : Token} {l r : Expr} {rel : Relation}
      {more : List (Relation × Expr)}
      (hl : ExprOf r₁ l (t :: r₂)) (hrel : Relation.ofKind t.kind = some rel)
      (hr : ExprOf r₂ r r₃) (hmore : ChainOf Relation.ofKind ExprOf r₃ more r₄) :
      ComparisonOf r₁ ⟨l, rel, r, more⟩ r₄

/-! ## Line breaks -/

/-- `{NEWLINE}`. -/
inductive BlankOf : List Token → List Token → Prop where
  | nil {r : List Token} : BlankOf r r
  | cons {t : Token} {r₁ r₂ : List Token} (ht : t.kind = .newline) (hr : BlankOf r₁ r₂) :
      BlankOf (t :: r₁) r₂

/-- `break ::= NEWLINE {NEWLINE}`. -/
inductive BreakOf : List Token → List Token → Prop where
  | mk {t : Token} {r₁ r₂ : List Token} (ht : t.kind = .newline) (hr : BlankOf r₁ r₂) :
      BreakOf (t :: r₁) r₂

/-! ## Statements and programs -/

mutual

/-- One statement with the line break that ends it. -/
inductive StmtOf : List Token → Stmt → List Token → Prop where
  | printText {p s : Token} {r₁ r₂ : List Token} (hp : p.kind = .printKw)
      (hs : s.kind = .string) (hb : BreakOf r₁ r₂) :
      StmtOf (p :: s :: r₁) (.printText s.text) r₂
  | printValue {p : Token} {r₁ r₂ r₃ : List Token} {e : Expr} (hp : p.kind = .printKw)
      (he : ExprOf r₁ e r₂) (hb : BreakOf r₂ r₃) :
      StmtOf (p :: r₁) (.printValue e) r₃
  | ifThen {i th en : Token} {r₁ r₂ r₃ r₄ r₅ : List Token} {c : Comparison} {body : List Stmt}
      (hi : i.kind = .ifKw) (hc : ComparisonOf r₁ c (th :: r₂)) (hth : th.kind = .thenKw)
      (hb : BreakOf r₂ r₃) (hbody : BlockOf r₃ body (en :: r₄)) (hen : en.kind = .endifKw)
      (hb' : BreakOf r₄ r₅) :
      StmtOf (i :: r₁) (.ifThen c body) r₅
  | whileRepeat {i th en : Token} {r₁ r₂ r₃ r₄ r₅ : List Token} {c : Comparison}
      {body : List Stmt} (hi : i.kind = .whileKw) (hc : ComparisonOf r₁ c (th :: r₂))
      (hth : th.kind = .repeatKw) (hb : BreakOf r₂ r₃) (hbody : BlockOf r₃ body (en :: r₄))
      (hen : en.kind = .endwhileKw) (hb' : BreakOf r₄ r₅) :
      StmtOf (i :: r₁) (.whileRepeat c body) r₅
  | label {l n : Token} {r₁ r₂ : List Token} (hl : l.kind = .labelKw)
      (hn : n.kind = .identifier) (hb : BreakOf r₁ r₂) :
      StmtOf (l :: n :: r₁) (.label n.text) r₂
  | goto {g n : Token} {r₁ r₂ : List Token} (hg : g.kind = .gotoKw)
      (hn : n.kind = .identifier) (hb : BreakOf r₁ r₂) :
      StmtOf (g :: n :: r₁) (.goto n.text) r₂
  | assign {l n q : Token} {r₁ r₂ r₃ : List Token} {e : Expr} (hl : l.kind = .letKw)
      (hn : n.kind = .identifier) (hq : q.kind = .eq) (he : ExprOf r₁ e r₂)
      (hb : BreakOf r₂ r₃) :
      StmtOf (l :: n :: q :: r₁) (.assign n.text e) r₃
  | input {i n : Token} {r₁ r₂ : List Token} (hi : i.kind = .inputKw)
      (hn : n.kind = .identifier) (hb : BreakOf r₁ r₂) :
      StmtOf (i :: n :: r₁) (.input n.text) r₂

/-- `{statement}`. -/
inductive BlockOf : List Token → List Stmt → List Token → Prop where
  | nil {r : List Token} : BlockOf r [] r
  | cons {r₁ r₂ r₃ : List Token} {s : Stmt} {ss : List Stmt} (hs : StmtOf r₁ s r₂)
      (hss : BlockOf r₂ ss r₃) :
      BlockOf r₁ (s :: ss) r₃

end

/-- `program ::= {NEWLINE} {statement} EOF`: the whole of `ts` is a program. -/
inductive SentenceOf : List Token → Program → Prop where
  | mk {ts r : List Token} {e : Token} {prog : Program} (hblank : BlankOf ts r)
      (hprog : BlockOf r prog [e]) (he : e.kind = .eof) :
      SentenceOf ts prog

end TinyBasic
