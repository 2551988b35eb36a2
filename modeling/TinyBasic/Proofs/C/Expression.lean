import TinyBasic.Proofs.C.Lexer
import TinyBasic.Target.Fragments
/-!
# C expressions

The part of the C17 expression grammar (6.5) that tokens of identifiers, constants and the
operators `+ - * /` can form, with the tree each derivation builds.

```
unary          ::= identifier | constant | ( + | - ) unary
multiplicative ::= unary | multiplicative ( * | / ) unary
additive       ::= multiplicative | additive ( + | - ) multiplicative
```

Without parentheses a cast expression is a unary expression, so `unary` stands for both. The
rules are left recursive as in the standard: `MultiplicativeOf ts e` and `AdditiveOf ts e` say
that all of `ts` derives the tree `e`.

* A constant is spelled with digits and at most one point (6.4.4): with a point it is a decimal
  floating constant, without one an integer constant, octal when it starts with `0`, so that
  every digit after the `0` must be below `8`.
* `AdditiveOf.unique`: the grammar is unambiguous. A `+` or `-` token is a binary operator
  exactly when it follows an operand; in a multiplicative expression none does, so the last
  such token of an additive expression is where it splits.
-/

namespace TinyBasic

/-- The token of a sign, a unary operator of C. -/
def Sign.token (s : Sign) : C.Token :=
  .punctuator s.text.toList

/-- The token of a multiplicative operator. -/
def MulOp.token (o : MulOp) : C.Token :=
  .punctuator o.text.toList

/-- The token of an additive operator. -/
def AddOp.token (o : AddOp) : C.Token :=
  .punctuator o.text.toList

@[simp] theorem Sign.token_spelling (s : Sign) : s.token.spelling = s.text.toList :=
  rfl

@[simp] theorem MulOp.token_spelling (o : MulOp) : o.token.spelling = o.text.toList :=
  rfl

@[simp] theorem AddOp.token_spelling (o : AddOp) : o.token.spelling = o.text.toList :=
  rfl

theorem Sign.token_injective {s s' : Sign} (h : s.token = s'.token) : s = s' := by
  cases s <;> cases s' <;> simp_all [Sign.token, Sign.text]

theorem MulOp.token_injective {o o' : MulOp} (h : o.token = o'.token) : o = o' := by
  cases o <;> cases o' <;> simp_all [MulOp.token, MulOp.text]

theorem AddOp.token_injective {o o' : AddOp} (h : o.token = o'.token) : o = o' := by
  cases o <;> cases o' <;> simp_all [AddOp.token, AddOp.text]

theorem MulOp.token_ne_sign (o : MulOp) (s : Sign) : o.token ≠ s.token := by
  cases o <;> cases s <;> simp [MulOp.token, Sign.token, MulOp.text, Sign.text]

namespace C

/-- An operand token: an identifier or a number. -/
def Token.isOperand : Token → Bool
  | .identifier _ | .number _ => true
  | .punctuator _ => false

@[simp] theorem Sign.token_isOperand (s : Sign) : s.token.isOperand = false := rfl

@[simp] theorem MulOp.token_isOperand (o : MulOp) : o.token.isOperand = false := rfl

@[simp] theorem AddOp.token_isOperand (o : AddOp) : o.token.isOperand = false := rfl

/-- The octal digits. -/
def isOctalDigit (c : Char) : Bool :=
  '0' ≤ c && c ≤ '7'

/-- An integer constant spelled with digits: decimal, or octal when it starts with `0`. -/
def isIntegerConstant : List Char → Bool
  | '0' :: ds => ds.all isOctalDigit
  | ds => !ds.isEmpty && ds.all Char.isDigit

/-- A constant spelled with digits and at most one point: a decimal floating constant when it
has a point, with a digit before or after it, and an integer constant otherwise. -/
def isConstant (s : List Char) : Bool :=
  let whole := s.takeWhile Char.isDigit
  match s.drop whole.length with
  | [] => isIntegerConstant whole
  | '.' :: frac => frac.all Char.isDigit && !(whole.isEmpty && frac.isEmpty)
  | _ => false

/-- The trees of C expressions over identifiers and constants. -/
inductive Tree where
  | identifier (name : List Char)
  | constant (spelling : List Char)
  | unary (s : Sign) (e : Tree)
  | multiplicative (o : MulOp) (a b : Tree)
  | additive (o : AddOp) (a b : Tree)
  deriving DecidableEq, Repr

/-- All of `ts` is a unary expression with the tree `e`. -/
inductive UnaryOf : List Token → Tree → Prop
  | identifier (name : List Char) : UnaryOf [.identifier name] (.identifier name)
  | constant {s : List Char} : isConstant s = true → UnaryOf [.number s] (.constant s)
  | sign (s : Sign) {ts : List Token} {e : Tree} :
      UnaryOf ts e → UnaryOf (s.token :: ts) (.unary s e)

/-- All of `ts` is a multiplicative expression with the tree `e`. -/
inductive MultiplicativeOf : List Token → Tree → Prop
  | unary {ts : List Token} {e : Tree} : UnaryOf ts e → MultiplicativeOf ts e
  | op (o : MulOp) {ts₁ ts₂ : List Token} {e₁ e₂ : Tree} :
      MultiplicativeOf ts₁ e₁ → UnaryOf ts₂ e₂ →
        MultiplicativeOf (ts₁ ++ o.token :: ts₂) (.multiplicative o e₁ e₂)

/-- All of `ts` is an additive expression with the tree `e`. -/
inductive AdditiveOf : List Token → Tree → Prop
  | multiplicative {ts : List Token} {e : Tree} : MultiplicativeOf ts e → AdditiveOf ts e
  | op (o : AddOp) {ts₁ ts₂ : List Token} {e₁ e₂ : Tree} :
      AdditiveOf ts₁ e₁ → MultiplicativeOf ts₂ e₂ →
        AdditiveOf (ts₁ ++ o.token :: ts₂) (.additive o e₁ e₂)

/-! ## Where operators stand -/

/-- The last token is an operand. -/
def EndsInOperand (ts : List Token) : Prop :=
  ∃ x ∈ ts.getLast?, x.isOperand = true

/-- No token satisfying `P` follows an operand. -/
def NoneAfterOperand (P : Token → Prop) (ts : List Token) : Prop :=
  ts.IsChain fun x y => x.isOperand = true → ¬P y

theorem EndsInOperand.append_cons {l : List Token} {a : Token} {r : List Token}
    (h : EndsInOperand r) : EndsInOperand (l ++ a :: r) := by
  obtain ⟨x, hx, hop⟩ := h
  obtain ⟨ys, rfl⟩ := List.getLast?_eq_some_iff.1 hx
  refine ⟨x, ?_, hop⟩
  rw [show l ++ a :: (ys ++ [x]) = (l ++ a :: ys) ++ [x] by simp, List.getLast?_concat]
  rfl

/-- An operator past the last operand before an operand-led split cannot satisfy `P`: the token
before it would be an operand. -/
theorem no_later_split {P : Token → Prop} {l m r₂ : List Token} {a b : Token}
    (ha : a.isOperand = false) (hm : EndsInOperand (l ++ a :: m)) (hb : P b)
    (hr : NoneAfterOperand P (m ++ b :: r₂)) : False := by
  obtain ⟨x, hx, hop⟩ := hm
  rcases List.eq_nil_or_concat m with rfl | ⟨m', y, rfl⟩
  · -- the token before the split is `a` itself
    rw [List.getLast?_concat] at hx
    cases hx
    simp [ha] at hop
  · simp only [List.concat_eq_append] at hx hr
    rw [show l ++ a :: (m' ++ [y]) = (l ++ a :: m') ++ [y] by simp, List.getLast?_concat] at hx
    cases hx
    have hchain := List.isChain_append.1 (show NoneAfterOperand P ((m' ++ [x]) ++ b :: r₂) by
      simpa using hr)
    exact hchain.2.2 x (by simp) b rfl hop hb

/-- Two splits of one list at operators satisfying `P`, each after an operand and with no such
operator after an operand to its right, are the same split. -/
theorem split_unique (P : Token → Prop) {l₁ l₂ r₁ r₂ : List Token} {a b : Token}
    (h : l₁ ++ a :: r₁ = l₂ ++ b :: r₂) (ha : a.isOperand = false) (hb : b.isOperand = false)
    (hPa : P a) (hPb : P b) (hl₁ : EndsInOperand l₁) (hl₂ : EndsInOperand l₂)
    (hr₁ : NoneAfterOperand P r₁) (hr₂ : NoneAfterOperand P r₂) :
    l₁ = l₂ ∧ a = b ∧ r₁ = r₂ := by
  rcases List.append_eq_append_iff.1 h with ⟨as, hl, hr⟩ | ⟨bs, hl, hr⟩
  · cases as with
    | nil => simp_all
    | cons z m =>
      obtain ⟨rfl, rfl⟩ := List.cons.inj hr
      exact (no_later_split ha (hl ▸ hl₂) hPb hr₁).elim
  · cases bs with
    | nil => simp_all
    | cons z m =>
      obtain ⟨rfl, rfl⟩ := List.cons.inj hr
      exact (no_later_split hb (hl ▸ hl₁) hPa hr₂).elim

/-! ## Unary expressions -/

section Unary

variable {ts : List Token} {e : Tree}

theorem UnaryOf.inv (h : UnaryOf ts e) :
    (∃ n, ts = [.identifier n] ∧ e = .identifier n) ∨
      (∃ s, ts = [.number s] ∧ e = .constant s) ∨
      ∃ s ts' e', ts = s.token :: ts' ∧ e = .unary s e' ∧ UnaryOf ts' e' := by
  cases h with
  | identifier n => exact .inl ⟨n, rfl, rfl⟩
  | constant _ => exact .inr (.inl ⟨_, rfl, rfl⟩)
  | sign s h => exact .inr (.inr ⟨s, _, _, rfl, rfl, h⟩)

/-- A unary expression is signs before one operand. -/
theorem UnaryOf.mem (h : UnaryOf ts e) (t : Token) (ht : t ∈ ts) :
    t.isOperand = true ∨ ∃ s : Sign, t = s.token := by
  induction h with
  | identifier n => simp_all [Token.isOperand]
  | constant _ => simp_all [Token.isOperand]
  | sign s _ ih =>
    rcases List.mem_cons.1 ht with rfl | ht
    · exact .inr ⟨s, rfl⟩
    · exact ih ht

theorem UnaryOf.endsInOperand (h : UnaryOf ts e) : EndsInOperand ts := by
  induction h with
  | identifier n => exact ⟨_, rfl, rfl⟩
  | constant _ => exact ⟨_, rfl, rfl⟩
  | sign s _ ih => simpa using @EndsInOperand.append_cons [] s.token _ ih

/-- Only the last token of a unary expression is an operand. -/
theorem UnaryOf.isChain (h : UnaryOf ts e) : ts.IsChain fun x _ => x.isOperand = false := by
  induction h with
  | identifier n => exact .singleton _
  | constant _ => exact .singleton _
  | sign s _ ih => exact ih.cons fun _ _ => rfl

theorem UnaryOf.noneAfterOperand (P : Token → Prop) (h : UnaryOf ts e) :
    NoneAfterOperand P ts :=
  h.isChain.imp fun _ _ hx hop => by simp [hx] at hop

theorem UnaryOf.not_mulOp (h : UnaryOf ts e) (o : MulOp) : o.token ∉ ts := by
  intro hmem
  rcases h.mem _ hmem with hop | ⟨s, hs⟩
  · simp at hop
  · exact MulOp.token_ne_sign o s hs

/-- A unary expression has one tree. -/
theorem UnaryOf.unique {e₂ : Tree} (h₁ : UnaryOf ts e) (h₂ : UnaryOf ts e₂) : e = e₂ := by
  induction h₁ generalizing e₂ with
  | identifier n =>
    rcases h₂.inv with ⟨n', hts, rfl⟩ | ⟨s', hts, _⟩ | ⟨s', ts', e', hts, _, _⟩ <;>
      simp_all [Sign.token]
  | constant _ =>
    rcases h₂.inv with ⟨n', hts, _⟩ | ⟨s', hts, rfl⟩ | ⟨s', ts', e', hts, _, _⟩ <;>
      simp_all [Sign.token]
  | sign s h ih =>
    rcases h₂.inv with ⟨n', hts, _⟩ | ⟨s', hts, _⟩ | ⟨s', ts', e', hts, rfl, h'⟩
    · simp [Sign.token] at hts
    · simp [Sign.token] at hts
    · obtain ⟨hs, rfl⟩ := List.cons.inj hts
      rw [Sign.token_injective hs, ih h']

end Unary

/-! ## Multiplicative expressions -/

section Multiplicative

variable {ts : List Token} {e : Tree}

theorem MultiplicativeOf.inv (h : MultiplicativeOf ts e) :
    UnaryOf ts e ∨ ∃ o ts₁ ts₂ e₁ e₂, ts = ts₁ ++ o.token :: ts₂ ∧
      e = .multiplicative o e₁ e₂ ∧ MultiplicativeOf ts₁ e₁ ∧ UnaryOf ts₂ e₂ := by
  cases h with
  | unary h => exact .inl h
  | op o h₁ h₂ => exact .inr ⟨o, _, _, _, _, rfl, rfl, h₁, h₂⟩

theorem MultiplicativeOf.endsInOperand (h : MultiplicativeOf ts e) : EndsInOperand ts := by
  cases h with
  | unary h => exact h.endsInOperand
  | op o _ h₂ => exact h₂.endsInOperand.append_cons

/-- In a multiplicative expression every `+` or `-` is a sign: none follows an operand. -/
theorem MultiplicativeOf.noneAfterOperand (h : MultiplicativeOf ts e) :
    NoneAfterOperand (fun t => ∃ o : AddOp, t = o.token) ts := by
  induction h with
  | unary h => exact h.noneAfterOperand _
  | op o h₁ h₂ ih =>
    refine List.isChain_append.2 ⟨ih, ?_, ?_⟩
    · refine (h₂.noneAfterOperand _).cons ?_
      intro _ _ hop
      simp at hop
    · intro x _ y hy _ ⟨o', ho'⟩
      have : y = o.token := by simpa using hy.symm
      cases o <;> cases o' <;> simp_all [MulOp.token, AddOp.token, MulOp.text, AddOp.text]

/-- A multiplicative expression has one tree. -/
theorem MultiplicativeOf.unique {e₂ : Tree} (h₁ : MultiplicativeOf ts e)
    (h₂ : MultiplicativeOf ts e₂) : e = e₂ := by
  induction h₁ generalizing e₂ with
  | unary h =>
    rcases h₂.inv with h₂ | ⟨o, ts₁, ts₂, e₁, e₂, rfl, _, _, _⟩
    · exact h.unique h₂
    · exact (h.not_mulOp o (by simp)).elim
  | op o h₁ h₂' ih =>
    rcases h₂.inv with h₂ | ⟨o', ts₁', ts₂', e₁', e₂', hts, rfl, h₁', h₂''⟩
    · exact (h₂.not_mulOp o (by simp)).elim
    · obtain ⟨rfl, ho, rfl⟩ := split_unique (fun t => ∃ o : MulOp, t = o.token) hts
        rfl rfl ⟨o, rfl⟩ ⟨o', rfl⟩ h₁.endsInOperand h₁'.endsInOperand
        (h₂'.noneAfterOperand _) (h₂''.noneAfterOperand _)
      rw [MulOp.token_injective ho, ih h₁', h₂'.unique h₂'']

end Multiplicative

/-! ## Additive expressions -/

section Additive

variable {ts : List Token} {e : Tree}

theorem AdditiveOf.inv (h : AdditiveOf ts e) :
    MultiplicativeOf ts e ∨ ∃ o ts₁ ts₂ e₁ e₂, ts = ts₁ ++ o.token :: ts₂ ∧
      e = .additive o e₁ e₂ ∧ AdditiveOf ts₁ e₁ ∧ MultiplicativeOf ts₂ e₂ := by
  cases h with
  | multiplicative h => exact .inl h
  | op o h₁ h₂ => exact .inr ⟨o, _, _, _, _, rfl, rfl, h₁, h₂⟩

theorem AdditiveOf.endsInOperand (h : AdditiveOf ts e) : EndsInOperand ts := by
  cases h with
  | multiplicative h => exact h.endsInOperand
  | op o _ h₂ => exact h₂.endsInOperand.append_cons

/-- A binary `+` or `-` after an operand is not part of a multiplicative expression. -/
theorem MultiplicativeOf.not_split {ts₁ ts₂ : List Token} {e₁ : Tree} (o : AddOp)
    (h₁ : AdditiveOf ts₁ e₁) (h : MultiplicativeOf (ts₁ ++ o.token :: ts₂) e) : False := by
  obtain ⟨x, hx, hop⟩ := h₁.endsInOperand
  obtain ⟨ys, rfl⟩ := List.getLast?_eq_some_iff.1 hx
  have hchain := List.isChain_append.1
    (show NoneAfterOperand _ ((ys ++ [x]) ++ o.token :: ts₂) from h.noneAfterOperand)
  exact hchain.2.2 x (by simp) _ rfl hop ⟨o, rfl⟩

/-- An additive expression has one tree: C reads it one way. -/
theorem AdditiveOf.unique {e₂ : Tree} (h₁ : AdditiveOf ts e) (h₂ : AdditiveOf ts e₂) :
    e = e₂ := by
  induction h₁ generalizing e₂ with
  | multiplicative h =>
    rcases h₂.inv with h₂ | ⟨o, ts₁, ts₂, e₁, e₂, rfl, _, h₁', _⟩
    · exact h.unique h₂
    · exact (h.not_split o h₁').elim
  | op o h₁ h₂' ih =>
    rcases h₂.inv with h₂ | ⟨o', ts₁', ts₂', e₁', e₂', hts, rfl, h₁', h₂''⟩
    · exact (h₂.not_split o h₁).elim
    · obtain ⟨rfl, ho, rfl⟩ := split_unique (fun t => ∃ o : AddOp, t = o.token) hts
        rfl rfl ⟨o, rfl⟩ ⟨o', rfl⟩ h₁.endsInOperand h₁'.endsInOperand
        h₂'.noneAfterOperand h₂''.noneAfterOperand
      rw [AddOp.token_injective ho, ih h₁', h₂'.unique h₂'']

end Additive

end C

end TinyBasic
