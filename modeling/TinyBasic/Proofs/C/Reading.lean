import TinyBasic.Proofs.C.Expression
import TinyBasic.Proofs.Translation
/-!
# How C reads an emitted expression

An expression is emitted as the texts of its tokens with nothing between them (`Expr.text`).
This module says what a C compiler makes of that text: its tokens (`C.Lexes`) and its tree
(`C.AdditiveOf`).

The texts of neighbouring tokens run together. A number or a name is followed by an operator,
which cannot continue it, and an operator by a sign or an operand. Two pairs merge: a binary
`+` right before a sign `+` is read as the one token `++`, and `-` before `-` as `--`
(`Expr.fused`). Apart from those, C reads back exactly the expression's tokens, and its grammar
derives exactly the expression's tree, read from the left at each level, when every number is
a C constant: a whole number with a leading `0` is octal in C and must not hold an `8` or `9`.

* `Atom.scanned` is the shape of the operands the scanner makes.
* `Expr.tokens` and `Expr.tree` are the C tokens and the C tree that mirror an expression.
* `Expr.lexes_iff` says when C reads the text as the expression's tokens, and
  `Expr.c_reading_iff` adds what its grammar derives from them.
-/

namespace TinyBasic

/-! ## Tokens and trees -/

/-- An operand as the scanner makes it: a number is a digit and then digits and points, a
variable a run of ASCII letters. -/
def Atom.scanned : Atom → Bool
  | .number t =>
    match t.toList with
    | d :: ds => d.isDigit && ds.all fun c => c.isDigit || c == '.'
    | [] => false
  | .var n =>
    match n.toList with
    | l :: ls => l.isAlpha && ls.all Char.isAlpha
    | [] => false

/-- A number operand is a C constant; a variable always passes. -/
def Atom.isConstant : Atom → Bool
  | .number t => C.isConstant t.toList
  | .var _ => true

/-- The operands of a term, from the left. -/
def Term.atoms (t : Term) : List Atom :=
  t.first.atom :: t.rest.map fun p => p.2.atom

/-- The operands of an expression, from the left. -/
def Expr.atoms (e : Expr) : List Atom :=
  e.first.atoms ++ e.rest.flatMap fun p => p.2.atoms

/-- The C token of an operand. -/
def Atom.token : Atom → C.Token
  | .number t => .number t.toList
  | .var n => .identifier n.toList

/-- The C tokens of a factor. -/
def Factor.tokens (f : Factor) : List C.Token :=
  (f.sign.map Sign.token).toList ++ [f.atom.token]

/-- The C tokens of a term. -/
def Term.tokens (t : Term) : List C.Token :=
  t.first.tokens ++ t.rest.flatMap fun p => p.1.token :: p.2.tokens

/-- The C tokens of an expression. -/
def Expr.tokens (e : Expr) : List C.Token :=
  e.first.tokens ++ e.rest.flatMap fun p => p.1.token :: p.2.tokens

/-- The C tree of an operand. -/
def Atom.tree : Atom → C.Tree
  | .number t => .constant t.toList
  | .var n => .identifier n.toList

/-- The C tree of a factor: the sign, if any, over the operand. -/
def Factor.tree (f : Factor) : C.Tree :=
  match f.sign with
  | some s => .unary s f.atom.tree
  | none => f.atom.tree

/-- The C tree of a term, its factors combined from the left. -/
def Term.tree (t : Term) : C.Tree :=
  t.rest.foldl (fun a p => .multiplicative p.1 a p.2.tree) t.first.tree

/-- The C tree of an expression, its terms combined from the left. -/
def Expr.tree (e : Expr) : C.Tree :=
  e.rest.foldl (fun a p => .additive p.1 a p.2.tree) e.first.tree

/-- A binary operator written right before a sign of the same character: C reads the two as
the one token `++` or `--`. -/
def AddOp.fuses : AddOp → Option Sign → Bool
  | .add, some .plus => true
  | .sub, some .minus => true
  | _, _ => false

/-- Some binary `+` or `-` of the expression runs into the sign after it. -/
def Expr.fused (e : Expr) : Bool :=
  e.rest.any fun p => p.1.fuses p.2.first.sign

/-- C reads the text as an additive expression with the tree `e`. -/
def C.Reads (text : String) (e : C.Tree) : Prop :=
  ∃ ts, C.Lexes text.toList ts ∧ C.AdditiveOf ts e

/-! ## The text is the spelling of the tokens -/

@[simp] theorem Atom.token_spelling (a : Atom) : a.token.spelling = a.text.toList := by
  cases a <;> rfl

theorem Factor.flatMap_spelling (f : Factor) :
    f.tokens.flatMap C.Token.spelling = f.fragments.flatMap String.toList := by
  cases hs : f.sign <;> simp [Factor.tokens, Factor.fragments, hs]

theorem Term.flatMap_spelling (t : Term) :
    t.tokens.flatMap C.Token.spelling = t.fragments.flatMap String.toList := by
  simp [Term.tokens, Term.fragments, List.flatMap_append, List.flatMap_assoc,
    Factor.flatMap_spelling]

theorem Expr.text_toList (e : Expr) : e.text.toList = e.tokens.flatMap C.Token.spelling := by
  simp [Expr.text, String.toList_join, Expr.tokens, Expr.fragments, List.flatMap_append,
    List.flatMap_assoc, Term.flatMap_spelling]

/-! ## C reads the tokens back -/

/-- The last token is the token of an operand the scanner could have made. -/
def LastScanned (ts : List C.Token) : Prop :=
  ∃ a : Atom, a.scanned = true ∧ ts.getLast? = some a.token

theorem LastScanned.append_cons {l r : List C.Token} {u : C.Token} (h : LastScanned r) :
    LastScanned (l ++ u :: r) := by
  obtain ⟨a, ha, hlast⟩ := h
  refine ⟨a, ha, ?_⟩
  rw [List.getLast?_append, List.getLast?_cons, hlast]
  rfl

section Operands

variable {a : Atom}

/-- The spelling of a scanned operand: a letter or a digit, then characters of its kind. -/
theorem Atom.token_cases (ha : a.scanned = true) :
    (∃ c body, a.token = .identifier (c :: body) ∧ c.isAlpha = true ∧
      ∀ x ∈ body, C.isIdentChar x = true) ∨
    (∃ c body, a.token = .number (c :: body) ∧ c.isDigit = true ∧
      ∀ x ∈ body, x.isDigit = true ∨ x = '.') := by
  cases a with
  | number t =>
    refine .inr ?_
    cases ht : t.toList with
    | nil => simp [Atom.scanned, ht] at ha
    | cons d ds =>
      simp only [Atom.scanned, ht, Bool.and_eq_true, List.all_eq_true, Bool.or_eq_true,
        beq_iff_eq] at ha
      exact ⟨d, ds, by simp [Atom.token, ht], ha.1, ha.2⟩
  | var n =>
    refine .inl ?_
    cases hn : n.toList with
    | nil => simp [Atom.scanned, hn] at ha
    | cons l ls =>
      simp only [Atom.scanned, hn, Bool.and_eq_true, List.all_eq_true] at ha
      refine ⟨l, ls, by simp [Atom.token, hn], ha.1, fun x hx => ?_⟩
      simp [C.isIdentChar, Char.isAlphanum, ha.2 x hx]

/-- A scanned operand's token starts with a letter or a digit. -/
theorem Atom.token_head (ha : a.scanned = true) :
    ∃ c cs, a.token.spelling = c :: cs ∧ C.isIdentChar c = true := by
  rcases Atom.token_cases ha with ⟨c, body, htok, hc, _⟩ | ⟨c, body, htok, hc, _⟩ <;>
    refine ⟨c, body, by simp [htok], ?_⟩ <;> simp [C.isIdentChar, Char.isAlphanum, hc]

/-- A scanned operand ends before any token that starts with a character that continues no
operand. -/
theorem Atom.token_endsBefore (ha : a.scanned = true) {u : C.Token} {c : Char} {cs : List Char}
    (hu : u.spelling = c :: cs) (hc : C.isIdentChar c = false ∧ c ≠ '.') :
    a.token.EndsBefore u := by
  rcases Atom.token_cases ha with ⟨d, body, htok, hd, hbody⟩ | ⟨d, body, htok, hd, hbody⟩
  · rw [htok]
    exact C.Token.endsBefore_identifier hd hbody hu hc.1
  · rw [htok]
    exact C.Token.endsBefore_number hd hbody hu hc

/-- A scanned operand alone is read as its token. -/
theorem Atom.readToken_token (ha : a.scanned = true) :
    C.readToken a.token.spelling = some (a.token, []) := by
  rcases Atom.token_cases ha with ⟨d, body, htok, hd, hbody⟩ | ⟨d, body, htok, hd, hbody⟩
  · simpa [htok] using @C.readToken_identifier d body [] hd hbody (by simp)
  · simpa [htok] using @C.readToken_number d body [] hd hbody (by simp)

theorem punctuator_endsBefore_atom {p : List Char} (hp : p ∈ C.punctuators)
    (ha : a.scanned = true) : (C.Token.punctuator p).EndsBefore a.token := by
  obtain ⟨c, cs, hu, hc⟩ := Atom.token_head ha
  exact C.Token.endsBefore_of_isIdentChar hp hu hc

end Operands

section Operators

/-- An operator's token starts with a character that continues no operand. -/
theorem MulOp.token_head (o : MulOp) :
    ∃ c cs, o.token.spelling = c :: cs ∧ C.isIdentChar c = false ∧ c ≠ '.' := by
  cases o <;> exact ⟨_, [], rfl, by decide, by decide⟩

theorem AddOp.token_head (o : AddOp) :
    ∃ c cs, o.token.spelling = c :: cs ∧ C.isIdentChar c = false ∧ c ≠ '.' := by
  cases o <;> exact ⟨_, [], rfl, by decide, by decide⟩

theorem Sign.text_mem_punctuators (s : Sign) : s.text.toList ∈ C.punctuators := by
  cases s <;> decide

theorem MulOp.text_mem_punctuators (o : MulOp) : o.text.toList ∈ C.punctuators := by
  cases o <;> decide

theorem AddOp.text_mem_punctuators (o : AddOp) : o.text.toList ∈ C.punctuators := by
  cases o <;> decide

/-- `*` and `/` end before a sign: no punctuator is one of them followed by a sign. -/
theorem MulOp.token_endsBefore_sign (o : MulOp) (s : Sign) : o.token.EndsBefore s.token := by
  cases o <;> cases s <;> exact C.Token.endsBefore_punctuator (by decide) rfl (by decide)
    (by decide)

/-- A binary `+` or `-` ends before a sign of the other character. -/
theorem AddOp.token_endsBefore_sign {o : AddOp} {s : Sign} (h : o.fuses (some s) = false) :
    o.token.EndsBefore s.token := by
  cases o <;> cases s <;> simp only [AddOp.fuses, reduceCtorEq] at h <;>
    exact C.Token.endsBefore_punctuator (by decide) rfl (by decide) (by decide)

end Operators

/-- The tokens of a factor: a sign before the operand's token, or that token alone. -/
theorem Factor.tokens_isChain {f : Factor} (hf : f.atom.scanned = true) :
    f.tokens.IsChain C.Token.EndsBefore ∧ LastScanned f.tokens := by
  cases hs : f.sign with
  | none => exact ⟨by simp [Factor.tokens, hs], f.atom, hf, by simp [Factor.tokens, hs]⟩
  | some s =>
    refine ⟨?_, f.atom, hf, by simp [Factor.tokens, hs]⟩
    simp only [Factor.tokens, hs, Option.map_some, Option.toList_some, List.cons_append,
      List.nil_append, List.isChain_cons_cons, List.isChain_singleton, and_true]
    exact punctuator_endsBefore_atom (Sign.text_mem_punctuators s) hf

/-- An operator ends before a factor when it ends before the factor's sign, if it has one;
before an operand every operator does. -/
theorem Factor.endsBefore_head {p : List Char} (hp : p ∈ C.punctuators) {f : Factor}
    (hf : f.atom.scanned = true)
    (hsign : ∀ s, f.sign = some s → (C.Token.punctuator p).EndsBefore s.token) :
    ∀ y ∈ f.tokens.head?, (C.Token.punctuator p).EndsBefore y := by
  intro y hy
  cases hs : f.sign with
  | none =>
    simp only [Factor.tokens, hs, Option.map_none, Option.toList_none, List.nil_append,
      List.head?_cons, Option.mem_def, Option.some.injEq] at hy
    exact hy ▸ punctuator_endsBefore_atom hp hf
  | some s =>
    simp only [Factor.tokens, hs, Option.map_some, Option.toList_some, List.cons_append,
      List.nil_append, List.head?_cons, Option.mem_def, Option.some.injEq] at hy
    exact hy ▸ hsign s hs

theorem MulOp.token_endsBefore_factor (o : MulOp) {f : Factor} (hf : f.atom.scanned = true) :
    ∀ y ∈ f.tokens.head?, o.token.EndsBefore y :=
  Factor.endsBefore_head (MulOp.text_mem_punctuators o) hf fun s _ =>
    MulOp.token_endsBefore_sign o s

theorem AddOp.token_endsBefore_factor {o : AddOp} {f : Factor} (hf : f.atom.scanned = true)
    (hfuse : o.fuses f.sign = false) : ∀ y ∈ f.tokens.head?, o.token.EndsBefore y :=
  Factor.endsBefore_head (AddOp.text_mem_punctuators o) hf fun _ hs =>
    AddOp.token_endsBefore_sign (hs ▸ hfuse)

/-- Appending operators, each followed by a run of tokens, keeps the tokens reading back one by
one: the operand that ends each run stops before the next operator. -/
theorem isChain_append_flatMap {α : Type} (op : α → C.Token) (body : α → List C.Token)
    {pre : List C.Token} (hpre : pre.IsChain C.Token.EndsBefore) (hlast : LastScanned pre)
    (rest : List α)
    (hrest : ∀ p ∈ rest, (∃ c cs, (op p).spelling = c :: cs ∧ C.isIdentChar c = false ∧ c ≠ '.') ∧
      (body p).IsChain C.Token.EndsBefore ∧ LastScanned (body p) ∧
      ∀ y ∈ (body p).head?, (op p).EndsBefore y) :
    (pre ++ rest.flatMap fun p => op p :: body p).IsChain C.Token.EndsBefore ∧
      LastScanned (pre ++ rest.flatMap fun p => op p :: body p) := by
  induction rest generalizing pre with
  | nil => simpa using ⟨hpre, hlast⟩
  | cons p rest ih =>
    obtain ⟨⟨c, cs, hop, hc⟩, hbody, hblast, hhead⟩ := hrest p List.mem_cons_self
    obtain ⟨a, ha, hlast'⟩ := hlast
    -- the run of `p` joins the prefix: its operand ends before the operator
    have hstep : (pre ++ op p :: body p).IsChain C.Token.EndsBefore := by
      refine List.isChain_append.2 ⟨hpre, hbody.cons hhead, ?_⟩
      intro x hx y hy
      rw [hlast'] at hx
      cases hx
      cases hy
      exact Atom.token_endsBefore ha hop hc
    have := ih hstep hblast.append_cons (fun q hq => hrest q (List.mem_cons_of_mem p hq))
    simpa using this

theorem Term.tokens_isChain {t : Term} (hs : ∀ a ∈ t.atoms, a.scanned = true) :
    t.tokens.IsChain C.Token.EndsBefore ∧ LastScanned t.tokens := by
  have hfirst := Factor.tokens_isChain (hs _ List.mem_cons_self)
  refine isChain_append_flatMap _ _ hfirst.1 hfirst.2 t.rest fun p hp => ?_
  have hf : p.2.atom.scanned = true := hs _ (List.mem_cons_of_mem _ (List.mem_map_of_mem hp))
  exact ⟨MulOp.token_head _, (Factor.tokens_isChain hf).1, (Factor.tokens_isChain hf).2,
    MulOp.token_endsBefore_factor _ hf⟩

theorem Term.tokens_head (t : Term) : t.tokens.head? = t.first.tokens.head? := by
  cases hs : t.first.sign <;> simp [Term.tokens, Factor.tokens, hs]

theorem Expr.tokens_isChain {e : Expr} (hs : ∀ a ∈ e.atoms, a.scanned = true)
    (hf : e.fused = false) : e.tokens.IsChain C.Token.EndsBefore ∧ LastScanned e.tokens := by
  have hfirst := Term.tokens_isChain fun a ha => hs a (List.mem_append_left _ ha)
  refine isChain_append_flatMap _ _ hfirst.1 hfirst.2 e.rest fun p hp => ?_
  have ht : ∀ a ∈ p.2.atoms, a.scanned = true := fun a ha =>
    hs a (List.mem_append_right _ (List.mem_flatMap.2 ⟨p, hp, ha⟩))
  have hfuse : p.1.fuses p.2.first.sign = false := by
    simpa using List.any_eq_false.1 hf p hp
  refine ⟨AddOp.token_head _, (Term.tokens_isChain ht).1, (Term.tokens_isChain ht).2, ?_⟩
  rw [Term.tokens_head]
  exact AddOp.token_endsBefore_factor (ht _ List.mem_cons_self) hfuse

/-- Without a fused pair, C reads the text of an expression as its tokens. -/
theorem Expr.lexes_of_not_fused {e : Expr} (hs : ∀ a ∈ e.atoms, a.scanned = true)
    (hf : e.fused = false) : C.Lexes e.text.toList e.tokens := by
  obtain ⟨hchain, a, ha, hlast⟩ := e.tokens_isChain hs hf
  rw [Expr.text_toList]
  refine C.Lexes.of_isChain hchain fun t ht => ?_
  rw [hlast] at ht
  cases ht
  exact Atom.readToken_token ha

theorem Atom.unaryOf {a : Atom} (h : a.isConstant = true) : C.UnaryOf [a.token] a.tree := by
  cases a with
  | number t => exact .constant h
  | var n => exact .identifier _

theorem Factor.unaryOf {f : Factor} (h : f.atom.isConstant = true) :
    C.UnaryOf f.tokens f.tree := by
  cases hs : f.sign with
  | none => simpa [Factor.tokens, Factor.tree, hs] using Atom.unaryOf h
  | some s => simpa [Factor.tokens, Factor.tree, hs] using C.UnaryOf.sign s (Atom.unaryOf h)

/-- A rule that extends a derivation by one operator and its operand on the right, as C's
left-recursive rules do, extends it by a whole run of them, the tree growing from the left. -/
theorem derives_foldl {α : Type} (R : List C.Token → C.Tree → Prop) (f : C.Tree → α → C.Tree)
    (toks : α → List C.Token) (rest : List α)
    (hstep : ∀ p ∈ rest, ∀ ts a, R ts a → R (ts ++ toks p) (f a p)) {ts : List C.Token}
    {acc : C.Tree} (h : R ts acc) :
    R (ts ++ rest.flatMap toks) (rest.foldl f acc) := by
  induction rest generalizing ts acc with
  | nil => simpa using h
  | cons p rest ih =>
    have hnext := hstep p List.mem_cons_self ts acc h
    simpa using ih (fun q hq => hstep q (List.mem_cons_of_mem p hq)) hnext

theorem Term.multiplicativeOf {t : Term} (h : ∀ a ∈ t.atoms, a.isConstant = true) :
    C.MultiplicativeOf t.tokens t.tree := by
  unfold Term.tokens Term.tree
  exact derives_foldl C.MultiplicativeOf (fun a p => .multiplicative p.1 a p.2.tree)
    (fun p => p.1.token :: p.2.tokens) t.rest
    (fun p hp _ _ hacc => C.MultiplicativeOf.op p.1 hacc
      (Factor.unaryOf (h _ (List.mem_cons_of_mem _ (List.mem_map_of_mem hp)))))
    (.unary (Factor.unaryOf (h _ List.mem_cons_self)))

theorem Expr.additiveOf {e : Expr} (h : ∀ a ∈ e.atoms, a.isConstant = true) :
    C.AdditiveOf e.tokens e.tree := by
  unfold Expr.tokens Expr.tree
  exact derives_foldl C.AdditiveOf (fun a p => .additive p.1 a p.2.tree)
    (fun p => p.1.token :: p.2.tokens) e.rest
    (fun p hp _ _ hacc => C.AdditiveOf.op p.1 hacc (Term.multiplicativeOf fun a ha =>
      h a (List.mem_append_right _ (List.mem_flatMap.2 ⟨p, hp, ha⟩))))
    (.multiplicative (Term.multiplicativeOf fun a ha => h a (List.mem_append_left _ ha)))

/-- Every number token of a derived expression is a constant. -/
theorem C.UnaryOf.isConstant_of_mem {ts : List C.Token} {e : C.Tree} (h : C.UnaryOf ts e)
    {s : List Char} (hs : C.Token.number s ∈ ts) : C.isConstant s = true := by
  induction h with
  | identifier n => simp at hs
  | constant hc =>
    simp only [List.mem_singleton, C.Token.number.injEq] at hs
    exact hs ▸ hc
  | sign s' _ ih =>
    simp only [List.mem_cons, Sign.token, reduceCtorEq, false_or] at hs
    exact ih hs

theorem C.MultiplicativeOf.isConstant_of_mem {ts : List C.Token} {e : C.Tree}
    (h : C.MultiplicativeOf ts e) {s : List Char} (hs : C.Token.number s ∈ ts) :
    C.isConstant s = true := by
  induction h with
  | unary h => exact h.isConstant_of_mem hs
  | op o _ h₂ ih =>
    simp only [List.mem_append, List.mem_cons, MulOp.token, reduceCtorEq, false_or] at hs
    exact hs.elim ih h₂.isConstant_of_mem

theorem C.AdditiveOf.isConstant_of_mem {ts : List C.Token} {e : C.Tree}
    (h : C.AdditiveOf ts e) {s : List Char} (hs : C.Token.number s ∈ ts) :
    C.isConstant s = true := by
  induction h with
  | multiplicative h => exact h.isConstant_of_mem hs
  | op o _ h₂ ih =>
    simp only [List.mem_append, List.mem_cons, AddOp.token, reduceCtorEq, false_or] at hs
    exact hs.elim ih h₂.isConstant_of_mem

theorem Term.token_mem_tokens {t : Term} {a : Atom} (ha : a ∈ t.atoms) : a.token ∈ t.tokens := by
  simp only [Term.atoms, List.mem_cons, List.mem_map] at ha
  rcases ha with rfl | ⟨p, hp, rfl⟩
  · simp [Term.tokens, Factor.tokens]
  · exact List.mem_append_right _ (List.mem_flatMap.2 ⟨p, hp, by simp [Factor.tokens]⟩)

theorem Expr.token_mem_tokens {e : Expr} {a : Atom} (ha : a ∈ e.atoms) : a.token ∈ e.tokens := by
  rcases List.mem_append.1 ha with ha | ha
  · exact List.mem_append_left _ (Term.token_mem_tokens ha)
  · obtain ⟨p, hp, ha⟩ := List.mem_flatMap.1 ha
    exact List.mem_append_right _ (List.mem_flatMap.2 ⟨p, hp, by simp [Term.token_mem_tokens ha]⟩)

/-- Without a fused pair, C reads an additive expression from the text of an expression exactly
when every number is a C constant, and the one tree it reads is the expression's own. -/
theorem Expr.reads_iff {e : Expr} (hs : ∀ a ∈ e.atoms, a.scanned = true)
    (hf : e.fused = false) (tree : C.Tree) :
    C.Reads e.text tree ↔ (∀ a ∈ e.atoms, a.isConstant = true) ∧ tree = e.tree := by
  constructor
  · rintro ⟨ts, hlex, hadd⟩
    -- there is one reading of the text, the expression's tokens
    obtain rfl : ts = e.tokens := hlex.unique (Expr.lexes_of_not_fused hs hf)
    have hconst : ∀ a ∈ e.atoms, a.isConstant = true := by
      intro a ha
      cases a with
      | number t => exact hadd.isConstant_of_mem (Expr.token_mem_tokens ha)
      | var n => rfl
    exact ⟨hconst, hadd.unique (Expr.additiveOf hconst)⟩
  · rintro ⟨hconst, rfl⟩
    exact ⟨e.tokens, Expr.lexes_of_not_fused hs hf, Expr.additiveOf hconst⟩

end TinyBasic
