import TinyBasic.Proofs.Parse.Complete
/-!
# The grammar is unambiguous

A token list is a sentence for at most one program: `SentenceOf.unique`. Each phrase rule is
deterministic once what follows the phrase cannot continue it, the same follow conditions that
the parser's completeness needs (`HeadAvoids`): a product stops before a token that is not `*`
or `/`, a sum before one that is not an operator, a chain of comparisons before one that is not
an operator or a comparison, a run of line breaks before one that is not a line break, and a
block before one that neither starts a statement nor breaks a line.

* `ChainOf.unique` is the argument shared by the three repetitions `{op item}`.
* `StmtOf.unique` and `BlockOf.unique` go down the statements, one case per statement.
-/

namespace TinyBasic

/-- The kinds that continue a block: a statement's keyword or a line break. -/
def Kind.extendsBlock (k : Kind) : Bool := k.startsStmt || k.isNewline

theorem Kind.isNewline_of_extendsBlock {k : Kind} (h : k.extendsBlock = false) :
    k.isNewline = false := by
  simp only [Kind.extendsBlock, Bool.or_eq_false_iff] at h
  exact h.2

theorem Kind.isAdditive_of_extendsExpr {k : Kind} (h : k.extendsExpr = false) :
    k.isAdditive = false := by
  simp only [Kind.extendsExpr, Bool.or_eq_false_iff] at h
  exact h.1

theorem Kind.isComparison_of_extendsComparison {k : Kind} (h : k.extendsComparison = false) :
    k.isComparison = false := by
  simp only [Kind.extendsComparison, Bool.or_eq_false_iff] at h
  exact h.1

/-- A statement's first token continues a block, so a block that may stop before it does not. -/
theorem StmtOf.not_headAvoids {ts rest : List Token} {s : Stmt} (hs : StmtOf ts s rest)
    (h : HeadAvoids Kind.extendsBlock ts) : False := by
  rcases hs.exists_head with ⟨t, _, rfl, ht⟩
  have hb := h.cons
  simp only [Kind.extendsBlock, ht, Bool.true_or] at hb
  cases hb

/-! ## Expressions -/

theorem FactorOf.unique {ts r₁ r₂ : List Token} {f₁ f₂ : Factor} (h₁ : FactorOf ts f₁ r₁)
    (h₂ : FactorOf ts f₂ r₂) : f₁ = f₂ ∧ r₁ = r₂ := by
  cases h₁ with
  | bare ha₁ =>
    cases h₂ with
    | bare ha₂ =>
      rw [ha₁] at ha₂
      cases ha₂
      exact ⟨rfl, rfl⟩
    | signed hs₂ _ =>
      -- An operand is no sign.
      rw [Atom.ofToken?_sign ha₁] at hs₂
      cases hs₂
  | signed hs₁ ha₁ =>
    cases h₂ with
    | bare ha₂ =>
      rw [Atom.ofToken?_sign ha₂] at hs₁
      cases hs₁
    | signed hs₂ ha₂ =>
      rw [hs₁] at hs₂
      rw [ha₁] at ha₂
      cases hs₂
      cases ha₂
      exact ⟨rfl, rfl⟩

/-- A repetition `{op item}` that stops before a token `p` avoids is read one way, provided an
item is read one way when it stops before a token `q` avoids, and `q` avoids the operators and
all that `p` avoids. -/
theorem ChainOf.unique {O E : Type} {op : Kind → Option O}
    {item : List Token → E → List Token → Prop} {p : Kind → Bool} {ts r₁ r₂ : List Token}
    {es₁ es₂ : List (O × E)} (h₁ : ChainOf op item ts es₁ r₁) (h₂ : ChainOf op item ts es₂ r₂)
    (hr₁ : HeadAvoids p r₁) (hr₂ : HeadAvoids p r₂) (q : Kind → Bool)
    (hitem : ∀ {l : List Token} {x₁ x₂ : E} {s₁ s₂ : List Token}, item l x₁ s₁ → item l x₂ s₂ →
      HeadAvoids q s₁ → HeadAvoids q s₂ → x₁ = x₂ ∧ s₁ = s₂)
    (hpq : ∀ k, p k = false → q k = false) (hopq : ∀ k o, op k = some o → q k = false)
    (hstop : ∀ k, p k = false → op k = none) : es₁ = es₂ ∧ r₁ = r₂ := by
  induction h₁ generalizing es₂ with
  | nil =>
    cases h₂ with
    | nil => exact ⟨rfl, rfl⟩
    | cons ho _ _ =>
      rw [hstop _ hr₁.cons] at ho
      cases ho
  | cons ho he hes ih =>
    cases h₂ with
    | nil =>
      rw [hstop _ hr₂.cons] at ho
      cases ho
    | cons ho' he' hes' =>
      rw [ho] at ho'
      cases ho'
      -- Each item stops where the chain goes on or ends, before a token `q` avoids.
      have hs₁ := hes.headAvoids (hr₁.mono hpq) hopq
      have hs₂ := hes'.headAvoids (hr₂.mono hpq) hopq
      obtain ⟨rfl, rfl⟩ := hitem he he' hs₁ hs₂
      obtain ⟨rfl, rfl⟩ := ih hes' hr₁
      exact ⟨rfl, rfl⟩

theorem TermOf.unique {ts r₁ r₂ : List Token} {t₁ t₂ : Term} (h₁ : TermOf ts t₁ r₁)
    (h₂ : TermOf ts t₂ r₂) (hr₁ : HeadAvoids Kind.isMultiplicative r₁)
    (hr₂ : HeadAvoids Kind.isMultiplicative r₂) : t₁ = t₂ ∧ r₁ = r₂ := by
  rcases h₁ with ⟨hf₁, hfs₁⟩
  rcases h₂ with ⟨hf₂, hfs₂⟩
  obtain ⟨rfl, rfl⟩ := hf₁.unique hf₂
  -- A factor needs nothing after it to be read one way.
  have hfs := hfs₁.unique hfs₂ hr₁ hr₂ (fun _ => false) (fun h h' _ _ => h.unique h')
    (fun _ _ => rfl) (fun _ _ _ => rfl) (fun _ => MulOp.ofKind_eq_none)
  obtain ⟨rfl, rfl⟩ := hfs
  exact ⟨rfl, rfl⟩

theorem ExprOf.unique {ts r₁ r₂ : List Token} {x₁ x₂ : Expr} (h₁ : ExprOf ts x₁ r₁)
    (h₂ : ExprOf ts x₂ r₂) (hr₁ : HeadAvoids Kind.extendsExpr r₁)
    (hr₂ : HeadAvoids Kind.extendsExpr r₂) : x₁ = x₂ ∧ r₁ = r₂ := by
  rcases h₁ with ⟨ht₁, hts₁⟩
  rcases h₂ with ⟨ht₂, hts₂⟩
  -- The first term stops where the sum goes on or ends, before no `*` or `/`.
  have hs₁ := hts₁.headAvoids (hr₁.mono fun _ => Kind.isMultiplicative_of_extendsExpr)
    fun _ _ => AddOp.isMultiplicative_of_ofKind
  have hs₂ := hts₂.headAvoids (hr₂.mono fun _ => Kind.isMultiplicative_of_extendsExpr)
    fun _ _ => AddOp.isMultiplicative_of_ofKind
  obtain ⟨rfl, rfl⟩ := ht₁.unique ht₂ hs₁ hs₂
  have hts := hts₁.unique hts₂ hr₁ hr₂ Kind.isMultiplicative (fun h h' => TermOf.unique h h')
    (fun _ => Kind.isMultiplicative_of_extendsExpr) (fun _ _ => AddOp.isMultiplicative_of_ofKind)
    (fun _ hk => AddOp.ofKind_eq_none (Kind.isAdditive_of_extendsExpr hk))
  obtain ⟨rfl, rfl⟩ := hts
  exact ⟨rfl, rfl⟩

theorem ComparisonOf.unique {ts r₁ r₂ : List Token} {c₁ c₂ : Comparison}
    (h₁ : ComparisonOf ts c₁ r₁) (h₂ : ComparisonOf ts c₂ r₂)
    (hr₁ : HeadAvoids Kind.extendsComparison r₁) (hr₂ : HeadAvoids Kind.extendsComparison r₂) :
    c₁ = c₂ ∧ r₁ = r₂ := by
  rcases h₁ with ⟨hl₁, hrel₁, hr₁', hmore₁⟩
  rcases h₂ with ⟨hl₂, hrel₂, hr₂', hmore₂⟩
  -- The left operand stops at the comparison operator.
  obtain ⟨rfl, hop⟩ := hl₁.unique hl₂ (fun _ ht => by cases ht; exact Relation.extendsExpr_of_ofKind hrel₁)
    (fun _ ht => by cases ht; exact Relation.extendsExpr_of_ofKind hrel₂)
  cases hop
  rw [hrel₁] at hrel₂
  cases hrel₂
  -- The right operand stops where the chain goes on or ends.
  have hs₁ := hmore₁.headAvoids (hr₁.mono fun _ => Kind.extendsExpr_of_extendsComparison)
    fun _ _ => Relation.extendsExpr_of_ofKind
  have hs₂ := hmore₂.headAvoids (hr₂.mono fun _ => Kind.extendsExpr_of_extendsComparison)
    fun _ _ => Relation.extendsExpr_of_ofKind
  obtain ⟨rfl, rfl⟩ := hr₁'.unique hr₂' hs₁ hs₂
  have hmore := hmore₁.unique hmore₂ hr₁ hr₂ Kind.extendsExpr (fun h h' => ExprOf.unique h h')
    (fun _ => Kind.extendsExpr_of_extendsComparison) (fun _ _ => Relation.extendsExpr_of_ofKind)
    (fun _ hk => Relation.ofKind_eq_none (Kind.isComparison_of_extendsComparison hk))
  obtain ⟨rfl, rfl⟩ := hmore
  exact ⟨rfl, rfl⟩

/-! ## Line breaks -/

theorem BlankOf.unique {ts r₁ r₂ : List Token} (h₁ : BlankOf ts r₁) (h₂ : BlankOf ts r₂)
    (hr₁ : HeadAvoids Kind.isNewline r₁) (hr₂ : HeadAvoids Kind.isNewline r₂) : r₁ = r₂ := by
  induction h₁ with
  | nil =>
    cases h₂ with
    | nil => rfl
    | cons ht _ =>
      have hn := hr₁.cons
      rw [ht] at hn
      cases hn
  | cons ht _ ih =>
    cases h₂ with
    | nil =>
      have hn := hr₂.cons
      rw [ht] at hn
      cases hn
    | cons _ hr => exact ih hr hr₁

theorem BreakOf.unique {ts r₁ r₂ : List Token} (h₁ : BreakOf ts r₁) (h₂ : BreakOf ts r₂)
    (hr₁ : HeadAvoids Kind.isNewline r₁) (hr₂ : HeadAvoids Kind.isNewline r₂) : r₁ = r₂ := by
  rcases h₁ with ⟨_, hb₁⟩
  rcases h₂ with ⟨_, hb₂⟩
  exact hb₁.unique hb₂ hr₁ hr₂

/-! ## Statements -/

/-- The keyword a statement starts with. -/
def Stmt.keyword : Stmt → Kind
  | .printText _ | .printValue _ => .printKw
  | .ifThen _ _ => .ifKw
  | .whileRepeat _ _ => .whileKw
  | .label _ => .labelKw
  | .goto _ => .gotoKw
  | .assign _ _ => .letKw
  | .input _ => .inputKw

/-- The first token of a statement is its keyword. -/
theorem StmtOf.keyword_of_head {t : Token} {ts rest : List Token} {s : Stmt}
    (hs : StmtOf (t :: ts) s rest) : s.keyword = t.kind := by
  cases hs with
  | printText hp => exact hp.symm
  | printValue hp => exact hp.symm
  | ifThen hi => exact hi.symm
  | whileRepeat hi => exact hi.symm
  | label hl => exact hl.symm
  | goto hg => exact hg.symm
  | assign hl => exact hl.symm
  | input hi => exact hi.symm

/-- The condition of an `IF` or a `WHILE`, the keyword after it and the line break are read one
way when the body after them does not start with a line break. -/
theorem guard_unique {r₁ r₂ r₂' r₃ r₃' : List Token} {th th' : Token} {c c' : Comparison}
    {k : Kind} (hk : k.extendsComparison = false) (hc : ComparisonOf r₁ c (th :: r₂))
    (hth : th.kind = k) (hb : BreakOf r₂ r₃) (hc' : ComparisonOf r₁ c' (th' :: r₂'))
    (hth' : th'.kind = k) (hb' : BreakOf r₂' r₃') (hr : HeadAvoids Kind.isNewline r₃)
    (hr' : HeadAvoids Kind.isNewline r₃') : c = c' ∧ r₃ = r₃' := by
  obtain ⟨rfl, hrest⟩ := hc.unique hc' (fun _ ht => by cases ht; rw [hth]; exact hk)
    (fun _ ht => by cases ht; rw [hth']; exact hk)
  cases hrest
  exact ⟨rfl, hb.unique hb' hr hr'⟩

/-- A block ends before its closing keyword, which neither starts a statement nor breaks a
line; and it starts with no line break. -/
theorem BlockOf.close_headAvoids {r₁ r₂ : List Token} {en : Token} {ss : List Stmt}
    (hss : BlockOf r₁ ss (en :: r₂)) (hen : en.kind = .endifKw ∨ en.kind = .endwhileKw) :
    HeadAvoids Kind.extendsBlock (en :: r₂) ∧ HeadAvoids Kind.isNewline r₁ := by
  have hclose : HeadAvoids Kind.extendsBlock (en :: r₂) := by
    intro t ht
    cases ht
    rcases hen with h | h <;> rw [h] <;> rfl
  exact ⟨hclose, hss.headAvoids (hclose.mono fun _ => Kind.isNewline_of_extendsBlock)
    fun _ => Kind.isNewline_of_startsStmt⟩

mutual

/-- A statement is read one way when no line break follows it. -/
theorem StmtOf.unique {ts r₁ r₂ : List Token} {s₁ s₂ : Stmt} (h₁ : StmtOf ts s₁ r₁)
    (h₂ : StmtOf ts s₂ r₂) (hr₁ : HeadAvoids Kind.isNewline r₁)
    (hr₂ : HeadAvoids Kind.isNewline r₂) : s₁ = s₂ ∧ r₁ = r₂ :=
  match h₁, h₂, hr₁, hr₂ with
  | .printText hp hs hb, h₂, hr₁, hr₂ => by
    have hkw := h₂.keyword_of_head
    rw [hp] at hkw
    cases h₂ with
    | printText _ _ hb' => exact ⟨rfl, hb.unique hb' hr₁ hr₂⟩
    | printValue _ hx => exact absurd hs (hx.head_ne_string _ rfl)
    | _ => cases hkw
  | .printValue hp hx hb, h₂, hr₁, hr₂ => by
    have hkw := h₂.keyword_of_head
    rw [hp] at hkw
    cases h₂ with
    | printText _ hs => exact absurd hs (hx.head_ne_string _ rfl)
    | printValue _ hx' hb' =>
      obtain ⟨rfl, rfl⟩ := hx.unique hx' (hb.headAvoids rfl) (hb'.headAvoids rfl)
      exact ⟨rfl, hb.unique hb' hr₁ hr₂⟩
    | _ => cases hkw
  | .ifThen hi hc hth hb hbody hen hb₂, h₂, hr₁, hr₂ => by
    have hkw := h₂.keyword_of_head
    rw [hi] at hkw
    cases h₂ with
    | ifThen _ hc' hth' hb' hbody' hen' hb₂' =>
      have hclose := hbody.close_headAvoids (.inl hen)
      have hclose' := hbody'.close_headAvoids (.inl hen')
      obtain ⟨rfl, rfl⟩ := guard_unique rfl hc hth hb hc' hth' hb' hclose.2 hclose'.2
      obtain ⟨rfl, hend⟩ := BlockOf.unique hbody hbody' hclose.1 hclose'.1
      cases hend
      exact ⟨rfl, hb₂.unique hb₂' hr₁ hr₂⟩
    | _ => cases hkw
  | .whileRepeat hi hc hth hb hbody hen hb₂, h₂, hr₁, hr₂ => by
    have hkw := h₂.keyword_of_head
    rw [hi] at hkw
    cases h₂ with
    | whileRepeat _ hc' hth' hb' hbody' hen' hb₂' =>
      have hclose := hbody.close_headAvoids (.inr hen)
      have hclose' := hbody'.close_headAvoids (.inr hen')
      obtain ⟨rfl, rfl⟩ := guard_unique rfl hc hth hb hc' hth' hb' hclose.2 hclose'.2
      obtain ⟨rfl, hend⟩ := BlockOf.unique hbody hbody' hclose.1 hclose'.1
      cases hend
      exact ⟨rfl, hb₂.unique hb₂' hr₁ hr₂⟩
    | _ => cases hkw
  | .label hl _ hb, h₂, hr₁, hr₂ => by
    have hkw := h₂.keyword_of_head
    rw [hl] at hkw
    cases h₂ with
    | label _ _ hb' => exact ⟨rfl, hb.unique hb' hr₁ hr₂⟩
    | _ => cases hkw
  | .goto hg _ hb, h₂, hr₁, hr₂ => by
    have hkw := h₂.keyword_of_head
    rw [hg] at hkw
    cases h₂ with
    | goto _ _ hb' => exact ⟨rfl, hb.unique hb' hr₁ hr₂⟩
    | _ => cases hkw
  | .assign hl _ _ hx hb, h₂, hr₁, hr₂ => by
    have hkw := h₂.keyword_of_head
    rw [hl] at hkw
    cases h₂ with
    | assign _ _ _ hx' hb' =>
      obtain ⟨rfl, rfl⟩ := hx.unique hx' (hb.headAvoids rfl) (hb'.headAvoids rfl)
      exact ⟨rfl, hb.unique hb' hr₁ hr₂⟩
    | _ => cases hkw
  | .input hi _ hb, h₂, hr₁, hr₂ => by
    have hkw := h₂.keyword_of_head
    rw [hi] at hkw
    cases h₂ with
    | input _ _ hb' => exact ⟨rfl, hb.unique hb' hr₁ hr₂⟩
    | _ => cases hkw

/-- A block is read one way when what follows it neither starts a statement nor breaks a
line. -/
theorem BlockOf.unique {ts r₁ r₂ : List Token} {ss₁ ss₂ : List Stmt} (h₁ : BlockOf ts ss₁ r₁)
    (h₂ : BlockOf ts ss₂ r₂) (hr₁ : HeadAvoids Kind.extendsBlock r₁)
    (hr₂ : HeadAvoids Kind.extendsBlock r₂) : ss₁ = ss₂ ∧ r₁ = r₂ :=
  match h₁, h₂, hr₁, hr₂ with
  | .nil, h₂, hr₁, _ => by
    cases h₂ with
    | nil => exact ⟨rfl, rfl⟩
    | cons hs _ => exact (hs.not_headAvoids hr₁).elim
  | .cons hs hss, h₂, hr₁, hr₂ => by
    cases h₂ with
    | nil => exact (hs.not_headAvoids hr₂).elim
    | cons hs' hss' =>
      -- A statement stops before the next one or before the end of the block.
      obtain ⟨rfl, rfl⟩ := StmtOf.unique hs hs'
        (hss.headAvoids (hr₁.mono fun _ => Kind.isNewline_of_extendsBlock)
          fun _ => Kind.isNewline_of_startsStmt)
        (hss'.headAvoids (hr₂.mono fun _ => Kind.isNewline_of_extendsBlock)
          fun _ => Kind.isNewline_of_startsStmt)
      obtain ⟨rfl, rfl⟩ := BlockOf.unique hss hss' hr₁ hr₂
      exact ⟨rfl, rfl⟩

end

/-- The grammar is unambiguous: a token list is a sentence for at most one program. -/
theorem SentenceOf.unique {ts : List Token} {prog₁ prog₂ : Program} (h₁ : SentenceOf ts prog₁)
    (h₂ : SentenceOf ts prog₂) : prog₁ = prog₂ := by
  rcases h₁ with ⟨hblank₁, hprog₁, he₁⟩
  rcases h₂ with ⟨hblank₂, hprog₂, he₂⟩
  -- The end token neither starts a statement nor breaks a line.
  have hend₁ : HeadAvoids Kind.extendsBlock [_] := fun _ ht => by cases ht; rw [he₁]; rfl
  have hend₂ : HeadAvoids Kind.extendsBlock [_] := fun _ ht => by cases ht; rw [he₂]; rfl
  have hstart := hblank₁.unique hblank₂
    (hprog₁.headAvoids (hend₁.mono fun _ => Kind.isNewline_of_extendsBlock)
      fun _ => Kind.isNewline_of_startsStmt)
    (hprog₂.headAvoids (hend₂.mono fun _ => Kind.isNewline_of_extendsBlock)
      fun _ => Kind.isNewline_of_startsStmt)
  subst hstart
  exact (hprog₁.unique hprog₂ hend₁ hend₂).1

end TinyBasic
