import TinyBasic.Proofs.Parse.Sound
/-!
# What the grammar derives, the parser reads

Completeness of every reader: on a window that shows a phrase of its rule followed by a token
that cannot extend the phrase, and when the names the phrase mentions pass the checks against
the scope, the reader returns what the phrase stands for and leaves the window on the token
after it. The list is taken to end at the end of the text, without a fault: that is what lets
every move of the window succeed.

The follow conditions are the grammar's: a product stops before a token that is no `*` or `/`,
a sum before one that is neither that nor `+` or `-`, a chain of comparisons before one that is
none of these nor a comparison operator, a line break before a token that is no line break.
Each is `HeadAvoids p r`.

The main result, `parse_ok_iff`, puts both directions together: the parser accepts a source
exactly when the scanner reads it to the end without a fault, the tokens form a sentence of the
grammar, and the program passes the three checks.
-/

namespace TinyBasic

/-- The list `r` does not begin with a token of a kind that `p` picks out. -/
def HeadAvoids (p : Kind → Bool) (r : List Token) : Prop :=
  ∀ t ∈ r.head?, p t.kind = false

theorem HeadAvoids.cons {p : Kind → Bool} {t : Token} {r : List Token}
    (h : HeadAvoids p (t :: r)) : p t.kind = false :=
  h t rfl

/-- A weaker condition follows from a stronger one. -/
theorem HeadAvoids.mono {p q : Kind → Bool} {r : List Token} (h : HeadAvoids p r)
    (hpq : ∀ k, p k = false → q k = false) : HeadAvoids q r :=
  fun t ht => hpq _ (h t ht)

/-- The tokens that continue a sum or a product: `+ - * /`. -/
def Kind.extendsExpr (k : Kind) : Bool := k.isAdditive || k.isMultiplicative

/-- The tokens that continue a chain of comparisons: those and the comparison operators. -/
def Kind.extendsComparison (k : Kind) : Bool := k.isComparison || k.extendsExpr

/-- A chain starts with a token that `q` avoids when its operators and what follows it do. -/
theorem ChainOf.headAvoids {O E : Type} {op : Kind → Option O}
    {item : List Token → E → List Token → Prop} {q : Kind → Bool} {r rest : List Token}
    {es : List (O × E)} (hc : ChainOf op item r es rest) (hend : HeadAvoids q rest)
    (hop : ∀ k o, op k = some o → q k = false) : HeadAvoids q r := by
  cases hc with
  | nil => exact hend
  | cons ho _ _ => exact fun t ht => by cases ht; exact hop _ _ ho

theorem MulOp.ofKind_eq_none {k : Kind} (h : k.isMultiplicative = false) : MulOp.ofKind k = none := by
  cases k <;> simp_all [MulOp.ofKind, Kind.isMultiplicative]

theorem AddOp.ofKind_eq_none {k : Kind} (h : k.isAdditive = false) : AddOp.ofKind k = none := by
  cases k <;> simp_all [AddOp.ofKind, Kind.isAdditive]

theorem Relation.ofKind_eq_none {k : Kind} (h : k.isComparison = false) :
    Relation.ofKind k = none := by
  cases k <;> simp_all [Relation.ofKind, Kind.isComparison]

theorem Kind.isMultiplicative_of_extendsExpr {k : Kind} (h : k.extendsExpr = false) :
    k.isMultiplicative = false := by
  simp only [Kind.extendsExpr, Bool.or_eq_false_iff] at h
  exact h.2

theorem Kind.extendsExpr_of_extendsComparison {k : Kind} (h : k.extendsComparison = false) :
    k.extendsExpr = false := by
  simp only [Kind.extendsComparison, Bool.or_eq_false_iff] at h
  exact h.2

theorem AddOp.isMultiplicative_of_ofKind {k : Kind} {o : AddOp} (h : AddOp.ofKind k = some o) :
    k.isMultiplicative = false := by
  cases k <;> simp_all [AddOp.ofKind, Kind.isMultiplicative]

theorem Relation.extendsExpr_of_ofKind {k : Kind} {r : Relation} (h : Relation.ofKind k = some r) :
    k.extendsExpr = false := by
  cases k <;> simp_all [Relation.ofKind, Kind.extendsExpr, Kind.isAdditive, Kind.isMultiplicative]

theorem Atom.ofToken?_sign {t : Token} {a : Atom} (ha : Atom.ofToken? t = some a) :
    Sign.ofKind t.kind = none := by
  unfold Atom.ofToken? at ha
  split at ha <;> simp_all [Sign.ofKind]

section Expressions

variable {sc : Scope} {w : Window} {ts rest : List Token}

theorem Sign.read?_complete {pre : List Token} {sg : Option Sign} {t : Token} {a : Atom}
    (hpre : SignTokens pre sg) (ha : Atom.ofToken? t = some a)
    (hw : w.Shows (pre ++ t :: rest) none) :
    ∃ w' : w.NotBefore, Sign.read? w = .ok (sg, w') ∧ w'.1.Shows (t :: rest) none := by
  match pre, sg, hpre with
  | [], none, _ =>
    have hcur : w.current = t := hw.current_eq
    have hnone : Sign.ofKind w.current.kind = none := hcur ▸ Atom.ofToken?_sign ha
    refine ⟨⟨w, Nat.le_refl _⟩, ?_, hw⟩
    unfold Sign.read?
    split
    · rename_i s hs
      rw [hnone] at hs
      cases hs
    · rfl
  | [s], some sg, hs =>
    have hcur : w.current = s := hw.current_eq
    subst hcur
    rcases hw.step_ok (Sign.ne_eof_of_ofKind hs) with ⟨w₁, hstep, hw₁⟩
    refine ⟨⟨w₁.1, Nat.le_of_lt w₁.2⟩, ?_, hw₁⟩
    unfold Sign.read?
    split
    · rename_i s' hs'
      rw [hs] at hs'
      cases hs'
      rw [hstep]
      rfl
    · rename_i hnone
      rw [hs] at hnone
      cases hnone

theorem Factor.read_complete {f : Factor} (hf : FactorOf ts f rest) (hw : w.Shows ts none)
    (hadm : ∀ m ∈ f.marks, sc.names.admits m) :
    ∃ w' : w.After, Factor.read sc w = .ok (f, w') ∧ w'.1.Shows rest none := by
  -- The factor is its sign tokens, then its operand.
  have hsplit : ∃ pre t a sg, ts = pre ++ t :: rest ∧ SignTokens pre sg ∧
      Atom.ofToken? t = some a ∧ f = ⟨sg, a⟩ := by
    cases hf with
    | bare ha => exact ⟨[], _, _, none, rfl, trivial, ha, rfl⟩
    | signed hs ha => exact ⟨[_], _, _, some _, rfl, hs, ha, rfl⟩
  rcases hsplit with ⟨pre, t, a, sg, rfl, hpre, ha, rfl⟩
  rcases Sign.read?_complete hpre ha hw with ⟨⟨w₁, h₁⟩, hsign, hw₁⟩
  have hcur : w₁.current = t := hw₁.current_eq
  subst hcur
  unfold Atom.ofToken? at ha
  split at ha
  · -- a number
    rename_i hk
    cases ha
    rcases hw₁.step_ok (Window.current_ne_eof hk rfl) with ⟨⟨w₂, h₂⟩, hstep, hw₂⟩
    refine ⟨⟨w₂, Nat.lt_of_lt_of_le h₂ h₁⟩, ?_, hw₂⟩
    rw [Factor.read]
    refine bind_eq_ok.2 ⟨_, hsign, ?_⟩
    dsimp only
    split
    · exact bind_eq_ok.2 ⟨_, hstep, rfl⟩
    · rename_i hk'
      exact absurd (hk.symm.trans hk') (by decide)
    · rename_i hnum _
      exact absurd hk hnum
  · -- a variable, which has been assigned
    rename_i hk
    cases ha
    have hknown : w₁.current.text ∈ sc.assigned :=
      hadm (.read w₁.current.text) (by simp [Factor.marks, Atom.marks])
    rcases hw₁.step_ok (Window.current_ne_eof hk rfl) with ⟨⟨w₂, h₂⟩, hstep, hw₂⟩
    refine ⟨⟨w₂, Nat.lt_of_lt_of_le h₂ h₁⟩, ?_, hw₂⟩
    rw [Factor.read]
    refine bind_eq_ok.2 ⟨_, hsign, ?_⟩
    dsimp only
    split
    · rename_i hk'
      exact absurd (hk.symm.trans hk') (by decide)
    · rw [if_pos (List.contains_iff_mem.2 hknown)]
      exact bind_eq_ok.2 ⟨_, hstep, rfl⟩
    · rename_i _ hid
      exact absurd hk hid
  · cases ha

/-- The further factors of a term are read up to a token that is no `*` or `/`. -/
theorem Term.readRest_complete {fs : List (MulOp × Factor)}
    (hc : ChainOf MulOp.ofKind FactorOf ts fs rest) (hend : HeadAvoids Kind.isMultiplicative rest)
    (hw : w.Shows ts none) (hadm : ∀ p ∈ fs, ∀ m ∈ p.2.marks, sc.names.admits m) :
    ∃ w' : w.NotBefore, Term.readRest sc w = .ok (fs, w') ∧ w'.1.Shows rest none := by
  induction hc generalizing w with
  | nil =>
    rcases hw.exists_cons with ⟨r, hts⟩
    have hnone : MulOp.ofKind w.current.kind = none :=
      MulOp.ofKind_eq_none (hend _ (by rw [hts]; rfl))
    refine ⟨⟨w, Nat.le_refl _⟩, ?_, hw⟩
    rw [Term.readRest]
    split
    · rename_i op hop
      rw [hnone] at hop
      cases hop
    · rfl
  | cons ho hf hfs ih =>
    have hcur := hw.current_eq
    subst hcur
    rcases hw.step_ok (MulOp.ne_eof_of_ofKind ho) with ⟨⟨w₁, h₁⟩, hstep, hw₁⟩
    rcases Factor.read_complete hf hw₁ (hadm _ List.mem_cons_self) with
      ⟨⟨w₂, h₂⟩, hread, hw₂⟩
    rcases ih hend hw₂ (fun p hp => hadm p (List.mem_cons_of_mem _ hp)) with
      ⟨⟨w₃, h₃⟩, hrest, hw₃⟩
    refine ⟨⟨w₃, Nat.le_of_lt (Nat.lt_of_le_of_lt h₃ (Nat.lt_trans h₂ h₁))⟩, ?_, hw₃⟩
    rw [Term.readRest]
    split
    · rename_i o' ho'
      rw [ho] at ho'
      cases ho'
      exact bind_eq_ok.2 ⟨_, hstep, bind_eq_ok.2 ⟨_, hread, bind_eq_ok.2 ⟨_, hrest, rfl⟩⟩⟩
    · rename_i hnone
      rw [ho] at hnone
      cases hnone

theorem Term.read_complete {t : Term} (ht : TermOf ts t rest)
    (hend : HeadAvoids Kind.isMultiplicative rest) (hw : w.Shows ts none)
    (hadm : ∀ m ∈ t.marks, sc.names.admits m) :
    ∃ w' : w.After, Term.read sc w = .ok (t, w') ∧ w'.1.Shows rest none := by
  cases ht with
  | mk hf hfs =>
    rename_i r₂ f fs
    have hadmf : ∀ m ∈ f.marks, sc.names.admits m :=
      fun m hm => hadm m (List.mem_append_left _ hm)
    have hadms : ∀ p ∈ fs, ∀ m ∈ p.2.marks, sc.names.admits m :=
      fun p hp m hm => hadm m (List.mem_append_right _ (List.mem_flatMap.2 ⟨p, hp, hm⟩))
    rcases Factor.read_complete hf hw hadmf with ⟨⟨w₁, h₁⟩, hread, hw₁⟩
    rcases Term.readRest_complete hfs hend hw₁ hadms with ⟨⟨w₂, h₂⟩, hrest, hw₂⟩
    refine ⟨⟨w₂, Nat.lt_of_le_of_lt h₂ h₁⟩, ?_, hw₂⟩
    rw [Term.read]
    exact bind_eq_ok.2 ⟨_, hread, bind_eq_ok.2 ⟨_, hrest, rfl⟩⟩

/-- The further terms of an expression are read up to a token that is none of `+ - * /`. -/
theorem Expr.readRest_complete {es : List (AddOp × Term)}
    (hc : ChainOf AddOp.ofKind TermOf ts es rest) (hend : HeadAvoids Kind.extendsExpr rest)
    (hw : w.Shows ts none) (hadm : ∀ p ∈ es, ∀ m ∈ p.2.marks, sc.names.admits m) :
    ∃ w' : w.NotBefore, Expr.readRest sc w = .ok (es, w') ∧ w'.1.Shows rest none := by
  induction hc generalizing w with
  | nil =>
    rcases hw.exists_cons with ⟨r, hts⟩
    have hnone : AddOp.ofKind w.current.kind = none := by
      apply AddOp.ofKind_eq_none
      have := hend _ (by rw [hts]; rfl)
      simp only [Kind.extendsExpr, Bool.or_eq_false_iff] at this
      exact this.1
    refine ⟨⟨w, Nat.le_refl _⟩, ?_, hw⟩
    rw [Expr.readRest]
    split
    · rename_i op hop
      rw [hnone] at hop
      cases hop
    · rfl
  | cons ho ht hts ih =>
    have hcur := hw.current_eq
    subst hcur
    -- The term stops before the next `+` or `-`, or where the whole sum stops.
    have hendt : HeadAvoids Kind.isMultiplicative _ :=
      hts.headAvoids (hend.mono fun _ => Kind.isMultiplicative_of_extendsExpr)
        (fun _ _ => AddOp.isMultiplicative_of_ofKind)
    rcases hw.step_ok (AddOp.ne_eof_of_ofKind ho) with ⟨⟨w₁, h₁⟩, hstep, hw₁⟩
    rcases Term.read_complete ht hendt hw₁ (hadm _ List.mem_cons_self) with
      ⟨⟨w₂, h₂⟩, hread, hw₂⟩
    rcases ih hend hw₂ (fun p hp => hadm p (List.mem_cons_of_mem _ hp)) with
      ⟨⟨w₃, h₃⟩, hrest, hw₃⟩
    refine ⟨⟨w₃, Nat.le_of_lt (Nat.lt_of_le_of_lt h₃ (Nat.lt_trans h₂ h₁))⟩, ?_, hw₃⟩
    rw [Expr.readRest]
    split
    · rename_i o' ho'
      rw [ho] at ho'
      cases ho'
      exact bind_eq_ok.2 ⟨_, hstep, bind_eq_ok.2 ⟨_, hread, bind_eq_ok.2 ⟨_, hrest, rfl⟩⟩⟩
    · rename_i hnone
      rw [ho] at hnone
      cases hnone

theorem Expr.read_complete {x : Expr} (hx : ExprOf ts x rest)
    (hend : HeadAvoids Kind.extendsExpr rest) (hw : w.Shows ts none)
    (hadm : ∀ m ∈ x.marks, sc.names.admits m) :
    ∃ w' : w.After, Expr.read sc w = .ok (x, w') ∧ w'.1.Shows rest none := by
  cases hx with
  | mk ht hts =>
    rename_i r₂ t es
    have hadmt : ∀ m ∈ t.marks, sc.names.admits m :=
      fun m hm => hadm m (List.mem_append_left _ hm)
    have hadms : ∀ p ∈ es, ∀ m ∈ p.2.marks, sc.names.admits m :=
      fun p hp m hm => hadm m (List.mem_append_right _ (List.mem_flatMap.2 ⟨p, hp, hm⟩))
    have hendt : HeadAvoids Kind.isMultiplicative r₂ :=
      hts.headAvoids (hend.mono fun _ => Kind.isMultiplicative_of_extendsExpr)
        (fun _ _ => AddOp.isMultiplicative_of_ofKind)
    rcases Term.read_complete ht hendt hw hadmt with ⟨⟨w₁, h₁⟩, hread, hw₁⟩
    rcases Expr.readRest_complete hts hend hw₁ hadms with ⟨⟨w₂, h₂⟩, hrest, hw₂⟩
    refine ⟨⟨w₂, Nat.lt_of_le_of_lt h₂ h₁⟩, ?_, hw₂⟩
    rw [Expr.read]
    exact bind_eq_ok.2 ⟨_, hread, bind_eq_ok.2 ⟨_, hrest, rfl⟩⟩

/-- The further links of a comparison are read up to a token that continues none of them. -/
theorem Comparison.readRest_complete {cs : List (Relation × Expr)}
    (hc : ChainOf Relation.ofKind ExprOf ts cs rest)
    (hend : HeadAvoids Kind.extendsComparison rest) (hw : w.Shows ts none)
    (hadm : ∀ p ∈ cs, ∀ m ∈ p.2.marks, sc.names.admits m) :
    ∃ w' : w.NotBefore, Comparison.readRest sc w = .ok (cs, w') ∧ w'.1.Shows rest none := by
  induction hc generalizing w with
  | nil =>
    rcases hw.exists_cons with ⟨r, hts⟩
    have hnone : Relation.ofKind w.current.kind = none := by
      apply Relation.ofKind_eq_none
      have := hend _ (by rw [hts]; rfl)
      simp only [Kind.extendsComparison, Bool.or_eq_false_iff] at this
      exact this.1
    refine ⟨⟨w, Nat.le_refl _⟩, ?_, hw⟩
    rw [Comparison.readRest]
    split
    · rename_i rel hrel
      rw [hnone] at hrel
      cases hrel
    · rfl
  | cons hrel hx hcs ih =>
    have hcur := hw.current_eq
    subst hcur
    have hendx : HeadAvoids Kind.extendsExpr _ :=
      hcs.headAvoids (hend.mono fun _ => Kind.extendsExpr_of_extendsComparison)
        (fun _ _ => Relation.extendsExpr_of_ofKind)
    rcases hw.step_ok (Relation.ne_eof_of_ofKind hrel) with ⟨⟨w₁, h₁⟩, hstep, hw₁⟩
    rcases Expr.read_complete hx hendx hw₁ (hadm _ List.mem_cons_self) with
      ⟨⟨w₂, h₂⟩, hread, hw₂⟩
    rcases ih hend hw₂ (fun p hp => hadm p (List.mem_cons_of_mem _ hp)) with
      ⟨⟨w₃, h₃⟩, hrest, hw₃⟩
    refine ⟨⟨w₃, Nat.le_of_lt (Nat.lt_of_le_of_lt h₃ (Nat.lt_trans h₂ h₁))⟩, ?_, hw₃⟩
    rw [Comparison.readRest]
    split
    · rename_i rel' hrel'
      rw [hrel] at hrel'
      cases hrel'
      exact bind_eq_ok.2 ⟨_, hstep, bind_eq_ok.2 ⟨_, hread, bind_eq_ok.2 ⟨_, hrest, rfl⟩⟩⟩
    · rename_i hnone
      rw [hrel] at hnone
      cases hnone

theorem Comparison.read_complete {c : Comparison} (hc : ComparisonOf ts c rest)
    (hend : HeadAvoids Kind.extendsComparison rest) (hw : w.Shows ts none)
    (hadm : ∀ m ∈ c.marks, sc.names.admits m) :
    ∃ w' : w.After, Comparison.read sc w = .ok (c, w') ∧ w'.1.Shows rest none := by
  cases hc with
  | mk hl hrel hr hmore =>
    rename_i r₂ r₃ t l r rel more
    have hadml : ∀ m ∈ l.marks, sc.names.admits m :=
      fun m hm => hadm m (List.mem_append_left _ (List.mem_append_left _ hm))
    have hadmr : ∀ m ∈ r.marks, sc.names.admits m :=
      fun m hm => hadm m (List.mem_append_left _ (List.mem_append_right _ hm))
    have hadms : ∀ p ∈ more, ∀ m ∈ p.2.marks, sc.names.admits m :=
      fun p hp m hm => hadm m (List.mem_append_right _ (List.mem_flatMap.2 ⟨p, hp, hm⟩))
    -- The left operand stops at the operator, the right one where the chain goes on or stops.
    have hendl : HeadAvoids Kind.extendsExpr (t :: r₂) :=
      fun _ ht => by cases ht; exact Relation.extendsExpr_of_ofKind hrel
    have hendr : HeadAvoids Kind.extendsExpr r₃ :=
      hmore.headAvoids (hend.mono fun _ => Kind.extendsExpr_of_extendsComparison)
        (fun _ _ => Relation.extendsExpr_of_ofKind)
    rcases Expr.read_complete hl hendl hw hadml with ⟨⟨w₁, h₁⟩, hleft, hw₁⟩
    have hcur := hw₁.current_eq
    subst hcur
    rcases hw₁.step_ok (Relation.ne_eof_of_ofKind hrel) with ⟨⟨w₂, h₂⟩, hstep, hw₂⟩
    rcases Expr.read_complete hr hendr hw₂ hadmr with ⟨⟨w₃, h₃⟩, hright, hw₃⟩
    rcases Comparison.readRest_complete hmore hend hw₃ hadms with ⟨⟨w₄, h₄⟩, hrest, hw₄⟩
    refine ⟨⟨w₄, Nat.lt_of_le_of_lt h₄ (Nat.lt_trans h₃ (Nat.lt_trans h₂ h₁))⟩, ?_, hw₄⟩
    rw [Comparison.read]
    refine bind_eq_ok.2 ⟨_, hleft, ?_⟩
    dsimp only
    split
    · rename_i rel' hrel'
      rw [hrel] at hrel'
      cases hrel'
      exact bind_eq_ok.2 ⟨_, hstep, bind_eq_ok.2 ⟨_, hright, bind_eq_ok.2 ⟨_, hrest, rfl⟩⟩⟩
    · rename_i hnone
      rw [hrel] at hnone
      cases hnone

end Expressions

/-! ## Statements -/

/-- The kinds that start a statement. -/
def Kind.startsStmt : Kind → Bool
  | .printKw | .ifKw | .whileKw | .labelKw | .gotoKw | .letKw | .inputKw => true
  | _ => false

/-- The line break. -/
def Kind.isNewline : Kind → Bool
  | .newline => true
  | _ => false

theorem Kind.isNewline_of_startsStmt {k : Kind} (h : k.startsStmt = true) :
    k.isNewline = false := by
  cases k <;> first | rfl | cases h

theorem HeadAvoids.ne_newline {r : List Token} (h : HeadAvoids Kind.isNewline r) :
    ∀ t ∈ r.head?, t.kind ≠ .newline := by
  intro t ht hk
  have := h t ht
  rw [hk] at this
  cases this

theorem StmtOf.exists_head {ts rest : List Token} {s : Stmt} (hs : StmtOf ts s rest) :
    ∃ t ts', ts = t :: ts' ∧ t.kind.startsStmt = true := by
  cases hs with
  | printText hp => exact ⟨_, _, rfl, by rw [hp]; rfl⟩
  | printValue hp => exact ⟨_, _, rfl, by rw [hp]; rfl⟩
  | ifThen hi => exact ⟨_, _, rfl, by rw [hi]; rfl⟩
  | whileRepeat hi => exact ⟨_, _, rfl, by rw [hi]; rfl⟩
  | label hl => exact ⟨_, _, rfl, by rw [hl]; rfl⟩
  | goto hg => exact ⟨_, _, rfl, by rw [hg]; rfl⟩
  | assign hl => exact ⟨_, _, rfl, by rw [hl]; rfl⟩
  | input hi => exact ⟨_, _, rfl, by rw [hi]; rfl⟩

/-- A statement starts with a token that no other reading can take: a keyword. -/
theorem StmtOf.headAvoids {ts rest : List Token} {s : Stmt} {p : Kind → Bool}
    (hs : StmtOf ts s rest) (hp : ∀ k, k.startsStmt = true → p k = false) : HeadAvoids p ts := by
  rcases hs.exists_head with ⟨t, ts', rfl, ht⟩
  intro t' ht'
  cases ht'
  exact hp _ ht

/-- A block starts with a statement, or is empty and starts where it ends. -/
theorem BlockOf.headAvoids {ts rest : List Token} {ss : List Stmt} {p : Kind → Bool}
    (hss : BlockOf ts ss rest) (hend : HeadAvoids p rest)
    (hp : ∀ k, k.startsStmt = true → p k = false) : HeadAvoids p ts := by
  cases hss with
  | nil => exact hend
  | cons hs _ => exact hs.headAvoids hp

theorem FactorOf.head_ne_string {ts rest : List Token} {f : Factor} (hf : FactorOf ts f rest) :
    ∀ t ∈ ts.head?, t.kind ≠ .string := by
  cases hf with
  | bare ha =>
    intro t ht hk
    cases ht
    simp [Atom.ofToken?, hk] at ha
  | signed hs =>
    intro t ht hk
    cases ht
    simp [Sign.ofKind, hk] at hs

theorem ExprOf.head_ne_string {ts rest : List Token} {x : Expr} (hx : ExprOf ts x rest) :
    ∀ t ∈ ts.head?, t.kind ≠ .string := by
  rcases hx with ⟨⟨hf, -⟩, -⟩
  exact hf.head_ne_string

theorem BreakOf.headAvoids {ts rest : List Token} {p : Kind → Bool} (hb : BreakOf ts rest)
    (hp : p .newline = false) : HeadAvoids p ts := by
  cases hb with
  | mk ht _ =>
    intro t' ht'
    cases ht'
    rw [ht]
    exact hp

theorem Window.Shows.current_of_head {w : Window} {ts : List Token} {P : Token → Prop}
    (h : w.Shows ts none) (hp : ∀ t ∈ ts.head?, P t) : P w.current := by
  obtain ⟨_, rfl⟩ := h.exists_cons
  exact hp _ rfl

/-- A keyword, or a name, that ends a line: the form that closes a condition, a block, and the
statements that take one name. -/
theorem Window.Shows.expect_lineBreak_ok {w : Window} {t : Token} {r₁ r₂ : List Token} {k : Kind}
    (hk : k.isEnd = false) (hint : Option String) (ht : t.kind = k) (hb : BreakOf r₁ r₂)
    (hend : HeadAvoids Kind.isNewline r₂) (hw : w.Shows (t :: r₁) none) :
    ∃ (w₁ : w.After) (w₂ : w₁.1.After), w.expect k hk hint = .ok (t, w₁) ∧
      w₁.1.lineBreak = .ok w₂ ∧ w₂.1.Shows r₂ none := by
  rcases hw.expect_ok hk hint ht with ⟨w₁, hexp, hw₁⟩
  rcases hw₁.lineBreak_ok hb hend.ne_newline with ⟨w₂, hbreak, hw₂⟩
  exact ⟨w₁, w₂, hexp, hbreak, hw₂⟩

/-- An `IF` or a `WHILE` of the grammar whose names the scope admits is read whole, given that its
body is. -/
theorem Stmt.readGuarded_complete {sc : Scope} {w : Window} {th en : Token}
    {r₁ r₂ r₃ r₄ r₅ : List Token} {c : Comparison} {body : List Stmt} (g : Guard)
    (hk : w.current.kind = g.keyword) (hc : ComparisonOf r₁ c (th :: r₂)) (hth : th.kind = g.sep)
    (hb : BreakOf r₂ r₃) (hbody : BlockOf r₃ body (en :: r₄)) (hen : en.kind = g.stop)
    (hb' : BreakOf r₄ r₅) (hend : HeadAvoids Kind.isNewline r₅)
    (hw : w.Shows (w.current :: r₁) none) (hadm : sc.names.Admits (g.make c body).marks)
    (hblock : ∀ {sc : Scope} {v : Window}, v.Shows r₃ none →
      sc.names.Admits (Stmt.blockMarks body) → ∃ (sc₁ : Scope) (v' : v.NotBefore),
        Stmt.readBlock g.stop g.stopHint sc v = .ok (body, sc₁, v') ∧ v'.1.Shows (en :: r₄) none) :
    ∃ (sc' : Scope) (w' : w.After),
      Stmt.readGuarded (fun x => x) Stmt.readBlock g sc w hk = .ok (g.make c body, sc', w') ∧
        w'.1.Shows r₅ none := by
  rw [Guard.marks_make, Names.admits_append, Names.recordAll_of_isRead c.marks_isRead] at hadm
  rcases hw.step_ok (Guard.ne_eof hk) with ⟨⟨w₁, h₁⟩, hstep, hw₁⟩
  have hsep : HeadAvoids Kind.extendsComparison (th :: r₂) := fun _ ht => by
    cases ht
    rw [hth]
    cases g <;> rfl
  -- the comparison is read once the statement's opening text is emitted
  have hadmc : ∀ m ∈ c.marks, (sc.emit g.opener).names.admits m :=
    (Names.admits_of_isRead c.marks_isRead).1 hadm.1
  rcases Comparison.read_complete hc hsep hw₁ hadmc with ⟨⟨w₂, h₂⟩, hcmp, hw₂⟩
  -- The body stops at its closing keyword, so the break before it is not followed by another.
  have hbody_nl : HeadAvoids Kind.isNewline r₃ :=
    hbody.headAvoids (fun t ht => by cases ht; rw [hen]; cases g <;> rfl)
      (fun _ => Kind.isNewline_of_startsStmt)
  rcases hw₂.expect_lineBreak_ok g.sep_isEnd (some g.sepHint) hth hb hbody_nl with
    ⟨⟨w₃, h₃⟩, ⟨w₄, h₄⟩, hexp, hbreak, hw₄⟩
  have hadmb : (((sc.emit g.opener).emitAll c.fragments).emitLine ") \x7b").names.Admits
      (Stmt.blockMarks body) := by
    simpa only [Scope.emitLine_eq, Scope.names_emit, Scope.names_emitAll] using hadm.2
  rcases hblock hw₄ hadmb with ⟨sc₁, ⟨w₅, h₅⟩, hblk, hw₅⟩
  rcases hw₅.expect_lineBreak_ok g.stop_isEnd none hen hb' hend with
    ⟨⟨w₆, h₆⟩, ⟨w₇, h₇⟩, hexp', hbreak', hw₇⟩
  apply Exists.intro
  refine ⟨⟨w₇, Nat.lt_trans h₇ (Nat.lt_trans h₆ (Nat.lt_of_le_of_lt h₅
    (Nat.lt_trans h₄ (Nat.lt_trans h₃ (Nat.lt_trans h₂ h₁)))))⟩, ?_, hw₇⟩
  unfold Stmt.readGuarded
  exact bind_eq_ok.2 ⟨_, hstep, bind_eq_ok.2 ⟨_, hcmp, bind_eq_ok.2 ⟨_, hexp,
    bind_eq_ok.2 ⟨_, hbreak, bind_eq_ok.2 ⟨_, hblk, bind_eq_ok.2 ⟨_, hexp',
    bind_eq_ok.2 ⟨_, hbreak', rfl⟩⟩⟩⟩⟩⟩⟩

section Statements

mutual

/-- A statement of the grammar whose names the scope admits is read whole, provided the line
break that ends it is not followed by one more. -/
theorem Stmt.read_complete {sc : Scope} {w : Window} {ts rest : List Token} {s : Stmt}
    (hs : StmtOf ts s rest) (hend : HeadAvoids Kind.isNewline rest) (hw : w.Shows ts none)
    (hadm : sc.names.Admits s.marks) :
    ∃ (sc' : Scope) (w' : w.After), Stmt.read sc w = .ok (s, sc', w') ∧ w'.1.Shows rest none :=
  match hs, hend, hw, hadm with
  | @StmtOf.printText p t r₁ _ hp ht hb, hend, hw, _ => by
    have hcur := hw.current_eq
    subst hcur
    rcases hw.step_ok (by rw [hp]; decide) with ⟨⟨w₁, h₁⟩, hstep, hw₁⟩
    have hcur₁ := hw₁.current_eq
    subst hcur₁
    rcases hw₁.step_ok (by rw [ht]; decide) with ⟨⟨w₂, h₂⟩, hstep₂, hw₂⟩
    rcases hw₂.lineBreak_ok hb hend.ne_newline with ⟨⟨w₃, h₃⟩, hbreak, hw₃⟩
    apply Exists.intro
    refine ⟨⟨w₃, Nat.lt_trans h₃ (Nat.lt_trans h₂ h₁)⟩, ?_, hw₃⟩
    rw [Stmt.read]
    split
    all_goals first
      | (exfalso; rename_i h; revert h; rw [hp]; decide)
      | exact absurd hp ‹_›
      | skip
    refine bind_eq_ok.2 ⟨_, hstep, ?_⟩
    dsimp only
    rw [dif_pos ht]
    exact bind_eq_ok.2 ⟨_, hstep₂, bind_eq_ok.2 ⟨_, hbreak, rfl⟩⟩
  | @StmtOf.printValue p r₁ r₂ _ x hp hx hb, hend, hw, hadm => by
    have hcur := hw.current_eq
    subst hcur
    rcases hw.step_ok (by rw [hp]; decide) with ⟨⟨w₁, h₁⟩, hstep, hw₁⟩
    -- An expression never starts with a string, so the reader takes the second branch.
    have hns : w₁.current.kind ≠ .string := hw₁.current_of_head hx.head_ne_string
    have hbrk : HeadAvoids Kind.extendsExpr r₂ := hb.headAvoids rfl
    have hadmx : ∀ m ∈ x.marks, (sc.emit sc.precision.printOpener).names.admits m :=
      (Names.admits_of_isRead x.marks_isRead).1 hadm
    rcases Expr.read_complete hx hbrk hw₁ hadmx with ⟨⟨w₂, h₂⟩, hexpr, hw₂⟩
    rcases hw₂.lineBreak_ok hb hend.ne_newline with ⟨⟨w₃, h₃⟩, hbreak, hw₃⟩
    apply Exists.intro
    refine ⟨⟨w₃, Nat.lt_trans h₃ (Nat.lt_trans h₂ h₁)⟩, ?_, hw₃⟩
    rw [Stmt.read]
    split
    all_goals first
      | (exfalso; rename_i h; revert h; rw [hp]; decide)
      | exact absurd hp ‹_›
      | skip
    refine bind_eq_ok.2 ⟨_, hstep, ?_⟩
    dsimp only
    rw [dif_neg hns]
    exact bind_eq_ok.2 ⟨_, hexpr, bind_eq_ok.2 ⟨_, hbreak, rfl⟩⟩
  | @StmtOf.ifThen i th en r₁ r₂ r₃ r₄ _ c body hi hc hth hb hbody hen hb', hend, hw, hadm => by
    have hcur := hw.current_eq
    subst hcur
    rw [Stmt.read_of_guard .ifThen hi]
    exact Stmt.readGuarded_complete .ifThen hi hc hth hb hbody hen hb' hend hw hadm
      fun hv hadm => Stmt.readBlock_complete _ hbody (fun _ ht => by cases ht; exact hen)
        (.inl rfl) hv hadm
  | @StmtOf.whileRepeat i th en r₁ r₂ r₃ r₄ _ c body hi hc hth hb hbody hen hb', hend, hw,
      hadm => by
    have hcur := hw.current_eq
    subst hcur
    rw [Stmt.read_of_guard .whileRepeat hi]
    exact Stmt.readGuarded_complete .whileRepeat hi hc hth hb hbody hen hb' hend hw hadm
      fun hv hadm => Stmt.readBlock_complete _ hbody (fun _ ht => by cases ht; exact hen)
        (.inr rfl) hv hadm
  | @StmtOf.label l n r₁ _ hl hn hb, hend, hw, hadm => by
    have hcur := hw.current_eq
    subst hcur
    rcases hw.step_ok (by rw [hl]; decide) with ⟨⟨w₁, h₁⟩, hstep, hw₁⟩
    rcases hw₁.expect_lineBreak_ok rfl (some "LABEL needs a name") hn hb hend with
      ⟨⟨w₂, h₂⟩, ⟨w₃, h₃⟩, hname, hbreak, hw₃⟩
    -- The scope admits the label, so its name is not taken yet.
    have hfresh : sc.labelAt? n.text = none := Scope.labelAt?_eq_none_iff.2 hadm.1
    apply Exists.intro
    refine ⟨⟨w₃, Nat.lt_trans h₃ (Nat.lt_trans h₂ h₁)⟩, ?_, hw₃⟩
    rw [Stmt.read]
    split
    all_goals first
      | (exfalso; rename_i h; revert h; rw [hl]; decide)
      | exact absurd hl ‹_›
      | skip
    refine bind_eq_ok.2 ⟨_, hstep, bind_eq_ok.2 ⟨_, hname, ?_⟩⟩
    dsimp only
    rw [hfresh]
    exact bind_eq_ok.2 ⟨_, hbreak, rfl⟩
  | @StmtOf.goto g n r₁ _ hg hn hb, hend, hw, _ => by
    have hcur := hw.current_eq
    subst hcur
    rcases hw.step_ok (by rw [hg]; decide) with ⟨⟨w₁, h₁⟩, hstep, hw₁⟩
    rcases hw₁.expect_lineBreak_ok rfl (some "GOTO needs a label name") hn hb hend with
      ⟨⟨w₂, h₂⟩, ⟨w₃, h₃⟩, hname, hbreak, hw₃⟩
    apply Exists.intro
    refine ⟨⟨w₃, Nat.lt_trans h₃ (Nat.lt_trans h₂ h₁)⟩, ?_, hw₃⟩
    rw [Stmt.read]
    split
    all_goals first
      | (exfalso; rename_i h; revert h; rw [hg]; decide)
      | exact absurd hg ‹_›
      | skip
    exact bind_eq_ok.2 ⟨_, hstep, bind_eq_ok.2 ⟨_, hname, bind_eq_ok.2 ⟨_, hbreak, rfl⟩⟩⟩
  | @StmtOf.assign l n q r₁ r₂ _ x hl hn hq hx hb, hend, hw, hadm => by
    have hcur := hw.current_eq
    subst hcur
    rcases hw.step_ok (by rw [hl]; decide) with ⟨⟨w₁, h₁⟩, hstep, hw₁⟩
    rcases hw₁.expect_ok rfl (some "LET needs a variable name") hn with ⟨⟨w₂, h₂⟩, hname, hw₂⟩
    rcases hw₂.expect_ok rfl none hq with ⟨⟨w₃, h₃⟩, heq, hw₃⟩
    -- The expression is read in the scope where the target is already assigned.
    have hadmx : ∀ m ∈ x.marks, ((sc.declare n.text).emit (n.text ++ " = ")).names.admits m := by
      rw [Scope.names_emit, Scope.names_declare]
      exact (Names.admits_of_isRead x.marks_isRead).1 hadm.2
    rcases Expr.read_complete hx (hb.headAvoids rfl) hw₃ hadmx with ⟨⟨w₄, h₄⟩, hexpr, hw₄⟩
    rcases hw₄.lineBreak_ok hb hend.ne_newline with ⟨⟨w₅, h₅⟩, hbreak, hw₅⟩
    apply Exists.intro
    refine ⟨⟨w₅,
      Nat.lt_trans h₅ (Nat.lt_trans h₄ (Nat.lt_trans h₃ (Nat.lt_trans h₂ h₁)))⟩, ?_, hw₅⟩
    rw [Stmt.read]
    split
    all_goals first
      | (exfalso; rename_i h; revert h; rw [hl]; decide)
      | exact absurd hl ‹_›
      | skip
    exact bind_eq_ok.2 ⟨_, hstep, bind_eq_ok.2 ⟨_, hname, bind_eq_ok.2 ⟨_, heq,
      bind_eq_ok.2 ⟨_, hexpr, bind_eq_ok.2 ⟨_, hbreak, rfl⟩⟩⟩⟩⟩
  | @StmtOf.input i n r₁ _ hi hn hb, hend, hw, _ => by
    have hcur := hw.current_eq
    subst hcur
    rcases hw.step_ok (by rw [hi]; decide) with ⟨⟨w₁, h₁⟩, hstep, hw₁⟩
    rcases hw₁.expect_lineBreak_ok rfl (some "INPUT needs a variable name") hn hb hend with
      ⟨⟨w₂, h₂⟩, ⟨w₃, h₃⟩, hname, hbreak, hw₃⟩
    apply Exists.intro
    refine ⟨⟨w₃, Nat.lt_trans h₃ (Nat.lt_trans h₂ h₁)⟩, ?_, hw₃⟩
    rw [Stmt.read]
    split
    all_goals first
      | (exfalso; rename_i h; revert h; rw [hi]; decide)
      | exact absurd hi ‹_›
      | skip
    exact bind_eq_ok.2 ⟨_, hstep, bind_eq_ok.2 ⟨_, hname, bind_eq_ok.2 ⟨_, hbreak, rfl⟩⟩⟩

/-- A block of the grammar that ends at its closing keyword is read up to that keyword. -/
theorem Stmt.readBlock_complete {sc : Scope} {w : Window} {ts rest : List Token}
    {stop : Kind} (hint : String) {ss : List Stmt}
    (hss : BlockOf ts ss rest) (hen : ∀ t ∈ rest.head?, t.kind = stop)
    (hstop : stop = .endifKw ∨ stop = .endwhileKw) (hw : w.Shows ts none)
    (hadm : sc.names.Admits (Stmt.blockMarks ss)) :
    ∃ (sc' : Scope) (w' : w.NotBefore), Stmt.readBlock stop hint sc w = .ok (ss, sc', w') ∧
      w'.1.Shows rest none :=
  match hss, hen, hw, hadm with
  | .nil, hen, hw, _ => by
    refine ⟨sc, ⟨w, Nat.le_refl _⟩, ?_, hw⟩
    rw [Stmt.readBlock, if_pos (hw.current_of_head hen)]
    rfl
  | @BlockOf.cons _ r₂ _ s ss' hs hss', hen, hw, hadm => by
    rw [Stmt.blockMarks_cons, Names.admits_append] at hadm
    -- The closing keyword is neither a line break nor the start of a statement.
    have hclose : stop.startsStmt = false ∧ stop.isNewline = false := by
      rcases hstop with rfl | rfl <;> exact ⟨rfl, rfl⟩
    have hend : HeadAvoids Kind.isNewline r₂ :=
      hss'.headAvoids (fun t ht => by rw [hen t ht]; exact hclose.2)
        (fun _ => Kind.isNewline_of_startsStmt)
    rcases Stmt.read_complete hs hend hw hadm.1 with ⟨sc₁, ⟨w₁, h₁⟩, hread, hw₁⟩
    rcases Stmt.read_sound hread hw with ⟨_, -, -, -, hsc₁⟩
    rw [← hsc₁] at hadm
    rcases Stmt.readBlock_complete hint hss' hen hstop hw₁ hadm.2 with ⟨sc₂, ⟨w₂, h₂⟩, hblock, hw₂⟩
    refine ⟨sc₂, ⟨w₂, Nat.le_of_lt (Nat.lt_of_le_of_lt h₂ h₁)⟩, ?_, hw₂⟩
    -- A statement starts with a keyword, which is not the one that closes the block.
    rcases hs.exists_head with ⟨t, _, rfl, ht⟩
    have hcur := hw.current_eq
    have hne : w.current.kind ≠ stop := by
      rw [hcur]
      intro h
      rw [h, hclose.1] at ht
      cases ht
    have hne' : w.current.kind ≠ .eof := by
      rw [hcur]
      intro h
      rw [h] at ht
      cases ht
    rw [Stmt.readBlock, if_neg hne, if_neg hne']
    exact bind_eq_ok.2 ⟨_, hread, bind_eq_ok.2 ⟨_, hblock, rfl⟩⟩

end

/-- The statements of a program, up to the end token, are read whole. -/
theorem Program.readFrom_complete {sc : Scope} {w : Window} {ts rest : List Token}
    {prog : Program} (hss : BlockOf ts prog rest) (hen : ∀ t ∈ rest.head?, t.kind = .eof)
    (hw : w.Shows ts none) (hadm : sc.names.Admits (Stmt.blockMarks prog)) :
    ∃ (sc' : Scope) (w' : w.NotBefore), Program.readFrom sc w = .ok (prog, sc', w') ∧
      w'.1.Shows rest none := by
  -- The reader takes one statement at a time, so the induction is on the statements.
  induction prog generalizing sc w ts with
  | nil =>
    cases hss
    refine ⟨sc, ⟨w, Nat.le_refl _⟩, ?_, hw⟩
    rw [Program.readFrom, if_pos (hw.current_of_head hen)]
    rfl
  | cons s ss ih =>
    rcases hss with _ | ⟨hs, hss'⟩
    rename_i r₂
    rw [Stmt.blockMarks_cons, Names.admits_append] at hadm
    have hend : HeadAvoids Kind.isNewline r₂ :=
      hss'.headAvoids (fun t ht => by rw [hen t ht]; rfl) (fun _ => Kind.isNewline_of_startsStmt)
    rcases Stmt.read_complete hs hend hw hadm.1 with ⟨sc₁, ⟨w₁, h₁⟩, hread, hw₁⟩
    rcases Stmt.read_sound hread hw with ⟨_, -, -, -, hsc₁⟩
    rw [← hsc₁] at hadm
    rcases ih hss' hw₁ hadm.2 with ⟨sc₂, ⟨w₂, h₂⟩, hrest, hw₂⟩
    refine ⟨sc₂, ⟨w₂, Nat.le_of_lt (Nat.lt_of_le_of_lt h₂ h₁)⟩, ?_, hw₂⟩
    -- A statement does not start with the end token.
    have hne : w.current.kind ≠ .eof := by
      rcases hs.exists_head with ⟨t, _, rfl, ht⟩
      rw [hw.current_eq]
      intro h
      rw [h] at ht
      cases ht
    rw [Program.readFrom, if_neg hne]
    exact bind_eq_ok.2 ⟨_, hread, bind_eq_ok.2 ⟨_, hrest, rfl⟩⟩

end Statements

/-! ## Programs -/

/-- A sentence whose reads are assigned before and whose labels are distinct is read to its
end: the window opens, the empty lines are passed, and the statements are read as the grammar
gives them, into a scope that has recorded every mark. -/
theorem Program.read_complete {p : Precision} {file source : String} {ts : List Token}
    {prog : Program}
    (htok : (TokenStream.start file source).tokens = (ts, none)) (hs : SentenceOf ts prog)
    (hab : AssignedBeforeRead (Stmt.blockMarks prog))
    (hld : LabelsDistinct (Stmt.blockMarks prog)) :
    ∃ (w : Window) (w₁ : w.NotBefore) (sc : Scope) (w₂ : w₁.1.NotBefore),
      Window.start (TokenStream.start file source) = .ok w ∧ w.skipNewlines = .ok w₁ ∧
      Program.readFrom (Scope.initial p) w₁.1 = .ok (prog, sc, w₂) ∧
      sc.names = Names.empty.recordAll (Stmt.blockMarks prog) := by
  rcases hs with ⟨hblank, hprog, he⟩
  rename_i r e
  rcases Window.start_ok htok with ⟨w, hstart⟩
  have hw := Window.shows_start htok hstart
  have hend : ∀ t ∈ [e].head?, t.kind = .eof := fun _ ht => by cases ht; exact he
  -- The statements start with a keyword or are the end itself: no line break is left over.
  have hr : HeadAvoids Kind.isNewline r :=
    hprog.headAvoids (fun t ht => by rw [hend t ht]; rfl) (fun _ => Kind.isNewline_of_startsStmt)
  rcases hw.skipNewlines_ok hblank hr.ne_newline with ⟨⟨w₁, h₁⟩, hskip, hw₁⟩
  have hadm : (Scope.initial p).names.Admits (Stmt.blockMarks prog) := by
    rw [Scope.names_initial]
    exact Names.admits_empty_iff.2 ⟨hab, hld⟩
  rcases Program.readFrom_complete hprog hend hw₁ hadm with ⟨sc, w₂, hread, -⟩
  rcases Program.readFrom_sound hread hw₁ with ⟨_, -, -, -, -, hnames⟩
  rw [Scope.names_initial] at hnames
  exact ⟨w, ⟨w₁, h₁⟩, sc, w₂, hstart, hskip, hread, hnames⟩

/-- A sentence of the grammar that passes the three checks on its names is accepted, and read
as the statements the grammar gives it. -/
theorem Program.parse_complete {p : Precision} {file source : String} {ts : List Token}
    {prog : Program} (htok : (TokenStream.start file source).tokens = (ts, none))
    (hs : SentenceOf ts prog) (hsc : WellScoped prog) :
    ∃ r, Program.parse p file source = .ok r ∧ r.program = prog := by
  rcases Program.read_complete htok hs hsc.assignedBeforeRead hsc.labelsDistinct with
    ⟨w, w₁, sc, ⟨w₂, h₂⟩, hstart, hskip, hread, hnames⟩
  -- The scope at the end has recorded every jump and every label, so no jump dangles.
  have hdangling : sc.danglingJump? = none := by
    rw [Scope.danglingJump?_eq_none_iff, hnames]
    exact Names.jumpsLand_iff.1 hsc.jumpsLand
  refine ⟨⟨prog, sc.assigned, sc.labels.map (·.1), w₂.taken,
    ((sc.emitLine "return 0;").emitLine "\x7d").out⟩, ?_, rfl⟩
  rw [Program.parse]
  refine bind_eq_ok.2 ⟨_, hstart, bind_eq_ok.2 ⟨_, hskip, bind_eq_ok.2 ⟨_, hread, ?_⟩⟩⟩
  simp only [Scope.emitLine_eq, Scope.emit_danglingJump?, hdangling]
  rfl

/-- The parser accepts a source exactly when the scanner reads all of it without a fault, its
tokens form a sentence of the grammar, and the program they stand for reads only assigned
variables, declares each label once and jumps only to declared labels. -/
theorem Program.parse_ok_iff (p : Precision) (file source : String) :
    (∃ r, Program.parse p file source = .ok r) ↔
      ∃ ts prog, (TokenStream.start file source).tokens = (ts, none) ∧ SentenceOf ts prog ∧
        WellScoped prog := by
  constructor
  · rintro ⟨r, h⟩
    rcases Program.parse_sound h with ⟨ts, htok, hs, hsc⟩
    exact ⟨ts, r.program, htok, hs, hsc⟩
  · rintro ⟨ts, prog, htok, hs, hsc⟩
    rcases Program.parse_complete htok hs hsc with ⟨r, h, -⟩
    exact ⟨r, h⟩

end TinyBasic
