import TinyBasic.Proofs.Scoping
import TinyBasic.Proofs.Lookahead
import TinyBasic.Proofs.Guard
/-!
# What the parser reads is in the grammar

Soundness of every reader: when a reader returns, the tokens it passed form a phrase of its
grammar rule that stands for what it returned, the window after it shows the tokens after the
phrase, and the names the phrase mentions passed the checks against the scope it was given.
The scope it returns is the one it was given with those names recorded.

Each reader is taken apart one `bind` at a time (`bind_eq_ok`); the loops are proved by the
induction principles of their own recursion, and the mutual pair `Stmt.read` /
`Stmt.readBlock` by strong induction on the size of the window.
-/

namespace TinyBasic

theorem bind_eq_ok {ε α β : Type} {x : Except ε α} {f : α → Except ε β} {b : β} :
    x >>= f = .ok b ↔ ∃ a, x = .ok a ∧ f a = .ok b := by
  cases x with
  | error d => simp [bind, Except.bind]
  | ok a => simp [bind, Except.bind]

theorem pure_eq_ok {ε α : Type} {a b : α} : (pure a : Except ε α) = .ok b ↔ a = b := by
  simp [pure, Except.pure]

/-! ## Reads only -/

/-- A mark that reads a variable. -/
def Mark.IsRead (m : Mark) : Prop := ∃ n, m = .read n

theorem Names.record_of_isRead {ns : Names} {m : Mark} (h : m.IsRead) : ns.record m = ns := by
  obtain ⟨n, rfl⟩ := h
  rfl

theorem Names.recordAll_of_isRead {ns : Names} {ms : List Mark} (h : ∀ m ∈ ms, m.IsRead) :
    ns.recordAll ms = ns := by
  induction ms with
  | nil => rfl
  | cons m ms ih =>
    rw [recordAll_cons, record_of_isRead (h m List.mem_cons_self)]
    exact ih fun m' hm' => h m' (List.mem_cons_of_mem _ hm')

theorem Names.admits_of_isRead {ns : Names} {ms : List Mark} (h : ∀ m ∈ ms, m.IsRead) :
    ns.Admits ms ↔ ∀ m ∈ ms, ns.admits m := by
  induction ms with
  | nil => simp
  | cons m ms ih =>
    rw [admits_cons, record_of_isRead (h m List.mem_cons_self),
      ih fun m' hm' => h m' (List.mem_cons_of_mem _ hm'), List.forall_mem_cons]

theorem Factor.marks_isRead (f : Factor) : ∀ m ∈ f.marks, m.IsRead := by
  intro m hm
  cases hf : f.atom with
  | number t => simp [Factor.marks, hf, Atom.marks] at hm
  | var n =>
    simp only [Factor.marks, hf, Atom.marks, List.mem_singleton] at hm
    exact ⟨n, hm⟩

theorem Term.marks_isRead (t : Term) : ∀ m ∈ t.marks, m.IsRead := by
  intro m hm
  simp only [Term.marks, List.mem_append, List.mem_flatMap] at hm
  rcases hm with hm | ⟨p, -, hm⟩
  · exact t.first.marks_isRead m hm
  · exact p.2.marks_isRead m hm

theorem Expr.marks_isRead (e : Expr) : ∀ m ∈ e.marks, m.IsRead := by
  intro m hm
  simp only [Expr.marks, List.mem_append, List.mem_flatMap] at hm
  rcases hm with hm | ⟨p, -, hm⟩
  · exact e.first.marks_isRead m hm
  · exact p.2.marks_isRead m hm

theorem Comparison.marks_isRead (c : Comparison) : ∀ m ∈ c.marks, m.IsRead := by
  intro m hm
  simp only [Comparison.marks, List.mem_append, List.mem_flatMap] at hm
  rcases hm with (hm | hm) | ⟨p, -, hm⟩
  · exact c.left.marks_isRead m hm
  · exact c.right.marks_isRead m hm
  · exact p.2.marks_isRead m hm

/-! ## Expressions -/

section Expressions

variable {sc : Scope} {w : Window} {ts : List Token} {e : Option Diagnostic}

/-- An optional sign passes one sign token, or nothing. -/
theorem Sign.read?_sound {sg : Option Sign} {w' : w.NotBefore}
    (h : Sign.read? w = .ok (sg, w')) (hw : w.Shows ts e) :
    ∃ pre rest, ts = pre ++ rest ∧ SignTokens pre sg ∧ w'.1.Shows rest e := by
  unfold Sign.read? at h
  split at h
  · rename_i s hs
    rcases bind_eq_ok.1 h with ⟨⟨w₁, h₁⟩, hstep, h⟩
    have h' := pure_eq_ok.1 h
    simp only [Prod.mk.injEq] at h'
    rcases h' with ⟨rfl, rfl⟩
    rcases hw.exists_cons with ⟨rest, rfl⟩
    exact ⟨[w.current], rest, rfl, hs, hw.step hstep⟩
  · have h' := pure_eq_ok.1 h
    simp only [Prod.mk.injEq] at h'
    rcases h' with ⟨rfl, rfl⟩
    exact ⟨[], ts, rfl, trivial, hw⟩

theorem Atom.ofToken?_number {t : Token} (hk : t.kind = .number) :
    Atom.ofToken? t = some (.number t.text) := by
  simp [Atom.ofToken?, hk]

theorem Atom.ofToken?_identifier {t : Token} (hk : t.kind = .identifier) :
    Atom.ofToken? t = some (.var t.text) := by
  simp [Atom.ofToken?, hk]

/-- A factor reads its optional sign, then a number, or a variable that has been assigned. -/
theorem Factor.read_sound {f : Factor} {w' : w.After} (h : Factor.read sc w = .ok (f, w'))
    (hw : w.Shows ts e) :
    ∃ rest, FactorOf ts f rest ∧ w'.1.Shows rest e ∧ ∀ m ∈ f.marks, sc.names.admits m := by
  rw [Factor.read] at h
  rcases bind_eq_ok.1 h with ⟨⟨sg, w₁, h₁⟩, hsg, h⟩
  rcases Sign.read?_sound hsg hw with ⟨pre, rest, rfl, hpre, hw₁⟩
  rcases hw₁.exists_cons with ⟨rest', rfl⟩
  dsimp only at h
  split at h
  · -- a number
    rename_i hk
    rcases bind_eq_ok.1 h with ⟨⟨w₂, h₂⟩, hstep, h⟩
    have h' := pure_eq_ok.1 h
    simp only [Prod.mk.injEq] at h'
    rcases h' with ⟨rfl, rfl⟩
    refine ⟨rest', FactorOf.of_sign hpre (Atom.ofToken?_number hk), hw₁.step hstep, ?_⟩
    simp [Factor.marks, Atom.marks]
  · -- a variable, which must have been assigned
    rename_i hk
    split at h
    · rename_i hknown
      rcases bind_eq_ok.1 h with ⟨⟨w₂, h₂⟩, hstep, h⟩
      have h' := pure_eq_ok.1 h
      simp only [Prod.mk.injEq] at h'
      rcases h' with ⟨rfl, rfl⟩
      refine ⟨rest', FactorOf.of_sign hpre (Atom.ofToken?_identifier hk), hw₁.step hstep, ?_⟩
      simpa [Factor.marks, Atom.marks, Names.admits, Scope.names] using hknown
    · simp [throw, throwThe, MonadExceptOf.throw] at h
  · simp [throw, throwThe, MonadExceptOf.throw] at h

/-- The further factors of a term are a chain of `*` and `/` with factors. -/
theorem Term.readRest_sound {fs : List (MulOp × Factor)} {w' : w.NotBefore}
    (h : Term.readRest sc w = .ok (fs, w')) (hw : w.Shows ts e) :
    ∃ rest, ChainOf MulOp.ofKind FactorOf ts fs rest ∧ w'.1.Shows rest e ∧
      ∀ p ∈ fs, ∀ m ∈ p.2.marks, sc.names.admits m := by
  induction w using Term.readRest.induct generalizing ts fs with
  | case1 w op hop ih =>
    rw [Term.readRest] at h
    split at h
    · rename_i op' hop'
      rw [hop] at hop'
      cases hop'
      rcases bind_eq_ok.1 h with ⟨⟨w₁, h₁⟩, hstep, h⟩
      rcases bind_eq_ok.1 h with ⟨⟨f, w₂, h₂⟩, hf, h⟩
      rcases bind_eq_ok.1 h with ⟨⟨fs', w₃, h₃⟩, hfs, h⟩
      have h' := pure_eq_ok.1 h
      simp only [Prod.mk.injEq] at h'
      rcases h' with ⟨rfl, rfl⟩
      rcases hw.exists_cons with ⟨r₁, rfl⟩
      have hw₁ : w₁.Shows r₁ e := hw.step hstep
      rcases Factor.read_sound hf hw₁ with ⟨r₂, hfactor, hw₂, hadm⟩
      rcases ih w₁ h₁ w₂ h₂ hfs hw₂ with ⟨r₃, hchain, hw₃, hadms⟩
      refine ⟨r₃, .cons hop hfactor hchain, hw₃, ?_⟩
      intro p hp
      rcases List.mem_cons.1 hp with rfl | hp
      · exact hadm
      · exact hadms p hp
    · rename_i hnone
      rw [hop] at hnone
      cases hnone
  | case2 w hnone =>
    rw [Term.readRest] at h
    split at h
    · rename_i op hop
      rw [hnone] at hop
      cases hop
    · have h' := pure_eq_ok.1 h
      simp only [Prod.mk.injEq] at h'
      rcases h' with ⟨rfl, rfl⟩
      exact ⟨ts, .nil, hw, by simp⟩

theorem Term.read_sound {t : Term} {w' : w.After} (h : Term.read sc w = .ok (t, w'))
    (hw : w.Shows ts e) :
    ∃ rest, TermOf ts t rest ∧ w'.1.Shows rest e ∧ ∀ m ∈ t.marks, sc.names.admits m := by
  rw [Term.read] at h
  rcases bind_eq_ok.1 h with ⟨⟨f, w₁, h₁⟩, hf, h⟩
  rcases bind_eq_ok.1 h with ⟨⟨fs, w₂, h₂⟩, hfs, h⟩
  have h' := pure_eq_ok.1 h
  simp only [Prod.mk.injEq] at h'
  rcases h' with ⟨rfl, rfl⟩
  rcases Factor.read_sound hf hw with ⟨r₁, hfactor, hw₁, hadm⟩
  rcases Term.readRest_sound hfs hw₁ with ⟨r₂, hchain, hw₂, hadms⟩
  refine ⟨r₂, .mk hfactor hchain, hw₂, ?_⟩
  intro m hm
  simp only [Term.marks, List.mem_append, List.mem_flatMap] at hm
  rcases hm with hm | ⟨p, hp, hm⟩
  · exact hadm m hm
  · exact hadms p hp m hm

/-- The further terms of an expression are a chain of `+` and `-` with terms. -/
theorem Expr.readRest_sound {es : List (AddOp × Term)} {w' : w.NotBefore}
    (h : Expr.readRest sc w = .ok (es, w')) (hw : w.Shows ts e) :
    ∃ rest, ChainOf AddOp.ofKind TermOf ts es rest ∧ w'.1.Shows rest e ∧
      ∀ p ∈ es, ∀ m ∈ p.2.marks, sc.names.admits m := by
  induction w using Expr.readRest.induct generalizing ts es with
  | case1 w op hop ih =>
    rw [Expr.readRest] at h
    split at h
    · rename_i op' hop'
      rw [hop] at hop'
      cases hop'
      rcases bind_eq_ok.1 h with ⟨⟨w₁, h₁⟩, hstep, h⟩
      rcases bind_eq_ok.1 h with ⟨⟨t, w₂, h₂⟩, ht, h⟩
      rcases bind_eq_ok.1 h with ⟨⟨es', w₃, h₃⟩, hes, h⟩
      have h' := pure_eq_ok.1 h
      simp only [Prod.mk.injEq] at h'
      rcases h' with ⟨rfl, rfl⟩
      rcases hw.exists_cons with ⟨r₁, rfl⟩
      have hw₁ : w₁.Shows r₁ e := hw.step hstep
      rcases Term.read_sound ht hw₁ with ⟨r₂, hterm, hw₂, hadm⟩
      rcases ih w₁ h₁ w₂ h₂ hes hw₂ with ⟨r₃, hchain, hw₃, hadms⟩
      refine ⟨r₃, .cons hop hterm hchain, hw₃, ?_⟩
      intro p hp
      rcases List.mem_cons.1 hp with rfl | hp
      · exact hadm
      · exact hadms p hp
    · rename_i hnone
      rw [hop] at hnone
      cases hnone
  | case2 w hnone =>
    rw [Expr.readRest] at h
    split at h
    · rename_i op hop
      rw [hnone] at hop
      cases hop
    · have h' := pure_eq_ok.1 h
      simp only [Prod.mk.injEq] at h'
      rcases h' with ⟨rfl, rfl⟩
      exact ⟨ts, .nil, hw, by simp⟩

theorem Expr.read_sound {x : Expr} {w' : w.After} (h : Expr.read sc w = .ok (x, w'))
    (hw : w.Shows ts e) :
    ∃ rest, ExprOf ts x rest ∧ w'.1.Shows rest e ∧ ∀ m ∈ x.marks, sc.names.admits m := by
  rw [Expr.read] at h
  rcases bind_eq_ok.1 h with ⟨⟨t, w₁, h₁⟩, ht, h⟩
  rcases bind_eq_ok.1 h with ⟨⟨es, w₂, h₂⟩, hes, h⟩
  have h' := pure_eq_ok.1 h
  simp only [Prod.mk.injEq] at h'
  rcases h' with ⟨rfl, rfl⟩
  rcases Term.read_sound ht hw with ⟨r₁, hterm, hw₁, hadm⟩
  rcases Expr.readRest_sound hes hw₁ with ⟨r₂, hchain, hw₂, hadms⟩
  refine ⟨r₂, .mk hterm hchain, hw₂, ?_⟩
  intro m hm
  simp only [Expr.marks, List.mem_append, List.mem_flatMap] at hm
  rcases hm with hm | ⟨p, hp, hm⟩
  · exact hadm m hm
  · exact hadms p hp m hm

/-- The further links of a comparison are a chain of comparison operators with expressions. -/
theorem Comparison.readRest_sound {cs : List (Relation × Expr)} {w' : w.NotBefore}
    (h : Comparison.readRest sc w = .ok (cs, w')) (hw : w.Shows ts e) :
    ∃ rest, ChainOf Relation.ofKind ExprOf ts cs rest ∧ w'.1.Shows rest e ∧
      ∀ p ∈ cs, ∀ m ∈ p.2.marks, sc.names.admits m := by
  induction w using Comparison.readRest.induct generalizing ts cs with
  | case1 w rel hrel ih =>
    rw [Comparison.readRest] at h
    split at h
    · rename_i rel' hrel'
      rw [hrel] at hrel'
      cases hrel'
      rcases bind_eq_ok.1 h with ⟨⟨w₁, h₁⟩, hstep, h⟩
      rcases bind_eq_ok.1 h with ⟨⟨x, w₂, h₂⟩, hx, h⟩
      rcases bind_eq_ok.1 h with ⟨⟨cs', w₃, h₃⟩, hcs, h⟩
      have h' := pure_eq_ok.1 h
      simp only [Prod.mk.injEq] at h'
      rcases h' with ⟨rfl, rfl⟩
      rcases hw.exists_cons with ⟨r₁, rfl⟩
      have hw₁ : w₁.Shows r₁ e := hw.step hstep
      rcases Expr.read_sound hx hw₁ with ⟨r₂, hexpr, hw₂, hadm⟩
      rcases ih w₁ h₁ w₂ h₂ hcs hw₂ with ⟨r₃, hchain, hw₃, hadms⟩
      refine ⟨r₃, .cons hrel hexpr hchain, hw₃, ?_⟩
      intro p hp
      rcases List.mem_cons.1 hp with rfl | hp
      · exact hadm
      · exact hadms p hp
    · rename_i hnone
      rw [hrel] at hnone
      cases hnone
  | case2 w hnone =>
    rw [Comparison.readRest] at h
    split at h
    · rename_i rel hrel
      rw [hnone] at hrel
      cases hrel
    · have h' := pure_eq_ok.1 h
      simp only [Prod.mk.injEq] at h'
      rcases h' with ⟨rfl, rfl⟩
      exact ⟨ts, .nil, hw, by simp⟩

/-- A comparison needs its first operator; the chain after it may be empty. -/
theorem Comparison.read_sound {c : Comparison} {w' : w.After}
    (h : Comparison.read sc w = .ok (c, w')) (hw : w.Shows ts e) :
    ∃ rest, ComparisonOf ts c rest ∧ w'.1.Shows rest e ∧ ∀ m ∈ c.marks, sc.names.admits m := by
  rw [Comparison.read] at h
  rcases bind_eq_ok.1 h with ⟨⟨l, w₁, h₁⟩, hl, h⟩
  rcases Expr.read_sound hl hw with ⟨r₁, hleft, hw₁, hadml⟩
  dsimp only at h
  split at h
  · rename_i rel hrel
    rcases bind_eq_ok.1 h with ⟨⟨w₂, h₂⟩, hstep, h⟩
    rcases bind_eq_ok.1 h with ⟨⟨r, w₃, h₃⟩, hr, h⟩
    rcases bind_eq_ok.1 h with ⟨⟨more, w₄, h₄⟩, hmore, h⟩
    have h' := pure_eq_ok.1 h
    simp only [Prod.mk.injEq] at h'
    rcases h' with ⟨rfl, rfl⟩
    rcases hw₁.exists_cons with ⟨r₂, rfl⟩
    rcases Expr.read_sound hr (hw₁.step hstep) with ⟨r₃, hright, hw₃, hadmr⟩
    rcases Comparison.readRest_sound hmore hw₃ with ⟨r₄, hchain, hw₄, hadms⟩
    refine ⟨r₄, .mk hleft hrel hright hchain, hw₄, ?_⟩
    intro m hm
    simp only [Comparison.marks, List.mem_append, List.mem_flatMap] at hm
    rcases hm with (hm | hm) | ⟨p, hp, hm⟩
    · exact hadml m hm
    · exact hadmr m hm
    · exact hadms p hp m hm
  · simp [throw, throwThe, MonadExceptOf.throw] at h

end Expressions

/-! ## Statements -/

section Statements

theorem throw_ne_ok {ε α : Type} {d : ε} {a : α} : (throw d : Except ε α) ≠ .ok a := by
  simp [throw, throwThe, MonadExceptOf.throw]

theorem Names.admits_of_forall_isRead {ns : Names} {ms : List Mark} (hr : ∀ m ∈ ms, m.IsRead)
    (h : ∀ m ∈ ms, ns.admits m) : ns.Admits ms :=
  (admits_of_isRead hr).2 h

/-- The reader of `IF` and `WHILE` reads a phrase of its rule, given that the reader of the block
inside it does. -/
theorem Stmt.readGuarded_sound {sc sc' : Scope} {w : Window} {ts : List Token}
    {e : Option Diagnostic} {s : Stmt} {w' : w.After} (g : Guard) (hk : w.current.kind = g.keyword)
    (hblock : ∀ {sc sc' : Scope} {v : Window} {ts : List Token} {e : Option Diagnostic}
      {ss : List Stmt} {v' : v.NotBefore}, v.size < w.size →
      Stmt.readBlock g.stop g.stopHint sc v = .ok (ss, sc', v') → v.Shows ts e →
      ∃ rest, BlockOf ts ss rest ∧ v'.1.Shows rest e ∧ v'.1.current.kind = g.stop ∧
        sc.names.Admits (Stmt.blockMarks ss) ∧
        sc'.names = sc.names.recordAll (Stmt.blockMarks ss))
    (h : Stmt.readGuarded (fun x => x) Stmt.readBlock g sc w hk = .ok (s, sc', w'))
    (hw : w.Shows ts e) :
    ∃ rest, StmtOf ts s rest ∧ w'.1.Shows rest e ∧ sc.names.Admits s.marks ∧
      sc'.names = sc.names.recordAll s.marks := by
  rcases hw.exists_cons with ⟨r₀, rfl⟩
  unfold Stmt.readGuarded at h
  rcases bind_eq_ok.1 h with ⟨⟨w₁, h₁⟩, hstep, h⟩
  rcases bind_eq_ok.1 h with ⟨⟨c, w₂, h₂⟩, hc, h⟩
  rcases bind_eq_ok.1 h with ⟨⟨th, w₃, h₃⟩, hsep, h⟩
  rcases bind_eq_ok.1 h with ⟨⟨w₄, h₄⟩, hbreak, h⟩
  rcases bind_eq_ok.1 h with ⟨⟨body, sc₁, w₅, h₅⟩, hbody, h⟩
  rcases bind_eq_ok.1 h with ⟨⟨en, w₆, h₆⟩, hend, h⟩
  rcases bind_eq_ok.1 h with ⟨⟨w₇, h₇⟩, hbreak', h⟩
  have h' := pure_eq_ok.1 h
  simp only [Prod.mk.injEq] at h'
  rcases h' with ⟨rfl, rfl, rfl⟩
  rcases Comparison.read_sound hc (hw.step hstep) with ⟨r₁, hcmp, hw₂, hadm⟩
  rcases hw₂.expect hsep with ⟨r₂, rfl, hth, hw₃⟩
  rcases hw₃.lineBreak hbreak with ⟨r₃, hb, hw₄, -⟩
  -- The block starts at a smaller window, where its reader is sound.
  have hlt : w₄.size < w.size := by
    dsimp only at h₂ h₃ h₄
    omega
  rcases hblock hlt hbody hw₄ with ⟨r₄, hblk, hw₅, -, hadms, hsc₁⟩
  -- what the statement emits around its body changes no name
  simp only [Scope.emitLine_eq, Scope.names_emit, Scope.names_emitAll] at hadms hsc₁ ⊢
  rcases hw₅.expect hend with ⟨r₅, rfl, hen, hw₆⟩
  rcases hw₆.lineBreak hbreak' with ⟨r₆, hb', hw₇, -⟩
  refine ⟨r₆, .guard hk hcmp hth hb hblk hen hb', hw₇, ?_, ?_⟩
  · rw [Guard.marks_make, Names.admits_append, Names.recordAll_of_isRead c.marks_isRead]
    exact ⟨Names.admits_of_forall_isRead c.marks_isRead hadm, hadms⟩
  · rw [Guard.marks_make, Names.recordAll_append, Names.recordAll_of_isRead c.marks_isRead, hsc₁]

/-- What a statement's reader gives at windows smaller than `n`: the phrase it passed, the
window after it, and the checks on the names met, for `Stmt.read`; the same for a block. -/
theorem stmt_sound_lt (n : Nat) :
    (∀ {sc sc' : Scope} {w : Window} {ts : List Token} {e : Option Diagnostic} {s : Stmt}
        {w' : w.After}, w.size < n → Stmt.read sc w = .ok (s, sc', w') → w.Shows ts e →
        ∃ rest, StmtOf ts s rest ∧ w'.1.Shows rest e ∧ sc.names.Admits s.marks ∧
          sc'.names = sc.names.recordAll s.marks) ∧
    (∀ {stop : Kind} {hint : String} {sc sc' : Scope} {w : Window} {ts : List Token}
        {e : Option Diagnostic} {ss : List Stmt} {w' : w.NotBefore}, w.size < n →
        Stmt.readBlock stop hint sc w = .ok (ss, sc', w') → w.Shows ts e →
        ∃ rest, BlockOf ts ss rest ∧ w'.1.Shows rest e ∧ w'.1.current.kind = stop ∧
          sc.names.Admits (Stmt.blockMarks ss) ∧
          sc'.names = sc.names.recordAll (Stmt.blockMarks ss)) := by
  induction n with
  | zero =>
    exact ⟨fun hn => absurd hn (Nat.not_lt_zero _), fun hn => absurd hn (Nat.not_lt_zero _)⟩
  | succ n ih =>
    have hread : ∀ {sc sc' : Scope} {w : Window} {ts : List Token} {e : Option Diagnostic}
        {s : Stmt} {w' : w.After}, w.size < n + 1 → Stmt.read sc w = .ok (s, sc', w') →
        w.Shows ts e → ∃ rest, StmtOf ts s rest ∧ w'.1.Shows rest e ∧
          sc.names.Admits s.marks ∧ sc'.names = sc.names.recordAll s.marks := by
      intro sc sc' w ts e s w' hsize h hw
      rcases hw.exists_cons with ⟨r₀, rfl⟩
      rw [Stmt.read] at h
      split at h
      · -- PRINT, then a string or an expression
        rename_i hk
        rcases bind_eq_ok.1 h with ⟨⟨w₁, h₁⟩, hstep, h⟩
        have hw₁ := hw.step hstep
        dsimp only at h
        split at h
        · rename_i hs
          rcases bind_eq_ok.1 h with ⟨⟨w₂, h₂⟩, hstep₂, h⟩
          rcases bind_eq_ok.1 h with ⟨⟨w₃, h₃⟩, hbreak, h⟩
          have h' := pure_eq_ok.1 h
          simp only [Prod.mk.injEq] at h'
          rcases h' with ⟨rfl, rfl, rfl⟩
          rcases hw₁.exists_cons with ⟨r₁, rfl⟩
          rcases (hw₁.step hstep₂).lineBreak hbreak with ⟨r₂, hb, hw₃, -⟩
          exact ⟨r₂, .printText hk hs hb, hw₃, trivial, rfl⟩
        · rcases bind_eq_ok.1 h with ⟨⟨x, w₂, h₂⟩, hx, h⟩
          rcases bind_eq_ok.1 h with ⟨⟨w₃, h₃⟩, hbreak, h⟩
          have h' := pure_eq_ok.1 h
          simp only [Prod.mk.injEq] at h'
          rcases h' with ⟨rfl, rfl, rfl⟩
          rcases Expr.read_sound hx hw₁ with ⟨r₁, hexpr, hw₂, hadm⟩
          rcases hw₂.lineBreak hbreak with ⟨r₂, hb, hw₃, -⟩
          refine ⟨r₂, .printValue hk hexpr hb, hw₃, ?_, ?_⟩
          · exact Names.admits_of_forall_isRead x.marks_isRead hadm
          · simp only [Scope.emitLine_eq, Scope.names_emit, Scope.names_emitAll]
            exact (Names.recordAll_of_isRead x.marks_isRead).symm
      · -- IF and WHILE: the block starts at a smaller window
        rename_i hk
        exact Stmt.readGuarded_sound .ifThen hk (fun hv => ih.2 (by omega)) h hw
      · rename_i hk
        exact Stmt.readGuarded_sound .whileRepeat hk (fun hv => ih.2 (by omega)) h hw
      · -- LABEL name, refused when the name is taken
        rename_i hk
        rcases bind_eq_ok.1 h with ⟨⟨w₁, h₁⟩, hstep, h⟩
        rcases bind_eq_ok.1 h with ⟨⟨t, w₂, h₂⟩, hname, h⟩
        dsimp only at h
        split at h
        · exact absurd h throw_ne_ok
        · rename_i hfresh
          rcases bind_eq_ok.1 h with ⟨⟨w₃, h₃⟩, hbreak, h⟩
          have h' := pure_eq_ok.1 h
          simp only [Prod.mk.injEq] at h'
          rcases h' with ⟨rfl, rfl, rfl⟩
          rcases (hw.step hstep).expect hname with ⟨r₁, rfl, ht, hw₂⟩
          rcases hw₂.lineBreak hbreak with ⟨r₂, hb, hw₃, -⟩
          refine ⟨r₂, .label hk ht hb, hw₃, ?_, ?_⟩
          · exact ⟨Scope.labelAt?_eq_none_iff.1 hfresh, trivial⟩
          · simp only [Scope.emitLine_eq, Scope.names_emit]
            exact Scope.names_addLabel _ _ _
      · -- GOTO name, checked once the program is read
        rename_i hk
        rcases bind_eq_ok.1 h with ⟨⟨w₁, h₁⟩, hstep, h⟩
        rcases bind_eq_ok.1 h with ⟨⟨t, w₂, h₂⟩, hname, h⟩
        rcases bind_eq_ok.1 h with ⟨⟨w₃, h₃⟩, hbreak, h⟩
        have h' := pure_eq_ok.1 h
        simp only [Prod.mk.injEq] at h'
        rcases h' with ⟨rfl, rfl, rfl⟩
        rcases (hw.step hstep).expect hname with ⟨r₁, rfl, ht, hw₂⟩
        rcases hw₂.lineBreak hbreak with ⟨r₂, hb, hw₃, -⟩
        refine ⟨r₂, .goto hk ht hb, hw₃, ⟨trivial, trivial⟩, ?_⟩
        simp only [Scope.emitLine_eq, Scope.names_emit]
        exact Scope.names_addJump _ _ _
      · -- LET name = expression; the name is assigned before the expression is read
        rename_i hk
        rcases bind_eq_ok.1 h with ⟨⟨w₁, h₁⟩, hstep, h⟩
        rcases bind_eq_ok.1 h with ⟨⟨t, w₂, h₂⟩, hname, h⟩
        dsimp only at h
        rcases bind_eq_ok.1 h with ⟨⟨q, w₃, h₃⟩, hq, h⟩
        rcases bind_eq_ok.1 h with ⟨⟨x, w₄, h₄⟩, hx, h⟩
        rcases bind_eq_ok.1 h with ⟨⟨w₅, h₅⟩, hbreak, h⟩
        have h' := pure_eq_ok.1 h
        simp only [Prod.mk.injEq] at h'
        rcases h' with ⟨rfl, rfl, rfl⟩
        rcases (hw.step hstep).expect hname with ⟨r₁, rfl, ht, hw₂⟩
        rcases hw₂.expect hq with ⟨r₂, rfl, hqk, hw₃⟩
        rcases Expr.read_sound hx hw₃ with ⟨r₃, hexpr, hw₄, hadm⟩
        rcases hw₄.lineBreak hbreak with ⟨r₄, hb, hw₅, -⟩
        refine ⟨r₄, .assign hk ht hqk hexpr hb, hw₅, ?_, ?_⟩
        · show sc.names.Admits (.assign t.text :: x.marks)
          rw [Names.admits_cons, ← Scope.names_declare]
          exact ⟨trivial, Names.admits_of_forall_isRead x.marks_isRead hadm⟩
        · simp only [Scope.emitLine_eq, Scope.names_emit, Scope.names_emitAll]
          show (sc.declare t.text).names = sc.names.recordAll (.assign t.text :: x.marks)
          rw [Names.recordAll_cons, ← Scope.names_declare,
            Names.recordAll_of_isRead x.marks_isRead]
      · -- INPUT name
        rename_i hk
        rcases bind_eq_ok.1 h with ⟨⟨w₁, h₁⟩, hstep, h⟩
        rcases bind_eq_ok.1 h with ⟨⟨t, w₂, h₂⟩, hname, h⟩
        rcases bind_eq_ok.1 h with ⟨⟨w₃, h₃⟩, hbreak, h⟩
        have h' := pure_eq_ok.1 h
        simp only [Prod.mk.injEq] at h'
        rcases h' with ⟨rfl, rfl, rfl⟩
        rcases (hw.step hstep).expect hname with ⟨r₁, rfl, ht, hw₂⟩
        rcases hw₂.lineBreak hbreak with ⟨r₂, hb, hw₃, -⟩
        refine ⟨r₂, .input hk ht hb, hw₃, ⟨trivial, trivial⟩, ?_⟩
        simp only [Scope.emitLine_eq, Scope.names_emit]
        exact Scope.names_declare _ _
      · -- no statement starts with any other token
        exact absurd h throw_ne_ok
    refine ⟨hread, ?_⟩
    intro stop hint sc sc' w ts e ss w' hsize h hw
    rw [Stmt.readBlock] at h
    split at h
    · -- the closing keyword: an empty block
      rename_i hstop
      have h' := pure_eq_ok.1 h
      simp only [Prod.mk.injEq] at h'
      rcases h' with ⟨rfl, rfl, rfl⟩
      exact ⟨ts, .nil, hw, hstop, by simp, by simp⟩
    · split at h
      · exact absurd h throw_ne_ok
      · rcases bind_eq_ok.1 h with ⟨⟨s, sc₁, w₁, h₁⟩, hs, h⟩
        rcases bind_eq_ok.1 h with ⟨⟨ss', sc₂, w₂, h₂⟩, hss, h⟩
        have h' := pure_eq_ok.1 h
        simp only [Prod.mk.injEq] at h'
        rcases h' with ⟨rfl, rfl, rfl⟩
        rcases hread hsize hs hw with ⟨r₁, hstmt, hw₁, hadm, hsc₁⟩
        rcases ih.2 (Nat.lt_of_lt_of_le h₁ (Nat.le_of_lt_succ hsize)) hss hw₁ with
          ⟨r₂, hblock, hw₂, hstop, hadms, hsc₂⟩
        refine ⟨r₂, .cons hstmt hblock, hw₂, hstop, ?_, ?_⟩
        · rw [Stmt.blockMarks_cons, Names.admits_append, ← hsc₁]
          exact ⟨hadm, hadms⟩
        · rw [hsc₂, hsc₁, Stmt.blockMarks_cons, Names.recordAll_append]

variable {sc sc' : Scope} {w : Window} {ts : List Token} {e : Option Diagnostic}

theorem Stmt.read_sound {s : Stmt} {w' : w.After} (h : Stmt.read sc w = .ok (s, sc', w'))
    (hw : w.Shows ts e) :
    ∃ rest, StmtOf ts s rest ∧ w'.1.Shows rest e ∧ sc.names.Admits s.marks ∧
      sc'.names = sc.names.recordAll s.marks :=
  (stmt_sound_lt (w.size + 1)).1 (Nat.lt_succ_self _) h hw

theorem Stmt.readBlock_sound {stop : Kind} {hint : String} {ss : List Stmt} {w' : w.NotBefore}
    (h : Stmt.readBlock stop hint sc w = .ok (ss, sc', w')) (hw : w.Shows ts e) :
    ∃ rest, BlockOf ts ss rest ∧ w'.1.Shows rest e ∧ w'.1.current.kind = stop ∧
      sc.names.Admits (Stmt.blockMarks ss) ∧ sc'.names = sc.names.recordAll (Stmt.blockMarks ss) :=
  (stmt_sound_lt (w.size + 1)).2 (Nat.lt_succ_self _) h hw

/-- The statements of a program are read up to the end token. -/
theorem Program.readFrom_sound {prog : Program} {w' : w.NotBefore}
    (h : Program.readFrom sc w = .ok (prog, sc', w')) (hw : w.Shows ts e) :
    ∃ rest, BlockOf ts prog rest ∧ w'.1.Shows rest e ∧ w'.1.current.kind = .eof ∧
      sc.names.Admits (Stmt.blockMarks prog) ∧
      sc'.names = sc.names.recordAll (Stmt.blockMarks prog) := by
  induction sc, w using Program.readFrom.induct generalizing ts prog sc' with
  | case1 sc w heof =>
    rw [Program.readFrom, if_pos heof] at h
    have h' := pure_eq_ok.1 h
    simp only [Prod.mk.injEq] at h'
    rcases h' with ⟨rfl, rfl, rfl⟩
    exact ⟨ts, .nil, hw, heof, by simp, by simp⟩
  | case2 sc w hne ih =>
    rw [Program.readFrom, if_neg hne] at h
    rcases bind_eq_ok.1 h with ⟨⟨s, sc₁, w₁, h₁⟩, hs, h⟩
    rcases bind_eq_ok.1 h with ⟨⟨ss, sc₂, w₂, h₂⟩, hss, h⟩
    have h' := pure_eq_ok.1 h
    simp only [Prod.mk.injEq] at h'
    rcases h' with ⟨rfl, rfl, rfl⟩
    rcases Stmt.read_sound hs hw with ⟨r₁, hstmt, hw₁, hadm, hsc₁⟩
    rcases ih sc₁ w₁ h₁ hss hw₁ with ⟨r₂, hblock, hw₂, heof, hadms, hsc₂⟩
    refine ⟨r₂, .cons hstmt hblock, hw₂, heof, ?_, ?_⟩
    · rw [Stmt.blockMarks_cons, Names.admits_append, ← hsc₁]
      exact ⟨hadm, hadms⟩
    · rw [hsc₂, hsc₁, Stmt.blockMarks_cons, Names.recordAll_append]

end Statements

/-! ## Programs -/

/-- What a successful parse did: it opened a window on the first tokens, passed the empty lines,
read the statements from the translator's first state up to the end, and found no jump left
dangling; the result collects the scope's variables and labels, the tokens read, and the buffer
with the end of `main` emitted. -/
theorem Program.parse_eq_ok {p : Precision} {file source : String} {r : Parsed}
    (h : Program.parse p file source = .ok r) :
    ∃ (w : Window) (w₁ : w.NotBefore) (sc : Scope) (w₂ : w₁.1.NotBefore),
      Window.start (TokenStream.start file source) = .ok w ∧ w.skipNewlines = .ok w₁ ∧
      Program.readFrom (Scope.initial p) w₁.1 = .ok (r.program, sc, w₂) ∧
      sc.danglingJump? = none ∧
      r = ⟨r.program, sc.assigned, sc.labels.map (·.1), w₂.1.taken,
        ((sc.emitLine "return 0;").emitLine "\x7d").out⟩ := by
  rw [Program.parse] at h
  rcases bind_eq_ok.1 h with ⟨w, hstart, h⟩
  rcases bind_eq_ok.1 h with ⟨w₁, hskip, h⟩
  rcases bind_eq_ok.1 h with ⟨⟨prog, sc, w₂⟩, hread, h⟩
  dsimp only at h
  split at h
  · exact absurd h throw_ne_ok
  · rename_i hdangling
    have h' := pure_eq_ok.1 h
    subst h'
    exact ⟨w, w₁, sc, w₂, hstart, hskip, hread, hdangling, rfl⟩

/-- What the parser accepts is the whole of the scanner's token list, read without a fault:
a sentence of the grammar whose statements are the program returned, and which passes the
three checks. -/
theorem Program.parse_sound {p : Precision} {file source : String} {r : Parsed}
    (h : Program.parse p file source = .ok r) :
    ∃ ts, (TokenStream.start file source).tokens = (ts, none) ∧ SentenceOf ts r.program ∧
      WellScoped r.program := by
  rcases Program.parse_eq_ok h with ⟨w, ⟨w₁, h₁⟩, sc, ⟨w₂, h₂⟩, hstart, hskip, hread, hdangling, -⟩
  rcases htok : (TokenStream.start file source).tokens with ⟨ts, e⟩
  have hw := Window.shows_start htok hstart
  rcases hw.skipNewlines hskip with ⟨r₁, hblank, hw₁, -⟩
  rcases Program.readFrom_sound hread hw₁ with ⟨r₂, hblock, hw₂, heof, hadm, hsc⟩
  -- The program stops at the end token, so the list ends there, without a fault.
  rcases hw₂.of_eof heof with ⟨rfl, rfl⟩
  refine ⟨ts, rfl, .mk hblank hblock heof, ?_⟩
  rw [Scope.names_initial] at hadm hsc
  have hchecks := Names.admits_empty_iff.1 hadm
  have hjumps : ∀ n ∈ sc.names.jumps, n ∈ sc.names.labels :=
    Scope.danglingJump?_eq_none_iff.1 hdangling
  rw [hsc] at hjumps
  exact ⟨hchecks.1, hchecks.2, Names.jumpsLand_iff.2 hjumps⟩

end TinyBasic
