import Mathlib.Data.List.Nodup
import Mathlib.Data.String.Basic
import TinyBasic.Proofs.EditDistance
import TinyBasic.Proofs.Lexemes
import TinyBasic.Proofs.Reach
/-!
# The names offered for a variable read before it is assigned

A factor that names a variable which no `LET` or `INPUT` has assigned is reported, together with
the assigned variables that may have been meant. Which variables are assigned at a token is a
matter of the tokens alone: those named right after an assigning keyword before it
(`AssignedBefore`). The target of a `LET` is thus assigned from its `=` on, and may be read on
its own right-hand side.

The readers carry a scope. Whenever one starts or returns, the scope it holds knows exactly the
variables assigned before its window's token, each once, and the labels declared before it, each
once with the place of its name (`Scope.Tracks`): an assigning keyword and a `LABEL` keyword are
the only tokens whose passing changes what it knows, by the name after them (`Tracks.declare`,
`Tracks.label`), and every other token leaves it as it is (`Tracks.advance`). `Scan.Suggests`
says what a reader's result gives: a failure that reports an unassigned read is the scan's fault,
or reports it at an identifier with the names offered by a scope that tracks the tokens there; a
failure that reports a label declared again is the scan's fault, or reports it at the name after
a `LABEL` keyword, with the place of the one declaration before it; a success leaves a window
where its scope tracks the tokens. Each reader has its `_suggests` lemma, in the order of the
`_reach` lemmas.

The names offered (`Scope.similar`) are the assigned ones within one character in length and two
edits ignoring case, nearest first and then by name, three at most (`Scope.similar_spec`).

* `Program.parse_unassigned_read`: a parse that reports an unassigned read reports it at an
  identifier that no assignment before it names, offers the first three of the variables
  assigned before it that are near, in that order, and hints at them or at an assignment.
* `Program.parse_label_redeclared`: a parse that reports a label declared again reports it at
  the second declaration's name, and hints at the place of the first.
-/

namespace TinyBasic

/-- The keywords that assign the variable named right after them. -/
def Kind.assigns : Kind → Bool
  | .letKw | .inputKw => true
  | _ => false

/-- The keywords that bind the name right after them: `LET` and `INPUT` assign a variable, and
`LABEL` declares a label. -/
def Kind.binds : Kind → Bool
  | .letKw | .inputKw | .labelKw => true
  | _ => false

theorem Kind.binds_of_assigns {k : Kind} (h : k.assigns = true) : k.binds = true := by
  cases k <;> simp_all [Kind.assigns, Kind.binds]

/-- A kind that a table of operators maps to an operator binds nothing, when the table maps no
binding keyword. -/
theorem Kind.binds_of_table {α : Type} {f : Kind → Option α} {k : Kind} {a : α}
    (hf : f k = some a) (hl : f .letKw = none) (hi : f .inputKw = none) (hb : f .labelKw = none) :
    k.binds = false := by
  unfold Kind.binds
  split <;> simp_all

/-- `v` is assigned before index `i` of the tokens `ts`: an assigning keyword stands before it,
with the name `v` right after the keyword. -/
def AssignedBefore (ts : List Token) (i : Nat) (v : String) : Prop :=
  ∃ k kw t, k + 1 < i ∧ ts[k]? = some kw ∧ kw.kind.assigns = true ∧ ts[k + 1]? = some t ∧
    t.kind = .identifier ∧ t.text = v

/-- The label `n` is declared before index `i` of the tokens `ts` of `file`, with its name at
`l`: a `LABEL` keyword stands before `i`, with the name `n` right after it, at `l`. -/
def LabeledBefore (file : String) (ts : List Token) (i : Nat) (n : String) (l : Location) : Prop :=
  ∃ k kw t, k + 1 < i ∧ ts[k]? = some kw ∧ kw.kind = .labelKw ∧ ts[k + 1]? = some t ∧
    t.kind = .identifier ∧ t.text = n ∧ l = ⟨file, t.line, t.column⟩

/-! ## Scopes that follow the tokens -/

namespace Scope

/-- At index `i` of the tokens `ts` of `file`, the scope knows exactly the variables assigned
before `i`, each once, and the labels declared before `i`, each once with the place of its name;
and the token before `i` is no binding keyword whose name is still to come. -/
structure Tracks (sc : Scope) (file : String) (ts : List Token) (i : Nat) : Prop where
  nodup : sc.assigned.Nodup
  mem_iff : ∀ v, v ∈ sc.assigned ↔ AssignedBefore ts i v
  labels_nodup : (sc.labels.map Prod.fst).Nodup
  labels_iff : ∀ n l, (n, l) ∈ sc.labels ↔ LabeledBefore file ts i n l
  settled : ∀ k kw, k + 1 = i → ts[k]? = some kw → kw.kind.binds = false

variable {sc sc' : Scope} {file : String} {ts : List Token} {i j k : Nat} {t kw : Token}

theorem mem_declare {n v : String} :
    v ∈ (sc.declare n).assigned ↔ v ∈ sc.assigned ∨ v = n := by
  unfold declare
  split
  · rename_i hn
    constructor
    · exact .inl
    · rintro (hv | rfl)
      · exact hv
      · simpa using hn
  · simp

theorem nodup_declare (h : sc.assigned.Nodup) (n : String) : (sc.declare n).assigned.Nodup := by
  unfold declare
  split
  · exact h
  · rename_i hn
    rw [emitHeader_assigned, List.nodup_append]
    refine ⟨h, by simp, ?_⟩
    rintro a ha b hb rfl
    rw [List.mem_singleton] at hb
    subst hb
    exact hn (by simpa using ha)

/-- Before the first token nothing is assigned and no label declared. -/
theorem tracks_empty (file : String) (ts : List Token) : ({} : Scope).Tracks file ts 0 where
  nodup := List.nodup_nil
  mem_iff v := by
    constructor
    · intro h
      simp at h
    · rintro ⟨k, -, -, hk, -⟩
      exact absurd hk (Nat.not_lt_zero _)
  labels_nodup := List.nodup_nil
  labels_iff n l := by
    constructor
    · intro h
      simp at h
    · rintro ⟨k, -, -, hk, -⟩
      exact absurd hk (Nat.not_lt_zero _)
  settled k _ hk := absurd hk (Nat.succ_ne_zero k)

/-- Only the assigned variables and the labels of a scope matter. -/
theorem Tracks.of_names (h : sc.Tracks file ts i) (he : sc'.assigned = sc.assigned)
    (hl : sc'.labels = sc.labels) : sc'.Tracks file ts i where
  nodup := he ▸ h.nodup
  mem_iff v := he ▸ h.mem_iff v
  labels_nodup := hl ▸ h.labels_nodup
  labels_iff n l := hl ▸ h.labels_iff n l
  settled := h.settled

/-- A binding keyword before `i + 1` stands before `i`: the token right before `i` is
settled. -/
theorem Tracks.lt_of_binds (h : sc.Tracks file ts i) (hk : k + 1 < i + 1) (hkw : ts[k]? = some kw)
    (hb : kw.kind.binds = true) : k + 1 < i := by
  rcases Nat.lt_or_ge (k + 1) i with hlt | hge
  · exact hlt
  · rw [h.settled k kw (by omega) hkw] at hb
    cases hb

/-- A binding keyword before `j + 2` stands before `j`, or at `j` itself. -/
theorem Tracks.lt_or_eq_of_binds (h : sc.Tracks file ts j) (hk : k + 1 < j + 2)
    (hkw : ts[k]? = some kw) (hb : kw.kind.binds = true) : k + 1 < j ∨ k = j := by
  rcases Nat.lt_or_ge k j with hlt | hge
  · exact .inl (h.lt_of_binds (by omega) hkw hb)
  · exact .inr (by omega)

/-- Passing a token that binds nothing keeps the variables and labels declared before. -/
theorem Tracks.advance (h : sc.Tracks file ts i) (ht : ts[i]? = some t)
    (ha : t.kind.binds = false) : sc.Tracks file ts (i + 1) where
  nodup := h.nodup
  mem_iff v := by
    rw [h.mem_iff v]
    constructor
    · rintro ⟨k, kw, u, hk, hrest⟩
      exact ⟨k, kw, u, Nat.lt_succ_of_lt hk, hrest⟩
    · rintro ⟨k, kw, u, hk, hkw, hass, hrest⟩
      exact ⟨k, kw, u, h.lt_of_binds hk hkw (Kind.binds_of_assigns hass), hkw, hass, hrest⟩
  labels_nodup := h.labels_nodup
  labels_iff n l := by
    rw [h.labels_iff n l]
    constructor
    · rintro ⟨k, kw, u, hk, hrest⟩
      exact ⟨k, kw, u, Nat.lt_succ_of_lt hk, hrest⟩
    · rintro ⟨k, kw, u, hk, hkw, hlab, hrest⟩
      exact ⟨k, kw, u, h.lt_of_binds hk hkw (by rw [hlab]; rfl), hkw, hlab, hrest⟩
  settled k kw hk hkw := by
    rw [show k = i by omega, ht] at hkw
    cases hkw
    exact ha

/-- Past a keyword that declares no label and the name after it, the labels declared are those
before the keyword. -/
theorem Tracks.labeledBefore_skip (h : sc.Tracks file ts j) (hkw : ts[j]? = some kw)
    (hk : kw.kind ≠ .labelKw) {n : String} {l : Location} :
    LabeledBefore file ts (j + 2) n l ↔ LabeledBefore file ts j n l := by
  constructor
  · rintro ⟨k, kw', u, hlt, hkw', hlab, hrest⟩
    rcases h.lt_or_eq_of_binds hlt hkw' (by rw [hlab]; rfl) with hlt' | rfl
    · exact ⟨k, kw', u, hlt', hkw', hlab, hrest⟩
    · rw [hkw] at hkw'
      cases hkw'
      exact absurd hlab hk
  · rintro ⟨k, kw', u, hlt, hrest⟩
    exact ⟨k, kw', u, by omega, hrest⟩

/-- Past a keyword that assigns nothing and the name after it, the variables assigned are those
before the keyword. -/
theorem Tracks.assignedBefore_skip (h : sc.Tracks file ts j) (hkw : ts[j]? = some kw)
    (hk : kw.kind.assigns = false) {v : String} :
    AssignedBefore ts (j + 2) v ↔ AssignedBefore ts j v := by
  constructor
  · rintro ⟨k, kw', u, hlt, hkw', hass, hrest⟩
    rcases h.lt_or_eq_of_binds hlt hkw' (Kind.binds_of_assigns hass) with hlt' | rfl
    · exact ⟨k, kw', u, hlt', hkw', hass, hrest⟩
    · rw [hkw] at hkw'
      cases hkw'
      rw [hk] at hass
      cases hass
  · rintro ⟨k, kw', u, hlt, hrest⟩
    exact ⟨k, kw', u, by omega, hrest⟩

/-- The token after a binding keyword's name is settled: the name is an identifier. -/
theorem settled_after_name (ht : ts[j + 1]? = some t) (hid : t.kind = .identifier) :
    ∀ k kw, k + 1 = j + 2 → ts[k]? = some kw → kw.kind.binds = false := by
  intro k kw hk hkw
  rw [show k = j + 1 by omega, ht] at hkw
  cases hkw
  rw [hid]
  rfl

/-- Passing an assigning keyword and the name after it assigns that name. -/
theorem Tracks.declare (h : sc.Tracks file ts j) (hkw : ts[j]? = some kw)
    (ha : kw.kind.assigns = true) (ht : ts[j + 1]? = some t) (hid : t.kind = .identifier) :
    (sc.declare t.text).Tracks file ts (j + 2) where
  nodup := nodup_declare h.nodup t.text
  mem_iff v := by
    rw [mem_declare, h.mem_iff v]
    constructor
    · rintro (⟨k, kw', u, hk, hrest⟩ | rfl)
      · exact ⟨k, kw', u, by omega, hrest⟩
      · exact ⟨j, kw, t, by omega, hkw, ha, ht, hid, rfl⟩
    · rintro ⟨k, kw', u, hk, hkw', hass, hu, hid', htext⟩
      -- a pair before `j`, or the keyword at `j` itself: the one before `j` is settled
      rcases h.lt_or_eq_of_binds hk hkw' (Kind.binds_of_assigns hass) with hlt | rfl
      · exact .inl ⟨k, kw', u, hlt, hkw', hass, hu, hid', htext⟩
      · rw [ht] at hu
        cases hu
        exact .inr htext.symm
  labels_nodup := by
    rw [declare_labels]
    exact h.labels_nodup
  labels_iff n l := by
    have hk : kw.kind ≠ .labelKw := by
      intro hl
      rw [hl] at ha
      cases ha
    rw [declare_labels, h.labels_iff n l, h.labeledBefore_skip hkw hk]
  settled := settled_after_name ht hid

/-- Passing a `LABEL` keyword and a name that no label before it has declares the label, at
its name. -/
theorem Tracks.label (h : sc.Tracks file ts j) (hkw : ts[j]? = some kw)
    (hk : kw.kind = .labelKw) (ht : ts[j + 1]? = some t) (hid : t.kind = .identifier)
    (hfresh : t.text ∉ sc.labels.map Prod.fst) :
    (sc.addLabel t.text ⟨file, t.line, t.column⟩).Tracks file ts (j + 2) where
  nodup := h.nodup
  mem_iff v := by
    rw [addLabel_assigned, h.mem_iff v, h.assignedBefore_skip hkw (by rw [hk]; rfl)]
  labels_nodup := by
    rw [addLabel_labels, List.map_append, List.nodup_append]
    refine ⟨h.labels_nodup, by simp, ?_⟩
    rintro a ha b hb rfl
    simp only [List.map_cons, List.map_nil, List.mem_singleton] at hb
    subst hb
    exact hfresh ha
  labels_iff n l := by
    rw [addLabel_labels, List.mem_append, h.labels_iff n l, List.mem_singleton, Prod.mk.injEq]
    constructor
    · rintro (⟨k, kw', u, hlt, hrest⟩ | ⟨rfl, rfl⟩)
      · exact ⟨k, kw', u, by omega, hrest⟩
      · exact ⟨j, kw, t, by omega, hkw, hk, ht, hid, rfl, rfl⟩
    · rintro ⟨k, kw', u, hlt, hkw', hlab, hu, hid', htext, hl⟩
      -- a declaration before `j`, or the one at `j` itself
      rcases h.lt_or_eq_of_binds hlt hkw' (by rw [hlab]; rfl) with hlt' | rfl
      · exact .inl ⟨k, kw', u, hlt', hkw', hlab, hu, hid', htext, hl⟩
      · rw [ht] at hu
        cases hu
        exact .inr ⟨htext.symm, hl⟩
  settled := settled_after_name ht hid

/-- A label that a tracking scope finds was declared once before, at the place the scope holds,
and at no other place. -/
theorem Tracks.redeclared (h : sc.Tracks file ts j) {n : String} {l : Location}
    (hl : sc.labelAt? n = some l) :
    ∃ l', some l = some l' ∧ LabeledBefore file ts j n l' ∧
      ∀ l'', LabeledBefore file ts j n l'' → l'' = l' := by
  have hmem : (n, l) ∈ sc.labels := by
    obtain ⟨l₁, l₂, hsplit, -⟩ := List.lookup_eq_some_iff.1 hl
    rw [hsplit]
    simp
  refine ⟨l, rfl, (h.labels_iff n l).1 hmem, fun l'' hl'' => ?_⟩
  -- the scope holds each label once, so both places are the one it holds
  have hmem'' := (h.labels_iff n l'').2 hl''
  have := List.inj_on_of_nodup_map h.labels_nodup hmem'' hmem rfl
  exact (Prod.mk.inj this).2

end Scope

/-! ## What a reader's result says of unassigned reads -/

namespace Scan

variable (S : Scan)

/-- `d` reports the read of the variable `n` at an identifier of the scan, with the names `sim`
that a scope offers there, a scope that tracks the tokens before it and does not hold `n`. -/
def Unassigned (d : Diagnostic) (n : String) (sim : List String) : Prop :=
  ∃ (i : Nat) (t : Token) (sc : Scope), S.tokens[i]? = some t ∧ t.kind = .identifier ∧ t.text = n ∧
    d.location = some ⟨S.file, t.line, t.column⟩ ∧ sc.Tracks S.file S.tokens i ∧
    n ∉ sc.assigned ∧ sim = sc.similar n

/-- `d` reports a second declaration of the label `n` at the name after a `LABEL` keyword of the
scan, the keyword at index `j`, with `first` the place of the name of the one declaration of `n`
before it. -/
def Redeclared (d : Diagnostic) (n : String) (first : Option Location) : Prop :=
  ∃ j kw t, S.tokens[j]? = some kw ∧ kw.kind = .labelKw ∧ S.tokens[j + 1]? = some t ∧
    t.kind = .identifier ∧ t.text = n ∧ d.location = some ⟨S.file, t.line, t.column⟩ ∧
    ∃ l, first = some l ∧ LabeledBefore S.file S.tokens j n l ∧
      ∀ l', LabeledBefore S.file S.tokens j n l' → l' = l

/-- What a reader's result says of the names it checks: a failure that reports the read of an
unassigned variable is the scan's fault or is `Unassigned`, and one that reports a label declared
again is the scan's fault or is `Redeclared`; a success satisfies `P`. -/
def Suggests {β : Type} (P : β → Prop) : Except Diagnostic β → Prop
  | .error d =>
    (∀ n sim, d.problem = .unassignedRead n sim → S.last = some d ∨ S.Unassigned d n sim) ∧
      ∀ n first, d.problem = .labelRedeclared n first → S.last = some d ∨ S.Redeclared d n first
  | .ok b => P b

/-- The window stands at an index of the scan where `sc` tracks the tokens. -/
def Tracked (sc : Scope) (w : Window) : Prop :=
  ∃ i, S.At i w ∧ sc.Tracks S.file S.tokens i

variable {S} {β β' : Type} {P P' : β → Prop} {Q : β' → Prop} {w : Window} {j : Nat}
  {sc : Scope}

theorem Suggests.bind {x : Except Diagnostic β} {g : β → Except Diagnostic β'}
    (hx : S.Suggests P x) (hg : ∀ b, x = .ok b → P b → S.Suggests Q (g b)) :
    S.Suggests Q (x >>= g) := by
  cases x with
  | error d => exact hx
  | ok b => exact hg b rfl hx

theorem Suggests.pure {b : β} (h : P b) : S.Suggests P (pure b : Except Diagnostic β) := h

theorem Suggests.mono {x : Except Diagnostic β} (h : S.Suggests P x) (hP : ∀ b, P b → P' b) :
    S.Suggests P' x := by
  cases x with
  | error d => exact h
  | ok b => exact hP b h

/-- A failure that reports neither an unassigned read nor a label declared again. -/
theorem Suggests.fail {d : Diagnostic} (hd : ∀ n sim, d.problem ≠ .unassignedRead n sim)
    (hl : ∀ n first, d.problem ≠ .labelRedeclared n first) :
    S.Suggests P (throw d : Except Diagnostic β) :=
  ⟨fun n sim hp => absurd hp (hd n sim), fun n first hp => absurd hp (hl n first)⟩

theorem Suggests.fail_at {t : Token} {p : Problem} (hp : ∀ n sim, p ≠ .unassignedRead n sim)
    (hl : ∀ n first, p ≠ .labelRedeclared n first) :
    S.Suggests P (throw (w.diagnose t p) : Except Diagnostic β) :=
  Suggests.fail hp hl

/-- A failure at the scan's fault. -/
theorem Suggests.fault {d : Diagnostic} (hd : S.last = some d) :
    S.Suggests P (.error d : Except Diagnostic β) :=
  ⟨fun _ _ _ => .inl hd, fun _ _ _ => .inl hd⟩

/-- A move goes on to the next index, or stops at the scan's fault. -/
theorem At.step_suggests (h : S.At j w) (hk : w.current.kind ≠ .eof) :
    S.Suggests (fun v : w.After => S.At (j + 1) v.1) (w.step hk) := by
  unfold Window.step
  split
  · rename_i v hv
    exact h.advance hk hv
  · rename_i d hd
    exact Suggests.fault (h.1.advance_error hk hd)

theorem Tracked.step (h : S.Tracked sc w) (hk : w.current.kind ≠ .eof)
    (ha : w.current.kind.binds = false) :
    S.Suggests (fun v : w.After => S.Tracked sc v.1) (w.step hk) := by
  obtain ⟨j, hat, htr⟩ := h
  exact (hat.step_suggests hk).mono fun v hv => ⟨j + 1, hv, htr.advance hat.getElem? ha⟩

theorem Tracked.of_names {sc' : Scope} (h : S.Tracked sc w)
    (he : sc'.assigned = sc.assigned) (hl : sc'.labels = sc.labels) : S.Tracked sc' w := by
  obtain ⟨i, hat, htr⟩ := h
  exact ⟨i, hat, htr.of_names he hl⟩

/-! What the translator emits assigns and declares nothing. -/

theorem Tracked.emit (h : S.Tracked sc w) (code : String) : S.Tracked (sc.emit code) w :=
  h.of_names rfl rfl

theorem Tracked.emitLine (h : S.Tracked sc w) (code : String) : S.Tracked (sc.emitLine code) w :=
  h.of_names rfl rfl

theorem Tracked.emitAll (h : S.Tracked sc w) (codes : List String) :
    S.Tracked (sc.emitAll codes) w :=
  h.of_names (Scope.emitAll_assigned sc codes) (Scope.emitAll_labels sc codes)

/-- A successful `expect` returns the current token, of the kind expected, and moves on by
one. -/
theorem At.expect_suggests {k : Kind} {hk : k.isEnd = false} {hint : Option String}
    (h : S.At j w) :
    S.Suggests (fun r : Token × w.After => r.1 = w.current ∧ w.current.kind = k ∧
      S.At (j + 1) r.2.1) (w.expect k hk hint) := by
  rw [Window.expect_eq_bind]
  split
  · rename_i hc
    exact (h.step_suggests _).bind fun _ _ hv => Suggests.pure ⟨rfl, hc, hv⟩
  · exact Suggests.fail_at (by simp) (by simp)

theorem Tracked.expect {k : Kind} {hk : k.isEnd = false} {hint : Option String}
    (h : S.Tracked sc w) (ha : k.binds = false) :
    S.Suggests (fun r : Token × w.After => S.Tracked sc r.2.1) (w.expect k hk hint) := by
  obtain ⟨j, hat, htr⟩ := h
  refine hat.expect_suggests.mono ?_
  rintro r ⟨-, hc, hr⟩
  exact ⟨j + 1, hr, htr.advance hat.getElem? (hc ▸ ha)⟩

theorem Tracked.skipNewlines (h : S.Tracked sc w) :
    S.Suggests (fun v : w.NotBefore => S.Tracked sc v.1) w.skipNewlines := by
  induction w using Window.skipNewlines.induct with
  | case1 w hk w₁ h₁ hstep _ _ ih | case2 w hk w₁ h₁ hstep _ _ ih =>
    rw [Window.skipNewlines_eq_bind, dif_pos hk]
    refine (h.step _ (by rw [hk]; rfl)).bind ?_
    rintro ⟨v, hv⟩ hs htr
    rw [hstep] at hs
    cases hs
    exact (ih htr).bind fun _ _ htr => Suggests.pure htr
  | case3 w hk d hstep =>
    rw [Window.skipNewlines_eq_bind, dif_pos hk]
    refine (h.step _ (by rw [hk]; rfl)).bind ?_
    intro b hs
    rw [hstep] at hs
    cases hs
  | case4 w hk =>
    rw [Window.skipNewlines_eq_bind, dif_neg hk]
    exact Suggests.pure h

theorem Tracked.lineBreak (h : S.Tracked sc w) :
    S.Suggests (fun v : w.After => S.Tracked sc v.1) w.lineBreak := by
  rw [Window.lineBreak_eq_bind]
  exact (h.expect rfl).bind fun _ _ htr =>
    htr.skipNewlines.bind fun _ _ htr => Suggests.pure htr

/-- Past an assigning keyword and the name after it, the scope that declares the name tracks the
tokens. In between no scope does: the keyword's name is still to come. -/
theorem Tracked.assignment (h : S.Tracked sc w) (hint : Option String)
    (hne : w.current.kind ≠ .eof) (ha : w.current.kind.assigns = true) :
    S.Suggests (fun v : w.After => S.Suggests
      (fun r : Token × v.1.After => S.Tracked (sc.declare r.1.text) r.2.1)
      (v.1.expect .identifier rfl hint)) (w.step hne) := by
  obtain ⟨j, hat, htr⟩ := h
  refine (hat.step_suggests hne).mono ?_
  intro v hat₁
  refine hat₁.expect_suggests.mono ?_
  rintro ⟨t, v₂, hv₂⟩ ⟨ht, hid, hat₂⟩
  dsimp only at ht hat₂ ⊢
  subst ht
  exact ⟨j + 2, hat₂, htr.declare hat.getElem? ha hat₁.getElem? hid⟩

/-- Past a `LABEL` keyword and the name after it, the window stands two tokens on from the
keyword, where the scope before the keyword tracks the tokens at the keyword. -/
theorem Tracked.labelName (h : S.Tracked sc w) (hint : Option String)
    (hne : w.current.kind ≠ .eof) :
    S.Suggests (fun v : w.After => S.Suggests
      (fun r : Token × v.1.After => ∃ j, S.tokens[j]? = some w.current ∧
        sc.Tracks S.file S.tokens j ∧ S.tokens[j + 1]? = some r.1 ∧ r.1.kind = .identifier ∧
        S.At (j + 2) r.2.1)
      (v.1.expect .identifier rfl hint)) (w.step hne) := by
  obtain ⟨j, hat, htr⟩ := h
  refine (hat.step_suggests hne).mono ?_
  intro v hat₁
  refine hat₁.expect_suggests.mono ?_
  rintro ⟨t, v₂, hv₂⟩ ⟨ht, hid, hat₂⟩
  dsimp only at ht hat₂ ⊢
  subst ht
  exact ⟨j, hat.getElem?, htr, hat₁.getElem?, hid, hat₂⟩

/-! ## The readers -/

theorem Sign.read?_suggests (h : S.Tracked sc w) :
    S.Suggests (fun r : Option Sign × w.NotBefore => S.Tracked sc r.2.1) (Sign.read? w) := by
  unfold Sign.read?
  split
  · rename_i s hs
    exact (h.step _ (Kind.binds_of_table hs rfl rfl rfl)).bind fun _ _ htr => Suggests.pure htr
  · exact Suggests.pure h

/-- A factor reports a variable that its scope does not hold, with the names the scope
offers. -/
theorem Factor.read_suggests (h : S.Tracked sc w) :
    S.Suggests (fun r : Factor × w.After => S.Tracked sc r.2.1) (Factor.read sc w) := by
  unfold Factor.read
  refine (Sign.read?_suggests h).bind ?_
  rintro ⟨sg, v, hv⟩ - htr
  dsimp only at htr ⊢
  split
  · rename_i hk
    exact (htr.step _ (by rw [hk]; rfl)).bind fun _ _ htr => Suggests.pure htr
  · rename_i hk
    split
    · exact (htr.step _ (by rw [hk]; rfl)).bind fun _ _ htr => Suggests.pure htr
    · rename_i hnot
      obtain ⟨i, hat, htracks⟩ := htr
      refine ⟨fun n sim hp => ?_, fun n first hp => by simp [Window.diagnose] at hp⟩
      obtain ⟨rfl, rfl⟩ : v.current.text = n ∧ sc.similar v.current.text = sim := by
        simpa [Window.diagnose] using hp
      refine .inr ⟨i, v.current, sc, hat.getElem?, hk, rfl, ?_, htracks, by simpa using hnot, rfl⟩
      simp [Window.diagnose, Window.locate, hat.2]
  · exact Suggests.fail_at (by simp) (by simp)

theorem Term.readRest_suggests (h : S.Tracked sc w) :
    S.Suggests (fun r : List (MulOp × Factor) × w.NotBefore => S.Tracked sc r.2.1)
      (Term.readRest sc w) := by
  induction w using Term.readRest.induct with
  | case1 w op hop ih =>
    rw [Term.readRest]
    split
    · refine (h.step _ (Kind.binds_of_table hop rfl rfl rfl)).bind ?_
      rintro ⟨v₁, hv₁⟩ - htr₁
      refine (Factor.read_suggests htr₁).bind ?_
      rintro ⟨f, v₂, hv₂⟩ - htr₂
      exact (ih v₁ hv₁ v₂ hv₂ htr₂).bind fun _ _ htr => Suggests.pure htr
    · rename_i hnone
      rw [hop] at hnone
      cases hnone
  | case2 w hnone =>
    rw [Term.readRest]
    split
    · rename_i op hop
      rw [hnone] at hop
      cases hop
    · exact Suggests.pure h

theorem Term.read_suggests (h : S.Tracked sc w) :
    S.Suggests (fun r : Term × w.After => S.Tracked sc r.2.1) (Term.read sc w) :=
  (Factor.read_suggests h).bind fun _ _ htr =>
    (Term.readRest_suggests htr).bind fun _ _ htr => Suggests.pure htr

theorem Expr.readRest_suggests (h : S.Tracked sc w) :
    S.Suggests (fun r : List (AddOp × Term) × w.NotBefore => S.Tracked sc r.2.1)
      (Expr.readRest sc w) := by
  induction w using Expr.readRest.induct with
  | case1 w op hop ih =>
    rw [Expr.readRest]
    split
    · refine (h.step _ (Kind.binds_of_table hop rfl rfl rfl)).bind ?_
      rintro ⟨v₁, hv₁⟩ - htr₁
      refine (Term.read_suggests htr₁).bind ?_
      rintro ⟨t, v₂, hv₂⟩ - htr₂
      exact (ih v₁ hv₁ v₂ hv₂ htr₂).bind fun _ _ htr => Suggests.pure htr
    · rename_i hnone
      rw [hop] at hnone
      cases hnone
  | case2 w hnone =>
    rw [Expr.readRest]
    split
    · rename_i op hop
      rw [hnone] at hop
      cases hop
    · exact Suggests.pure h

theorem Expr.read_suggests (h : S.Tracked sc w) :
    S.Suggests (fun r : Expr × w.After => S.Tracked sc r.2.1) (Expr.read sc w) :=
  (Term.read_suggests h).bind fun _ _ htr =>
    (Expr.readRest_suggests htr).bind fun _ _ htr => Suggests.pure htr

theorem Comparison.readRest_suggests (h : S.Tracked sc w) :
    S.Suggests (fun r : List (Relation × Expr) × w.NotBefore => S.Tracked sc r.2.1)
      (Comparison.readRest sc w) := by
  induction w using Comparison.readRest.induct with
  | case1 w rel hrel ih =>
    rw [Comparison.readRest]
    split
    · refine (h.step _ (Kind.binds_of_table hrel rfl rfl rfl)).bind ?_
      rintro ⟨v₁, hv₁⟩ - htr₁
      refine (Expr.read_suggests htr₁).bind ?_
      rintro ⟨x, v₂, hv₂⟩ - htr₂
      exact (ih v₁ hv₁ v₂ hv₂ htr₂).bind fun _ _ htr => Suggests.pure htr
    · rename_i hnone
      rw [hrel] at hnone
      cases hnone
  | case2 w hnone =>
    rw [Comparison.readRest]
    split
    · rename_i rel hrel
      rw [hnone] at hrel
      cases hrel
    · exact Suggests.pure h

theorem Comparison.read_suggests (h : S.Tracked sc w) :
    S.Suggests (fun r : Comparison × w.After => S.Tracked sc r.2.1) (Comparison.read sc w) := by
  unfold Comparison.read
  refine (Expr.read_suggests h).bind ?_
  rintro ⟨l, v, hv⟩ - htr
  dsimp only at htr ⊢
  split
  · rename_i rel hrel
    exact (htr.step _ (Kind.binds_of_table hrel rfl rfl rfl)).bind fun _ _ htr =>
      (Expr.read_suggests htr).bind fun _ _ htr =>
        (Comparison.readRest_suggests htr).bind fun _ _ htr => Suggests.pure htr
  · exact Suggests.fail_at (by simp) (by simp)

/-- The reader of `IF` and `WHILE` keeps its scope tracking the tokens, given that the reader of
the block inside it does. -/
theorem Stmt.readGuarded_suggests (g : Guard) (hk : w.current.kind = g.keyword)
    (hblock : ∀ {sc : Scope} {v : Window}, v.size < w.size → S.Tracked sc v →
      S.Suggests (fun r : List Stmt × Scope × v.NotBefore => S.Tracked r.2.1 r.2.2.1)
        (Stmt.readBlock g.stop g.stopHint sc v))
    (h : S.Tracked sc w) :
    S.Suggests (fun r : Stmt × Scope × w.After => S.Tracked r.2.1 r.2.2.1)
      (Stmt.readGuarded (fun x => x) Stmt.readBlock g sc w hk) := by
  unfold Stmt.readGuarded
  refine (h.step _ (by cases g <;> (rw [hk]; rfl))).bind ?_
  rintro ⟨v₁, hv₁⟩ - htr₁
  -- what the statement emits changes no variable
  refine (Comparison.read_suggests (htr₁.emit g.opener)).bind ?_
  rintro ⟨c, v₂, hv₂⟩ - htr₂
  refine (htr₂.expect (by cases g <;> rfl)).bind ?_
  rintro ⟨th, v₃, hv₃⟩ - htr₃
  refine htr₃.lineBreak.bind ?_
  rintro ⟨v₄, hv₄⟩ - htr₄
  have hlt : v₄.size < w.size := by
    dsimp only at hv₂ hv₃ hv₄
    omega
  exact (hblock hlt ((htr₄.emitAll c.fragments).emitLine ") \x7b")).bind fun _ _ htr =>
    (htr.expect (by cases g <;> rfl)).bind fun _ _ htr =>
      htr.lineBreak.bind fun _ _ htr => Suggests.pure (htr.of_names rfl rfl)

/-- The statement readers, for windows smaller than `n`; strong induction on `n` carries the
mutual recursion of `Stmt.read` and `Stmt.readBlock`. -/
theorem stmt_suggests_lt (n : Nat) :
    (∀ {sc : Scope} {w : Window}, w.size < n → S.Tracked sc w →
        S.Suggests (fun r : Stmt × Scope × w.After => S.Tracked r.2.1 r.2.2.1)
          (Stmt.read sc w)) ∧
    (∀ {stop : Kind} {hint : String} {sc : Scope} {w : Window}, w.size < n → S.Tracked sc w →
        S.Suggests (fun r : List Stmt × Scope × w.NotBefore => S.Tracked r.2.1 r.2.2.1)
          (Stmt.readBlock stop hint sc w)) := by
  induction n with
  | zero =>
    exact ⟨fun hn => absurd hn (Nat.not_lt_zero _), fun hn => absurd hn (Nat.not_lt_zero _)⟩
  | succ n ih =>
    have hread : ∀ {sc : Scope} {w : Window}, w.size < n + 1 → S.Tracked sc w →
        S.Suggests (fun r : Stmt × Scope × w.After => S.Tracked r.2.1 r.2.2.1)
          (Stmt.read sc w) := by
      intro sc w hsize h
      rw [Stmt.read]
      split
      · -- PRINT, then a string or an expression
        rename_i hk
        refine (h.step _ (by rw [hk]; rfl)).bind ?_
        rintro ⟨v₁, hv₁⟩ - htr₁
        dsimp only
        split
        · rename_i hs
          exact (htr₁.step _ (by rw [hs]; rfl)).bind fun _ _ htr =>
            htr.lineBreak.bind fun _ _ htr => Suggests.pure (htr.of_names rfl rfl)
        · exact (Expr.read_suggests (htr₁.emit sc.precision.printOpener)).bind fun _ _ htr =>
            htr.lineBreak.bind fun _ _ htr => Suggests.pure (htr.of_names (by simp) (by simp))
      · -- IF and WHILE: the block starts at a smaller window
        rename_i hk
        exact Stmt.readGuarded_suggests .ifThen hk (fun hv => ih.2 (by omega)) h
      · rename_i hk
        exact Stmt.readGuarded_suggests .whileRepeat hk (fun hv => ih.2 (by omega)) h
      · -- LABEL: a name declared before is reported at the second declaration's name
        refine (h.labelName (some "LABEL needs a name") _).bind ?_
        rintro ⟨v₁, hv₁⟩ - hx
        refine hx.bind ?_
        rintro ⟨t, v₂, hv₂⟩ - ⟨j, hkw, htr, ht, hid, hat₂⟩
        rename_i hk
        have hfile : v₂.stream.file = S.file := hat₂.2
        dsimp only
        split
        · rename_i first hfirst
          refine ⟨fun n sim hp => by simp [Window.diagnose] at hp, fun n first' hp => .inr ?_⟩
          obtain ⟨rfl, rfl⟩ : t.text = n ∧ some first = first' := by
            simpa [Window.diagnose] using hp
          exact ⟨j, w.current, t, hkw, hk, ht, hid, rfl,
            by simp [Window.diagnose, Window.locate, hfile], htr.redeclared hfirst⟩
        · -- a new label: the scope that declares it at its name tracks the tokens
          rename_i hnone
          have hfresh : t.text ∉ sc.labels.map Prod.fst :=
            (Scope.labelAt?_eq_none_iff.1 hnone : t.text ∉ sc.names.labels)
          have hloc : v₂.locate t = ⟨S.file, t.line, t.column⟩ := by
            simp [Window.locate, hfile]
          have htr₂ : S.Tracked ((sc.addLabel t.text (v₂.locate t)).emitLine (t.text ++ ":")) v₂ := by
            rw [hloc]
            exact ⟨j + 2, hat₂, (htr.label hkw hk ht hid hfresh).of_names rfl rfl⟩
          exact htr₂.lineBreak.bind fun _ _ htr => Suggests.pure (htr.of_names rfl rfl)
      · rename_i hk
        exact (h.step _ (by rw [hk]; rfl)).bind fun _ _ htr =>
          (htr.expect rfl).bind fun _ _ htr =>
            htr.lineBreak.bind fun _ _ htr => Suggests.pure (htr.of_names rfl rfl)
      · -- LET: its name is assigned from the `=` on
        rename_i hk
        refine (h.assignment (some "LET needs a variable name") _ (by rw [hk]; rfl)).bind ?_
        rintro ⟨v₁, hv₁⟩ - hx
        refine hx.bind ?_
        rintro ⟨t, v₂, hv₂⟩ - htr₂
        exact (htr₂.expect rfl).bind fun _ _ htr =>
          (Expr.read_suggests (htr.emit (t.text ++ " = "))).bind fun _ _ htr =>
            htr.lineBreak.bind fun _ _ htr => Suggests.pure (htr.of_names (by simp) (by simp))
      · -- INPUT: its name is assigned after the line break
        rename_i hk
        refine (h.assignment (some "INPUT needs a variable name") _ (by rw [hk]; rfl)).bind ?_
        rintro ⟨v₁, hv₁⟩ - hx
        refine hx.bind ?_
        rintro ⟨t, v₂, hv₂⟩ - htr₂
        exact htr₂.lineBreak.bind fun _ _ htr => Suggests.pure (htr.of_names rfl rfl)
      · exact Suggests.fail_at (by simp) (by simp)
    refine ⟨hread, ?_⟩
    intro stop hint sc w hsize h
    rw [Stmt.readBlock]
    split
    · exact Suggests.pure h
    · split
      · exact Suggests.fail_at (by simp) (by simp)
      · refine (hread hsize h).bind ?_
        rintro ⟨s, sc₁, v₁, hv₁⟩ - htr₁
        have hlt : v₁.size < n := by omega
        exact (ih.2 hlt htr₁).bind fun _ _ htr => Suggests.pure htr

theorem Stmt.read_suggests (h : S.Tracked sc w) :
    S.Suggests (fun r : Stmt × Scope × w.After => S.Tracked r.2.1 r.2.2.1) (Stmt.read sc w) :=
  (stmt_suggests_lt (w.size + 1)).1 (Nat.lt_succ_self _) h

theorem Program.readFrom_suggests (h : S.Tracked sc w) :
    S.Suggests (fun r : Program × Scope × w.NotBefore => S.Tracked r.2.1 r.2.2.1)
      (Program.readFrom sc w) := by
  induction sc, w using Program.readFrom.induct with
  | case1 sc w heof =>
    rw [Program.readFrom, if_pos heof]
    exact Suggests.pure h
  | case2 sc w hne ih =>
    rw [Program.readFrom, if_neg hne]
    refine (Stmt.read_suggests h).bind ?_
    rintro ⟨s, sc₁, v₁, hv₁⟩ - htr₁
    exact (ih sc₁ v₁ hv₁ htr₁).bind fun _ _ htr => Suggests.pure htr

/-- The first window stands at index `0`, where the empty scope tracks the tokens. -/
theorem start_suggests {s : TokenStream} (ht : s.tokens = (S.tokens, S.last))
    (hf : s.file = S.file) : S.Suggests (fun w => S.Tracked {} w) (Window.start s) := by
  rcases hst : Window.start s with d | w
  · exact Suggests.fault (Window.start_error ht hst)
  · exact ⟨0, start_at ht hf hst, Scope.tracks_empty S.file S.tokens⟩

end Scan

/-- A parse that reports an unassigned read reports the scan's fault, or a read as
`Scan.Unassigned` says. -/
theorem Program.parse_suggests (p : Precision) (file source : String) :
    (Scan.mk file (TokenStream.start file source).tokens.1
      (TokenStream.start file source).tokens.2).Suggests (fun _ : Parsed => True)
        (Program.parse p file source) := by
  rw [Program.parse]
  refine (Scan.start_suggests rfl rfl).bind ?_
  rintro w - htr
  refine htr.skipNewlines.bind ?_
  rintro ⟨w₁, h₁⟩ - htr₁
  -- the translator's first state has assigned nothing yet
  have htr₂ : Scan.Tracked _ (Scope.initial p) w₁ := htr₁.of_names rfl rfl
  refine (Scan.Program.readFrom_suggests htr₂).bind ?_
  rintro ⟨prog, sc, w₂, h₂⟩ - -
  dsimp only
  split
  · exact Scan.Suggests.fail (by simp) (by simp)
  · exact Scan.Suggests.pure trivial

/-- An expression that starts at a variable its scope does not hold fails there, with the names
the scope offers. -/
theorem Expr.read_of_unassigned {sc : Scope} {w : Window} (hk : w.current.kind = .identifier)
    (hn : w.current.text ∉ sc.assigned) :
    Expr.read sc w = .error (w.diagnose w.current
      (.unassignedRead w.current.text (sc.similar w.current.text))) := by
  have hsign : Sign.read? w = .ok (none, ⟨w, Nat.le_refl _⟩) := by
    unfold Sign.read?
    split
    · rename_i s hs
      rw [hk] at hs
      cases hs
    · rfl
  have hfactor : Factor.read sc w = .error (w.diagnose w.current
      (.unassignedRead w.current.text (sc.similar w.current.text))) := by
    unfold Factor.read
    rw [hsign]
    simp only [bind, Except.bind]
    split
    · rename_i h
      rw [hk] at h
      cases h
    · rw [if_neg (by simpa using hn)]
      rfl
    · rename_i h
      exact absurd hk h
  unfold Expr.read Term.read
  rw [hfactor]
  rfl

/-! ## The names offered -/

/-- The edit distance of two names, ignoring case. -/
def nameDistance (n v : String) : Nat :=
  Text.editDistance n.toLower.toList v.toLower.toList

/-- `v` may be what was meant by `n`: their lengths differ by one at most, and their edit distance
ignoring case is two at most. -/
def Near (n v : String) : Prop :=
  n.length ≤ v.length + 1 ∧ v.length ≤ n.length + 1 ∧ nameDistance n v ≤ 2

/-- The order in which names are offered for `n`: nearer first, then by name. -/
def Closer (n a b : String) : Prop :=
  nameDistance n a < nameDistance n b ∨ nameDistance n a = nameDistance n b ∧ a < b

instance (n v : String) : Decidable (Near n v) :=
  inferInstanceAs (Decidable (_ ∧ _ ∧ _))

instance (n a b : String) : Decidable (Closer n a b) :=
  inferInstanceAs (Decidable (_ ∨ _ ∧ _))

namespace Scope

/-- The variable `v` with its distance, when it is near `name`. -/
def candidate (name v : String) : Option (Nat × String) :=
  if v.length + 1 < name.length || name.length + 1 < v.length then none
  else
    let d := Text.distance (fold name) (fold v)
    if d ≤ 2 then some (d, v) else none

/-- The assigned variables near `name`, each with its distance, in the order of assignment. -/
def candidates (sc : Scope) (name : String) : List (Nat × String) :=
  sc.assigned.filterMap (candidate name)

theorem similar_eq_candidates (sc : Scope) (name : String) :
    sc.similar name = (((sc.candidates name).mergeSort closer).take 3).map (·.2) := rfl

theorem candidate_eq_some {n v : String} {p : Nat × String} :
    candidate n v = some p ↔ Near n v ∧ p = (nameDistance n v, v) := by
  have hd : Text.distance (fold n) (fold v) = nameDistance n v :=
    Text.levenshtein_eq_editDistance _ _
  unfold candidate
  by_cases hlen : (v.length + 1 < n.length || n.length + 1 < v.length) = true
  · have hfar : ¬ Near n v := by
      simp only [Bool.or_eq_true, decide_eq_true_eq] at hlen
      rintro ⟨h₁, h₂, -⟩
      omega
    simp [hlen, hfar]
  · simp only [Bool.or_eq_true, decide_eq_true_eq, not_or, not_lt] at hlen
    simp only [Bool.or_eq_true, decide_eq_true_eq, hd, Near]
    by_cases hdist : nameDistance n v ≤ 2
    · simp [hdist, hlen, eq_comm]
    · simp [hdist]

theorem mem_candidates {sc : Scope} {n : String} {p : Nat × String} :
    p ∈ sc.candidates n ↔ p.2 ∈ sc.assigned ∧ Near n p.2 ∧ p.1 = nameDistance n p.2 := by
  rw [candidates, List.mem_filterMap]
  constructor
  · rintro ⟨v, hv, hc⟩
    obtain ⟨hnear, rfl⟩ := candidate_eq_some.1 hc
    exact ⟨hv, hnear, rfl⟩
  · rintro ⟨hv, hnear, hd⟩
    exact ⟨p.2, hv, candidate_eq_some.2 ⟨hnear, Prod.ext hd rfl⟩⟩

/-- Each assigned variable is a candidate once at most. -/
theorem nodup_candidates {sc : Scope} {n : String} (h : sc.assigned.Nodup) :
    ((sc.candidates n).map Prod.snd).Nodup := by
  have hnd : (sc.candidates n).Nodup := by
    refine h.filterMap fun a a' p ha ha' => ?_
    obtain ⟨-, rfl⟩ := candidate_eq_some.1 ha
    obtain ⟨-, hp⟩ := candidate_eq_some.1 ha'
    exact congrArg Prod.snd hp
  refine hnd.map_on fun p hp q hq hpq => Prod.ext ?_ hpq
  rw [(mem_candidates.1 hp).2.2, (mem_candidates.1 hq).2.2, hpq]

theorem closer_iff {a b : Nat × String} : closer a b = true ↔ a.1 < b.1 ∨ a.1 = b.1 ∧ a.2 ≤ b.2 := by
  simp [closer]

theorem closer_trans (a b c : Nat × String) :
    closer a b = true → closer b c = true → closer a c = true := by
  simp only [closer_iff]
  rintro (hab | ⟨hab, hab'⟩) (hbc | ⟨hbc, hbc'⟩)
  · exact .inl (by omega)
  · exact .inl (by omega)
  · exact .inl (by omega)
  · exact .inr ⟨hab.trans hbc, le_trans hab' hbc'⟩

theorem closer_total (a b : Nat × String) : (closer a b || closer b a) = true := by
  rw [Bool.or_eq_true, closer_iff, closer_iff]
  rcases lt_trichotomy a.1 b.1 with h | h | h
  · exact .inl (.inl h)
  · rcases le_total a.2 b.2 with h' | h'
    · exact .inl (.inr ⟨h, h'⟩)
    · exact .inr (.inr ⟨h.symm, h'⟩)
  · exact .inr (.inl h)

/-- The names a scope offers for `name` are the first three of its variables near `name`,
nearest first and then by name. -/
theorem similar_spec (sc : Scope) (n : String) (hnd : sc.assigned.Nodup) :
    ∃ L : List String, (∀ v, v ∈ L ↔ v ∈ sc.assigned ∧ Near n v) ∧ L.Pairwise (Closer n) ∧
      sc.similar n = L.take 3 := by
  let sorted := (sc.candidates n).mergeSort closer
  have hperm : sorted.Perm (sc.candidates n) := List.mergeSort_perm _ _
  have hsorted : sorted.Pairwise (fun a b => closer a b = true) :=
    List.pairwise_mergeSort closer_trans closer_total _
  have hdistinct : (sorted.map Prod.snd).Nodup :=
    (hperm.map Prod.snd).nodup_iff.2 (nodup_candidates hnd)
  refine ⟨sorted.map Prod.snd, fun v => ?_, ?_, ?_⟩
  · simp only [List.mem_map, hperm.mem_iff, mem_candidates]
    constructor
    · rintro ⟨p, ⟨hp, hnear, -⟩, rfl⟩
      exact ⟨hp, hnear⟩
    · rintro ⟨hv, hnear⟩
      exact ⟨(nameDistance n v, v), ⟨hv, hnear, rfl⟩, rfl⟩
  · -- two candidates in sorted order, with different names
    rw [List.pairwise_map]
    refine (hsorted.and (List.pairwise_map.1 hdistinct)).imp_of_mem ?_
    rintro a b ha hb ⟨hab, hne⟩
    have hda := (mem_candidates.1 (hperm.mem_iff.1 ha)).2.2
    have hdb := (mem_candidates.1 (hperm.mem_iff.1 hb)).2.2
    rw [closer_iff, hda, hdb] at hab
    rcases hab with hlt | ⟨heq, hle⟩
    · exact .inl hlt
    · exact .inr ⟨heq, lt_of_le_of_ne hle hne⟩
  · rw [similar_eq_candidates, List.map_take]

end Scope

/-- A parse that reports the read of an unassigned variable `n` reports it at an identifier `n`
of the source that no assignment before it names. The names it offers are the first three of
the variables assigned before that identifier whose length is within one of `n`'s and whose edit
distance to `n` ignoring case is two at most, nearest first and then by name; its hint lists
them, or asks for an assignment when there are none. -/
theorem Program.parse_unassigned_read {p : Precision} {file source n : String}
    {sim : List String} {d : Diagnostic} (h : Program.parse p file source = .error d)
    (hp : d.problem = .unassignedRead n sim) :
    let ts := (TokenStream.start file source).tokens.1
    ∃ i t, ts[i]? = some t ∧ t.kind = .identifier ∧ t.text = n ∧
      d.location = some ⟨file, t.line, t.column⟩ ∧ ¬ AssignedBefore ts i n ∧
      ∃ L : List String, (∀ v, v ∈ L ↔ AssignedBefore ts i v ∧ Near n v) ∧
        L.Pairwise (Closer n) ∧ sim = L.take 3 ∧
        d.problem.hint = some (if sim = [] then "assign '" ++ n ++ "' with LET or INPUT before using it"
          else "did you mean " ++ ", ".intercalate (sim.map fun v => "'" ++ v ++ "'") ++ "?") := by
  intro ts
  have hs := Program.parse_suggests p file source
  rw [h] at hs
  rcases hs.1 n sim hp with hlast | ⟨i, t, sc, hti, hid, htext, hloc, htr, hn, hsim⟩
  · -- a fault of the scan is lexical, and an unassigned read is not
    have hfam := TokenStream.start_fault_family (Prod.ext rfl hlast :
      (TokenStream.start file source).tokens = (ts, some d))
    rw [hp] at hfam
    cases hfam
  obtain ⟨L, hL, hpair, hsimL⟩ := sc.similar_spec n htr.nodup
  have hsim' : sim = L.take 3 := hsim.trans hsimL
  refine ⟨i, t, hti, hid, htext, hloc, fun hb => hn ((htr.mem_iff n).2 hb), L,
    fun v => (hL v).trans (and_congr_left' (htr.mem_iff v)), hpair, hsim', ?_⟩
  -- at most three names are offered, so the hint lists them all
  have htake : sim.take 3 = sim := by
    rw [hsim', List.take_take, Nat.min_self]
  rw [hp, Problem.hint]
  by_cases hnil : sim = []
  · simp [hnil]
  · simp [hnil, Problem.suggestion, htake]

/-- A parse that reports a label declared again reports it at the name after a `LABEL` keyword
of the source, and its hint names the place of the name of the one declaration of that label
before it. -/
theorem Program.parse_label_redeclared {p : Precision} {file source n : String}
    {first : Option Location} {d : Diagnostic} (h : Program.parse p file source = .error d)
    (hp : d.problem = .labelRedeclared n first) :
    let ts := (TokenStream.start file source).tokens.1
    ∃ j kw t, ts[j]? = some kw ∧ kw.kind = .labelKw ∧ ts[j + 1]? = some t ∧
      t.kind = .identifier ∧ t.text = n ∧ d.location = some ⟨file, t.line, t.column⟩ ∧
      ∃ l, first = some l ∧ LabeledBefore file ts j n l ∧
        (∀ l', LabeledBefore file ts j n l' → l' = l) ∧
        d.problem.hint = some ("'" ++ n ++ "' was first declared at " ++ l.render) := by
  intro ts
  have hs := Program.parse_suggests p file source
  rw [h] at hs
  rcases hs.2 n first hp with hlast | ⟨j, kw, t, hkw, hk, ht, hid, htext, hloc, l, rfl, hl, huniq⟩
  · -- a fault of the scan is lexical, and a label declared again is not
    have hfam := TokenStream.start_fault_family (Prod.ext rfl hlast :
      (TokenStream.start file source).tokens = (ts, some d))
    rw [hp] at hfam
    cases hfam
  refine ⟨j, kw, t, hkw, hk, ht, hid, htext, hloc, l, rfl, hl, huniq, ?_⟩
  rw [hp]
  rfl

/-- The target of a `LET` counts as assigned on its own right-hand side, and is offered for a
misspelt read there. -/
theorem Program.parse_unassigned_read_of_own_target :
    ∃ d, Program.parse default "p.bas" "LET count = cuont" = .error d ∧
      d.problem = .unassignedRead "cuont" ["count"] ∧
      let ts := (TokenStream.start "p.bas" "LET count = cuont").tokens.1
      ∃ i t, ts[i]? = some t ∧ t.kind = .identifier ∧ t.text = "cuont" ∧
        d.location = some ⟨"p.bas", t.line, t.column⟩ ∧ ¬ AssignedBefore ts i "cuont" ∧
        ∃ L : List String, (∀ v, v ∈ L ↔ AssignedBefore ts i v ∧ Near "cuont" v) ∧
          L.Pairwise (Closer "cuont") ∧ ["count"] = L.take 3 ∧
          d.problem.hint = some (if ["count"] = [] then
              "assign '" ++ "cuont" ++ "' with LET or INPUT before using it"
            else "did you mean " ++ ", ".intercalate (["count"].map fun v => "'" ++ v ++ "'") ++
              "?") := by
  obtain ⟨d, h, hp⟩ : ∃ d, Program.parse default "p.bas" "LET count = cuont" = .error d ∧
      d.problem = .unassignedRead "cuont" ["count"] := by
    let ts : List Token := [⟨.letKw, "LET", 1, 1⟩, ⟨.identifier, "count", 1, 5⟩,
      ⟨.eq, "=", 1, 11⟩, ⟨.identifier, "cuont", 1, 13⟩, ⟨.newline, "\n", 1, 18⟩, ⟨.eof, "", 2, 1⟩]
    -- the scanner's tokens, computed
    have htok : (TokenStream.start "p.bas" "LET count = cuont").tokens = (ts, none) := by
      have h : (TokenStream.start "p.bas" "LET count = cuont").tokens.1 = ts ∧
          (TokenStream.start "p.bas" "LET count = cuont").tokens.2.isNone = true := by
        decide +kernel
      exact Prod.ext h.1 (Option.isNone_iff_eq_none.1 h.2)
    obtain ⟨w₀, hst⟩ := Window.start_ok htok
    have hw₀ := Window.shows_start htok hst
    simp only [ts] at hw₀
    have hc₀ := hw₀.current_eq
    -- the window passes `LET`, the name and `=`, and stands on `cuont`
    obtain ⟨w₁, hs₁, hw₁⟩ := (hc₀ ▸ hw₀ : w₀.Shows (w₀.current :: _) none).step_ok
      (by rw [hc₀]; decide)
    obtain ⟨w₂, hx₂, hw₂⟩ := hw₁.expect_ok rfl (some "LET needs a variable name") rfl
    obtain ⟨w₃, hx₃, hw₃⟩ := hw₂.expect_ok rfl none rfl
    have hc₃ := hw₃.current_eq
    -- the scope holds the target, the one name offered
    let sc : Scope := ((Scope.initial default).declare "count").emit ("count" ++ " = ")
    have hsim : sc.similar "cuont" = ["count"] := by
      have hcand : Scope.candidate "cuont" "count" = some (2, "count") := by decide +kernel
      simp [sc, Scope.similar_eq_candidates, Scope.candidates, Scope.declare, Scope.initial,
        hcand]
    have hk₃ : w₃.1.current.kind = .identifier := by rw [hc₃]
    have hn₃ : w₃.1.current.text ∉ sc.assigned := by
      rw [hc₃]
      simp [sc, Scope.declare, Scope.initial]
    have hexpr := Expr.read_of_unassigned hk₃ hn₃
    rw [hc₃, hsim] at hexpr
    have hread : Stmt.read (Scope.initial default) w₀ =
        .error (w₃.1.diagnose w₃.1.current (.unassignedRead "cuont" ["count"])) := by
      rw [Stmt.read]
      split
      all_goals first
        | (exfalso; rename_i h; revert h; rw [hc₀]; decide)
        | (exfalso; exact absurd (by rw [hc₀]) ‹¬ w₀.current.kind = .letKw›)
        | skip
      rw [hs₁]
      simp only [bind, Except.bind]
      rw [hx₂]
      simp only []
      rw [hx₃]
      simp only []
      rw [hexpr, hc₃]
    refine ⟨w₃.1.diagnose w₃.1.current (.unassignedRead "cuont" ["count"]), ?_, rfl⟩
    rw [Program.parse, hst]
    simp only [bind, Except.bind]
    rw [Window.skipNewlines_eq_bind, dif_neg (by rw [hc₀]; decide)]
    simp only [pure, Except.pure]
    rw [Program.readFrom, if_neg (by rw [hc₀]; decide), hread]
    rfl
  exact ⟨d, h, hp, Program.parse_unassigned_read h hp⟩

end TinyBasic
