import TinyBasic.Proofs.Grammar
/-!
# Scoping

The three checks of a program, said over the names it mentions, in the order of its tokens:

* every variable that is read was assigned by a `LET` or an `INPUT` earlier on
  (`AssignedBeforeRead`; the target of a `LET` comes before its right-hand side);
* no two `LABEL` statements share a name (`LabelsDistinct`);
* every `GOTO` names some label of the program (`JumpsLand`).

A program's names are its `Mark`s. The parser checks them one at a time against the names met
so far, a `Names` value: `Names.Admits` is that walk, and `admits_iff` says it is the first two
checks above, so that the walk and the declarative reading can be used interchangeably.
-/

namespace TinyBasic

/-- A name as a program mentions it. -/
inductive Mark where
  /-- the target of `LET` or `INPUT` -/
  | assign (name : String)
  /-- a variable used as an operand -/
  | read (name : String)
  /-- the name of a `LABEL` statement -/
  | label (name : String)
  /-- the target of a `GOTO` -/
  | jump (name : String)
  deriving DecidableEq, Repr

namespace Mark

/-- The name a mark declares as a label. -/
def labelName? : Mark → Option String
  | label n => some n
  | _ => none

/-- The name a mark jumps to. -/
def jumpName? : Mark → Option String
  | jump n => some n
  | _ => none

/-- The name a mark assigns. -/
def assignName? : Mark → Option String
  | assign n => some n
  | _ => none

end Mark

/-! ## The marks of a program -/

/-- An operand reads its variable. -/
def Atom.marks : Atom → List Mark
  | .number _ => []
  | .var n => [.read n]

/-- The variables a factor reads. -/
def Factor.marks (f : Factor) : List Mark := f.atom.marks

/-- The variables a term reads, left to right. -/
def Term.marks (t : Term) : List Mark := t.first.marks ++ t.rest.flatMap fun p => p.2.marks

/-- The variables an expression reads, left to right. -/
def Expr.marks (e : Expr) : List Mark := e.first.marks ++ e.rest.flatMap fun p => p.2.marks

/-- The variables a comparison reads, left to right. -/
def Comparison.marks (c : Comparison) : List Mark :=
  c.left.marks ++ c.right.marks ++ c.more.flatMap fun p => p.2.marks

mutual

/-- The names a statement mentions, in the order of its tokens. -/
def Stmt.marks : Stmt → List Mark
  | .printText _ => []
  | .printValue e => e.marks
  | .ifThen c body => c.marks ++ Stmt.blockMarks body
  | .whileRepeat c body => c.marks ++ Stmt.blockMarks body
  | .label n => [.label n]
  | .goto n => [.jump n]
  | .assign n e => .assign n :: e.marks
  | .input n => [.assign n]

/-- The names a run of statements mentions, in order. -/
def Stmt.blockMarks : List Stmt → List Mark
  | [] => []
  | s :: ss => Stmt.marks s ++ Stmt.blockMarks ss

end

@[simp] theorem Stmt.blockMarks_nil : Stmt.blockMarks [] = [] := by
  simp [Stmt.blockMarks]

@[simp] theorem Stmt.blockMarks_cons (s : Stmt) (ss : List Stmt) :
    Stmt.blockMarks (s :: ss) = s.marks ++ Stmt.blockMarks ss := by
  simp [Stmt.blockMarks]

/-! ## The checks, declaratively -/

/-- Every read is covered by `known` or by an assignment before it. -/
def ReadsCovered (known : List String) (ms : List Mark) : Prop :=
  ∀ pre n post, ms = pre ++ .read n :: post → n ∈ known ∨ .assign n ∈ pre

/-- Every variable read is assigned earlier. -/
def AssignedBeforeRead (ms : List Mark) : Prop :=
  ∀ pre n post, ms = pre ++ .read n :: post → .assign n ∈ pre

/-- No two labels share a name. -/
def LabelsDistinct (ms : List Mark) : Prop :=
  (ms.filterMap Mark.labelName?).Nodup

/-- Every jump names a label. -/
def JumpsLand (ms : List Mark) : Prop :=
  ∀ n, .jump n ∈ ms → .label n ∈ ms

/-- A program that passes the three checks. -/
structure WellScoped (prog : Program) : Prop where
  assignedBeforeRead : AssignedBeforeRead (Stmt.blockMarks prog)
  labelsDistinct : LabelsDistinct (Stmt.blockMarks prog)
  jumpsLand : JumpsLand (Stmt.blockMarks prog)

/-- `n` is the first name, in source order, that a jump names and no label declares. -/
def FirstMissingLabel (ms : List Mark) (n : String) : Prop :=
  ∃ pre post, ms.filterMap Mark.jumpName? = pre ++ n :: post ∧
    n ∉ ms.filterMap Mark.labelName? ∧ ∀ n' ∈ pre, n' ∈ ms.filterMap Mark.labelName?

/-- The first missing label is what a search of the jumps, in order, finds. -/
theorem FirstMissingLabel.find?_eq {ms : List Mark} {n : String} (h : FirstMissingLabel ms n) :
    (ms.filterMap Mark.jumpName?).find? (fun j => decide (j ∉ ms.filterMap Mark.labelName?)) =
      some n := by
  obtain ⟨pre, post, hj, hn, hpre⟩ := h
  exact List.find?_eq_some_iff_append.2
    ⟨by simpa using hn, pre, post, hj, fun a ha => by simpa using hpre a ha⟩

theorem FirstMissingLabel.unique {ms : List Mark} {n n' : String} (h : FirstMissingLabel ms n)
    (h' : FirstMissingLabel ms n') : n = n' :=
  Option.some.inj (h.find?_eq.symm.trans h'.find?_eq)

theorem assignedBeforeRead_iff {ms : List Mark} :
    AssignedBeforeRead ms ↔ ReadsCovered [] ms := by
  simp [AssignedBeforeRead, ReadsCovered]

theorem readsCovered_congr {k₁ k₂ : List String} (h : ∀ n, n ∈ k₁ ↔ n ∈ k₂) {ms : List Mark} :
    ReadsCovered k₁ ms ↔ ReadsCovered k₂ ms := by
  simp only [ReadsCovered, h]

@[simp] theorem readsCovered_nil (k : List String) : ReadsCovered k [] := by
  intro pre n post h
  simp at h

/-- A read at the front must be known already. -/
theorem readsCovered_read {k : List String} {n : String} {ms : List Mark} :
    ReadsCovered k (.read n :: ms) ↔ n ∈ k ∧ ReadsCovered k ms := by
  constructor
  · intro h
    refine ⟨?_, ?_⟩
    · simpa using h [] n ms rfl
    · intro pre n' post hms
      have := h (.read n :: pre) n' post (by simp [hms])
      simpa using this
  · rintro ⟨hn, h⟩ pre n' post hms
    rcases List.cons_eq_append_iff.1 hms with ⟨rfl, hpost⟩ | ⟨pre', rfl, hms'⟩
    · simp only [List.cons.injEq, Mark.read.injEq] at hpost
      exact .inl (hpost.1 ▸ hn)
    · rcases h pre' n' post hms' with h' | h'
      · exact .inl h'
      · exact .inr (List.mem_cons_of_mem _ h')

/-- An assignment at the front covers the reads after it. -/
theorem readsCovered_assign {k : List String} {n : String} {ms : List Mark} :
    ReadsCovered k (.assign n :: ms) ↔ ReadsCovered (n :: k) ms := by
  constructor
  · intro h pre n' post hms
    rcases h (.assign n :: pre) n' post (by simp [hms]) with h' | h'
    · exact .inl (List.mem_cons_of_mem _ h')
    · rcases List.mem_cons.1 h' with h'' | h''
      · simp only [Mark.assign.injEq] at h''
        exact .inl (h'' ▸ List.mem_cons_self)
      · exact .inr h''
  · intro h pre n' post hms
    rcases List.cons_eq_append_iff.1 hms with ⟨rfl, hpost⟩ | ⟨pre', rfl, hms'⟩
    · simp at hpost
    · rcases h pre' n' post hms' with h' | h'
      · rcases List.mem_cons.1 h' with rfl | h''
        · exact .inr List.mem_cons_self
        · exact .inl h''
      · exact .inr (List.mem_cons_of_mem _ h')

/-- A label or a jump at the front is no read and no assignment. -/
theorem readsCovered_skip {k : List String} {m : Mark} {ms : List Mark}
    (hr : ∀ n, m ≠ .read n) (ha : ∀ n, m ≠ .assign n) :
    ReadsCovered k (m :: ms) ↔ ReadsCovered k ms := by
  constructor
  · intro h pre n post hms
    rcases h (m :: pre) n post (by simp [hms]) with h' | h'
    · exact .inl h'
    · rcases List.mem_cons.1 h' with h'' | h''
      · exact absurd h''.symm (ha n)
      · exact .inr h''
  · intro h pre n post hms
    rcases List.cons_eq_append_iff.1 hms with ⟨rfl, hpost⟩ | ⟨pre', rfl, hms'⟩
    · simp only [List.cons.injEq] at hpost
      exact absurd hpost.1.symm (hr n)
    · rcases h pre' n post hms' with h' | h'
      · exact .inl h'
      · exact .inr (List.mem_cons_of_mem _ h')

/-! ## The checks, one name at a time -/

/-- What the checks see of a scope: the names met so far, without where they were met. -/
structure Names where
  assigned : List String
  labels : List String
  jumps : List String
  deriving DecidableEq, Repr

namespace Names

/-- No names yet. -/
def empty : Names := ⟨[], [], []⟩

/-- The names after one more mark. A variable keeps the place of its first assignment. -/
def record (ns : Names) : Mark → Names
  | .assign n => { ns with assigned := if n ∈ ns.assigned then ns.assigned else ns.assigned ++ [n] }
  | .read _ => ns
  | .label n => { ns with labels := ns.labels ++ [n] }
  | .jump n => { ns with jumps := ns.jumps ++ [n] }

/-- The names after a run of marks. -/
def recordAll (ns : Names) (ms : List Mark) : Names :=
  ms.foldl record ns

/-- Whether the names met so far let a mark through: a read needs its variable, a label
needs a fresh name. -/
def admits (ns : Names) : Mark → Prop
  | .read n => n ∈ ns.assigned
  | .label n => n ∉ ns.labels
  | _ => True

/-- Every mark of a run is let through by the names met before it. -/
def Admits : Names → List Mark → Prop
  | _, [] => True
  | ns, m :: ms => ns.admits m ∧ (ns.record m).Admits ms

@[simp] theorem recordAll_nil (ns : Names) : ns.recordAll [] = ns := rfl

@[simp] theorem recordAll_cons (ns : Names) (m : Mark) (ms : List Mark) :
    ns.recordAll (m :: ms) = (ns.record m).recordAll ms := rfl

theorem recordAll_append (ns : Names) (a b : List Mark) :
    ns.recordAll (a ++ b) = (ns.recordAll a).recordAll b := by
  simp [recordAll]

@[simp] theorem admits_nil (ns : Names) : ns.Admits [] := trivial

@[simp] theorem admits_cons {ns : Names} {m : Mark} {ms : List Mark} :
    ns.Admits (m :: ms) ↔ ns.admits m ∧ (ns.record m).Admits ms := Iff.rfl

theorem admits_append {ns : Names} {a b : List Mark} :
    ns.Admits (a ++ b) ↔ ns.Admits a ∧ (ns.recordAll a).Admits b := by
  induction a generalizing ns with
  | nil => simp
  | cons m a ih => simp [ih, and_assoc]

theorem mem_record_assigned {ns : Names} {m : Mark} {n : String} :
    n ∈ (ns.record m).assigned ↔ n ∈ ns.assigned ∨ m = .assign n := by
  cases m with
  | assign v =>
    by_cases hv : v ∈ ns.assigned
    · simp only [record, hv, if_true, Mark.assign.injEq]
      constructor
      · exact .inl
      · rintro (h | rfl)
        · exact h
        · exact hv
    · simp [record, hv, eq_comm]
  | read v => simp [record]
  | label v => simp [record]
  | jump v => simp [record]

@[simp] theorem record_labels (ns : Names) (m : Mark) :
    (ns.record m).labels = ns.labels ++ m.labelName?.toList := by
  cases m <;> simp [record, Mark.labelName?]

@[simp] theorem record_jumps (ns : Names) (m : Mark) :
    (ns.record m).jumps = ns.jumps ++ m.jumpName?.toList := by
  cases m <;> simp [record, Mark.jumpName?]

theorem recordAll_labels (ns : Names) (ms : List Mark) :
    (ns.recordAll ms).labels = ns.labels ++ ms.filterMap Mark.labelName? := by
  induction ms generalizing ns with
  | nil => simp
  | cons m ms ih =>
    cases m <;> simp [ih, Mark.labelName?, List.filterMap_cons]

theorem recordAll_jumps (ns : Names) (ms : List Mark) :
    (ns.recordAll ms).jumps = ns.jumps ++ ms.filterMap Mark.jumpName? := by
  induction ms generalizing ns with
  | nil => simp
  | cons m ms ih =>
    cases m <;> simp [ih, Mark.jumpName?, List.filterMap_cons]

/-- The walk adds each assigned variable once, at its first assignment after the names it
started with. -/
theorem recordAll_assigned (ns : Names) (ms : List Mark) :
    (ns.recordAll ms).assigned =
      ns.assigned ++ ((ms.filterMap Mark.assignName?).removeAll ns.assigned).eraseDups := by
  induction ms generalizing ns with
  | nil => simp [List.removeAll]
  | cons m ms ih =>
    cases m with
    | assign v =>
      rw [recordAll_cons, ih]
      by_cases hv : v ∈ ns.assigned
      · -- A variable assigned before: the walk and the list both pass over it.
        simp [record, hv, List.removeAll, Mark.assignName?]
      · -- A new variable: it comes next, and later copies of it are dropped.
        simp [record, hv, List.removeAll, Mark.assignName?, List.eraseDups_cons,
          List.filter_filter, Bool.and_comm, Bool.beq_eq_decide_eq]
    | read v => simp [record, ih, Mark.assignName?, List.filterMap_cons]
    | label v => simp [record, ih, Mark.assignName?, List.filterMap_cons]
    | jump v => simp [record, ih, Mark.assignName?, List.filterMap_cons]

/-- From no names, the walk keeps the assigned variables once each, in the order of their first
assignment. -/
theorem recordAll_empty_assigned (ms : List Mark) :
    (empty.recordAll ms).assigned = (ms.filterMap Mark.assignName?).eraseDups := by
  have hnone : (ms.filterMap Mark.assignName?).removeAll [] = ms.filterMap Mark.assignName? :=
    List.filter_eq_self.2 fun _ _ => rfl
  rw [recordAll_assigned]
  exact congrArg List.eraseDups hnone

/-- The walk checks exactly the first two rules, relative to the names met before the run:
reads are covered, and the run's labels are distinct and new. -/
theorem admits_iff {ns : Names} {ms : List Mark} :
    ns.Admits ms ↔ ReadsCovered ns.assigned ms ∧ (ms.filterMap Mark.labelName?).Nodup ∧
      ∀ n ∈ ms.filterMap Mark.labelName?, n ∉ ns.labels := by
  induction ms generalizing ns with
  | nil => simp
  | cons m ms ih =>
    rw [admits_cons, ih]
    cases m with
    | assign v =>
      have hcov : ReadsCovered (ns.record (.assign v)).assigned ms ↔
          ReadsCovered ns.assigned (.assign v :: ms) := by
        rw [readsCovered_assign]
        apply readsCovered_congr
        intro n
        rw [mem_record_assigned, List.mem_cons, Mark.assign.injEq, eq_comm (a := v)]
        exact or_comm
      rw [hcov]
      exact ⟨fun h => h.2, fun h => ⟨trivial, h⟩⟩
    | read v =>
      have hcov : ReadsCovered (ns.record (.read v)).assigned ms ↔ ReadsCovered ns.assigned ms :=
        Iff.rfl
      rw [hcov, readsCovered_read]
      exact ⟨fun ⟨hv, hr, rest⟩ => ⟨⟨hv, hr⟩, rest⟩, fun ⟨⟨hv, hr⟩, rest⟩ => ⟨hv, hr, rest⟩⟩
    | label v =>
      have hcov : ReadsCovered (ns.record (.label v)).assigned ms ↔
          ReadsCovered ns.assigned (.label v :: ms) := by
        rw [readsCovered_skip (by simp) (by simp)]
        rfl
      -- A name of the rest must avoid the earlier labels and this one.
      have hfresh : ∀ L : List String, (∀ n ∈ L, n ∉ ns.labels ++ [v]) ↔
          v ∉ L ∧ ∀ n ∈ L, n ∉ ns.labels := by
        intro L
        simp only [List.mem_append, List.mem_singleton, not_or]
        constructor
        · intro h
          exact ⟨fun hv => (h v hv).2 rfl, fun n hn => (h n hn).1⟩
        · rintro ⟨hv, h⟩ n hn
          exact ⟨h n hn, fun hnv => hv (hnv ▸ hn)⟩
      rw [hcov]
      simp only [admits, record_labels, Mark.labelName?, Option.toList_some, hfresh,
        List.filterMap_cons, List.nodup_cons, List.forall_mem_cons]
      constructor
      · rintro ⟨hv, hr, hnd, hvms, hold⟩
        exact ⟨hr, ⟨hvms, hnd⟩, hv, hold⟩
      · rintro ⟨hr, ⟨hvms, hnd⟩, hv, hold⟩
        exact ⟨hv, hr, hnd, hvms, hold⟩
    | jump v =>
      have hcov : ReadsCovered (ns.record (.jump v)).assigned ms ↔
          ReadsCovered ns.assigned (.jump v :: ms) := by
        rw [readsCovered_skip (by simp) (by simp)]
        rfl
      rw [hcov]
      exact ⟨fun h => h.2, fun h => ⟨trivial, h⟩⟩

/-- From no names at all, the walk checks that reads are assigned earlier and that labels are
distinct. -/
theorem admits_empty_iff {ms : List Mark} :
    empty.Admits ms ↔ AssignedBeforeRead ms ∧ LabelsDistinct ms := by
  rw [admits_iff, assignedBeforeRead_iff]
  simp [empty, LabelsDistinct]

/-- The jumps of a run all land once every jump recorded from no names names a recorded
label. -/
theorem jumpsLand_iff {ms : List Mark} :
    JumpsLand ms ↔ ∀ n ∈ (empty.recordAll ms).jumps, n ∈ (empty.recordAll ms).labels := by
  simp only [recordAll_jumps, recordAll_labels, empty, List.nil_append, List.mem_filterMap]
  constructor
  · rintro h n ⟨m, hm, hj⟩
    cases m <;> simp only [Mark.jumpName?, reduceCtorEq, Option.some.injEq] at hj
    subst hj
    exact ⟨_, h _ hm, rfl⟩
  · rintro h n hm
    obtain ⟨m, hm', hl⟩ := h n ⟨_, hm, rfl⟩
    cases m <;> simp only [Mark.labelName?, reduceCtorEq, Option.some.injEq] at hl
    exact hl ▸ hm'

end Names

/-! ## The parser's scope, seen as names -/

namespace Scope

/-- The names a scope holds. -/
def names (sc : Scope) : Names :=
  ⟨sc.assigned, sc.labels.map Prod.fst, sc.jumps.map Prod.fst⟩

@[simp] theorem names_empty : ({} : Scope).names = Names.empty := rfl

/-! What the translator emits is no name. -/

@[simp] theorem names_emit (sc : Scope) (code : String) : (sc.emit code).names = sc.names := rfl

@[simp] theorem names_emitHeader (sc : Scope) (code : String) :
    (sc.emitHeader code).names = sc.names := rfl

@[simp] theorem names_emitAll (sc : Scope) (codes : List String) :
    (sc.emitAll codes).names = sc.names := by
  simp [names]

@[simp] theorem names_initial (p : Precision) : (Scope.initial p).names = Names.empty := rfl

theorem names_declare (sc : Scope) (n : String) :
    (sc.declare n).names = sc.names.record (.assign n) := by
  unfold declare
  by_cases hn : n ∈ sc.assigned
  · simp [names, Names.record, hn]
  · simp [names, Names.record, hn]

theorem names_addLabel (sc : Scope) (n : String) (l : Location) :
    (sc.addLabel n l).names = sc.names.record (.label n) := by
  simp [addLabel, names, Names.record]

theorem names_addJump (sc : Scope) (n : String) (l : Location) :
    (sc.addJump n l).names = sc.names.record (.jump n) := by
  simp [addJump, names, Names.record]

theorem labelAt?_eq_none_iff {sc : Scope} {n : String} :
    sc.labelAt? n = none ↔ n ∉ sc.names.labels := by
  simp only [labelAt?, names, List.lookup_eq_none_iff, bne_iff_ne, ne_eq, List.mem_map,
    not_exists, not_and]
  constructor
  · rintro h ⟨a, l⟩ hmem rfl
    exact h _ hmem rfl
  · rintro h ⟨a, l⟩ hmem rfl
    exact h _ hmem rfl

theorem danglingJump?_eq_none_iff {sc : Scope} :
    sc.danglingJump? = none ↔ ∀ n ∈ sc.names.jumps, n ∈ sc.names.labels := by
  simp [danglingJump?, labelAt?, names]

section Recorded

variable {sc : Scope} {ms : List Mark} {n : String}

/-- Once a scope has recorded the marks `ms` from no names, the jump it reports names the
first missing label of `ms`. -/
theorem danglingJump?_eq_some {l : Location} (hsc : sc.names = Names.empty.recordAll ms)
    (h : sc.danglingJump? = some (n, l)) : FirstMissingLabel ms n := by
  have hj : sc.jumps.map Prod.fst = ms.filterMap Mark.jumpName? := by
    change sc.names.jumps = _
    rw [hsc, Names.recordAll_jumps]
    rfl
  have hl : sc.names.labels = ms.filterMap Mark.labelName? := by
    rw [hsc, Names.recordAll_labels]
    rfl
  -- the search stops at the first jump whose label is not found
  obtain ⟨hn, as, bs, hjumps, has⟩ := List.find?_eq_some_iff_append.1 h
  refine ⟨as.map Prod.fst, bs.map Prod.fst, ?_, ?_, ?_⟩
  · rw [← hj, hjumps]
    simp
  · rw [← hl]
    exact labelAt?_eq_none_iff.1 (Option.isNone_iff_eq_none.1 hn)
  · intro n' hn'
    obtain ⟨⟨a, la⟩, ha, rfl⟩ := List.mem_map.1 hn'
    rw [← hl]
    have hfound := has _ ha
    by_cases hna : a ∈ sc.names.labels
    · exact hna
    · rw [labelAt?_eq_none_iff.2 hna] at hfound
      simp at hfound

/-- A scope that has recorded marks with a missing label reports a jump. -/
theorem danglingJump?_ne_none (hsc : sc.names = Names.empty.recordAll ms)
    (h : FirstMissingLabel ms n) : sc.danglingJump? ≠ none := by
  obtain ⟨pre, post, hj, hn, -⟩ := h
  rw [Ne, danglingJump?_eq_none_iff, hsc, Names.recordAll_jumps, Names.recordAll_labels]
  intro hall
  exact hn (by simpa [Names.empty] using hall n (by simp [Names.empty, hj]))

end Recorded

end Scope

/-- A program of one assignment whose right side reads no variable passes the checks. -/
theorem WellScoped.assign {n : String} {e : Expr} (h : e.marks = []) :
    WellScoped [.assign n e] := by
  have hm : Stmt.blockMarks [.assign n e] = [.assign n] := by simp [Stmt.marks, h]
  refine ⟨?_, ?_, ?_⟩ <;> rw [hm]
  · intro pre n' post hpre
    cases pre with
    | nil => simp at hpre
    | cons x pre' => simp at hpre
  · exact List.nodup_nil
  · intro n' hn'
    simp at hn'

end TinyBasic
