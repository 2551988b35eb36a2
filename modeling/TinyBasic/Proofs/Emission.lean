import TinyBasic.Proofs.Parse.Sound
/-!
# What the translator emits while it reads

The parser writes the C text during its one walk over the tokens: each statement adds its
fragments to the body as it is read, and the first assignment of a variable adds the variable's
declaration to the prologue while the body is half written. This module shows that the buffer
the walk fills is the one a second pass over the finished tree fills: its body is the fragments
of the statements read, in order (`Stmt.fragments`), and its prologue declares the variables in
the order of their first assignment (`Program.header`).

* `Scope.Declared`: the prologue declares exactly the assigned variables, in order.
* `Scope.Emitted sc sc' frags`: a reader went from `sc` to `sc'` adding `frags` to the body,
  keeping the precision, keeping the buffer open, and keeping the prologue declared. Each
  emitting operation of the scope has its lemma in the `Scope.Emitted` namespace, and each
  statement reader its `_emitted` lemma, by the induction on the window its other lemmas use.
* `Program.parse_out`: the buffer of a successful parse holds the prologue with the program's
  variables and the body of its statements with the end of `main`.
-/

namespace TinyBasic

namespace Scope

/-- The prologue declares exactly the assigned variables, in the order of first assignment. -/
def Declared (sc : Scope) : Prop :=
  sc.out.header = Program.header sc.assigned

/-- The translator starts with the two lines of the prologue that come before the
declarations. -/
theorem declared_initial (p : Precision) : (Scope.initial p).Declared := rfl

/-- `sc'` follows `sc` with `frags` added to the body: the precision is kept, the buffer stays
open or finished as it was, and a prologue that declares the assigned variables still does. -/
structure Emitted (sc sc' : Scope) (frags : List String) : Prop where
  precision : sc'.precision = sc.precision
  finished : sc'.out.finished = sc.out.finished
  body : sc'.out.body = sc.out.body ++ frags
  declared : sc.Declared → sc'.Declared

namespace Emitted

variable {a b c : Scope} {f g : List String}

theorem refl (sc : Scope) : Emitted sc sc [] :=
  ⟨rfl, rfl, (List.append_nil _).symm, id⟩

theorem trans (h₁ : Emitted a b f) (h₂ : Emitted b c g) : Emitted a c (f ++ g) where
  precision := h₂.precision.trans h₁.precision
  finished := h₂.finished.trans h₁.finished
  body := by rw [h₂.body, h₁.body, List.append_assoc]
  declared := h₂.declared ∘ h₁.declared

theorem of_eq (h : Emitted a b f) (hfg : f = g) : Emitted a b g :=
  hfg ▸ h

theorem emit (sc : Scope) (code : String) : Emitted sc (sc.emit code) [code] :=
  ⟨rfl, rfl, rfl, id⟩

theorem emitLine (sc : Scope) (code : String) : Emitted sc (sc.emitLine code) [code ++ "\n"] :=
  emit sc _

theorem emitAll (sc : Scope) (codes : List String) : Emitted sc (sc.emitAll codes) codes where
  precision := emitAll_precision sc codes
  finished := by simp
  body := by simp
  declared h := by simpa [Declared] using h

/-- A first assignment declares the variable in the prologue as it adds it to the assigned
ones; a later one changes nothing. -/
theorem declare (sc : Scope) (name : String) : Emitted sc (sc.declare name) [] := by
  unfold Scope.declare
  split
  · exact refl sc
  · refine ⟨rfl, rfl, (List.append_nil _).symm, fun h => ?_⟩
    simp only [Declared, emitHeader_out, Buffer.pushHeader_header, emitHeader_assigned] at h ⊢
    simp [h, Program.header, String.append_assoc]

theorem addLabel (sc : Scope) (name : String) (l : Location) :
    Emitted sc (sc.addLabel name l) [] :=
  ⟨rfl, rfl, (List.append_nil _).symm, id⟩

theorem addJump (sc : Scope) (name : String) (l : Location) :
    Emitted sc (sc.addJump name l) [] :=
  ⟨rfl, rfl, (List.append_nil _).symm, id⟩

end Emitted

end Scope

open Scope

/-- What `IF` and `WHILE` emit: their opening text, the comparison, `) {`, the body, and `}`. -/
theorem Guard.fragments_make (p : Precision) (g : Guard) (c : Comparison) (body : List Stmt) :
    Stmt.fragments p (g.make c body) =
      [g.opener] ++ c.fragments ++ [") \x7b\n"] ++ Stmt.blockFragments p body ++ ["\x7d\n"] := by
  cases g <;> rfl

/-- The reader of `IF` and `WHILE` emits the statement's fragments, given that the reader of the
block inside it emits the block's. -/
theorem Stmt.readGuarded_emitted {sc sc' : Scope} {w : Window} {s : Stmt} {w' : w.After}
    (g : Guard) (hk : w.current.kind = g.keyword)
    (hblock : ∀ {sc sc' : Scope} {v : Window} {ss : List Stmt} {v' : v.NotBefore},
      v.size < w.size → Stmt.readBlock g.stop g.stopHint sc v = .ok (ss, sc', v') →
      sc.Emitted sc' (Stmt.blockFragments sc.precision ss))
    (h : Stmt.readGuarded (fun x => x) Stmt.readBlock g sc w hk = .ok (s, sc', w')) :
    sc.Emitted sc' (Stmt.fragments sc.precision s) := by
  unfold Stmt.readGuarded at h
  rcases bind_eq_ok.1 h with ⟨⟨w₁, h₁⟩, -, h⟩
  rcases bind_eq_ok.1 h with ⟨⟨c, w₂, h₂⟩, -, h⟩
  rcases bind_eq_ok.1 h with ⟨⟨th, w₃, h₃⟩, -, h⟩
  rcases bind_eq_ok.1 h with ⟨⟨w₄, h₄⟩, -, h⟩
  rcases bind_eq_ok.1 h with ⟨⟨body, sc₁, w₅, h₅⟩, hbody, h⟩
  rcases bind_eq_ok.1 h with ⟨⟨en, w₆, h₆⟩, -, h⟩
  rcases bind_eq_ok.1 h with ⟨⟨w₇, h₇⟩, -, h⟩
  have h' := pure_eq_ok.1 h
  simp only [Prod.mk.injEq] at h'
  rcases h' with ⟨rfl, rfl, rfl⟩
  -- the body is read at a smaller window, after the opening text, the comparison and `) {`
  have hlt : w₄.size < w.size := by
    dsimp only at h₂ h₃ h₄
    omega
  have hopen := ((Emitted.emit sc g.opener).trans (Emitted.emitAll _ c.fragments)).trans
    (Emitted.emitLine _ ") \x7b")
  have hinner := hblock hlt hbody
  rw [hopen.precision] at hinner
  refine ((hopen.trans hinner).trans (Emitted.emitLine _ "\x7d")).of_eq ?_
  simp [Guard.fragments_make]

/-- What a statement's reader emits at windows smaller than `n`: the fragments of the statement,
for `Stmt.read`; those of the statements of the block, for `Stmt.readBlock`. -/
theorem stmt_emitted_lt (n : Nat) :
    (∀ {sc sc' : Scope} {w : Window} {s : Stmt} {w' : w.After}, w.size < n →
        Stmt.read sc w = .ok (s, sc', w') → sc.Emitted sc' (Stmt.fragments sc.precision s)) ∧
    (∀ {stop : Kind} {hint : String} {sc sc' : Scope} {w : Window} {ss : List Stmt}
        {w' : w.NotBefore}, w.size < n → Stmt.readBlock stop hint sc w = .ok (ss, sc', w') →
        sc.Emitted sc' (Stmt.blockFragments sc.precision ss)) := by
  induction n with
  | zero => exact ⟨fun h => absurd h (Nat.not_lt_zero _), fun h => absurd h (Nat.not_lt_zero _)⟩
  | succ n ih =>
    have hread : ∀ {sc sc' : Scope} {w : Window} {s : Stmt} {w' : w.After}, w.size < n + 1 →
        Stmt.read sc w = .ok (s, sc', w') → sc.Emitted sc' (Stmt.fragments sc.precision s) := by
      intro sc sc' w s w' hsize h
      rw [Stmt.read] at h
      split at h
      · -- PRINT, then a string or an expression
        rcases bind_eq_ok.1 h with ⟨⟨w₁, h₁⟩, -, h⟩
        dsimp only at h
        split at h
        · rcases bind_eq_ok.1 h with ⟨⟨w₂, h₂⟩, -, h⟩
          rcases bind_eq_ok.1 h with ⟨⟨w₃, h₃⟩, -, h⟩
          have h' := pure_eq_ok.1 h
          simp only [Prod.mk.injEq] at h'
          rcases h' with ⟨rfl, rfl, rfl⟩
          refine (Emitted.emitLine sc _).of_eq ?_
          simp [Stmt.fragments, String.append_assoc]
        · rcases bind_eq_ok.1 h with ⟨⟨x, w₂, h₂⟩, -, h⟩
          rcases bind_eq_ok.1 h with ⟨⟨w₃, h₃⟩, -, h⟩
          have h' := pure_eq_ok.1 h
          simp only [Prod.mk.injEq] at h'
          rcases h' with ⟨rfl, rfl, rfl⟩
          refine (((Emitted.emit sc _).trans (Emitted.emitAll _ x.fragments)).trans
            (Emitted.emitLine _ "));")).of_eq ?_
          simp [Stmt.fragments]
      · -- IF and WHILE: the block starts at a smaller window
        rename_i hk
        exact Stmt.readGuarded_emitted .ifThen hk (fun hv => ih.2 (by omega)) h
      · rename_i hk
        exact Stmt.readGuarded_emitted .whileRepeat hk (fun hv => ih.2 (by omega)) h
      · -- LABEL name
        rcases bind_eq_ok.1 h with ⟨⟨w₁, h₁⟩, -, h⟩
        rcases bind_eq_ok.1 h with ⟨⟨t, w₂, h₂⟩, -, h⟩
        dsimp only at h
        split at h
        · exact absurd h throw_ne_ok
        · rcases bind_eq_ok.1 h with ⟨⟨w₃, h₃⟩, -, h⟩
          have h' := pure_eq_ok.1 h
          simp only [Prod.mk.injEq] at h'
          rcases h' with ⟨rfl, rfl, rfl⟩
          refine ((Emitted.addLabel sc _ _).trans (Emitted.emitLine _ _)).of_eq ?_
          simp [Stmt.fragments, String.append_assoc]
      · -- GOTO name
        rcases bind_eq_ok.1 h with ⟨⟨w₁, h₁⟩, -, h⟩
        rcases bind_eq_ok.1 h with ⟨⟨t, w₂, h₂⟩, -, h⟩
        rcases bind_eq_ok.1 h with ⟨⟨w₃, h₃⟩, -, h⟩
        have h' := pure_eq_ok.1 h
        simp only [Prod.mk.injEq] at h'
        rcases h' with ⟨rfl, rfl, rfl⟩
        refine ((Emitted.addJump sc _ _).trans (Emitted.emitLine _ _)).of_eq ?_
        simp [Stmt.fragments, String.append_assoc]
      · -- LET name = expression: the name is declared before its expression is read
        rcases bind_eq_ok.1 h with ⟨⟨w₁, h₁⟩, -, h⟩
        rcases bind_eq_ok.1 h with ⟨⟨t, w₂, h₂⟩, -, h⟩
        dsimp only at h
        rcases bind_eq_ok.1 h with ⟨⟨q, w₃, h₃⟩, -, h⟩
        rcases bind_eq_ok.1 h with ⟨⟨x, w₄, h₄⟩, -, h⟩
        rcases bind_eq_ok.1 h with ⟨⟨w₅, h₅⟩, -, h⟩
        have h' := pure_eq_ok.1 h
        simp only [Prod.mk.injEq] at h'
        rcases h' with ⟨rfl, rfl, rfl⟩
        refine ((((Emitted.declare sc t.text).trans (Emitted.emit _ _)).trans
          (Emitted.emitAll _ x.fragments)).trans (Emitted.emitLine _ ";")).of_eq ?_
        simp [Stmt.fragments]
      · -- INPUT name: declared, then read by four lines
        rcases bind_eq_ok.1 h with ⟨⟨w₁, h₁⟩, -, h⟩
        rcases bind_eq_ok.1 h with ⟨⟨t, w₂, h₂⟩, -, h⟩
        rcases bind_eq_ok.1 h with ⟨⟨w₃, h₃⟩, -, h⟩
        have h' := pure_eq_ok.1 h
        simp only [Prod.mk.injEq] at h'
        rcases h' with ⟨rfl, rfl, rfl⟩
        refine (((((Emitted.declare sc t.text).trans (Emitted.emitLine _ _)).trans
          (Emitted.emitLine _ _)).trans (Emitted.emitLine _ _)).trans
          (Emitted.emitLine _ _)).of_eq ?_
        simp [Stmt.fragments, String.append_assoc]
      · -- no statement starts with any other token
        exact absurd h throw_ne_ok
    refine ⟨hread, ?_⟩
    intro stop hint sc sc' w ss w' hsize h
    rw [Stmt.readBlock] at h
    split at h
    · -- the closing keyword: an empty block emits nothing
      have h' := pure_eq_ok.1 h
      simp only [Prod.mk.injEq] at h'
      rcases h' with ⟨rfl, rfl, rfl⟩
      exact Emitted.refl sc
    · split at h
      · exact absurd h throw_ne_ok
      · rcases bind_eq_ok.1 h with ⟨⟨s, sc₁, w₁, h₁⟩, hs, h⟩
        rcases bind_eq_ok.1 h with ⟨⟨ss', sc₂, w₂, h₂⟩, hss, h⟩
        have h' := pure_eq_ok.1 h
        simp only [Prod.mk.injEq] at h'
        rcases h' with ⟨rfl, rfl, rfl⟩
        -- the statement, then the rest of the block from the window after it
        have hfirst := hread hsize hs
        have hrest := ih.2 (Nat.lt_of_lt_of_le h₁ (Nat.le_of_lt_succ hsize)) hss
        rw [hfirst.precision] at hrest
        exact hfirst.trans hrest

variable {sc sc' : Scope} {w : Window}

theorem Stmt.read_emitted {s : Stmt} {w' : w.After} (h : Stmt.read sc w = .ok (s, sc', w')) :
    sc.Emitted sc' (Stmt.fragments sc.precision s) :=
  (stmt_emitted_lt (w.size + 1)).1 (Nat.lt_succ_self _) h

theorem Stmt.readBlock_emitted {stop : Kind} {hint : String} {ss : List Stmt} {w' : w.NotBefore}
    (h : Stmt.readBlock stop hint sc w = .ok (ss, sc', w')) :
    sc.Emitted sc' (Stmt.blockFragments sc.precision ss) :=
  (stmt_emitted_lt (w.size + 1)).2 (Nat.lt_succ_self _) h

/-- The statements of a program, read up to the end, emit their fragments one after another. -/
theorem Program.readFrom_emitted {prog : Program} {w' : w.NotBefore}
    (h : Program.readFrom sc w = .ok (prog, sc', w')) :
    sc.Emitted sc' (Stmt.blockFragments sc.precision prog) := by
  induction sc, w using Program.readFrom.induct generalizing prog sc' with
  | case1 sc w heof =>
    rw [Program.readFrom, if_pos heof] at h
    have h' := pure_eq_ok.1 h
    simp only [Prod.mk.injEq] at h'
    rcases h' with ⟨rfl, rfl, rfl⟩
    exact Emitted.refl sc
  | case2 sc w hne ih =>
    rw [Program.readFrom, if_neg hne] at h
    rcases bind_eq_ok.1 h with ⟨⟨s, sc₁, w₁, h₁⟩, hs, h⟩
    rcases bind_eq_ok.1 h with ⟨⟨ss, sc₂, w₂, h₂⟩, hss, h⟩
    have h' := pure_eq_ok.1 h
    simp only [Prod.mk.injEq] at h'
    rcases h' with ⟨rfl, rfl, rfl⟩
    have hfirst := Stmt.read_emitted hs
    have hrest := ih sc₁ w₁ h₁ hss
    rw [hfirst.precision] at hrest
    exact hfirst.trans hrest

/-- The buffer a successful parse fills is the one the program's tree gives: the prologue
declares the variables the parse recorded, in their order, and the body holds the statements'
fragments and the end of `main`; it is still open. -/
theorem Program.parse_out {p : Precision} {file source : String} {r : Parsed}
    (h : Program.parse p file source = .ok r) :
    r.out = { header := Program.header r.assigned, body := Program.body p r.program } := by
  obtain ⟨w, w₁, sc, w₂, -, -, hread, -, hr⟩ := Program.parse_eq_ok h
  -- the walk starts from the first state, declared, with an empty body, and closes `main`
  have hwalk := ((Program.readFrom_emitted hread).trans (Emitted.emitLine _ "return 0;")).trans
    (Emitted.emitLine _ "\x7d")
  have hdecl : ((sc.emitLine "return 0;").emitLine "\x7d").Declared :=
    hwalk.declared (declared_initial p)
  rw [hr]
  dsimp only
  refine Buffer.ext hdecl ?_ hwalk.finished
  rw [hwalk.body]
  simp [Scope.initial, Program.body]

end TinyBasic
