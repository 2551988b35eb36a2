import TinyBasic.Proofs.Reach
import TinyBasic.Proofs.Printing
/-!
# The windows of a run

The parser moves its window only by `Window.advance`, and only from a current token that is not
the end. A run of the parser is therefore a walk: the windows it holds follow one another, each
the advance of the one before. Every reader is such a walk, and the walk of a whole parse can be
laid against the scanner's token list: the windows make current each token of the list once, in
order, each with the token after it in view, and the last with the end token in view again. The
parser's count of the tokens it took is then the length of the list.

* `Window.Walk w ws w'`: the windows `ws` follow `w` one advance at a time and end at `w'`.
  Along a walk from the token at index `j`, the windows make current the tokens from index `j`
  on (`Window.Walk.currents`), and have in view the tokens after them (`Window.Walk.peeks`).
* `Window.Kept`: the window's stream is the one that gave its peek, and once the end is current
  the peek is the end token again. The first window has it and every move keeps it.
* `Window.Advances w r`: the result `r` of a reader run from `w` is a failure, or its window
  is reached from `w` by a walk. Each reader has its `_advances` lemma.
* `compile_takes_each_token_once`: the windows of a successful parse are the start window and
  a walk from it to the end token, and they make current the scanner's tokens, each once.
-/

namespace TinyBasic

namespace Window

variable {u v w w' : Window} {ws vs : List Window}

/-- A move makes the peek current, takes the stream's next token into view, and counts one more
token taken. -/
theorem advance_eq_ok (h : w.advance = .ok v) :
    w.stream.next = (.ok v.peek, v.stream) ∧ v.current = w.peek ∧ v.taken = w.taken + 1 := by
  unfold advance at h
  split at h
  · rename_i t s hs
    cases h
    exact ⟨hs, rfl, rfl⟩
  · cases h

/-- The first window has taken one token. -/
theorem start_taken {s : TokenStream} (h : Window.start s = .ok w) : w.taken = 1 := by
  unfold Window.start at h
  split at h
  · cases h
  · split at h
    · cases h
    · cases h
      rfl

/-! ## Walks -/

/-- `w.Walk ws w'`: the windows `ws` follow `w` one by one, each the advance of the one before
from a current token that is not the end, and `w'` is the last of them, or `w` when there are
none. -/
inductive Walk : Window → List Window → Window → Prop
  | nil (w : Window) : Walk w [] w
  | cons {w v w' : Window} {ws : List Window} (hk : w.current.kind ≠ .eof)
      (ha : w.advance = .ok v) (hws : Walk v ws w') : Walk w (v :: ws) w'

theorem Walk.append (h₁ : u.Walk ws v) (h₂ : v.Walk vs w) : u.Walk (ws ++ vs) w := by
  induction h₁ with
  | nil => exact h₂
  | cons hk ha _ ih => exact .cons hk ha (ih h₂)

/-- Each move of a walk counts one more token taken. -/
theorem Walk.taken (h : w.Walk ws w') : w'.taken = w.taken + ws.length := by
  induction h with
  | nil => rfl
  | cons _ ha _ ih =>
    rw [ih, (advance_eq_ok ha).2.2, List.length_cons]
    omega

/-- A walk from the token at index `j` ends at the index that many moves on. -/
theorem Walk.at_end {S : Scan} {j : Nat} (h : w.Walk ws w') (hat : S.At j w) :
    S.At (j + ws.length) w' := by
  induction h generalizing j with
  | nil => exact hat
  | cons hk ha _ ih =>
    have hnext := ih (hat.advance hk ha)
    rw [List.length_cons, ← Nat.add_assoc, Nat.add_right_comm]
    exact hnext

/-- Along a walk from the token at index `j`, the windows make current the tokens from index
`j` on, one each, in order. -/
theorem Walk.currents {S : Scan} {j : Nat} (h : w.Walk ws w') (hat : S.At j w) :
    (w :: ws).map current ++ S.tokens.drop (j + ws.length + 1) = S.tokens.drop j := by
  induction h generalizing j with
  | nil => exact hat.drop_eq.symm
  | @cons w v w' ws hk ha _ ih =>
    have hnext := ih (hat.advance hk ha)
    rw [List.length_cons, show j + (ws.length + 1) + 1 = j + 1 + ws.length + 1 by omega,
      List.map_cons, List.cons_append, hnext]
    exact hat.drop_eq.symm

/-! ## The peek at the end -/

/-- A window as the parser keeps it: its stream is the one that gave its peek, and once the
current token is the end, the peek is that end token again. -/
structure Kept (w : Window) : Prop where
  fresh : ∃ s : TokenStream, s.next = (.ok w.peek, w.stream)
  peek_of_end : w.current.kind = .eof → w.peek = w.current

theorem Kept.start {s : TokenStream} (h : Window.start s = .ok w) : w.Kept := by
  unfold Window.start at h
  split at h
  · cases h
  · rename_i t s₁ hs
    split at h
    · cases h
    · rename_i u s₂ hs₁
      cases h
      refine ⟨⟨s₁, hs₁⟩, fun hend => ?_⟩
      -- the stream gives the end token again after it
      rw [TokenStream.next_after_eof hs hend] at hs₁
      simp only [Prod.mk.injEq, Except.ok.injEq] at hs₁
      exact hs₁.1.symm

theorem Kept.advance (h : w.Kept) (ha : w.advance = .ok v) : v.Kept := by
  obtain ⟨hnext, hcur, -⟩ := advance_eq_ok ha
  refine ⟨⟨w.stream, hnext⟩, fun hend => ?_⟩
  rw [hcur] at hend ⊢
  -- the end token came into view from the stream, which gives it again
  obtain ⟨s, hs⟩ := h.fresh
  rw [TokenStream.next_after_eof hs hend] at hnext
  simp only [Prod.mk.injEq, Except.ok.injEq] at hnext
  exact hnext.1.symm

/-- Along a walk from the token at index `j` to the end, each window has in view the token
after its current one, and the last the end token again. -/
theorem Walk.peeks {S : Scan} {j : Nat} (h : w.Walk ws w') (hat : S.At j w) (hkept : w.Kept)
    (hend : w'.current.kind = .eof) :
    (w :: ws).map peek = S.tokens.drop (j + 1) ++ [w'.current] := by
  induction h generalizing j with
  | nil w =>
    -- nothing follows the end token
    have hdrop : S.tokens.drop (j + 1) = [] := by
      rw [List.drop_add_one_eq_tail_drop, (hat.1.of_eof hend).1]
      rfl
    rw [hdrop, List.map_cons, List.map_nil, List.nil_append, hkept.peek_of_end hend]
  | cons hk ha _ ih =>
    have hat' := hat.advance hk ha
    rw [List.map_cons, ih hat' (hkept.advance ha) hend, ← List.cons_append, hat'.drop_eq,
      (advance_eq_ok ha).2.1]

/-! ## Readers walk -/

/-- How a run fails at the window `v` it reached, and how many more tokens it asked the stream
for there: none when a check made at `v` fails, and one when `v` moves on and the stream meets its
fault instead of giving the next token. -/
inductive Fails (d : Diagnostic) : Window → Nat → Prop
  | check (v : Window) : Fails d v 0
  | fault {v : Window} (hk : v.current.kind ≠ .eof) (ha : v.advance = .error d) : Fails d v 1

/-- What a reader run from `w` returns: what it read with a window that a walk from `w`
reaches, or a failure met at a window that a walk from `w` reaches. -/
def Advances {β γ : Type} [Windowed β γ] (w : Window) : Except Diagnostic β → Prop
  | .error d => ∃ ws v n, w.Walk ws v ∧ v.Fails d n
  | .ok b => ∃ ws, w.Walk ws (Windowed.window b)

variable {β γ β' γ' : Type} [Windowed β γ] [Windowed β' γ']

/-- A reader that runs another and goes on from where it left the window. -/
theorem Advances.bind {x : Except Diagnostic β} {g : β → Except Diagnostic β'}
    (hx : w.Advances x) (hg : ∀ b, x = .ok b → (Windowed.window b).Advances (g b)) :
    w.Advances (x >>= g) := by
  cases x with
  | error => exact hx
  | ok b =>
    obtain ⟨ws, hw⟩ := hx
    have hgb := hg b rfl
    show w.Advances (g b)
    -- the second run's walk, failing or not, goes on from where the first left the window
    cases hr : g b with
    | error d =>
      rw [hr] at hgb
      obtain ⟨vs, v, n, hv, hf⟩ := hgb
      exact ⟨ws ++ vs, v, n, hw.append hv, hf⟩
    | ok c =>
      rw [hr] at hgb
      obtain ⟨vs, hv⟩ := hgb
      exact ⟨ws ++ vs, hw.append hv⟩

/-- A reader that returns at once leaves its window where it was. -/
theorem Advances.pure {b : β} : (Windowed.window b).Advances (pure b : Except Diagnostic β) :=
  ⟨[], .nil _⟩

/-- A check that fails fails where the reader stands. -/
theorem Advances.throw {d : Diagnostic} : w.Advances (throw d : Except Diagnostic β) :=
  ⟨[], w, 0, .nil w, .check w⟩

theorem step_advances (hk : w.current.kind ≠ .eof) : w.Advances (w.step hk) := by
  unfold step
  split
  · rename_i v hv
    exact ⟨[v], .cons hk hv (.nil v)⟩
  · rename_i d hd
    exact ⟨[], w, 1, .nil w, .fault hk hd⟩

theorem expect_advances {k : Kind} (hk : k.isEnd = false) (hint : Option String) :
    w.Advances (w.expect k hk hint) := by
  rw [expect_eq_bind]
  split
  · exact Advances.bind (step_advances _) fun _ _ => Advances.pure
  · exact Advances.throw

theorem skipNewlines_advances : w.Advances w.skipNewlines := by
  induction w using Window.skipNewlines.induct with
  | case1 w hk _ _ hstep _ _ ih | case2 w hk _ _ hstep _ _ ih =>
    -- a line break is passed, and the rest of the run goes on from the next window
    rw [skipNewlines_eq_bind, dif_pos hk]
    refine Advances.bind (step_advances _) ?_
    rintro ⟨v, hv⟩ hs
    rw [hstep] at hs
    cases hs
    exact Advances.bind ih fun _ _ => Advances.pure
  | case3 w hk d hstep =>
    -- the stream's fault meets the move past the line break
    have hfail := step_advances (w := w) (current_ne_eof hk rfl)
    rw [hstep] at hfail
    rw [skipNewlines_eq_bind, dif_pos hk, hstep]
    exact hfail
  | case4 w hk =>
    rw [skipNewlines_eq_bind, dif_neg hk]
    exact ⟨[], .nil _⟩

theorem lineBreak_advances : w.Advances w.lineBreak := by
  rw [lineBreak_eq_bind]
  exact Advances.bind (expect_advances rfl _) fun _ _ =>
    Advances.bind skipNewlines_advances fun _ _ => Advances.pure

end Window

open Window

variable {w : Window} {sc : Scope}

theorem Sign.read?_advances : w.Advances (Sign.read? w) := by
  unfold Sign.read?
  split
  · exact Advances.bind (step_advances _) fun _ _ => Advances.pure
  · exact ⟨[], .nil _⟩

theorem Factor.read_advances : w.Advances (Factor.read sc w) := by
  unfold Factor.read
  refine Advances.bind Sign.read?_advances ?_
  rintro ⟨sg, v, hv⟩ -
  dsimp only
  split
  · exact Advances.bind (step_advances _) fun _ _ => Advances.pure
  · split
    · exact Advances.bind (step_advances _) fun _ _ => Advances.pure
    · exact Advances.throw
  · exact Advances.throw

theorem Term.readRest_advances : w.Advances (Term.readRest sc w) := by
  induction w using Term.readRest.induct with
  | case1 w op hop ih =>
    rw [Term.readRest]
    split
    · refine Advances.bind (step_advances _) ?_
      rintro ⟨v₁, hv₁⟩ -
      refine Advances.bind Factor.read_advances ?_
      rintro ⟨f, v₂, hv₂⟩ -
      exact Advances.bind (ih v₁ hv₁ v₂ hv₂) fun _ _ => Advances.pure
    · rename_i hnone
      rw [hop] at hnone
      cases hnone
  | case2 w hnone =>
    rw [Term.readRest]
    split
    · rename_i op hop
      rw [hnone] at hop
      cases hop
    · exact ⟨[], .nil _⟩

theorem Term.read_advances : w.Advances (Term.read sc w) :=
  Advances.bind Factor.read_advances fun _ _ =>
    Advances.bind Term.readRest_advances fun _ _ => Advances.pure

theorem Expr.readRest_advances : w.Advances (Expr.readRest sc w) := by
  induction w using Expr.readRest.induct with
  | case1 w op hop ih =>
    rw [Expr.readRest]
    split
    · refine Advances.bind (step_advances _) ?_
      rintro ⟨v₁, hv₁⟩ -
      refine Advances.bind Term.read_advances ?_
      rintro ⟨t, v₂, hv₂⟩ -
      exact Advances.bind (ih v₁ hv₁ v₂ hv₂) fun _ _ => Advances.pure
    · rename_i hnone
      rw [hop] at hnone
      cases hnone
  | case2 w hnone =>
    rw [Expr.readRest]
    split
    · rename_i op hop
      rw [hnone] at hop
      cases hop
    · exact ⟨[], .nil _⟩

theorem Expr.read_advances : w.Advances (Expr.read sc w) :=
  Advances.bind Term.read_advances fun _ _ =>
    Advances.bind Expr.readRest_advances fun _ _ => Advances.pure

theorem Comparison.readRest_advances : w.Advances (Comparison.readRest sc w) := by
  induction w using Comparison.readRest.induct with
  | case1 w rel hrel ih =>
    rw [Comparison.readRest]
    split
    · refine Advances.bind (step_advances _) ?_
      rintro ⟨v₁, hv₁⟩ -
      refine Advances.bind Expr.read_advances ?_
      rintro ⟨x, v₂, hv₂⟩ -
      exact Advances.bind (ih v₁ hv₁ v₂ hv₂) fun _ _ => Advances.pure
    · rename_i hnone
      rw [hrel] at hnone
      cases hnone
  | case2 w hnone =>
    rw [Comparison.readRest]
    split
    · rename_i rel hrel
      rw [hnone] at hrel
      cases hrel
    · exact ⟨[], .nil _⟩

theorem Comparison.read_advances : w.Advances (Comparison.read sc w) := by
  unfold Comparison.read
  refine Advances.bind Expr.read_advances ?_
  rintro ⟨l, v, hv⟩ -
  dsimp only
  split
  · exact Advances.bind (step_advances _) fun _ _ =>
      Advances.bind Expr.read_advances fun _ _ =>
        Advances.bind Comparison.readRest_advances fun _ _ => Advances.pure
  · exact Advances.throw

/-- The reader of `IF` and `WHILE` walks, given that the reader of the block inside it does. -/
theorem Stmt.readGuarded_advances (g : Guard) (hk : w.current.kind = g.keyword)
    (hblock : ∀ {sc : Scope} {v : Window}, v.size < w.size →
      v.Advances (Stmt.readBlock g.stop g.stopHint sc v)) :
    w.Advances (Stmt.readGuarded (fun x => x) Stmt.readBlock g sc w hk) := by
  unfold Stmt.readGuarded
  refine Advances.bind (step_advances _) ?_
  rintro ⟨v₁, hv₁⟩ -
  refine Advances.bind Comparison.read_advances ?_
  rintro ⟨c, v₂, hv₂⟩ -
  refine Advances.bind (expect_advances g.sep_isEnd _) ?_
  rintro ⟨th, v₃, hv₃⟩ -
  refine Advances.bind lineBreak_advances ?_
  rintro ⟨v₄, hv₄⟩ -
  have hlt : v₄.size < w.size := by
    dsimp only at hv₂ hv₃ hv₄
    omega
  exact Advances.bind (hblock hlt) fun _ _ =>
    Advances.bind (expect_advances g.stop_isEnd _) fun _ _ =>
      Advances.bind lineBreak_advances fun _ _ => Advances.pure

/-- The statement readers, for windows smaller than `n`; strong induction on `n` carries the
mutual recursion of `Stmt.read` and `Stmt.readBlock`. -/
theorem stmt_advances_lt (n : Nat) :
    (∀ {sc : Scope} {w : Window}, w.size < n → w.Advances (Stmt.read sc w)) ∧
    (∀ {stop : Kind} {hint : String} {sc : Scope} {w : Window}, w.size < n →
        w.Advances (Stmt.readBlock stop hint sc w)) := by
  induction n with
  | zero =>
    exact ⟨fun hn => absurd hn (Nat.not_lt_zero _), fun hn => absurd hn (Nat.not_lt_zero _)⟩
  | succ n ih =>
    have hread : ∀ {sc : Scope} {w : Window}, w.size < n + 1 → w.Advances (Stmt.read sc w) := by
      intro sc w hsize
      rw [Stmt.read]
      split
      · -- PRINT, then a string or an expression
        refine Advances.bind (step_advances _) ?_
        rintro ⟨v₁, hv₁⟩ -
        dsimp only
        split
        · exact Advances.bind (step_advances _) fun _ _ =>
            Advances.bind lineBreak_advances fun _ _ => Advances.pure
        · exact Advances.bind Expr.read_advances fun _ _ =>
            Advances.bind lineBreak_advances fun _ _ => Advances.pure
      · -- IF and WHILE: the block starts at a smaller window
        rename_i hk
        exact Stmt.readGuarded_advances .ifThen hk fun hv => ih.2 (by omega)
      · rename_i hk
        exact Stmt.readGuarded_advances .whileRepeat hk fun hv => ih.2 (by omega)
      · -- LABEL: a second declaration stops the run
        refine Advances.bind (step_advances _) ?_
        rintro ⟨v₁, hv₁⟩ -
        refine Advances.bind (expect_advances rfl _) ?_
        rintro ⟨t, v₂, hv₂⟩ -
        dsimp only
        split
        · exact Advances.throw
        · exact Advances.bind lineBreak_advances fun _ _ => Advances.pure
      · -- GOTO
        exact Advances.bind (step_advances _) fun _ _ =>
          Advances.bind (expect_advances rfl _) fun _ _ =>
            Advances.bind lineBreak_advances fun _ _ => Advances.pure
      · -- LET
        exact Advances.bind (step_advances _) fun _ _ =>
          Advances.bind (expect_advances rfl _) fun _ _ =>
            Advances.bind (expect_advances rfl _) fun _ _ =>
              Advances.bind Expr.read_advances fun _ _ =>
                Advances.bind lineBreak_advances fun _ _ => Advances.pure
      · -- INPUT
        exact Advances.bind (step_advances _) fun _ _ =>
          Advances.bind (expect_advances rfl _) fun _ _ =>
            Advances.bind lineBreak_advances fun _ _ => Advances.pure
      · exact Advances.throw
    refine ⟨hread, ?_⟩
    intro stop hint sc w hsize
    rw [Stmt.readBlock]
    split
    · exact ⟨[], .nil _⟩
    · split
      · exact Advances.throw
      · refine Advances.bind (hread hsize) ?_
        rintro ⟨s, sc₁, v₁, hv₁⟩ -
        have hlt : v₁.size < n := by omega
        exact Advances.bind (ih.2 hlt) fun _ _ => Advances.pure

theorem Stmt.read_advances : w.Advances (Stmt.read sc w) :=
  (stmt_advances_lt (w.size + 1)).1 (Nat.lt_succ_self _)

theorem Stmt.readBlock_advances {stop : Kind} {hint : String} :
    w.Advances (Stmt.readBlock stop hint sc w) :=
  (stmt_advances_lt (w.size + 1)).2 (Nat.lt_succ_self _)

theorem Program.readFrom_advances : w.Advances (Program.readFrom sc w) := by
  induction sc, w using Program.readFrom.induct with
  | case1 sc w heof =>
    rw [Program.readFrom, if_pos heof]
    exact ⟨[], .nil _⟩
  | case2 sc w hne ih =>
    rw [Program.readFrom, if_neg hne]
    refine Advances.bind Stmt.read_advances ?_
    rintro ⟨s, sc₁, v₁, hv₁⟩ -
    exact Advances.bind (ih sc₁ v₁ hv₁) fun _ _ => Advances.pure

/-- The statements of a program are read up to the end token. -/
theorem Program.readFrom_end {prog : Program} {sc' : Scope} {w' : w.NotBefore}
    (h : Program.readFrom sc w = .ok (prog, sc', w')) : w'.1.current.kind = .eof := by
  induction sc, w using Program.readFrom.induct generalizing prog sc' with
  | case1 sc w heof =>
    rw [Program.readFrom, if_pos heof] at h
    have h' := pure_eq_ok.1 h
    simp only [Prod.mk.injEq] at h'
    rcases h' with ⟨-, -, rfl⟩
    exact heof
  | case2 sc w hne ih =>
    rw [Program.readFrom, if_neg hne] at h
    rcases bind_eq_ok.1 h with ⟨⟨s, sc₁, w₁, h₁⟩, -, h⟩
    rcases bind_eq_ok.1 h with ⟨⟨ss, sc₂, w₂, h₂⟩, hss, h⟩
    have h' := pure_eq_ok.1 h
    simp only [Prod.mk.injEq] at h'
    rcases h' with ⟨-, -, rfl⟩
    exact ih sc₁ w₁ h₁ hss

/-! ## The walk of a whole parse -/

/-- A successful parse walks from its first window to the end token: its windows are the start
window, the ones `skipNewlines` passes, and the ones the statements pass, up to the window on
the end token where it stops and counts the tokens it took. -/
theorem Program.parse_walk {p : Precision} {file source : String} {r : Parsed}
    (h : Program.parse p file source = .ok r) :
    ∃ w₀ ws w, Window.start (TokenStream.start file source) = .ok w₀ ∧ w₀.Walk ws w ∧
      (∃ (w₁ : w₀.NotBefore) (sc : Scope) (hw : w.size ≤ w₁.1.size),
        w₀.skipNewlines = .ok w₁ ∧
          Program.readFrom (Scope.initial p) w₁.1 = .ok (r.program, sc, ⟨w, hw⟩)) ∧
      w.current.kind = .eof ∧ r.tokenCount = w.taken := by
  obtain ⟨w₀, w₁, sc, ⟨w, hw⟩, hstart, hskip, hread, -, hr⟩ := Program.parse_eq_ok h
  have hwalk₁ : w₀.Advances w₀.skipNewlines := skipNewlines_advances
  rw [hskip] at hwalk₁
  obtain ⟨ws₁, hws₁⟩ := hwalk₁
  have hwalk₂ : w₁.1.Advances (Program.readFrom (Scope.initial p) w₁.1) :=
    Program.readFrom_advances
  rw [hread] at hwalk₂
  obtain ⟨ws₂, hws₂⟩ := hwalk₂
  refine ⟨w₀, ws₁ ++ ws₂, w, hstart, hws₁.append hws₂, ⟨w₁, sc, hw, hskip, hread⟩,
    Program.readFrom_end hread, ?_⟩
  rw [hr]

/-- A failing parse that got its first window fails at a window a walk from it reaches: by a
reader's check or the stream's fault on the way, or at the end, by the check for jumps to labels
no statement declares. -/
theorem Program.parse_fails_on_walk {p : Precision} {file source : String} {d : Diagnostic}
    {w₀ : Window} (h : Program.parse p file source = .error d)
    (hstart : Window.start (TokenStream.start file source) = .ok w₀) :
    ∃ ws v n, w₀.Walk ws v ∧ v.Fails d n := by
  rw [Program.parse] at h
  rcases bind_eq_error.1 h with hs | ⟨w, hs, h⟩
  · rw [hstart] at hs
    cases hs
  rw [hstart] at hs
  cases hs
  have hskip : w₀.Advances w₀.skipNewlines := skipNewlines_advances
  rcases bind_eq_error.1 h with hs | ⟨⟨w₁, h₁⟩, hs, h⟩
  · rw [hs] at hskip
    exact hskip
  rw [hs] at hskip
  obtain ⟨ws₁, hws₁⟩ := hskip
  have hread : w₁.Advances (Program.readFrom (Scope.initial p) w₁) := Program.readFrom_advances
  rcases bind_eq_error.1 h with hr | ⟨⟨prog, sc, w₂, h₂⟩, hr, -⟩
  · rw [hr] at hread
    obtain ⟨ws₂, v, n, hws₂, hf⟩ := hread
    exact ⟨ws₁ ++ ws₂, v, n, hws₁.append hws₂, hf⟩
  · -- the statements were read to the end; what fails is the check of the jumps, made there
    rw [hr] at hread
    obtain ⟨ws₂, hws₂⟩ := hread
    exact ⟨ws₁ ++ ws₂, w₂, 0, hws₁.append hws₂, .check w₂⟩

/-- A successful compilation holds its window on each token of the scanner's list once, in
order. The windows of its parse are the start window and a walk from it, each the advance of
the one before, up to the window where the statements stop; they make current the tokens of the
list, from the first to the end token, each has in view the token after its current one, and
the last has the end token in view again. The count of tokens taken is the length of the
list. -/
theorem compile_takes_each_token_once {p : Precision} {file source : String} {c : Compilation}
    (h : compile p file source = .ok c) :
    ∃ ts w₀ ws w, (TokenStream.start file source).tokens = (ts, none) ∧
      Window.start (TokenStream.start file source) = .ok w₀ ∧ w₀.Walk ws w ∧
      (∃ (w₁ : w₀.NotBefore) (sc : Scope) (hw : w.size ≤ w₁.1.size),
        w₀.skipNewlines = .ok w₁ ∧
          Program.readFrom (Scope.initial p) w₁.1 = .ok (c.parsed.program, sc, ⟨w, hw⟩)) ∧
      (w₀ :: ws).map Window.current = ts ∧
      (w₀ :: ws).map Window.peek = ts.tail ++ [w.current] ∧
      w.current.kind = .eof ∧ c.parsed.tokenCount = ts.length := by
  obtain ⟨hparse, -⟩ := compile_eq_ok h
  obtain ⟨ts, htok, -, -⟩ := Program.parse_sound hparse
  obtain ⟨w₀, ws, w, hstart, hwalk, hrun, hend, hcount⟩ := Program.parse_walk hparse
  -- the walk starts at the first token of the scan and ends on the end token, its last
  let S : Scan := ⟨file, ts, none⟩
  have hat₀ : S.At 0 w₀ := Scan.start_at htok rfl hstart
  have hat : S.At ws.length w := by
    simpa using hwalk.at_end hat₀
  have hlast : ts.drop ws.length = [w.current] := (hat.1.of_eof hend).1
  have hlen : ts.length = ws.length + 1 := by
    have := congrArg List.length hlast
    rw [List.length_drop, List.length_singleton] at this
    omega
  have hcurrents : (w₀ :: ws).map Window.current = ts := by
    have hc : (w₀ :: ws).map Window.current ++ ts.drop (0 + ws.length + 1) = ts.drop 0 :=
      hwalk.currents hat₀
    rw [Nat.zero_add, List.drop_eq_nil_of_le (by omega), List.append_nil, List.drop_zero] at hc
    exact hc
  have hpeeks : (w₀ :: ws).map Window.peek = ts.drop (0 + 1) ++ [w.current] :=
    hwalk.peeks hat₀ (Kept.start hstart) hend
  rw [Nat.zero_add, List.drop_one] at hpeeks
  refine ⟨ts, w₀, ws, w, htok, hstart, hwalk, hrun, hcurrents, hpeeks, hend, ?_⟩
  rw [hcount, hwalk.taken, start_taken hstart, hlen, Nat.add_comm]

/-- The source with one text that holds a null character: its parse takes its four tokens. -/
theorem compile_takes_each_token_once_of_text :
    ∃ c, compile default "<input>" "PRINT \"a\x00b\"" = .ok c ∧
      ∃ ts, (TokenStream.start "<input>" "PRINT \"a\x00b\"").tokens = (ts, none) ∧
        c.parsed.tokenCount = ts.length := by
  obtain ⟨c, hc, -, -⟩ := compile_text_with_null
  obtain ⟨ts, w₀, ws, w, htok, -, -, -, -, -, -, hcount⟩ := compile_takes_each_token_once hc
  exact ⟨c, hc, ts, htok, hcount⟩

end TinyBasic
