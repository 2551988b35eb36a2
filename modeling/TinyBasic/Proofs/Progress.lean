import TinyBasic.Proofs.Walk
/-!
# How far the scanner and the readers move

Each token other than the end costs the scanner at least one character. The scan of a source
therefore holds at most two tokens more than the source has characters: one for the closing line
feed that the stream adds, and one for the end token. The parser's window moves along that list
one token at a time and never past the end token, so a run of the parser makes fewer moves than
the list has tokens. The window asks the stream for a token twice when it opens and once for each
move, so a run asks for at most `source.length + 3` tokens.

A reader that does not fail moves the window on. `Window.Moves n w r` says that the result `r` of
a reader run from `w` is a failure, or a window that a walk of at least `n` moves reaches. The
minimum moves are:

* an expression: one token;
* a comparison: three;
* a statement: three (its keyword, what follows it, and its line break);
* a block or a program: three for each statement it reads.

The results:

* `TokenStream.tokens_length_add_fault_le`, `TokenStream.start_tokens_length_le`: the length of
  the scan.
* `Window.Walk.length_lt`, `Window.Walk.length_add_two_le`: a walk stays on the scan, and stops
  two tokens short of the scan's end when the scan ends in a fault; `Window.Walk.start_bounds`
  counts the requests of a walk from the first window.
* `Stmt.read_moves`, `Stmt.readBlock_moves`, `Program.readFrom_moves`: the readers' progress.
* `Program.parse_tokenCount_ge`: a program of `k` statements takes at least `3 * k + 1` tokens.
-/

namespace TinyBasic

/-! ## The length of the scan -/

namespace TokenStream

variable {s s' : TokenStream} {t : Token} {ts : List Token} {e : Option Diagnostic}

/-- A token other than the end costs the stream at least one character. -/
theorem next_rest_lt (h : s.next = (.ok t, s')) (hk : t.kind ≠ .eof) :
    s'.cursor.rest.length < s.cursor.rest.length := by
  have hcost := next_rest_length h
  simp only [Token.pending, hk, if_false] at hcost
  omega

/-- The stream gives at most one token more than it has characters left, and a fault counts as
one of them: each token but the end costs a character, and the end or a fault closes the list. -/
theorem tokens_length_add_fault_le (h : s.tokens = (ts, e)) :
    ts.length + e.isSome.toNat ≤ s.cursor.rest.length + 1 := by
  induction s using TokenStream.tokens.induct generalizing ts e with
  | case1 s d s' hd =>
    rw [tokens_of_next_error hd, Prod.mk.injEq] at h
    obtain ⟨rfl, rfl⟩ := h
    simp
  | case2 s t s' ht hk =>
    rw [tokens_of_next_eof ht hk, Prod.mk.injEq] at h
    obtain ⟨rfl, rfl⟩ := h
    simp
  | case3 s t s' ht hk hlt ts' e' hts ih =>
    simp only [tokens_of_next_token ht hk, hts, Prod.mk.injEq] at h
    obtain ⟨rfl, rfl⟩ := h
    have hrest := ih hts
    rw [List.length_cons]
    omega

/-- The stream on a source starts on its characters and the closing line feed. -/
theorem start_rest_length (file source : String) :
    (start file source).cursor.rest.length = source.length + 1 := by
  simp [start, String.length_toList]

/-- The scan of a source holds at most two tokens more than the source has characters, and at
most one more when it ends in a fault. -/
theorem start_tokens_length_le {file source : String} (h : (start file source).tokens = (ts, e)) :
    ts.length + e.isSome.toNat ≤ source.length + 2 := by
  have hlen := tokens_length_add_fault_le h
  rw [start_rest_length] at hlen
  omega

end TokenStream

/-! ## Walks stay on the scan -/

namespace Scan

variable {S : Scan} {w : Window} {j : Nat} {d : Diagnostic}

/-- A window stands on a token of the scan. -/
theorem At.lt_length (h : S.At j w) : j < S.tokens.length := by
  have hne : S.tokens.drop j ≠ [] := by
    rw [h.drop_eq]
    exact List.cons_ne_nil _ _
  rw [Ne, List.drop_eq_nil_iff] at hne
  omega

/-- On a scan that ends in a fault, a window stands two tokens or more before the scan's end:
the fault is met as the token before it comes into view, before it could become current. -/
theorem At.add_two_le (h : S.At j w) (hd : S.last = some d) : j + 2 ≤ S.tokens.length := by
  have hs := h.1
  rw [hd] at hs
  unfold Window.Shows at hs
  split_ifs at hs
  · simp at hs
  · simp at hs
  · obtain ⟨rest, hts, -⟩ := hs
    have hlen := congrArg List.length hts
    simp only [List.length_drop, List.length_cons] at hlen
    omega

end Scan

namespace Window

variable {S : Scan} {w w' : Window} {ws : List Window} {j : Nat} {d : Diagnostic}

/-- A walk never moves past the end token of the scan it stands on. -/
theorem Walk.length_lt (h : w.Walk ws w') (hat : S.At j w) : j + ws.length < S.tokens.length :=
  (h.at_end hat).lt_length

/-- A walk on a scan that ends in a fault stops two tokens short of its end. -/
theorem Walk.length_add_two_le (h : w.Walk ws w') (hat : S.At j w) (hd : S.last = some d) :
    j + ws.length + 2 ≤ S.tokens.length :=
  (h.at_end hat).add_two_le hd

/-- A walk from the first window of a source stays on its scan, stopping short of a fault by a
token; with the two tokens the first window asks for, its moves ask the stream for at most
`source.length + 3` tokens, the request that meets a fault included. -/
theorem Walk.start_bounds {file source : String} {ts : List Token} {e : Option Diagnostic}
    (hscan : (TokenStream.start file source).tokens = (ts, e))
    (hstart : Window.start (TokenStream.start file source) = .ok w) (h : w.Walk ws w') :
    ws.length + 1 + e.isSome.toNat ≤ ts.length ∧
      ws.length + 2 + e.isSome.toNat ≤ source.length + 3 := by
  have hat : Scan.At ⟨file, ts, e⟩ 0 w := Scan.start_at hscan rfl hstart
  have hlen := TokenStream.start_tokens_length_le hscan
  have hon : ws.length + 1 + e.isSome.toNat ≤ ts.length := by
    cases e with
    | none =>
      have hlt : 0 + ws.length < ts.length := h.length_lt hat
      simp only [Option.isSome_none, Bool.toNat_false]
      omega
    | some d =>
      have hle : 0 + ws.length + 2 ≤ ts.length := h.length_add_two_le hat rfl
      simp only [Option.isSome_some, Bool.toNat_true]
      omega
  exact ⟨hon, by omega⟩

/-- A run from the first window of a source that fails at the end of a walk asked the stream for
at most `source.length + 3` tokens: two for the first window, one per move, and one more when
what fails is the stream, met as the last window moves on. -/
theorem Walk.fails_bound {file source : String} {v : Window} {n : Nat}
    (hstart : Window.start (TokenStream.start file source) = .ok w) (h : w.Walk ws v)
    (hf : v.Fails d n) : ws.length + 2 + n ≤ source.length + 3 := by
  rcases hscan : (TokenStream.start file source).tokens with ⟨ts, e⟩
  have hbound := (Walk.start_bounds hscan hstart h).2
  cases hf with
  | check => omega
  | fault hk ha =>
    -- the fault met is the one the scan ends in
    have hat : Scan.At ⟨file, ts, e⟩ (0 + ws.length) v :=
      h.at_end (Scan.start_at hscan rfl hstart)
    have he : e = some d := hat.1.advance_error hk ha
    rw [he, Option.isSome_some, Bool.toNat_true] at hbound
    omega

end Window

variable {sc : Scope} {w : Window}

/-! ## Readers move on -/

namespace Window

/-- The result `r` of a reader run from `w` is a failure, or its window is reached from `w` by a
walk of at least `n` moves. -/
def Moves {β γ : Type} [Windowed β γ] (n : Nat) (w : Window) : Except Diagnostic β → Prop
  | .error _ => True
  | .ok b => ∃ ws, n ≤ ws.length ∧ w.Walk ws (Windowed.window b)

variable {β γ β' γ' : Type} [Windowed β γ] [Windowed β' γ'] {m n : Nat}

theorem Moves.of_advances {r : Except Diagnostic β} (h : w.Advances r) : w.Moves 0 r := by
  cases r with
  | error => trivial
  | ok b =>
    obtain ⟨ws, hw⟩ := h
    exact ⟨ws, Nat.zero_le _, hw⟩

theorem Moves.mono {r : Except Diagnostic β} (h : w.Moves n r) (hmn : m ≤ n) : w.Moves m r := by
  cases r with
  | error => trivial
  | ok b =>
    obtain ⟨ws, hn, hw⟩ := h
    exact ⟨ws, Nat.le_trans hmn hn, hw⟩

theorem Moves.of_ok {r : Except Diagnostic β} {b : β} (h : w.Moves n r) (hr : r = .ok b) :
    ∃ ws, n ≤ ws.length ∧ w.Walk ws (Windowed.window b) := by
  subst hr
  exact h

/-- A reader that runs another and goes on from where it left the window moves as far as both
together. -/
theorem Moves.bind {x : Except Diagnostic β} {g : β → Except Diagnostic β'}
    (hx : w.Moves m x) (hg : ∀ b, x = .ok b → (Windowed.window b).Moves n (g b)) :
    w.Moves (m + n) (x >>= g) := by
  cases x with
  | error => trivial
  | ok b =>
    obtain ⟨ws, hm, hw⟩ := hx
    have hgb := hg b rfl
    show w.Moves (m + n) (g b)
    cases hr : g b with
    | error => trivial
    | ok c =>
      rw [hr] at hgb
      obtain ⟨vs, hn, hv⟩ := hgb
      exact ⟨ws ++ vs, by rw [List.length_append]; omega, hw.append hv⟩

theorem Moves.pure {b : β} : (Windowed.window b).Moves 0 (pure b : Except Diagnostic β) :=
  ⟨[], Nat.le_refl 0, .nil _⟩

theorem Moves.throw {d : Diagnostic} : w.Moves n (throw d : Except Diagnostic β) :=
  trivial

theorem step_moves (hk : w.current.kind ≠ .eof) : w.Moves 1 (w.step hk) := by
  unfold step
  split
  · rename_i v hv
    exact ⟨[v], Nat.le_refl 1, .cons hk hv (.nil v)⟩
  · trivial

theorem expect_moves {k : Kind} (hk : k.isEnd = false) (hint : Option String) :
    w.Moves 1 (w.expect k hk hint) := by
  rw [expect_eq_bind]
  split
  · exact Moves.mono (Moves.bind (step_moves _) fun _ _ => Moves.pure) (by omega)
  · exact Moves.throw

theorem lineBreak_moves : w.Moves 1 w.lineBreak := by
  rw [lineBreak_eq_bind]
  exact Moves.mono (Moves.bind (expect_moves rfl _) fun _ _ =>
    Moves.bind (Moves.of_advances skipNewlines_advances) fun _ _ => Moves.pure) (by omega)

end Window

open Window

theorem Factor.read_moves : w.Moves 1 (Factor.read sc w) := by
  unfold Factor.read
  refine Moves.bind (n := 1) (Moves.of_advances Sign.read?_advances) ?_
  rintro ⟨sg, v, hv⟩ -
  dsimp only
  split
  · exact Moves.mono (Moves.bind (step_moves _) fun _ _ => Moves.pure) (by omega)
  · split
    · exact Moves.mono (Moves.bind (step_moves _) fun _ _ => Moves.pure) (by omega)
    · exact Moves.throw
  · exact Moves.throw

theorem Term.read_moves : w.Moves 1 (Term.read sc w) :=
  Moves.mono (Moves.bind Factor.read_moves fun _ _ =>
    Moves.bind (Moves.of_advances Term.readRest_advances) fun _ _ => Moves.pure) (by omega)

theorem Expr.read_moves : w.Moves 1 (Expr.read sc w) :=
  Moves.mono (Moves.bind Term.read_moves fun _ _ =>
    Moves.bind (Moves.of_advances Expr.readRest_advances) fun _ _ => Moves.pure) (by omega)

/-- A comparison moves past its two operands and the operator between them. -/
theorem Comparison.read_moves : w.Moves 3 (Comparison.read sc w) := by
  unfold Comparison.read
  refine Moves.bind (n := 2) Expr.read_moves ?_
  rintro ⟨l, v, hv⟩ -
  dsimp only
  split
  · exact Moves.mono (Moves.bind (step_moves _) fun _ _ =>
      Moves.bind Expr.read_moves fun _ _ =>
        Moves.bind (Moves.of_advances Comparison.readRest_advances) fun _ _ => Moves.pure)
      (by omega)
  · exact Moves.throw

/-- An `IF` or a `WHILE` moves past its keyword, its comparison, its separator and line break,
and its closing keyword and line break: eight tokens, whatever its body. -/
theorem Stmt.readGuarded_moves (g : Guard) (hk : w.current.kind = g.keyword) :
    w.Moves 8 (Stmt.readGuarded (fun x => x) Stmt.readBlock g sc w hk) := by
  unfold Stmt.readGuarded
  exact Moves.mono (Moves.bind (step_moves _) fun _ _ =>
    Moves.bind Comparison.read_moves fun _ _ =>
      Moves.bind (expect_moves g.sep_isEnd _) fun _ _ =>
        Moves.bind lineBreak_moves fun _ _ =>
          Moves.bind (Moves.of_advances Stmt.readBlock_advances) fun _ _ =>
            Moves.bind (expect_moves g.stop_isEnd _) fun _ _ =>
              Moves.bind lineBreak_moves fun _ _ => Moves.pure) (by omega)

/-- A statement moves past its keyword, at least one token after it, and its line break. -/
theorem Stmt.read_moves : w.Moves 3 (Stmt.read sc w) := by
  rw [Stmt.read]
  split
  · -- PRINT, then a text or an expression
    refine Moves.bind (n := 2) (step_moves _) ?_
    rintro ⟨v₁, hv₁⟩ -
    dsimp only
    split
    · exact Moves.mono (Moves.bind (step_moves _) fun _ _ =>
        Moves.bind lineBreak_moves fun _ _ => Moves.pure) (by omega)
    · exact Moves.mono (Moves.bind Expr.read_moves fun _ _ =>
        Moves.bind lineBreak_moves fun _ _ => Moves.pure) (by omega)
  · -- IF and WHILE
    rename_i hk
    exact Moves.mono (Stmt.readGuarded_moves .ifThen hk) (by omega)
  · rename_i hk
    exact Moves.mono (Stmt.readGuarded_moves .whileRepeat hk) (by omega)
  · -- LABEL: a second declaration stops the run
    refine Moves.bind (n := 2) (step_moves _) ?_
    rintro ⟨v₁, hv₁⟩ -
    refine Moves.bind (n := 1) (expect_moves rfl _) ?_
    rintro ⟨t, v₂, hv₂⟩ -
    dsimp only
    split
    · exact Moves.throw
    · exact Moves.mono (Moves.bind lineBreak_moves fun _ _ => Moves.pure) (by omega)
  · -- GOTO
    exact Moves.mono (Moves.bind (step_moves _) fun _ _ =>
      Moves.bind (expect_moves rfl _) fun _ _ =>
        Moves.bind lineBreak_moves fun _ _ => Moves.pure) (by omega)
  · -- LET
    exact Moves.mono (Moves.bind (step_moves _) fun _ _ =>
      Moves.bind (expect_moves rfl _) fun _ _ =>
        Moves.bind (expect_moves rfl _) fun _ _ =>
          Moves.bind Expr.read_moves fun _ _ =>
            Moves.bind lineBreak_moves fun _ _ => Moves.pure) (by omega)
  · -- INPUT
    exact Moves.mono (Moves.bind (step_moves _) fun _ _ =>
      Moves.bind (expect_moves rfl _) fun _ _ =>
        Moves.bind lineBreak_moves fun _ _ => Moves.pure) (by omega)
  · exact Moves.throw

/-- A block that is read moves three tokens or more for each of its statements; an empty block
moves none. -/
theorem Stmt.readBlock_moves {stop : Kind} {hint : String} {sc sc' : Scope} {w : Window}
    {ss : List Stmt} {v : w.NotBefore} (h : Stmt.readBlock stop hint sc w = .ok (ss, sc', v)) :
    ∃ ws, 3 * ss.length ≤ ws.length ∧ w.Walk ws v.1 := by
  rw [Stmt.readBlock] at h
  split at h
  · have hv := pure_eq_ok.1 h
    simp only [Prod.mk.injEq] at hv
    obtain ⟨rfl, -, rfl⟩ := hv
    exact ⟨[], by simp, .nil _⟩
  · split at h
    · cases h
    · rcases bind_eq_ok.1 h with ⟨⟨s, sc₁, w₁, h₁⟩, hs, h⟩
      rcases bind_eq_ok.1 h with ⟨⟨ss₁, sc₂, w₂, h₂⟩, hss, h⟩
      have hv := pure_eq_ok.1 h
      simp only [Prod.mk.injEq] at hv
      obtain ⟨rfl, -, rfl⟩ := hv
      obtain ⟨ws₁, hl₁, hw₁⟩ := Stmt.read_moves.of_ok hs
      obtain ⟨ws₂, hl₂, hw₂⟩ := Stmt.readBlock_moves hss
      refine ⟨ws₁ ++ ws₂, ?_, hw₁.append hw₂⟩
      simp only [List.length_append, List.length_cons]
      omega
termination_by w.size
decreasing_by exact h₁

/-- A program that is read moves three tokens or more for each of its statements. -/
theorem Program.readFrom_moves {prog : Program} {sc' : Scope} {v : w.NotBefore}
    (h : Program.readFrom sc w = .ok (prog, sc', v)) :
    ∃ ws, 3 * prog.length ≤ ws.length ∧ w.Walk ws v.1 := by
  induction sc, w using Program.readFrom.induct generalizing prog sc' with
  | case1 sc w heof =>
    rw [Program.readFrom, if_pos heof] at h
    have hv := pure_eq_ok.1 h
    simp only [Prod.mk.injEq] at hv
    obtain ⟨rfl, -, rfl⟩ := hv
    exact ⟨[], by simp, .nil _⟩
  | case2 sc w hne ih =>
    rw [Program.readFrom, if_neg hne] at h
    rcases bind_eq_ok.1 h with ⟨⟨s, sc₁, w₁, h₁⟩, hs, h⟩
    rcases bind_eq_ok.1 h with ⟨⟨ss₁, sc₂, w₂, h₂⟩, hss, h⟩
    have hv := pure_eq_ok.1 h
    simp only [Prod.mk.injEq] at hv
    obtain ⟨rfl, -, rfl⟩ := hv
    obtain ⟨ws₁, hl₁, hw₁⟩ := Stmt.read_moves.of_ok hs
    obtain ⟨ws₂, hl₂, hw₂⟩ := ih sc₁ w₁ h₁ hss
    refine ⟨ws₁ ++ ws₂, ?_, hw₁.append hw₂⟩
    simp only [List.length_append, List.length_cons]
    omega

/-- A parsed program of `k` statements took at least `3 * k + 1` tokens: three or more for each
statement, and the end. -/
theorem Program.parse_tokenCount_ge {p : Precision} {file source : String} {r : Parsed}
    (h : Program.parse p file source = .ok r) : 3 * r.program.length + 1 ≤ r.tokenCount := by
  obtain ⟨w₀, -, w, hstart, -, ⟨w₁, sc, hw, hskip, hread⟩, -, hcount⟩ := Program.parse_walk h
  have hblank : w₀.Advances w₀.skipNewlines := skipNewlines_advances
  rw [hskip] at hblank
  obtain ⟨ws₁, hws₁⟩ := hblank
  obtain ⟨ws₂, hl₂, hws₂⟩ := Program.readFrom_moves hread
  -- the tokens taken before the statements, and those the statements took
  have htaken₁ := hws₁.taken
  have htaken₂ := hws₂.taken
  rw [Window.start_taken hstart] at htaken₁
  rw [hcount]
  simp only [Windowed.window_subtype] at htaken₁ htaken₂
  omega

end TinyBasic
