import TinyBasic.Proofs.Progress
/-!
# How deep statements nest

A statement is read inside another only in the body of an `IF` or a `WHILE`. Each level of
nesting below the first therefore starts after a block-opening keyword of its own, and statements
nest at most one level deeper than the scan has `IF` and `WHILE` tokens.

The nesting is made visible by a copy of the statement reader with a budget. `Stmt.readWithin d`
reads a statement with at most `d` statements nested one in another, itself included, and gives
`none` when the budget runs out. It reads the body of an `IF` or a `WHILE` with
`Stmt.readBlockBy`, a copy of `Stmt.readBlock` that takes its statement reader as an argument,
and passes the body's statements the budget less one. Statements other than `IF` and `WHILE` read
no statement inside them, so the copy runs `Stmt.read` itself on them.

* `Stmt.readWithin_eq_lift`: given more budget than there are `IF` and `WHILE` tokens from the
  window on, the copy with the budget gives what the reader gives.
* `Program.parse_resources`: what a parse costs, in tokens asked of the stream, in moves of the
  window, and in nesting.
-/

namespace TinyBasic

/-- An `IF` or a `WHILE` token, which opens a block. -/
def Token.opensBlock (t : Token) : Bool :=
  t.kind == .ifKw || t.kind == .whileKw

/-- The keyword of an `IF` or a `WHILE` opens a block. -/
theorem Guard.opensBlock {g : Guard} {t : Token} (hk : t.kind = g.keyword) :
    t.opensBlock = true := by
  cases g <;> simp [Token.opensBlock, Guard.keyword, hk]

/-! ## Runs with a budget -/

/-- A reader's result, in a run that may stop when its budget runs out. -/
def Budget.lift {α : Type} (x : Except Diagnostic α) : ExceptT Diagnostic Option α :=
  ExceptT.mk (some x)

theorem Budget.lift_bind {α β : Type} {x : Except Diagnostic α}
    {f : α → ExceptT Diagnostic Option β} {g : α → Except Diagnostic β}
    (h : ∀ a, x = .ok a → f a = Budget.lift (g a)) :
    Budget.lift x >>= f = Budget.lift (x >>= g) := by
  cases x with
  | error d => rfl
  | ok a => exact h a rfl

/-- The statements of a block up to its closing keyword `stop`, each read by `read`: a copy of
`Stmt.readBlock` for readers with a budget. -/
def Stmt.readBlockBy
    (read : Scope → (v : Window) → ExceptT Diagnostic Option (Stmt × Scope × v.After))
    (stop : Kind) (hint : String) (sc : Scope) (w : Window) :
    ExceptT Diagnostic Option (List Stmt × Scope × w.NotBefore) :=
  if w.current.kind = stop then pure ([], sc, ⟨w, Nat.le_refl _⟩)
  else if w.current.kind = .eof then
    throw (w.diagnose w.current (.missing stop.name w.current.mention (some hint)))
  else do
    let (s, sc, ⟨w1, h1⟩) ← read sc w
    let (ss, sc, ⟨w2, h2⟩) ← Stmt.readBlockBy read stop hint sc w1
    pure (s :: ss, sc, ⟨w2, Nat.le_of_lt (Nat.lt_of_le_of_lt h2 h1)⟩)
termination_by w.size

/-- One statement with at most `d` statements nested one in another, itself included; `none`
when the statements nest deeper. -/
def Stmt.readWithin : Nat → Scope → (w : Window) →
    ExceptT Diagnostic Option (Stmt × Scope × w.After)
  | 0, _, _ => ExceptT.mk none
  | d + 1, sc, w =>
    if hk : w.current.kind = .ifKw then
      Stmt.readGuarded Budget.lift (Stmt.readBlockBy (Stmt.readWithin d)) .ifThen sc w hk
    else if hk : w.current.kind = .whileKw then
      Stmt.readGuarded Budget.lift (Stmt.readBlockBy (Stmt.readWithin d)) .whileRepeat sc w hk
    else Budget.lift (Stmt.read sc w)

/-! ## Blocks opened from an index on -/

namespace Scan

variable {S : Scan} {w : Window} {i j : Nat}

/-- The tokens from index `j` on that open a block. -/
def opensFrom (S : Scan) (j : Nat) : Nat :=
  (S.tokens.drop j).countP Token.opensBlock

theorem opensFrom_le_of_le (hij : i ≤ j) : S.opensFrom j ≤ S.opensFrom i := by
  unfold opensFrom
  refine List.Sublist.countP_le ?_
  have hdrop : S.tokens.drop j = (S.tokens.drop i).drop (j - i) := by
    rw [List.drop_drop]
    congr 1
    omega
  rw [hdrop]
  exact List.drop_sublist _ _

/-- A window on a block-opening keyword leaves one block fewer to open after it. -/
theorem At.opensFrom_succ (h : S.At j w) (ho : w.current.opensBlock = true) :
    S.opensFrom (j + 1) + 1 = S.opensFrom j := by
  unfold opensFrom
  rw [h.drop_eq, List.countP_cons_of_pos ho]

theorem Reach.of_ok {β γ : Type} [Windowed β γ] {x : Except Diagnostic β} {b : β}
    (h : S.Reach j x) (hx : x = .ok b) : ∃ i, j ≤ i ∧ S.At i (Windowed.window b) := by
  subst hx
  exact h

end Scan

/-! ## Enough budget -/

variable {S : Scan} {j : Nat}

/-- A block read with a statement reader that agrees with `Stmt.read` from index `j` on is the
block `Stmt.readBlock` reads. -/
theorem Stmt.readBlockBy_eq_lift
    {read : Scope → (v : Window) → ExceptT Diagnostic Option (Stmt × Scope × v.After)}
    {stop : Kind} {hint : String}
    (hread : ∀ sc v i, j ≤ i → S.At i v → read sc v = Budget.lift (Stmt.read sc v))
    {sc : Scope} {w : Window} {i : Nat} (hji : j ≤ i) (hat : S.At i w) :
    Stmt.readBlockBy read stop hint sc w = Budget.lift (Stmt.readBlock stop hint sc w) := by
  induction sc, w using Stmt.readBlockBy.induct stop generalizing i with
  | case1 sc w hstop =>
    rw [Stmt.readBlockBy, if_pos hstop, Stmt.readBlock, if_pos hstop]
    rfl
  | case2 sc w hstop heof =>
    rw [Stmt.readBlockBy, if_neg hstop, if_pos heof, Stmt.readBlock, if_neg hstop, if_pos heof]
    rfl
  | case3 sc w hstop heof ih =>
    rw [Stmt.readBlockBy, if_neg hstop, if_neg heof, Stmt.readBlock, if_neg hstop, if_neg heof,
      hread sc w i hji hat]
    refine Budget.lift_bind ?_
    rintro ⟨s, sc₁, w₁, h₁⟩ hs
    -- the next statement starts where this one left the window, further on
    obtain ⟨i₁, hi₁, hat₁⟩ := (Scan.Stmt.read_reach hat).of_ok hs
    dsimp only
    rw [ih sc₁ w₁ h₁ (Nat.le_trans hji hi₁) hat₁]
    refine Budget.lift_bind ?_
    rintro ⟨ss, sc₂, w₂, h₂⟩ -
    rfl

/-- An `IF` or a `WHILE` read with a block reader that agrees with another after its keyword is
the statement read with that other block reader. -/
theorem Stmt.readGuarded_eq_lift {g : Guard}
    {block : Kind → String → Scope → (v : Window) →
      ExceptT Diagnostic Option (List Stmt × Scope × v.NotBefore)}
    {block' : Kind → String → Scope → (v : Window) →
      Except Diagnostic (List Stmt × Scope × v.NotBefore)}
    (hblock : ∀ sc v i, j < i → S.At i v →
      block g.stop g.stopHint sc v = Budget.lift (block' g.stop g.stopHint sc v))
    {sc : Scope} {w : Window} {hk : w.current.kind = g.keyword} (hat : S.At j w) :
    Stmt.readGuarded Budget.lift block g sc w hk =
      Budget.lift (Stmt.readGuarded (fun x => x) block' g sc w hk) := by
  unfold Stmt.readGuarded
  refine Budget.lift_bind ?_
  rintro ⟨w₁, h₁⟩ hs
  have hat₁ : S.At (j + 1) w₁ := hat.advance (Guard.ne_eof hk) (Window.step_eq_ok hs)
  refine Budget.lift_bind ?_
  rintro ⟨c, w₂, h₂⟩ hc
  obtain ⟨i₂, hi₂, hat₂⟩ := (Scan.Comparison.read_reach hat₁).of_ok hc
  refine Budget.lift_bind ?_
  rintro ⟨t, w₃, h₃⟩ he
  obtain ⟨i₃, hi₃, hat₃⟩ := (hat₂.expect g.sep_isEnd _).of_ok he
  refine Budget.lift_bind ?_
  rintro ⟨w₄, h₄⟩ hl
  obtain ⟨i₄, hi₄, hat₄⟩ := hat₃.lineBreak.of_ok hl
  -- the body starts after the keyword
  dsimp only
  rw [hblock _ w₄ i₄ (by omega) hat₄]
  refine Budget.lift_bind ?_
  rintro ⟨body, sc₅, w₅, h₅⟩ -
  refine Budget.lift_bind ?_
  rintro ⟨t₆, w₆, h₆⟩ -
  refine Budget.lift_bind ?_
  rintro ⟨w₇, h₇⟩ -
  rfl

/-- A budget larger than the number of `IF` and `WHILE` tokens from the window on is enough: the
reader with that budget gives what `Stmt.read` gives. The budget is spent on block-opening
keywords only, and each nested statement stands after the keyword that paid for it. -/
theorem Stmt.readWithin_eq_lift :
    ∀ (d : Nat) {sc : Scope} {w : Window} {j : Nat}, S.At j w → S.opensFrom j < d →
      Stmt.readWithin d sc w = Budget.lift (Stmt.read sc w)
  | 0, _, _, _, _, hd => absurd hd (Nat.not_lt_zero _)
  | d + 1, sc, w, j, hat, hd => by
    -- an `IF` or a `WHILE` pays for its body with its keyword: every statement of the body
    -- stands after it, where `d` is enough
    have hguard : ∀ (g : Guard) (hk : w.current.kind = g.keyword),
        Stmt.readGuarded Budget.lift (Stmt.readBlockBy (Stmt.readWithin d)) g sc w hk =
          Budget.lift (Stmt.read sc w) := by
      intro g hk
      have hopen := hat.opensFrom_succ (Guard.opensBlock hk)
      have hinner : ∀ sc v i, j < i → S.At i v →
          Stmt.readWithin d sc v = Budget.lift (Stmt.read sc v) := by
        intro sc v i hi hatv
        have hle := Scan.opensFrom_le_of_le (S := S) (show j + 1 ≤ i by omega)
        exact Stmt.readWithin_eq_lift d hatv (by omega)
      rw [Stmt.read_of_guard g hk]
      exact Stmt.readGuarded_eq_lift (fun sc v i hi hatv => Stmt.readBlockBy_eq_lift
        (fun sc u i' hi' hatu => hinner sc u i' (by omega) hatu) (Nat.le_refl i) hatv) hat
    rw [Stmt.readWithin]
    split_ifs with hif hwhile
    · exact hguard .ifThen hif
    · exact hguard .whileRepeat hwhile
    · rfl

/-! ## The resources of a parse -/

/-- What a parse costs. Each token other than the end costs the stream a character, so the scan
of a source holds at most `source.length + 2` tokens. The window asks the stream for a token
twice when it opens and once per move. Every walk of the window from its first position stays on
the scan, up to the end token and no further, and stops a token short of a fault; so a parse asks
for at most `source.length + 3` tokens, counting the request that meets a fault. A successful
parse counts one token fewer than it asks for. A failing parse fails at the end of such a walk,
by a check made there or by the stream's fault as the window moves on, within the same bound.
Each reader that does not fail moves the window:

* a factor, a term, an expression and a line break by a token or more;
* a comparison and a statement by three or more;
* a block by three or more per statement, and by none when it is empty.

Statements nest at most one level deeper than the scan has `IF` and `WHILE` tokens: reading a
statement anywhere on the scan with that budget of nested statements is reading it. -/
theorem Program.parse_resources (file source : String) {ts : List Token} {e : Option Diagnostic}
    (hscan : (TokenStream.start file source).tokens = (ts, e)) :
    (∀ (s s' : TokenStream) (t : Token), s.next = (.ok t, s') → t.kind ≠ .eof →
        s'.cursor.rest.length < s.cursor.rest.length) ∧
    ts.length ≤ source.length + 2 ∧
    (∀ w₀ ws w, Window.start (TokenStream.start file source) = .ok w₀ → w₀.Walk ws w →
        ws.length + 1 + e.isSome.toNat ≤ ts.length ∧
          ws.length + 2 + e.isSome.toNat ≤ source.length + 3) ∧
    (∀ p r, Program.parse p file source = .ok r → r.tokenCount + 1 ≤ source.length + 3) ∧
    (∀ p d w₀, Program.parse p file source = .error d →
        Window.start (TokenStream.start file source) = .ok w₀ →
        ∃ ws v n, w₀.Walk ws v ∧ v.Fails d n ∧ ws.length + 2 + n ≤ source.length + 3) ∧
    (∀ sc (w : Window), w.Moves 1 (Factor.read sc w) ∧ w.Moves 1 (Term.read sc w) ∧
        w.Moves 1 (Expr.read sc w) ∧ w.Moves 1 w.lineBreak ∧
        w.Moves 3 (Comparison.read sc w) ∧ w.Moves 3 (Stmt.read sc w)) ∧
    (∀ stop hint sc sc' (w : Window) ss (v : w.NotBefore),
        Stmt.readBlock stop hint sc w = .ok (ss, sc', v) →
        ∃ ws, 3 * ss.length ≤ ws.length ∧ w.Walk ws v.1) ∧
    (∀ j sc w, Scan.At ⟨file, ts, e⟩ j w →
        Stmt.readWithin (ts.countP Token.opensBlock + 1) sc w = Budget.lift (Stmt.read sc w)) := by
  have hlen := TokenStream.start_tokens_length_le hscan
  refine ⟨fun _ _ _ => TokenStream.next_rest_lt, by omega,
    fun _ _ _ hstart hwalk => Window.Walk.start_bounds hscan hstart hwalk, ?_, ?_,
    fun _ _ => ⟨Factor.read_moves, Term.read_moves, Expr.read_moves, Window.lineBreak_moves,
      Comparison.read_moves, Stmt.read_moves⟩,
    fun _ _ _ _ _ _ _ => Stmt.readBlock_moves, ?_⟩
  · -- the parse took the first window's token and one per move of its walk
    intro p r hparse
    obtain ⟨w₀, ws, w, hstart, hwalk, -, -, hcount⟩ := Program.parse_walk hparse
    have hbound := (Window.Walk.start_bounds hscan hstart hwalk).2
    rw [hcount, hwalk.taken, Window.start_taken hstart]
    omega
  · -- a failing parse fails at the end of a walk from its first window
    intro p d w₀ hparse hstart
    obtain ⟨ws, v, n, hwalk, hfails⟩ := Program.parse_fails_on_walk hparse hstart
    exact ⟨ws, v, n, hwalk, hfails, hwalk.fails_bound hstart hfails⟩
  · -- no index has more blocks to open after it than the whole scan
    intro j sc w hat
    have hle := Scan.opensFrom_le_of_le (S := ⟨file, ts, e⟩) (Nat.zero_le j)
    refine Stmt.readWithin_eq_lift _ hat ?_
    simp only [Scan.opensFrom, List.drop_zero] at hle ⊢
    omega

/-- A block need not move the window: at its closing keyword the block reader returns the empty
block with the window where it was, and a source whose `IF` has no statement in its body
compiles. -/
theorem compile_accepts_empty_block :
    (∀ stop hint sc (w : Window), w.current.kind = stop →
        Stmt.readBlock stop hint sc w = .ok ([], sc, ⟨w, Nat.le_refl _⟩)) ∧
    ∃ c, compile default "<input>" "IF 1 < 2 THEN\nENDIF" = .ok c ∧
      c.parsed.program =
        [.ifThen ⟨⟨⟨⟨none, .number "1"⟩, []⟩, []⟩, .lt, ⟨⟨⟨none, .number "2"⟩, []⟩, []⟩, []⟩
          []] := by
  refine ⟨fun stop hint sc w hstop => ?_, ?_⟩
  · rw [Stmt.readBlock, if_pos hstop]
    rfl
  let ts : List Token :=
    [⟨.ifKw, "IF", 1, 1⟩, ⟨.number, "1", 1, 4⟩, ⟨.lt, "<", 1, 6⟩, ⟨.number, "2", 1, 8⟩,
      ⟨.thenKw, "THEN", 1, 10⟩, ⟨.newline, "\n", 1, 14⟩, ⟨.endifKw, "ENDIF", 2, 1⟩,
      ⟨.newline, "\n", 2, 6⟩, ⟨.eof, "", 3, 1⟩]
  -- the scanner's tokens, computed
  have htok : (TokenStream.start "<input>" "IF 1 < 2 THEN\nENDIF").tokens = (ts, none) := by
    have h : (TokenStream.start "<input>" "IF 1 < 2 THEN\nENDIF").tokens.1 = ts ∧
        (TokenStream.start "<input>" "IF 1 < 2 THEN\nENDIF").tokens.2.isNone = true := by
      decide +kernel
    exact Prod.ext h.1 (Option.isNone_iff_eq_none.1 h.2)
  -- the body between the line break after THEN and ENDIF holds no statement
  have hc : ComparisonOf (ts.drop 1) ⟨⟨⟨⟨none, .number "1"⟩, []⟩, []⟩, .lt,
      ⟨⟨⟨none, .number "2"⟩, []⟩, []⟩, []⟩ (ts.drop 4) :=
    .mk (.mk (.mk (.bare rfl) .nil) .nil) rfl (.mk (.mk (.bare rfl) .nil) .nil) .nil
  have hs : SentenceOf ts
      [.ifThen ⟨⟨⟨⟨none, .number "1"⟩, []⟩, []⟩, .lt, ⟨⟨⟨none, .number "2"⟩, []⟩, []⟩, []⟩ []] :=
    .mk .nil (.cons (.ifThen rfl hc rfl (.mk rfl .nil) .nil rfl (.mk rfl .nil)) .nil) rfl
  obtain ⟨c, hcomp, hprog, -⟩ :=
    @compile_complete default _ _ _ _ htok hs (WellScoped.of_marks_nil rfl)
  exact ⟨c, hcomp, hprog⟩

/-- The parse of the source with one text that holds a null character asks the stream for its
four tokens and the end token again, within the bound. -/
theorem Program.parse_resources_of_text :
    ∃ r, Program.parse default "<input>" "PRINT \"a\x00b\"" = .ok r ∧
      r.tokenCount + 1 ≤ "PRINT \"a\x00b\"".length + 3 := by
  obtain ⟨c, hc, -, -⟩ := compile_text_with_null
  have hparse := (compile_eq_ok hc).1
  exact ⟨c.parsed, hparse,
    (Program.parse_resources "<input>" "PRINT \"a\x00b\"" (Prod.eta _).symm).2.2.2.1 _ _ hparse⟩

end TinyBasic
