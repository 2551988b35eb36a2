import TinyBasic.Proofs.Reach
import TinyBasic.Proofs.Lexemes
import TinyBasic.Proofs.Parse.Complete
import TinyBasic.Proofs.Suggestions
/-!
# The first error met is the one reported

The parser asks the scanner for a token only when its window moves, so an error is reported
when it is met: a check on the current token is made once the token after it is in view, and
a second declaration of a label once the token after its name is current. Of two errors, the
one met first, in the order the tokens are asked for, is reported.

The statement compares two sources whose scans agree on a first run of tokens `ts`: the
first scan meets a fault right after `ts`, the second goes on past it (a `Fork`). The two
parses run in step (`Fork.Twin`) until the first asks for the token after `ts`. Then

* either the first reports its fault, and every error the second reports needs a token after
  `ts` (`Fork.Late`),
* or both report the same problem at the same token of `ts`, whose check needs no token
  after `ts` (`Fork.Early`).

`Fork.Outcome` says this of one reader, and each reader has its `_outcome` lemma; the second
run, once it goes on alone, is covered by the `_reach` lemmas of `Scan.Reach`.
`Program.parse_reports_first_error` puts the readers together, with the rule for jumps: a jump
to a missing label is reported only when everything else passes, and it names the first jump,
in source order, whose label no statement declares; and with what a second declaration of a
label inspects: the name after its `LABEL` keyword, where it is reported, and the place of the
first declaration's name, which its hint gives (`Program.parse_label_redeclared`).
-/

namespace TinyBasic

/-- How many tokens past the one a check inspects must have been given when the check is
made: the token after it is in view, and a label's name is checked once the token after the
name is current. -/
def Problem.lag : Problem → Nat
  | .labelRedeclared .. => 2
  | _ => 1

theorem Problem.one_le_lag (p : Problem) : 1 ≤ p.lag := by
  cases p <;> simp [Problem.lag]

/-- A list whose elements from index `m` on are `a :: b :: rest` has `m + 2 + rest.length` of
them. -/
theorem length_of_drop_eq_cons_cons {α : Type} {l rest : List α} {a b : α} {m : Nat}
    (h : l.drop m = a :: b :: rest) : l.length = m + 2 + rest.length := by
  have := congrArg List.length h
  simp only [List.length_drop, List.length_cons] at this
  omega

namespace Window

variable {w : Window} {l : List Token} {d : Diagnostic}

/-- A window whose list ends in a fault has two tokens in view, neither of them the end. -/
theorem Shows.of_fault (h : w.Shows l (some d)) :
    ∃ r, l = w.current :: w.peek :: r ∧ w.stream.tokens = (r, some d) ∧
      w.current.kind ≠ .eof ∧ w.peek.kind ≠ .eof := by
  unfold Shows at h
  have hc : w.current.kind ≠ .eof := by
    intro hc
    rw [if_pos hc] at h
    simp at h
  rw [if_neg hc] at h
  have hp : w.peek.kind ≠ .eof := by
    intro hp
    rw [if_pos hp] at h
    simp at h
  rw [if_neg hp] at h
  obtain ⟨r, hl, ht⟩ := h
  exact ⟨r, hl, ht, hc, hp⟩

/-- A window whose list starts with two tokens, the second not the end, has them in view. -/
theorem Shows.of_cons_cons {a b : Token} {r : List Token} {e : Option Diagnostic}
    (h : w.Shows (a :: b :: r) e) (hb : b.kind ≠ .eof) :
    w.current = a ∧ w.peek = b ∧ w.stream.tokens = (r, e) := by
  unfold Shows at h
  by_cases hc : w.current.kind = .eof
  · rw [if_pos hc] at h
    simp at h
  rw [if_neg hc] at h
  by_cases hp : w.peek.kind = .eof
  · rw [if_pos hp] at h
    simp only [List.cons.injEq] at h
    obtain ⟨⟨-, rfl, -⟩, -⟩ := h
    exact absurd hp hb
  rw [if_neg hp] at h
  obtain ⟨r', hl, ht⟩ := h
  simp only [List.cons.injEq] at hl
  obtain ⟨rfl, rfl, rfl⟩ := hl
  exact ⟨rfl, rfl, ht⟩

/-- The window opens on the first two tokens the stream gives. -/
theorem start_of_next_ok {s s₁ s₂ : TokenStream} {t u : Token} (hn : s.next = (.ok t, s₁))
    (hn₁ : s₁.next = (.ok u, s₂)) : Window.start s = .ok ⟨t, u, s₂, 1⟩ := by
  unfold Window.start
  rw [hn]
  dsimp only
  rw [hn₁]

/-- A stream that fails on its second token opens no window. -/
theorem start_of_next_error {s s₁ s₂ : TokenStream} {t : Token} (hn : s.next = (.ok t, s₁))
    (hn₁ : s₁.next = (.error d, s₂)) : Window.start s = .error d := by
  unfold Window.start
  rw [hn]
  dsimp only
  rw [hn₁]

end Window

/-- Two scans of sources in one file that agree on their first tokens `ts`: the first meets
the fault `fault` right after them, the second goes on with `more` and then ends as `last`
says. -/
structure Fork where
  file : String
  ts : List Token
  more : List Token
  fault : Diagnostic
  last : Option Diagnostic

namespace Fork

variable (F : Fork)

/-- The scan that meets the fault after `ts`. -/
def first : Scan := ⟨F.file, F.ts, some F.fault⟩

/-- The scan that goes on past `ts`. -/
def second : Scan := ⟨F.file, F.ts ++ F.more, F.last⟩

@[simp] theorem first_file : F.first.file = F.file := rfl
@[simp] theorem first_tokens : F.first.tokens = F.ts := rfl
@[simp] theorem first_last : F.first.last = some F.fault := rfl
@[simp] theorem second_file : F.second.file = F.file := rfl
@[simp] theorem second_tokens : F.second.tokens = F.ts ++ F.more := rfl
@[simp] theorem second_last : F.second.last = F.last := rfl

/-- Two windows at the token at index `m` of their scans. -/
def Twin (m : Nat) (w w' : Window) : Prop :=
  F.first.At m w ∧ F.second.At m w'

/-- A window of the second scan that the first could not have reached: its current token is
the last of `ts` or after it. -/
def Past (w' : Window) : Prop :=
  ∃ j, F.ts.length ≤ j + 1 ∧ F.second.At j w'

/-- A problem found while reading a token of `ts`, by a check that needs no token after
`ts`. -/
def Early (d : Diagnostic) : Prop :=
  d.problem.foundReading = true ∧ ∃ i t, F.ts[i]? = some t ∧
    i + d.problem.lag < F.ts.length ∧ d.location = some ⟨F.file, t.line, t.column⟩

/-- An error of the second scan that needs a token after `ts`: its own fault, or a problem
found by a check made only once the token after `ts` was given. -/
def Late (d : Diagnostic) : Prop :=
  F.last = some d ∨ d.problem.foundReading = true ∧ ∃ j t, (F.ts ++ F.more)[j]? = some t ∧
    F.ts.length ≤ j + d.problem.lag ∧ d.location = some ⟨F.file, t.line, t.column⟩

/-- How a run of the second scan that has gone past `ts` ends. -/
def Ahead {β γ : Type} [Windowed β γ] : Except Diagnostic β → Prop
  | .error d => F.Late d
  | .ok b => F.Past (Windowed.window b)

/-- How the runs of one reader on two twin windows end: both read the same and stay twins;
or both stop at the same problem, found early; or the first asks for the token after `ts`
and meets its fault, and the second goes on past `ts`. -/
inductive Outcome {β β' γ : Type} [Windowed β γ] [Windowed β' γ] :
    Except Diagnostic β → Except Diagnostic β' → Prop
  | both (b : β) (b' : β') (m : Nat) : Windowed.value b = Windowed.value b' →
      F.Twin m (Windowed.window b) (Windowed.window b') → Outcome (.ok b) (.ok b')
  | check (d d' : Diagnostic) : d.problem = d'.problem → d.location = d'.location →
      F.Early d → Outcome (.error d) (.error d')
  | starve (r' : Except Diagnostic β') : F.Ahead r' → Outcome (.error F.fault) r'

/-- What the second parse may report once the first has met its fault: an error that needs a
token after `ts`, or a jump to a missing label, which is checked after the last token. -/
def LateOrJump {α : Type} (r' : Except Diagnostic α) : Prop :=
  ∀ d', r' = .error d' → F.Late d' ∨ ∃ n, d'.problem = .missingLabel n

/-- How the two parses end: the first reports its fault and the second nothing the first could
have met; or both report the same problem at the same token of `ts`, found early. -/
def Ends {α α' : Type} (r : Except Diagnostic α) (r' : Except Diagnostic α') : Prop :=
  r = .error F.fault ∧ F.LateOrJump r' ∨
    ∃ d d', r = .error d ∧ r' = .error d' ∧ d.problem = d'.problem ∧
      d.location = d'.location ∧ F.Early d

variable {F} {β β' β₂ β₂' γ γ₂ : Type} [Windowed β γ] [Windowed β' γ] [Windowed β₂ γ₂]
  [Windowed β₂' γ₂] {w w' v' : Window} {m : Nat}

/-! ## Twin windows -/

/-- What twin windows have in common: the two tokens in view, and behind them the same tokens
up to the fault of the first scan. -/
theorem Twin.streams (h : F.Twin m w w') :
    ∃ rest, F.ts.drop m = w.current :: w.peek :: rest ∧ w.stream.tokens = (rest, some F.fault) ∧
      w'.stream.tokens = (rest ++ F.more, F.last) ∧ w'.current = w.current ∧
      w'.peek = w.peek ∧ w.current.kind ≠ .eof ∧ w.peek.kind ≠ .eof := by
  obtain ⟨⟨hw, -⟩, hw', -⟩ := h
  change w.Shows (F.ts.drop m) (some F.fault) at hw
  change w'.Shows ((F.ts ++ F.more).drop m) F.last at hw'
  obtain ⟨rest, hdrop, htok, hc, hp⟩ := hw.of_fault
  have hm : m ≤ F.ts.length := by
    have := length_of_drop_eq_cons_cons hdrop
    omega
  have hdrop' : (F.ts ++ F.more).drop m = w.current :: w.peek :: (rest ++ F.more) := by
    rw [List.drop_append_of_le_length hm, hdrop]
    rfl
  have hw'' : w'.Shows (w.current :: w.peek :: (rest ++ F.more)) F.last := hdrop' ▸ hw'
  obtain ⟨hc', hp', htok'⟩ := hw''.of_cons_cons hp
  exact ⟨rest, hdrop, htok, htok', hc', hp', hc, hp⟩

theorem Twin.exists_eq (h : F.Twin m w w') : ∃ s n, w' = ⟨w.current, w.peek, s, n⟩ := by
  obtain ⟨-, -, -, -, hc, hp, -, -⟩ := h.streams
  obtain ⟨c, p, s, n⟩ := w'
  simp only at hc hp
  subst hc hp
  exact ⟨s, n, rfl⟩

/-- Twin windows stand two tokens or more before the fault of the first scan. -/
theorem Twin.add_two_le (h : F.Twin m w w') : m + 2 ≤ F.ts.length := by
  obtain ⟨rest, hdrop, -⟩ := h.streams
  have := length_of_drop_eq_cons_cons hdrop
  omega

/-- One move from twin windows: both go on to the next index, or the first meets its fault
while the second goes past `ts`. -/
theorem Twin.step (h : F.Twin m w w') (hk : w.current.kind ≠ .eof)
    (hk' : w'.current.kind ≠ .eof) : F.Outcome (w.step hk) (w'.step hk') := by
  obtain ⟨rest, hdrop, htok, htok', -, -, -, -⟩ := h.streams
  cases rest with
  | cons t rest =>
    -- Both streams give `t`.
    obtain ⟨s₁, hn, -⟩ := TokenStream.next_of_tokens_cons htok
    obtain ⟨s₁', hn', -⟩ := TokenStream.next_of_tokens_cons htok'
    have ha := Window.advance_of_next_ok hn
    have ha' := Window.advance_of_next_ok hn'
    rw [Window.step_of_advance_ok hk ha, Window.step_of_advance_ok hk' ha']
    exact .both _ _ (m + 1) rfl ⟨h.1.advance hk ha, h.2.advance hk' ha'⟩
  | nil =>
    -- The first stream meets its fault; the second goes on past `ts`.
    obtain ⟨d, s₁, hd, hn⟩ := TokenStream.next_of_tokens_nil htok
    cases hd
    rw [Window.step_of_advance_error hk (Window.advance_of_next_error hn)]
    have hlen : F.ts.length = m + 2 := by
      simpa using length_of_drop_eq_cons_cons hdrop
    refine .starve _ ?_
    rcases hs' : w'.step hk' with d' | v'
    · exact .inl (h.2.1.advance_error hk' (Window.step_eq_error hs'))
    · exact ⟨m + 1, by omega, h.2.advance hk' (Window.step_eq_ok hs')⟩

/-- A problem found at a token of `ts` by twin runs, when its check needs no token after
`ts`. -/
theorem Twin.throw_at {t : Token} {p : Problem} {i : Nat} (h : F.Twin m w w')
    (ht : F.ts[i]? = some t) (hi : i + p.lag < F.ts.length) (hp : p.foundReading = true) :
    F.Outcome (throw (w.diagnose t p) : Except Diagnostic β)
      (throw (w'.diagnose t p) : Except Diagnostic β') := by
  have hf : w.stream.file = F.file := h.1.2
  have hf' : w'.stream.file = F.file := h.2.2
  refine .check _ _ rfl ?_ ⟨hp, i, t, ht, hi, ?_⟩
  · simp [Window.diagnose, Window.locate, hf, hf']
  · simp [Window.diagnose, Window.locate, hf]

/-- A problem found at the current token of twin windows. -/
theorem Twin.throw_current {p : Problem} (h : F.Twin m w w') (hp : p.foundReading = true)
    (hl : p.lag = 1) :
    F.Outcome (throw (w.diagnose w.current p) : Except Diagnostic β)
      (throw (w'.diagnose w.current p) : Except Diagnostic β') :=
  h.throw_at h.1.getElem? (by have := h.add_two_le; omega) hp

/-! ## Composing readers -/

/-- The runs of two readers in sequence: the first's outcome decides, unless both read and
stay twins; a second run that has gone past `ts` goes on alone. -/
theorem Outcome.bind {x : Except Diagnostic β} {x' : Except Diagnostic β'}
    {g : β → Except Diagnostic β₂} {g' : β' → Except Diagnostic β₂'} (hx : F.Outcome x x')
    (hg : ∀ b b' m, x = .ok b → x' = .ok b' → Windowed.value b = Windowed.value b' →
      F.Twin m (Windowed.window b) (Windowed.window b') → F.Outcome (g b) (g' b'))
    (hlate : ∀ b', x' = .ok b' → F.Past (Windowed.window b') → F.Ahead (g' b')) :
    F.Outcome (x >>= g) (x' >>= g') := by
  cases hx with
  | both b b' m hv ht => exact hg b b' m rfl rfl hv ht
  | check d d' hp hl he => exact .check d d' hp hl he
  | starve x' ha =>
    cases x' with
    | error d' => exact .starve _ ha
    | ok b' => exact .starve _ (hlate b' rfl ha)

theorem Outcome.pure {b : β} {b' : β'} (hv : Windowed.value b = Windowed.value b')
    (h : F.Twin m (Windowed.window b) (Windowed.window b')) :
    F.Outcome (Pure.pure b : Except Diagnostic β) (Pure.pure b') :=
  .both b b' m hv h

/-- A run of the second scan from the last token of `ts` or later ends as `Ahead` says. -/
theorem ahead_of_reach {r : Except Diagnostic β'} {j : Nat} (hj : F.ts.length ≤ j + 1)
    (hr : F.second.Reach j r) : F.Ahead r := by
  cases r with
  | error d =>
    rcases hr with hl | ⟨hf, i, t, hi, ht, hloc⟩
    · exact .inl hl
    · have := d.problem.one_le_lag
      exact .inr ⟨hf, i, t, ht, by omega, hloc⟩
  | ok b =>
    obtain ⟨i, hi, hat⟩ := hr
    exact ⟨i, by omega, hat⟩

/-- A run of the second scan from a window past `ts` ends as `Ahead` says. -/
theorem Past.ahead {r : Except Diagnostic β'} (hp : F.Past v')
    (hr : ∀ j, F.second.At j v' → F.second.Reach j r) : F.Ahead r := by
  obtain ⟨j, hj, hat⟩ := hp
  exact ahead_of_reach hj (hr j hat)

/-! ## The window's moves -/

theorem Twin.expect {k : Kind} (hk : k.isEnd = false) (hint : Option String)
    (h : F.Twin m w w') : F.Outcome (w.expect k hk hint) (w'.expect k hk hint) := by
  obtain ⟨s', n', rfl⟩ := h.exists_eq
  rw [Window.expect_eq_bind, Window.expect_eq_bind]
  dsimp only
  split
  · exact Outcome.bind (h.step _ _) (fun _ _ _ _ _ _ ht => Outcome.pure rfl ht) fun _ _ hp => hp
  · exact h.throw_current rfl rfl

/-- `skipNewlines` from twin windows smaller than `n`; the induction is on `n`, as the loop's
own recursion is on the window's size. -/
theorem Twin.skipNewlines_lt (n : Nat) :
    ∀ {w w' : Window} {m : Nat}, w.size < n → F.Twin m w w' →
      F.Outcome w.skipNewlines w'.skipNewlines := by
  induction n with
  | zero => exact fun hn => absurd hn (Nat.not_lt_zero _)
  | succ n ih =>
    intro w w' m hsize h
    obtain ⟨s', n', rfl⟩ := h.exists_eq
    rw [Window.skipNewlines_eq_bind, Window.skipNewlines_eq_bind]
    dsimp only
    split
    · refine Outcome.bind (h.step _ _) ?_ ?_
      · rintro ⟨v, hv⟩ ⟨v', hv'⟩ m₁ - - - ht
        change F.Twin m₁ v v' at ht
        have hlt : v.size < n := by omega
        exact Outcome.bind (ih hlt ht) (fun _ _ _ _ _ _ ht => Outcome.pure rfl ht)
          fun _ _ hp => hp
      · rintro ⟨v', hv'⟩ - hp
        exact hp.ahead fun _ hat =>
          Scan.Reach.bind hat.skipNewlines fun _ _ _ _ hat => Scan.Reach.pure hat (Nat.le_refl _)
    · exact Outcome.pure rfl h

theorem Twin.skipNewlines (h : F.Twin m w w') : F.Outcome w.skipNewlines w'.skipNewlines :=
  Twin.skipNewlines_lt (w.size + 1) (Nat.lt_succ_self _) h

theorem Twin.lineBreak (h : F.Twin m w w') : F.Outcome w.lineBreak w'.lineBreak := by
  rw [Window.lineBreak_eq_bind, Window.lineBreak_eq_bind]
  refine Outcome.bind (h.expect rfl _) ?_ ?_
  · rintro ⟨t, v, hv⟩ ⟨t', v', hv'⟩ m₁ - - - ht
    exact Outcome.bind (Twin.skipNewlines ht) (fun _ _ _ _ _ _ ht => Outcome.pure rfl ht)
      fun _ _ hp => hp
  · rintro ⟨t', v', hv'⟩ - hp
    exact hp.ahead fun _ hat =>
      Scan.Reach.bind hat.skipNewlines fun _ _ _ _ hat => Scan.Reach.pure hat (Nat.le_refl _)

/-! ## The readers -/

variable {sc : Scope}

theorem Sign.read?_outcome (h : F.Twin m w w') : F.Outcome (Sign.read? w) (Sign.read? w') := by
  obtain ⟨s', n', rfl⟩ := h.exists_eq
  unfold Sign.read?
  dsimp only
  split
  · exact Outcome.bind (h.step _ _) (fun _ _ _ _ _ _ ht => Outcome.pure rfl ht) fun _ _ hp => hp
  · exact Outcome.pure rfl h

theorem Factor.read_outcome (h : F.Twin m w w') :
    F.Outcome (Factor.read sc w) (Factor.read sc w') := by
  unfold Factor.read
  refine Outcome.bind (Sign.read?_outcome h) ?_ ?_
  · rintro ⟨sg, v, hv⟩ ⟨sg', v', hv'⟩ m₁ - - hval ht
    simp only [Windowed.value_prod, Prod.mk.injEq] at hval
    obtain ⟨rfl, -⟩ := hval
    change F.Twin m₁ v v' at ht
    obtain ⟨s', n', rfl⟩ := ht.exists_eq
    dsimp only
    -- Both runs look at the same token: a number, a variable, or neither.
    split
    · exact Outcome.bind (ht.step _ _) (fun _ _ _ _ _ _ ht => Outcome.pure rfl ht)
        fun _ _ hp => hp
    · split
      · exact Outcome.bind (ht.step _ _) (fun _ _ _ _ _ _ ht => Outcome.pure rfl ht)
          fun _ _ hp => hp
      · exact ht.throw_current rfl rfl
    · exact ht.throw_current rfl rfl
  · rintro ⟨sg', v', hv'⟩ - hp
    refine hp.ahead fun _ hat => ?_
    dsimp only
    split
    · exact Scan.Reach.bind (hat.step _) fun _ _ _ _ hat => Scan.Reach.pure hat (Nat.le_refl _)
    · split
      · exact Scan.Reach.bind (hat.step _) fun _ _ _ _ hat =>
          Scan.Reach.pure hat (Nat.le_refl _)
      · exact hat.throw_current rfl
    · exact hat.throw_current rfl

theorem Term.readRest_outcome (h : F.Twin m w w') :
    F.Outcome (Term.readRest sc w) (Term.readRest sc w') := by
  induction w using Term.readRest.induct generalizing w' m with
  | case1 w op hop ih =>
    obtain ⟨s', n', rfl⟩ := h.exists_eq
    rw [Term.readRest, Term.readRest]
    dsimp only
    split
    · refine Outcome.bind (h.step _ _) ?_ ?_
      · rintro ⟨v₁, hv₁⟩ ⟨v₁', hv₁'⟩ m₁ - - - ht₁
        refine Outcome.bind (Factor.read_outcome ht₁) ?_ ?_
        · rintro ⟨f, v₂, hv₂⟩ ⟨f', v₂', hv₂'⟩ m₂ - - hval ht₂
          obtain rfl : f = f' := by simpa using hval
          exact Outcome.bind (ih v₁ hv₁ v₂ hv₂ ht₂)
            (fun _ _ _ _ _ hv ht => Outcome.pure (by simpa [Windowed.value_eq_prod] using hv) ht) fun _ _ hp => hp
        · rintro ⟨f', v₂', hv₂'⟩ - hp
          exact hp.ahead fun _ hat => Scan.Reach.bind (Scan.Term.readRest_reach hat)
            fun _ _ _ _ hat => Scan.Reach.pure hat (Nat.le_refl _)
      · rintro ⟨v₁', hv₁'⟩ - hp
        exact hp.ahead fun _ hat => Scan.Reach.bind (Scan.Factor.read_reach hat)
          fun _ _ _ _ hat => Scan.Reach.bind (Scan.Term.readRest_reach hat)
            fun _ _ _ _ hat => Scan.Reach.pure hat (Nat.le_refl _)
    · rename_i hnone
      rw [hop] at hnone
      cases hnone
  | case2 w hnone =>
    obtain ⟨s', n', rfl⟩ := h.exists_eq
    rw [Term.readRest, Term.readRest]
    dsimp only
    split
    · rename_i op hop
      rw [hnone] at hop
      cases hop
    · exact Outcome.pure rfl h

theorem Term.read_outcome (h : F.Twin m w w') :
    F.Outcome (Term.read sc w) (Term.read sc w') := by
  unfold Term.read
  refine Outcome.bind (Factor.read_outcome h) ?_ ?_
  · rintro ⟨f, v₁, hv₁⟩ ⟨f', v₁', hv₁'⟩ m₁ - - hval ht₁
    obtain rfl : f = f' := by simpa using hval
    exact Outcome.bind (Term.readRest_outcome ht₁)
      (fun _ _ _ _ _ hv ht => Outcome.pure (by simpa [Windowed.value_eq_prod] using hv) ht) fun _ _ hp => hp
  · rintro ⟨f', v₁', hv₁'⟩ - hp
    exact hp.ahead fun _ hat => Scan.Reach.bind (Scan.Term.readRest_reach hat)
      fun _ _ _ _ hat => Scan.Reach.pure hat (Nat.le_refl _)

theorem Expr.readRest_outcome (h : F.Twin m w w') :
    F.Outcome (Expr.readRest sc w) (Expr.readRest sc w') := by
  induction w using Expr.readRest.induct generalizing w' m with
  | case1 w op hop ih =>
    obtain ⟨s', n', rfl⟩ := h.exists_eq
    rw [Expr.readRest, Expr.readRest]
    dsimp only
    split
    · refine Outcome.bind (h.step _ _) ?_ ?_
      · rintro ⟨v₁, hv₁⟩ ⟨v₁', hv₁'⟩ m₁ - - - ht₁
        refine Outcome.bind (Term.read_outcome ht₁) ?_ ?_
        · rintro ⟨t, v₂, hv₂⟩ ⟨t', v₂', hv₂'⟩ m₂ - - hval ht₂
          obtain rfl : t = t' := by simpa using hval
          exact Outcome.bind (ih v₁ hv₁ v₂ hv₂ ht₂)
            (fun _ _ _ _ _ hv ht => Outcome.pure (by simpa [Windowed.value_eq_prod] using hv) ht) fun _ _ hp => hp
        · rintro ⟨t', v₂', hv₂'⟩ - hp
          exact hp.ahead fun _ hat => Scan.Reach.bind (Scan.Expr.readRest_reach hat)
            fun _ _ _ _ hat => Scan.Reach.pure hat (Nat.le_refl _)
      · rintro ⟨v₁', hv₁'⟩ - hp
        exact hp.ahead fun _ hat => Scan.Reach.bind (Scan.Term.read_reach hat)
          fun _ _ _ _ hat => Scan.Reach.bind (Scan.Expr.readRest_reach hat)
            fun _ _ _ _ hat => Scan.Reach.pure hat (Nat.le_refl _)
    · rename_i hnone
      rw [hop] at hnone
      cases hnone
  | case2 w hnone =>
    obtain ⟨s', n', rfl⟩ := h.exists_eq
    rw [Expr.readRest, Expr.readRest]
    dsimp only
    split
    · rename_i op hop
      rw [hnone] at hop
      cases hop
    · exact Outcome.pure rfl h

theorem Expr.read_outcome (h : F.Twin m w w') :
    F.Outcome (Expr.read sc w) (Expr.read sc w') := by
  unfold Expr.read
  refine Outcome.bind (Term.read_outcome h) ?_ ?_
  · rintro ⟨t, v₁, hv₁⟩ ⟨t', v₁', hv₁'⟩ m₁ - - hval ht₁
    obtain rfl : t = t' := by simpa using hval
    exact Outcome.bind (Expr.readRest_outcome ht₁)
      (fun _ _ _ _ _ hv ht => Outcome.pure (by simpa [Windowed.value_eq_prod] using hv) ht) fun _ _ hp => hp
  · rintro ⟨t', v₁', hv₁'⟩ - hp
    exact hp.ahead fun _ hat => Scan.Reach.bind (Scan.Expr.readRest_reach hat)
      fun _ _ _ _ hat => Scan.Reach.pure hat (Nat.le_refl _)

theorem Comparison.readRest_outcome (h : F.Twin m w w') :
    F.Outcome (Comparison.readRest sc w) (Comparison.readRest sc w') := by
  induction w using Comparison.readRest.induct generalizing w' m with
  | case1 w rel hrel ih =>
    obtain ⟨s', n', rfl⟩ := h.exists_eq
    rw [Comparison.readRest, Comparison.readRest]
    dsimp only
    split
    · refine Outcome.bind (h.step _ _) ?_ ?_
      · rintro ⟨v₁, hv₁⟩ ⟨v₁', hv₁'⟩ m₁ - - - ht₁
        refine Outcome.bind (Expr.read_outcome ht₁) ?_ ?_
        · rintro ⟨x, v₂, hv₂⟩ ⟨x', v₂', hv₂'⟩ m₂ - - hval ht₂
          obtain rfl : x = x' := by simpa using hval
          exact Outcome.bind (ih v₁ hv₁ v₂ hv₂ ht₂)
            (fun _ _ _ _ _ hv ht => Outcome.pure (by simpa [Windowed.value_eq_prod] using hv) ht) fun _ _ hp => hp
        · rintro ⟨x', v₂', hv₂'⟩ - hp
          exact hp.ahead fun _ hat => Scan.Reach.bind (Scan.Comparison.readRest_reach hat)
            fun _ _ _ _ hat => Scan.Reach.pure hat (Nat.le_refl _)
      · rintro ⟨v₁', hv₁'⟩ - hp
        exact hp.ahead fun _ hat => Scan.Reach.bind (Scan.Expr.read_reach hat)
          fun _ _ _ _ hat => Scan.Reach.bind (Scan.Comparison.readRest_reach hat)
            fun _ _ _ _ hat => Scan.Reach.pure hat (Nat.le_refl _)
    · rename_i hnone
      rw [hrel] at hnone
      cases hnone
  | case2 w hnone =>
    obtain ⟨s', n', rfl⟩ := h.exists_eq
    rw [Comparison.readRest, Comparison.readRest]
    dsimp only
    split
    · rename_i rel hrel
      rw [hnone] at hrel
      cases hrel
    · exact Outcome.pure rfl h

theorem Comparison.read_outcome (h : F.Twin m w w') :
    F.Outcome (Comparison.read sc w) (Comparison.read sc w') := by
  unfold Comparison.read
  refine Outcome.bind (Expr.read_outcome h) ?_ ?_
  · rintro ⟨l, v₁, hv₁⟩ ⟨l', v₁', hv₁'⟩ m₁ - - hval ht₁
    obtain rfl : l = l' := by simpa using hval
    change F.Twin m₁ v₁ v₁' at ht₁
    obtain ⟨s', n', rfl⟩ := ht₁.exists_eq
    dsimp only
    split
    · refine Outcome.bind (ht₁.step _ _) ?_ ?_
      · rintro ⟨v₂, hv₂⟩ ⟨v₂', hv₂'⟩ m₂ - - - ht₂
        refine Outcome.bind (Expr.read_outcome ht₂) ?_ ?_
        · rintro ⟨r, v₃, hv₃⟩ ⟨r', v₃', hv₃'⟩ m₃ - - hval ht₃
          obtain rfl : r = r' := by simpa using hval
          exact Outcome.bind (Comparison.readRest_outcome ht₃)
            (fun _ _ _ _ _ hv ht => Outcome.pure (by simpa [Windowed.value_eq_prod] using hv) ht) fun _ _ hp => hp
        · rintro ⟨r', v₃', hv₃'⟩ - hp
          exact hp.ahead fun _ hat => Scan.Reach.bind (Scan.Comparison.readRest_reach hat)
            fun _ _ _ _ hat => Scan.Reach.pure hat (Nat.le_refl _)
      · rintro ⟨v₂', hv₂'⟩ - hp
        exact hp.ahead fun _ hat => Scan.Reach.bind (Scan.Expr.read_reach hat)
          fun _ _ _ _ hat => Scan.Reach.bind (Scan.Comparison.readRest_reach hat)
            fun _ _ _ _ hat => Scan.Reach.pure hat (Nat.le_refl _)
    · exact ht₁.throw_current rfl rfl
  · rintro ⟨l', v₁', hv₁'⟩ - hp
    refine hp.ahead fun _ hat => ?_
    dsimp only
    split
    · exact Scan.Reach.bind (hat.step _) fun _ _ _ _ hat =>
        Scan.Reach.bind (Scan.Expr.read_reach hat) fun _ _ _ _ hat =>
          Scan.Reach.bind (Scan.Comparison.readRest_reach hat) fun _ _ _ _ hat =>
            Scan.Reach.pure hat (Nat.le_refl _)
    · exact hat.throw_current rfl

/-- The reader of `IF` and `WHILE` from twin windows, given that the reader of the block inside
it keeps to the outcomes. Once the second run has gone past `ts`, the rest of the reader goes on
alone, and each bind's last argument follows it. -/
theorem Stmt.readGuarded_outcome (g : Guard) (h : F.Twin m w w')
    (hk : w.current.kind = g.keyword) (hk' : w'.current.kind = g.keyword)
    (hblock : ∀ {sc : Scope} {v v' : Window} {m : Nat}, v.size < w.size → F.Twin m v v' →
      F.Outcome (Stmt.readBlock g.stop g.stopHint sc v) (Stmt.readBlock g.stop g.stopHint sc v')) :
    F.Outcome (Stmt.readGuarded (fun x => x) Stmt.readBlock g sc w hk)
      (Stmt.readGuarded (fun x => x) Stmt.readBlock g sc w' hk') := by
  unfold Stmt.readGuarded
  refine Outcome.bind (h.step _ _) ?_ fun _ _ hp => hp.ahead fun _ hat =>
    Scan.Reach.bind (Scan.Comparison.read_reach hat) fun _ _ _ _ hat =>
      Scan.Reach.bind (hat.expect g.sep_isEnd _) fun _ _ _ _ hat =>
        Scan.Reach.bind hat.lineBreak fun _ _ _ _ hat =>
          Scan.Reach.bind (Scan.Stmt.readBlock_reach hat) fun _ _ _ _ hat =>
            Scan.Reach.bind (hat.expect g.stop_isEnd _) fun _ _ _ _ hat =>
              Scan.Reach.bind hat.lineBreak fun _ _ _ _ hat =>
                Scan.Reach.pure hat (Nat.le_refl _)
  rintro ⟨v₁, hv₁⟩ ⟨v₁', hv₁'⟩ m₁ - - - ht₁
  refine Outcome.bind (Comparison.read_outcome ht₁) ?_ fun _ _ hp => hp.ahead
    fun _ hat => Scan.Reach.bind (hat.expect g.sep_isEnd _) fun _ _ _ _ hat =>
      Scan.Reach.bind hat.lineBreak fun _ _ _ _ hat =>
        Scan.Reach.bind (Scan.Stmt.readBlock_reach hat) fun _ _ _ _ hat =>
          Scan.Reach.bind (hat.expect g.stop_isEnd _) fun _ _ _ _ hat =>
            Scan.Reach.bind hat.lineBreak fun _ _ _ _ hat =>
              Scan.Reach.pure hat (Nat.le_refl _)
  rintro ⟨c, v₂, hv₂⟩ ⟨c', v₂', hv₂'⟩ m₂ - - hval ht₂
  obtain rfl : c = c' := by simpa using hval
  refine Outcome.bind (ht₂.expect g.sep_isEnd _) ?_ fun _ _ hp => hp.ahead fun _ hat =>
    Scan.Reach.bind hat.lineBreak fun _ _ _ _ hat =>
      Scan.Reach.bind (Scan.Stmt.readBlock_reach hat) fun _ _ _ _ hat =>
        Scan.Reach.bind (hat.expect g.stop_isEnd _) fun _ _ _ _ hat =>
          Scan.Reach.bind hat.lineBreak fun _ _ _ _ hat =>
            Scan.Reach.pure hat (Nat.le_refl _)
  rintro ⟨th, v₃, hv₃⟩ ⟨th', v₃', hv₃'⟩ m₃ - - - ht₃
  refine Outcome.bind (Twin.lineBreak ht₃) ?_ fun _ _ hp => hp.ahead fun _ hat =>
    Scan.Reach.bind (Scan.Stmt.readBlock_reach hat) fun _ _ _ _ hat =>
      Scan.Reach.bind (hat.expect g.stop_isEnd _) fun _ _ _ _ hat =>
        Scan.Reach.bind hat.lineBreak fun _ _ _ _ hat =>
          Scan.Reach.pure hat (Nat.le_refl _)
  rintro ⟨v₄, hv₄⟩ ⟨v₄', hv₄'⟩ m₄ - - - ht₄
  have hlt : v₄.size < w.size := by
    dsimp only at hv₂ hv₃ hv₄
    omega
  refine Outcome.bind (hblock hlt ht₄) ?_ fun _ _ hp => hp.ahead fun _ hat =>
    Scan.Reach.bind (hat.expect g.stop_isEnd _) fun _ _ _ _ hat =>
      Scan.Reach.bind hat.lineBreak fun _ _ _ _ hat =>
        Scan.Reach.pure hat (Nat.le_refl _)
  rintro ⟨body, sc₁, v₅, hv₅⟩ ⟨body', sc₁', v₅', hv₅'⟩ m₅ - - hval ht₅
  obtain ⟨rfl, rfl⟩ : body = body' ∧ sc₁ = sc₁' := by simpa using hval
  refine Outcome.bind (ht₅.expect g.stop_isEnd _) ?_ fun _ _ hp => hp.ahead fun _ hat =>
    Scan.Reach.bind hat.lineBreak fun _ _ _ _ hat => Scan.Reach.pure hat (Nat.le_refl _)
  rintro ⟨en, v₆, hv₆⟩ ⟨en', v₆', hv₆'⟩ m₆ - - - ht₆
  exact Outcome.bind (Twin.lineBreak ht₆) (fun _ _ _ _ _ _ ht => Outcome.pure rfl ht)
    fun _ _ hp => hp

/-- The statement readers from twin windows smaller than `n`; strong induction on `n` carries
the mutual recursion of `Stmt.read` and `Stmt.readBlock`. Each bind's last argument covers the
second run once it has gone past `ts` alone. -/
theorem stmt_outcome_lt (n : Nat) :
    (∀ {sc : Scope} {w w' : Window} {m : Nat}, w.size < n → F.Twin m w w' →
        F.Outcome (Stmt.read sc w) (Stmt.read sc w')) ∧
    (∀ {stop : Kind} {hint : String} {sc : Scope} {w w' : Window} {m : Nat}, w.size < n →
        F.Twin m w w' →
        F.Outcome (Stmt.readBlock stop hint sc w) (Stmt.readBlock stop hint sc w')) := by
  induction n with
  | zero =>
    exact ⟨fun hn => absurd hn (Nat.not_lt_zero _), fun hn => absurd hn (Nat.not_lt_zero _)⟩
  | succ n ih =>
    have hread : ∀ {sc : Scope} {w w' : Window} {m : Nat}, w.size < n + 1 → F.Twin m w w' →
        F.Outcome (Stmt.read sc w) (Stmt.read sc w') := by
      intro sc w w' m hsize h
      obtain ⟨s', n', rfl⟩ := h.exists_eq
      rw [Stmt.read, Stmt.read]
      dsimp only
      split
      · -- PRINT, then a string or an expression
        refine Outcome.bind (h.step _ _) ?_ fun b' _ hp => hp.ahead fun _ hat => by
          obtain ⟨v₁', _⟩ := b'
          dsimp only
          split
          · exact Scan.Reach.bind (hat.step _) fun _ _ _ _ hat =>
              Scan.Reach.bind hat.lineBreak fun _ _ _ _ hat => Scan.Reach.pure hat (Nat.le_refl _)
          · exact Scan.Reach.bind (Scan.Expr.read_reach hat) fun _ _ _ _ hat =>
              Scan.Reach.bind hat.lineBreak fun _ _ _ _ hat => Scan.Reach.pure hat (Nat.le_refl _)
        rintro ⟨v₁, hv₁⟩ ⟨v₁', hv₁'⟩ m₁ - - - ht₁
        change F.Twin m₁ v₁ v₁' at ht₁
        obtain ⟨s₁, n₁, rfl⟩ := ht₁.exists_eq
        dsimp only
        split
        · refine Outcome.bind (ht₁.step _ _) ?_ fun _ _ hp => hp.ahead fun _ hat =>
            Scan.Reach.bind hat.lineBreak fun _ _ _ _ hat => Scan.Reach.pure hat (Nat.le_refl _)
          rintro ⟨v₂, hv₂⟩ ⟨v₂', hv₂'⟩ m₂ - - - ht₂
          exact Outcome.bind (Twin.lineBreak ht₂) (fun _ _ _ _ _ _ ht => Outcome.pure rfl ht)
            fun _ _ hp => hp
        · refine Outcome.bind (Expr.read_outcome ht₁) ?_ fun _ _ hp => hp.ahead
            fun _ hat => Scan.Reach.bind hat.lineBreak fun _ _ _ _ hat =>
              Scan.Reach.pure hat (Nat.le_refl _)
          rintro ⟨x, v₂, hv₂⟩ ⟨x', v₂', hv₂'⟩ m₂ - - hval ht₂
          obtain rfl : x = x' := by simpa using hval
          exact Outcome.bind (Twin.lineBreak ht₂) (fun _ _ _ _ _ _ ht => Outcome.pure rfl ht)
            fun _ _ hp => hp
      · -- IF and WHILE: the block starts at a smaller window
        rename_i hk
        exact Stmt.readGuarded_outcome .ifThen h hk hk fun hv => ih.2 (by omega)
      · rename_i hk
        exact Stmt.readGuarded_outcome .whileRepeat h hk hk fun hv => ih.2 (by omega)
      · -- LABEL: a second declaration is checked once the token after the name is current
        refine Outcome.bind (h.step _ _) ?_ fun b' _ hp => hp.ahead fun _ hat₁ => by
          obtain ⟨v₁', _⟩ := b'
          refine Scan.Reach.bind_from (hat₁.expect rfl _) ?_
          rintro ⟨t, v₂, hv₂⟩ i₂ hx hi₂ hat₂
          dsimp only
          have ht : t = v₁'.current := Window.expect_eq_ok hx
          split
          · exact Scan.Reach.throw_at hat₂.2 (ht ▸ hat₁.getElem?) (Nat.le_refl _) rfl
          · refine Scan.Reach.mono hi₂ ?_
            exact Scan.Reach.bind hat₂.lineBreak fun _ _ _ _ hat =>
              Scan.Reach.pure hat (Nat.le_refl _)
        rintro ⟨v₁, hv₁⟩ ⟨v₁', hv₁'⟩ m₁ - - - ht₁
        change F.Twin m₁ v₁ v₁' at ht₁
        refine Outcome.bind (ht₁.expect rfl _) ?_ ?_
        · rintro ⟨t, v₂, hv₂⟩ ⟨t', v₂', hv₂'⟩ m₂ hx - hval ht₂
          obtain rfl : t = t' := by simpa using hval
          change F.Twin m₂ v₂ v₂' at ht₂
          obtain ⟨htv, hat₂⟩ := Scan.At.expect_ok ht₁.1 hx
          have hm₂ : m₁ + 1 = m₂ := hat₂.unique ht₂.1
          dsimp only
          split
          · -- both report the name, whose check needed the token after it
            refine ht₂.throw_at (i := m₁) (htv ▸ ht₁.1.getElem?) ?_ rfl
            have := ht₂.add_two_le
            simp only [Problem.lag]
            omega
          · have hloc : v₂'.locate t = v₂.locate t := by
              simp [Window.locate, ht₂.1.2, ht₂.2.2]
            rw [hloc]
            exact Outcome.bind (Twin.lineBreak ht₂) (fun _ _ _ _ _ _ ht => Outcome.pure rfl ht)
              fun _ _ hp => hp
        · -- the first scan met its fault on the move past the name, so the name is the
          -- next to last token of `ts`, and the check on it needed the token after `ts`
          rintro ⟨t', v₂', hv₂'⟩ hx' hp
          obtain ⟨ht', hat₂'⟩ := Scan.At.expect_ok ht₁.2 hx'
          obtain ⟨j, hj, hatj⟩ := hp
          have hjm : m₁ + 1 = j := hat₂'.unique hatj
          have hf : v₂'.stream.file = F.file := hat₂'.2
          dsimp only
          split
          · refine .inr ⟨rfl, m₁, t', ht' ▸ ht₁.2.getElem?, ?_, ?_⟩
            · show F.ts.length ≤ m₁ + 2
              omega
            · simp [Window.diagnose, Window.locate, hf]
          · have hp : F.Past v₂' := ⟨j, hj, hatj⟩
            exact hp.ahead fun _ hat =>
              Scan.Reach.bind hat.lineBreak fun _ _ _ _ hat => Scan.Reach.pure hat (Nat.le_refl _)
      · -- GOTO
        refine Outcome.bind (h.step _ _) ?_ fun _ _ hp => hp.ahead fun _ hat =>
          Scan.Reach.bind (hat.expect rfl _) fun _ _ _ _ hat =>
            Scan.Reach.bind hat.lineBreak fun _ _ _ _ hat => Scan.Reach.pure hat (Nat.le_refl _)
        rintro ⟨v₁, hv₁⟩ ⟨v₁', hv₁'⟩ m₁ - - - ht₁
        refine Outcome.bind (ht₁.expect rfl _) ?_ fun _ _ hp => hp.ahead fun _ hat =>
          Scan.Reach.bind hat.lineBreak fun _ _ _ _ hat => Scan.Reach.pure hat (Nat.le_refl _)
        rintro ⟨t, v₂, hv₂⟩ ⟨t', v₂', hv₂'⟩ m₂ - - hval ht₂
        obtain rfl : t = t' := by simpa using hval
        change F.Twin m₂ v₂ v₂' at ht₂
        have hloc : v₂'.locate t = v₂.locate t := by simp [Window.locate, ht₂.1.2, ht₂.2.2]
        dsimp only
        rw [hloc]
        exact Outcome.bind (Twin.lineBreak ht₂) (fun _ _ _ _ _ _ ht => Outcome.pure rfl ht)
          fun _ _ hp => hp
      · -- LET: the target is assigned before its right-hand side is read
        refine Outcome.bind (h.step _ _) ?_ fun _ _ hp => hp.ahead fun _ hat =>
          Scan.Reach.bind (hat.expect rfl _) fun _ _ _ _ hat =>
            Scan.Reach.bind (hat.expect rfl _) fun _ _ _ _ hat =>
              Scan.Reach.bind (Scan.Expr.read_reach hat) fun _ _ _ _ hat =>
                Scan.Reach.bind hat.lineBreak fun _ _ _ _ hat =>
                  Scan.Reach.pure hat (Nat.le_refl _)
        rintro ⟨v₁, hv₁⟩ ⟨v₁', hv₁'⟩ m₁ - - - ht₁
        refine Outcome.bind (ht₁.expect rfl _) ?_ fun _ _ hp => hp.ahead fun _ hat =>
          Scan.Reach.bind (hat.expect rfl _) fun _ _ _ _ hat =>
            Scan.Reach.bind (Scan.Expr.read_reach hat) fun _ _ _ _ hat =>
              Scan.Reach.bind hat.lineBreak fun _ _ _ _ hat => Scan.Reach.pure hat (Nat.le_refl _)
        rintro ⟨t, v₂, hv₂⟩ ⟨t', v₂', hv₂'⟩ m₂ - - hval ht₂
        obtain rfl : t = t' := by simpa using hval
        refine Outcome.bind (ht₂.expect rfl _) ?_ fun _ _ hp => hp.ahead fun _ hat =>
          Scan.Reach.bind (Scan.Expr.read_reach hat) fun _ _ _ _ hat =>
            Scan.Reach.bind hat.lineBreak fun _ _ _ _ hat => Scan.Reach.pure hat (Nat.le_refl _)
        rintro ⟨eq, v₃, hv₃⟩ ⟨eq', v₃', hv₃'⟩ m₃ - - - ht₃
        refine Outcome.bind (Expr.read_outcome ht₃) ?_ fun _ _ hp => hp.ahead
          fun _ hat => Scan.Reach.bind hat.lineBreak fun _ _ _ _ hat =>
            Scan.Reach.pure hat (Nat.le_refl _)
        rintro ⟨x, v₄, hv₄⟩ ⟨x', v₄', hv₄'⟩ m₄ - - hval ht₄
        obtain rfl : x = x' := by simpa using hval
        exact Outcome.bind (Twin.lineBreak ht₄) (fun _ _ _ _ _ _ ht => Outcome.pure rfl ht)
          fun _ _ hp => hp
      · -- INPUT
        refine Outcome.bind (h.step _ _) ?_ fun _ _ hp => hp.ahead fun _ hat =>
          Scan.Reach.bind (hat.expect rfl _) fun _ _ _ _ hat =>
            Scan.Reach.bind hat.lineBreak fun _ _ _ _ hat => Scan.Reach.pure hat (Nat.le_refl _)
        rintro ⟨v₁, hv₁⟩ ⟨v₁', hv₁'⟩ m₁ - - - ht₁
        refine Outcome.bind (ht₁.expect rfl _) ?_ fun _ _ hp => hp.ahead fun _ hat =>
          Scan.Reach.bind hat.lineBreak fun _ _ _ _ hat => Scan.Reach.pure hat (Nat.le_refl _)
        rintro ⟨t, v₂, hv₂⟩ ⟨t', v₂', hv₂'⟩ m₂ - - hval ht₂
        obtain rfl : t = t' := by simpa using hval
        exact Outcome.bind (Twin.lineBreak ht₂) (fun _ _ _ _ _ _ ht => Outcome.pure rfl ht)
          fun _ _ hp => hp
      · -- no statement starts here; the hint looks at the token after it
        exact h.throw_current rfl rfl
    refine ⟨hread, ?_⟩
    intro stop hint sc w w' m hsize h
    obtain ⟨s', n', rfl⟩ := h.exists_eq
    rw [Stmt.readBlock, Stmt.readBlock]
    dsimp only
    split
    · exact Outcome.pure rfl h
    · split
      · exact h.throw_current rfl rfl
      · refine Outcome.bind (hread hsize h) ?_ fun _ _ hp => hp.ahead fun _ hat =>
          Scan.Reach.bind (Scan.Stmt.readBlock_reach hat) fun _ _ _ _ hat =>
            Scan.Reach.pure hat (Nat.le_refl _)
        rintro ⟨s, sc₁, v₁, hv₁⟩ ⟨s₁, sc₁', v₁', hv₁'⟩ m₁ - - hval ht₁
        obtain ⟨rfl, rfl⟩ : s = s₁ ∧ sc₁ = sc₁' := by simpa using hval
        have hlt : v₁.size < n := by omega
        exact Outcome.bind (ih.2 hlt ht₁)
          (fun _ _ _ _ _ hv ht => Outcome.pure (by simpa [Windowed.value_eq_prod] using hv) ht)
          fun _ _ hp => hp

theorem Stmt.read_outcome (h : F.Twin m w w') :
    F.Outcome (Stmt.read sc w) (Stmt.read sc w') :=
  (stmt_outcome_lt (w.size + 1)).1 (Nat.lt_succ_self _) h

theorem Stmt.readBlock_outcome {stop : Kind} {hint : String} (h : F.Twin m w w') :
    F.Outcome (Stmt.readBlock stop hint sc w) (Stmt.readBlock stop hint sc w') :=
  (stmt_outcome_lt (w.size + 1)).2 (Nat.lt_succ_self _) h

theorem Program.readFrom_outcome (h : F.Twin m w w') :
    F.Outcome (Program.readFrom sc w) (Program.readFrom sc w') := by
  induction sc, w using Program.readFrom.induct generalizing w' m with
  | case1 sc w heof =>
    -- the first scan never shows the end
    obtain ⟨-, -, -, -, -, -, hc, -⟩ := h.streams
    exact absurd heof hc
  | case2 sc w hne ih =>
    obtain ⟨s', n', rfl⟩ := h.exists_eq
    rw [Program.readFrom, Program.readFrom]
    dsimp only
    rw [if_neg hne, if_neg hne]
    refine Outcome.bind (Stmt.read_outcome h) ?_ fun _ _ hp => hp.ahead fun _ hat =>
      Scan.Reach.bind (Scan.Program.readFrom_reach hat) fun _ _ _ _ hat =>
        Scan.Reach.pure hat (Nat.le_refl _)
    rintro ⟨s, sc₁, v₁, hv₁⟩ ⟨s₁, sc₁', v₁', hv₁'⟩ m₁ - - hval ht₁
    obtain ⟨rfl, rfl⟩ : s = s₁ ∧ sc₁ = sc₁' := by simpa using hval
    exact Outcome.bind (ih sc₁ v₁ hv₁ ht₁)
      (fun _ _ _ _ _ hv ht => Outcome.pure (by simpa [Windowed.value_eq_prod] using hv) ht)
      fun _ _ hp => hp

/-! ## The whole parse -/

/-- The first windows: twins at the first token, or the first scan meets its fault before it
has two tokens in view. -/
theorem start_outcome {s s' : TokenStream} (h₁ : s.tokens = (F.ts, some F.fault))
    (h₂ : s'.tokens = (F.ts ++ F.more, F.last)) (hf₁ : s.file = F.file)
    (hf₂ : s'.file = F.file) : F.Outcome (Window.start s) (Window.start s') := by
  have hreach : F.second.Reach 0 (Window.start s') := Scan.start_reach h₂ hf₂
  -- the window opens on the first two tokens, so the cases are how many `ts` has
  rcases hts : F.ts with _ | ⟨t₀, _ | ⟨t₁, r⟩⟩
  · rw [hts] at h₁
    obtain ⟨d, s₁, hd, hn⟩ := TokenStream.next_of_tokens_nil h₁
    obtain rfl := Option.some.inj hd
    have hst : Window.start s = .error F.fault := by
      unfold Window.start
      rw [hn]
    rw [hst]
    exact .starve _ (ahead_of_reach (by simp [hts]) hreach)
  · rw [hts] at h₁
    obtain ⟨s₁, hn, ⟨-, -, hnone⟩ | ⟨-, hs₁⟩⟩ := TokenStream.next_of_tokens_cons h₁
    · cases hnone
    obtain ⟨d, s₂, hd, hn₁⟩ := TokenStream.next_of_tokens_nil hs₁
    obtain rfl := Option.some.inj hd
    rw [Window.start_of_next_error hn hn₁]
    exact .starve _ (ahead_of_reach (by simp [hts]) hreach)
  · have h₁' := h₁
    have h₂' := h₂
    rw [hts] at h₁' h₂'
    obtain ⟨s₁, hn, ⟨-, -, hnone⟩ | ⟨hk₀, hs₁⟩⟩ := TokenStream.next_of_tokens_cons h₁'
    · cases hnone
    obtain ⟨s₂, hn₁, ⟨-, -, hnone⟩ | ⟨hk₁, hs₂⟩⟩ := TokenStream.next_of_tokens_cons hs₁
    · cases hnone
    -- the second scan gives the same two tokens, neither of them the end
    obtain ⟨s₁', hn', ⟨hk, -⟩ | ⟨-, hs₁'⟩⟩ := TokenStream.next_of_tokens_cons h₂'
    · exact absurd hk hk₀
    obtain ⟨s₂', hn₁', ⟨hk, -⟩ | ⟨-, -⟩⟩ := TokenStream.next_of_tokens_cons hs₁'
    · exact absurd hk hk₁
    have hst := Window.start_of_next_ok hn hn₁
    have hst' := Window.start_of_next_ok hn' hn₁'
    rw [hst, hst']
    exact .both _ _ 0 rfl ⟨Scan.start_at h₁ hf₁ hst, Scan.start_at h₂ hf₂ hst'⟩

/-- Two parses whose first runs into its fault end as `Ends` says, provided each reader's
outcome leads to one. -/
theorem Outcome.bind_ends {α α' : Type} {x : Except Diagnostic β} {x' : Except Diagnostic β'}
    {g : β → Except Diagnostic α} {g' : β' → Except Diagnostic α'} (hx : F.Outcome x x')
    (hg : ∀ b b' m, x = .ok b → x' = .ok b' → Windowed.value b = Windowed.value b' →
      F.Twin m (Windowed.window b) (Windowed.window b') → F.Ends (g b) (g' b'))
    (hlate : ∀ b', x' = .ok b' → F.Past (Windowed.window b') → F.LateOrJump (g' b')) :
    F.Ends (x >>= g) (x' >>= g') := by
  cases hx with
  | both b b' m hv ht => exact hg b b' m rfl rfl hv ht
  | check d d' hp hl he => exact .inr ⟨d, d', rfl, rfl, hp, hl, he⟩
  | starve x' ha =>
    refine .inl ⟨rfl, ?_⟩
    cases x' with
    | error d' =>
      rintro _ ⟨⟩
      exact .inl ha
    | ok b' => exact hlate b' rfl ha

/-- A run of the second scan from the last token of `ts` or later, followed by a part that
reports only what `LateOrJump` allows. -/
theorem lateOrJump_bind {α : Type} {x' : Except Diagnostic β'} {g' : β' → Except Diagnostic α}
    {j : Nat} (hj : F.ts.length ≤ j + 1) (hx : F.second.Reach j x')
    (hg : ∀ b' i, x' = .ok b' → j ≤ i → F.second.At i (Windowed.window b') →
      F.LateOrJump (g' b')) :
    F.LateOrJump (x' >>= g') := by
  cases x' with
  | error d' =>
    rintro _ ⟨⟩
    exact .inl (ahead_of_reach hj hx)
  | ok b' =>
    obtain ⟨i, hi, hat⟩ := hx
    exact hg b' i rfl hi hat

/-- The parses of a fork end as `Ends` says. -/
theorem parse_ends (p : Precision) {s s' : String}
    (h₁ : (TokenStream.start F.file s).tokens = (F.ts, some F.fault))
    (h₂ : (TokenStream.start F.file s').tokens = (F.ts ++ F.more, F.last)) :
    F.Ends (Program.parse p F.file s) (Program.parse p F.file s') := by
  rw [Program.parse, Program.parse]
  refine Outcome.bind_ends (start_outcome h₁ h₂ rfl rfl) ?_ ?_
  · rintro w w' m₀ - - - ht₀
    refine Outcome.bind_ends (Twin.skipNewlines ht₀) ?_ ?_
    · rintro ⟨v, hv⟩ ⟨v', hv'⟩ m₁ - - - ht₁
      refine Outcome.bind_ends (Program.readFrom_outcome ht₁) ?_ ?_
      · -- the first scan has no end token for the program to stop at
        rintro ⟨prog, sc, v₂, hv₂⟩ _ m₂ hx - - ht₂
        obtain ⟨-, -, -, heof, -⟩ := Program.readFrom_sound hx ht₁.1.1
        obtain ⟨-, -, -, -, -, -, hc, -⟩ := ht₂.streams
        exact absurd heof hc
      · -- the check on the jumps reports only a missing label
        rintro ⟨_, sc', _, _⟩ - - d' hd
        dsimp only at hd
        split at hd <;> cases hd
        exact .inr ⟨_, rfl⟩
    · rintro ⟨v', _⟩ - ⟨j, hj, hat⟩
      refine lateOrJump_bind hj (Scan.Program.readFrom_reach hat) ?_
      rintro ⟨_, sc', _, _⟩ _ - - - d' hd
      dsimp only at hd
      split at hd <;> cases hd
      exact .inr ⟨_, rfl⟩
  · rintro w' - ⟨j, hj, hat⟩
    refine lateOrJump_bind hj hat.skipNewlines ?_
    rintro ⟨v', _⟩ i - hji hat'
    refine lateOrJump_bind (by omega) (Scan.Program.readFrom_reach hat') ?_
    rintro ⟨_, sc', _, _⟩ _ - - - d' hd
    dsimp only at hd
    split at hd <;> cases hd
    exact .inr ⟨_, rfl⟩

end Fork

/-! ## Jumps to missing labels -/

/-- A parse that reports a jump to a missing label has passed everything else: the scan read
the whole source, the tokens form a program whose reads are assigned before and whose labels
are distinct, and the label is the first missing one. -/
theorem Program.parse_missing_label {p : Precision} {file source n : String} {d : Diagnostic}
    (h : Program.parse p file source = .error d) (hn : d.problem = .missingLabel n) :
    ∃ ts prog, (TokenStream.start file source).tokens = (ts, none) ∧ SentenceOf ts prog ∧
      AssignedBeforeRead (Stmt.blockMarks prog) ∧ LabelsDistinct (Stmt.blockMarks prog) ∧
      FirstMissingLabel (Stmt.blockMarks prog) n := by
  rcases Program.parse_eq_error h with hl | hf |
    ⟨w, ⟨w₁, h₁⟩, prog, sc, ⟨w₂, h₂⟩, name, l, hs, hs', hr, hdangling, hname⟩
  · -- the scan stops only at a lexical fault
    have hfam := TokenStream.start_fault_family (Prod.ext rfl hl :
      (TokenStream.start file source).tokens = ((TokenStream.start file source).tokens.1, some d))
    rw [hn] at hfam
    cases hfam
  · rw [hn] at hf
    cases hf
  -- the program was read; what failed is the check on its jumps
  rw [hname] at hn
  cases hn
  rcases htok : (TokenStream.start file source).tokens with ⟨ts, e⟩
  have hw := Window.shows_start htok hs
  rcases hw.skipNewlines hs' with ⟨r₁, hblank, hw₁, -⟩
  rcases Program.readFrom_sound hr hw₁ with ⟨r₂, hblock, hw₂, heof, hadm, hsc⟩
  rcases hw₂.of_eof heof with ⟨rfl, rfl⟩
  rw [Scope.names_initial] at hadm hsc
  have hchecks := Names.admits_empty_iff.1 hadm
  exact ⟨ts, prog, rfl, .mk hblank hblock heof, hchecks.1, hchecks.2,
    Scope.danglingJump?_eq_some hsc hdangling⟩

/-- A program that passes every check but the one on jumps is reported at its first missing
label. -/
theorem Program.parse_reports_missing_label {p : Precision} {file source n : String}
    {ts : List Token}
    {prog : Program} (htok : (TokenStream.start file source).tokens = (ts, none))
    (hs : SentenceOf ts prog) (hab : AssignedBeforeRead (Stmt.blockMarks prog))
    (hld : LabelsDistinct (Stmt.blockMarks prog))
    (hfirst : FirstMissingLabel (Stmt.blockMarks prog) n) :
    ∃ d, Program.parse p file source = .error d ∧ d.problem = .missingLabel n := by
  obtain ⟨w, ⟨w₁, h₁⟩, sc, ⟨w₂, h₂⟩, hstart, hskip, hread, hnames⟩ :=
    Program.read_complete (p := p) htok hs hab hld
  -- the scope reports a jump, and the first missing label is unique
  obtain ⟨⟨n', l⟩, hdangling⟩ :=
    Option.ne_none_iff_exists'.1 (Scope.danglingJump?_ne_none hnames hfirst)
  obtain rfl := hfirst.unique (Scope.danglingJump?_eq_some hnames hdangling)
  refine ⟨⟨.missingLabel n, some l, (TokenStream.start file source).lineText l.line⟩, ?_, rfl⟩
  rw [Program.parse]
  refine bind_eq_error.2 (.inr ⟨_, hstart, bind_eq_error.2 (.inr ⟨_, hskip,
    bind_eq_error.2 (.inr ⟨_, hread, ?_⟩)⟩)⟩)
  simp only [Scope.emitLine_eq, Scope.emit_danglingJump?, hdangling]
  rfl

/-- A jump to a missing label is reported exactly when nothing else fails: the scan reads the
whole source, its tokens form a program whose reads are assigned before and whose labels are
distinct, and the label is the first, in source order, that a jump names and no statement
declares. -/
theorem Program.parse_missing_label_iff {p : Precision} {file source n : String} :
    (∃ d, Program.parse p file source = .error d ∧ d.problem = .missingLabel n) ↔
      ∃ ts prog, (TokenStream.start file source).tokens = (ts, none) ∧ SentenceOf ts prog ∧
        AssignedBeforeRead (Stmt.blockMarks prog) ∧ LabelsDistinct (Stmt.blockMarks prog) ∧
        FirstMissingLabel (Stmt.blockMarks prog) n := by
  constructor
  · rintro ⟨d, h, hn⟩
    exact Program.parse_missing_label h hn
  · rintro ⟨ts, prog, htok, hs, hab, hld, hfirst⟩
    exact Program.parse_reports_missing_label htok hs hab hld hfirst

/-! ## Which error is reported -/

/-- Which error a parse reports. Of two sources whose scans agree on the tokens `ts`, the first
meeting a fault right after them and the second going on: either the first reports its fault
and the second reports only an error that needs a token after `ts`, or a missing label; or both
report the same problem at the same token of `ts`, found by a check that needs no token after
`ts`. A jump to a missing label is reported exactly when nothing else fails, and names the first
label, in source order, that a jump names and no statement declares. A label declared again is
reported at the name after the second `LABEL` keyword, and its hint gives the place of the name
of the one declaration before it. -/
theorem Program.parse_reports_first_error (p : Precision) :
    (∀ (F : Fork) (s s' : String),
      (TokenStream.start F.file s).tokens = (F.ts, some F.fault) →
      (TokenStream.start F.file s').tokens = (F.ts ++ F.more, F.last) →
      Program.parse p F.file s = .error F.fault ∧
          (∀ d', Program.parse p F.file s' = .error d' →
            F.Late d' ∨ ∃ n, d'.problem = .missingLabel n) ∨
        ∃ d d', Program.parse p F.file s = .error d ∧ Program.parse p F.file s' = .error d' ∧
          d.problem = d'.problem ∧ d.location = d'.location ∧ F.Early d) ∧
    (∀ file source n : String,
      (∃ d, Program.parse p file source = .error d ∧ d.problem = .missingLabel n) ↔
        ∃ ts prog, (TokenStream.start file source).tokens = (ts, none) ∧ SentenceOf ts prog ∧
          AssignedBeforeRead (Stmt.blockMarks prog) ∧ LabelsDistinct (Stmt.blockMarks prog) ∧
          FirstMissingLabel (Stmt.blockMarks prog) n) ∧
    ∀ (file source n : String) (first : Option Location) (d : Diagnostic),
      Program.parse p file source = .error d → d.problem = .labelRedeclared n first →
      let ts := (TokenStream.start file source).tokens.1
      ∃ j kw t, ts[j]? = some kw ∧ kw.kind = .labelKw ∧ ts[j + 1]? = some t ∧
        t.kind = .identifier ∧ t.text = n ∧ d.location = some ⟨file, t.line, t.column⟩ ∧
        ∃ l, first = some l ∧ LabeledBefore file ts j n l ∧
          (∀ l', LabeledBefore file ts j n l' → l' = l) ∧
          d.problem.hint = some ("'" ++ n ++ "' was first declared at " ++ l.render) :=
  ⟨fun F _ _ h₁ h₂ => F.parse_ends p h₁ h₂, fun _ _ _ => Program.parse_missing_label_iff,
    fun _ _ _ _ _ h hp => Program.parse_label_redeclared h hp⟩

/-- `LET y @` stops its scan at `@`, where `LET y = 1` goes on to a program that parses: the
two parses agree up to `y`, so `LET y @` reports the fault at `@`. -/
theorem Program.parse_reports_first_error_at_let :
    ∃ fault, (TokenStream.start "p.bas" "LET y @").tokens =
        ([⟨.letKw, "LET", 1, 1⟩, ⟨.identifier, "y", 1, 5⟩], some fault) ∧
      Program.parse default "p.bas" "LET y @" = .error fault := by
  let ts : List Token := [⟨.letKw, "LET", 1, 1⟩, ⟨.identifier, "y", 1, 5⟩]
  let more : List Token :=
    [⟨.eq, "=", 1, 7⟩, ⟨.number, "1", 1, 9⟩, ⟨.newline, "\n", 1, 10⟩, ⟨.eof, "", 2, 1⟩]
  obtain ⟨fault, hbad⟩ : ∃ fault, (TokenStream.start "p.bas" "LET y @").tokens =
      (ts, some fault) := by
    have h : (TokenStream.start "p.bas" "LET y @").tokens.1 = ts ∧
        (TokenStream.start "p.bas" "LET y @").tokens.2.isSome = true := by
      decide +kernel
    obtain ⟨d, hd⟩ := Option.isSome_iff_exists.1 h.2
    exact ⟨d, Prod.ext h.1 hd⟩
  have hok : (TokenStream.start "p.bas" "LET y = 1").tokens = (ts ++ more, none) := by
    have h : (TokenStream.start "p.bas" "LET y = 1").tokens.1 = ts ++ more ∧
        (TokenStream.start "p.bas" "LET y = 1").tokens.2.isNone = true := by
      decide +kernel
    exact Prod.ext h.1 (Option.isNone_iff_eq_none.1 h.2)
  -- the longer source is a program that passes every check
  let e : Expr := ⟨⟨⟨none, .number "1"⟩, []⟩, []⟩
  have hs : SentenceOf (ts ++ more) [.assign "y" e] :=
    .mk .nil (.cons (.assign rfl rfl rfl (.mk (.mk (.bare rfl) .nil) .nil) (.mk rfl .nil)) .nil) rfl
  obtain ⟨r, hr, -⟩ := Program.parse_complete (p := default) hok hs (WellScoped.assign rfl)
  let F : Fork := ⟨"p.bas", ts, more, fault, none⟩
  rcases (Program.parse_reports_first_error default).1 F _ _ hbad hok with ⟨hfault, -⟩ | ⟨_, _, -, hr', -⟩
  · exact ⟨fault, hbad, hfault⟩
  · rw [hr] at hr'
    cases hr'

end TinyBasic
