import TinyBasic.Proofs.Parse.Sound
/-!
# Where a reader can stop

A reader run from the token at index `j` of a scan looks at no token before it: if it fails,
it fails at the scan's fault, or at a problem found while reading a token at index `j` or
later; if it returns, its window stands at index `j` or later. `Scan.Reach` says this of a
result, and each reader has its `_reach` lemma, down to `Program.parse_eq_error`: a parse
fails at the scan's fault, at a problem found while reading, or, once the whole program is
read, at a jump to a missing label.

Readers return their windows in subtypes of different shapes. `Windowed` takes apart each
shape into what was read and the window after it, so that one `bind` lemma serves all of them.
-/

namespace TinyBasic

/-- A reader's result, seen as what was read and the window after it. -/
class Windowed (β : Type) (γ : outParam Type) where
  value : β → γ
  window : β → Window

instance : Windowed Window Unit := ⟨fun _ => (), id⟩

instance {P : Window → Prop} : Windowed (Subtype P) Unit := ⟨fun _ => (), Subtype.val⟩

instance {α β γ : Type} [Windowed β γ] : Windowed (α × β) (α × γ) :=
  ⟨fun p => (p.1, Windowed.value p.2), fun p => Windowed.window p.2⟩

namespace Windowed

@[simp] theorem window_window (w : Window) : window w = w := rfl

@[simp] theorem value_subtype {P : Window → Prop} (v : Subtype P) : value v = () := rfl

@[simp] theorem window_subtype {P : Window → Prop} (v : Subtype P) : window v = v.1 := rfl

@[simp] theorem value_prod {α β γ : Type} [Windowed β γ] (a : α) (b : β) :
    value (a, b) = (a, value b) := rfl

theorem value_eq_prod {α β γ : Type} [Windowed β γ] (p : α × β) :
    value p = (p.1, value p.2) := rfl

@[simp] theorem window_prod {α β γ : Type} [Windowed β γ] (a : α) (b : β) :
    window (a, b) = window b := rfl

end Windowed

/-- The problems found while the tokens are read: the grammar's, and the two scope checks made
on the way. A jump to a missing label is found only after the whole program. -/
def Problem.foundReading : Problem → Bool
  | .unexpected .. | .missing .. | .noComparison _ | .unassignedRead .. | .labelRedeclared .. =>
    true
  | _ => false

/-! ## Streams keep their file -/

theorem TokenStream.next_file (s : TokenStream) : s.next.2.file = s.file := by
  unfold TokenStream.next TokenStream.scanAt
  split
  · rfl
  · split <;> rfl

namespace TokenStream

variable {s : TokenStream} {t : Token} {r : List Token} {e : Option Diagnostic}

/-- The stream gives the head of its list: the end, which closes the list, or a token with
the rest of the list behind it. -/
theorem next_of_tokens_cons (h : s.tokens = (t :: r, e)) :
    ∃ s', s.next = (.ok t, s') ∧
      (t.kind = .eof ∧ r = [] ∧ e = none ∨ t.kind ≠ .eof ∧ s'.tokens = (r, e)) := by
  rcases hn : s.next with ⟨_ | t', s'⟩
  · rw [tokens_of_next_error hn] at h
    simp at h
  · by_cases hk : t'.kind = .eof
    · rw [tokens_of_next_eof hn hk] at h
      simp only [Prod.mk.injEq, List.cons.injEq] at h
      obtain ⟨⟨rfl, hr⟩, he⟩ := h
      exact ⟨s', rfl, .inl ⟨hk, hr.symm, he.symm⟩⟩
    · rw [tokens_of_next_token hn hk] at h
      simp only [Prod.mk.injEq, List.cons.injEq] at h
      obtain ⟨⟨rfl, hr⟩, he⟩ := h
      exact ⟨s', rfl, .inr ⟨hk, by rw [← hr, ← he]⟩⟩

/-- A stream whose list is empty meets its fault at once. -/
theorem next_of_tokens_nil (h : s.tokens = ([], e)) :
    ∃ d s', e = some d ∧ s.next = (.error d, s') := by
  rcases hn : s.next with ⟨d | t', s'⟩
  · rw [tokens_of_next_error hn] at h
    simp only [Prod.mk.injEq, true_and] at h
    exact ⟨d, s', h.symm, rfl⟩
  · by_cases hk : t'.kind = .eof
    · rw [tokens_of_next_eof hn hk] at h
      simp at h
    · rw [tokens_of_next_token hn hk] at h
      simp at h

end TokenStream

namespace Window

variable {w v : Window} {ts : List Token} {e : Option Diagnostic} {d : Diagnostic}

theorem advance_of_next_ok {t : Token} {s : TokenStream} (hn : w.stream.next = (.ok t, s)) :
    w.advance = .ok ⟨w.peek, t, s, w.taken + 1⟩ := by
  unfold Window.advance
  rw [hn]

theorem advance_of_next_error {s : TokenStream} (hn : w.stream.next = (.error d, s)) :
    w.advance = .error d := by
  unfold Window.advance
  rw [hn]

theorem step_of_advance_ok (hk : w.current.kind ≠ .eof) (ha : w.advance = .ok v) :
    w.step hk = .ok ⟨v, advance_size_lt hk ha⟩ := by
  unfold Window.step
  split
  · rename_i v' hv'
    rw [ha] at hv'
    cases hv'
    rfl
  · rename_i d' hd'
    rw [ha] at hd'
    cases hd'

theorem step_of_advance_error (hk : w.current.kind ≠ .eof) (ha : w.advance = .error d) :
    w.step hk = .error d := by
  unfold Window.step
  split
  · rename_i v' hv'
    rw [ha] at hv'
    cases hv'
  · rename_i d' hd'
    rw [ha] at hd'
    cases hd'
    rfl

theorem step_eq_error {hk : w.current.kind ≠ .eof} (h : w.step hk = .error d) :
    w.advance = .error d := by
  unfold Window.step at h
  split at h
  · simp at h
  · rename_i d' hd'
    simp only [Except.error.injEq] at h
    rw [hd', h]

/-- A window shows one list only. -/
theorem Shows.unique {l₁ l₂ : List Token} (h₁ : w.Shows l₁ e) (h₂ : w.Shows l₂ e) : l₁ = l₂ := by
  unfold Shows at h₁ h₂
  by_cases hc : w.current.kind = .eof
  · rw [if_pos hc] at h₁ h₂
    rw [h₁.1, h₂.1]
  · rw [if_neg hc] at h₁ h₂
    by_cases hp : w.peek.kind = .eof
    · rw [if_pos hp] at h₁ h₂
      rw [h₁.1, h₂.1]
    · rw [if_neg hp] at h₁ h₂
      obtain ⟨r₁, rfl, ht₁⟩ := h₁
      obtain ⟨r₂, rfl, ht₂⟩ := h₂
      rw [ht₁] at ht₂
      simp only [Prod.mk.injEq] at ht₂
      rw [ht₂.1]

theorem advance_file (h : w.advance = .ok v) : v.stream.file = w.stream.file := by
  unfold advance at h
  split at h
  · rename_i t s hs
    simp only [Except.ok.injEq] at h
    subst h
    have := TokenStream.next_file w.stream
    rw [hs] at this
    exact this
  · simp at h

/-- A move fails only at the fault the list ends in. -/
theorem Shows.advance_error (h : w.Shows ts e) (hk : w.current.kind ≠ .eof)
    (ha : w.advance = .error d) : e = some d := by
  unfold Shows at h
  rw [if_neg hk] at h
  unfold Window.advance at ha
  split at ha
  · simp at ha
  · rename_i d' s hs
    simp only [Except.error.injEq] at ha
    subst ha
    split at h
    · obtain ⟨-, -, t, s', hs'⟩ := h
      rw [hs'] at hs
      simp at hs
    · obtain ⟨rest, -, htok⟩ := h
      rw [TokenStream.tokens_of_next_error hs] at htok
      simp only [Prod.mk.injEq] at htok
      exact htok.2.symm

/-- The token a successful `expect` returns is the one that was current. -/
theorem expect_eq_ok {k : Kind} {hk : k.isEnd = false} {hint : Option String} {t : Token}
    {w' : w.After} (h : w.expect k hk hint = .ok (t, w')) : t = w.current := by
  unfold expect at h
  split at h
  · split at h
    · simp only [Except.ok.injEq, Prod.mk.injEq] at h
      exact h.1.symm
    · simp at h
  · simp at h

/-- `expect` as a bind. -/
theorem expect_eq_bind (w : Window) (k : Kind) (hk : k.isEnd = false) (hint : Option String) :
    w.expect k hk hint =
      if h : w.current.kind = k then
        w.step (current_ne_eof h hk) >>= fun w' => pure (w.current, w')
      else throw (w.diagnose w.current (.missing k.name w.current.mention hint)) := by
  rw [expect]
  split
  · split
    · rename_i hs
      rw [hs]
      rfl
    · rename_i hs
      rw [hs]
      rfl
  · rfl

/-- `skipNewlines` as a chain of binds. -/
theorem skipNewlines_eq_bind (w : Window) :
    w.skipNewlines =
      if hk : w.current.kind = .newline then
        w.step (current_ne_eof hk rfl) >>= fun ⟨w', h⟩ =>
          w'.skipNewlines >>= fun w'' => pure ⟨w''.1, Nat.le_of_lt (Nat.lt_of_le_of_lt w''.2 h)⟩
      else pure ⟨w, Nat.le.refl⟩ := by
  rw [skipNewlines]
  split
  · split
    · rename_i hs
      rw [hs]
      split
      · rename_i hr
        simp only [bind, Except.bind, hr]
        rfl
      · rename_i hr
        simp only [bind, Except.bind, hr]
    · rename_i hs
      rw [hs]
      rfl
  · rfl

/-- `lineBreak` as a chain of binds. -/
theorem lineBreak_eq_bind (w : Window) :
    w.lineBreak =
      (w.expect .newline rfl (some "put each statement on its own line") >>= fun (_, ⟨w', h⟩) =>
        w'.skipNewlines >>= fun w'' => pure ⟨w''.1, Nat.lt_of_le_of_lt w''.2 h⟩) := by
  rw [lineBreak]
  split
  · rename_i hs
    rw [hs]
    split
    · rename_i hr
      simp only [bind, Except.bind, hr]
      rfl
    · rename_i hr
      simp only [bind, Except.bind, hr]
  · rename_i hs
    rw [hs]
    rfl

theorem start_file {s : TokenStream} (h : Window.start s = .ok w) : w.stream.file = s.file := by
  unfold Window.start at h
  split at h
  · simp at h
  · rename_i t s₁ hs
    split at h
    · simp at h
    · rename_i u s₂ hs₁
      simp only [Except.ok.injEq] at h
      subst h
      have h₁ := TokenStream.next_file s
      have h₂ := TokenStream.next_file s₁
      rw [hs] at h₁
      rw [hs₁] at h₂
      exact h₂.trans h₁

/-- The first window fails only at the stream's fault. -/
theorem start_error {s : TokenStream} (ht : s.tokens = (ts, e)) (h : Window.start s = .error d) :
    e = some d := by
  unfold Window.start at h
  split at h
  · rename_i d' s₁ hs
    simp only [Except.error.injEq] at h
    subst h
    rw [TokenStream.tokens_of_next_error hs] at ht
    simp only [Prod.mk.injEq] at ht
    exact ht.2.symm
  · rename_i t s₁ hs
    split at h
    · rename_i d' s₂ hs₁
      simp only [Except.error.injEq] at h
      subst h
      by_cases hk : t.kind = .eof
      · rw [TokenStream.next_after_eof hs hk] at hs₁
        simp at hs₁
      · rw [TokenStream.tokens_of_next_token hs hk, TokenStream.tokens_of_next_error hs₁] at ht
        simp only [Prod.mk.injEq] at ht
        exact ht.2.symm
    · simp at h

end Window

theorem bind_eq_error {ε α β : Type} {x : Except ε α} {f : α → Except ε β} {d : ε} :
    x >>= f = .error d ↔ x = .error d ∨ ∃ a, x = .ok a ∧ f a = .error d := by
  cases x with
  | error d' => simp [bind, Except.bind]
  | ok a => simp [bind, Except.bind]

/-! ## Scans and where a run can stop -/

/-- What the scan of a source gives: its file, its tokens, and the fault after them, or `none`
when the tokens run to the end of the text. -/
structure Scan where
  file : String
  tokens : List Token
  last : Option Diagnostic

namespace Scan

variable (S : Scan)

/-- The window stands at the token at index `j` of the scan. -/
def At (j : Nat) (w : Window) : Prop :=
  w.Shows (S.tokens.drop j) S.last ∧ w.stream.file = S.file

/-- Where a run from the token at index `j` may end: at the scan's fault, or at a problem found
while reading, on a token at index `j` or later; or with its window at index `j` or later. -/
def Reach {β γ : Type} [Windowed β γ] (j : Nat) : Except Diagnostic β → Prop
  | .error d => S.last = some d ∨ d.problem.foundReading = true ∧
      ∃ i t, j ≤ i ∧ S.tokens[i]? = some t ∧ d.location = some ⟨S.file, t.line, t.column⟩
  | .ok b => ∃ i, j ≤ i ∧ S.At i (Windowed.window b)

variable {S} {β γ β' γ' : Type} [Windowed β γ] [Windowed β' γ'] {w v : Window} {i j : Nat}

theorem At.drop_eq (h : S.At j w) : S.tokens.drop j = w.current :: S.tokens.drop (j + 1) := by
  obtain ⟨rest, hrest⟩ := h.1.exists_cons
  rw [List.drop_add_one_eq_tail_drop, hrest, List.tail_cons]

theorem At.getElem? (h : S.At j w) : S.tokens[j]? = some w.current := by
  have := congrArg List.head? h.drop_eq
  rwa [List.head?_drop, List.head?_cons] at this

theorem At.advance (h : S.At j w) (hk : w.current.kind ≠ .eof) (ha : w.advance = .ok v) :
    S.At (j + 1) v :=
  ⟨(h.drop_eq ▸ h.1).advance hk ha, (Window.advance_file ha).trans h.2⟩

/-- A window stands at one index only. -/
theorem At.unique (hi : S.At i w) (hj : S.At j w) : i = j := by
  have hl := hi.1.unique hj.1
  have hne : S.tokens.drop i ≠ [] := by
    rw [hi.drop_eq]
    exact List.cons_ne_nil _ _
  have hi' : i < S.tokens.length := by
    rw [Ne, List.drop_eq_nil_iff] at hne
    omega
  have hj' : j < S.tokens.length := by
    have := congrArg List.length hl
    simp only [List.length_drop] at this
    omega
  have := congrArg List.length hl
  simp only [List.length_drop] at this
  omega

theorem Reach.error_cases {d : Diagnostic} (h : S.Reach j (.error d : Except Diagnostic β)) :
    S.last = some d ∨ d.problem.foundReading = true :=
  h.imp_right And.left

theorem Reach.mono {r : Except Diagnostic β} (hij : i ≤ j) (h : S.Reach j r) : S.Reach i r := by
  cases r with
  | error d =>
    rcases h with h | ⟨hp, i', t, hi', ht, hl⟩
    · exact .inl h
    · exact .inr ⟨hp, i', t, Nat.le_trans hij hi', ht, hl⟩
  | ok b =>
    obtain ⟨i', hi', hat⟩ := h
    exact ⟨i', Nat.le_trans hij hi', hat⟩

/-- A run that stops where its first part stops, or goes on from where that part left its
window. -/
theorem Reach.bind {x : Except Diagnostic β} {g : β → Except Diagnostic β'} (hx : S.Reach j x)
    (hg : ∀ b i, x = .ok b → j ≤ i → S.At i (Windowed.window b) → S.Reach i (g b)) :
    S.Reach j (x >>= g) := by
  cases x with
  | error d => exact hx
  | ok b =>
    obtain ⟨i, hi, hat⟩ := hx
    exact (hg b i rfl hi hat).mono hi

/-- The same, for a second part that may still report a token of the first. -/
theorem Reach.bind_from {x : Except Diagnostic β} {g : β → Except Diagnostic β'}
    (hx : S.Reach j x)
    (hg : ∀ b i, x = .ok b → j ≤ i → S.At i (Windowed.window b) → S.Reach j (g b)) :
    S.Reach j (x >>= g) := by
  cases x with
  | error d => exact hx
  | ok b =>
    obtain ⟨i, hi, hat⟩ := hx
    exact hg b i rfl hi hat

theorem Reach.pure {b : β} (h : S.At i (Windowed.window b)) (hji : j ≤ i) :
    S.Reach j (pure b : Except Diagnostic β) :=
  ⟨i, hji, h⟩

/-- A problem found while reading a token at index `i` or later. -/
theorem Reach.throw_at {t : Token} {p : Problem} (hf : w.stream.file = S.file)
    (ht : S.tokens[i]? = some t) (hji : j ≤ i) (hp : p.foundReading = true) :
    S.Reach j (throw (w.diagnose t p) : Except Diagnostic β) :=
  .inr ⟨hp, i, t, hji, ht, by simp [Window.diagnose, Window.locate, hf]⟩

theorem At.throw_current {p : Problem} (h : S.At j w) (hp : p.foundReading = true) :
    S.Reach j (throw (w.diagnose w.current p) : Except Diagnostic β) :=
  Reach.throw_at h.2 h.getElem? (Nat.le_refl j) hp

/-- A move goes on to the next index, or stops at the scan's fault. -/
theorem At.step (h : S.At j w) (hk : w.current.kind ≠ .eof) : S.Reach j (w.step hk) := by
  unfold Window.step
  split
  · rename_i v hv
    exact ⟨j + 1, Nat.le_succ j, h.advance hk hv⟩
  · rename_i d hd
    exact .inl (h.1.advance_error hk hd)

theorem At.expect {k : Kind} (hk : k.isEnd = false) (hint : Option String) (h : S.At j w) :
    S.Reach j (w.expect k hk hint) := by
  unfold Window.expect
  split
  · split
    · rename_i v hv
      have hr := h.step (Window.current_ne_eof ‹_› hk)
      rw [hv] at hr
      exact hr
    · rename_i d hd
      have hr := h.step (Window.current_ne_eof ‹_› hk)
      rw [hd] at hr
      exact hr
  · exact h.throw_current rfl

/-- A successful `expect` returns the current token and moves on by one. -/
theorem At.expect_ok {k : Kind} {hk : k.isEnd = false} {hint : Option String} {t : Token}
    {v : w.After} (h : S.At j w) (hx : w.expect k hk hint = .ok (t, v)) :
    t = w.current ∧ S.At (j + 1) v.1 := by
  rw [Window.expect_eq_bind] at hx
  split at hx
  · rename_i hc
    rcases hs : w.step (Window.current_ne_eof hc hk) with d | v'
    · rw [hs] at hx
      cases hx
    · rw [hs] at hx
      simp only [bind, Except.bind, pure, Except.pure, Except.ok.injEq, Prod.mk.injEq] at hx
      obtain ⟨rfl, rfl⟩ := hx
      exact ⟨rfl, h.advance (Window.current_ne_eof hc hk) (Window.step_eq_ok hs)⟩
  · cases hx

theorem At.skipNewlines (h : S.At j w) : S.Reach j w.skipNewlines := by
  induction w using Window.skipNewlines.induct generalizing j with
  | case1 w hk w₁ h₁ hstep w₂ hrec ih =>
    rw [Window.skipNewlines_eq_bind, dif_pos hk]
    refine Reach.bind (h.step _) ?_
    rintro ⟨v, hv⟩ i hs - hat
    rw [hstep] at hs
    cases hs
    exact Reach.bind (ih hat) fun _ _ _ _ hat => Reach.pure hat (Nat.le_refl _)
  | case2 w hk w₁ h₁ hstep d hrec ih =>
    rw [Window.skipNewlines_eq_bind, dif_pos hk]
    refine Reach.bind (h.step _) ?_
    rintro ⟨v, hv⟩ i hs - hat
    rw [hstep] at hs
    cases hs
    exact Reach.bind (ih hat) fun _ _ _ _ hat => Reach.pure hat (Nat.le_refl _)
  | case3 w hk d hstep =>
    rw [Window.skipNewlines_eq_bind, dif_pos hk, hstep]
    have hr := h.step (Window.current_ne_eof hk rfl)
    rw [hstep] at hr
    exact hr
  | case4 w hk =>
    rw [Window.skipNewlines_eq_bind, dif_neg hk]
    exact Reach.pure h (Nat.le_refl _)

theorem At.lineBreak (h : S.At j w) : S.Reach j w.lineBreak := by
  rw [Window.lineBreak_eq_bind]
  exact Reach.bind (h.expect rfl _) fun _ _ _ _ hat =>
    Reach.bind hat.skipNewlines fun _ _ _ _ hat => Reach.pure hat (Nat.le_refl _)

/-! ## The readers -/

variable {sc : Scope}

theorem Sign.read?_reach (h : S.At j w) : S.Reach j (Sign.read? w) := by
  unfold Sign.read?
  split
  · exact Reach.bind (h.step _) fun _ _ _ _ hat => Reach.pure hat (Nat.le_refl _)
  · exact Reach.pure h (Nat.le_refl _)

theorem Factor.read_reach (h : S.At j w) : S.Reach j (Factor.read sc w) := by
  unfold Factor.read
  refine Reach.bind (Sign.read?_reach h) ?_
  rintro ⟨sg, v, hv⟩ i - - hat
  dsimp only at hat ⊢
  split
  · exact Reach.bind (hat.step _) fun _ _ _ _ hat => Reach.pure hat (Nat.le_refl _)
  · split
    · exact Reach.bind (hat.step _) fun _ _ _ _ hat => Reach.pure hat (Nat.le_refl _)
    · exact hat.throw_current rfl
  · exact hat.throw_current rfl

theorem Term.readRest_reach (h : S.At j w) : S.Reach j (Term.readRest sc w) := by
  induction w using Term.readRest.induct generalizing j with
  | case1 w op hop ih =>
    rw [Term.readRest]
    split
    · refine Reach.bind (h.step _) ?_
      rintro ⟨v₁, hv₁⟩ i₁ - - hat₁
      refine Reach.bind (Factor.read_reach hat₁) ?_
      rintro ⟨f, v₂, hv₂⟩ i₂ - - hat₂
      exact Reach.bind (ih v₁ hv₁ v₂ hv₂ hat₂) fun _ _ _ _ hat => Reach.pure hat (Nat.le_refl _)
    · rename_i hnone
      rw [hop] at hnone
      cases hnone
  | case2 w hnone =>
    rw [Term.readRest]
    split
    · rename_i op hop
      rw [hnone] at hop
      cases hop
    · exact Reach.pure h (Nat.le_refl _)


theorem Term.read_reach (h : S.At j w) : S.Reach j (Term.read sc w) :=
  Reach.bind (Factor.read_reach h) fun _ _ _ _ hat =>
    Reach.bind (Term.readRest_reach hat) fun _ _ _ _ hat => Reach.pure hat (Nat.le_refl _)

theorem Expr.readRest_reach (h : S.At j w) : S.Reach j (Expr.readRest sc w) := by
  induction w using Expr.readRest.induct generalizing j with
  | case1 w op hop ih =>
    rw [Expr.readRest]
    split
    · refine Reach.bind (h.step _) ?_
      rintro ⟨v₁, hv₁⟩ i₁ - - hat₁
      refine Reach.bind (Term.read_reach hat₁) ?_
      rintro ⟨t, v₂, hv₂⟩ i₂ - - hat₂
      exact Reach.bind (ih v₁ hv₁ v₂ hv₂ hat₂) fun _ _ _ _ hat => Reach.pure hat (Nat.le_refl _)
    · rename_i hnone
      rw [hop] at hnone
      cases hnone
  | case2 w hnone =>
    rw [Expr.readRest]
    split
    · rename_i op hop
      rw [hnone] at hop
      cases hop
    · exact Reach.pure h (Nat.le_refl _)

theorem Expr.read_reach (h : S.At j w) : S.Reach j (Expr.read sc w) :=
  Reach.bind (Term.read_reach h) fun _ _ _ _ hat =>
    Reach.bind (Expr.readRest_reach hat) fun _ _ _ _ hat => Reach.pure hat (Nat.le_refl _)

theorem Comparison.readRest_reach (h : S.At j w) : S.Reach j (Comparison.readRest sc w) := by
  induction w using Comparison.readRest.induct generalizing j with
  | case1 w rel hrel ih =>
    rw [Comparison.readRest]
    split
    · refine Reach.bind (h.step _) ?_
      rintro ⟨v₁, hv₁⟩ i₁ - - hat₁
      refine Reach.bind (Expr.read_reach hat₁) ?_
      rintro ⟨x, v₂, hv₂⟩ i₂ - - hat₂
      exact Reach.bind (ih v₁ hv₁ v₂ hv₂ hat₂) fun _ _ _ _ hat => Reach.pure hat (Nat.le_refl _)
    · rename_i hnone
      rw [hrel] at hnone
      cases hnone
  | case2 w hnone =>
    rw [Comparison.readRest]
    split
    · rename_i rel hrel
      rw [hnone] at hrel
      cases hrel
    · exact Reach.pure h (Nat.le_refl _)

theorem Comparison.read_reach (h : S.At j w) : S.Reach j (Comparison.read sc w) := by
  unfold Comparison.read
  refine Reach.bind (Expr.read_reach h) ?_
  rintro ⟨l, v, hv⟩ i - - hat
  dsimp only at hat ⊢
  split
  · exact Reach.bind (hat.step _) fun _ _ _ _ hat =>
      Reach.bind (Expr.read_reach hat) fun _ _ _ _ hat =>
        Reach.bind (Comparison.readRest_reach hat) fun _ _ _ _ hat => Reach.pure hat (Nat.le_refl _)
  · exact hat.throw_current rfl

/-- The reader of `IF` and `WHILE` stops on the scan, given that the reader of the block inside it
does. -/
theorem Stmt.readGuarded_reach {sc : Scope} (g : Guard) (hk : w.current.kind = g.keyword)
    (hblock : ∀ {sc : Scope} {v : Window} {i : Nat}, v.size < w.size → S.At i v →
      S.Reach i (Stmt.readBlock g.stop g.stopHint sc v))
    (h : S.At j w) : S.Reach j (Stmt.readGuarded (fun x => x) Stmt.readBlock g sc w hk) := by
  unfold Stmt.readGuarded
  refine Reach.bind (h.step _) ?_
  rintro ⟨v₁, hv₁⟩ i₁ - - hat₁
  refine Reach.bind (Comparison.read_reach hat₁) ?_
  rintro ⟨c, v₂, hv₂⟩ i₂ - - hat₂
  refine Reach.bind (hat₂.expect g.sep_isEnd _) ?_
  rintro ⟨th, v₃, hv₃⟩ i₃ - - hat₃
  refine Reach.bind hat₃.lineBreak ?_
  rintro ⟨v₄, hv₄⟩ i₄ - - hat₄
  have hlt : v₄.size < w.size := by
    dsimp only at hv₂ hv₃ hv₄
    omega
  exact Reach.bind (hblock hlt hat₄) fun _ _ _ _ hat =>
    Reach.bind (hat.expect g.stop_isEnd _) fun _ _ _ _ hat =>
      Reach.bind hat.lineBreak fun _ _ _ _ hat => Reach.pure hat (Nat.le_refl _)

/-- The statement readers, for windows smaller than `n`; strong induction on `n` carries the
mutual recursion of `Stmt.read` and `Stmt.readBlock`. -/
theorem stmt_reach_lt (n : Nat) :
    (∀ {sc : Scope} {w : Window} {j : Nat}, w.size < n → S.At j w →
        S.Reach j (Stmt.read sc w)) ∧
    (∀ {stop : Kind} {hint : String} {sc : Scope} {w : Window} {j : Nat}, w.size < n →
        S.At j w → S.Reach j (Stmt.readBlock stop hint sc w)) := by
  induction n with
  | zero =>
    exact ⟨fun hn => absurd hn (Nat.not_lt_zero _), fun hn => absurd hn (Nat.not_lt_zero _)⟩
  | succ n ih =>
    have hread : ∀ {sc : Scope} {w : Window} {j : Nat}, w.size < n + 1 → S.At j w →
        S.Reach j (Stmt.read sc w) := by
      intro sc w j hsize h
      rw [Stmt.read]
      split
      · -- PRINT, then a string or an expression
        refine Reach.bind (h.step _) ?_
        rintro ⟨v₁, hv₁⟩ i₁ - - hat₁
        dsimp only
        split
        · exact Reach.bind (hat₁.step _) fun _ _ _ _ hat =>
            Reach.bind hat.lineBreak fun _ _ _ _ hat => Reach.pure hat (Nat.le_refl _)
        · exact Reach.bind (Expr.read_reach hat₁) fun _ _ _ _ hat =>
            Reach.bind hat.lineBreak fun _ _ _ _ hat => Reach.pure hat (Nat.le_refl _)
      · -- IF and WHILE: the block starts at a smaller window
        rename_i hk
        exact Stmt.readGuarded_reach .ifThen hk (fun hv => ih.2 (by omega)) h
      · rename_i hk
        exact Stmt.readGuarded_reach .whileRepeat hk (fun hv => ih.2 (by omega)) h
      · -- LABEL: a second declaration is reported at the name, behind the window
        refine Reach.bind (h.step _) ?_
        rintro ⟨v₁, hv₁⟩ i₁ - - hat₁
        refine Reach.bind_from (hat₁.expect rfl _) ?_
        rintro ⟨t, v₂, hv₂⟩ i₂ hx hi₂ hat₂
        dsimp only
        have ht : t = v₁.current := Window.expect_eq_ok hx
        split
        · exact Reach.throw_at hat₂.2 (ht ▸ hat₁.getElem?) (Nat.le_refl _) rfl
        · refine Reach.mono hi₂ ?_
          exact Reach.bind hat₂.lineBreak fun _ _ _ _ hat => Reach.pure hat (Nat.le_refl _)
      · -- GOTO
        exact Reach.bind (h.step _) fun _ _ _ _ hat =>
          Reach.bind (hat.expect rfl _) fun _ _ _ _ hat =>
            Reach.bind hat.lineBreak fun _ _ _ _ hat => Reach.pure hat (Nat.le_refl _)
      · -- LET
        exact Reach.bind (h.step _) fun _ _ _ _ hat =>
          Reach.bind (hat.expect rfl _) fun _ _ _ _ hat =>
            Reach.bind (hat.expect rfl _) fun _ _ _ _ hat =>
              Reach.bind (Expr.read_reach hat) fun _ _ _ _ hat =>
                Reach.bind hat.lineBreak fun _ _ _ _ hat => Reach.pure hat (Nat.le_refl _)
      · -- INPUT
        exact Reach.bind (h.step _) fun _ _ _ _ hat =>
          Reach.bind (hat.expect rfl _) fun _ _ _ _ hat =>
            Reach.bind hat.lineBreak fun _ _ _ _ hat => Reach.pure hat (Nat.le_refl _)
      · exact h.throw_current rfl
    refine ⟨hread, ?_⟩
    intro stop hint sc w j hsize h
    rw [Stmt.readBlock]
    split
    · exact Reach.pure h (Nat.le_refl _)
    · split
      · exact h.throw_current rfl
      · refine Reach.bind (hread hsize h) ?_
        rintro ⟨s, sc₁, v₁, hv₁⟩ i₁ - - hat₁
        have hlt : v₁.size < n := by omega
        exact Reach.bind (ih.2 hlt hat₁) fun _ _ _ _ hat => Reach.pure hat (Nat.le_refl _)

theorem Stmt.read_reach (h : S.At j w) : S.Reach j (Stmt.read sc w) :=
  (stmt_reach_lt (w.size + 1)).1 (Nat.lt_succ_self _) h

theorem Stmt.readBlock_reach {stop : Kind} {hint : String} (h : S.At j w) :
    S.Reach j (Stmt.readBlock stop hint sc w) :=
  (stmt_reach_lt (w.size + 1)).2 (Nat.lt_succ_self _) h

theorem Program.readFrom_reach (h : S.At j w) : S.Reach j (Program.readFrom sc w) := by
  induction sc, w using Program.readFrom.induct generalizing j with
  | case1 sc w heof =>
    rw [Program.readFrom, if_pos heof]
    exact Reach.pure h (Nat.le_refl _)
  | case2 sc w hne ih =>
    rw [Program.readFrom, if_neg hne]
    refine Reach.bind (Stmt.read_reach h) ?_
    rintro ⟨s, sc₁, v₁, hv₁⟩ i₁ - - hat₁
    exact Reach.bind (ih sc₁ v₁ hv₁ hat₁) fun _ _ _ _ hat => Reach.pure hat (Nat.le_refl _)


theorem start_at {s : TokenStream} (ht : s.tokens = (S.tokens, S.last))
    (hf : s.file = S.file) (hst : Window.start s = .ok w) : S.At 0 w := by
  refine ⟨?_, (Window.start_file hst).trans hf⟩
  rw [List.drop_zero]
  exact Window.shows_start ht hst

/-- The first window stands at index `0`, or the scan meets its fault within two tokens. -/
theorem start_reach {s : TokenStream} (ht : s.tokens = (S.tokens, S.last))
    (hf : s.file = S.file) : S.Reach 0 (Window.start s) := by
  rcases hst : Window.start s with d | w
  · exact .inl (Window.start_error ht hst)
  · exact ⟨0, Nat.le_refl 0, start_at ht hf hst⟩

end Scan

/-- A parse fails at the scan's fault, at a problem found while reading, or, once the whole
program is read, at a jump to a label that no statement declares. -/
theorem Program.parse_eq_error {p : Precision} {file source : String} {d : Diagnostic}
    (h : Program.parse p file source = .error d) :
    (TokenStream.start file source).tokens.2 = some d ∨ d.problem.foundReading = true ∨
      ∃ (w : Window) (w₁ : w.NotBefore) (prog : Program) (sc : Scope) (w₂ : w₁.1.NotBefore)
        (n : String) (l : Location),
        Window.start (TokenStream.start file source) = .ok w ∧ w.skipNewlines = .ok w₁ ∧
        Program.readFrom (Scope.initial p) w₁.1 = .ok (prog, sc, w₂) ∧
        sc.danglingJump? = some (n, l) ∧ d.problem = .missingLabel n := by
  let S : Scan :=
    ⟨file, (TokenStream.start file source).tokens.1, (TokenStream.start file source).tokens.2⟩
  have hstart : S.Reach 0 (Window.start (TokenStream.start file source)) := Scan.start_reach rfl rfl
  rw [Program.parse] at h
  -- The parse fails while opening its window, passing the first empty lines, reading the
  -- statements, or at the jumps.
  rcases bind_eq_error.1 h with hs | ⟨w, hs, h⟩
  · rw [hs] at hstart
    exact hstart.error_cases.imp_right .inl
  rw [hs] at hstart
  obtain ⟨i, -, hat⟩ := hstart
  rw [Windowed.window_window] at hat
  have hskip := hat.skipNewlines
  rcases bind_eq_error.1 h with hs' | ⟨⟨w₁, h₁⟩, hs', h⟩
  · rw [hs'] at hskip
    exact hskip.error_cases.imp_right .inl
  rw [hs'] at hskip
  obtain ⟨i₁, -, hat₁⟩ := hskip
  rw [Windowed.window_subtype] at hat₁
  have hread : S.Reach i₁ (Program.readFrom (Scope.initial p) w₁) :=
    Scan.Program.readFrom_reach hat₁
  rcases bind_eq_error.1 h with hr | ⟨⟨prog, sc, w₂, h₂⟩, hr, h⟩
  · rw [hr] at hread
    exact hread.error_cases.imp_right .inl
  dsimp only at h
  split at h
  · rename_i name l hdangling
    cases h
    exact .inr (.inr ⟨w, ⟨w₁, h₁⟩, prog, sc, ⟨w₂, h₂⟩, name, l, hs, hs', hr, hdangling, rfl⟩)
  · cases h

end TinyBasic
