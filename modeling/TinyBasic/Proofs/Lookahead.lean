import TinyBasic.Proofs.Grammar
/-!
# The window as a token list

The parser never sees a list of tokens: it sees a window of two tokens over a stream that
scans on demand. This module ties the two views together. `TokenStream.tokens` is the list the
stream gives up to the end of the text, with the fault that stops it, if any; `Window.Shows w
ts e` says that the tokens the window will make current, from the current one on, are `ts`,
followed by the fault `e`.

Every move of the window takes the head off that list (`Window.Shows.advance`), and a move
fails only when the list ends in a fault (`Window.Shows.advance_ok`). The moves the parser
makes, taking a token of a given kind and passing line breaks, are then described by the
grammar's `BlankOf` and `BreakOf`, in both directions: what they pass is a run of line breaks,
and they pass every run that the next token does not extend.
-/

namespace TinyBasic

theorem Kind.ofWord_ne_eof (w : String) : Kind.ofWord w ≠ .eof := by
  unfold Kind.ofWord
  split
  · rename_i k hk
    obtain ⟨l₁, l₂, hl, -⟩ := List.lookup_eq_some_iff.1 hk
    have hmem : (w, k) ∈ Kind.keywords := by
      rw [hl]
      exact List.mem_append_right _ List.mem_cons_self
    have hall : ∀ p ∈ Kind.keywords, p.2 ≠ .eof := by decide
    exact hall _ hmem
  · simp

/-- A result of the classifier that is not the end token. -/
def Found.NotEnd (f : Found) : Prop :=
  ∀ k text n, f = .token k text n → k ≠ .eof

namespace Found

theorem notEnd_ite {c : Prop} [Decidable c] {a b : Found} (ha : a.NotEnd) (hb : b.NotEnd) :
    (if c then a else b).NotEnd := by
  split
  · exact ha
  · exact hb

theorem notEnd_token {k : Kind} {text : String} {n : Nat} (hk : k.isEnd = false) :
    (Found.token k text n).NotEnd := by
  rintro k' text' n' h
  cases h
  exact Kind.ne_eof hk

theorem notEnd_fault {p : Problem} {n : Nat} : (Found.fault p n).NotEnd := by
  rintro k text n' h
  cases h

theorem notEnd_pair {ch : Char} {single double : Kind} {r : List Char} (hs : single.isEnd = false)
    (hd : double.isEnd = false) : (Found.pair ch single double r).NotEnd := by
  unfold Found.pair
  split
  · exact notEnd_token hd
  · exact notEnd_token hs

theorem notEnd_string {r : List Char} : (Found.string r).NotEnd := by
  unfold Found.string
  dsimp only
  split
  · exact notEnd_token rfl
  · exact notEnd_fault
  · exact notEnd_fault

theorem notEnd_number {d : Char} {r : List Char} : (Found.number d r).NotEnd := by
  unfold Found.number
  dsimp only
  split
  · exact notEnd_ite notEnd_fault (notEnd_token rfl)
  · exact notEnd_token rfl

theorem notEnd_word {l : Char} {r : List Char} : (Found.word l r).NotEnd := by
  rintro k text n h
  unfold Found.word at h
  cases h
  exact Kind.ofWord_ne_eof _

/-- The scanner makes no end token out of a character. -/
theorem notEnd_at (ch : Char) (r : List Char) : (Found.at ch r).NotEnd := by
  unfold Found.at
  -- One step down the classifier's chain of tests at a time.
  repeat' apply notEnd_ite
  all_goals
    first
    | exact notEnd_token rfl
    | exact notEnd_pair rfl rfl
    | exact notEnd_string
    | exact notEnd_number
    | exact notEnd_word
    | exact notEnd_fault
    | skip
  split
  · exact notEnd_token rfl
  · exact notEnd_fault

end Found

/-! ## The stream's token list -/

theorem Cursor.skipGap_of_rest_nil {c : Cursor} (h : c.rest = []) : c.skipGap = c := by
  simp [Cursor.skipGap, Cursor.skipWhile, Cursor.passComment, Cursor.skip, h]

namespace TokenStream

variable {s s' : TokenStream} {t : Token} {d : Diagnostic}

theorem tokens_of_next_error (h : s.next = (.error d, s')) : s.tokens = ([], some d) := by
  rw [tokens]
  split
  · rename_i d' _ hd
    rw [h] at hd
    simp only [Prod.mk.injEq, Except.error.injEq] at hd
    rw [hd.1]
  · rename_i t' _ ht
    rw [h] at ht
    simp at ht

theorem tokens_of_next_eof (h : s.next = (.ok t, s')) (hk : t.kind = .eof) :
    s.tokens = ([t], none) := by
  rw [tokens]
  split
  · rename_i d' _ hd
    rw [h] at hd
    simp at hd
  · rename_i t' s'' ht
    rw [h] at ht
    simp only [Prod.mk.injEq, Except.ok.injEq] at ht
    obtain ⟨rfl, rfl⟩ := ht
    simp [hk]

theorem tokens_of_next_token (h : s.next = (.ok t, s')) (hk : t.kind ≠ .eof) :
    s.tokens = (t :: s'.tokens.1, s'.tokens.2) := by
  rw [tokens]
  split
  · rename_i d' _ hd
    rw [h] at hd
    simp at hd
  · rename_i t' s'' ht
    rw [h] at ht
    simp only [Prod.mk.injEq, Except.ok.injEq] at ht
    obtain ⟨rfl, rfl⟩ := ht
    simp [hk]

/-- Once the stream has given the end token it stands at the end, and gives the same token
again. -/
theorem next_after_eof (h : s.next = (.ok t, s')) (hk : t.kind = .eof) :
    s'.next = (.ok t, s') := by
  unfold next scanAt at h
  split at h
  · rename_i hr
    simp only [Prod.mk.injEq, Except.ok.injEq] at h
    obtain ⟨rfl, rfl⟩ := h
    unfold next scanAt
    simp [Cursor.skipGap_of_rest_nil hr, hr]
  · rename_i ch r hr
    split at h
    · simp only [Prod.mk.injEq, Except.ok.injEq] at h
      obtain ⟨rfl, rfl⟩ := h
      exact absurd hk (Found.notEnd_at ch r _ _ _ ‹_›)
    · simp at h

end TokenStream

/-! ## The window's token list -/

namespace Window

/-- The window will make current the tokens `ts`, in order, up to the end of the text, and
the stream meets the fault `e` after them, if `e` is one. Once the end token is in view the
list stops there, and the stream behind it can still be asked for a token. -/
def Shows (w : Window) (ts : List Token) (e : Option Diagnostic) : Prop :=
  if w.current.kind = .eof then ts = [w.current] ∧ e = none
  else if w.peek.kind = .eof then
    ts = [w.current, w.peek] ∧ e = none ∧ ∃ t s, w.stream.next = (.ok t, s)
  else ∃ rest, ts = w.current :: w.peek :: rest ∧ w.stream.tokens = (rest, e)

variable {w : Window} {ts rest : List Token} {e : Option Diagnostic} {t : Token}

theorem Shows.exists_cons (h : w.Shows ts e) : ∃ rest, ts = w.current :: rest := by
  unfold Shows at h
  split at h
  · exact ⟨[], h.1⟩
  · split at h
    · exact ⟨[w.peek], h.1⟩
    · obtain ⟨rest, hts, -⟩ := h
      exact ⟨_, hts⟩

theorem Shows.current_eq (h : w.Shows (t :: ts) e) : w.current = t := by
  obtain ⟨rest, hts⟩ := h.exists_cons
  exact (List.cons.inj hts).1.symm

theorem Shows.of_eof (h : w.Shows ts e) (hk : w.current.kind = .eof) :
    ts = [w.current] ∧ e = none := by
  unfold Shows at h
  rw [if_pos hk] at h
  exact h

/-- A move takes the current token off the list. -/
theorem Shows.advance {w' : Window} (h : w.Shows (w.current :: ts) e)
    (hk : w.current.kind ≠ .eof) (ha : w.advance = .ok w') : w'.Shows ts e := by
  unfold Window.advance at ha
  split at ha
  · rename_i t s hs
    simp only [Except.ok.injEq] at ha
    subst ha
    unfold Shows at h ⊢
    rw [if_neg hk] at h
    by_cases hp : w.peek.kind = .eof
    · rw [if_pos hp] at h
      obtain ⟨hts, rfl, -⟩ := h
      simp only [List.cons.injEq, true_and] at hts
      exact if_pos hp ▸ ⟨hts, rfl⟩
    · rw [if_neg hp] at h
      obtain ⟨rest, hts, htok⟩ := h
      simp only [List.cons.injEq, true_and] at hts
      subst hts
      show (if w.peek.kind = .eof then _ else _)
      rw [if_neg hp]
      by_cases ht : t.kind = .eof
      · rw [TokenStream.tokens_of_next_eof hs ht] at htok
        simp only [Prod.mk.injEq] at htok
        obtain ⟨rfl, rfl⟩ := htok
        rw [if_pos ht]
        exact ⟨rfl, rfl, _, _, TokenStream.next_after_eof hs ht⟩
      · rw [TokenStream.tokens_of_next_token hs ht] at htok
        simp only [Prod.mk.injEq] at htok
        obtain ⟨rfl, rfl⟩ := htok
        rw [if_neg ht]
        exact ⟨_, rfl, rfl⟩
  · simp at ha

/-- A move fails only when the list ends in a fault. -/
theorem Shows.advance_ok (h : w.Shows ts none) (hk : w.current.kind ≠ .eof) :
    ∃ w', w.advance = .ok w' := by
  unfold Shows at h
  rw [if_neg hk] at h
  unfold Window.advance
  split
  · exact ⟨_, rfl⟩
  · rename_i d s hs
    split at h
    · obtain ⟨-, -, t, s', hs'⟩ := h
      rw [hs'] at hs
      simp at hs
    · obtain ⟨rest, -, htok⟩ := h
      rw [TokenStream.tokens_of_next_error hs] at htok
      simp at htok

theorem step_eq_ok {hk : w.current.kind ≠ .eof} {w' : w.After} (h : w.step hk = .ok w') :
    w.advance = .ok w'.1 := by
  unfold step at h
  split at h
  · rename_i w'' hw
    simp only [Except.ok.injEq] at h
    subst h
    exact hw
  · simp at h

theorem Shows.step (h : w.Shows (w.current :: ts) e) {hk : w.current.kind ≠ .eof} {w' : w.After}
    (hs : w.step hk = .ok w') : w'.1.Shows ts e :=
  h.advance hk (step_eq_ok hs)

theorem Shows.step_ok (h : w.Shows (w.current :: ts) none) (hk : w.current.kind ≠ .eof) :
    ∃ w' : w.After, w.step hk = .ok w' ∧ w'.1.Shows ts none := by
  obtain ⟨w', hw'⟩ := h.advance_ok hk
  refine ⟨⟨w', advance_size_lt hk hw'⟩, ?_, h.advance hk hw'⟩
  unfold Window.step
  split
  · rename_i w'' hw''
    rw [hw'] at hw''
    cases hw''
    rfl
  · rename_i d hd
    rw [hw'] at hd
    cases hd

/-- Taking a token of kind `k` takes the head of the list, which is of that kind. -/
theorem Shows.expect {k : Kind} {hk : k.isEnd = false} {hint : Option String} {w' : w.After}
    (h : w.Shows ts e) (hx : w.expect k hk hint = .ok (t, w')) :
    ∃ rest, ts = t :: rest ∧ t.kind = k ∧ w'.1.Shows rest e := by
  obtain ⟨rest, rfl⟩ := h.exists_cons
  unfold Window.expect at hx
  split at hx
  · rename_i hcur
    split at hx
    · rename_i w'' hs
      simp only [Except.ok.injEq, Prod.mk.injEq] at hx
      obtain ⟨rfl, rfl⟩ := hx
      exact ⟨rest, rfl, hcur, h.step hs⟩
    · simp at hx
  · simp at hx

theorem Shows.expect_ok {k : Kind} (hk : k.isEnd = false) (hint : Option String)
    (h : w.Shows (t :: rest) none) (ht : t.kind = k) :
    ∃ w' : w.After, w.expect k hk hint = .ok (t, w') ∧ w'.1.Shows rest none := by
  have hcur := h.current_eq
  subst hcur
  obtain ⟨w', hs, hw'⟩ := h.step_ok (current_ne_eof ht hk)
  refine ⟨w', ?_, hw'⟩
  unfold Window.expect
  rw [dif_pos ht]
  split
  · rename_i w'' hs'
    rw [hs] at hs'
    cases hs'
    rfl
  · rename_i d hd
    rw [hs] at hd
    cases hd

/-- What `skipNewlines` passes is a run of line breaks, and it stops at a token that is not
one. -/
theorem Shows.skipNewlines {w' : w.NotBefore} (h : w.Shows ts e)
    (hs : w.skipNewlines = .ok w') :
    ∃ rest, BlankOf ts rest ∧ w'.1.Shows rest e ∧ w'.1.current.kind ≠ .newline := by
  induction w using Window.skipNewlines.induct generalizing ts with
  | case1 w hk w₁ h₁ hstep w₂ hrec ih =>
    rw [Window.skipNewlines, dif_pos hk, hstep] at hs
    simp only [hrec, Except.ok.injEq] at hs
    subst hs
    obtain ⟨rest, rfl⟩ := h.exists_cons
    obtain ⟨rest', hblank, hshows, hnl⟩ := ih (h.step hstep) hrec
    exact ⟨rest', .cons hk hblank, hshows, hnl⟩
  | case2 w hk w₁ h₁ hstep d hrec ih =>
    rw [Window.skipNewlines, dif_pos hk, hstep] at hs
    simp [hrec] at hs
  | case3 w hk d hstep =>
    rw [Window.skipNewlines, dif_pos hk, hstep] at hs
    simp at hs
  | case4 w hk =>
    rw [Window.skipNewlines, dif_neg hk] at hs
    simp only [Except.ok.injEq] at hs
    subst hs
    exact ⟨ts, .nil, h, hk⟩

/-- `skipNewlines` passes every run of line breaks that the next token does not extend. -/
theorem Shows.skipNewlines_ok (hb : BlankOf ts rest) (h : w.Shows ts none)
    (hr : ∀ t ∈ rest.head?, t.kind ≠ .newline) :
    ∃ w' : w.NotBefore, w.skipNewlines = .ok w' ∧ w'.1.Shows rest none := by
  induction hb generalizing w with
  | nil =>
    obtain ⟨rest', rfl⟩ := h.exists_cons
    have hk : w.current.kind ≠ .newline := hr _ rfl
    refine ⟨⟨w, Nat.le_refl _⟩, ?_, h⟩
    rw [Window.skipNewlines, dif_neg hk]
  | cons ht hblank ih =>
    have hcur := h.current_eq
    subst hcur
    obtain ⟨w₁, hs, hw₁⟩ := h.step_ok (current_ne_eof ht rfl)
    obtain ⟨w₂, hrec, hw₂⟩ := ih hw₁ hr
    refine ⟨⟨w₂.1, Nat.le_of_lt (Nat.lt_of_le_of_lt w₂.2 w₁.2)⟩, ?_, hw₂⟩
    rw [Window.skipNewlines, dif_pos ht]
    simp only [hs, hrec]

/-- The end of a statement passes a line break and the empty lines after it. -/
theorem Shows.lineBreak {w' : w.After} (h : w.Shows ts e) (hl : w.lineBreak = .ok w') :
    ∃ rest, BreakOf ts rest ∧ w'.1.Shows rest e ∧ w'.1.current.kind ≠ .newline := by
  unfold Window.lineBreak at hl
  split at hl
  · rename_i t w₁ h₁ hx
    split at hl
    · rename_i w₂ hs
      simp only [Except.ok.injEq] at hl
      subst hl
      obtain ⟨r₁, rfl, ht, hw₁⟩ := h.expect hx
      obtain ⟨r₂, hblank, hw₂, hnl⟩ := hw₁.skipNewlines hs
      exact ⟨r₂, .mk ht hblank, hw₂, hnl⟩
    · simp at hl
  · simp at hl

theorem Shows.lineBreak_ok (hb : BreakOf ts rest) (h : w.Shows ts none)
    (hr : ∀ t ∈ rest.head?, t.kind ≠ .newline) :
    ∃ w' : w.After, w.lineBreak = .ok w' ∧ w'.1.Shows rest none := by
  cases hb with
  | mk ht hblank =>
    obtain ⟨w₁, hx, hw₁⟩ := h.expect_ok rfl (some "put each statement on its own line") ht
    obtain ⟨w₂, hs, hw₂⟩ := hw₁.skipNewlines_ok hblank hr
    refine ⟨⟨w₂.1, Nat.lt_of_le_of_lt w₂.2 w₁.2⟩, ?_, hw₂⟩
    unfold Window.lineBreak
    simp only [hx, hs]

/-- The first window shows the stream's whole list. -/
theorem shows_start {s : TokenStream} (ht : s.tokens = (ts, e)) (h : Window.start s = .ok w) :
    w.Shows ts e := by
  unfold Window.start at h
  split at h
  · simp at h
  · rename_i t s₁ hs
    split at h
    · simp at h
    · rename_i u s₂ hs₁
      simp only [Except.ok.injEq] at h
      subst h
      unfold Shows
      by_cases htk : t.kind = .eof
      · rw [TokenStream.tokens_of_next_eof hs htk] at ht
        simp only [Prod.mk.injEq] at ht
        obtain ⟨rfl, rfl⟩ := ht
        exact if_pos htk ▸ ⟨rfl, rfl⟩
      · rw [TokenStream.tokens_of_next_token hs htk] at ht
        show (if t.kind = .eof then _ else _)
        rw [if_neg htk]
        by_cases huk : u.kind = .eof
        · rw [TokenStream.tokens_of_next_eof hs₁ huk] at ht
          simp only [Prod.mk.injEq] at ht
          obtain ⟨rfl, rfl⟩ := ht
          rw [if_pos huk]
          exact ⟨rfl, rfl, _, _, TokenStream.next_after_eof hs₁ huk⟩
        · rw [TokenStream.tokens_of_next_token hs₁ huk] at ht
          simp only [Prod.mk.injEq] at ht
          obtain ⟨rfl, rfl⟩ := ht
          rw [if_neg huk]
          exact ⟨_, rfl, rfl⟩

/-- A stream whose list ends at the end of the text opens a window. -/
theorem start_ok {s : TokenStream} (ht : s.tokens = (ts, none)) : ∃ w, Window.start s = .ok w := by
  unfold Window.start
  split
  · rename_i d s₁ hs
    rw [TokenStream.tokens_of_next_error hs] at ht
    simp at ht
  · rename_i t s₁ hs
    split
    · rename_i d s₂ hs₁
      by_cases htk : t.kind = .eof
      · rw [TokenStream.next_after_eof hs htk] at hs₁
        simp at hs₁
      · rw [TokenStream.tokens_of_next_token hs htk, TokenStream.tokens_of_next_error hs₁] at ht
        simp at ht
    · exact ⟨_, rfl⟩

end Window

end TinyBasic
