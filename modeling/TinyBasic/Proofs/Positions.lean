import TinyBasic.Proofs.Lexemes
/-!
# Where the stream stands

A stream keeps its position five times over: as the unread text, as an offset into the text, as a
line and a column, and as the offset where its line starts. They agree in every state the stream
reaches from its start, whatever the requests for tokens on the way gave, tokens or faults: the
unread text is the text from the offset on; the line counts the line feeds before the offset;
the line starts one past the last of them, or at the start of the text; and the column counts
from there. The line moves on when the stream passes a line feed, so a line feed under the cursor
still belongs to the line it ends.

A fault's diagnostic shows the line the stream stands on, read from where the line starts up to
the next line feed. In every state reached, that is the piece of the text that `lineText` gives
for the stream's line number, the lookup a token's diagnostic uses, and the column the location
names falls inside it.

* `TokenStream.Reaches s s'`: `s'` is `s` after some number of requests.
* `Cursor.Placed text c`: the cursor stands after a prefix of `text`, with the rest unread.
  Every move keeps it (`Cursor.Placed.skip`), hence every request (`TokenStream.Reaches.placed`),
  and the prefix is the text up to the cursor's offset (`Cursor.Placed.after_take`).
* `TokenStream.reached_positions`: the invariant in every state a stream reaches, field by
  field, the line it reads from where its line starts, and the lines that its tokens and faults
  are shown with.
-/

namespace TinyBasic

/-- What `takeWhile` keeps of a list, it keeps of every list that starts with it. -/
theorem takeWhile_prefix_append {α : Type} (p : α → Bool) (a b : List α) :
    a.takeWhile p <+: (a ++ b).takeWhile p := by
  induction a with
  | nil => exact List.nil_prefix
  | cons x a ih =>
    by_cases hx : p x = true
    · rw [List.cons_append, List.takeWhile_cons_of_pos hx, List.takeWhile_cons_of_pos hx]
      exact List.cons_prefix_cons.2 ⟨rfl, ih⟩
    · simp only [List.cons_append, List.takeWhile_cons_of_neg hx, List.nil_prefix]

/-! ## Positions kept by moves -/

namespace Cursor

/-- The cursor's offsets, line and column are those of its place in `text`: `text` is some `pre`
and then the unread characters, and the cursor stands after `pre`. -/
def Placed (text : List Char) (c : Cursor) : Prop :=
  ∃ pre, text = pre ++ c.rest ∧ c.After pre

variable {text : List Char} {c : Cursor}

/-- A placed cursor stands after the text up to its offset, and the rest is unread. -/
theorem Placed.after_take (h : c.Placed text) :
    c.pos ≤ text.length ∧ c.rest = text.drop c.pos ∧ c.After (text.take c.pos) := by
  obtain ⟨pre, htext, hafter⟩ := h
  have hpos : pre.length = c.pos := hafter.pos_eq.symm
  subst htext
  refine ⟨by simp [← hpos], by rw [List.drop_left' hpos], ?_⟩
  rw [List.take_left' hpos]
  exact hafter

theorem Placed.skip (h : c.Placed text) (n : Nat) : (c.skip n).Placed text := by
  obtain ⟨pre, htext, hafter⟩ := h
  refine ⟨pre ++ c.rest.take n, ?_, hafter.skip n⟩
  rw [skip_rest, List.append_assoc, List.take_append_drop]
  exact htext

theorem Placed.skipGap (h : c.Placed text) : c.skipGap.Placed text := by
  obtain ⟨g, -, -, hskip⟩ := c.skipGap_split
  rw [hskip]
  exact h.skip _

end Cursor

namespace TokenStream

/-- A request moves the cursor past the gap and some characters after it, and changes nothing
else. -/
theorem next_snd (s : TokenStream) :
    ∃ k, s.next.2 = { s with cursor := s.cursor.skipGap.skip k } := by
  unfold next scanAt
  split
  · exact ⟨0, rfl⟩
  · split
    · exact ⟨_, rfl⟩
    · exact ⟨_, rfl⟩

/-- `s'` is `s` after some number of requests for tokens, each giving a token or a fault. -/
inductive Reaches (s : TokenStream) : TokenStream → Prop
  | refl : Reaches s s
  | step {s' : TokenStream} : Reaches s s' → Reaches s s'.next.2

variable {s s' : TokenStream} {file source : String}

/-- Requests change only the cursor. -/
theorem Reaches.text (h : s.Reaches s') : s'.text = s.text ∧ s'.file = s.file := by
  induction h with
  | refl => exact ⟨rfl, rfl⟩
  | step _ ih =>
    obtain ⟨k, hk⟩ := next_snd _
    rw [hk]
    exact ih

/-- The invariant: in every state a stream reaches from its start, its cursor is placed. -/
theorem Reaches.placed (h : (start file source).Reaches s) : s.cursor.Placed s.text.toList := by
  induction h with
  | refl => exact ⟨[], rfl, Cursor.after_nil _⟩
  | step _ ih =>
    obtain ⟨k, hk⟩ := next_snd _
    rw [hk]
    exact ih.skipGap.skip k

/-- Where the cursor is placed, the line it stands on is the line its line number names. -/
theorem lineText_of_placed (hp : s.cursor.Placed s.text.toList) :
    s.lineText s.cursor.line = some (s.currentLine s.cursor) := by
  obtain ⟨pre, htext, hafter⟩ := hp
  exact lineText_eq_currentLine htext hafter

end TokenStream

/-- A line `L` shows the column `col` followed by `r`: it is the characters before the column,
then `r`. -/
def LineShows (L : String) (col : Nat) (r : List Char) : Prop :=
  ∃ head, L.toList = head ++ r ∧ col = head.length + 1

namespace TokenStream

variable {s s' : TokenStream} {file source : String}

/-- The line of the character after `pre` shows it at its column, followed by the rest of the
line. -/
theorem lineText_shows {pre rest : List Char} (h : s.text.toList = pre ++ rest) :
    ∃ L, s.lineText (lineAfter pre) = some L ∧
      LineShows L (columnAfter pre) (rest.takeWhile (· != '\n')) :=
  ⟨_, lineText_lineAfter h, lineHead pre, by simp, columnAfter_eq_lineHead pre⟩

/-- A token's line shows it at its column. -/
theorem next_token_shown (hp : s.cursor.Placed s.text.toList) {t : Token}
    (h : s.next = (.ok t, s')) :
    ∃ L r, s.lineText t.line = some L ∧ LineShows L t.column r ∧
      t.lexeme.takeWhile (· != '\n') <+: r := by
  obtain ⟨pre, htext, hafter⟩ := hp
  by_cases hk : t.kind = .eof
  · -- the end token stands where the gap before it ends, with nothing after it
    obtain ⟨g, -, hrest, rfl⟩ := next_end hafter h hk
    have hsplit : s.text.toList = (pre ++ g) ++ [] := by rw [htext, hrest, List.append_nil]
    obtain ⟨L, hL, hshows⟩ := lineText_shows hsplit
    exact ⟨L, [], hL, hshows, by simp [Token.lexeme, Kind.lexemeOf]⟩
  · obtain ⟨g, -, hrest, -, hline, hcol, -⟩ := next_lexeme hafter h hk
    have hsplit : s.text.toList = (pre ++ g) ++ (t.lexeme ++ s'.cursor.rest) := by
      rw [htext, hrest]
      simp
    obtain ⟨L, hL, hshows⟩ := lineText_shows hsplit
    refine ⟨L, _, hline ▸ hL, hcol ▸ hshows, ?_⟩
    -- the token's characters up to a line feed begin the rest of its line
    exact takeWhile_prefix_append _ t.lexeme s'.cursor.rest

/-- A request that gives a fault leaves the stream where the classifier found it, after the
gap, and reports it there. -/
theorem next_eq_error {d : Diagnostic} (h : s.next = (.error d, s')) :
    ∃ ch r p n, s.cursor.skipGap.rest = ch :: r ∧ Found.at ch r = .fault p n ∧
      d = s.diagnose p (s.cursor.skipGap.skip n) ∧
      s' = { s with cursor := s.cursor.skipGap.skip n } := by
  unfold next scanAt at h
  split at h
  · simp at h
  · rename_i ch r hr
    split at h
    · simp at h
    · rename_i p n hf
      simp only [Prod.mk.injEq, Except.error.injEq] at h
      exact ⟨ch, r, p, n, hr, hf, h.1.symm, h.2.symm⟩

/-- A fault is shown with the line the stream stands on, which is the line its location names,
with the character where the fault was found at its column. -/
theorem next_fault_shown (hp : s.cursor.Placed s.text.toList) {d : Diagnostic}
    (h : s.next = (.error d, s')) :
    d.location = some ⟨s.file, s'.cursor.line, s'.cursor.column⟩ ∧
      d.sourceLine = some (s'.currentLine s'.cursor) ∧
      s'.lineText s'.cursor.line = some (s'.currentLine s'.cursor) ∧
      LineShows (s'.currentLine s'.cursor) s'.cursor.column
        (s'.cursor.rest.takeWhile (· != '\n')) := by
  obtain ⟨-, -, p, n, -, -, rfl, rfl⟩ := next_eq_error h
  obtain ⟨pre, htext, hafter⟩ := hp.skipGap.skip n
  obtain ⟨L, hL, hshows⟩ := lineText_shows htext
  -- the line read from where it starts is the line `lineText` cuts
  have hcur := lineText_eq_currentLine htext hafter
  have hL' : L = s.currentLine (s.cursor.skipGap.skip n) := by
    apply Option.some.inj
    rw [← hL, ← hafter.line_eq]
    exact hcur
  exact ⟨rfl, rfl, hcur, hL' ▸ hafter.column_eq ▸ hshows⟩

/-! ## Every state a stream reaches -/

/-- In every state a stream reaches from its start, whatever its requests gave: the text is the
source with its closing line feed; the offset lies within it, and the unread characters are the
text from the offset on, so the character under the cursor is the one at the offset, and there
is none at the end; the line counts the line feeds before the offset; the line starts after a
line feed, or at the start of the text, and no line feed stands between it and the offset; the
column counts the characters from the line's start to the offset; and the line read from where
it starts up to the next line feed is the line `lineText` gives for the line number. A request's
token is shown on its line, which from the token's column on starts with it; a request's fault
is shown with the line the stream then stands on, which is the line its location names, and
which from the location's column on is the text from the character where the fault was found up
to the end of the line. -/
theorem reached_positions (h : (start file source).Reaches s) :
    s.text = source ++ "\n" ∧
    s.cursor.pos ≤ s.text.toList.length ∧
    s.cursor.rest = s.text.toList.drop s.cursor.pos ∧
    s.cursor.rest.head? = s.text.toList[s.cursor.pos]? ∧
    s.cursor.line = (s.text.toList.take s.cursor.pos).count '\n' + 1 ∧
    s.cursor.lineStart ≤ s.cursor.pos ∧
    (s.text.toList.take s.cursor.lineStart = [] ∨
      (s.text.toList.take s.cursor.lineStart).getLast? = some '\n') ∧
    '\n' ∉ (s.text.toList.take s.cursor.pos).drop s.cursor.lineStart ∧
    s.cursor.column = s.cursor.pos - s.cursor.lineStart + 1 ∧
    s.lineText s.cursor.line = some (s.currentLine s.cursor) ∧
    (∀ t s', s.next = (.ok t, s') →
      ∃ L r, s.lineText t.line = some L ∧ LineShows L t.column r ∧
        t.lexeme.takeWhile (· != '\n') <+: r) ∧
    (∀ d s', s.next = (.error d, s') →
      d.location = some ⟨file, s'.cursor.line, s'.cursor.column⟩ ∧
        d.sourceLine = some (s'.currentLine s'.cursor) ∧
        s'.lineText s'.cursor.line = some (s'.currentLine s'.cursor) ∧
        LineShows (s'.currentLine s'.cursor) s'.cursor.column
          (s'.cursor.rest.takeWhile (· != '\n'))) := by
  have hp := h.placed
  obtain ⟨htext, hfile⟩ := h.text
  have hfile' : s.file = file := hfile
  obtain ⟨hle, hrest, hafter⟩ := hp.after_take
  -- the text before the cursor, whose last line the cursor's line start cuts off
  let pre := s.text.toList.take s.cursor.pos
  have hstart : s.cursor.lineStart = lineStartAfter pre := hafter.lineStart_eq
  have htake : s.text.toList.take s.cursor.lineStart = pre.take (lineStartAfter pre) := by
    rw [List.take_take, ← hstart, Nat.min_eq_left hafter.lineStart_le]
  refine ⟨htext, hle, hrest, by rw [hrest, List.head?_drop], hafter.line_eq, hafter.lineStart_le,
    htake ▸ (take_lineStartAfter_append pre).2, ?_, hafter.column_eq_sub,
    lineText_of_placed hp, fun t s' hn => next_token_shown hp hn,
    fun d s' hn => hfile' ▸ next_fault_shown hp hn⟩
  rw [hstart, drop_lineStartAfter]
  exact newline_not_mem_lineHead pre

/-- The state after the first request on a source of two lines, the second an unknown
character. -/
theorem reached_positions_after_keyword :
    let s := (start "p.bas" "PRINT 1\n@").next.2
    (start "p.bas" "PRINT 1\n@").Reaches s ∧
    s.text = "PRINT 1\n@" ++ "\n" ∧
    s.cursor.pos ≤ s.text.toList.length ∧
    s.cursor.rest = s.text.toList.drop s.cursor.pos ∧
    s.cursor.rest.head? = s.text.toList[s.cursor.pos]? ∧
    s.cursor.line = (s.text.toList.take s.cursor.pos).count '\n' + 1 ∧
    s.cursor.lineStart ≤ s.cursor.pos ∧
    (s.text.toList.take s.cursor.lineStart = [] ∨
      (s.text.toList.take s.cursor.lineStart).getLast? = some '\n') ∧
    '\n' ∉ (s.text.toList.take s.cursor.pos).drop s.cursor.lineStart ∧
    s.cursor.column = s.cursor.pos - s.cursor.lineStart + 1 ∧
    s.lineText s.cursor.line = some (s.currentLine s.cursor) ∧
    (∀ t s', s.next = (.ok t, s') →
      ∃ L r, s.lineText t.line = some L ∧ LineShows L t.column r ∧
        t.lexeme.takeWhile (· != '\n') <+: r) ∧
    (∀ d s', s.next = (.error d, s') →
      d.location = some ⟨"p.bas", s'.cursor.line, s'.cursor.column⟩ ∧
        d.sourceLine = some (s'.currentLine s'.cursor) ∧
        s'.lineText s'.cursor.line = some (s'.currentLine s'.cursor) ∧
        LineShows (s'.currentLine s'.cursor) s'.cursor.column
          (s'.cursor.rest.takeWhile (· != '\n'))) :=
  ⟨.step .refl, reached_positions (.step .refl)⟩

end TokenStream

end TinyBasic
