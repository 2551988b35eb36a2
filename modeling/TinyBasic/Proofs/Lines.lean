import TinyBasic.Token.Stream
import Mathlib.Data.List.Induction
import Mathlib.Data.List.TakeWhile
/-!
# Lines and columns of a text

A cursor keeps its place in the text five times over: as the unread characters, as an offset, as
a line and a column, and as the offset where its line starts. Each is a function of the
characters `pre` it has passed:

* `lineAfter pre`: one more than the line feeds of `pre`;
* `columnAfter pre`: one more than the characters of `pre` after its last line feed, which are
  `lineHead pre`;
* `lineStartAfter pre`: one past the last line feed of `pre`, or `0` when it has none.

`Cursor.After pre c` says that the cursor's line, column, offset and line start are those of
`pre`, and every move keeps it (`Cursor.After.skip`). Where the text is `pre` and then the unread
characters, the line read from where the cursor's line starts up to the next line feed
(`TokenStream.currentLine`) is the piece between line feeds that `TokenStream.lineText` gives
for the cursor's line (`TokenStream.lineText_eq_currentLine`).
-/

namespace TinyBasic

/-! ## The place of the character after a prefix -/

/-- The line of the character that follows `pre`: one more than the line feeds in `pre`. -/
def lineAfter (pre : List Char) : Nat := pre.count '\n' + 1

/-- The column of the character that follows `pre`: one more than the characters after the
last line feed of `pre`. -/
def columnAfter (pre : List Char) : Nat := (pre.reverse.takeWhile (· != '\n')).length + 1

/-- The characters after the last line feed of `pre`. -/
def lineHead (pre : List Char) : List Char :=
  (pre.reverse.takeWhile (· != '\n')).reverse

/-- Where the line of the character that follows `pre` starts: one past the last line feed of
`pre`, or `0` when it has none. -/
def lineStartAfter (pre : List Char) : Nat := pre.length - (lineHead pre).length

@[simp] theorem lineAfter_append_newline (pre : List Char) :
    lineAfter (pre ++ ['\n']) = lineAfter pre + 1 := by
  simp [lineAfter]

@[simp] theorem columnAfter_append_newline (pre : List Char) : columnAfter (pre ++ ['\n']) = 1 := by
  simp [columnAfter]

@[simp] theorem lineHead_append_newline (pre : List Char) : lineHead (pre ++ ['\n']) = [] := by
  simp [lineHead]

@[simp] theorem lineStartAfter_append_newline (pre : List Char) :
    lineStartAfter (pre ++ ['\n']) = pre.length + 1 := by
  simp [lineStartAfter]

theorem lineAfter_append_of_ne {ch : Char} (h : ch ≠ '\n') (pre : List Char) :
    lineAfter (pre ++ [ch]) = lineAfter pre := by
  simp [lineAfter, h]

theorem columnAfter_append_of_ne {ch : Char} (h : ch ≠ '\n') (pre : List Char) :
    columnAfter (pre ++ [ch]) = columnAfter pre + 1 := by
  simp [columnAfter, h]

theorem lineHead_append_of_ne {x : Char} (hx : x ≠ '\n') (pre : List Char) :
    lineHead (pre ++ [x]) = lineHead pre ++ [x] := by
  simp [lineHead, hx]

/-- A column counts the characters of its line before it. -/
theorem columnAfter_eq_lineHead (pre : List Char) : columnAfter pre = (lineHead pre).length + 1 := by
  simp [columnAfter, lineHead]

/-- The last line of a prefix is no longer than the prefix. -/
theorem lineHead_length_le (pre : List Char) : (lineHead pre).length ≤ pre.length := by
  rw [lineHead, List.length_reverse]
  exact Nat.le_trans (List.takeWhile_sublist _).length_le (Nat.le_of_eq List.length_reverse)

/-- The last line of a prefix holds no line feed. -/
theorem newline_not_mem_lineHead (pre : List Char) : '\n' ∉ lineHead pre := by
  intro hn
  have := List.mem_takeWhile_imp (List.mem_reverse.1 hn)
  simp at this

/-- A prefix is the lines before its last line feed, ending with it, and then its last line. -/
theorem take_lineStartAfter_append (pre : List Char) :
    pre.take (lineStartAfter pre) ++ lineHead pre = pre ∧
      (pre.take (lineStartAfter pre) = [] ∨
        (pre.take (lineStartAfter pre)).getLast? = some '\n') := by
  let p : Char → Bool := (· != '\n')
  let before := (pre.reverse.dropWhile p).reverse
  -- read backwards, the prefix is its last line and then the lines before it
  have hsplit : before ++ lineHead pre = pre := by
    rw [lineHead, ← List.reverse_append, List.takeWhile_append_dropWhile, List.reverse_reverse]
  have hlen : lineStartAfter pre = before.length := by
    have := congrArg List.length hsplit
    rw [List.length_append] at this
    rw [lineStartAfter]
    omega
  have htake : pre.take (lineStartAfter pre) = before := by
    rw [hlen]
    calc pre.take before.length = (before ++ lineHead pre).take before.length := by rw [hsplit]
      _ = before := List.take_left' rfl
  refine ⟨by rw [htake, hsplit], ?_⟩
  rw [htake]
  -- the lines before, read backwards, start at the last line feed if there is one
  cases hd : pre.reverse.dropWhile p with
  | nil => exact .inl (by simp [before, hd])
  | cons c r =>
    refine .inr ?_
    have hstop := List.head_dropWhile_not p (l := pre.reverse) (by simp [hd])
    simp only [hd, List.head_cons, p, bne_eq_false_iff_eq] at hstop
    simp [before, hd, hstop]

/-- From where its last line starts, a prefix is that line. -/
theorem drop_lineStartAfter (pre : List Char) : pre.drop (lineStartAfter pre) = lineHead pre := by
  have hsplit := (take_lineStartAfter_append pre).1
  have hlen : (pre.take (lineStartAfter pre)).length = lineStartAfter pre := by
    simp [lineStartAfter]
  calc pre.drop (lineStartAfter pre)
      = (pre.take (lineStartAfter pre) ++ lineHead pre).drop (lineStartAfter pre) := by
        rw [hsplit]
    _ = lineHead pre := List.drop_left' hlen

/-! ## Lines of a text -/

/-- A text cut at its line feeds has one piece more than it has line feeds. -/
theorem length_splitOn_newline (l : List Char) : (l.splitOn '\n').length = l.count '\n' + 1 := by
  induction l with
  | nil => simp [List.splitOn_nil]
  | cons x l ih =>
    rw [List.splitOn_cons_eq_if_modifyHead]
    by_cases hx : x = '\n'
    · subst hx
      simp [ih]
    · simp [hx, ih]

/-- The first piece of a text cut at its line feeds runs up to the first line feed. -/
theorem head?_splitOn_newline (l : List Char) :
    (l.splitOn '\n').head? = some (l.takeWhile (· != '\n')) := by
  induction l with
  | nil => rfl
  | cons x l ih =>
    rw [List.splitOn_cons_eq_if_modifyHead]
    by_cases hx : x = '\n'
    · subst hx
      simp
    · simp [hx, ih]

/-- In a text `pre ++ rest`, the line of the character after `pre` is the part of `pre` after
its last line feed and the part of `rest` before its first. -/
theorem getElem?_splitOn_count (pre rest : List Char) :
    ((pre ++ rest).splitOn '\n')[pre.count '\n']? =
      some (lineHead pre ++ rest.takeWhile (· != '\n')) := by
  induction pre using List.reverseRecOn generalizing rest with
  | nil => simpa [lineHead, List.head?_eq_getElem?] using head?_splitOn_newline rest
  | append_singleton pre x ih =>
    rw [List.append_assoc, List.singleton_append]
    by_cases hx : x = '\n'
    · -- a line feed closes the lines of `pre`, and the line starts afresh
      subst hx
      rw [List.splitOn_append_cons_self, List.getElem?_append_right (by
        rw [length_splitOn_newline]; simp), length_splitOn_newline, lineHead_append_newline]
      simpa [List.head?_eq_getElem?] using head?_splitOn_newline rest
    · -- any other character stays on the line
      have hcount : (pre ++ [x]).count '\n' = pre.count '\n' := by simp [hx]
      rw [lineHead_append_of_ne hx, hcount, ih (x :: rest)]
      simp [hx]

/-! ## Cursors placed after a prefix -/

namespace Cursor

/-- A cursor stands after the characters `pre` when its offset is their number, its line and
column are those of the character that follows them, and its line starts where theirs does. -/
structure After (pre : List Char) (c : Cursor) : Prop where
  line_eq : c.line = lineAfter pre
  column_eq : c.column = columnAfter pre
  pos_eq : c.pos = pre.length
  lineStart_eq : c.lineStart = lineStartAfter pre

theorem after_nil (text : List Char) : (⟨text, 1, 1, 0, 0⟩ : Cursor).After [] :=
  ⟨rfl, rfl, rfl, rfl⟩

theorem After.bump {pre : List Char} {c : Cursor} {ch : Char} {r : List Char} (h : c.After pre)
    (hr : c.rest = ch :: r) : c.bump.After (pre ++ [ch]) := by
  obtain ⟨hl, hc, hp, hs⟩ := h
  unfold Cursor.bump
  rw [hr]
  by_cases hch : ch = '\n'
  · -- a line feed starts the next line at the offset after it
    subst hch
    exact ⟨by simp [hl], by simp, by simp [hp], by simp [hp]⟩
  · have hs' : lineStartAfter (pre ++ [ch]) = lineStartAfter pre := by
      simp only [lineStartAfter, lineHead_append_of_ne hch, List.length_append,
        List.length_singleton]
      omega
    refine ⟨?_, ?_, ?_, ?_⟩ <;> simp only [if_neg hch]
    · rw [hl, lineAfter_append_of_ne hch]
    · rw [hc, columnAfter_append_of_ne hch]
    · simp [hp]
    · rw [hs, hs']

/-- A cursor's line starts no later than the cursor. -/
theorem After.lineStart_le {pre : List Char} {c : Cursor} (h : c.After pre) :
    c.lineStart ≤ c.pos := by
  rw [h.lineStart_eq, h.pos_eq, lineStartAfter]
  exact Nat.sub_le _ _

/-- A cursor's column counts from where its line starts. -/
theorem After.column_eq_sub {pre : List Char} {c : Cursor} (h : c.After pre) :
    c.column = c.pos - c.lineStart + 1 := by
  have hle := lineHead_length_le pre
  rw [h.column_eq, h.pos_eq, h.lineStart_eq, columnAfter_eq_lineHead, lineStartAfter]
  omega

theorem bump_of_rest_nil {c : Cursor} (h : c.rest = []) : c.bump = c := by
  unfold Cursor.bump
  rw [h]

/-- Skipping `n` characters stands the cursor after them. -/
theorem After.skip {pre : List Char} {c : Cursor} (h : c.After pre) (n : Nat) :
    (c.skip n).After (pre ++ c.rest.take n) := by
  induction n generalizing pre c with
  | zero => simpa [Cursor.skip] using h
  | succ n ih =>
    show (c.bump.skip n).After _
    cases hr : c.rest with
    | nil =>
      -- at the end of the text a move changes nothing
      have := ih (c := c.bump) (bump_of_rest_nil hr ▸ h)
      simpa [bump_of_rest_nil hr, hr] using this
    | cons ch r =>
      have := ih (h.bump hr)
      rw [bump_rest, hr] at this
      simpa using this

theorem skip_add (a b : Nat) (c : Cursor) : c.skip (a + b) = (c.skip a).skip b := by
  induction a generalizing c with
  | zero => simp [Cursor.skip]
  | succ a ih =>
    rw [Nat.add_right_comm]
    exact ih c.bump

end Cursor

namespace TokenStream

variable {s : TokenStream} {c : Cursor} {pre rest : List Char}

/-- Where the text is `pre ++ rest`, the line after `pre` is the part of `pre` after its last
line feed and the part of `rest` before its first. -/
theorem lineText_lineAfter (h : s.text.toList = pre ++ rest) :
    s.lineText (lineAfter pre) = some (String.ofList (lineHead pre ++ rest.takeWhile (· != '\n'))) := by
  have hline : (((pre.count '\n' + 1 : Nat) : Int)).toNat - 1 = pre.count '\n' := by omega
  simp only [lineText, lineAfter, h]
  rw [if_neg (by omega), hline, List.getElem?_map, getElem?_splitOn_count]
  rfl

/-- Where a cursor stands after `pre` in the text, the line it stands on, read from where the
line starts up to the next line feed, is the piece of the text between line feeds that its line
number names. -/
theorem lineText_eq_currentLine (h : s.text.toList = pre ++ c.rest) (hc : c.After pre) :
    s.lineText c.line = some (s.currentLine c) := by
  have hdrop : s.text.toList.drop c.lineStart = lineHead pre ++ c.rest := by
    rw [h, hc.lineStart_eq, List.drop_append_of_le_length (by simp [lineStartAfter]),
      drop_lineStartAfter]
  have hrun : ∀ x ∈ lineHead pre, (x != '\n') = true := by
    intro x hx
    simpa using ne_of_mem_of_not_mem hx (newline_not_mem_lineHead pre)
  rw [hc.line_eq, lineText_lineAfter h, currentLine, hdrop, List.takeWhile_append_of_pos hrun]

end TokenStream

end TinyBasic
