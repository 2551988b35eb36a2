import TinyBasic.Proofs.Positions
/-!
# Asking again after a fault or the end

A request that meets a fault leaves the stream on the character that caused it, its position
still placed, and reports the fault there. What the next request does depends on the fault:

* at a `!` with no `=` after it, or at a character that starts no token, the fault was found at
  the first character after the gap, so the next request finds it again: the stream is a fixed
  point of its requests, and every later request reports the same diagnostic;
* at a number whose point has no digit after it, the stream stands on the point, which starts no
  token, so the next request reports the point as an unknown character;
* inside a string, the stream stands on the character the string may not hold, and the next
  request reads on from that character.

Once a request has given the end token, the stream stands at the end of the text, and every
later request gives the same token and leaves the stream as it is.

* `Cursor.skipGap_head` and `Cursor.skipGap_skipGap`: a gap passed once is passed.
* `TokenStream.next_of_fault_here`: a stream on a fault found where the gap ends reports it and
  stays.
* `TokenStream.reached_fault_or_end_repeats`: the whole statement, for every state a stream
  reaches from its start.
-/

namespace TinyBasic

namespace Cursor

variable {c : Cursor}

/-- A cursor stays where it is when it stands on a character that neither is blank nor starts a
comment. -/
theorem skipGap_of_head {ch : Char} {r : List Char} (hr : c.rest = ch :: r)
    (hb : isBlank ch = false) (hc : ch ≠ '#') : c.skipGap = c := by
  have hwhile : c.skipWhile isBlank = c := by
    rw [skipWhile, hr, List.takeWhile_cons_of_neg (by simp [hb])]
    rfl
  rw [skipGap, hwhile, passComment]
  split
  · rename_i t ht
    rw [hr, List.cons.injEq] at ht
    exact absurd ht.1 hc
  · rfl

/-- After a gap the stream stands on a character that neither is blank nor starts a comment, or
at the end of the text. -/
theorem skipGap_head {ch : Char} (h : c.skipGap.rest.head? = some ch) :
    isBlank ch = false ∧ ch ≠ '#' := by
  have hblank : ∀ x, (c.skipWhile isBlank).rest.head? = some x → isBlank x = false := by
    intro x hx
    rw [skipWhile, skip_rest, drop_length_takeWhile] at hx
    have hstop := List.head?_dropWhile_not isBlank c.rest
    rw [hx] at hstop
    exact hstop
  unfold skipGap passComment at h
  split at h
  · -- a comment runs up to the line feed, which is neither blank nor `#`
    rename_i t ht
    rw [skipWhile, skip_rest, drop_length_takeWhile] at h
    have hstop := List.head?_dropWhile_not (· != '\n') (c.skipWhile isBlank).rest
    rw [h] at hstop
    have hnl : ch = '\n' := by simpa using hstop
    subst hnl
    exact ⟨rfl, by decide⟩
  · rename_i hnot
    refine ⟨hblank ch h, ?_⟩
    rintro rfl
    obtain ⟨t, ht⟩ : ∃ t, (c.skipWhile isBlank).rest = '#' :: t := by
      cases hr : (c.skipWhile isBlank).rest with
      | nil => rw [hr] at h; cases h
      | cons x t =>
        rw [hr, List.head?_cons, Option.some.injEq] at h
        exact ⟨t, by rw [h]⟩
    exact hnot t ht

/-- A gap passed once is passed: the stream after it does not move when asked to pass another. -/
theorem skipGap_skipGap (c : Cursor) : c.skipGap.skipGap = c.skipGap := by
  cases hr : c.skipGap.rest with
  | nil => exact skipGap_of_rest_nil hr
  | cons ch r =>
    have hhead : c.skipGap.rest.head? = some ch := by rw [hr]; rfl
    obtain ⟨hb, hc⟩ := skipGap_head hhead
    exact skipGap_of_head hr hb hc

end Cursor

namespace TokenStream

variable {s s' : TokenStream} {file source : String}

/-- A stream that stands where its gap ends, on a character where the classifier finds a fault
at once, reports that fault there and does not move. -/
theorem next_of_fault_here {ch : Char} {r : List Char} {p : Problem}
    (hc : s.cursor.skipGap = s.cursor) (hr : s.cursor.rest = ch :: r)
    (hf : Found.at ch r = .fault p 0) : s.next = (.error (s.diagnose p s.cursor), s) := by
  unfold next scanAt
  rw [hc]
  split
  · rename_i hnil
    rw [hr] at hnil
    cases hnil
  · rename_i ch' r' hr'
    rw [hr, List.cons.injEq] at hr'
    obtain ⟨rfl, rfl⟩ := hr'
    rw [hf]
    rfl

/-- A stream that gives the same result to a request and stays where it is stays there through
every later request. -/
theorem Reaches.of_fixed {s'' : TokenStream} (hfix : s'.next.2 = s') (h : s'.Reaches s'') :
    s'' = s' := by
  induction h with
  | refl => rfl
  | step _ ih => rw [ih, hfix]

/-- The point of a number with no digit after it starts no token. -/
theorem found_at_point (r : List Char) : Found.at '.' r = .fault (.unknownCharacter '.') 0 := by
  simp [Found.at]

/-- A text that ends with a line feed holds no string that runs to its end. -/
theorem no_string_to_end {pre body : List Char}
    (htext : (pre ++ '"' :: body).getLast? = some '\n')
    (hbody : ∀ c ∈ body, c ≠ '"' ∧ isStringBreak c = false) : False := by
  rw [List.getLast?_append_of_ne_nil _ (List.cons_ne_nil _ _)] at htext
  rcases List.mem_cons.1 (List.mem_of_getLast? htext) with hq | hb
  · cases hq
  · exact absurd (hbody _ hb).2 (by decide)

/-- In every state a stream reaches from its start, a request that meets a fault leaves the
stream placed on the character that caused it and reports the fault there, with the text of its
line. At a lone `!` or a character that starts no token, every later request reports the same
diagnostic and leaves the stream as it is; at the point of a number with no digit after it, the
next request reports the point as an unknown character and leaves the stream there; inside a
string, the stream stands on the character the string may not hold. A request that gives the end
token leaves the stream where every later request gives the same token and does not move it. -/
theorem reached_fault_or_end_repeats (h : (start file source).Reaches s) :
    (∀ d s', s.next = (.error d, s') →
      s'.cursor.Placed s'.text.toList ∧
      d.location = some ⟨file, s'.cursor.line, s'.cursor.column⟩ ∧
      d.sourceLine = s'.lineText s'.cursor.line ∧
      ((∃ ch, s'.cursor.rest.head? = some ch ∧
          (d.problem = .unknownCharacter ch ∨
            ch = '!' ∧ d.problem = .loneBang s'.cursor.rest.tail.head?) ∧
          ∀ s'', s'.Reaches s'' → s'' = s' ∧ s''.next = (.error d, s'')) ∨
        (∃ text, d.problem = .bareFraction text ∧ s'.cursor.rest.head? = some '.' ∧
          s'.next = (.error { d with problem := .unknownCharacter '.' }, s')) ∨
        (∃ ch, d.problem = .stringCharacter (String.singleton ch) ∧ isStringBreak ch = true ∧
          s'.cursor.rest.head? = some ch))) ∧
    (∀ t s', s.next = (.ok t, s') → t.kind = .eof →
      ∀ s'', s'.Reaches s'' → s'' = s' ∧ s''.next = (.ok t, s'')) := by
  obtain ⟨htext, hfile⟩ := h.text
  have hfile' : s.file = file := hfile
  refine ⟨fun d s' hn => ?_, fun t s' hn hk s'' hs'' => ?_⟩
  · have hplaced : s'.cursor.Placed s'.text.toList := by
      have := (h.step).placed
      rwa [hn] at this
    obtain ⟨ch, r, p, n, hr, hf, rfl, rfl⟩ := next_eq_error hn
    refine ⟨hplaced, by rw [diagnose, hfile'], (lineText_of_placed hplaced).symm, ?_⟩
    -- the fault the rules find decides where the stream stands
    have hrest : (s.cursor.skipGap.skip n).rest = (ch :: r).drop n := by
      rw [Cursor.skip_rest, hr]
    have hfault := Found.faults_at ch r p n hf
    generalize hq : ch :: r = q at hfault hrest
    -- a fault found at the first character after the gap leaves the stream on it, and the
    -- next request finds it again
    have hstay : ∀ {p : Problem}, Found.at ch r = .fault p 0 →
        ∀ s'', ({ s with cursor := s.cursor.skipGap.skip 0 } : TokenStream).Reaches s'' →
          s'' = { s with cursor := s.cursor.skipGap.skip 0 } ∧
            s''.next = (.error (s.diagnose p (s.cursor.skipGap.skip 0)), s'') := by
      intro p hf0 s'' hs''
      have hfix := next_of_fault_here (s := { s with cursor := s.cursor.skipGap.skip 0 })
        (Cursor.skipGap_skipGap _) hr hf0
      rw [Reaches.of_fixed (by rw [hfix]) hs'']
      exact ⟨rfl, hfix⟩
    cases hfault with
    | unknownCharacter _ =>
      obtain ⟨rfl, rfl⟩ := List.cons.inj hq
      exact .inl ⟨_, by simp [hrest], .inl rfl, hstay hf⟩
    | loneBang _ =>
      obtain ⟨rfl, rfl⟩ := List.cons.inj hq
      exact .inl ⟨_, by simp [hrest], .inr ⟨rfl, by simp [hrest, diagnose]⟩, hstay hf⟩
    | stringCharacter _ hbreak =>
      refine .inr (.inr ⟨_, rfl, hbreak, ?_⟩)
      simp [hrest]
    | @stringEnd body hbody =>
      -- the closing line feed of the text stops every string before the end
      exfalso
      obtain ⟨pre, hsplit, -⟩ := h.placed.skipGap
      rw [hr, hq] at hsplit
      have hlast : (pre ++ '"' :: body).getLast? = some '\n' := by
        rw [← hsplit, htext]
        simp [start]
      exact no_string_to_end hlast hbody
    | @bareFraction ds after _ _ _ =>
      refine .inr (.inl ⟨_, rfl, by simp [hrest], ?_⟩)
      -- the stream stands on the point, which the next request reports
      have hpoint : (s.cursor.skipGap.skip ds.length).rest = '.' :: after := by
        rw [hrest, List.drop_left' rfl]
      have hhere := Cursor.skipGap_of_head hpoint rfl (by decide)
      exact next_of_fault_here (s := { s with cursor := s.cursor.skipGap.skip ds.length }) hhere
        hpoint (found_at_point after)
  · -- after the end token the stream is a fixed point of its requests
    have hfix := next_after_eof hn hk
    rw [Reaches.of_fixed (by rw [hfix]) hs'']
    exact ⟨rfl, hfix⟩

/-- The start of a source whose first token is a lone `!`. -/
theorem reached_fault_or_end_repeats_at_bang :
    let s := start "p.bas" "! = 1"
    (start "p.bas" "! = 1").Reaches s ∧
    (∀ d s', s.next = (.error d, s') →
      s'.cursor.Placed s'.text.toList ∧
      d.location = some ⟨"p.bas", s'.cursor.line, s'.cursor.column⟩ ∧
      d.sourceLine = s'.lineText s'.cursor.line ∧
      ((∃ ch, s'.cursor.rest.head? = some ch ∧
          (d.problem = .unknownCharacter ch ∨
            ch = '!' ∧ d.problem = .loneBang s'.cursor.rest.tail.head?) ∧
          ∀ s'', s'.Reaches s'' → s'' = s' ∧ s''.next = (.error d, s'')) ∨
        (∃ text, d.problem = .bareFraction text ∧ s'.cursor.rest.head? = some '.' ∧
          s'.next = (.error { d with problem := .unknownCharacter '.' }, s')) ∨
        (∃ ch, d.problem = .stringCharacter (String.singleton ch) ∧ isStringBreak ch = true ∧
          s'.cursor.rest.head? = some ch))) ∧
    (∀ t s', s.next = (.ok t, s') → t.kind = .eof →
      ∀ s'', s'.Reaches s'' → s'' = s' ∧ s''.next = (.ok t, s'')) :=
  ⟨.refl, reached_fault_or_end_repeats .refl⟩

end TokenStream

end TinyBasic
