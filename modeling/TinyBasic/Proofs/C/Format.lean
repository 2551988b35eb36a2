import Mathlib.Data.List.Basic
/-!
# String literals and printf formats

What a C compiler and the C library make of a line `printf("…");` whose one argument is a
string literal: the characters the literal stands for (C17 6.4.5, with the simple escape
sequences of 6.4.4.4), and what `printf` writes for them as its format (7.21.6.1). The format
is written character by character up to the null character that ends the array, except that a
`%` starts a conversion specification, which reads the next argument.

The source is read without trigraph replacement, as GNU C does by default and C23 requires, so
`??` followed by another character stands for itself. A line feed or a carriage return ends a
line of the source, and no literal runs over one. Octal and hexadecimal escapes and universal
character names are not modelled: a body that uses one is not read. `printf` is followed up to
its first conversion, which is enough to tell whether the call reads an argument.

* `literalBody cs` reads a literal's body up to its closing quote: the characters it stands for
  and the text after the quote.
* `printfFormat? line` is the format of a line that calls `printf` with one string literal.
* `formatRun fmt` is what `printf` writes for the format `fmt`, and whether it reaches a
  conversion.
* `printfLine_text`: a line `printf("v\n");` whose text `v` holds no quote, backslash, line end
  or percent sign writes the characters of `v` before its first null character, then a line
  feed unless `v` holds one, and reads no argument.
-/

namespace TinyBasic.C

/-- The character that the simple escape sequence `\c` stands for (6.4.4.4). -/
def simpleEscape : Char → Option Char
  | '"' => some '"'
  | '\x27' => some '\x27'
  | '?' => some '?'
  | '\\' => some '\\'
  | 'a' => some '\x07'
  | 'b' => some '\x08'
  | 'f' => some '\x0C'
  | 'n' => some '\n'
  | 'r' => some '\r'
  | 't' => some '\t'
  | 'v' => some '\x0B'
  | _ => none

/-- A character that ends a line of the source: a line feed, or a carriage return, which GNU C
also reads as one. -/
def isLineEnd (c : Char) : Bool := c == '\n' || c == '\r'

/-- Reads the body of a string literal, after its opening quote, up to the closing quote. Each
character other than a quote, a backslash or a line end stands for itself, and a backslash with
the character after it stands for the simple escape it names. Gives the characters the literal
stands for and the text after the closing quote. -/
def literalBody : List Char → Option (List Char × List Char)
  | [] => none
  | c :: rest =>
    if c = '"' then some ([], rest)
    else if c = '\\' then
      match rest with
      | e :: rest' => (simpleEscape e).bind fun x => (literalBody rest').map (Prod.map (x :: ·) id)
      | [] => none
    else if isLineEnd c then none
    else (literalBody rest).map (Prod.map (c :: ·) id)

/-- The format of a line that calls `printf` with one string literal and nothing else:
`printf("`, the literal's body, and `);` after its closing quote. -/
def printfFormat? (line : List Char) : Option (List Char) :=
  (line.dropPrefix? "printf(\"".toList).bind fun body =>
    (literalBody body).bind fun vr => if vr.2 = [')', ';'] then some vr.1 else none

/-- What `printf` writes for a format: its characters up to the first null character, which
the end of the list also stands for, or up to the first `%`. The flag says whether it stopped at
a `%`, where a conversion reads the next argument. -/
def formatRun : List Char → List Char × Bool
  | [] => ([], false)
  | c :: rest =>
    if c = '\x00' then ([], false)
    else if c = '%' then ([], true)
    else Prod.map (c :: ·) id (formatRun rest)

/-- What a line that calls `printf` with one string literal writes, as `formatRun` gives it. -/
def printfLine? (line : String) : Option (List Char × Bool) :=
  (printfFormat? line.toList).map formatRun

/-! ## Plain characters -/

theorem isLineEnd_eq_false {c : Char} : isLineEnd c = false ↔ c ≠ '\n' ∧ c ≠ '\r' := by
  simp [isLineEnd]

/-- A character that stands for itself in a literal and is written as itself by `printf`. -/
def IsPlain (c : Char) : Prop :=
  c ≠ '"' ∧ c ≠ '\\' ∧ isLineEnd c = false ∧ c ≠ '%'

instance (c : Char) : Decidable (IsPlain c) :=
  inferInstanceAs (Decidable (c ≠ '"' ∧ c ≠ '\\' ∧ isLineEnd c = false ∧ c ≠ '%'))

/-- A plain character stands for itself in a literal's body. -/
theorem literalBody_cons_plain {c : Char} (hc : IsPlain c) (rest : List Char) :
    literalBody (c :: rest) = (literalBody rest).map (Prod.map (c :: ·) id) := by
  obtain ⟨hq, hb, hl, -⟩ := hc
  -- the equations of `literalBody` split on whether a character follows
  cases rest <;> simp [literalBody, hq, hb, hl]

/-- Plain characters stand for themselves in a literal's body. -/
theorem literalBody_plain_append {w : List Char} (hw : ∀ c ∈ w, IsPlain c) (rest : List Char) :
    literalBody (w ++ rest) = (literalBody rest).map (Prod.map (w ++ ·) id) := by
  induction w with
  | nil =>
    rw [List.nil_append]
    cases literalBody rest <;> rfl
  | cons c w ih =>
    rw [List.cons_append, literalBody_cons_plain (hw c List.mem_cons_self),
      ih fun d hd => hw d (List.mem_cons_of_mem c hd)]
    cases literalBody rest <;> rfl

/-- `printf` writes plain characters as they are, up to the first null character. -/
theorem formatRun_plain_append {w : List Char} (hw : ∀ c ∈ w, IsPlain c) (rest : List Char) :
    formatRun (w ++ rest) =
      if '\x00' ∈ w then (w.takeWhile (· != '\x00'), false)
      else Prod.map (w ++ ·) id (formatRun rest) := by
  induction w with
  | nil => rfl
  | cons c w ih =>
    have hp : c ≠ '%' := (hw c List.mem_cons_self).2.2.2
    rw [List.cons_append, formatRun, ih fun d hd => hw d (List.mem_cons_of_mem c hd)]
    by_cases hc : c = '\x00'
    · subst hc
      simp
    · by_cases hn : '\x00' ∈ w
      · simp [hc, hp, hn, Ne.symm hc]
      · simp only [hc, hp, hn, if_false, List.mem_cons, Ne.symm hc, or_self]
        rfl

/-- The line `printf("v\n");` for a text of plain characters: it writes the characters of `v`
before its first null character, then a line feed unless `v` holds a null character, and
reaches no conversion. -/
theorem printfLine_text {v : String} (hv : ∀ c ∈ v.toList, IsPlain c) :
    printfLine? ("printf(\"" ++ v ++ "\\n\");") =
      some (if '\x00' ∈ v.toList then (v.toList.takeWhile (· != '\x00'), false)
        else (v.toList ++ ['\n'], false)) := by
  have hline : ("printf(\"" ++ v ++ "\\n\");").toList =
      "printf(\"".toList ++ (v.toList ++ ['\\', 'n', '"', ')', ';']) := by
    simp
  have htail : literalBody ['\\', 'n', '"', ')', ';'] = some (['\n'], [')', ';']) := by
    decide
  have hbody : literalBody (v.toList ++ ['\\', 'n', '"', ')', ';']) =
      some (v.toList ++ ['\n'], [')', ';']) := by
    rw [literalBody_plain_append hv, htail]
    rfl
  have hformat : printfFormat? ("printf(\"" ++ v ++ "\\n\");").toList = some (v.toList ++ ['\n']) := by
    rw [printfFormat?, hline, List.dropPrefix?_append_of_beq _ (beq_self_eq_true _)]
    simp [hbody]
  rw [printfLine?, hformat, Option.map_some, formatRun_plain_append hv]
  split <;> rfl

end TinyBasic.C
