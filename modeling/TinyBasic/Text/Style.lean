/-!
# Terminal style codes

A style code is the escape character, `[`, any number of digits, `;` and `?`, and one ASCII
letter, as in `ESC [ 1 m`. Text printed where no terminal reads it keeps no style codes.

* `afterStyleCode?` gives what follows a style code at the start of a text.
* `stripStyles` removes every style code, reading from the left; an escape character that does
  not start a style code stays.
-/

namespace TinyBasic.Text

/-- The characters that may stand between `[` and the final letter of a style code. -/
def isStyleParam (c : Char) : Bool :=
  c.isDigit || c = ';' || c = '?'

/-- The text after the style code at the start of `cs`, if one starts there. -/
def afterStyleCode? : List Char → Option (List Char)
  | '\x1b' :: '[' :: rest =>
    match rest.dropWhile isStyleParam with
    | c :: after => if c.isAlpha then some after else none
    | [] => none
  | _ => none

/-- What follows a style code is shorter than the text it starts. -/
theorem afterStyleCode?_length {cs after : List Char} (h : afterStyleCode? cs = some after) :
    after.length < cs.length := by
  unfold afterStyleCode? at h
  split at h
  · next rest =>
    split at h
    · next c after' hd =>
      have hs : (rest.dropWhile isStyleParam).length ≤ rest.length :=
        (List.dropWhile_suffix isStyleParam).length_le
      rw [hd] at hs
      split at h
      · simp only [Option.some.injEq] at h
        subst h
        simp only [List.length_cons] at hs ⊢
        omega
      · simp at h
    · simp at h
  · simp at h

/-- The text with its style codes removed. -/
def stripStyles (cs : List Char) : List Char :=
  match h : afterStyleCode? cs with
  | some after =>
    have : after.length < cs.length := afterStyleCode?_length h
    stripStyles after
  | none =>
    match cs with
    | [] => []
    | c :: rest => c :: stripStyles rest
termination_by cs.length

/-- A string with its style codes removed. -/
def stripStyleCodes (s : String) : String :=
  String.ofList (stripStyles s.toList)

end TinyBasic.Text
