import TinyBasic.Token
import TinyBasic.Diagnostic
/-!
# Token streams

A token stream reads a source one token at a time. The source gets one closing line feed; before
each token the stream passes over spaces, tabs and carriage returns and then over one `#`
comment up to the end of its line. At a character it reads

* `+ - * /` alone, `=`, `<`, `>` alone or followed by `=`, and `!=`;
* a string: everything up to the next `"`, which may not hold a line break, tab, backslash or
  percent sign;
* a line feed;
* a number: digits, then optionally a point and at least one digit;
* a word: the longest run of ASCII letters, a keyword when it spells one exactly.

At the end of the text it gives the end token, as often as it is asked. A fault leaves the
stream on the character that caused it, so asking again reports it again, except inside a
string, where the next token starts at the offending character.

* `Cursor` is a position: the unread text with the line and column of its first character,
  its offset in the text, and the offset where its line starts.
* `Found` is what the stream makes of one character and the text after it.
* `TokenStream.next` gives one token and the stream after it; `TokenStream.tokens` gives
  all of them.
-/

namespace TinyBasic

/-- A position in the source: the unread characters, the line and column of the first, its
offset in the text, and the offset where its line starts. -/
structure Cursor where
  rest : List Char
  line : Nat
  column : Nat
  pos : Nat
  lineStart : Nat
  deriving DecidableEq, Repr, Inhabited

namespace Cursor

/-- Moves past the first unread character; passing a line feed starts the next line, at the
offset after the line feed. At the end of the text it stays. -/
def bump (c : Cursor) : Cursor :=
  match c.rest with
  | [] => c
  | ch :: r =>
    if ch = '\n' then ⟨r, c.line + 1, 1, c.pos + 1, c.pos + 1⟩
    else ⟨r, c.line, c.column + 1, c.pos + 1, c.lineStart⟩

/-- Moves past `n` characters. -/
def skip : Nat → Cursor → Cursor
  | 0, c => c
  | n + 1, c => skip n c.bump

/-- Moves past the longest run of characters that satisfy `p`. -/
def skipWhile (p : Char → Bool) (c : Cursor) : Cursor :=
  c.skip (c.rest.takeWhile p).length

/-- The characters that separate tokens on a line. -/
def isBlank (ch : Char) : Bool :=
  ch = ' ' || ch = '\t' || ch = '\r'

/-- Moves past a comment, which runs from `#` to the end of its line, if one starts here. -/
def passComment (c : Cursor) : Cursor :=
  match c.rest with
  | '#' :: _ => c.skipWhile (· != '\n')
  | _ => c

/-- Moves past blanks and then past one comment. -/
def skipGap (c : Cursor) : Cursor :=
  (c.skipWhile isBlank).passComment

/-- A move passes exactly one character. -/
theorem bump_rest (c : Cursor) : c.bump.rest = c.rest.drop 1 := by
  unfold bump
  split <;> (try split) <;> simp_all

/-- Skipping `n` characters drops them from the unread text. -/
theorem skip_rest (n : Nat) (c : Cursor) : (c.skip n).rest = c.rest.drop n := by
  induction n generalizing c with
  | zero => rfl
  | succ n ih => simp [skip, ih, bump_rest]

/-- Skipping a run never adds characters. -/
theorem skipWhile_rest_length_le (p : Char → Bool) (c : Cursor) :
    (c.skipWhile p).rest.length ≤ c.rest.length := by
  simp [skipWhile, skip_rest]

/-- Skipping a comment never adds characters. -/
theorem passComment_rest_length_le (c : Cursor) :
    c.passComment.rest.length ≤ c.rest.length := by
  unfold passComment
  split
  · exact skipWhile_rest_length_le _ _
  · exact Nat.le_refl _

/-- Skipping a gap never adds characters. -/
theorem skipGap_rest_length_le (c : Cursor) : c.skipGap.rest.length ≤ c.rest.length :=
  Nat.le_trans (passComment_rest_length_le _) (skipWhile_rest_length_le isBlank c)

end Cursor

/-- The characters that a string literal may not hold. -/
def isStringBreak (ch : Char) : Bool :=
  ch = '\r' || ch = '\n' || ch = '\t' || ch = '\\' || ch = '%'

/-- What the stream makes of a character and the text after it: a token of `extra + 1`
characters, or a problem found `offset` characters in. -/
inductive Found where
  | token (kind : Kind) (text : String) (extra : Nat)
  | fault (problem : Problem) (offset : Nat)
  deriving Repr, Inhabited

/-- An operator that may be followed by `=`: `single` alone, `double` with the `=`. -/
def Found.pair (ch : Char) (single double : Kind) (r : List Char) : Found :=
  match r with
  | '=' :: _ => .token double (String.ofList [ch, '=']) 1
  | _ => .token single (String.singleton ch) 0

/-- A string literal whose opening quote is followed by `r`. It ends at the next quote; a
character it may not hold, or the end of the text, is a fault at that character. -/
def Found.string (r : List Char) : Found :=
  let body := r.takeWhile fun ch => ch != '"' && !isStringBreak ch
  match r.drop body.length with
  | '"' :: _ => .token .string (String.ofList body) (body.length + 1)
  | ch :: _ => .fault (.stringCharacter (String.singleton ch)) (body.length + 1)
  | [] => .fault (.stringCharacter "\x00") (body.length + 1)

/-- A number whose first digit `d` is followed by `r`: digits, then a point with at least one
digit after it, if a point follows. A point with no digit after it is a fault at the point. -/
def Found.number (d : Char) (r : List Char) : Found :=
  let whole := r.takeWhile Char.isDigit
  match r.drop whole.length with
  | '.' :: after =>
    let frac := after.takeWhile Char.isDigit
    if frac.isEmpty then .fault (.bareFraction (String.ofList (d :: whole ++ ['.']))) (whole.length + 1)
    else .token .number (String.ofList (d :: whole ++ '.' :: frac)) (whole.length + 1 + frac.length)
  | _ => .token .number (String.ofList (d :: whole)) whole.length

/-- A word whose first letter `l` is followed by `r`: the longest run of ASCII letters. -/
def Found.word (l : Char) (r : List Char) : Found :=
  let rest := r.takeWhile Char.isAlpha
  let text := String.ofList (l :: rest)
  .token (Kind.ofWord text) text rest.length

/-- What the stream makes of the character `ch` followed by `r`. -/
def Found.at (ch : Char) (r : List Char) : Found :=
  if ch = '+' then .token .plus "+" 0
  else if ch = '-' then .token .minus "-" 0
  else if ch = '*' then .token .asterisk "*" 0
  else if ch = '/' then .token .slash "/" 0
  else if ch = '=' then Found.pair ch .eq .eqEq r
  else if ch = '>' then Found.pair ch .gt .gtEq r
  else if ch = '<' then Found.pair ch .lt .ltEq r
  else if ch = '!' then
    match r with
    | '=' :: _ => .token .notEq "!=" 1
    | _ => .fault (.loneBang r.head?) 0
  else if ch = '"' then Found.string r
  else if ch = '\n' then .token .newline "\n" 0
  else if ch.isDigit then Found.number ch r
  else if ch.isAlpha then Found.word ch r
  else .fault (.unknownCharacter ch) 0

/-- One for a token other than the end of the text, zero for the end. -/
def Token.pending (t : Token) : Nat :=
  if t.kind = .eof then 0 else 1

/-- A stream over one source: the file name for locations, the source with its closing line
feed, and the position reached. -/
structure TokenStream where
  file : String
  text : String
  cursor : Cursor
  deriving Repr, Inhabited

namespace TokenStream

/-- A stream at the start of `source`, which gets one closing line feed. -/
def start (file source : String) : TokenStream :=
  let text := source ++ "\n"
  ⟨file, text, ⟨text.toList, 1, 1, 0, 0⟩⟩

/-- Line `n` of the text, counting from 1, where lines are the pieces between line feeds. -/
def lineText (s : TokenStream) (n : Int) : Option String :=
  if n < 1 then none else ((s.text.toList.splitOn '\n').map String.ofList)[n.toNat - 1]?

/-- The line the cursor `c` stands on: the text from where its line starts up to the next line
feed, or up to the end of the text. -/
def currentLine (s : TokenStream) (c : Cursor) : String :=
  String.ofList ((s.text.toList.drop c.lineStart).takeWhile (· != '\n'))

/-- A diagnostic for `p` found at cursor `c`, with the text of the line it stands on. -/
def diagnose (s : TokenStream) (p : Problem) (c : Cursor) : Diagnostic :=
  { problem := p
    location := some ⟨s.file, c.line, c.column⟩
    sourceLine := some (s.currentLine c) }

/-- The token at cursor `c`, which stands after any gap, and the stream after it. After a
fault the stream stands on the character that caused it. -/
def scanAt (s : TokenStream) (c : Cursor) : Except Diagnostic Token × TokenStream :=
  match c.rest with
  | [] => (.ok ⟨.eof, "", c.line, c.column⟩, { s with cursor := c })
  | ch :: r =>
    match Found.at ch r with
    | .token k text n => (.ok ⟨k, text, c.line, c.column⟩, { s with cursor := c.skip (n + 1) })
    -- A fault leaves the stream on the character that caused it.
    | .fault p n => (.error (s.diagnose p (c.skip n)), { s with cursor := c.skip n })

/-- The next token and the stream after it. -/
def next (s : TokenStream) : Except Diagnostic Token × TokenStream :=
  s.scanAt s.cursor.skipGap

/-- A token costs its characters: after a token other than the end the stream has fewer
characters left, and after the end no more. -/
theorem next_rest_length {s s' : TokenStream} {t : Token} (h : s.next = (.ok t, s')) :
    s'.cursor.rest.length + t.pending ≤ s.cursor.rest.length := by
  have hg := Cursor.skipGap_rest_length_le s.cursor
  unfold next scanAt at h
  split at h
  · rename_i hr
    simp only [Prod.mk.injEq, Except.ok.injEq] at h
    obtain ⟨rfl, rfl⟩ := h
    simp [Token.pending]
    exact hg
  · rename_i ch r hr
    split at h
    · simp only [Prod.mk.injEq, Except.ok.injEq] at h
      obtain ⟨rfl, rfl⟩ := h
      simp only [Cursor.skip_rest, List.length_drop, hr, List.length_cons] at hg ⊢
      unfold Token.pending
      split <;> omega
    · simp at h

/-- The tokens from the stream's position up to and including the end token, or those before
a fault together with the fault. -/
def tokens (s : TokenStream) : List Token × Option Diagnostic :=
  match h : s.next with
  | (.error d, _) => ([], some d)
  | (.ok t, s') =>
    if hk : t.kind = .eof then ([t], none)
    else
      have : s'.cursor.rest.length < s.cursor.rest.length := by
        have := next_rest_length h
        simp only [Token.pending, hk, if_false] at this
        omega
      let (ts, e) := tokens s'
      (t :: ts, e)
termination_by s.cursor.rest.length

end TokenStream

end TinyBasic
