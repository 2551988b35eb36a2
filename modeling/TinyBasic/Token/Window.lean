import TinyBasic.Token.Stream
/-!
# The token window

The parser sees two tokens at a time: the current one and the one after it. The window asks
the stream for a token each time it moves, so a fault of the stream surfaces when the token
before it becomes current, before the parser looks at that token.

* `Window.start` asks the stream for the first two tokens; `Window.advance` moves on by one.
* `Window.size` counts the characters the stream has left and the two tokens in view that
  are not the end. `advance_size_lt` says that moving on from a token other than the end makes
  it smaller, `advance_size_le` that no move makes it larger.
* `Window.After w` and `Window.NotBefore w` are the windows smaller than `w`, or no larger. The
  moves the parser makes (`step`, `expect`, `skipNewlines`, `lineBreak`) return them, so that
  every reader built from them is total.
-/

namespace TinyBasic

/-- The parser's view of the tokens: the current token, the one after it, the stream that
gives the tokens after those, and how many tokens have been current so far. -/
structure Window where
  current : Token
  peek : Token
  stream : TokenStream
  taken : Nat
  deriving Repr, Inhabited

namespace Window

/-- The characters the stream has left, and one for each of the two tokens in view that is
not the end. -/
def size (w : Window) : Nat :=
  w.stream.cursor.rest.length + w.peek.pending + w.current.pending

/-- The window on the first two tokens of a stream. -/
def start (s : TokenStream) : Except Diagnostic Window :=
  match s.next with
  | (.error d, _) => .error d
  | (.ok t, s) =>
    match s.next with
    | (.error d, _) => .error d
    | (.ok u, s) => .ok ⟨t, u, s, 1⟩

/-- Moves on by one token, asking the stream for the next one; the stream's fault, if it
meets one. -/
def advance (w : Window) : Except Diagnostic Window :=
  match w.stream.next with
  | (.ok t, s) => .ok ⟨w.peek, t, s, w.taken + 1⟩
  | (.error d, _) => .error d

/-- No move makes the window larger. -/
theorem advance_size_le {w w' : Window} (h : w.advance = .ok w') : w'.size ≤ w.size := by
  unfold advance at h
  split at h
  · rename_i t s hs
    simp only [Except.ok.injEq] at h
    subst h
    have := TokenStream.next_rest_length hs
    simp only [size]
    omega
  · simp at h

/-- Moving on from a token other than the end makes the window smaller. -/
theorem advance_size_lt {w w' : Window} (hk : w.current.kind ≠ .eof) (h : w.advance = .ok w') :
    w'.size < w.size := by
  unfold advance at h
  split at h
  · rename_i t s hs
    simp only [Except.ok.injEq] at h
    subst h
    have := TokenStream.next_rest_length hs
    have hc : w.current.pending = 1 := by simp [Token.pending, hk]
    simp only [size]
    omega
  · simp at h

/-- A window further on than `w`. -/
abbrev After (w : Window) := {w' : Window // w'.size < w.size}

/-- A window no further back than `w`. -/
abbrev NotBefore (w : Window) := {w' : Window // w'.size ≤ w.size}

/-- The current token is not the end when its kind is one that is not the end. -/
theorem current_ne_eof {w : Window} {k : Kind} (h : w.current.kind = k) (hk : k.isEnd = false) :
    w.current.kind ≠ .eof := h ▸ Kind.ne_eof hk

/-- Moves on by one token from a current token that is not the end. -/
def step (w : Window) (hk : w.current.kind ≠ .eof) : Except Diagnostic w.After :=
  match h : w.advance with
  | .ok w' => .ok ⟨w', advance_size_lt hk h⟩
  | .error d => .error d

/-- The location of the token `t` in the stream's file. -/
def locate (w : Window) (t : Token) : Location :=
  ⟨w.stream.file, t.line, t.column⟩

/-- A diagnostic for a problem at the token `t`, with the text of its line. -/
def diagnose (w : Window) (t : Token) (p : Problem) : Diagnostic :=
  { problem := p
    location := some (w.locate t)
    sourceLine := w.stream.lineText t.line }

/-- Takes the current token if it is of kind `k`, which is not the end; otherwise reports that
`k` was needed. -/
def expect (w : Window) (k : Kind) (hk : k.isEnd = false) (hint : Option String) :
    Except Diagnostic (Token × w.After) :=
  if h : w.current.kind = k then
    match w.step (current_ne_eof h hk) with
    | .ok w' => .ok (w.current, w')
    | .error d => .error d
  else .error (w.diagnose w.current (.missing k.name w.current.mention hint))

/-- Moves past any line breaks. -/
def skipNewlines (w : Window) : Except Diagnostic w.NotBefore :=
  if hk : w.current.kind = .newline then
    match w.step (current_ne_eof hk rfl) with
    | .ok ⟨w', h⟩ =>
      match skipNewlines w' with
      | .ok w'' => .ok ⟨w''.1, Nat.le_of_lt (Nat.lt_of_le_of_lt w''.2 h)⟩
      | .error d => .error d
    | .error d => .error d
  else .ok ⟨w, Nat.le.refl⟩
termination_by w.size

/-- The end of a statement: one line break, then any number of empty lines. -/
def lineBreak (w : Window) : Except Diagnostic w.After :=
  match w.expect .newline rfl (some "put each statement on its own line") with
  | .ok (_, ⟨w', h⟩) =>
    match w'.skipNewlines with
    | .ok w'' => .ok ⟨w''.1, Nat.lt_of_le_of_lt w''.2 h⟩
    | .error d => .error d
  | .error d => .error d

end Window

end TinyBasic
