/-!
# Line ends

Text read from a file has its line ends made uniform: a carriage return followed by a line
feed, and a carriage return alone, each become one line feed.
-/

namespace TinyBasic.Text

/-- Each `\r\n` and each lone `\r` becomes `\n`. -/
def uniformLineEnds : List Char → List Char
  | '\r' :: '\n' :: rest => '\n' :: uniformLineEnds rest
  | '\r' :: rest => '\n' :: uniformLineEnds rest
  | c :: rest => c :: uniformLineEnds rest
  | [] => []

/-- The text with uniform line ends. -/
def withUniformLineEnds (s : String) : String :=
  String.ofList (uniformLineEnds s.toList)

end TinyBasic.Text
