import TinyBasic.Text.Escape
/-!
# Tokens

The tokens of the BASIC dialect: end of text, line breaks, numbers, names, strings, the
eleven keywords and the arithmetic and comparison operators. A token carries its text and the
line and column where it starts, both counted from 1.

* `Kind` classifies tokens; `Kind.name` is the upper-case name used in listings and messages.
* `Kind.ofWord` tells a keyword from a name: a word is a keyword when it is exactly one of the
  eleven upper-case spellings.
* `Token.mention` names a token in a message; `Token.listing` is the one-line form of a token
  in a token listing.
-/

namespace TinyBasic

/-- The kinds of token. Keywords carry the suffix `Kw`. -/
inductive Kind where
  | eof
  | newline
  | number
  | identifier
  | string
  | labelKw
  | gotoKw
  | printKw
  | inputKw
  | letKw
  | ifKw
  | thenKw
  | endifKw
  | whileKw
  | repeatKw
  | endwhileKw
  | eq
  | plus
  | minus
  | asterisk
  | slash
  | eqEq
  | notEq
  | lt
  | ltEq
  | gt
  | gtEq
  deriving DecidableEq, Repr, Inhabited

namespace Kind

/-- The upper-case name of a kind, as listings and messages show it. -/
def name : Kind → String
  | eof => "EOF"
  | newline => "NEWLINE"
  | number => "NUMBER"
  | identifier => "IDENTIFIER"
  | string => "STRING"
  | labelKw => "LABEL"
  | gotoKw => "GOTO"
  | printKw => "PRINT"
  | inputKw => "INPUT"
  | letKw => "LET"
  | ifKw => "IF"
  | thenKw => "THEN"
  | endifKw => "ENDIF"
  | whileKw => "WHILE"
  | repeatKw => "REPEAT"
  | endwhileKw => "ENDWHILE"
  | eq => "EQ"
  | plus => "PLUS"
  | minus => "MINUS"
  | asterisk => "ASTERISK"
  | slash => "SLASH"
  | eqEq => "EQEQ"
  | notEq => "NOTEQ"
  | lt => "LT"
  | ltEq => "LTEQ"
  | gt => "GT"
  | gtEq => "GTEQ"

/-- The keywords, each with its spelling. -/
def keywords : List (String × Kind) :=
  [("LABEL", labelKw), ("GOTO", gotoKw), ("PRINT", printKw), ("INPUT", inputKw),
   ("LET", letKw), ("IF", ifKw), ("THEN", thenKw), ("ENDIF", endifKw),
   ("WHILE", whileKw), ("REPEAT", repeatKw), ("ENDWHILE", endwhileKw)]

/-- The kind of a word: the keyword it spells exactly, or a name. -/
def ofWord (w : String) : Kind :=
  match keywords.lookup w with
  | some k => k
  | none => identifier

/-- Whether a kind is the end of the text. -/
def isEnd : Kind → Bool
  | eof => true
  | _ => false

/-- A kind that is not the end of the text is not `eof`. -/
theorem ne_eof {k : Kind} (h : k.isEnd = false) : k ≠ eof := by
  rintro rfl
  simp [isEnd] at h

/-- The six comparison operators. -/
def isComparison : Kind → Bool
  | eqEq | notEq | lt | ltEq | gt | gtEq => true
  | _ => false

/-- The two additive operators. -/
def isAdditive : Kind → Bool
  | plus | minus => true
  | _ => false

/-- The two multiplicative operators. -/
def isMultiplicative : Kind → Bool
  | asterisk | slash => true
  | _ => false

end Kind

/-- A token: its kind, its text, and the line and column of its first character. The text of a
string leaves out the quotes; the text of end of text is empty. -/
structure Token where
  kind : Kind
  text : String
  line : Nat
  column : Nat
  deriving DecidableEq, Repr, Inhabited

namespace Token

/-- How a message names the token: a number or a name with its text in single quotes, a string
with its text in double quotes, anything else by the name of its kind. -/
def mention (t : Token) : String :=
  match t.kind with
  | .identifier | .number => t.kind.name ++ " '" ++ t.text ++ "'"
  | .string => "STRING \"" ++ t.text ++ "\""
  | k => k.name

/-- The listing form of a token, `Token(KIND, 'text', line:column)`; the text is written as a
quoted literal and left out when it is empty. -/
def listing (t : Token) : String :=
  let place := toString t.line ++ ":" ++ toString t.column
  if t.text.isEmpty then "Token(" ++ t.kind.name ++ ", " ++ place ++ ")"
  else "Token(" ++ t.kind.name ++ ", " ++ Text.quote t.text ++ ", " ++ place ++ ")"

end Token

end TinyBasic
