import TinyBasic.Text.Printable
/-!
# Escaped text

Two ways of writing a text with escapes, both built from the same pieces: a backslash before
a quote or backslash, the letters `n`, `r`, `t` for the three layout controls, and the
hexadecimal escape of a code point otherwise.

* `hexEscape` writes a code point as `\xhh` below 0x100, `\uhhhh` below 0x10000 and
  `\Uhhhhhhhh` above, in lower-case digits.
* `quote` writes a text as a quoted literal: single quotes unless the text holds a single
  quote and no double quote; printable characters stand as they are.
* `asciiEscape` writes a text in plain ASCII: printable ASCII stands as it is, every other
  character is escaped; quotes are not.
-/

namespace TinyBasic.Text

/-- The lower-case hexadecimal digits of `n`, padded with zeros on the left to `width`. -/
def hexDigits (width n : Nat) : List Char :=
  let ds := Nat.toDigits 16 n
  List.replicate (width - ds.length) '0' ++ ds

/-- The hexadecimal escape of a code point: two digits after `\x` below 0x100, four after `\u`
below 0x10000, eight after `\U` otherwise. -/
def hexEscape (n : Nat) : List Char :=
  if n < 0x100 then '\\' :: 'x' :: hexDigits 2 n
  else if n < 0x10000 then '\\' :: 'u' :: hexDigits 4 n
  else '\\' :: 'U' :: hexDigits 8 n

/-- The escape of a layout control by its letter, if it is one of line feed, carriage return
and tab. -/
def controlEscape (c : Char) : Option (List Char) :=
  if c = '\n' then some ['\\', 'n']
  else if c = '\r' then some ['\\', 'r']
  else if c = '\t' then some ['\\', 't']
  else none

/-- The quote character of a literal for `s`: a double quote when `s` holds a single quote and
no double quote, a single quote otherwise. -/
def quoteFor (s : List Char) : Char :=
  if s.contains '\'' && !s.contains '"' then '"' else '\''

/-- One character inside a literal delimited by `q`. -/
def quoteChar (q c : Char) : List Char :=
  if c = q || c = '\\' then ['\\', c]
  else match controlEscape c with
    | some e => e
    | none => if isPrintable c then [c] else hexEscape c.toNat

/-- The text as a quoted literal, with its delimiters. -/
def quote (s : String) : String :=
  let q := quoteFor s.toList
  String.ofList (q :: s.toList.flatMap (quoteChar q) ++ [q])

/-- One character in plain ASCII: printable ASCII other than the backslash stands as it is. -/
def asciiChar (c : Char) : List Char :=
  if c = '\\' then ['\\', '\\']
  else match controlEscape c with
    | some e => e
    | none => if 0x20 ≤ c.toNat && c.toNat < 0x7F then [c] else hexEscape c.toNat

/-- The text in plain ASCII, every other character escaped. -/
def asciiEscape (s : String) : String :=
  String.ofList (s.toList.flatMap asciiChar)

end TinyBasic.Text
