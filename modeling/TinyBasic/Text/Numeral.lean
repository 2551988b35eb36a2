/-!
# Whole numbers written in any script

A whole number on the command line may be written with the decimal digits of any script, and
may have blanks around it.

* `digitZeros` lists where Unicode 14.0 puts the digit zero of each set of decimal digits
  (general category Nd). Every such set is ten consecutive code points, zero to nine, so the
  value of a digit is its distance from the zero of its set (`digitValue?`).
* `isWideBlank` decides the blanks beyond ASCII: the characters beyond U+007E with the
  Unicode White_Space property (space separators, and line and paragraph breaks).
* `readInt?` reads a number: each digit beyond ASCII counts as its ASCII digit and each wide
  blank as a space; then ASCII blanks around, an optional sign, and digits with single
  underscores between them. Any other character makes the text unreadable, and so do more than
  `maxDigits` digits.
-/

namespace TinyBasic.Text

/-- The code point of the zero of each set of ten decimal digits, in increasing order. -/
def digitZeros : List Nat := [
  0x30, 0x660, 0x6F0, 0x7C0, 0x966, 0x9E6, 0xA66, 0xAE6, 0xB66, 0xBE6, 0xC66, 0xCE6, 0xD66,
  0xDE6, 0xE50, 0xED0, 0xF20, 0x1040, 0x1090, 0x17E0, 0x1810, 0x1946, 0x19D0, 0x1A80, 0x1A90,
  0x1B50, 0x1BB0, 0x1C40, 0x1C50, 0xA620, 0xA8D0, 0xA900, 0xA9D0, 0xA9F0, 0xAA50, 0xABF0,
  0xFF10, 0x104A0, 0x10D30, 0x11066, 0x110F0, 0x11136, 0x111D0, 0x112F0, 0x11450, 0x114D0,
  0x11650, 0x116C0, 0x11730, 0x118E0, 0x11950, 0x11C50, 0x11D50, 0x11DA0, 0x16A60, 0x16AC0,
  0x16B50, 0x1D7CE, 0x1D7D8, 0x1D7E2, 0x1D7EC, 0x1D7F6, 0x1E140, 0x1E2F0, 0x1E950, 0x1FBF0]

/-- The value of a decimal digit of any script. -/
def digitValue? (c : Char) : Option Nat :=
  (digitZeros.find? fun z => z ≤ c.toNat && c.toNat < z + 10).map (c.toNat - ·)

/-- The blanks beyond ASCII: next line, no-break space, the Ogham space mark, the spaces from
U+2000 to U+200A, the line and paragraph separators, the narrow no-break space, the medium
mathematical space and the ideographic space. -/
def isWideBlank (c : Char) : Bool :=
  let n := c.toNat
  n = 0x85 || n = 0xA0 || n = 0x1680 || (0x2000 ≤ n && n ≤ 0x200A) || n = 0x2028 ||
    n = 0x2029 || n = 0x202F || n = 0x205F || n = 0x3000

/-- The ASCII blanks around a number: space, tab, line feed, vertical tab, form feed and
carriage return. -/
def isAsciiBlank (c : Char) : Bool :=
  c = ' ' || ('\t' ≤ c && c ≤ '\r')

/-- A character as a number reads it: ASCII stands as it is, a wide blank is a space and a
digit of another script is its ASCII digit; anything else cannot be read. -/
def numeralChar? (c : Char) : Option Char :=
  if c.toNat < 0x7F then some c
  else if isWideBlank c then some ' '
  else (digitValue? c).map fun d => Char.ofNat ('0'.toNat + d)

/-- Reads digits with single underscores between them, adding them to `acc`; gives the value and
the rest of the text after the last digit. The text starts just after a digit. -/
def readDigitsAfter (acc : Nat) : List Char → Nat × List Char
  | '_' :: d :: rest =>
    if d.isDigit then readDigitsAfter (acc * 10 + (d.toNat - '0'.toNat)) rest
    else (acc, '_' :: d :: rest)
  | d :: rest =>
    if d.isDigit then readDigitsAfter (acc * 10 + (d.toNat - '0'.toNat)) rest
    else (acc, d :: rest)
  | [] => (acc, [])

/-- The most digits a number may be written with; leading zeros count. -/
def maxDigits : Nat := 4300

/-- Reads a whole number in decimal: blanks around it, an optional sign, then at most
`maxDigits` digits of any script with single underscores between them. -/
def readInt? (s : String) : Option Int := do
  let cs ← s.toList.mapM numeralChar?
  if (cs.filter Char.isDigit).length > maxDigits then none
  let cs := cs.dropWhile isAsciiBlank
  let (neg, body) := match cs with
    | '-' :: r => (true, r)
    | '+' :: r => (false, r)
    | r => (false, r)
  match body with
  | d :: rest =>
    if d.isDigit then
      let (n, after) := readDigitsAfter (d.toNat - '0'.toNat) rest
      if after.all isAsciiBlank then some (if neg then -(n : Int) else n) else none
    else none
  | [] => none

end TinyBasic.Text
