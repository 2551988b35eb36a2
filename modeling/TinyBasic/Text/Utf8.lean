/-!
# UTF-8 decoding

Reading bytes as UTF-8, strictly: overlong forms, surrogates and code points above U+10FFFF
are refused. The first fault stops decoding and is reported by the bytes it covers:

* a byte that cannot start a character (`80`–`C1`, `F5`–`FF`) covers itself;
* a character cut short by a byte that cannot continue it covers the bytes before that byte;
* a character cut short by the end of the input covers everything to the end.

* `Utf8Fault.message` words a fault the way the report of an unreadable source shows it.
* `decodeUtf8` gives the characters or the first fault.
-/

namespace TinyBasic.Text

/-- Why a byte sequence is not UTF-8. -/
inductive Utf8Reason where
  | invalidStart
  | invalidContinuation
  | unexpectedEnd
  deriving DecidableEq, Repr, Inhabited

/-- The first fault of a byte sequence: the bytes from `start` up to, not including, `stop`,
the byte at `start`, and why. -/
structure Utf8Fault where
  start : Nat
  stop : Nat
  byte : UInt8
  reason : Utf8Reason
  deriving DecidableEq, Repr, Inhabited

/-- The wording of each reason. -/
def Utf8Reason.text : Utf8Reason → String
  | .invalidStart => "invalid start byte"
  | .invalidContinuation => "invalid continuation byte"
  | .unexpectedEnd => "unexpected end of data"

/-- Two lower-case hexadecimal digits of a byte. -/
def byteHex (b : UInt8) : String :=
  let ds := Nat.toDigits 16 b.toNat
  String.ofList (List.replicate (2 - ds.length) '0' ++ ds)

/-- The report of a fault: one byte by its value and position, several by their range. -/
def Utf8Fault.message (f : Utf8Fault) : String :=
  let what :=
    if f.stop = f.start + 1 then "byte 0x" ++ byteHex f.byte ++ " in position " ++ toString f.start
    else "bytes in position " ++ toString f.start ++ "-" ++ toString (f.stop - 1)
  "'utf-8' codec can't decode " ++ what ++ ": " ++ f.reason.text

/-- A byte that continues a character: `80`–`BF`. -/
def isContinuation (c : UInt8) : Bool :=
  0x80 ≤ c && c < 0xC0

/-- Whether `c` may follow the first byte `b` of a character of three or four bytes; the
bounds on the second byte refuse overlong forms, surrogates and code points above U+10FFFF. -/
def secondFits (b c : UInt8) : Bool :=
  if b = 0xE0 then 0xA0 ≤ c && c < 0xC0
  else if b = 0xED then 0x80 ≤ c && c < 0xA0
  else if b = 0xF0 then 0x90 ≤ c && c < 0xC0
  else if b = 0xF4 then 0x80 ≤ c && c < 0x90
  else isContinuation c

/-- The low six bits of a continuation byte. -/
def low6 (c : UInt8) : Nat :=
  c.toNat % 64

/-- Decodes the bytes from position `pos` on, after the characters `acc` (in reverse). -/
def decodeFrom (pos : Nat) (acc : List Char) : List UInt8 → Except Utf8Fault (List Char)
  | [] => .ok acc.reverse
  | b :: rest =>
    let fault (n : Nat) (r : Utf8Reason) : Except Utf8Fault (List Char) := .error ⟨pos, pos + n, b, r⟩
    if b < 0x80 then decodeFrom (pos + 1) (Char.ofNat b.toNat :: acc) rest
    else if b < 0xC2 || 0xF4 < b then fault 1 .invalidStart
    else if b < 0xE0 then
      match rest with
      | c :: rest =>
        if isContinuation c then
          decodeFrom (pos + 2) (Char.ofNat ((b.toNat % 32) * 64 + low6 c) :: acc) rest
        else fault 1 .invalidContinuation
      | [] => fault 1 .unexpectedEnd
    else if b < 0xF0 then
      match rest with
      | c :: d :: rest =>
        if !secondFits b c then fault 1 .invalidContinuation
        else if !isContinuation d then fault 2 .invalidContinuation
        else
          decodeFrom (pos + 3) (Char.ofNat ((b.toNat % 16) * 4096 + low6 c * 64 + low6 d) :: acc) rest
      | [c] => if !secondFits b c then fault 1 .invalidContinuation else fault 2 .unexpectedEnd
      | [] => fault 1 .unexpectedEnd
    else
      match rest with
      | c :: d :: e :: rest =>
        if !secondFits b c then fault 1 .invalidContinuation
        else if !isContinuation d then fault 2 .invalidContinuation
        else if !isContinuation e then fault 3 .invalidContinuation
        else
          let n := (b.toNat % 8) * 262144 + low6 c * 4096 + low6 d * 64 + low6 e
          decodeFrom (pos + 4) (Char.ofNat n :: acc) rest
      | [c, d] =>
        if !secondFits b c then fault 1 .invalidContinuation
        else if !isContinuation d then fault 2 .invalidContinuation
        else fault 3 .unexpectedEnd
      | [c] => if !secondFits b c then fault 1 .invalidContinuation else fault 2 .unexpectedEnd
      | [] => fault 1 .unexpectedEnd

/-- The characters that the bytes encode, or the first fault. -/
def decodeUtf8 (bytes : List UInt8) : Except Utf8Fault String :=
  (decodeFrom 0 [] bytes).map String.ofList

end TinyBasic.Text
