import StakeGovernance.Text.Basic

/-!
# Hexadecimal text

Each byte is written as two digits, the high one first. Writing uses lower case;
reading accepts both cases and works on the bytes of the text, so that a position in
an error counts bytes and a character outside ASCII is reported by its first byte.

* `StakeGovernance.Hex.encode` – bytes as **hexadecimal text**;
* `StakeGovernance.Hex.decode` – the bytes that a text denotes;
* `StakeGovernance.Hex.Error` – why a text is refused: an odd length first of all,
  then the leftmost character that is no digit.
-/

namespace StakeGovernance.Hex

/-! ### Writing -/

/-- The digit of a number below sixteen. -/
def digit (n : Nat) : Char :=
  if n < 10 then Char.ofNat ('0'.toNat + n) else Char.ofNat ('a'.toNat + (n - 10))

/-- The digits of a row of bytes. -/
def encodeChars (bs : Bytes) : List Char :=
  bs.flatMap fun b => [digit (b.toNat / 16), digit (b.toNat % 16)]

/-- Bytes as **hexadecimal text**, in lower case. -/
def encode (bs : Bytes) : String := String.ofList (encodeChars bs)

/-- Hexadecimal text after the mark `0x`. -/
def encodeMarked (bs : Bytes) : String := "0x" ++ encode bs

/-! ### Reading -/

/-- **Why a text is not hexadecimal.** -/
inductive Error where
  /-- The number of bytes of the text is odd. -/
  | oddLength
  /-- The byte at a position is no digit. -/
  | invalidCharacter (byte : UInt8) (position : Nat)
deriving DecidableEq, Repr

/-- A byte as a quoted character of the Latin-1 range: the usual escapes, and the code
point in braces for what cannot be seen. -/
def quotedByte (b : UInt8) : String :=
  let body :=
    if b = 0 then "\\0"
    else if b = 9 then "\\t"
    else if b = 10 then "\\n"
    else if b = 13 then "\\r"
    else if b = 39 then "\\'"
    else if b = 92 then "\\\\"
    else if b < 32 ∨ (127 ≤ b ∧ b ≤ 160) ∨ b = 173 then
      "\\u\x7b" ++ String.ofList (Nat.toDigits 16 b.toNat) ++ "\x7d"
    else String.singleton (Char.ofNat b.toNat)
  "'" ++ body ++ "'"

/-- The wording of an error. -/
def Error.message : Error → String
  | .oddLength => "Odd number of digits"
  | .invalidCharacter b position =>
    "Invalid character " ++ quotedByte b ++ " at position " ++ toString position

/-- The value of a digit of either case. -/
def value? (b : UInt8) : Option Nat :=
  if 48 ≤ b ∧ b ≤ 57 then some (b.toNat - 48)
  else if 97 ≤ b ∧ b ≤ 102 then some (b.toNat - 87)
  else if 65 ≤ b ∧ b ≤ 70 then some (b.toNat - 55)
  else none

/-- Reads pairs of digits from position `position` on; `acc` holds the bytes read so
far, the last one first. -/
def decodePairs (acc : Bytes) (position : Nat) : Bytes → Except Error Bytes
  | [] => .ok acc.reverse
  | [_] => .error .oddLength
  | high :: low :: rest =>
    match value? high, value? low with
    | none, _ => .error (.invalidCharacter high position)
    | some _, none => .error (.invalidCharacter low (position + 1))
    | some h, some l => decodePairs (UInt8.ofNat (16 * h + l) :: acc) (position + 2) rest

/-- **The bytes that a text denotes.** -/
def decode (text : String) : Except Error Bytes :=
  let bs := utf8Bytes text
  if bs.length % 2 = 0 then decodePairs [] 0 bs else .error .oddLength

end StakeGovernance.Hex
