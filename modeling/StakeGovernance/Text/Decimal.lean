import StakeGovernance.Word

/-!
# Decimal integers in text

A decimal integer is a row of digits, with a plus sign in front if one likes. Two
readers are needed: one for a bare row of digits, whose length is not limited, and
one for a word, which also says why a text is refused. A text can be wrong in two
ways at once, by a character that is no digit and by a value that is too large; the
reader goes from left to right and reports what it meets first.

* `StakeGovernance.Decimal.ofDigits?` – the value of a **row of digits**;
* `StakeGovernance.Decimal.Error` – why a text is **no word**;
* `StakeGovernance.Word.ofText` – the **word** that a text denotes.
-/

namespace StakeGovernance

namespace Decimal

/-- The value of a decimal digit. -/
def digit? (c : Char) : Option Nat :=
  if '0' ≤ c ∧ c ≤ '9' then some (c.toNat - '0'.toNat) else none

/-- The value of the digits `cs` written after digits of value `acc`. -/
def continue? (acc : Nat) : List Char → Option Nat
  | [] => some acc
  | c :: cs => (digit? c).bind fun d => continue? (10 * acc + d) cs

/-- The value of a non-empty **row of digits**. -/
def ofDigits? : List Char → Option Nat
  | [] => none
  | cs => continue? 0 cs

/-- The digits of a number, without leading zeros. -/
def digits (n : Nat) : List Char := Nat.toDigits 10 n

/-- **Why a text denotes no word.** -/
inductive Error where
  /-- There is nothing to read. -/
  | empty
  /-- A character is no digit. -/
  | invalidDigit
  /-- The value does not fit the width. -/
  | tooLarge
deriving DecidableEq, Repr

/-- The wording of an error. -/
def Error.message : Error → String
  | .empty => "cannot parse integer from empty string"
  | .invalidDigit => "invalid digit found in string"
  | .tooLarge => "number too large to fit in target type"

/-- Reads digits after the value `acc`, never leaving the words of `bits` bits. -/
def scan {bits : Nat} (acc : Word bits) : List Char → Except Error (Word bits)
  | [] => .ok acc
  | c :: cs =>
    match digit? c with
    | none => .error .invalidDigit
    | some d =>
      match Word.ofNat? (10 * acc.toNat + d) with
      | none => .error .tooLarge
      | some next => scan next cs

end Decimal

/-- **The word that a text denotes**: digits, after a plus sign if there is one. -/
def Word.ofText {bits : Nat} (text : String) : Except Decimal.Error (Word bits) :=
  match text.toList with
  | [] => .error .empty
  | ['+'] => .error .invalidDigit
  | '+' :: cs => Decimal.scan .zero cs
  | cs => Decimal.scan .zero cs

end StakeGovernance
