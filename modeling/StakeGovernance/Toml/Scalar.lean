import StakeGovernance.Text.Decimal
import StakeGovernance.Toml.Basic

/-!
# Texts, numbers and dates in TOML

Each reader takes one thing from the front of a row of characters and returns the rest.
There are four kinds of string literals: with escapes or without, on one line or on
several.

* `StakeGovernance.Toml.readString` – a **string literal**;
* `StakeGovernance.Toml.readNumber` – a **number**;
* `StakeGovernance.Toml.readMoment` – a **date** or a time.
-/

namespace StakeGovernance.Toml

/-! ### Characters -/

/-- The blanks of a line. -/
def isBlank (c : Char) : Bool := c = ' ' || c = '\t'

/-- What follows the blanks. -/
def skipBlanks (cs : List Char) : List Char := cs.dropWhile isBlank

/-- The characters that may stand in a comment: all but controls. -/
def isPlain (c : Char) : Bool := c = '\t' || (' ' ≤ c && c ≠ '\x7f')

/-- What follows the end of a line. -/
def newline? : List Char → Option (List Char)
  | '\n' :: cs => some cs
  | '\r' :: '\n' :: cs => some cs
  | _ => none

/-- What follows blanks and ends of lines. -/
def skipLines : List Char → List Char
  | '\r' :: '\n' :: cs => skipLines cs
  | c :: cs => if isBlank c || c = '\n' then skipLines cs else c :: cs
  | [] => []

/-- What follows blanks, ends of lines and comments; `inside` a comment or not. -/
def skipGap (inside : Bool) : List Char → List Char
  | '\r' :: '\n' :: cs => skipGap false cs
  | c :: cs =>
    if inside && isPlain c then skipGap true cs
    else if c = '#' then skipGap true cs
    else if isBlank c || c = '\n' then skipGap false cs
    else c :: cs
  | [] => []

/-! ### String literals -/

/-- The value of a row of hexadecimal digits. -/
def hexValue? (cs : List Char) : Option Nat :=
  cs.foldlM (fun n c =>
    if '0' ≤ c ∧ c ≤ '9' then some (16 * n + (c.toNat - 48))
    else if 'a' ≤ c ∧ c ≤ 'f' then some (16 * n + (c.toNat - 87))
    else if 'A' ≤ c ∧ c ≤ 'F' then some (16 * n + (c.toNat - 55))
    else none) 0

/-- The character of a number, if there is one. -/
def charOf? (n : Nat) : Option Char := if n.isValidChar then some (Char.ofNat n) else none

/-- The character that an escape stands for, after its backslash. -/
def readEscape : List Char → Option (Char × List Char)
  | 'b' :: cs => some ('\x08', cs)
  | 't' :: cs => some ('\t', cs)
  | 'n' :: cs => some ('\n', cs)
  | 'f' :: cs => some ('\x0c', cs)
  | 'r' :: cs => some ('\r', cs)
  | '"' :: cs => some ('"', cs)
  | '\\' :: cs => some ('\\', cs)
  | 'u' :: a :: b :: c :: d :: cs =>
    ((hexValue? [a, b, c, d]).bind charOf?).map fun x => (x, cs)
  | 'U' :: a :: b :: c :: d :: e :: f :: g :: h :: cs =>
    ((hexValue? [a, b, c, d, e, f, g, h]).bind charOf?).map fun x => (x, cs)
  | _ => none

/-- What follows the end of a line that is escaped, after the backslash: the lines are
joined, without the blanks between them. -/
def joinLines? (cs : List Char) : Option (List Char) := (newline? (skipBlanks cs)).map skipLines

/-- The text that was read, the last character first. -/
def textOf (acc : List Char) : String := String.ofList acc.reverse

/-- Reads the rest of a literal with escapes on one line. -/
def readBasic (acc : List Char) : Nat → List Char → Option (String × List Char)
  | _, '"' :: cs => some (textOf acc, cs)
  | fuel + 1, '\\' :: cs => (readEscape cs).bind fun (c, cs) => readBasic (c :: acc) fuel cs
  | fuel + 1, c :: cs => if isPlain c then readBasic (c :: acc) fuel cs else none
  | _, _ => none

/-- Reads the rest of a literal on several lines. It ends with three quotation marks, and
up to two more may stand just before them. -/
def readMultiline (mark : Char) (escapes : Bool) (acc : List Char) :
    Nat → List Char → Option (String × List Char)
  | 0, _ => none
  | fuel + 1, cs =>
    let marks := (cs.takeWhile (· = mark)).length
    if 3 ≤ marks then
      let extra := min marks 5 - 3
      some (textOf (List.replicate extra mark ++ acc), cs.drop (3 + extra))
    else
      match newline? cs with
      | some cs => readMultiline mark escapes ('\n' :: acc) fuel cs
      | none =>
        match cs with
        | [] => none
        | c :: cs =>
          if escapes && c = '\\' then
            match joinLines? cs with
            | some cs => readMultiline mark escapes acc fuel cs
            | none =>
              (readEscape cs).bind fun (c, cs) => readMultiline mark escapes (c :: acc) fuel cs
          else if isPlain c then readMultiline mark escapes (c :: acc) fuel cs
          else none

/-- Reads the rest of a literal without escapes on one line. -/
def readVerbatim (cs : List Char) : Option (String × List Char) :=
  let plain := fun c => isPlain c && c ≠ '\''
  match cs.dropWhile plain with
  | '\'' :: rest => some (String.ofList (cs.takeWhile plain), rest)
  | _ => none

/-- The text after the end of a line, if there is one first. -/
def dropNewline (cs : List Char) : List Char := (newline? cs).getD cs

/-- Reads a literal on one line, as it may also stand for a key. -/
def readLine : List Char → Option (String × List Char)
  | '"' :: cs => readBasic [] cs.length cs
  | '\'' :: cs => readVerbatim cs
  | _ => none

/-- Reads **a string literal**. -/
def readString : List Char → Option (String × List Char)
  | '"' :: '"' :: '"' :: cs => readMultiline '"' true [] (cs.length + 1) (dropNewline cs)
  | '\'' :: '\'' :: '\'' :: cs => readMultiline '\'' false [] (cs.length + 1) (dropNewline cs)
  | cs => readLine cs

/-! ### Numbers -/

/-- The digits after the first one. Two of them may be parted by one low line. -/
def moreDigits (isDigit : Char → Bool) : List Char → Option (List Char × List Char)
  | '_' :: c :: cs =>
    if isDigit c then (moreDigits isDigit cs).map fun (ds, cs) => (c :: ds, cs) else none
  | ['_'] => none
  | c :: cs =>
    if isDigit c then (moreDigits isDigit cs).map fun (ds, cs) => (c :: ds, cs)
    else some ([], c :: cs)
  | [] => some ([], [])

/-- One digit or more. -/
def readDigits (isDigit : Char → Bool) : List Char → Option (List Char × List Char)
  | c :: cs =>
    if isDigit c then (moreDigits isDigit cs).map fun (ds, cs) => (c :: ds, cs) else none
  | [] => none

/-- A sign, if there is one. -/
def readSign : List Char → Bool × List Char
  | '+' :: cs => (false, cs)
  | '-' :: cs => (true, cs)
  | cs => (false, cs)

/-- The digits of an integer: nothing follows a leading zero. -/
def readWhole : List Char → Option (List Char × List Char)
  | '0' :: cs => some (['0'], cs)
  | cs => readDigits Char.isDigit cs

/-- The digits of a fraction, none if there is no point. -/
def readFraction : List Char → Option (List Char × List Char)
  | '.' :: cs => readDigits Char.isDigit cs
  | cs => some ([], cs)

/-- The digits of an exponent with their sign, none if there is no mark. -/
def readExponent : List Char → Option ((Bool × List Char) × List Char)
  | c :: cs =>
    if c = 'e' ∨ c = 'E' then
      let (negative, cs) := readSign cs
      (readDigits Char.isDigit cs).map fun (ds, cs) => ((negative, ds), cs)
    else some ((false, []), c :: cs)
  | [] => some ((false, []), [])

/-- The value of a row of digits. -/
def valueOf (radix : Nat) (ds : List Char) : Nat :=
  ds.foldl (fun n c => radix * n + ((hexValue? [c]).getD 0)) 0

/-- Whether `m · 10^e` is rounded to infinity by a floating-point number of 64 bits, that
is, whether it lies at or above the middle between the greatest one and `2^1024`. -/
def isHuge (m : Nat) (e : Int) : Bool :=
  let limit := (1 <<< 1024) - (1 <<< 970)
  let size := (Decimal.digits m).length + e
  if m = 0 ∨ size < 309 then false
  else if 309 < size then true
  else if 0 ≤ e then limit ≤ m * Nat.pow 10 e.toNat
  else limit * Nat.pow 10 (-e).toNat ≤ m

/-- The rest of an integer with a radix. -/
def readRadix (radix : Nat) (cs : List Char) : Option (Toml × List Char) := do
  let (ds, cs) ← readDigits (fun c => (hexValue? [c]).any (· < radix)) cs
  return (← integer? (valueOf radix ds), cs)

/-- What was read, when `rest` is left. -/
def readText (cs rest : List Char) : String := String.ofList (cs.take (cs.length - rest.length))

/-- The names of the numbers that have no digits. -/
def readSpecial (cs : List Char) : Option (List Char) :=
  match (readSign cs).2 with
  | 'i' :: 'n' :: 'f' :: cs | 'n' :: 'a' :: 'n' :: cs => some cs
  | _ => none

/-- A decimal number: an integer, unless a fraction or an exponent makes it a
floating-point number. -/
def readDecimal (start : List Char) : Option (Toml × List Char) := do
  let (negative, cs) := readSign start
  let (whole, cs) ← readWhole cs
  let (fraction, cs) ← readFraction cs
  let ((down, exponent), cs) ← readExponent cs
  if fraction.isEmpty && exponent.isEmpty then
    let n := (valueOf 10 whole : Int)
    return (← integer? (if negative then -n else n), cs)
  else
    let e := (valueOf 10 exponent : Int)
    let shift := (if down then -e else e) - fraction.length
    if !negative && isHuge (valueOf 10 (whole ++ fraction)) shift then none
    else return (.float (readText start cs), cs)

/-- Reads **a number**. -/
def readNumber : List Char → Option (Toml × List Char)
  | '0' :: 'x' :: cs => readRadix 16 cs
  | '0' :: 'o' :: cs => readRadix 8 cs
  | '0' :: 'b' :: cs => readRadix 2 cs
  | cs =>
    match readSpecial cs with
    | some rest => some (.float (readText cs rest), rest)
    | none => readDecimal cs

/-! ### Dates -/

/-- Two digits that make a number of a range. -/
def readPair (low high : Nat) : List Char → Option (Nat × List Char)
  | c :: d :: cs => do
    let n := 10 * (← Decimal.digit? c) + (← Decimal.digit? d)
    if low ≤ n ∧ n ≤ high then some (n, cs) else none
  | _ => none

/-- What follows a certain character. -/
def after? (c : Char) : List Char → Option (List Char)
  | d :: cs => if c = d then some cs else none
  | [] => none

/-- The number of days of a month. -/
def daysOf (year month : Nat) : Nat :=
  if month = 2 then
    if year % 4 = 0 ∧ (year % 100 ≠ 0 ∨ year % 400 = 0) then 29 else 28
  else if month = 4 ∨ month = 6 ∨ month = 9 ∨ month = 11 then 30
  else 31

/-- A date. -/
def readDate (cs : List Char) : Option (List Char) := do
  let (century, cs) ← readPair 0 99 cs
  let (year, cs) ← readPair 0 99 cs
  let (month, cs) ← readPair 1 12 (← after? '-' cs)
  let (_, cs) ← readPair 1 (daysOf (100 * century + year) month) (← after? '-' cs)
  return cs

/-- A time of day. -/
def readTime (cs : List Char) : Option (List Char) := do
  let (_, cs) ← readPair 0 23 cs
  let (_, cs) ← readPair 0 59 (← after? ':' cs)
  let (_, cs) ← readPair 0 60 (← after? ':' cs)
  match cs with
  | '.' :: c :: cs => if c.isDigit then return cs.dropWhile Char.isDigit else none
  | cs => return cs

/-- The offset of a time of day, if there is one. -/
def skipOffset : List Char → List Char
  | 'Z' :: cs | 'z' :: cs => cs
  | c :: cs =>
    let offset := do
      let (_, cs) ← readPair 0 23 cs
      let (_, cs) ← readPair 0 59 (← after? ':' cs)
      return cs
    if c = '+' ∨ c = '-' then offset.getD (c :: cs) else c :: cs
  | [] => []

/-- The time that may follow a date. -/
def skipTime : List Char → List Char
  | c :: cs =>
    if c = 'T' ∨ c = 't' ∨ c = ' ' then ((readTime cs).map skipOffset).getD (c :: cs) else c :: cs
  | [] => []

/-- Reads **a date** with or without a time, or a time alone. -/
def readMoment (cs : List Char) : Option (List Char) :=
  match readDate cs with
  | some cs => some (skipTime cs)
  | none => readTime cs

end StakeGovernance.Toml
