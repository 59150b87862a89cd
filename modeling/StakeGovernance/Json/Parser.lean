import StakeGovernance.Json.Basic

/-!
# Reading JSON

A recursive-descent reader over the characters of a text. Each function reads one
thing from the front and returns the rest. The nesting is bounded by a number that is
computed from the length of the text, so that it never runs out on a text that is
well-formed.

A literal may be well-formed and still denote no text: escapes are UTF-16 code units, and
half of a pair of surrogates may stand alone. Where numbers are the keys of a table, they
have to be written without escapes; as some keys of an object are numbers and others are
names, it is the value that cannot be read then.

* `StakeGovernance.Json.Literal`, `StakeGovernance.Json.parseLiteral` – the rest of a
  **string literal**, with escapes resolved and pairs of surrogates joined;
* `StakeGovernance.Json.parseNumber` – a **number**;
* `StakeGovernance.Json.parse?`, `StakeGovernance.Json.parseTables?` – the **value of a
  text**, if it is one value and nothing else.
-/

namespace StakeGovernance.Json

/-- The blanks that may stand between tokens. -/
def isBlank (c : Char) : Bool := c = ' ' || c = '\n' || c = '\r' || c = '\t'

/-- What follows the blanks. -/
def skipBlanks (cs : List Char) : List Char := cs.dropWhile isBlank

/-! ### String literals -/

/-- The value of a hexadecimal digit of either case. -/
def escapeValue? (c : Char) : Option Nat :=
  if '0' ≤ c ∧ c ≤ '9' then some (c.toNat - 48)
  else if 'a' ≤ c ∧ c ≤ 'f' then some (c.toNat - 87)
  else if 'A' ≤ c ∧ c ≤ 'F' then some (c.toNat - 55)
  else none

/-- The value of four hexadecimal digits. -/
def escapeUnit? (a b c d : Char) : Option Nat := do
  let w ← escapeValue? a
  let x ← escapeValue? b
  let y ← escapeValue? c
  let z ← escapeValue? d
  return ((w * 16 + x) * 16 + y) * 16 + z

/-- The character that a letter after a backslash stands for. -/
def unescape? (c : Char) : Option Char :=
  if c = '"' then some '"'
  else if c = '\\' then some '\\'
  else if c = '/' then some '/'
  else if c = 'b' then some '\x08'
  else if c = 'f' then some '\x0c'
  else if c = 'n' then some '\n'
  else if c = 'r' then some '\r'
  else if c = 't' then some '\t'
  else none

/-- Whether a code is the first half of a pair of surrogates. -/
def isHighSurrogate (code : Nat) : Bool := 0xD800 ≤ code && code < 0xDC00

/-- Whether a code is the second half of a pair of surrogates. -/
def isLowSurrogate (code : Nat) : Bool := 0xDC00 ≤ code && code < 0xE000

/-- The character that a pair of surrogates stands for. -/
def joinSurrogates (high low : Nat) : Char :=
  Char.ofNat (0x10000 + (high - 0xD800) * 0x400 + (low - 0xDC00))

/-- Puts the characters of some codes, the last one first, before those of `acc`. Half of
a pair of surrogates denotes no character. -/
def charsOfCodes (acc : List Char) : List Nat → Option (List Char)
  | [] => some acc
  | [code] =>
    if isLowSurrogate code || isHighSurrogate code then none else some (Char.ofNat code :: acc)
  | code :: before :: codes =>
    -- the list runs backwards: what comes later in the text is in front
    if isLowSurrogate code && isHighSurrogate before then
      charsOfCodes (joinSurrogates before code :: acc) codes
    else if isLowSurrogate code || isHighSurrogate code then none
    else charsOfCodes (Char.ofNat code :: acc) (before :: codes)

/-- **A string literal.** -/
structure Literal where
  /-- The codes of its characters and escapes, the last one first. -/
  codes : List Nat
  /-- Whether there is an escape in it. -/
  escaped : Bool

namespace Literal

/-- The text of a literal, if there is one. -/
def text? (l : Literal) : Option String := (charsOfCodes [] l.codes).map String.ofList

/-- The literal as a value. -/
def toJson (l : Literal) : Json := (l.text?.map .string).getD .unreadable

end Literal

/-- Reads **the rest of a string literal**, after its opening quotation mark and what `l`
holds. -/
def parseLiteral (l : Literal) : List Char → Option (Literal × List Char)
  | [] => none
  | '"' :: rest => some (l, rest)
  | '\\' :: 'u' :: a :: b :: c :: d :: rest =>
    match escapeUnit? a b c d with
    | none => none
    | some unit => parseLiteral ⟨unit :: l.codes, true⟩ rest
  | '\\' :: c :: rest =>
    match unescape? c with
    | none => none
    | some c => parseLiteral ⟨c.toNat :: l.codes, true⟩ rest
  | c :: rest =>
    if c.toNat < 32 ∨ c = '\\' then none else parseLiteral ⟨c.toNat :: l.codes, l.escaped⟩ rest

/-! ### Numbers -/

/-- Whether a character is a decimal digit. -/
def isDigit (c : Char) : Bool := '0' ≤ c && c ≤ '9'

/-- The value of a row of digits. -/
def digitsValue (cs : List Char) : Nat := cs.foldl (fun n c => 10 * n + (c.toNat - 48)) 0

/-- The digits of a fraction with its point, possibly none. -/
def parseFraction : List Char → Option (List Char × List Char)
  | '.' :: cs =>
    let ds := cs.takeWhile isDigit
    if ds.isEmpty then none else some ('.' :: ds, cs.dropWhile isDigit)
  | cs => some ([], cs)

/-- An exponent with its mark and sign, possibly none. -/
def parseExponent : List Char → Option (List Char × List Char)
  | [] => some ([], [])
  | c :: cs =>
    if c = 'e' ∨ c = 'E' then
      let (sign, cs) := match cs with
        | '+' :: cs => (['+'], cs)
        | '-' :: cs => (['-'], cs)
        | cs => ([], cs)
      let ds := cs.takeWhile isDigit
      if ds.isEmpty then none else some (c :: (sign ++ ds), cs.dropWhile isDigit)
    else some ([], c :: cs)

/-- Whether there is a minus sign, and what follows it. -/
def parseSign : List Char → Bool × List Char
  | '-' :: cs => (true, cs)
  | cs => (false, cs)

/-- Reads **a number**. No digit but a single one may follow a leading zero. -/
def parseNumber (cs : List Char) : Option (Json × List Char) := do
  let (negative, cs) := parseSign cs
  let ds := cs.takeWhile isDigit
  let rest := cs.dropWhile isDigit
  if ds.isEmpty || (ds.head? = some '0' && ds.length ≠ 1) then none
  else
    let (fraction, rest) ← parseFraction rest
    let (exponent, rest) ← parseExponent rest
    let n := digitsValue ds
    -- minus zero is no integer, so it is kept as it is written
    if fraction.isEmpty && exponent.isEmpty && !(negative && n = 0) then
      return (.int (if negative then -(n : Int) else n), rest)
    else
      let sign := if negative then ['-'] else []
      return (.decimal (String.ofList (sign ++ ds ++ fraction ++ exponent)), rest)

/-! ### Objects -/

/-- Whether a text is a natural number of 64 bits as it is written. -/
def isNumeral (text : String) : Bool :=
  let ds := text.toList
  !ds.isEmpty && ds.all isDigit && (ds.head? ≠ some '0' || ds.length = 1) &&
    digitsValue ds < UInt64.size

/-- The value of a field that has a key of this form. -/
def fieldValue (tables : Bool) (key : Literal) (value : Json) : Json :=
  if tables && key.escaped && key.text?.any isNumeral then .unreadable else value

/-- The object of fields, if all their keys denote texts. -/
def ofFields (fields : List (Option String × Json)) : Json :=
  match fields.mapM fun (key?, value) => key?.map fun (key : String) => (key, value) with
  | some fields => .object fields
  | none => .unreadable

/-! ### Values -/

mutual

/-- Reads a value. -/
def parseValue (tables : Bool) : Nat → List Char → Option (Json × List Char)
  | 0, _ => none
  | fuel + 1, cs =>
    match skipBlanks cs with
    | 'n' :: 'u' :: 'l' :: 'l' :: rest => some (.null, rest)
    | 't' :: 'r' :: 'u' :: 'e' :: rest => some (.bool true, rest)
    | 'f' :: 'a' :: 'l' :: 's' :: 'e' :: rest => some (.bool false, rest)
    | '"' :: rest => (parseLiteral ⟨[], false⟩ rest).map fun (l, rest) => (l.toJson, rest)
    | '[' :: rest =>
      match skipBlanks rest with
      | ']' :: rest => some (.array [], rest)
      | rest =>
        match parseValue tables fuel rest with
        | none => none
        | some (x, rest) =>
          (parseItems tables fuel rest).map fun (xs, rest) => (.array (x :: xs), rest)
    | '\x7b' :: rest =>
      match skipBlanks rest with
      | '\x7d' :: rest => some (.object [], rest)
      | rest =>
        match parseField tables fuel rest with
        | none => none
        | some (f, rest) =>
          (parseFields tables fuel rest).map fun (fs, rest) => (ofFields (f :: fs), rest)
    | rest => parseNumber rest

/-- Reads the items after the first one, and the closing bracket. -/
def parseItems (tables : Bool) : Nat → List Char → Option (List Json × List Char)
  | 0, _ => none
  | fuel + 1, cs =>
    match skipBlanks cs with
    | ']' :: rest => some ([], rest)
    | ',' :: rest =>
      match parseValue tables fuel rest with
      | none => none
      | some (x, rest) => (parseItems tables fuel rest).map fun (xs, rest) => (x :: xs, rest)
    | _ => none

/-- Reads a key, a colon and a value. -/
def parseField (tables : Bool) : Nat → List Char → Option ((Option String × Json) × List Char)
  | 0, _ => none
  | fuel + 1, cs =>
    match skipBlanks cs with
    | '"' :: rest =>
      match parseLiteral ⟨[], false⟩ rest with
      | none => none
      | some (key, rest) =>
        match skipBlanks rest with
        | ':' :: rest =>
          (parseValue tables fuel rest).map fun (v, rest) =>
            ((key.text?, fieldValue tables key v), rest)
        | _ => none
    | _ => none

/-- Reads the fields after the first one, and the closing brace. -/
def parseFields (tables : Bool) :
    Nat → List Char → Option (List (Option String × Json) × List Char)
  | 0, _ => none
  | fuel + 1, cs =>
    match skipBlanks cs with
    | '\x7d' :: rest => some ([], rest)
    | ',' :: rest =>
      match parseField tables fuel rest with
      | none => none
      | some (f, rest) => (parseFields tables fuel rest).map fun (fs, rest) => (f :: fs, rest)
    | _ => none

end

/-- The value of a text. Each step of the reader takes a character or goes one level down
just after one, so twice the length bounds the number of steps. -/
def parseText? (tables : Bool) (text : String) : Option Json :=
  let cs := text.toList
  match parseValue tables (2 * cs.length + 2) cs with
  | some (v, rest) => if (skipBlanks rest).isEmpty then some v else none
  | none => none

/-- **The value of a text.** -/
def parse? (text : String) : Option Json := parseText? false text

/-- **The value of a text** whose tables have numbers for keys. -/
def parseTables? (text : String) : Option Json := parseText? true text

end StakeGovernance.Json
