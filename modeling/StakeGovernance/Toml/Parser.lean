import StakeGovernance.Toml.Document
import StakeGovernance.Toml.Scalar

/-!
# Reading TOML

A document is read into lines first, which are then put together. Arrays and tables in
braces may be nested less than eighty levels deep, and a key may have less than eighty
parts.

* `StakeGovernance.Toml.readKey` – a **key** with all its parts;
* `StakeGovernance.Toml.readValue` – a **value**;
* `StakeGovernance.Toml.parse?` – the **document** of a text.
-/

namespace StakeGovernance.Toml

/-- The number of levels, or of parts of a key, that is too large. -/
def levelLimit : Nat := 80

/-! ### Keys -/

/-- The characters of a bare key. -/
def isBare (c : Char) : Bool := c.isAlphanum || c = '_' || c = '-'

/-- One part of a key, with the blanks around it. -/
def readPart (cs : List Char) : Option (String × List Char) :=
  let cs := skipBlanks cs
  match readLine cs with
  | some (part, rest) => some (part, skipBlanks rest)
  | none =>
    let part := cs.takeWhile isBare
    if part.isEmpty then none
    else some (String.ofList part, skipBlanks (cs.dropWhile isBare))

/-- The parts of a key but for the last one, and the last one. -/
def readParts : Nat → List Char → Option ((List String × String) × List Char)
  | 0, _ => none
  | fuel + 1, cs =>
    match readPart cs with
    | none => none
    | some (part, '.' :: rest) =>
      (readParts fuel rest).map fun ((path, name), rest) => ((part :: path, name), rest)
    | some (part, rest) => some (([], part), rest)

/-- Reads **a key**. -/
def readKey (cs : List Char) : Option ((List String × String) × List Char) :=
  readParts (levelLimit - 1) cs

/-! ### Values -/

mutual

/-- Reads **a value** at a level of nesting. -/
def readValue : Nat → Nat → List Char → Option (Toml × List Char)
  | 0, _, _ => none
  | fuel + 1, level, cs =>
    match cs with
    | '"' :: _ | '\'' :: _ => (readString cs).map fun (s, rest) => (.string s, rest)
    | 't' :: 'r' :: 'u' :: 'e' :: rest => some (.bool true, rest)
    | 'f' :: 'a' :: 'l' :: 's' :: 'e' :: rest => some (.bool false, rest)
    | '[' :: rest =>
      if level + 1 < levelLimit then
        (readItems fuel (level + 1) rest).map fun (items, rest) => (.array false items, rest)
      else none
    | '\x7b' :: rest =>
      if level + 1 < levelLimit then
        match skipBlanks rest with
        | '\x7d' :: rest => some (.table .inline [], rest)
        | _ =>
          match readEntries fuel (level + 1) rest with
          | some (entries, rest) => (inline? entries).map fun table => (table, rest)
          | none => none
      else none
    | cs =>
      match readMoment cs with
      | some rest => some (.moment (readText cs rest), rest)
      | none => readNumber cs

/-- Reads the items of an array, and the closing bracket. -/
def readItems : Nat → Nat → List Char → Option (List Toml × List Char)
  | 0, _, _ => none
  | fuel + 1, level, cs =>
    match skipGap false cs with
    | ']' :: rest => some ([], rest)
    | cs =>
      match readValue fuel level cs with
      | none => none
      | some (x, rest) =>
        match skipGap false rest with
        | ',' :: rest => (readItems fuel level rest).map fun (xs, rest) => (x :: xs, rest)
        | ']' :: rest => some ([x], rest)
        | _ => none

/-- Reads the entries of a table in braces, and the closing brace. -/
def readEntries : Nat → Nat → List Char →
    Option (List (List String × String × Toml) × List Char)
  | 0, _, _ => none
  | fuel + 1, level, cs =>
    match readKey cs with
    | some ((path, name), '=' :: rest) =>
      match readValue fuel level (skipBlanks rest) with
      | none => none
      | some (v, rest) =>
        match skipBlanks rest with
        | ',' :: rest =>
          (readEntries fuel level rest).map fun (es, rest) => ((path, name, v) :: es, rest)
        | '\x7d' :: rest => some ([(path, name, v)], rest)
        | _ => none
    | _ => none

end

/-! ### Lines -/

/-- What follows the end of a line, after blanks and a comment. -/
def endLine? (cs : List Char) : Option (List Char) :=
  let rest := match skipBlanks cs with
    | '#' :: cs => cs.dropWhile isPlain
    | cs => cs
  match rest with
  | [] => some []
  | cs => newline? cs

/-- Reads a header, after its opening brackets. -/
def readHeader (line : List String → String → Line) (closing : List Char) (cs : List Char) :
    Option (Line × List Char) := do
  let ((path, name), rest) ← readKey cs
  if closing.isPrefixOf rest then return (line path name, ← endLine? (rest.drop closing.length))
  else none

/-- Reads a line that says something. -/
def readStatement : List Char → Option (Line × List Char)
  | '[' :: '[' :: cs => readHeader .item [']', ']'] cs
  | '[' :: cs => readHeader .header [']'] cs
  | cs =>
    match readKey cs with
    | some ((path, name), '=' :: rest) => do
      let (value, rest) ← readValue (2 * rest.length + 2) 0 (skipBlanks rest)
      return (.entry path name value, ← endLine? rest)
    | _ => none

/-- Reads all lines. -/
def readLines : Nat → List Char → Option (List Line)
  | 0, _ => none
  | fuel + 1, cs =>
    match skipBlanks cs with
    | [] => some []
    | '#' :: rest => (endLine? ('#' :: rest)).bind (readLines fuel)
    | '\n' :: rest => readLines fuel rest
    | '\r' :: '\n' :: rest => readLines fuel rest
    | cs =>
      match readStatement cs with
      | none => none
      | some (line, rest) => (readLines fuel rest).map (line :: ·)

/-- The text without the mark that may stand at its beginning. -/
def dropMark : List Char → List Char
  | '\ufeff' :: cs => cs
  | cs => cs

/-- **The document of a text.** -/
def parse? (text : String) : Option Toml :=
  let cs := dropMark text.toList
  (readLines (cs.length + 1) cs).bind ofLines?

end StakeGovernance.Toml
