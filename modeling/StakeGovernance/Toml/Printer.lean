import StakeGovernance.Toml.Parser

/-!
# Printing TOML

A document has the values of a table first, each on a line of its own, then the tables
inside it, each under a header and after an empty line. A text is written in the plainest
kind of literal that can hold it.

* `StakeGovernance.Toml.quote` – a **string literal**;
* `StakeGovernance.Toml.valueText` – a **value** on the right of a key;
* `StakeGovernance.Toml.print` – the **document** of a table.
-/

namespace StakeGovernance.Toml

/-! ### String literals -/

/-- The length of the longest row of a character. -/
def longestRow (c : Char) (cs : List Char) : Nat :=
  (cs.foldl (fun (row, longest) d =>
    let row := if d = c then row + 1 else 0
    (row, max longest row)) (0, 0)).2

/-- Whether a character can be written by an escape only. -/
def needsEscape (c : Char) : Bool := !isPlain c && c ≠ '\n'

/-- A digit of an escape, in upper case. -/
def escapeDigit (n : Nat) : Char :=
  if n < 10 then Char.ofNat ('0'.toNat + n) else Char.ofNat ('A'.toNat + (n - 10))

/-- A character of a literal with escapes, but for quotation marks. -/
def escape (multiline : Bool) (c : Char) : List Char :=
  if c = '\\' then ['\\', '\\']
  else if c = '\x08' then ['\\', 'b']
  else if c = '\t' then ['\\', 't']
  else if c = '\n' then if multiline then ['\n'] else ['\\', 'n']
  else if c = '\x0c' then ['\\', 'f']
  else if c = '\r' then ['\\', 'r']
  else if isPlain c then [c]
  else ['\\', 'u', '0', '0', escapeDigit (c.toNat / 16), escapeDigit (c.toNat % 16)]

/-- The content of a literal with escapes. On several lines two quotation marks in a row
need none; `row` of them have just been written. -/
def escapeAll (multiline : Bool) (row : Nat) : List Char → List Char
  | [] => []
  | '"' :: cs =>
    if multiline && row < 2 then '"' :: escapeAll multiline (row + 1) cs
    else '\\' :: '"' :: escapeAll multiline 0 cs
  | c :: cs => escape multiline c ++ escapeAll multiline 0 cs

/-- **A string literal**: on one line with escapes if none is needed, else without, else
the same on several lines, else with escapes. -/
def quote (s : String) : List Char :=
  let cs := s.toList
  let breaks := cs.contains '\n'
  let escapes := cs.any needsEscape
  let backslash := cs.contains '\\'
  let opening := if breaks then ['\n'] else []
  let basic := '"' :: (escapeAll false 0 cs ++ ['"'])
  let multiline := ['"', '"', '"'] ++ opening ++ escapeAll true 0 cs ++ ['"', '"', '"']
  if !escapes && !backslash && !breaks && longestRow '"' cs = 0 then basic
  else if !escapes && !breaks && longestRow '\'' cs = 0 then '\'' :: (cs ++ ['\''])
  else if !escapes && !backslash && longestRow '"' cs ≤ 2 then multiline
  else if !escapes && longestRow '\'' cs ≤ 2 then
    ['\'', '\'', '\''] ++ opening ++ cs ++ ['\'', '\'', '\'']
  else if breaks then multiline
  else basic

/-- A key: bare if it can be. -/
def keyText (key : String) : String :=
  if !key.isEmpty && key.toList.all isBare then key else String.ofList (quote key)

/-! ### Values -/

/-- The items of an array: one in brackets, or each on a line of its own. -/
def arrayText : List String → String
  | [] => "[]"
  | [x] => "[" ++ x ++ "]"
  | xs => "[\n" ++ String.join (xs.map fun x => "    " ++ x ++ ",\n") ++ "]"

mutual

/-- **A value** on the right of a key. -/
def valueText : Toml → String
  | .string s => String.ofList (quote s)
  | .int n => toString n
  | .bool b => if b then "true" else "false"
  | .float text | .moment text => text
  | .array _ items => arrayText (itemTexts items)
  | .table _ [] => "\x7b\x7d"
  | .table _ fields => "\x7b " ++ ", ".intercalate (fieldTexts fields) ++ " \x7d"

/-- The items of an array. -/
def itemTexts : List Toml → List String
  | [] => []
  | x :: xs => valueText x :: itemTexts xs

/-- Keys with their values. -/
def fieldTexts : Fields → List String
  | [] => []
  | (k, v) :: fs => (keyText k ++ " = " ++ valueText v) :: fieldTexts fs

end

/-! ### Documents -/

/-- Whether a value has headers of its own. -/
def hasHeader : Toml → Bool
  | .array grows _ => grows
  | .table origin _ => origin ≠ .inline
  | _ => false

/-- The fields of a table that stand on lines of their own. -/
def ownLines (fields : Fields) : List String :=
  fieldTexts (fields.filter fun (_, v) => !hasHeader v)

/-- A key path. -/
def pathText (path : List String) : String := ".".intercalate (path.map keyText)

/-- The header of a table with its lines. A table that holds nothing but tables needs
none. -/
def headed (path : List String) (fields : Fields) : List (List String) :=
  let lines := ownLines fields
  if lines.isEmpty && !fields.isEmpty then [] else [("[" ++ pathText path ++ "]") :: lines]

mutual

/-- The tables inside a value, each with its header. -/
def valueSections (path : List String) : Toml → List (List String)
  | .table .inline _ => []
  | .table _ fields => headed path fields ++ fieldSections path fields
  | .array true items => itemSections path items
  | _ => []

/-- The items of an array, each with its header. -/
def itemSections (path : List String) : List Toml → List (List String)
  | [] => []
  | .table _ fields :: rest =>
    (("[[" ++ pathText path ++ "]]") :: ownLines fields) :: (fieldSections path fields
      ++ itemSections path rest)
  | _ :: rest => itemSections path rest

/-- The tables inside a table, each with its header. -/
def fieldSections (path : List String) : Fields → List (List String)
  | [] => []
  | (k, v) :: fs => valueSections (path ++ [k]) v ++ fieldSections path fs

end

/-- **The document** of a table. -/
def print (fields : Fields) : String :=
  let own := ownLines fields
  let sections := (if own.isEmpty then [] else [own]) ++ fieldSections [] fields
  "\n".intercalate (sections.map fun lines => String.join (lines.map (· ++ "\n")))

end StakeGovernance.Toml
