import StakeGovernance.Json.Basic
import StakeGovernance.Text.Hex

/-!
# Printing JSON

There are two layouts of the same text: a compact one without any blank, and an
indented one with a field or an item a line, two spaces for each level. In a string
only quotation marks, backslashes and control characters are escaped, everything else
stands as it is.

* `StakeGovernance.Json.quote` – a **string literal**;
* `StakeGovernance.Json.compact` – the **compact** text;
* `StakeGovernance.Json.pretty` – the **indented** text.
-/

namespace StakeGovernance.Json

/-! ### String literals -/

/-- A character as it stands inside a string literal. -/
def escape (c : Char) : List Char :=
  if c = '"' then ['\\', '"']
  else if c = '\\' then ['\\', '\\']
  else if c = '\x08' then ['\\', 'b']
  else if c = '\x0c' then ['\\', 'f']
  else if c = '\n' then ['\\', 'n']
  else if c = '\r' then ['\\', 'r']
  else if c = '\t' then ['\\', 't']
  else if c.toNat < 32 then
    ['\\', 'u', '0', '0', Hex.digit (c.toNat / 16), Hex.digit (c.toNat % 16)]
  else [c]

/-- **A string literal.** -/
def quote (s : String) : List Char := '"' :: (s.toList.flatMap escape ++ ['"'])

/-- The shortest literal that denotes nothing. -/
def unreadableChars : List Char := ['"', '\\', 'u', 'd', '8', '0', '0', '"']

/-- A decimal integer, with a minus sign if it is negative. -/
def intChars : Int → List Char
  | .ofNat n => Nat.toDigits 10 n
  | .negSucc n => '-' :: Nat.toDigits 10 (n + 1)

/-! ### Compact layout -/

mutual

/-- The compact text of a value. -/
def compactChars : Json → List Char
  | .null => "null".toList
  | .bool true => "true".toList
  | .bool false => "false".toList
  | .int n => intChars n
  | .decimal text => text.toList
  | .string s => quote s
  | .array [] => ['[', ']']
  | .array (x :: xs) => '[' :: (compactChars x ++ compactItems xs)
  | .object [] => ['\x7b', '\x7d']
  | .object ((k, v) :: fs) => '\x7b' :: (quote k ++ ':' :: (compactChars v ++ compactFields fs))
  | .unreadable => unreadableChars

/-- The items after the first one, and the closing bracket. -/
def compactItems : List Json → List Char
  | [] => [']']
  | x :: xs => ',' :: (compactChars x ++ compactItems xs)

/-- The fields after the first one, and the closing brace. -/
def compactFields : List (String × Json) → List Char
  | [] => ['\x7d']
  | (k, v) :: fs => ',' :: (quote k ++ ':' :: (compactChars v ++ compactFields fs))

end

/-- **The compact text** of a value. -/
def compact (v : Json) : String := String.ofList (compactChars v)

/-! ### Indented layout -/

/-- A new line at a level of indentation. -/
def newline (level : Nat) : List Char := '\n' :: List.replicate (2 * level) ' '

mutual

/-- The text of a value whose first line is already indented to `level`. -/
def prettyChars (level : Nat) : Json → List Char
  | .array (x :: xs) =>
    '[' :: (newline (level + 1) ++ prettyChars (level + 1) x ++ prettyItems level xs)
  | .object ((k, v) :: fs) =>
    '\x7b' :: (newline (level + 1) ++ quote k ++ ':' :: ' ' ::
      (prettyChars (level + 1) v ++ prettyFields level fs))
  | v => compactChars v

/-- The items after the first one, and the closing bracket. -/
def prettyItems (level : Nat) : List Json → List Char
  | [] => newline level ++ [']']
  | x :: xs =>
    ',' :: (newline (level + 1) ++ prettyChars (level + 1) x ++ prettyItems level xs)

/-- The fields after the first one, and the closing brace. -/
def prettyFields (level : Nat) : List (String × Json) → List Char
  | [] => newline level ++ ['\x7d']
  | (k, v) :: fs =>
    ',' :: (newline (level + 1) ++ quote k ++ ':' :: ' ' ::
      (prettyChars (level + 1) v ++ prettyFields level fs))

end

/-- **The indented text** of a value. -/
def pretty (v : Json) : String := String.ofList (prettyChars 0 v)

end StakeGovernance.Json
