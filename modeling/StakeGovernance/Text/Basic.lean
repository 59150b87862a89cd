import StakeGovernance.Bytes.Endian

/-!
# Texts

What is done with texts wherever they come from: they are taken for rows of bytes, and rows
of bytes for texts; the blanks around them are dropped; and they are cut into parts.

* `StakeGovernance.utf8Bytes` – the **bytes of a text**;
* `StakeGovernance.utf8Text?` – the **text of a row of bytes**, if it is one;
* `StakeGovernance.utf8Pieces` – the characters of a row of bytes, and the **bytes that
  belong to none**;
* `StakeGovernance.isBlank` – the **blanks** of all scripts;
* `StakeGovernance.trimBlanks` – a text **without the blanks around it**;
* `StakeGovernance.splitOnce?` – a text **cut at the first** of a character;
* `StakeGovernance.splitText` – a text **cut at each** of a character.
-/

namespace StakeGovernance

/-! ### Bytes -/

/-- **The bytes of a text.** -/
def utf8Bytes (text : String) : Bytes := text.toList.flatMap String.utf8EncodeChar

/-- **The text of a row of bytes**, if the bytes are the encoding of a text. -/
def utf8Text? (bs : Bytes) : Option String := String.fromUTF8? ⟨bs.toArray⟩

/-- The first character of a row of bytes, if some of them encode one: a character takes at
most four. -/
def utf8Char? (bs : Bytes) : Option Char :=
  [1, 2, 3, 4].findSome? fun n =>
    match (utf8Text? (bs.take n)).map String.toList with
    | some [c] => some c
    | _ => none

/-- **The characters of a row of bytes**, in order, with `none` for each byte that belongs
to no character; `skip` bytes belong to the character before. -/
def utf8Pieces (skip : Nat) : Bytes → List (Option Char)
  | [] => []
  | b :: bs =>
    if 0 < skip then utf8Pieces (skip - 1) bs
    else
      match utf8Char? (b :: bs) with
      | some c => some c :: utf8Pieces (c.utf8Size - 1) bs
      | none => none :: utf8Pieces 0 bs

/-! ### Blanks -/

/-- **The blanks** of all scripts: the characters with the property of white space. -/
def isBlank (c : Char) : Bool :=
  let n := c.toNat
  (9 ≤ n && n ≤ 13) || n = 0x20 || n = 0x85 || n = 0xa0 || n = 0x1680 ||
    (0x2000 ≤ n && n ≤ 0x200a) || n = 0x2028 || n = 0x2029 || n = 0x202f || n = 0x205f ||
    n = 0x3000

/-- The characters without the blanks at their end. -/
def dropBlankEnd : List Char → List Char
  | [] => []
  | c :: cs =>
    match dropBlankEnd cs with
    | [] => if isBlank c then [] else [c]
    | rest => c :: rest

/-- **A text without the blanks around it.** -/
def trimBlanks (text : String) : String :=
  String.ofList (dropBlankEnd (text.toList.dropWhile isBlank))

/-! ### Cutting -/

/-- The characters before the first `mark`, and those after it. -/
def cutOnce? (mark : Char) : List Char → Option (List Char × List Char)
  | [] => none
  | c :: cs =>
    if c = mark then some ([], cs)
    else (cutOnce? mark cs).map fun (before, after) => (c :: before, after)

/-- The characters between any two of `mark`. -/
def cutAll (mark : Char) : List Char → List (List Char)
  | [] => [[]]
  | c :: cs =>
    match cutAll mark cs with
    | [] => [[]]
    | part :: parts => if c = mark then [] :: part :: parts else (c :: part) :: parts

/-- **A text cut at the first** of a character, if it has one. -/
def splitOnce? (mark : Char) (text : String) : Option (String × String) :=
  (cutOnce? mark text.toList).map fun (before, after) =>
    (String.ofList before, String.ofList after)

/-- **A text cut at each** of a character. -/
def splitText (mark : Char) (text : String) : List String :=
  (cutAll mark text.toList).map String.ofList

end StakeGovernance
