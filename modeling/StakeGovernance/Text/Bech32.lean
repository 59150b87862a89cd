import StakeGovernance.Bytes.Endian
import StakeGovernance.Bytes.Pieces

/-!
# Bech32 texts

A Bech32 text is a human-readable part, the separator `1`, the data in symbols of five
bits, and six symbols of a checksum over both. The checksum is the remainder of a
polynomial division, compared with a constant; the two variants of the format differ
in that constant alone. Writing uses the modern variant (Bech32m); reading accepts
either one.

* `StakeGovernance.Bech32.regroup` – the **five-bit symbols** of a row of bytes, zero
  bits filling up the last one, and `StakeGovernance.Bech32.ungroup` back, dropping
  bits that do not make a byte;
* `StakeGovernance.Bech32.residue` – the **remainder** that the checksum controls;
* `StakeGovernance.Bech32.encode` – the text of a row of bytes;
* `StakeGovernance.Bech32.decode` – the parts of a text, its checksum verified.
-/

namespace StakeGovernance.Bech32

/-! ### Symbols and their letters -/

/-- Five bits. -/
abbrev Symbol := Fin 32

/-- The letter of each symbol, in the order of their values. -/
def alphabet : List Char := "qpzry9x8gf2tvdw0s3jn54khce6mua7l".toList

/-- The letter of a symbol. -/
def letter (s : Symbol) : Char := alphabet.getD s.val 'q'

/-- The symbol of a letter of either case. -/
def symbol? (c : Char) : Option Symbol :=
  (alphabet.idxOf? c.toLower).bind fun i => if h : i < 32 then some ⟨i, h⟩ else none

/-! ### Bytes and symbols as bits -/

/-- The lowest `width` bits of a number, the highest one first. -/
def bitsOf : Nat → Nat → List Bool
  | 0, _ => []
  | width + 1, n => n.testBit width :: bitsOf width n

/-- The number with the given bits, the highest one first. -/
def ofBits (bits : List Bool) : Nat := bits.foldl (fun n b => 2 * n + b.toNat) 0

/-- **The five-bit symbols of a row of bytes.** -/
def regroup (bs : Bytes) : List Symbol :=
  (pieces 5 (bs.flatMap fun b => bitsOf 8 b.toNat)).map fun bits =>
    Fin.ofNat 32 (ofBits (bits ++ List.replicate (5 - bits.length) false))

/-- The bytes of a row of symbols; fewer than eight bits at the end are dropped. -/
def ungroup (symbols : List Symbol) : Bytes :=
  ((pieces 8 (symbols.flatMap fun s => bitsOf 5 s.val)).filter (·.length = 8)).map fun bits =>
    UInt8.ofNat (ofBits bits)

/-! ### The checksum -/

/-- A polynomial remainder: six symbols. -/
abbrev Residue := BitVec 30

/-- What the symbol that leaves a remainder at the top adds to it. -/
def feedback (r : Residue) : Residue :=
  (if r.getLsbD 25 then 0x3b6a57b2 else 0) ^^^
  (if r.getLsbD 26 then 0x26508e6d else 0) ^^^
  (if r.getLsbD 27 then 0x1ea119fa else 0) ^^^
  (if r.getLsbD 28 then 0x3d4233dd else 0) ^^^
  (if r.getLsbD 29 then 0x2a1462b3 else 0)

/-- Takes one more symbol into a remainder. -/
def absorb (r : Residue) (s : Symbol) : Residue :=
  (r <<< 5) ^^^ BitVec.ofNat 30 s.val ^^^ feedback r

/-- **The remainder** of a row of symbols. -/
def residue (symbols : List Symbol) : Residue := symbols.foldl absorb 1

/-- The symbols that stand for the human-readable part: the high bits of its letters,
a zero, and their low bits. Case does not count. -/
def expand (hrp : List Char) : List Symbol :=
  (hrp.map fun c => Fin.ofNat 32 (c.toLower.toNat / 32)) ++ [0] ++
    hrp.map fun c => Fin.ofNat 32 c.toLower.toNat

/-- The remainder that the first variant of the format asks for. -/
def plainTarget : Residue := 1

/-- The remainder that the modern variant of the format asks for. -/
def modernTarget : Residue := 0x2bc830a3

/-- The six symbols of a remainder, the top one first. -/
def symbolsOfResidue (r : Residue) : List Symbol :=
  [25, 20, 15, 10, 5, 0].map fun shift => Fin.ofNat 32 (r >>> shift).toNat

/-- The checksum of the modern variant. -/
def checksum (hrp : List Char) (data : List Symbol) : List Symbol :=
  symbolsOfResidue (residue (expand hrp ++ data ++ List.replicate 6 0) ^^^ modernTarget)

/-! ### Texts -/

/-- The letters of a row of bytes after the human-readable part `hrp`. -/
def encodeChars (hrp : List Char) (bs : Bytes) : List Char :=
  let data := regroup bs
  hrp ++ '1' :: (data ++ checksum hrp data).map letter

/-- **The text of a row of bytes** after the human-readable part `hrp`. -/
def encode (hrp : String) (bs : Bytes) : String := String.ofList (encodeChars hrp.toList bs)

/-- **Why a text is refused.** -/
inductive Error where
  /-- It has a letter that does not belong there, both cases, or no proper
  human-readable part. -/
  | malformed
  /-- Neither variant of the checksum fits, or the text is too long to have one. -/
  | checksum
deriving DecidableEq, Repr

/-- The wording of an error. -/
def Error.message : Error → String
  | .malformed => "parsing failed"
  | .checksum => "no valid bech32 or bech32m checksum"

/-- The longest human-readable part. -/
def maxHrpLength : Nat := 83

/-- The longest text with a checksum. -/
def maxLength : Nat := 1023

/-- A letter that a human-readable part may have. -/
def isHrpChar (c : Char) : Bool := 33 ≤ c.toNat ∧ c.toNat ≤ 126

/-- The parts before and after the last separator. -/
def splitAtSeparator (cs : List Char) : Option (List Char × List Char) :=
  let tail := cs.reverse.takeWhile (· ≠ '1')
  match cs.reverse.dropWhile (· ≠ '1') with
  | [] => none
  | _ :: head => some (head.reverse, tail.reverse)

/-- **The human-readable part and the bytes of a text.** -/
def decode (text : String) : Except Error (String × Bytes) :=
  let cs := text.toList
  match splitAtSeparator cs with
  | none => .error .malformed
  | some (hrp, tail) =>
    match tail.mapM symbol? with
    | none => .error .malformed
    | some symbols =>
      if cs.any Char.isUpper && cs.any Char.isLower then .error .malformed
      else if hrp.isEmpty || maxHrpLength < hrp.length || !hrp.all isHrpChar then .error .malformed
      else if maxLength < cs.length || symbols.length < 6 then .error .checksum
      else
        -- with the checksum in it, the remainder of a proper text is that of its variant
        let r := residue (expand hrp ++ symbols)
        if r = modernTarget ∨ r = plainTarget then
          .ok (String.ofList hrp, ungroup (symbols.take (symbols.length - 6)))
        else .error .checksum

end StakeGovernance.Bech32
