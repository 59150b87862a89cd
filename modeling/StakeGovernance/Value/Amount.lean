import StakeGovernance.Value.Error

/-!
# Amounts of tokens

An amount is a natural number of 96 bits. It is written in decimal digits, or as
hexadecimal bytes after `0x`; in binary it takes twelve bytes, the most significant one
first. In JSON an amount is a text, because a JSON number could not carry all its
digits.

* `StakeGovernance.Amount` – an **amount**;
* `StakeGovernance.Amount.ofDecimal`, `StakeGovernance.Amount.ofText` – the amount that
  a text denotes;
* `StakeGovernance.Amount.scale` – an amount times a factor in **basis points**;
* `StakeGovernance.Amount.sum?` – the sum of a list, if it fits.
-/

namespace StakeGovernance

/-- **An amount of tokens.** -/
abbrev Amount := Word 96

namespace Amount

/-! ### Arithmetic -/

/-- The sum of two amounts. -/
def add (a b : Amount) : Except ValueError Amount :=
  match a.add? b with
  | some c => .ok c
  | none => .error .amountOverflow

/-- The difference of two amounts. -/
def sub (a b : Amount) : Except ValueError Amount :=
  match a.sub? b with
  | some c => .ok c
  | none => .error .amountUnderflow

/-- The amount of a natural number. -/
def ofNat (n : Nat) : Except ValueError Amount :=
  match Word.ofNat? n with
  | some a => .ok a
  | none => .error .amountOverflow

/-- **An amount times a factor in basis points**, rounded down. The product of 96 and 32
bits always fits. -/
def scale (a : Amount) (factor : BasisPoints) : Power :=
  ⟨a.toNat * factor.toNat / 10000, by
    have h : a.toNat * factor.toNat < Word.size 96 * Word.size 32 :=
      Nat.mul_lt_mul'' a.toNat_lt factor.toNat_lt
    rw [← Word.size_add] at h
    exact Nat.lt_of_le_of_lt (Nat.div_le_self _ _) h⟩

/-- **The sum of a list of amounts**, if no partial sum exceeds the width. -/
def sum? (items : List Amount) : Option Amount :=
  items.foldlM (fun acc a => acc.add? a) Word.zero

/-! ### Bytes -/

/-- The twelve bytes of an amount. -/
def toBytes (a : Amount) : Bytes := bigEndian 12 a.toNat

/-- The amount of at most twelve bytes. -/
def ofBytes? (bs : Bytes) : Option Amount :=
  if bs.length ≤ 12 then Word.ofNat? (ofBigEndian bs) else none

/-! ### Text -/

/-- An amount in decimal digits. -/
def toText (a : Amount) : String := String.ofList (Decimal.digits a.toNat)

/-- An amount in hexadecimal digits, all twelve bytes. -/
def toHexText (a : Amount) : String := Hex.encodeMarked a.toBytes

/-- The amount that a row of decimal digits denotes. -/
def ofDecimal (text : String) : Except ValueError Amount :=
  match Decimal.ofDigits? text.toList with
  | none => .error (.amountFormat text)
  | some n => ofNat n

/-- The rest of a text after the mark of hexadecimal text. -/
def afterHexMark? (text : String) : Option String :=
  match text.toList with
  | '0' :: 'x' :: cs => some (String.ofList cs)
  | '0' :: 'X' :: cs => some (String.ofList cs)
  | _ => none

/-- **The amount that a text denotes**: bytes after the mark of hexadecimal text,
decimal digits otherwise. -/
def ofText (text : String) : Except ValueError Amount :=
  match afterHexMark? text with
  | none => ofDecimal text
  | some digits =>
    match Hex.decode digits with
    | .error e => .error (.hex e)
    | .ok bs =>
      match ofBytes? bs with
      | some a => .ok a
      | none => .error .amountOverflow

/-! ### JSON -/

/-- An amount as JSON. -/
def toJson (a : Amount) : Json := .string a.toText

instance : ToJson Amount := ⟨toJson⟩

/-- The amount that a JSON value stands for. -/
def ofJson? (v : Json) : Option Amount := v.text?.bind fun text => (ofText text).toOption

instance : FromJson Amount := ⟨ofJson?⟩

end Amount

end StakeGovernance
