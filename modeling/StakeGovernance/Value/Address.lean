import StakeGovernance.Bytes.Blake3
import StakeGovernance.Value.Amount

/-!
# Addresses

An address is a row of twenty bytes. It names the owner of a stake, a delegate, the
target of an action and the handler behind it alike. People read and write it as Bech32
text with the human-readable part `lock`; data has it as hexadecimal text. The zero
address is never a valid owner.

* `StakeGovernance.Address` – an **address**;
* `StakeGovernance.Address.toText`, `StakeGovernance.Address.toHexText`,
  `StakeGovernance.Address.ofText` – its **texts**;
* `StakeGovernance.Address.derive` – the address derived from a **seed**.
-/

namespace StakeGovernance

/-- **An address.** -/
structure Address where
  /-- Its bytes. -/
  bytes : Bytes
  /-- There are twenty of them. -/
  length_bytes : bytes.length = 20
deriving DecidableEq

namespace Address

theorem ext {a b : Address} (h : a.bytes = b.bytes) : a = b := by
  cases a; cases b; cases h; rfl

/-! ### Order -/

instance : Ord Address := ⟨fun a b => compare a.bytes b.bytes⟩

instance : Std.OrientedOrd Address where
  eq_swap {a b} := @Std.OrientedCmp.eq_swap Bytes compare _ a.bytes b.bytes

instance : Std.TransOrd Address where
  isLE_trans {a b c} := @Std.TransCmp.isLE_trans Bytes compare _ a.bytes b.bytes c.bytes

instance : Std.LawfulEqOrd Address where
  eq_of_compare {a b} h := ext (@Std.LawfulEqCmp.eq_of_compare Bytes compare _ a.bytes b.bytes h)

/-! ### Construction -/

/-- The zero address. -/
def zero : Address := ⟨List.replicate 20 0, List.length_replicate⟩

instance : Inhabited Address := ⟨zero⟩

/-- Whether an address is the zero address. -/
def isZero (a : Address) : Bool := a = zero

/-- The address of twenty bytes. -/
def ofBytes (bs : Bytes) : Except ValueError Address :=
  if h : bs.length = 20 then .ok ⟨bs, h⟩ else .error (.addressLength bs.length)

/-- **The address derived from a seed**: the first twenty bytes of its digest. -/
def derive (seed : Bytes) : Address :=
  ⟨(Blake3.digest seed).take 20, by simp [Blake3.length_digest]⟩

/-! ### Text -/

/-- The human-readable part of the Bech32 text. -/
def humanPart : String := "lock"

/-- **The Bech32 text** of an address. -/
def toText (a : Address) : String := Bech32.encode humanPart a.bytes

/-- **The hexadecimal text** of an address. -/
def toHexText (a : Address) : String := Hex.encodeMarked a.bytes

instance : ToString Address := ⟨toText⟩

/-- The address that a Bech32 text denotes. -/
def ofBech32 (text : String) : Except ValueError Address :=
  match Bech32.decode text with
  | .error e => .error (.bech32 e)
  | .ok (found, bs) => if found = humanPart then ofBytes bs else .error (.addressPrefix found)

/-- The address that hexadecimal digits denote. -/
def ofHex (digits : String) : Except ValueError Address :=
  match Hex.decode digits with
  | .error e => .error (.hex e)
  | .ok bs => ofBytes bs

/-- **The address that a text denotes**: Bech32 text, or hexadecimal text after its
mark. -/
def ofText (text : String) : Except ValueError Address :=
  if "lock1".toList.isPrefixOf text.toList then ofBech32 text
  else
    match Amount.afterHexMark? text with
    | some digits => ofHex digits
    | none => .error (.addressFormat text)

/-! ### JSON -/

/-- An address as JSON. -/
def toJson (a : Address) : Json := .string a.toHexText

instance : ToJson Address := ⟨toJson⟩

/-- The address that a text in JSON denotes. -/
def ofKey? (text : String) : Option Address := (ofText text).toOption

/-- The address that a JSON value stands for. -/
def ofJson? (v : Json) : Option Address := v.text?.bind ofKey?

instance : FromJson Address := ⟨ofJson?⟩

end Address

end StakeGovernance
