import StakeGovernance.Value.Address

/-!
# Digests

A digest is a row of thirty-two bytes, the BLAKE3 digest of something. Queued actions
are found under their digest. Its text is hexadecimal, written with a mark in front and
read with or without it.

* `StakeGovernance.Digest` – a **digest**;
* `StakeGovernance.Digest.compute` – the digest of a row of bytes;
* `StakeGovernance.Digest.toText`, `StakeGovernance.Digest.ofText` – its **text**.
-/

namespace StakeGovernance

/-- **A digest.** -/
structure Digest where
  /-- Its bytes. -/
  bytes : Bytes
  /-- There are thirty-two of them. -/
  length_bytes : bytes.length = 32
deriving DecidableEq

namespace Digest

theorem ext {a b : Digest} (h : a.bytes = b.bytes) : a = b := by
  cases a; cases b; cases h; rfl

instance : Ord Digest := ⟨fun a b => compare a.bytes b.bytes⟩

instance : Std.OrientedOrd Digest where
  eq_swap {a b} := @Std.OrientedCmp.eq_swap Bytes compare _ a.bytes b.bytes

instance : Std.TransOrd Digest where
  isLE_trans {a b c} := @Std.TransCmp.isLE_trans Bytes compare _ a.bytes b.bytes c.bytes

instance : Std.LawfulEqOrd Digest where
  eq_of_compare {a b} h := ext (@Std.LawfulEqCmp.eq_of_compare Bytes compare _ a.bytes b.bytes h)

/-- The digest of all zeros. -/
def zero : Digest := ⟨List.replicate 32 0, List.length_replicate⟩

instance : Inhabited Digest := ⟨zero⟩

/-- Whether a digest is all zeros. -/
def isZero (d : Digest) : Bool := d = zero

/-- The digest of thirty-two given bytes. -/
def ofBytes (bs : Bytes) : Except ValueError Digest :=
  if h : bs.length = 32 then .ok ⟨bs, h⟩ else .error (.digestLength bs.length)

/-- **The digest of a row of bytes.** -/
def compute (input : Bytes) : Digest := ⟨Blake3.digest input, Blake3.length_digest input⟩

/-! ### Text -/

/-- **The text of a digest.** -/
def toText (d : Digest) : String := Hex.encodeMarked d.bytes

instance : ToString Digest := ⟨toText⟩

/-- The digest that a text denotes, with or without the mark of hexadecimal text. -/
def ofText (text : String) : Except ValueError Digest :=
  match Hex.decode ((Amount.afterHexMark? text).getD text) with
  | .error e => .error (.hex e)
  | .ok bs => ofBytes bs

/-! ### JSON -/

/-- A digest as JSON. -/
def toJson (d : Digest) : Json := .string d.toText

instance : ToJson Digest := ⟨toJson⟩

/-- The digest that a text in JSON denotes. -/
def ofKey? (text : String) : Option Digest := (ofText text).toOption

/-- The digest that a JSON value stands for. -/
def ofJson? (v : Json) : Option Digest := v.text?.bind ofKey?

instance : FromJson Digest := ⟨ofJson?⟩

end Digest

end StakeGovernance
