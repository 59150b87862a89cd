import StakeGovernance.Value.Digest

/-!
# Reading fields from a row of bytes

Binary data is a row of fields of fixed widths, without any marks between them.
Integers have their least significant byte first; addresses, digests and amounts are
blocks of bytes. A reader takes its field from the front and returns the rest, and the
data is complete only if nothing is left after the last field.

* `StakeGovernance.ReadError` – why a row of bytes is **refused**;
* `StakeGovernance.readWord`, `StakeGovernance.readAddress`,
  `StakeGovernance.readDigest`, `StakeGovernance.readAmount` – one **field**;
* `StakeGovernance.readEnd` – nothing may be left.
-/

namespace StakeGovernance

/-- **Why a row of bytes is refused.** -/
inductive ReadError where
  /-- It ends inside an integer. -/
  | shortInteger
  /-- It ends inside a block. -/
  | shortBlock
  /-- It goes on after the last field. -/
  | trailing
deriving DecidableEq, Repr

/-- The wording of an error. -/
def ReadError.message : ReadError → String
  | .shortInteger => "Unexpected length of input"
  | .shortBlock => "failed to fill whole buffer"
  | .trailing => "Not all bytes read"

/-- A field and the bytes after it. -/
abbrev Read (α : Type) := Except ReadError (α × Bytes)

/-- Takes an integer of `width` bytes. -/
def readWord (width : Nat) (bs : Bytes) : Read (Word (8 * width)) :=
  if h : width ≤ bs.length then
    .ok (⟨ofLittleEndian (bs.take width), by
      have := ofLittleEndian_lt (bs.take width)
      rw [List.length_take, Nat.min_eq_left h] at this
      exact this⟩, bs.drop width)
  else .error .shortInteger

/-- Nothing may be left. -/
def readEnd (bs : Bytes) : Except ReadError Unit :=
  if bs.isEmpty then .ok () else .error .trailing

/-- Takes an address. -/
def readAddress (bs : Bytes) : Read Address :=
  if h : 20 ≤ bs.length then .ok (⟨bs.take 20, by simp [h]⟩, bs.drop 20) else .error .shortBlock

/-- Takes a digest. -/
def readDigest (bs : Bytes) : Read Digest :=
  if h : 32 ≤ bs.length then .ok (⟨bs.take 32, by simp [h]⟩, bs.drop 32) else .error .shortBlock

/-- Takes an amount, its most significant byte first. -/
def readAmount (bs : Bytes) : Read Amount :=
  if h : 12 ≤ bs.length then
    .ok (⟨ofBigEndian (bs.take 12), by
      have := ofBigEndian_lt (bs.take 12)
      rw [List.length_take, Nat.min_eq_left h] at this
      exact this⟩, bs.drop 12)
  else .error .shortBlock

/-- A row of bytes that is one field and nothing else. -/
def readWhole {α : Type} (read : Bytes → Read α) (bs : Bytes) : Except ReadError α := do
  let (a, rest) ← read bs
  readEnd rest
  return a

end StakeGovernance
