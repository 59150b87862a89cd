import StakeGovernance.Bytes.Pieces
import StakeGovernance.Checkpoint.Log

/-!
# Packed stake logs

The log of a stake is stored as bytes, forty for each checkpoint: the point in eight
bytes, the amount in twelve and the delegate in twenty, numbers with their most
significant byte first. Reading checks that the points ascend.

* `StakeGovernance.StakePoint` – the **amount and the delegate** recorded together;
* `StakeGovernance.CheckpointLog.toPacked`, `StakeGovernance.CheckpointLog.ofPacked` –
  a stake log as **bytes**.
-/

namespace StakeGovernance

/-- **An amount of stake and the delegate it is attributed to.** -/
structure StakePoint where
  amount : Amount
  delegate : Address
deriving DecidableEq

namespace StakePoint

/-- A stake point as JSON. -/
def toJson (s : StakePoint) : Json :=
  .object [("amount", Amount.toJson s.amount), ("delegate", s.delegate.toJson)]

instance : ToJson StakePoint := ⟨toJson⟩

/-- The stake point that a JSON value stands for. -/
def ofJson? (v : Json) : Option StakePoint := do
  let [amount, delegate] ← v.parts? ["amount", "delegate"] | none
  return ⟨← Amount.ofJson? amount, ← Address.ofJson? delegate⟩

instance : FromJson StakePoint := ⟨ofJson?⟩

end StakePoint

/-- The number of bytes of a packed checkpoint. -/
def packedSize : Nat := 40

/-- The forty bytes of a checkpoint. -/
def Checkpoint.toPacked (c : Checkpoint StakePoint) : Bytes :=
  bigEndian 8 c.point.toNat ++ c.value.amount.toBytes ++ c.value.delegate.bytes

/-- The checkpoint of forty bytes. -/
def Checkpoint.ofPacked? (bs : Bytes) : Option (Checkpoint StakePoint) := do
  let point ← Word.ofNat? (ofBigEndian (bs.take 8))
  let amount ← Amount.ofBytes? ((bs.drop 8).take 12)
  let delegate ← (Address.ofBytes (bs.drop 20)).toOption
  return ⟨point, amount, delegate⟩

namespace CheckpointLog

/-- **The bytes of a stake log.** -/
def toPacked (log : CheckpointLog StakePoint) : Bytes := log.entries.flatMap Checkpoint.toPacked

/-- Checks that the points of checkpoints ascend from the point `previous` on. -/
def checkAscent : Option Timestamp → List (Checkpoint StakePoint) → Except StakingError Unit
  | _, [] => .ok ()
  | previous, c :: rest =>
    match previous with
    | none => checkAscent (some c.point) rest
    | some p =>
      if c.point ≤ p then .error (.packedOrder c.point p) else checkAscent (some c.point) rest

/-- **The stake log of a row of bytes.** -/
def ofPacked (bs : Bytes) : Except StakingError (CheckpointLog StakePoint) :=
  if bs.length % packedSize = 0 then
    match (pieces packedSize bs).mapM Checkpoint.ofPacked? with
    | none => .error (.packedLength bs.length)
    | some entries => do
      checkAscent none entries
      return ⟨entries⟩
  else .error (.packedLength bs.length)

end CheckpointLog

end StakeGovernance
