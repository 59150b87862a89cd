import StakeGovernance.Ledger.Basic

/-!
# The stored form of the ledger

The ledger as JSON. Stake logs are written packed, as hexadecimal text; changes that
nobody has taken notice of are left out.

* `StakeGovernance.Ledger.toJson`, `StakeGovernance.Ledger.ofJson?` – the **ledger**;
* `StakeGovernance.StakeReceipt.toJson`, `StakeGovernance.StakePosition.toJson`.
-/

namespace StakeGovernance

/-- A receipt as JSON. -/
def StakeReceipt.toJson (r : StakeReceipt) : Json :=
  .object [("owner", r.owner.toJson), ("bucket", .ofWord r.bucket),
    ("amount", Amount.toJson r.amount)]

instance : ToJson StakeReceipt := ⟨StakeReceipt.toJson⟩

/-- A position as JSON. -/
def StakePosition.toJson (p : StakePosition) : Json :=
  .object [("bucket", .ofWord p.bucket), ("amount", Amount.toJson p.amount),
    ("delegate", p.delegate.toJson)]

instance : ToJson StakePosition := ⟨StakePosition.toJson⟩

namespace Ledger

/-- A packed stake log as JSON. -/
def packedToJson (log : CheckpointLog StakePoint) : Json := .string (Hex.encode log.toPacked)

/-- The stake log of a packed form in JSON. -/
def packedOfJson? (v : Json) : Option (CheckpointLog StakePoint) := do
  let text ← v.text?
  let bytes ← (Hex.decode text).toOption
  (CheckpointLog.ofPacked bytes).toOption

/-- **A ledger as JSON.** -/
def toJson (l : Ledger) : Json :=
  .object [
    ("params", l.params.toJson),
    ("stakes", l.stakes.toJson Address.toHexText fun buckets => buckets.toJson toString packedToJson),
    ("delegation", l.delegation.toJson),
    ("total", Amount.toJson l.total),
    ("total_log", l.totalLog.toJson Amount.toJson),
    ("last_point", .ofWord l.lastPoint)]

instance : ToJson Ledger := ⟨toJson⟩

/-- **The ledger that a JSON value stands for.** -/
def ofJson? (v : Json) : Option Ledger := do
  let [params, stakes, delegation, total, totalLog, lastPoint] ←
    v.parts? ["params", "stakes", "delegation", "total", "total_log", "last_point"] | none
  return {
    params := ← StakingParams.ofJson? params
    stakes := ← OrderedMap.ofJson? Address.ofKey?
      (OrderedMap.ofJson? Json.keyWord? packedOfJson?) stakes
    delegation := ← Delegation.ofJson? delegation
    total := ← Amount.ofJson? total
    totalLog := ← CheckpointLog.ofJson? Amount.ofJson? totalLog
    lastPoint := ← lastPoint.word?
    events := [] }

instance : FromJson Ledger := ⟨ofJson?⟩

end Ledger

end StakeGovernance
