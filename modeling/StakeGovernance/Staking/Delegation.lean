import StakeGovernance.Call
import StakeGovernance.Checkpoint.Log
import StakeGovernance.Json.Record

/-!
# Delegation

Every owner attributes its stake to one delegate, itself unless it says otherwise. The
registry keeps the pointer of each owner, the history of the pointer, and the amounts
attributed to each delegatee, bucket by bucket, as logs.

* `StakeGovernance.Delegation` – the **registry**;
* `StakeGovernance.Delegation.setDelegate` – moves a **pointer**;
* `StakeGovernance.Delegation.writeDelegated` – records an **attributed amount**;
* `StakeGovernance.Delegation.liveBuckets` – what counts for voting power at a point.
-/

namespace StakeGovernance

/-- **The registry of delegations.** -/
structure Delegation where
  /-- The delegate of each owner that has one other than itself. -/
  current : OrderedMap Address Address
  /-- The history of each pointer that ever moved. -/
  history : OrderedMap Address (CheckpointLog Address)
  /-- The amounts attributed to each delegatee in each bucket. -/
  delegated : OrderedMap Address (OrderedMap Timestamp (CheckpointLog Amount))
deriving DecidableEq

namespace Delegation

/-- The registry without any pointer. -/
def empty : Delegation := ⟨.empty, .empty, .empty⟩

instance : Inhabited Delegation := ⟨empty⟩

/-! ### Pointers -/

/-- The delegate of an owner. -/
def delegateOf (d : Delegation) (owner : Address) : Address := d.current.getD owner owner

/-- The delegate of an owner in effect at a point. -/
def delegateAt (d : Delegation) (owner : Address) (point : Timestamp) : Address :=
  ((d.history.get? owner).bind (·.valueAt point)).getD owner

/-- The newest point at which the pointer of an owner moved. -/
def lastChange? (d : Delegation) (owner : Address) : Option Timestamp :=
  ((d.history.get? owner).bind (·.latest?)).map (·.point)

/-- **Moves the pointer** of an owner. The result is the delegate before, or nothing if
the pointer is there already. -/
def setDelegate (owner target : Address) (now : Timestamp) :
    Call StakingError Delegation (Option Address) := do
  if owner.isZero || target.isZero then throw .zeroDelegation
  let d ← get
  let previous := d.delegateOf owner
  if previous = target then return none
  let log ← (d.history.getD owner .empty).write now target
  let current := if target = owner then d.current.erase owner else d.current.insert owner target
  set { d with history := d.history.insert owner log, current }
  return some previous

/-! ### Attributed amounts -/

/-- The log of what a delegatee is attributed in a bucket. -/
def log? (d : Delegation) (delegatee : Address) (bucket : Timestamp) :
    Option (CheckpointLog Amount) :=
  (d.delegated.get? delegatee).bind (·.get? bucket)

/-- The amount that a delegatee is attributed in a bucket. -/
def amount (d : Delegation) (delegatee : Address) (bucket : Timestamp) : Amount :=
  (((d.log? delegatee bucket).bind (·.latest?)).map (·.value)).getD .zero

/-- The amount that a delegatee was attributed in a bucket at a point. -/
def amountAt (d : Delegation) (delegatee : Address) (bucket point : Timestamp) : Amount :=
  ((d.log? delegatee bucket).bind (·.valueAt point)).getD .zero

/-- The newest point at which an attributed amount was recorded. -/
def lastAttribution? (d : Delegation) (delegatee : Address) (bucket : Timestamp) :
    Option Timestamp :=
  ((d.log? delegatee bucket).bind (·.latest?)).map (·.point)

/-- **The buckets of a delegatee that end after a point**, in order, with their logs. -/
def liveBuckets (d : Delegation) (delegatee : Address) (point : Timestamp) :
    List (Timestamp × CheckpointLog Amount) :=
  match d.delegated.get? delegatee with
  | none => []
  | some buckets => buckets.entries.filter fun e => point < e.1

/-- **Records the amount** that a delegatee is attributed in a bucket. -/
def writeDelegated (delegatee : Address) (bucket now : Timestamp) (amount : Amount) :
    Call StakingError Delegation Unit := do
  let d ← get
  let buckets := d.delegated.getD delegatee .empty
  let log ← (buckets.getD bucket .empty).write now amount
  set { d with delegated := d.delegated.insert delegatee (buckets.insert bucket log) }

/-! ### JSON -/

/-- A registry as JSON. -/
def toJson (d : Delegation) : Json :=
  .object [
    ("current", d.current.toJson Address.toHexText Address.toJson),
    ("history", d.history.toJson Address.toHexText (CheckpointLog.toJson Address.toJson)),
    ("delegated", d.delegated.toJson Address.toHexText fun buckets =>
      buckets.toJson toString (CheckpointLog.toJson Amount.toJson))]

instance : ToJson Delegation := ⟨toJson⟩

/-- The registry that a JSON value stands for. -/
def ofJson? (v : Json) : Option Delegation := do
  let [current, history, delegated] ← v.parts? ["current", "history", "delegated"] | none
  return ⟨← OrderedMap.ofJson? Address.ofKey? Address.ofJson? current,
    ← OrderedMap.ofJson? Address.ofKey? (CheckpointLog.ofJson? Address.ofJson?) history,
    ← OrderedMap.ofJson? Address.ofKey?
      (OrderedMap.ofJson? Json.keyWord? (CheckpointLog.ofJson? Amount.ofJson?)) delegated⟩

instance : FromJson Delegation := ⟨ofJson?⟩

end Delegation

end StakeGovernance
