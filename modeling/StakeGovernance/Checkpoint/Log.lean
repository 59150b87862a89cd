import StakeGovernance.Call
import StakeGovernance.Staking.Error

/-!
# Checkpoint logs

A checkpoint records the value that took effect at a point of time. A log is a list of
checkpoints, written at its end; reading it at a point gives the value of the last
checkpoint at or before that point. A write at the newest point replaces the newest
value, because that point is not over yet, and a write before it is refused.

* `StakeGovernance.CheckpointLog` – a **log**;
* `StakeGovernance.CheckpointLog.write` – a **write** at its end;
* `StakeGovernance.CheckpointLog.valueAt` – the value at a point, by **binary search**;
* `StakeGovernance.CheckpointLog.valueAtLinear` – the same by a scan from the oldest
  checkpoint, for audits;
* `StakeGovernance.CheckpointLog.Ordered` – strictly ascending points, as writes leave
  them. A log that was read from data need not be ordered.
-/

namespace StakeGovernance

/-- **A checkpoint**: a value and the point it took effect at. -/
structure Checkpoint (α : Type) where
  point : Timestamp
  value : α
deriving DecidableEq

/-- **A log** of checkpoints, the oldest one first. -/
structure CheckpointLog (α : Type) where
  entries : List (Checkpoint α)
deriving DecidableEq

namespace CheckpointLog

variable {α : Type}

/-- The log without any checkpoint. -/
def empty : CheckpointLog α := ⟨[]⟩

instance : Inhabited (CheckpointLog α) := ⟨empty⟩

/-- The number of checkpoints. -/
def size (log : CheckpointLog α) : Nat := log.entries.length

/-- Whether there is no checkpoint. -/
def isEmpty (log : CheckpointLog α) : Bool := log.entries.isEmpty

/-- The newest checkpoint. -/
def latest? (log : CheckpointLog α) : Option (Checkpoint α) := log.entries.getLast?

/-- **Points ascend strictly.** -/
def Ordered (log : CheckpointLog α) : Prop :=
  log.entries.Pairwise fun a b => a.point < b.point

/-! ### Writing -/

/-- **A write** of a value at a point. -/
def write (log : CheckpointLog α) (point : Timestamp) (value : α) :
    Except StakingError (CheckpointLog α) :=
  match log.latest? with
  | none => .ok ⟨[⟨point, value⟩]⟩
  | some last =>
    if point < last.point then .error (.checkpointOrder point last.point)
    else if point = last.point then .ok ⟨log.entries.dropLast ++ [⟨point, value⟩]⟩
    else .ok ⟨log.entries ++ [⟨point, value⟩]⟩

/-! ### Reading -/

/-- Narrows the range of `size` items from `base` on to one item: the search goes on in
the upper part if the item in the middle passes the test, and below it otherwise. -/
def narrow (test : α → Bool) (items : List α) (base size : Nat) : Nat :=
  if 1 < size then
    let half := size / 2
    let middle := base + half
    let above := match items[middle]? with
      | some x => test x
      | none => false
    narrow test items (if above then middle else base) (size - half)
  else base
termination_by size

/-- **The number of items that pass a test**, where those that pass come first. -/
def partitionPoint (test : α → Bool) (items : List α) : Nat :=
  let base := narrow test items 0 items.length
  match items[base]? with
  | some x => if test x then base + 1 else base
  | none => 0

/-- **The value in effect at a point**, by binary search. -/
def valueAt (log : CheckpointLog α) (point : Timestamp) : Option α :=
  match partitionPoint (fun c => decide (c.point ≤ point)) log.entries with
  | 0 => none
  | i + 1 => log.entries[i]?.map (·.value)

/-- The value in effect at a point by a scan that stops at the first later one. -/
def valueAtLinear (log : CheckpointLog α) (point : Timestamp) : Option α :=
  ((log.entries.takeWhile fun c => decide (c.point ≤ point)).getLast?).map (·.value)

/-! ### JSON -/

/-- A checkpoint as JSON. -/
def checkpointToJson (f : α → Json) (c : Checkpoint α) : Json :=
  .object [("point", .ofWord c.point), ("value", f c.value)]

/-- The checkpoint that a JSON value stands for. -/
def checkpointOfJson? (f : Json → Option α) (v : Json) : Option (Checkpoint α) := do
  let [point, value] ← v.parts? ["point", "value"] | none
  return ⟨← point.word?, ← f value⟩

/-- A log as JSON. -/
def toJson (f : α → Json) (log : CheckpointLog α) : Json :=
  .object [("entries", .array (log.entries.map (checkpointToJson f)))]

/-- The log that a JSON value stands for. The order of its checkpoints is taken as it
is. -/
def ofJson? (f : Json → Option α) (v : Json) : Option (CheckpointLog α) := do
  let [entries] ← v.parts? ["entries"] | none
  return ⟨← entries.list? (checkpointOfJson? f)⟩

end CheckpointLog

end StakeGovernance
