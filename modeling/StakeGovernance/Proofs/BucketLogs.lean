import StakeGovernance.Ledger.Operations
import StakeGovernance.Proofs.Maps
import StakeGovernance.Proofs.Readings

/-!
# Logs of buckets

The ledger and the registry of delegations both keep a log for each bucket of each
account, the one of stakes and the other of attributed amounts. What holds of such logs
is said here once for both: a number that is read off the values, such as the amount of a
stake, is followed through a row of writes.

* `StakeGovernance.BucketLogs.putAll` – the logs **after a row of writes** at one point;
* `StakeGovernance.BucketLogs.reading` – a **number read** at a point, zero where nothing
  was written;
* `StakeGovernance.BucketLogs.reading_putAll` – what a row of writes does to **every
  reading**.
-/

namespace StakeGovernance

/-- A log for each bucket of each account. -/
abbrev BucketLogs (α : Type) : Type := OrderedMap Address (OrderedMap Timestamp (CheckpointLog α))

namespace BucketLogs

variable {α : Type} {now point t : Timestamp}

/-- The log of a bucket; a bucket that was never written to has an empty one. -/
def log (m : BucketLogs α) (account : Address) (bucket : Timestamp) : CheckpointLog α :=
  (m.getD account .empty).getD bucket .empty

/-- The logs after a write. -/
def put (now : Timestamp) (m : BucketLogs α) (slot : Slot) (value : α) : BucketLogs α :=
  let buckets := m.getD slot.account .empty
  m.insert slot.account
    (buckets.insert slot.bucket ((buckets.getD slot.bucket .empty).put now value))

/-- **The logs after a row of writes** at one point. -/
def putAll (now : Timestamp) (m : BucketLogs α) (writes : OrderedMap Slot α) : BucketLogs α :=
  writes.entries.foldl (fun m e => m.put now e.1 e.2) m

/-- Looking a log up and going on with it is the same as going on with the log, where an
empty log leads to nothing. -/
theorem bind_log {β : Type} {f : CheckpointLog α → Option β} (hf : f .empty = none)
    (m : BucketLogs α) (account : Address) (bucket : Timestamp) :
    ((m.get? account).bind (·.get? bucket)).bind f = f (m.log account bucket) := by
  unfold log OrderedMap.getD
  cases m.get? account with
  | none => exact hf.symm
  | some buckets =>
    show (buckets.get? bucket).bind f = f ((buckets.get? bucket).getD .empty)
    cases buckets.get? bucket with
    | none => exact hf.symm
    | some log => rfl

theorem log_put (m : BucketLogs α) (slot : Slot) (value : α) (account : Address)
    (bucket : Timestamp) :
    (m.put now slot value).log account bucket
      = if (⟨account, bucket⟩ : Slot) = slot then (m.log slot.account slot.bucket).put now value
        else m.log account bucket := by
  obtain ⟨a, b⟩ := slot
  unfold put log
  simp only [Slot.mk.injEq]
  rw [OrderedMap.getD_insert_eq]
  by_cases ha : account = a
  · subst ha
    rw [if_pos rfl, OrderedMap.getD_insert_eq]
    by_cases hb : bucket = b
    · rw [if_pos hb, if_pos ⟨rfl, hb⟩]
    · rw [if_neg hb, if_neg fun h => hb h.2]
  · rw [if_neg ha, if_neg fun h => ha h.1]

/-- **A row of writes** writes to each bucket at most once. -/
theorem log_putAll (m : BucketLogs α) (writes : OrderedMap Slot α) (account : Address)
    (bucket : Timestamp) :
    (m.putAll now writes).log account bucket
      = match writes.get? ⟨account, bucket⟩ with
        | some value => (m.log account bucket).put now value
        | none => m.log account bucket :=
  OrderedMap.foldl_view (fun (m : BucketLogs α) (s : Slot) => m.log s.account s.bucket)
    (fun slot value m => m.put now slot value) (fun value log => log.put now value)
    (fun m slot value s => m.log_put slot value s.account s.bucket) writes m ⟨account, bucket⟩

/-! ### Readings -/

/-- In every log the points ascend, and none is later than `t`. -/
def OrderedUpTo (m : BucketLogs α) (t : Timestamp) : Prop :=
  ∀ account bucket, (m.log account bucket).OrderedUpTo t

theorem OrderedUpTo.mono {m : BucketLogs α} (h : m.OrderedUpTo point) (hle : point ≤ t) :
    m.OrderedUpTo t := fun account bucket => (h account bucket).mono hle

theorem OrderedUpTo.empty (t : Timestamp) : OrderedUpTo (.empty : BucketLogs α) t :=
  fun _ _ => CheckpointLog.OrderedUpTo.empty t

theorem OrderedUpTo.putAll {m : BucketLogs α} (h : m.OrderedUpTo now)
    (writes : OrderedMap Slot α) : (m.putAll now writes).OrderedUpTo now := by
  intro account bucket
  rw [log_putAll]
  split
  · exact (h account bucket).put _
  · exact h account bucket

/-- **A number read at a point**, zero where nothing was written by then. -/
def reading (f : α → Nat) (m : BucketLogs α) (account : Address) (bucket point : Timestamp) : Nat :=
  (((m.log account bucket).valueAt point).map f).getD 0

/-- The number that is read off the newest value. -/
def newest (f : α → Nat) (m : BucketLogs α) (account : Address) (bucket : Timestamp) : Nat :=
  (((m.log account bucket).latest?).map fun c => f c.value).getD 0

variable {f : α → Nat} {m : BucketLogs α}

/-- From the newest points on, the newest values are read. -/
theorem OrderedUpTo.reading_of_le (h : m.OrderedUpTo t) (hle : t ≤ point) (account : Address)
    (bucket : Timestamp) : m.reading f account bucket point = m.newest f account bucket := by
  unfold reading newest
  rw [(h account bucket).valueAt_of_le hle, Option.map_map]
  rfl

/-- **What a row of writes does to every reading**: from its point on, what was written is
read, and the newest value where nothing was written; before it, the same as before. -/
theorem OrderedUpTo.reading_putAll (h : m.OrderedUpTo now) (writes : OrderedMap Slot α)
    (account : Address) (bucket point : Timestamp) :
    (m.putAll now writes).reading f account bucket point
      = if now ≤ point then ((writes.get? ⟨account, bucket⟩).map f).getD (m.newest f account bucket)
        else m.reading f account bucket point := by
  unfold reading
  rw [log_putAll]
  cases writes.get? ⟨account, bucket⟩ with
  | none =>
    show m.reading f account bucket point = _
    split
    · rename_i hle
      exact h.reading_of_le hle account bucket
    · rfl
  | some value =>
    show (((CheckpointLog.put _ now value).valueAt point).map f).getD 0 = _
    rw [(h account bucket).valueAt_put]
    split <;> rfl

end BucketLogs

end StakeGovernance
