import StakeGovernance.Ledger.Plan

/-!
# Operations on the ledger

Each operation is planned against the ledger as it is, then written, and then reported.
Time never runs backwards: a call at a point before the last one is refused.

* `StakeGovernance.Ledger.stake` – **locks** an amount;
* `StakeGovernance.Ledger.extend` – **lengthens** a lock and adds to it;
* `StakeGovernance.Ledger.withdraw` – **gives back** what is no longer locked;
* `StakeGovernance.Ledger.delegate` – **attributes** the live stake of an owner anew.
-/

namespace StakeGovernance

/-- What an operation is going to write, to return and to report. -/
structure Planned (α : Type) where
  plan : Plan
  result : α
  events : List StakingEvent

namespace Ledger

/-- Refuses a point before the last one. -/
def checkClock (l : Ledger) (now : Timestamp) : Except StakingError Unit :=
  if now < l.lastPoint then .error (.clockBehind now l.lastPoint) else .ok ()

/-- Writes what was planned and reports it. -/
def carryOut {α : Type} (owner : Address) (now : Timestamp) (planned : Planned α) :
    Call StakingError Ledger α := do
  commit owner planned.plan now
  emit planned.events
  return planned.result

/-! ### Staking -/

/-- Plans a stake. If the owner names a new delegate, all its live stake goes to it. -/
def planStake (l : Ledger) (owner : Address) (amount : Amount) (unlock : Timestamp)
    (delegate : Address) (now : Timestamp) : Except StakingError (Planned StakeReceipt) := do
  if owner.isZero || delegate.isZero then throw .zeroParty
  if amount.isZero then throw .zeroStake
  l.checkClock now
  let bucket ← l.lockBucket unlock now
  match l.latestLiveBucket? owner now with
  | some latest => if bucket < latest then throw (.bucketBeforeLock bucket latest)
  | none => pure ()
  let previous := l.delegateOf owner
  let plan ←
    if delegate = previous then pure Plan.empty else Plan.empty.redelegate l owner delegate now
  let (plan, staked) ← plan.add l owner bucket amount delegate
  let plan ← plan.addTotal l amount
  let moved := if delegate = previous then [] else [.delegateChanged owner previous delegate]
  return ⟨plan, ⟨owner, bucket, staked⟩, moved ++ [.stakeChanged owner bucket staked]⟩

/-- **Locks an amount** until `unlock`, attributed to `delegate`. -/
def stake (owner : Address) (amount : Amount) (unlock : Timestamp) (delegate : Address)
    (now : Timestamp) : Call StakingError Ledger StakeReceipt := do
  carryOut owner now (← (← get).planStake owner amount unlock delegate now)

/-! ### Extending -/

/-- Plans an extension. -/
def planExtend (l : Ledger) (owner : Address) (source unlock : Timestamp) (additional : Amount)
    (now : Timestamp) : Except StakingError (Planned StakeReceipt) := do
  l.checkClock now
  if (l.amountOf owner source).isZero then throw (.nothingStaked owner source)
  if source ≤ now then throw (.lockExpired source)
  let bucket ← l.lockBucket unlock now
  if bucket < source then throw (.lockShortened source bucket)
  let delegate := l.delegateOf owner
  let (plan, staked) ←
    if bucket = source then Plan.empty.add l owner bucket additional delegate
    else do
      let (plan, moved) ← Plan.empty.remove l owner source
      match moved.amount.add? additional with
      | none => throw (.extensionOverflow moved.amount additional)
      | some moving => plan.add l owner bucket moving delegate
  let plan ← if additional.isZero then pure plan else plan.addTotal l additional
  let emptied := if bucket = source then [] else [.stakeChanged owner source .zero]
  return ⟨plan, ⟨owner, bucket, staked⟩, emptied ++ [.stakeChanged owner bucket staked]⟩

/-- **Moves all of a bucket** to the bucket of `unlock` and adds to it. -/
def extend (owner : Address) (source unlock : Timestamp) (additional : Amount)
    (now : Timestamp) : Call StakingError Ledger StakeReceipt := do
  carryOut owner now (← (← get).planExtend owner source unlock additional now)

/-! ### Withdrawing -/

/-- Plans a withdrawal. -/
def planWithdraw (l : Ledger) (owner : Address) (bucket now : Timestamp) :
    Except StakingError (Planned Amount) := do
  l.checkClock now
  if (l.amountOf owner bucket).isZero then throw (.nothingStaked owner bucket)
  if now < bucket then throw (.stillLocked bucket now)
  let (plan, released) ← Plan.empty.remove l owner bucket
  let plan ← plan.subTotal l released.amount
  return ⟨plan, released.amount, [.withdrawn owner bucket released.amount]⟩

/-- **Gives back the content of a bucket** whose lock is over. -/
def withdraw (owner : Address) (bucket now : Timestamp) : Call StakingError Ledger Amount := do
  carryOut owner now (← (← get).planWithdraw owner bucket now)

/-! ### Delegating -/

/-- Plans a delegation; nothing is planned if the delegate is the same as before. -/
def planDelegate (l : Ledger) (owner target : Address) (now : Timestamp) :
    Except StakingError (Option (Planned (Option Address))) := do
  if owner.isZero || target.isZero then throw .zeroDelegation
  l.checkClock now
  let previous := l.delegateOf owner
  if previous = target then return none
  let plan ← Plan.empty.redelegate l owner target now
  return some ⟨plan, some previous, [.delegateChanged owner previous target]⟩

/-- **Attributes the live stake of an owner to a delegate** from now on. The result is
the delegate before, or nothing if it was the same. -/
def delegate (owner target : Address) (now : Timestamp) :
    Call StakingError Ledger (Option Address) := do
  match ← (← get).planDelegate owner target now with
  | none => return none
  | some planned => carryOut owner now planned

end Ledger

end StakeGovernance
