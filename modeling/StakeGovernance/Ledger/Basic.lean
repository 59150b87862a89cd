import StakeGovernance.Checkpoint.Packed
import StakeGovernance.Staking.Delegation
import StakeGovernance.Staking.Event
import StakeGovernance.Staking.Params

/-!
# The stake ledger

Stakes are kept for each owner in buckets, one for each point of the calendar at which
locks of the owner end. Every change appends checkpoints, so that voting power can be
read at any past point. Power is computed in two ways: quickly, from the amounts that
the delegation registry has attributed to an account, and from the stakes of all owners
one by one, for audits.

* `StakeGovernance.Ledger` – the **ledger**, empty in `StakeGovernance.Ledger.create`;
* `StakeGovernance.Ledger.votingPowerAt`, `StakeGovernance.Ledger.votingPowerAtLinear` –
  **voting power**, fast and for audits;
* `StakeGovernance.Ledger.positions`, `StakeGovernance.Ledger.balanceOf`,
  `StakeGovernance.Ledger.totalStakedAt` – what is **locked**;
* `StakeGovernance.Ledger.lockBucket` – the bucket that a requested lock falls in.
-/

namespace StakeGovernance

/-- The buckets of an owner with their logs. -/
abbrev StakeBuckets := OrderedMap Timestamp (CheckpointLog StakePoint)

/-- **The stake ledger.** -/
structure Ledger where
  params : StakingParams
  /-- The history of each bucket of each owner. -/
  stakes : OrderedMap Address StakeBuckets
  delegation : Delegation
  /-- The amount locked in total. -/
  total : Amount
  /-- The history of the total. -/
  totalLog : CheckpointLog Amount
  /-- The latest point at which a call changed anything. -/
  lastPoint : Timestamp
  /-- Changes that nobody has taken notice of yet. They are not part of stored data. -/
  events : List StakingEvent
deriving DecidableEq

/-- **A bucket of an owner that holds something.** -/
structure StakePosition where
  bucket : Timestamp
  amount : Amount
  delegate : Address
deriving DecidableEq

/-- **The outcome of a stake or an extension**: the bucket and all that is in it now. -/
structure StakeReceipt where
  owner : Address
  bucket : Timestamp
  amount : Amount
deriving DecidableEq

namespace Ledger

/-- A ledger without any stake. -/
def empty (params : StakingParams) : Ledger :=
  ⟨params, .empty, .empty, .zero, .empty, .zero, []⟩

/-- **A new ledger**, if its parameters are sound. -/
def create (params : StakingParams) : Except StakingError Ledger := do
  params.validate
  return empty params

/-! ### The calendar -/

/-- A point rounded down to the calendar. -/
def quantize (l : Ledger) (t : Timestamp) : Timestamp := l.params.quantize t

/-- **The bucket of a lock** that is asked to last until `unlock`: it ends after `now`,
and not later than the longest lock allows. -/
def lockBucket (l : Ledger) (unlock now : Timestamp) : Except StakingError Timestamp :=
  let bucket := l.quantize unlock
  if bucket ≤ now then .error (.lockNotAfter unlock bucket now)
  else if l.params.curve.maxDuration < bucket.monus now then
    .error (.lockTooLong bucket l.params.curve.maxDuration)
  else .ok bucket

/-! ### Stakes -/

/-- The log of a bucket of an owner. -/
def checkpoints? (l : Ledger) (owner : Address) (bucket : Timestamp) :
    Option (CheckpointLog StakePoint) :=
  (l.stakes.get? owner).bind (·.get? bucket)

/-- The newest checkpoint's value of a bucket; a bucket without any holds nothing. -/
def latestStake (l : Ledger) (owner : Address) (bucket : Timestamp) : StakePoint :=
  (((l.checkpoints? owner bucket).bind (·.latest?)).map (·.value)).getD
    ⟨.zero, l.delegation.delegateOf owner⟩

/-- The amount in a bucket of an owner. -/
def amountOf (l : Ledger) (owner : Address) (bucket : Timestamp) : Amount :=
  (l.latestStake owner bucket).amount

/-- The amount in a bucket of an owner at a point. -/
def amountAt (l : Ledger) (owner : Address) (bucket point : Timestamp) : Amount :=
  (((l.checkpoints? owner bucket).bind (·.valueAt point)).map (·.amount)).getD .zero

/-- The buckets of an owner with their logs, in order. -/
def bucketsOf (l : Ledger) (owner : Address) : List (Timestamp × CheckpointLog StakePoint) :=
  match l.stakes.get? owner with
  | none => []
  | some buckets => buckets.entries

/-- The position that a bucket with this log is. -/
def position? (bucket : Timestamp) (log : CheckpointLog StakePoint) : Option StakePosition :=
  match log.latest? with
  | none => none
  | some c => if c.value.amount.isZero then none else some ⟨bucket, c.value.amount, c.value.delegate⟩

/-- **The positions of an owner**, the one that ends first in front. -/
def positions (l : Ledger) (owner : Address) : List StakePosition :=
  (l.bucketsOf owner).filterMap fun (bucket, log) => position? bucket log

/-- The amount that an owner has locked in all. -/
def balanceOf (l : Ledger) (owner : Address) : Except StakingError Amount :=
  match Amount.sum? ((l.positions owner).map (·.amount)) with
  | some total => .ok total
  | none => .error (.balanceOverflow owner)

/-- The last bucket of an owner that ends after `now` and holds something. -/
def latestLiveBucket? (l : Ledger) (owner : Address) (now : Timestamp) : Option Timestamp :=
  (((l.positions owner).filter fun p => now < p.bucket).getLast?).map (·.bucket)

/-- Everyone who ever staked. -/
def owners (l : Ledger) : List Address := l.stakes.keys

/-- The amount locked in total. -/
def totalStaked (l : Ledger) : Amount := l.total

/-- The amount locked in total at a point. -/
def totalStakedAt (l : Ledger) (point : Timestamp) : Amount :=
  (l.totalLog.valueAt point).getD .zero

/-- The delegate of an owner. -/
def delegateOf (l : Ledger) (owner : Address) : Address := l.delegation.delegateOf owner

/-- The delegate of an owner in effect at a point. -/
def delegateAt (l : Ledger) (owner : Address) (point : Timestamp) : Address :=
  l.delegation.delegateAt owner point

/-! ### Voting power -/

/-- A sum of powers. -/
def addPower (account : Address) (power weight : Power) : Except StakingError Power :=
  match power.add? weight with
  | some sum => .ok sum
  | none => .error (.powerOverflow account)

/-- **The voting power of an account at a point**: over every bucket that ends after it,
the amount attributed to the account at that point, weighted by the time left. -/
def votingPowerAt (l : Ledger) (account : Address) (point : Timestamp) :
    Except StakingError Power :=
  (l.delegation.liveBuckets account point).foldlM (fun power (bucket, log) =>
    let amount := (log.valueAt point).getD .zero
    if amount.isZero then .ok power
    else addPower account power (l.params.curve.weight amount (bucket.monus point))) .zero

/-- The stakes that are attributed to an account at a point, each with its bucket, as
they are found owner by owner. -/
def attributedStakes (l : Ledger) (account : Address) (point : Timestamp) :
    List (Timestamp × Amount) :=
  l.stakes.values.flatMap fun buckets =>
    (buckets.entries.filter fun e => point < e.1).filterMap fun (bucket, log) =>
      match log.valueAtLinear point with
      | none => none
      | some stake => if stake.delegate = account then some (bucket, stake.amount) else none

/-- The sums of stakes by bucket. -/
def bucketSums (stakes : List (Timestamp × Amount)) :
    Except StakingError (OrderedMap Timestamp Power) :=
  stakes.foldlM (fun sums (bucket, amount) =>
    match Word.ofNat? ((sums.getD bucket .zero).toNat + amount.toNat) with
    | some sum => .ok (sums.insert bucket sum)
    | none => .error .bucketSumOverflow) .empty

/-- **The voting power of an account at a point, for audits**: the same sum from the
stakes of all owners. -/
def votingPowerAtLinear (l : Ledger) (account : Address) (point : Timestamp) :
    Except StakingError Power := do
  let sums ← bucketSums (l.attributedStakes account point)
  sums.entries.foldlM (fun power (bucket, sum) =>
    match Word.ofNat? sum.toNat with
    | none => .error (.bucketOverflow bucket sum)
    | some amount =>
      addPower account power (l.params.curve.weight amount (bucket.monus point))) .zero

/-! ### Events -/

/-- Takes the changes that nobody has taken notice of yet. -/
def drainEvents : Call StakingError Ledger (List StakingEvent) := do
  let l ← get
  set { l with events := [] }
  return l.events

end Ledger

end StakeGovernance
