import StakeGovernance.Value.Address

/-!
# What can go wrong in staking

Each cause has a constructor of its own, which carries what its message needs. Causes
fall into six classes; the class gives the message its first words and decides the
kind of the error.

* `StakeGovernance.StakingError` – the **causes**;
* `StakeGovernance.StakingError.category` – the **class** of a cause;
* `StakeGovernance.StakingError.message` – the wording.
-/

namespace StakeGovernance

/-- **What can go wrong in staking.** -/
inductive StakingError where
  /-- A checkpoint written before the newest one. -/
  | checkpointOrder (point newest : Timestamp)
  /-- Packed checkpoints whose bytes are no whole number of records. -/
  | packedLength (length : Nat)
  /-- Packed checkpoints that are not in ascending order. -/
  | packedOrder (point previous : Timestamp)
  /-- Multipliers of a curve that are zero or the wrong way round. -/
  | curveBounds (least greatest : BasisPoints)
  /-- A longest duration of a curve that is zero or too large. -/
  | curveDuration (duration : Timestamp)
  /-- A bucket width that is zero or longer than the longest lock. -/
  | bucketInterval (interval longest : Timestamp)
  /-- A delegation that involves the zero address. -/
  | zeroDelegation
  /-- A stake whose owner or delegate is the zero address. -/
  | zeroParty
  /-- A stake of nothing. -/
  | zeroStake
  /-- A lock that would be over at once. -/
  | lockNotAfter (unlock bucket now : Timestamp)
  /-- A lock that would last too long. -/
  | lockTooLong (bucket longest : Timestamp)
  /-- A stake that would end before the lock there is. -/
  | bucketBeforeLock (bucket latest : Timestamp)
  /-- A bucket that holds nothing. -/
  | nothingStaked (owner : Address) (bucket : Timestamp)
  /-- An extension of a lock that is over. -/
  | lockExpired (bucket : Timestamp)
  /-- An extension that would end earlier. -/
  | lockShortened (bucket target : Timestamp)
  /-- A withdrawal before the end of the lock. -/
  | stillLocked (bucket now : Timestamp)
  /-- A call at a time before the last one. -/
  | clockBehind (now last : Timestamp)
  /-- A call at a time before a checkpoint it would follow. -/
  | recordBehind (now newest : Timestamp)
  /-- The extended amount does not fit. -/
  | extensionOverflow (moved additional : Amount)
  /-- The amount of a bucket does not fit. -/
  | stakeOverflow (current additional : Amount) (bucket : Timestamp)
  /-- The amount attributed to a delegatee does not fit. -/
  | attributionOverflow (delegatee : Address) (bucket : Timestamp)
  /-- Less is attributed to a delegatee than has to be taken away. -/
  | attributionUnderflow (current : Amount) (delegatee : Address) (bucket : Timestamp)
      (amount : Amount)
  /-- The total does not fit. -/
  | totalOverflow (total amount : Amount)
  /-- The total is less than has to be taken away. -/
  | totalUnderflow (total amount : Amount)
  /-- Voting power that does not fit. -/
  | powerOverflow (account : Address)
  /-- The stakes of one bucket do not even fit a power. -/
  | bucketSumOverflow
  /-- The stakes of one bucket do not fit an amount. -/
  | bucketOverflow (bucket : Timestamp) (sum : Power)
  /-- The positions of an owner do not fit together. -/
  | balanceOverflow (owner : Address)
  /-- An account that has too little. -/
  | balanceShort (account : Address) (balance need : Amount)
  /-- A release of more than is held. -/
  | custodyShort (amount held : Amount)
  /-- A vault that refuses for a reason of its own. -/
  | vaultRefused (reason : String)
  /-- An error of an elementary value. -/
  | value (error : ValueError)
deriving DecidableEq

namespace StakingError

/-- **The classes of causes.** -/
inductive Category where
  | invalidParameter
  | temporalViolation
  | overflow
  | underflow
  | vault
  | corrupt
deriving DecidableEq, Repr

/-- The class of a cause. -/
def category : StakingError → Category
  | checkpointOrder .. | lockNotAfter .. | lockTooLong .. | bucketBeforeLock .. | lockExpired ..
  | lockShortened .. | stillLocked .. | clockBehind .. | recordBehind .. => .temporalViolation
  | packedLength .. | packedOrder .. => .corrupt
  | extensionOverflow .. | stakeOverflow .. | attributionOverflow .. | totalOverflow ..
  | powerOverflow .. | bucketSumOverflow | bucketOverflow .. | balanceOverflow .. => .overflow
  | attributionUnderflow .. | totalUnderflow .. => .underflow
  | balanceShort .. | custodyShort .. | vaultRefused .. => .vault
  | value .amountOverflow => .overflow
  | value .amountUnderflow => .underflow
  | _ => .invalidParameter

/-- The kind of the errors of a class. -/
def Category.kind : Category → ErrorKind
  | invalidParameter | corrupt => .invalidParameter
  | temporalViolation => .temporalViolation
  | overflow => .overflow
  | underflow => .underflow
  | vault => .executionFailed

/-- The kind of an error. -/
def kind (e : StakingError) : ErrorKind := e.category.kind

/-- The name of a class, for programs that tell errors apart. -/
def Category.name : Category → String
  | invalidParameter => "InvalidParameter"
  | temporalViolation => "TemporalViolation"
  | overflow => "Overflow"
  | underflow => "Underflow"
  | vault => "Vault"
  | corrupt => "Corrupt"

/-- The first words of the messages of a class. -/
def Category.heading : Category → String
  | invalidParameter => "Invalid parameter: "
  | temporalViolation => "Temporal violation: "
  | overflow => "Amount overflow: "
  | underflow => "Amount underflow: "
  | vault => "Vault transfer failed: "
  | corrupt => "Corrupt checkpoint data: "

/-- The cause in words. -/
def detail : StakingError → String
  | checkpointOrder point newest =>
    s!"checkpoint at {point} precedes newest checkpoint at {newest}"
  | packedLength length => s!"packed log length {length} is not a multiple of 40"
  | packedOrder point previous => s!"checkpoint at {point} does not follow {previous}"
  | curveBounds least greatest =>
    s!"curve bounds must satisfy 0 < min ({least}) <= max ({greatest})"
  | curveDuration duration => s!"curve max duration {duration} out of range"
  | bucketInterval interval longest => s!"bucket interval {interval} must be in 1..={longest}"
  | zeroDelegation => "delegation to or from the zero address"
  | zeroParty => "owner and delegate must be non-zero"
  | zeroStake => "cannot stake zero"
  | lockNotAfter unlock bucket now =>
    s!"lock until {unlock} falls in bucket {bucket}, not after {now}"
  | lockTooLong bucket longest =>
    s!"lock bucket {bucket} exceeds the maximum duration of {longest}s"
  | bucketBeforeLock bucket latest =>
    s!"bucket {bucket} is earlier than the current lock at {latest}"
  | nothingStaked owner bucket => s!"{owner} has nothing staked in bucket {bucket}"
  | lockExpired bucket => s!"lock in bucket {bucket} has already expired"
  | lockShortened bucket target => s!"cannot shorten lock from bucket {bucket} to {target}"
  | stillLocked bucket now => s!"bucket {bucket} is still locked at {now}"
  | clockBehind now last => s!"time {now} is before the last recorded point {last}"
  | recordBehind now newest => s!"time {now} is before a checkpoint recorded at {newest}"
  | extensionOverflow moved additional => s!"{moved} + {additional}"
  | stakeOverflow current additional bucket => s!"{current} + {additional} in bucket {bucket}"
  | attributionOverflow delegatee bucket => s!"delegated to {delegatee} in bucket {bucket}"
  | attributionUnderflow current delegatee bucket amount =>
    s!"{current} delegated to {delegatee} in bucket {bucket}, removing {amount}"
  | totalOverflow total amount => s!"total staked {total} + {amount}"
  | totalUnderflow total amount => s!"total staked {total} - {amount}"
  | powerOverflow account => s!"voting power of {account}"
  | bucketSumOverflow => "bucket sum"
  | bucketOverflow bucket sum => s!"bucket {bucket} sum {sum}"
  | balanceOverflow owner => s!"balance of {owner}"
  | balanceShort account balance need =>
    s!"insufficient balance for {account}: have {balance}, need {need}"
  | custodyShort amount held => s!"release of {amount} exceeds custody {held}"
  | vaultRefused reason => reason
  | value e => e.message

/-- The wording of an error. -/
def message (e : StakingError) : String := e.category.heading ++ e.detail

end StakingError

end StakeGovernance
