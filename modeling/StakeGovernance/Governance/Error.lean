import StakeGovernance.Bytes.Reader
import StakeGovernance.Proposal.State
import StakeGovernance.Staking.Error

/-!
# What can go wrong in governance

Each cause has a constructor of its own, which carries what its message needs. Causes
fall into seven classes; the class gives the message its first words and decides the
kind of the error. An error of staking passes through as it is.

* `StakeGovernance.GovernanceError` – the **causes**;
* `StakeGovernance.GovernanceError.category` – the **class** of a cause;
* `StakeGovernance.GovernanceError.message` – the wording.
-/

namespace StakeGovernance

/-- **What can go wrong in governance.** -/
inductive GovernanceError where
  /-- Arguments of a command that cannot be read. -/
  | badArguments (signature : String) (error : ReadError)
  /-- A signature that names no command. -/
  | unknownSignature (signature : String)
  /-- An action on the zero address. -/
  | zeroTarget
  /-- Arguments of an action that are too long. -/
  | calldataTooLong (length : Nat)
  /-- Parallel lists of a request that differ in length. -/
  | listLengths (targets values signatures calldatas : Nat)
  /-- A text that names no vote. -/
  | unknownSupport (text : String)
  /-- A timelock whose admin is the zero address. -/
  | zeroAdmin
  /-- A least delay above the greatest. -/
  | delayBounds (least greatest : Timestamp)
  /-- A delay outside its bounds. -/
  | delayOutside (delay least greatest : Timestamp)
  /-- A grace period of nothing. -/
  | zeroGrace
  /-- A capability on the zero address. -/
  | zeroCapability
  /-- A voting period of nothing. -/
  | zeroVotingPeriod
  /-- A limit of no action at all. -/
  | zeroMaxActions
  /-- A governor on the zero address. -/
  | zeroGovernor
  /-- A proposal with no action or with too many. -/
  | actionCount (most : Word 64) (found : Nat)
  /-- A capability on the protocol's own address. -/
  | ownCapability
  /-- A stake of nothing. -/
  | zeroStake
  /-- A command that the protocol itself does not carry out. -/
  | notOwnCommand (signature : String)
  /-- A command that only the protocol itself carries out. -/
  | ownCommand (signature : String) (address : Address)
  /-- A target without a capability. -/
  | noCapability (target : Address)
  /-- A proposer with too little voting power. -/
  | belowThreshold (proposer : Address) (power threshold : Power)
  /-- A voter without voting power. -/
  | noVotingPower (voter : Address) (point : Timestamp)
  /-- A caller who is not the admin of the timelock. -/
  | notAdmin (caller : Address)
  /-- A governor that is not the admin of the timelock. -/
  | governorNotAdmin
  /-- A caller who may not cancel a proposal. -/
  | mayNotCancel (caller : Address) (id : ProposalId)
  /-- A time of execution outside its bounds. -/
  | etaOutside (eta earliest latest : Timestamp)
  /-- A time of execution that is not reached. -/
  | etaNotReached (eta now : Timestamp)
  /-- A grace period that is over. -/
  | graceElapsed (eta now : Timestamp)
  /-- A vote outside the voting window. -/
  | votingClosed (id : ProposalId) (state : ProposalState) (start finish : Timestamp)
  /-- A proposal whose vote has not ended. -/
  | stillOpen (id : ProposalId) (state : ProposalState)
  /-- A proposal that was not executed in time. -/
  | proposalExpired (id : ProposalId) (eta : Timestamp)
  /-- A call at a time before the clock. -/
  | clockBehind (now clock : Timestamp)
  /-- A second vote. -/
  | alreadyVoted (voter : Address) (id : ProposalId)
  /-- An action that is in the timelock already. -/
  | alreadyQueued (eta : Timestamp) (hash : Digest)
  /-- An action that is not in the timelock. -/
  | notQueued (hash : Digest)
  /-- A version of a capability that is taken. -/
  | versionTaken (version : Version) (target : Address)
  /-- A proposer who has an open proposal. -/
  | openProposal (proposer : Address) (latest : ProposalId)
  /-- A proposal that is settled for good. -/
  | settled (id : ProposalId) (state : ProposalState)
  /-- A proposal that cannot be queued. -/
  | notQueueable (id : ProposalId) (state : ProposalState)
  /-- A proposal that cannot be executed. -/
  | notExecutable (id : ProposalId) (state : ProposalState)
  /-- An action of a queued proposal that has left the timelock. -/
  | actionGone (hash : Digest) (id : ProposalId)
  /-- A tally that does not fit. -/
  | tallyOverflow (id : ProposalId)
  /-- A start of voting that does not fit. -/
  | startOverflow
  /-- An end of voting that does not fit. -/
  | endOverflow
  /-- A time of execution that does not fit. -/
  | etaOverflow
  /-- A number that no proposal has. -/
  | proposalNotFound (id : ProposalId)
  /-- An error of staking. -/
  | staking (error : StakingError)
deriving DecidableEq

namespace GovernanceError

/-- **The classes of causes.** -/
inductive Category where
  | invalidParameter
  | unauthorized
  | temporalViolation
  | stateConflict
  | overflow
  | proposalNotFound
  | staking
deriving DecidableEq, Repr

/-- The class of a cause. -/
def category : GovernanceError → Category
  | belowThreshold .. | noVotingPower .. | notAdmin .. | governorNotAdmin | mayNotCancel .. =>
    .unauthorized
  | etaOutside .. | etaNotReached .. | graceElapsed .. | votingClosed .. | stillOpen ..
  | proposalExpired .. | clockBehind .. => .temporalViolation
  | alreadyVoted .. | alreadyQueued .. | notQueued .. | versionTaken .. | openProposal ..
  | settled .. | notQueueable .. | notExecutable .. | actionGone .. => .stateConflict
  | tallyOverflow .. | startOverflow | endOverflow | etaOverflow => .overflow
  | proposalNotFound .. => .proposalNotFound
  | staking .. => .staking
  | _ => .invalidParameter

/-- The kind of an error. -/
def kind (e : GovernanceError) : ErrorKind :=
  match e with
  | staking e => e.kind
  | e =>
    match e.category with
    | .unauthorized => .unauthorized
    | .temporalViolation => .temporalViolation
    | .stateConflict => .stateConflict
    | .overflow => .overflow
    | .proposalNotFound => .notFound
    | _ => .invalidParameter

/-- The name of a class, for programs that tell errors apart. -/
def Category.name : Category → String
  | invalidParameter => "InvalidParameter"
  | unauthorized => "Unauthorized"
  | temporalViolation => "TemporalViolation"
  | stateConflict => "StateConflict"
  | overflow => "Overflow"
  | proposalNotFound => "ProposalNotFound"
  | staking => "Staking"

/-- The first words of the messages of a class. -/
def Category.heading : Category → String
  | invalidParameter => "Invalid parameter: "
  | unauthorized => "Unauthorized: "
  | temporalViolation => "Temporal violation: "
  | stateConflict => "State conflict: "
  | overflow => "Overflow: "
  | proposalNotFound => "Proposal not found: "
  | staking => ""

/-- The cause in words. -/
def detail : GovernanceError → String
  | badArguments signature e => s!"bad arguments for {signature}: {e.message}"
  | unknownSignature signature => s!"unknown action signature '{signature}'"
  | zeroTarget => "action target is the zero address"
  | calldataTooLong length => s!"calldata of {length} bytes exceeds 16384"
  | listLengths targets values signatures calldatas =>
    s!"action lists differ in length: {targets} targets, {values} values, " ++
      s!"{signatures} signatures, {calldatas} calldatas"
  | unknownSupport text => s!"unknown vote support '{text}'"
  | zeroAdmin => "timelock admin is the zero address"
  | delayBounds least greatest => s!"min delay {least} exceeds max delay {greatest}"
  | delayOutside delay least greatest => s!"delay {delay} outside [{least}, {greatest}]"
  | zeroGrace => "grace period must be positive"
  | zeroCapability => "capability target is the zero address"
  | zeroVotingPeriod => "voting period must be positive"
  | zeroMaxActions => "max actions must be positive"
  | zeroGovernor => "governor address is the zero address"
  | actionCount most found => s!"proposal must carry 1..={most} actions, got {found}"
  | ownCapability => "the protocol address cannot be a capability target"
  | zeroStake => "cannot stake zero"
  | notOwnCommand signature => s!"{signature} cannot target the protocol"
  | ownCommand signature address => s!"{signature} must target the protocol {address}"
  | noCapability target => s!"{target} is not a registered capability"
  | belowThreshold proposer power threshold =>
    s!"{proposer} has {power} votes, below the proposal threshold {threshold}"
  | noVotingPower voter point => s!"{voter} had no voting power at {point}"
  | notAdmin caller => s!"{caller} is not the timelock admin"
  | governorNotAdmin => "governor is not the timelock admin"
  | mayNotCancel caller id => s!"{caller} may not cancel proposal {id}"
  | etaOutside eta earliest latest => s!"eta {eta} outside [{earliest}, {latest}]"
  | etaNotReached eta now => s!"eta {eta} not reached at {now}"
  | graceElapsed eta now => s!"grace period after eta {eta} elapsed at {now}"
  | votingClosed id state start finish =>
    s!"voting on proposal {id} is closed ({state}), window [{start}, {finish}]"
  | stillOpen id state => s!"proposal {id} is still {state}"
  | proposalExpired id eta => s!"proposal {id} expired: grace period after eta {eta} elapsed"
  | clockBehind now clock => s!"time {now} is before the protocol clock {clock}"
  | alreadyVoted voter id => s!"{voter} already voted on proposal {id}"
  | alreadyQueued eta hash => s!"action already queued at eta {eta} ({hash})"
  | notQueued hash => s!"action {hash} is not queued"
  | versionTaken version target => s!"version {version} of {target} is already registered"
  | openProposal proposer latest => s!"{proposer} already has an open proposal {latest}"
  | settled id state => s!"proposal {id} is {state}"
  | notQueueable id state =>
    s!"proposal {id} is {state}, only succeeded proposals can be queued"
  | notExecutable id state =>
    s!"proposal {id} is {state}, only queued proposals can be executed"
  | actionGone hash id => s!"action {hash} of proposal {id} is no longer queued"
  | tallyOverflow id => s!"tally of proposal {id}"
  | startOverflow => "voting start"
  | endOverflow => "voting end"
  | etaOverflow => "eta"
  | proposalNotFound id => toString id
  | staking e => e.message

/-- The wording of an error. -/
def message (e : GovernanceError) : String := e.category.heading ++ e.detail

end GovernanceError

end StakeGovernance
