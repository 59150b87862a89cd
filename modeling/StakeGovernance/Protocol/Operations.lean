import StakeGovernance.Ledger.Operations
import StakeGovernance.Protocol.Basic

/-!
# Calls on the protocol

Every call that changes something names the current time, and the clock never runs
backwards: a call at a time before the latest successful one is refused before it does
anything. A call that moves tokens changes the ledger first; if the vault then refuses,
the ledger is put back as it was.

* `StakeGovernance.Protocol.stake`, `StakeGovernance.Protocol.extend`,
  `StakeGovernance.Protocol.withdraw`, `StakeGovernance.Protocol.delegate` – **staking**;
* `StakeGovernance.Protocol.propose`, `StakeGovernance.Protocol.castVote`,
  `StakeGovernance.Protocol.queue`, `StakeGovernance.Protocol.cancel`,
  `StakeGovernance.Protocol.prune` – **proposals** up to their execution.
-/

namespace StakeGovernance.Protocol

variable {ν α : Type}

/-! ### Staking -/

/-- **A call on the ledger with a movement of tokens after it.** -/
def withCustody (call : Call StakingError Ledger α) (custody : α → Call StakingError ν Unit) :
    Call GovernanceError (Protocol ν) α := fun p =>
  match onLedger call p with
  | .error e q => .error e q
  | .ok a q =>
    match onVault .staking (custody a) q with
    -- the ledger is put back; what the vault did before it refused stays with the vault
    | .error e r => .error e (r.withLedger p.state.ledger)
    | .ok () r => .ok a r

/-- **Locks an amount** and takes it into custody. -/
def stake [Custody ν] (owner : Address) (amount : Amount) (unlock : Timestamp)
    (delegate : Address) (now : Timestamp) : Call GovernanceError (Protocol ν) StakeReceipt := do
  checkClock now
  if amount.isZero then throw .zeroStake
  settled now (withCustody (Ledger.stake owner amount unlock delegate now)
    fun _ => Custody.deposit owner amount)

/-- **Lengthens a lock** and takes what is added into custody. -/
def extend [Custody ν] (owner : Address) (source unlock : Timestamp) (additional : Amount)
    (now : Timestamp) : Call GovernanceError (Protocol ν) StakeReceipt := do
  checkClock now
  settled now (withCustody (Ledger.extend owner source unlock additional now)
    fun _ => if additional.isZero then pure () else Custody.deposit owner additional)

/-- **Gives back the content of a bucket** whose lock is over. -/
def withdraw [Custody ν] (owner : Address) (bucket now : Timestamp) :
    Call GovernanceError (Protocol ν) Amount := do
  checkClock now
  settled now (withCustody (Ledger.withdraw owner bucket now)
    fun amount => Custody.release owner amount)

/-- **Attributes the live stake of an owner to a delegate.** -/
def delegate (owner target : Address) (now : Timestamp) :
    Call GovernanceError (Protocol ν) (Option Address) := do
  checkClock now
  settled now (onLedger (Ledger.delegate owner target now))

/-! ### Proposals -/

/-- Checks the targets of a request. -/
def checkTargets (s : ProtocolState) (request : ProposalRequest) : Except GovernanceError Unit := do
  (← request.actions).forM s.checkTarget

/-- **Makes a proposal.** -/
def propose (proposer : Address) (request : ProposalRequest) (now : Timestamp) :
    Call GovernanceError (Protocol ν) ProposalId := do
  checkClock now
  let p ← get
  checkTargets p.state request
  settled now (onGovernor (Governor.propose p.state.ledger proposer request now))

/-- **Casts a vote.** -/
def castVote (voter : Address) (id : ProposalId) (support : VoteSupport) (now : Timestamp) :
    Call GovernanceError (Protocol ν) Power := do
  checkClock now
  let p ← get
  settled now (onGovernor (Governor.castVote p.state.ledger voter id support now))

/-- **Queues the actions of a proposal.** -/
def queue (id : ProposalId) (now : Timestamp) : Call GovernanceError (Protocol ν) Timestamp := do
  checkClock now
  settled now (onCouncil (Council.queue id now))

/-- **Cancels a proposal.** -/
def cancel (caller : Address) (id : ProposalId) (now : Timestamp) :
    Call GovernanceError (Protocol ν) Unit := do
  checkClock now
  let p ← get
  settled now (onCouncil (Council.cancel p.state.ledger caller id now))

/-- **Removes the entries of the timelock whose grace period is over.** -/
def prune (now : Timestamp) : Call GovernanceError (Protocol ν) (List Digest) := do
  checkClock now
  settled now (onTimelock (Timelock.pruneStale now))

/-! ### Capabilities and queries -/

/-- Enters the handler of a capability. The first version that is entered of a target is
active at once; another one becomes active by proposal only. -/
def registerCapability (target : Address) (version : Version) (handler : Treasury) :
    Call GovernanceError (Protocol ν) Unit := do
  let p ← get
  if target = p.state.address then throw .ownCapability
  let registry ← p.registry.register target version handler
  let capabilities :=
    if p.state.capabilities.contains target then p.state.capabilities
    else p.state.capabilities.insert target version
  set { p with registry, state := { p.state with capabilities } }

/-- The state of a proposal at a point. -/
def proposalState (p : Protocol ν) (id : ProposalId) (now : Timestamp) :
    Except GovernanceError ProposalState := p.state.council.state id now

/-- The voting power of an account at a point. -/
def votingPowerAt (p : Protocol ν) (account : Address) (point : Timestamp) :
    Except GovernanceError Power := p.state.ledger.powerOf account point

end StakeGovernance.Protocol
