import StakeGovernance.Protocol.Operations

/-!
# Executing a proposal

The proposal is marked as executed and its actions are taken out of the timelock before
the first of them runs. Then they run one after the other, each on what the one before
has left. An action that fails changes nothing and does not stop the others.

* `StakeGovernance.Protocol.applyOwn` – a command that the protocol **carries out on
  itself**;
* `StakeGovernance.Protocol.dispatch` – **carries an action out**;
* `StakeGovernance.Protocol.execute` – **executes** a proposal.
-/

namespace StakeGovernance.Protocol

variable {ν : Type}

/-! ### Commands on the protocol itself -/

/-- Carries a setting out and reports it under a name. -/
def change (name value : String) (call : Call GovernanceError (Protocol ν) Unit) :
    Call ActionFault (Protocol ν) ActionOutput := do
  Call.part id (fun p _ => p) .governance call
  modify (·.note (.parameterChanged name value))
  return .parameterChanged name value

/-- Switches a capability to another version. -/
def upgrade (target : Address) (version : Version) :
    Call ActionFault (Protocol ν) ActionOutput := do
  let p ← get
  if !p.registry.hasVersion target version then throw (.notRegistered version target)
  let capabilities := p.state.capabilities.insert target version
  set (({ p with state := { p.state with capabilities } }).note
    (.capabilityUpgraded target version))
  return .capabilityUpgraded target version

/-- **Carries a command out on the protocol itself.** -/
def applyOwn : Command → Call ActionFault (Protocol ν) ActionOutput
  | .setVotingDelay delay =>
    change "voting_delay" (toString delay) (onGovernor (Governor.setVotingDelay delay))
  | .setVotingPeriod period =>
    change "voting_period" (toString period) (onGovernor (Governor.setVotingPeriod period))
  | .setProposalThreshold threshold =>
    change "proposal_threshold" (toString threshold)
      (onGovernor (Governor.setProposalThreshold threshold))
  | .setQuorumVotes quorum =>
    change "quorum_votes" (toString quorum) (onGovernor (Governor.setQuorumVotes quorum))
  | .setGuardian guardian =>
    change "guardian" (toString guardian) (onGovernor (Governor.setGuardian guardian))
  | .setTimelockDelay delay =>
    change "timelock_delay" (toString delay) do
      onTimelock (Timelock.setDelay (← get).state.address delay)
  | .upgradeCapability target version => upgrade target version
  | .treasuryTransfer _ _ => throw .ownTransfer

/-! ### Any action -/

/-- The handler that stands behind a target now. -/
def handlerOf (p : Protocol ν) (target : Address) : Except ActionFault Treasury := do
  let some version := p.state.activeVersion? target | throw (.noCapability target)
  let some handler := p.registry.resolve? target version | throw (.noHandler target version)
  return handler

/-- **Carries an action out.** -/
def dispatch [Custody ν] (action : ProposalAction) :
    Call ActionFault (Protocol ν) ActionOutput := do
  let command ← action.command.mapError ActionFault.governance
  let p ← get
  if action.target = p.state.address then applyOwn command
  else do
    let handler ← p.handlerOf action.target
    Call.part (·.vault) (fun vault p => { p with vault }) id (handler.handle command)

/-- Carries an action out and reports how it went. This never fails. -/
def perform [Custody ν] (hash : Digest) (action : ProposalAction) :
    Call GovernanceError (Protocol ν) ActionReceipt := fun p =>
  let receipt (outcome : ActionOutcome) : ActionReceipt :=
    ⟨hash, action.target, action.signature, outcome⟩
  -- a fault is an outcome like any other, and does not stop the actions that follow
  match dispatch action p with
  | .ok output q =>
    .ok (receipt (.executed output)) (q.note (.actionExecuted hash action.target true))
  | .error fault q =>
    .ok (receipt (.failed fault)) (q.note (.actionExecuted hash action.target false))

/-- **Executes a proposal.** -/
def execute [Custody ν] (id : ProposalId) (now : Timestamp) :
    Call GovernanceError (Protocol ν) ExecutionReport := do
  checkClock now
  settled now do
    let released ← onCouncil (Council.release id now)
    let receipts ← Call.collect released.actions fun (hash, action) => perform hash action
    return ⟨id, released.eta, receipts⟩

end StakeGovernance.Protocol
