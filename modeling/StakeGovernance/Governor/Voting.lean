import StakeGovernance.Governor.Basic
import StakeGovernance.Ledger.Basic
import StakeGovernance.Call

/-!
# Proposing and voting

A proposal and a vote are made with the voting power of the ledger at a point in the
past: a proposal with the power one second ago, a vote with the power at that same
second. Both are drawn up first and entered only when every check has passed.

* `StakeGovernance.Governor.draft`, `StakeGovernance.Governor.propose` – **makes a
  proposal**;
* `StakeGovernance.Governor.ballot`, `StakeGovernance.Governor.castVote` – **casts a
  vote**;
* `StakeGovernance.Governor.adopt` – **changes the rules** of voting.
-/

namespace StakeGovernance

/-- The voting power of an account at a point. -/
def Ledger.powerOf (l : Ledger) (account : Address) (point : Timestamp) :
    Except GovernanceError Power :=
  (l.votingPowerAt account point).mapError .staking

namespace Governor

/-! ### Proposing -/

/-- Checks the number of the actions, and that each of them is a command. -/
def checkActions (g : Governor) (actions : List ProposalAction) : Except GovernanceError Unit := do
  if actions.isEmpty ∨ g.params.maxActions.toNat < actions.length then
    throw (.actionCount g.params.maxActions actions.length)
  actions.forM fun action => do let _ ← action.command

/-- The open proposal of a proposer, if there is one. -/
def openProposal? (g : Governor) (proposer : Address) (now : Timestamp) : Option ProposalId := do
  let latest ← g.latestByProposer.get? proposer
  let previous ← g.get? latest
  if (previous.state now .zero).isOpen then some latest else none

/-- **Draws up a proposal** with its checks. -/
def draft (g : Governor) (ledger : Ledger) (proposer : Address) (request : ProposalRequest)
    (now : Timestamp) : Except GovernanceError Proposal := do
  let actions ← request.actions
  g.checkActions actions
  let snapshot := now.monus (.ofNat 1)
  let power ← ledger.powerOf proposer snapshot
  if power < g.params.proposalThreshold then
    throw (.belowThreshold proposer power g.params.proposalThreshold)
  match g.openProposal? proposer now with
  | some latest => throw (.openProposal proposer latest)
  | none => pure ()
  let some start := now.add? g.params.votingDelay | throw .startOverflow
  let some finish := start.add? g.params.votingPeriod | throw .endOverflow
  return .create g.nextId proposer actions request.description now snapshot start finish
    g.params.quorumVotes

/-- What is reported of a new proposal. -/
def announcement (p : Proposal) : GovernanceEvent :=
  .proposalCreated p.id p.proposer p.start p.finish (.clamp p.actions.length) p.description

/-- The governor with a new proposal entered. -/
def enter (g : Governor) (p : Proposal) : Governor :=
  { (g.put p.id p).report (announcement p) with
    latestByProposer := g.latestByProposer.insert p.proposer p.id
    nextId := g.nextId.next }

/-- **Makes a proposal.** The result is its number. -/
def propose (ledger : Ledger) (proposer : Address) (request : ProposalRequest) (now : Timestamp) :
    Call GovernanceError Governor ProposalId := do
  let g ← get
  let p ← g.draft ledger proposer request now
  set (g.enter p)
  return p.id

/-! ### Voting -/

/-- Checks that a proposal can be voted on. -/
def checkVoting (p : Proposal) (id : ProposalId) (now : Timestamp) : Except GovernanceError Unit :=
  let state := p.state now .zero
  if state.canVote then .ok ()
  else if state.isTerminal then .error (.settled id state)
  else .error (.votingClosed id state p.start p.finish)

/-- **Draws up a vote** with its checks: the proposal with the vote entered, and the power
that was cast. -/
def ballot (g : Governor) (ledger : Ledger) (voter : Address) (id : ProposalId)
    (support : VoteSupport) (now : Timestamp) : Except GovernanceError (Proposal × Power) := do
  let p ← g.find id
  checkVoting p id now
  if p.hasVoted voter then throw (.alreadyVoted voter id)
  let votes ← ledger.powerOf voter p.snapshot
  if votes.isZero then throw (.noVotingPower voter p.snapshot)
  return (← p.recordVote voter support votes, votes)

/-- **Casts a vote** with the power that the voter had when the proposal was made. The
result is that power. -/
def castVote (ledger : Ledger) (voter : Address) (id : ProposalId) (support : VoteSupport)
    (now : Timestamp) : Call GovernanceError Governor Power := do
  let g ← get
  let (p, votes) ← g.ballot ledger voter id support now
  set ((g.put id p).report (.voteCast voter id support votes))
  return votes

/-! ### The rules -/

/-- **Changes the rules** of voting. -/
def adopt (params : GovernorParams) : Call GovernanceError Governor Unit := do
  params.validate
  modify fun g => { g with params }

/-- Changes the time between a proposal and its vote. -/
def setVotingDelay (delay : Timestamp) : Call GovernanceError Governor Unit := do
  adopt { (← get).params with votingDelay := delay }

/-- Changes the length of a vote. -/
def setVotingPeriod (period : Timestamp) : Call GovernanceError Governor Unit := do
  adopt { (← get).params with votingPeriod := period }

/-- Changes the power that a proposer needs. -/
def setProposalThreshold (threshold : Power) : Call GovernanceError Governor Unit := do
  adopt { (← get).params with proposalThreshold := threshold }

/-- Changes the power that a vote needs. -/
def setQuorumVotes (quorum : Power) : Call GovernanceError Governor Unit := do
  adopt { (← get).params with quorumVotes := quorum }

/-- Names another guardian; the zero address stands for none. -/
def setGuardian (guardian : Address) : Call GovernanceError Governor Unit :=
  modify fun g => { g with guardian }

/-- Takes the changes that nobody has taken notice of yet. -/
def drainEvents : Call GovernanceError Governor (List GovernanceEvent) := do
  let g ← get
  set { g with events := [] }
  return g.events

end Governor

end StakeGovernance
