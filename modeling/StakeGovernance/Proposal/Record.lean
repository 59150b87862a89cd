import StakeGovernance.Json.Record
import StakeGovernance.Proposal.Action

/-!
# Proposals

A proposal is a record of what was proposed, when it can be voted on, and how the vote
went. Its state is not part of the record: it follows from the record and the time.

* `StakeGovernance.Proposal` – the **record**;
* `StakeGovernance.Proposal.state` – the **state at a point**;
* `StakeGovernance.Proposal.recordVote` – enters a **vote**.
-/

namespace StakeGovernance

/-- The vote that a text stands for. -/
def VoteSupport.ofText (text : String) : Except GovernanceError VoteSupport :=
  match VoteSupport.ofText? text with
  | some support => .ok support
  | none => .error (.unknownSupport text.toLower)

/-- A vote as it was cast. -/
structure VoteReceipt where
  support : VoteSupport
  votes : Power
deriving DecidableEq

/-- **A proposal.** -/
structure Proposal where
  id : ProposalId
  proposer : Address
  actions : List ProposalAction
  description : String
  createdAt : Timestamp
  /-- The point at which voting power is read. -/
  snapshot : Timestamp
  /-- The first point at which votes are accepted. -/
  start : Timestamp
  /-- The last point at which votes are accepted. -/
  finish : Timestamp
  /-- The power that the vote needs, as it was when the proposal was made. -/
  quorumVotes : Power
  /-- The earliest execution, zero until the proposal is queued. -/
  eta : Timestamp
  forVotes : Power
  againstVotes : Power
  abstainVotes : Power
  receipts : OrderedMap Address VoteReceipt
  executed : Bool
  canceled : Bool
deriving DecidableEq

namespace Proposal

/-- A new proposal: nothing is cast, queued, executed or canceled. -/
def create (id : ProposalId) (proposer : Address) (actions : List ProposalAction)
    (description : String) (createdAt snapshot start finish : Timestamp) (quorumVotes : Power) :
    Proposal where
  id
  proposer
  actions
  description
  createdAt
  snapshot
  start
  finish
  quorumVotes
  eta := .zero
  forVotes := .zero
  againstVotes := .zero
  abstainVotes := .zero
  receipts := .empty
  executed := false
  canceled := false

/-- A majority and the quorum are reached. -/
def passed (p : Proposal) : Bool := p.againstVotes < p.forVotes && p.quorumVotes ≤ p.forVotes

/-- **The state at a point**, when an execution may be late by the grace period. -/
def state (p : Proposal) (now grace : Timestamp) : ProposalState :=
  if p.canceled then .canceled
  else if p.executed then .executed
  else if now < p.start then .pending
  else if now ≤ p.finish then .active
  else if !p.passed then .defeated
  else if p.eta.isZero then .succeeded
  else if p.eta.addSat grace < now then .expired
  else .queued

/-- Whether somebody voted. -/
def hasVoted (p : Proposal) (voter : Address) : Bool := p.receipts.contains voter

/-- All votes that were cast, or the largest power if their sum does not fit. -/
def totalVotes (p : Proposal) : Power := (p.forVotes.addSat p.againstVotes).addSat p.abstainVotes

/-- The tally of one kind of votes. -/
def tally (p : Proposal) : VoteSupport → Power
  | .for => p.forVotes
  | .against => p.againstVotes
  | .abstain => p.abstainVotes

/-- The proposal with the tally of one kind of votes set. -/
def setTally (p : Proposal) (support : VoteSupport) (votes : Power) : Proposal :=
  match support with
  | .for => { p with forVotes := votes }
  | .against => { p with againstVotes := votes }
  | .abstain => { p with abstainVotes := votes }

/-- **Enters a vote.** -/
def recordVote (p : Proposal) (voter : Address) (support : VoteSupport) (votes : Power) :
    Except GovernanceError Proposal :=
  if p.hasVoted voter then .error (.alreadyVoted voter p.id)
  else
    match (p.tally support).add? votes with
    | none => .error (.tallyOverflow p.id)
    | some sum =>
      .ok { p.setTally support sum with receipts := p.receipts.insert voter ⟨support, votes⟩ }

/-! ### JSON -/

/-- A cast vote as JSON. -/
def receiptToJson (r : VoteReceipt) : Json :=
  .object [("support", r.support.toJson), ("votes", .ofWord r.votes)]

/-- The cast vote that a JSON value stands for. -/
def receiptOfJson? (v : Json) : Option VoteReceipt := do
  let [support, votes] ← v.parts? ["support", "votes"] | none
  return ⟨← VoteSupport.ofJson? support, ← votes.word?⟩

/-- A proposal as JSON. -/
def toJson (p : Proposal) : Json :=
  .object [
    ("id", .ofWord p.id),
    ("proposer", p.proposer.toJson),
    ("actions", .array (p.actions.map ProposalAction.toJson)),
    ("description", .string p.description),
    ("created_at", .ofWord p.createdAt),
    ("snapshot", .ofWord p.snapshot),
    ("start", .ofWord p.start),
    ("end", .ofWord p.finish),
    ("quorum_votes", .ofWord p.quorumVotes),
    ("eta", .ofWord p.eta),
    ("for_votes", .ofWord p.forVotes),
    ("against_votes", .ofWord p.againstVotes),
    ("abstain_votes", .ofWord p.abstainVotes),
    ("receipts", p.receipts.toJson Address.toHexText receiptToJson),
    ("executed", .bool p.executed),
    ("canceled", .bool p.canceled)]

instance : ToJson Proposal := ⟨toJson⟩

/-- The proposal that a JSON value stands for. -/
def ofJson? (v : Json) : Option Proposal := do
  let [id, proposer, actions, description, createdAt, snapshot, start, finish, quorumVotes, eta,
      forVotes, againstVotes, abstainVotes, receipts, executed, canceled] ←
    v.parts? ["id", "proposer", "actions", "description", "created_at", "snapshot", "start", "end",
      "quorum_votes", "eta", "for_votes", "against_votes", "abstain_votes", "receipts", "executed",
      "canceled"] | none
  return {
    id := ← id.word?
    proposer := ← Address.ofJson? proposer
    actions := ← actions.list? ProposalAction.ofJson?
    description := ← description.text?
    createdAt := ← createdAt.word?
    snapshot := ← snapshot.word?
    start := ← start.word?
    finish := ← finish.word?
    quorumVotes := ← quorumVotes.word?
    eta := ← eta.word?
    forVotes := ← forVotes.word?
    againstVotes := ← againstVotes.word?
    abstainVotes := ← abstainVotes.word?
    receipts := ← OrderedMap.ofJson? Address.ofKey? receiptOfJson? receipts
    executed := ← executed.bool?
    canceled := ← canceled.bool? }

instance : FromJson Proposal := ⟨ofJson?⟩

end Proposal

end StakeGovernance
