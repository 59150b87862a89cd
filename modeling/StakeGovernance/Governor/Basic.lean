import StakeGovernance.Governance.Event
import StakeGovernance.Proposal.Record
import StakeGovernance.Staking.Curve

/-!
# The governor

The governor keeps the table of proposals and the rules of voting. It acts under an
address of its own and may have a guardian, who can cancel any proposal.

* `StakeGovernance.GovernorParams` – the **rules of voting**;
* `StakeGovernance.Governor` – the **table of proposals**.
-/

namespace StakeGovernance

/-- **The rules of voting.** -/
structure GovernorParams where
  /-- The time between a proposal and its vote. -/
  votingDelay : Timestamp
  /-- The length of a vote. -/
  votingPeriod : Timestamp
  /-- The power that a proposer needs. -/
  proposalThreshold : Power
  /-- The power that a vote needs. -/
  quorumVotes : Power
  /-- The greatest number of actions of a proposal. -/
  maxActions : Word 64
deriving DecidableEq

namespace GovernorParams

/-- One day until a vote of three days. -/
def default : GovernorParams :=
  ⟨.ofNat day, .ofNat (3 * day), .ofNat 1000, .ofNat 20000, .ofNat 10⟩

instance : Inhabited GovernorParams := ⟨default⟩

/-- Checks the rules. -/
def validate (p : GovernorParams) : Except GovernanceError Unit :=
  if p.votingPeriod.isZero then .error .zeroVotingPeriod
  else if p.maxActions.isZero then .error .zeroMaxActions
  else .ok ()

/-- A power as a text. A number would not survive every format. -/
def powerToJson (p : Power) : Json := .string (toString p)

/-- The power that a text in JSON denotes. -/
def powerOfJson? (v : Json) : Option Power := v.text?.bind fun text => (Word.ofText text).toOption

/-- The rules as JSON. -/
def toJson (p : GovernorParams) : Json :=
  .object [("voting_delay", .ofWord p.votingDelay), ("voting_period", .ofWord p.votingPeriod),
    ("proposal_threshold", powerToJson p.proposalThreshold),
    ("quorum_votes", powerToJson p.quorumVotes), ("max_actions", .ofWord p.maxActions)]

instance : ToJson GovernorParams := ⟨toJson⟩

/-- The rules that a JSON value stands for. -/
def ofJson? (v : Json) : Option GovernorParams := do
  let [votingDelay, votingPeriod, threshold, quorum, maxActions] ←
    v.parts? ["voting_delay", "voting_period", "proposal_threshold", "quorum_votes",
      "max_actions"] | none
  return ⟨← votingDelay.word?, ← votingPeriod.word?, ← powerOfJson? threshold,
    ← powerOfJson? quorum, ← maxActions.word?⟩

instance : FromJson GovernorParams := ⟨ofJson?⟩

end GovernorParams

/-- **The table of proposals.** -/
structure Governor where
  /-- The address that the governor acts under. -/
  address : Address
  params : GovernorParams
  /-- The guardian; the zero address stands for none. -/
  guardian : Address
  proposals : OrderedMap ProposalId Proposal
  /-- The latest proposal of each proposer. -/
  latestByProposer : OrderedMap Address ProposalId
  /-- The number of the next proposal. -/
  nextId : ProposalId
  /-- Changes that nobody has taken notice of yet. They are not part of stored data. -/
  events : List GovernanceEvent
deriving DecidableEq

namespace Governor

/-- A new governor, if its address and its rules are sound. -/
def create (address : Address) (params : GovernorParams) (guardian : Address) :
    Except GovernanceError Governor := do
  if address.isZero then throw .zeroGovernor
  params.validate
  return ⟨address, params, guardian, .empty, .empty, .ofNat 1, []⟩

/-- The guardian, if there is one. -/
def guardian? (g : Governor) : Option Address :=
  if g.guardian.isZero then none else some g.guardian

/-- The proposal of a number. -/
def get? (g : Governor) (id : ProposalId) : Option Proposal := g.proposals.get? id

/-- The proposal of a number, or an error. -/
def find (g : Governor) (id : ProposalId) : Except GovernanceError Proposal :=
  match g.get? id with
  | some p => .ok p
  | none => .error (.proposalNotFound id)

/-- The number of proposals ever made. -/
def proposalCount (g : Governor) : Word 64 := g.nextId.previous

/-- The governor with a proposal put into its table under a number. -/
def put (g : Governor) (id : ProposalId) (p : Proposal) : Governor :=
  { g with proposals := g.proposals.insert id p }

/-- The governor with one more change to be taken notice of. -/
def report (g : Governor) (event : GovernanceEvent) : Governor :=
  { g with events := g.events ++ [event] }

/-! ### JSON -/

/-- A governor as JSON. -/
def toJson (g : Governor) : Json :=
  .object [("address", g.address.toJson), ("params", g.params.toJson),
    ("guardian", g.guardian.toJson),
    ("proposals", g.proposals.toJson toString Proposal.toJson),
    ("latest_by_proposer", g.latestByProposer.toJson Address.toHexText Json.ofWord),
    ("next_id", .ofWord g.nextId)]

instance : ToJson Governor := ⟨toJson⟩

/-- The governor that a JSON value stands for. -/
def ofJson? (v : Json) : Option Governor := do
  let [address, params, guardian, proposals, latest, nextId] ←
    v.parts? ["address", "params", "guardian", "proposals", "latest_by_proposer", "next_id"] | none
  return ⟨← Address.ofJson? address, ← GovernorParams.ofJson? params, ← Address.ofJson? guardian,
    ← OrderedMap.ofJson? Json.keyWord? Proposal.ofJson? proposals,
    ← OrderedMap.ofJson? Address.ofKey? Json.word? latest, ← nextId.word?, []⟩

instance : FromJson Governor := ⟨ofJson?⟩

end Governor

end StakeGovernance
