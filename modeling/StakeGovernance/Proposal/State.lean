import StakeGovernance.Json.Record

/-!
# The life of a proposal in words

A proposal waits for its vote, is voted on, and is then defeated or succeeds; one that
succeeded is queued, and one that is queued is executed or expires. Until it is
executed it can be canceled. A vote is for a proposal, against it, or neither.

* `StakeGovernance.ProposalState` – the **states**;
* `StakeGovernance.VoteSupport` – the **votes**.
-/

namespace StakeGovernance

/-- **The states of a proposal.** -/
inductive ProposalState where
  /-- Its vote has not begun. -/
  | pending
  /-- It can be voted on. -/
  | active
  /-- It was canceled. -/
  | canceled
  /-- Its vote ended without a majority or without the quorum. -/
  | defeated
  /-- Its vote ended with a majority and the quorum, and it is not queued yet. -/
  | succeeded
  /-- Its actions are in the timelock. -/
  | queued
  /-- It was queued and not executed in time. -/
  | expired
  /-- Its actions were executed. -/
  | executed
deriving DecidableEq, Repr

namespace ProposalState

/-- The name of a state. -/
def name : ProposalState → String
  | pending => "Pending"
  | active => "Active"
  | canceled => "Canceled"
  | defeated => "Defeated"
  | succeeded => "Succeeded"
  | queued => "Queued"
  | expired => "Expired"
  | executed => "Executed"

instance : ToString ProposalState := ⟨name⟩

/-- Whether a vote can be cast. -/
def canVote (s : ProposalState) : Bool := s = active

/-- Whether no other state can follow. -/
def isTerminal (s : ProposalState) : Bool := s = canceled || s = executed

/-- Whether the vote has not ended. -/
def isOpen (s : ProposalState) : Bool := s = pending || s = active

end ProposalState

/-- **The votes.** An abstention is recorded and decides nothing. -/
inductive VoteSupport where
  | against
  | «for»
  | abstain
deriving DecidableEq, Repr

namespace VoteSupport

/-- The name of a vote. -/
def name : VoteSupport → String
  | against => "Against"
  | «for» => "For"
  | abstain => "Abstain"

/-- The vote that a text stands for, by name in either case or by number. -/
def ofText? (text : String) : Option VoteSupport :=
  match text.toLower with
  | "against" | "0" => some against
  | "for" | "1" => some «for»
  | "abstain" | "2" => some abstain
  | _ => none

/-- A vote as JSON. -/
def toJson (s : VoteSupport) : Json := .string s.name

instance : ToJson VoteSupport := ⟨toJson⟩

/-- The vote that a JSON value stands for. -/
def ofJson? (v : Json) : Option VoteSupport :=
  match v.unitVariant? with
  | some "Against" => some against
  | some "For" => some «for»
  | some "Abstain" => some abstain
  | _ => none

instance : FromJson VoteSupport := ⟨ofJson?⟩

end VoteSupport

end StakeGovernance
