import StakeGovernance.Proposal.State
import StakeGovernance.Staking.Event
import StakeGovernance.Value.Digest

/-!
# What is reported, and the journal

Everything that changes is reported as an event. The journal is the list of all events
in the order they happened, numbered without gaps, each with the time of the call that
caused it.

* `StakeGovernance.GovernanceEvent` – a change of **governance**;
* `StakeGovernance.ProtocolEvent` – any change;
* `StakeGovernance.JournalEntry` – a **numbered event**.
-/

namespace StakeGovernance

/-- **A change of governance.** -/
inductive GovernanceEvent where
  | proposalCreated (id : ProposalId) (proposer : Address) (start finish : Timestamp)
      (actions : Word 64) (description : String)
  | voteCast (voter : Address) (id : ProposalId) (support : VoteSupport) (votes : Power)
  | proposalQueued (id : ProposalId) (eta : Timestamp)
  | proposalExecuted (id : ProposalId)
  | proposalCanceled (id : ProposalId)
  | actionQueued (hash : Digest) (target : Address) (eta : Timestamp)
  | actionExecuted (hash : Digest) (target : Address) (success : Bool)
  | actionCanceled (hash : Digest) (target : Address)
  /-- An action was removed because its grace period was over. -/
  | actionExpired (hash : Digest)
  | parameterChanged (name value : String)
  | capabilityUpgraded (target : Address) (version : Version)
deriving DecidableEq

namespace GovernanceEvent

/-- The name of a change. -/
def name : GovernanceEvent → String
  | proposalCreated .. => "ProposalCreated"
  | voteCast .. => "VoteCast"
  | proposalQueued .. => "ProposalQueued"
  | proposalExecuted .. => "ProposalExecuted"
  | proposalCanceled .. => "ProposalCanceled"
  | actionQueued .. => "ActionQueued"
  | actionExecuted .. => "ActionExecuted"
  | actionCanceled .. => "ActionCanceled"
  | actionExpired .. => "ActionExpired"
  | parameterChanged .. => "ParameterChanged"
  | capabilityUpgraded .. => "CapabilityUpgraded"

/-- The parts of a change as JSON fields. -/
def parts : GovernanceEvent → List (String × Json)
  | proposalCreated id proposer start finish actions description =>
    [("id", .ofWord id), ("proposer", proposer.toJson), ("start", .ofWord start),
      ("end", .ofWord finish), ("actions", .ofWord actions), ("description", .string description)]
  | voteCast voter id support votes =>
    [("voter", voter.toJson), ("id", .ofWord id), ("support", support.toJson),
      ("votes", .ofWord votes)]
  | proposalQueued id eta => [("id", .ofWord id), ("eta", .ofWord eta)]
  | proposalExecuted id => [("id", .ofWord id)]
  | proposalCanceled id => [("id", .ofWord id)]
  | actionQueued hash target eta =>
    [("hash", hash.toJson), ("target", target.toJson), ("eta", .ofWord eta)]
  | actionExecuted hash target success =>
    [("hash", hash.toJson), ("target", target.toJson), ("success", .bool success)]
  | actionCanceled hash target => [("hash", hash.toJson), ("target", target.toJson)]
  | actionExpired hash => [("hash", hash.toJson)]
  | parameterChanged name value => [("name", .string name), ("value", .string value)]
  | capabilityUpgraded target version =>
    [("target", target.toJson), ("version", .ofWord version)]

/-- A change as JSON. -/
def toJson (e : GovernanceEvent) : Json := .object [(e.name, .object e.parts)]

instance : ToJson GovernanceEvent := ⟨toJson⟩

/-- The change that a JSON value stands for. -/
def ofJson? (v : Json) : Option GovernanceEvent := do
  let (name, some content) ← v.variant? | none
  match name with
  | "ProposalCreated" =>
    let [id, proposer, start, finish, actions, description] ←
      content.parts? ["id", "proposer", "start", "end", "actions", "description"] | none
    return proposalCreated (← id.word?) (← Address.ofJson? proposer) (← start.word?)
      (← finish.word?) (← actions.word?) (← description.text?)
  | "VoteCast" =>
    let [voter, id, support, votes] ← content.parts? ["voter", "id", "support", "votes"] | none
    return voteCast (← Address.ofJson? voter) (← id.word?) (← VoteSupport.ofJson? support)
      (← votes.word?)
  | "ProposalQueued" =>
    let [id, eta] ← content.parts? ["id", "eta"] | none
    return proposalQueued (← id.word?) (← eta.word?)
  | "ProposalExecuted" =>
    let [id] ← content.parts? ["id"] | none
    return proposalExecuted (← id.word?)
  | "ProposalCanceled" =>
    let [id] ← content.parts? ["id"] | none
    return proposalCanceled (← id.word?)
  | "ActionQueued" =>
    let [hash, target, eta] ← content.parts? ["hash", "target", "eta"] | none
    return actionQueued (← Digest.ofJson? hash) (← Address.ofJson? target) (← eta.word?)
  | "ActionExecuted" =>
    let [hash, target, success] ← content.parts? ["hash", "target", "success"] | none
    return actionExecuted (← Digest.ofJson? hash) (← Address.ofJson? target) (← success.bool?)
  | "ActionCanceled" =>
    let [hash, target] ← content.parts? ["hash", "target"] | none
    return actionCanceled (← Digest.ofJson? hash) (← Address.ofJson? target)
  | "ActionExpired" =>
    let [hash] ← content.parts? ["hash"] | none
    return actionExpired (← Digest.ofJson? hash)
  | "ParameterChanged" =>
    let [name, value] ← content.parts? ["name", "value"] | none
    return parameterChanged (← name.text?) (← value.text?)
  | "CapabilityUpgraded" =>
    let [target, version] ← content.parts? ["target", "version"] | none
    return capabilityUpgraded (← Address.ofJson? target) (← version.word?)
  | _ => none

instance : FromJson GovernanceEvent := ⟨ofJson?⟩

end GovernanceEvent

/-- **Any change.** -/
inductive ProtocolEvent where
  | staking (event : StakingEvent)
  | governance (event : GovernanceEvent)
deriving DecidableEq

namespace ProtocolEvent

/-- A change as JSON. -/
def toJson : ProtocolEvent → Json
  | staking e => .object [("Staking", e.toJson)]
  | governance e => .object [("Governance", e.toJson)]

instance : ToJson ProtocolEvent := ⟨toJson⟩

/-- The change that a JSON value stands for which is so many levels below the outermost
one. -/
def ofJsonAt? (level : Nat) (v : Json) : Option ProtocolEvent := do
  let (name, some content) ← v.variant? | none
  match name with
  | "Staking" => return staking (← StakingEvent.ofJsonAt? (level + 1) content)
  | "Governance" => return governance (← GovernanceEvent.ofJson? content)
  | _ => none

instance : FromJson ProtocolEvent := ⟨ofJsonAt? 0⟩

end ProtocolEvent

/-- **A numbered event** of the journal. -/
structure JournalEntry where
  /-- Its number; the first entry has number zero. -/
  seq : Word 64
  /-- The time of the call that caused it. -/
  time : Timestamp
  event : ProtocolEvent
deriving DecidableEq

namespace JournalEntry

/-- An entry as JSON. -/
def toJson (e : JournalEntry) : Json :=
  .object [("seq", .ofWord e.seq), ("at", .ofWord e.time), ("event", e.event.toJson)]

instance : ToJson JournalEntry := ⟨toJson⟩

/-- The entry that a JSON value stands for. -/
def ofJson? (v : Json) : Option JournalEntry := do
  let [seq, time, event] ← v.parts? ["seq", "at", "event"] | none
  return ⟨← seq.word?, ← time.word?, ← ProtocolEvent.ofJsonAt? 1 event⟩

instance : FromJson JournalEntry := ⟨ofJson?⟩

end JournalEntry

end StakeGovernance
