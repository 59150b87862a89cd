import StakeGovernance.Governance.Error

/-!
# What an execution did

Every action of an executed proposal gets a receipt, in the order of the proposal. An
action that fails gives a receipt too, and does not keep the others from being carried
out.

* `StakeGovernance.ActionOutput` – what a **carried out** action did;
* `StakeGovernance.ActionFault` – why an action **failed**;
* `StakeGovernance.ExecutionReport` – the **receipts** of a proposal.
-/

namespace StakeGovernance

/-- **What a carried out action did.** -/
inductive ActionOutput where
  | parameterChanged (name value : String)
  | transferred (source target : Address) (amount : Amount)
  | capabilityUpgraded (target : Address) (version : Version)
deriving DecidableEq

namespace ActionOutput

/-- An output as JSON. -/
def toJson : ActionOutput → Json
  | parameterChanged name value =>
    .object [("ParameterChanged", .object [("name", .string name), ("value", .string value)])]
  | transferred source target amount =>
    .object [("Transferred", .object [("from", source.toJson), ("to", target.toJson),
      ("amount", Amount.toJson amount)])]
  | capabilityUpgraded target version =>
    .object [("CapabilityUpgraded", .object [("target", target.toJson),
      ("version", .ofWord version)])]

instance : ToJson ActionOutput := ⟨toJson⟩

end ActionOutput

/-- **Why an action failed.** -/
inductive ActionFault where
  /-- A command that the handler does not know. -/
  | unsupported (handler signature : String)
  /-- A payment to the zero address. -/
  | transferToZero
  /-- A payment above the handler's limit. -/
  | aboveCap (amount cap : Amount)
  /-- A payment that the vault refuses. -/
  | vault (error : StakingError)
  /-- An action that is no command, or a setting that is not sound. -/
  | governance (error : GovernanceError)
  /-- A target that is no capability any more. -/
  | noCapability (target : Address)
  /-- A capability whose active version has no handler. -/
  | noHandler (target : Address) (version : Version)
  /-- A switch to a version that has no handler. -/
  | notRegistered (version : Version) (target : Address)
  /-- A payment asked of the protocol itself. -/
  | ownTransfer
deriving DecidableEq

namespace ActionFault

/-- The cause in words. -/
def message : ActionFault → String
  | unsupported handler signature => s!"{handler} does not handle {signature}"
  | transferToZero => "transfer to the zero address"
  | aboveCap amount cap => s!"transfer of {amount} exceeds the cap of {cap}"
  | vault e => e.message
  | governance e => e.message
  | noCapability target => s!"{target} is not a registered capability"
  | noHandler target version => s!"no handler for {target} version {version}"
  | notRegistered version target => s!"version {version} of {target} is not registered"
  | ownTransfer => "treasury transfers are not handled by the protocol"

/-- The kind of every failure of an action. -/
def kind (_ : ActionFault) : ErrorKind := .executionFailed

end ActionFault

/-- **The outcome of an action.** -/
inductive ActionOutcome where
  | executed (output : ActionOutput)
  | failed (fault : ActionFault)
deriving DecidableEq

namespace ActionOutcome

/-- Whether the action was carried out. -/
def succeeded : ActionOutcome → Bool
  | executed _ => true
  | failed _ => false

/-- An outcome as JSON. -/
def toJson : ActionOutcome → Json
  | executed output => .object [("Executed", output.toJson)]
  | failed fault =>
    .object [("Failed", .object [("kind", fault.kind.toJson), ("reason", .string fault.message)])]

instance : ToJson ActionOutcome := ⟨toJson⟩

end ActionOutcome

/-- **The receipt of an action.** -/
structure ActionReceipt where
  /-- The digest that the action was queued under. -/
  hash : Digest
  target : Address
  signature : String
  outcome : ActionOutcome
deriving DecidableEq

namespace ActionReceipt

/-- Whether the action was carried out. -/
def succeeded (r : ActionReceipt) : Bool := r.outcome.succeeded

/-- A receipt as JSON. -/
def toJson (r : ActionReceipt) : Json :=
  .object [("hash", r.hash.toJson), ("target", r.target.toJson), ("signature", .string r.signature),
    ("outcome", r.outcome.toJson)]

instance : ToJson ActionReceipt := ⟨toJson⟩

end ActionReceipt

/-- **What an execution did.** -/
structure ExecutionReport where
  proposalId : ProposalId
  eta : Timestamp
  receipts : List ActionReceipt
deriving DecidableEq

namespace ExecutionReport

/-- Whether every action was carried out. -/
def allSucceeded (r : ExecutionReport) : Bool := r.receipts.all (·.succeeded)

/-- The receipts of actions that failed. -/
def failures (r : ExecutionReport) : List ActionReceipt := r.receipts.filter (!·.succeeded)

/-- A report as JSON. -/
def toJson (r : ExecutionReport) : Json :=
  .object [("proposal_id", .ofWord r.proposalId), ("eta", .ofWord r.eta),
    ("receipts", .array (r.receipts.map ActionReceipt.toJson))]

instance : ToJson ExecutionReport := ⟨toJson⟩

end ExecutionReport

end StakeGovernance
