import StakeGovernance.Proposal.Command

/-!
# Actions and requests

An action is a command in its written form together with a target and a value; as such
it is hashed, queued and stored. A request carries the parts of its actions in parallel
lists, which may differ in length until they are put together.

* `StakeGovernance.ProposalAction` – an **action**;
* `StakeGovernance.ProposalAction.preimage`, `StakeGovernance.ProposalAction.hash` – the
  **bytes that are hashed**, and the digest under which an action is queued;
* `StakeGovernance.ProposalRequest` – what a **proposer hands in**.
-/

namespace StakeGovernance

/-- **An action.** -/
structure ProposalAction where
  target : Address
  value : Amount
  signature : String
  data : Bytes
deriving DecidableEq

namespace ProposalAction

/-- The longest arguments that are accepted. -/
def maxDataLength : Nat := 16 * 1024

/-- The action of a command. -/
def ofCommand (target : Address) (value : Amount) (c : Command) : ProposalAction :=
  ⟨target, value, c.signature, c.encodeArgs⟩

/-- The command of an action, after checks of its target and its length. -/
def command (a : ProposalAction) : Except GovernanceError Command :=
  if a.target.isZero then .error .zeroTarget
  else if maxDataLength < a.data.length then .error (.calldataTooLong a.data.length)
  else Command.decode a.signature a.data

/-- **The bytes that are hashed**: every part of an action with the time of its
execution. A text or a row of bytes follows its length, so that no two actions have the
same bytes. -/
def preimage (a : ProposalAction) (eta : Timestamp) : Bytes :=
  let signature := utf8Bytes a.signature
  a.target.bytes ++ a.value.toBytes
    ++ bigEndian 4 signature.length ++ signature
    ++ bigEndian 4 a.data.length ++ a.data
    ++ bigEndian 8 eta.toNat

/-- **The digest of an action** at the time of its execution. -/
def hash (a : ProposalAction) (eta : Timestamp) : Digest := Digest.compute (a.preimage eta)

/-! ### JSON -/

/-- An action as JSON. -/
def toJson (a : ProposalAction) : Json :=
  .object [("target", a.target.toJson), ("value", Amount.toJson a.value),
    ("signature", .string a.signature), ("data", .string (Hex.encodeMarked a.data))]

instance : ToJson ProposalAction := ⟨toJson⟩

/-- Bytes in hexadecimal text, with or without a mark. -/
def bytesOfJson? (v : Json) : Option Bytes := do
  let text ← v.text?
  let digits := match text.toList with
    | '0' :: 'x' :: cs => String.ofList cs
    | cs => String.ofList cs
  (Hex.decode digits).toOption

/-- The action that a JSON value stands for. -/
def ofJson? (v : Json) : Option ProposalAction := do
  let [target, value, signature, data] ← v.parts? ["target", "value", "signature", "data"] | none
  return ⟨← Address.ofJson? target, ← Amount.ofJson? value, ← signature.text?,
    ← bytesOfJson? data⟩

instance : FromJson ProposalAction := ⟨ofJson?⟩

end ProposalAction

/-- **What a proposer hands in**: the parts of actions in parallel lists. -/
structure ProposalRequest where
  targets : List Address
  values : List Amount
  signatures : List String
  calldatas : List Bytes
  description : String
deriving DecidableEq

namespace ProposalRequest

/-- A request without any action. -/
def empty (description : String) : ProposalRequest := ⟨[], [], [], [], description⟩

/-- The request for some actions. -/
def ofActions (actions : List ProposalAction) (description : String) : ProposalRequest where
  targets := actions.map (·.target)
  values := actions.map (·.value)
  signatures := actions.map (·.signature)
  calldatas := actions.map (·.data)
  description

/-- The request with one more action. -/
def withCommand (r : ProposalRequest) (target : Address) (value : Amount) (c : Command) :
    ProposalRequest :=
  { r with
    targets := r.targets ++ [target]
    values := r.values ++ [value]
    signatures := r.signatures ++ [c.signature]
    calldatas := r.calldatas ++ [c.encodeArgs] }

/-- Puts the parts together, as far as the shortest list goes. -/
def zipActions : List Address → List Amount → List String → List Bytes → List ProposalAction
  | t :: ts, v :: vs, s :: ss, d :: ds => ⟨t, v, s, d⟩ :: zipActions ts vs ss ds
  | _, _, _, _ => []

/-- The actions of a request, if its lists have one length. -/
def actions (r : ProposalRequest) : Except GovernanceError (List ProposalAction) :=
  let n := r.targets.length
  if r.values.length ≠ n ∨ r.signatures.length ≠ n ∨ r.calldatas.length ≠ n then
    .error (.listLengths n r.values.length r.signatures.length r.calldatas.length)
  else .ok (zipActions r.targets r.values r.signatures r.calldatas)

/-- A request as JSON. -/
def toJson (r : ProposalRequest) : Json :=
  .object [
    ("targets", .array (r.targets.map Address.toJson)),
    ("values", .array (r.values.map Amount.toJson)),
    ("signatures", .array (r.signatures.map .string)),
    ("calldatas", .array (r.calldatas.map fun bs => .array (bs.map fun b => .ofNat b.toNat))),
    ("description", .string r.description)]

instance : ToJson ProposalRequest := ⟨toJson⟩

end ProposalRequest

end StakeGovernance
