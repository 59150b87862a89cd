import StakeGovernance.Governance.Council
import StakeGovernance.Ledger.Stored
import StakeGovernance.Protocol.Config

/-!
# The state of the protocol

All that is stored of a protocol, apart from the tokens themselves and the code of the
capabilities.

* `StakeGovernance.ProtocolState` – the **state**;
* `StakeGovernance.ProtocolState.checkTarget` – where an action **may be aimed**.
-/

namespace StakeGovernance

/-- **The state of a protocol.** -/
structure ProtocolState where
  /-- The address that the protocol acts under. -/
  address : Address
  ledger : Ledger
  council : Council
  /-- The active version of each capability. -/
  capabilities : OrderedMap Address Version
  /-- The time of the latest call that succeeded. -/
  clock : Timestamp
  /-- The number of the next journal entry. -/
  nextSeq : Word 64
deriving DecidableEq

namespace ProtocolState

/-- The governor. -/
def governor (s : ProtocolState) : Governor := s.council.governor

/-- The timelock. -/
def timelock (s : ProtocolState) : Timelock := s.council.timelock

/-- The state that a protocol begins with, if its settings are sound. -/
def create (c : ProtocolConfig) : Except GovernanceError ProtocolState := do
  let ledger ← (Ledger.create c.staking).mapError .staking
  let governor ← Governor.create c.address c.governor c.guardian
  let timelock ← Timelock.create c.address c.timelock
  return ⟨c.address, ledger, ⟨governor, timelock⟩, .empty, .zero, .zero⟩

/-- Refuses a time before the clock. -/
def checkClock (s : ProtocolState) (now : Timestamp) : Except GovernanceError Unit :=
  if now < s.clock then .error (.clockBehind now s.clock) else .ok ()

/-- The active version of a capability. -/
def activeVersion? (s : ProtocolState) (target : Address) : Option Version :=
  s.capabilities.get? target

/-- **Checks the target of an action.** A command that changes the protocol's own rules
is aimed at the protocol, any other at a capability. -/
def checkTarget (s : ProtocolState) (action : ProposalAction) : Except GovernanceError Unit := do
  let command ← action.command
  if action.target = s.address then
    if !command.isGovernance then throw (.notOwnCommand command.signature)
  else
    if command.isGovernance then throw (.ownCommand command.signature s.address)
    if !s.capabilities.contains action.target then throw (.noCapability action.target)

/-! ### JSON -/

/-- A state as JSON. -/
def toJson (s : ProtocolState) : Json :=
  .object [("address", s.address.toJson), ("ledger", s.ledger.toJson),
    ("governor", s.governor.toJson), ("timelock", s.timelock.toJson),
    ("capabilities", s.capabilities.toJson Address.toHexText Json.ofWord),
    ("clock", .ofWord s.clock), ("next_seq", .ofWord s.nextSeq)]

instance : ToJson ProtocolState := ⟨toJson⟩

/-- The state that a JSON value stands for. -/
def ofJson? (v : Json) : Option ProtocolState := do
  let [address, ledger, governor, timelock, capabilities, clock, nextSeq] ←
    v.parts? ["address", "ledger", "governor", "timelock", "capabilities", "clock", "next_seq"]
    | none
  return {
    address := ← Address.ofJson? address
    ledger := ← Ledger.ofJson? ledger
    council := ⟨← Governor.ofJson? governor, ← Timelock.ofJson? timelock⟩
    capabilities := ← OrderedMap.ofJson? Address.ofKey? Json.word? capabilities
    clock := ← clock.word?
    nextSeq := ← nextSeq.word? }

instance : FromJson ProtocolState := ⟨ofJson?⟩

end ProtocolState

end StakeGovernance
