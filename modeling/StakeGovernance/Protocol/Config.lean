import StakeGovernance.Governor.Basic
import StakeGovernance.Staking.Params
import StakeGovernance.Timelock.Basic

/-!
# The settings of a protocol

* `StakeGovernance.ProtocolConfig` – the **settings** a protocol is set up with.
-/

namespace StakeGovernance

/-- **The settings** a protocol is set up with. -/
structure ProtocolConfig where
  /-- The address that the protocol acts under: as governor, as admin of the timelock, and
  as the target of actions that change its own rules. -/
  address : Address
  /-- The guardian; the zero address stands for none. -/
  guardian : Address
  staking : StakingParams
  governor : GovernorParams
  timelock : TimelockParams
deriving DecidableEq

namespace ProtocolConfig

/-- The address of a protocol that is not given another one. -/
def defaultAddress : Address := .derive (utf8Bytes "lockgov/protocol")

/-- The settings that are used where nothing else is said. -/
def default : ProtocolConfig :=
  ⟨defaultAddress, .zero, StakingParams.default, GovernorParams.default, TimelockParams.default⟩

instance : Inhabited ProtocolConfig := ⟨default⟩

/-- Settings as JSON. -/
def toJson (c : ProtocolConfig) : Json :=
  .object [("address", c.address.toJson), ("guardian", c.guardian.toJson),
    ("staking", c.staking.toJson), ("governor", c.governor.toJson),
    ("timelock", c.timelock.toJson)]

instance : ToJson ProtocolConfig := ⟨toJson⟩

/-- The settings that a JSON value stands for. All but the address may be missing. -/
def ofJson? (v : Json) : Option ProtocolConfig := do
  let [some address, guardian, staking, governor, timelock] ←
    v.partial? ["address", "guardian", "staking", "governor", "timelock"] | none
  return {
    address := ← Address.ofJson? address
    guardian := ← Json.orDefault? .zero Address.ofJson? guardian
    staking := ← Json.orDefault? StakingParams.default StakingParams.ofJson? staking
    governor := ← Json.orDefault? GovernorParams.default GovernorParams.ofJson? governor
    timelock := ← Json.orDefault? TimelockParams.default TimelockParams.ofJson? timelock }

instance : FromJson ProtocolConfig := ⟨ofJson?⟩

end ProtocolConfig

end StakeGovernance
