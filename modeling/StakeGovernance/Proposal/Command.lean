import StakeGovernance.Governance.Error

/-!
# Commands

What a proposal can do is one of eight commands. A command is named by its signature,
and its arguments are written one after the other as bytes: integers with the least
significant byte first, addresses and amounts as blocks. Reading refuses bytes that are
too short or too long, so each command has one written form.

* `StakeGovernance.Command` – the **commands**;
* `StakeGovernance.Command.signature`, `StakeGovernance.Command.encodeArgs`,
  `StakeGovernance.Command.decode` – the **written form**;
* `StakeGovernance.Command.isGovernance` – whether the protocol carries a command out
  on itself.
-/

namespace StakeGovernance

/-- **The commands.** -/
inductive Command where
  /-- Sets the time between a proposal and its vote. -/
  | setVotingDelay (delay : Timestamp)
  /-- Sets the length of a vote. -/
  | setVotingPeriod (period : Timestamp)
  /-- Sets the power that a proposer needs. -/
  | setProposalThreshold (threshold : Power)
  /-- Sets the power that a vote needs. -/
  | setQuorumVotes (quorum : Power)
  /-- Sets the time between queueing and execution. -/
  | setTimelockDelay (delay : Timestamp)
  /-- Sets the guardian; the zero address removes it. -/
  | setGuardian (guardian : Address)
  /-- Pays out of a treasury. -/
  | treasuryTransfer (target : Address) (amount : Amount)
  /-- Switches a capability to another version. -/
  | upgradeCapability (target : Address) (version : Version)
deriving DecidableEq

namespace Command

/-- Every signature. -/
def signatures : List String :=
  ["SetVotingDelay", "SetVotingPeriod", "SetProposalThreshold", "SetQuorumVotes",
    "SetTimelockDelay", "SetGuardian", "TreasuryTransfer", "UpgradeCapability"]

/-- **The signature of a command.** -/
def signature : Command → String
  | setVotingDelay _ => "SetVotingDelay"
  | setVotingPeriod _ => "SetVotingPeriod"
  | setProposalThreshold _ => "SetProposalThreshold"
  | setQuorumVotes _ => "SetQuorumVotes"
  | setTimelockDelay _ => "SetTimelockDelay"
  | setGuardian _ => "SetGuardian"
  | treasuryTransfer _ _ => "TreasuryTransfer"
  | upgradeCapability _ _ => "UpgradeCapability"

/-- **The bytes of the arguments.** -/
def encodeArgs : Command → Bytes
  | setVotingDelay delay | setTimelockDelay delay => littleEndian 8 delay.toNat
  | setVotingPeriod period => littleEndian 8 period.toNat
  | setProposalThreshold power | setQuorumVotes power => littleEndian 16 power.toNat
  | setGuardian guardian => guardian.bytes
  | treasuryTransfer target amount => target.bytes ++ amount.toBytes
  | upgradeCapability target version => target.bytes ++ littleEndian 4 version.toNat

/-- Reads the arguments of a command that is known by its signature; `none` if the
signature names no command. -/
def readArgs? (signature : String) (data : Bytes) : Option (Except ReadError Command) :=
  match signature with
  | "SetVotingDelay" => some (setVotingDelay <$> readWhole (readWord 8) data)
  | "SetVotingPeriod" => some (setVotingPeriod <$> readWhole (readWord 8) data)
  | "SetProposalThreshold" => some (setProposalThreshold <$> readWhole (readWord 16) data)
  | "SetQuorumVotes" => some (setQuorumVotes <$> readWhole (readWord 16) data)
  | "SetTimelockDelay" => some (setTimelockDelay <$> readWhole (readWord 8) data)
  | "SetGuardian" => some (setGuardian <$> readWhole readAddress data)
  | "TreasuryTransfer" => some do
    let (target, rest) ← readAddress data
    let amount ← readWhole readAmount rest
    return treasuryTransfer target amount
  | "UpgradeCapability" => some do
    let (target, rest) ← readAddress data
    let version ← readWhole (readWord 4) rest
    return upgradeCapability target version
  | _ => none

/-- **The command of a signature and arguments.** -/
def decode (signature : String) (data : Bytes) : Except GovernanceError Command :=
  match readArgs? signature data with
  | none => .error (.unknownSignature signature)
  | some (.error e) => .error (.badArguments signature e)
  | some (.ok c) => .ok c

/-- Whether the protocol carries a command out on itself, and not by a capability. -/
def isGovernance : Command → Bool
  | treasuryTransfer _ _ => false
  | _ => true

/-! ### JSON -/

/-- A command as JSON. -/
def toJson (c : Command) : Json :=
  let parts := match c with
    | setVotingDelay delay => [("delay", Json.ofWord delay)]
    | setVotingPeriod period => [("period", Json.ofWord period)]
    | setProposalThreshold threshold => [("threshold", Json.ofWord threshold)]
    | setQuorumVotes quorum => [("quorum", Json.ofWord quorum)]
    | setTimelockDelay delay => [("delay", Json.ofWord delay)]
    | setGuardian guardian => [("guardian", guardian.toJson)]
    | treasuryTransfer target amount => [("to", target.toJson), ("amount", Amount.toJson amount)]
    | upgradeCapability target version =>
      [("target", target.toJson), ("version", Json.ofWord version)]
  .object [(c.signature, .object parts)]

instance : ToJson Command := ⟨toJson⟩

/-- The command that a JSON value stands for. -/
def ofJson? (v : Json) : Option Command := do
  let (name, some content) ← v.variant? | none
  match name with
  | "SetVotingDelay" =>
    let [delay] ← content.parts? ["delay"] | none
    return setVotingDelay (← delay.word?)
  | "SetVotingPeriod" =>
    let [period] ← content.parts? ["period"] | none
    return setVotingPeriod (← period.word?)
  | "SetProposalThreshold" =>
    let [threshold] ← content.parts? ["threshold"] | none
    return setProposalThreshold (← threshold.word?)
  | "SetQuorumVotes" =>
    let [quorum] ← content.parts? ["quorum"] | none
    return setQuorumVotes (← quorum.word?)
  | "SetTimelockDelay" =>
    let [delay] ← content.parts? ["delay"] | none
    return setTimelockDelay (← delay.word?)
  | "SetGuardian" =>
    let [guardian] ← content.parts? ["guardian"] | none
    return setGuardian (← Address.ofJson? guardian)
  | "TreasuryTransfer" =>
    let [target, amount] ← content.parts? ["to", "amount"] | none
    return treasuryTransfer (← Address.ofJson? target) (← Amount.ofJson? amount)
  | "UpgradeCapability" =>
    let [target, version] ← content.parts? ["target", "version"] | none
    return upgradeCapability (← Address.ofJson? target) (← version.word?)
  | _ => none

instance : FromJson Command := ⟨ofJson?⟩

end Command

end StakeGovernance
