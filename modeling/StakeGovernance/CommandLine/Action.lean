import StakeGovernance.CommandLine.Argument
import StakeGovernance.Proposal.Command
import StakeGovernance.Setup.Settings
import StakeGovernance.Text.Basic

/-!
# Actions on the command line

An action is the name of a command, an equals sign and the arguments with commas between
them. Blanks around each of these count for nothing. What an action targets follows from
its command: the rules of the protocol are its own, payments are the treasury's.

* `StakeGovernance.Settings.actionOfArgument` – the **action of an argument**;
* `StakeGovernance.ActionTextError` – why an argument is **no action**.
-/

namespace StakeGovernance

/-- **Why an argument is no action.** -/
inductive ActionTextError where
  /-- A name that no command has, or another number of arguments. -/
  | unknown (argument : String)
  | account (error : AccountError)
  | integer (error : Decimal.Error)
  | amount (error : ValueError)
deriving DecidableEq, Repr

namespace ActionTextError

/-- The wording of an error. -/
def message : ActionTextError → String
  | unknown argument => s!"Unknown or malformed action '{argument}'"
  | account e => e.message
  | integer e => e.message
  | amount e => e.message

end ActionTextError

namespace Command

/-- An integer among the arguments of an action. -/
def integerOf {bits : Nat} (text : String) : Except ActionTextError (Word bits) :=
  (Word.ofText text).mapError .integer

/-- An account among the arguments of an action. -/
def accountOf (text : String) : Except ActionTextError Address :=
  (Address.ofArgument text).mapError .account

/-- An amount among the arguments of an action. -/
def amountOf (text : String) : Except ActionTextError Amount :=
  (Amount.ofText text).mapError .amount

/-- The command of a name and arguments; `treasury` is another name of an address. -/
def ofParts (argument : String) (treasury : Address) :
    String → List String → Except ActionTextError Command
  | "SetVotingDelay", [delay] => setVotingDelay <$> integerOf delay
  | "SetVotingPeriod", [period] => setVotingPeriod <$> integerOf period
  | "SetProposalThreshold", [threshold] => setProposalThreshold <$> integerOf threshold
  | "SetQuorumVotes", [quorum] => setQuorumVotes <$> integerOf quorum
  | "SetTimelockDelay", [delay] => setTimelockDelay <$> integerOf delay
  | "SetGuardian", [guardian] => setGuardian <$> accountOf guardian
  | "TreasuryTransfer", [target, amount] => do
    return treasuryTransfer (← accountOf target) (← amountOf amount)
  | "UpgradeCapability", [target, version] => do
    let target ← if target = "treasury" then pure treasury else accountOf target
    return upgradeCapability target (← integerOf version)
  | _, _ => .error (.unknown argument)

end Command

namespace Settings

/-- The arguments of an action, when `text` stands for all of them. -/
def argumentsOf (text : String) : List String :=
  let text := trimBlanks text
  if text = "" then [] else (splitText ',' text).map trimBlanks

/-- The name and the arguments of an action. -/
def partsOfArgument (argument : String) : String × List String :=
  match splitOnce? '=' argument with
  | some (name, text) => (trimBlanks name, argumentsOf text)
  | none => (trimBlanks argument, [])

/-- What a command targets. -/
def targetOf (s : Settings) (command : Command) : Address :=
  if command.isGovernance then s.protocol.address else s.treasury.capability

/-- **The action of an argument**: its target and its command. -/
def actionOfArgument (s : Settings) (argument : String) :
    Except ActionTextError (Address × Command) := do
  let (name, arguments) := partsOfArgument argument
  let command ← Command.ofParts argument s.treasury.capability name arguments
  return (s.targetOf command, command)

end Settings

end StakeGovernance
