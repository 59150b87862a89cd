import StakeGovernance.CommandLine.Action
import StakeGovernance.CommandLine.Invocation
import StakeGovernance.Service.Basic
import StakeGovernance.Setup.File
import StakeGovernance.Setup.Genesis

/-!
# Carrying invocations out

Each invocation resumes the protocol from its store, does one thing and is over. What it
answers is a JSON text.

* `StakeGovernance.CommandError` – what can **go wrong**;
* `StakeGovernance.Invocation.settings` – the **settings** of an invocation;
* `StakeGovernance.Invocation.run` – **carries an invocation out**.
-/

namespace StakeGovernance

/-- **What can go wrong** with an invocation. -/
inductive CommandError where
  | usage (error : UsageError)
  | setup (error : SetupError)
  /-- The file that was named is not there. -/
  | noSettings (path : String)
  | lock (error : LockEndError)
  | action (error : ActionTextError)
  | staking (error : StakingError)
  | governance (error : GovernanceError)
  /-- The service refused a request. -/
  | request (error : ServiceError)
  | unknownProposal (id : ProposalId)
deriving DecidableEq

namespace CommandError

/-- The wording of an error. -/
def message : CommandError → String
  | usage e => e.name
  | setup e => e.message
  | noSettings path => s!"Config file '{path}' does not exist"
  | lock e => e.message
  | action e => e.message
  | staking e => e.message
  | governance e => e.message
  | request e => s!"{e.message} ({e.kind.label})"
  | unknownProposal id => s!"Unknown proposal {id}"

end CommandError

namespace Settings

/-- The name of the file of settings in the directory of a store. -/
def fileName : String := "lockgov.toml"

/-- A call that sets up or resumes. -/
def onSetup {α : Type} (call : Call SetupError Disk α) : Call CommandError Disk α :=
  Call.part id (fun d _ => d) .setup call

/-! ### Changes -/

/-- The delegate of an account as it is stored. -/
def currentDelegate (s : Settings) (owner : Address) : Call CommandError Disk Address := do
  let (p, _) ← onSetup s.resume
  return p.state.ledger.delegateOf owner

/-- The request for a proposal with actions as they were given. -/
def proposalRequest (s : Settings) (description : String) (actions : List String) :
    Except CommandError ProposalRequest :=
  actions.foldlM (fun request argument => do
    let (target, command) ← (s.actionOfArgument argument).mapError .action
    return request.withCommand target .zero command) (.empty description)

/-- Has a request carried out by a service of its own. -/
def submit (s : Settings) (now : Timestamp) (request : Request) :
    Call CommandError Disk Response := do
  let (p, store) ← onSetup s.resume
  Call.part (fun d => Host.mk (.spawn p store) d) (fun h _ => h.disk) .request
    (Service.submit request now)

/-- Carries a request out, and answers with the response. -/
def change (s : Settings) (now : Timestamp) (request : Request) : Call CommandError Disk Json := do
  return (← s.submit now request).toJson

/-- Sets a store up, and writes the settings beside it unless they are there. -/
def found (s : Settings) (path : String) (force : Bool) : Call CommandError Disk Json := do
  let _ ← onSetup (s.setUp force)
  if force || !(← get).present path then
    onSetup (Call.part id (fun d _ => d) .disk (Disk.makeParents path))
    onSetup (s.write path)
  return .object [("config", .string path), ("initialized", .string s.dataDir),
    ("protocol", s.protocol.address.toJson)]

/-! ### Reports -/

/-- What there is to know about an account. -/
def power (s : Settings) (account : Address) (point : Timestamp) :
    Call CommandError Disk Json := do
  let (p, _) ← onSetup s.resume
  let l := p.state.ledger
  let power ← (l.votingPowerAt account point).mapError CommandError.staking
  return .object [("account", account.toJson), ("at", .ofWord point),
    ("voting_power", .ofWord power), ("delegate", (l.delegateOf account).toJson),
    ("positions", .array ((l.positions account).map StakePosition.toJson))]

/-- What there is to know about a proposal. -/
def proposalStatus (p : Protocol Vault) (id : ProposalId) (now : Timestamp) :
    Except CommandError Json := do
  let state ← (p.proposalState id now).mapError .governance
  match p.state.governor.get? id with
  | none => throw (.unknownProposal id)
  | some proposal => return .object [("state", .string state.name), ("proposal", proposal.toJson)]

/-- What there is to know about a protocol. -/
def summary (s : ProtocolState) : Json :=
  .object [("protocol", s.address.toJson), ("clock", .ofWord s.clock),
    ("total_staked", Amount.toJson s.ledger.totalStaked),
    ("proposals", .ofWord s.governor.proposalCount),
    ("queued_actions", .ofNat s.timelock.queued.size),
    ("timelock_delay", .ofWord s.timelock.params.delay),
    ("guardian", Json.ofOption Address.toJson s.governor.guardian?),
    ("capabilities", s.capabilities.toJson Address.toHexText Json.ofWord)]

/-- What there is to know about the protocol or about one proposal. -/
def status (s : Settings) (proposal : Option ProposalId) (now : Timestamp) :
    Call CommandError Disk Json := do
  let (p, _) ← onSetup s.resume
  match proposal with
  | some id => proposalStatus p id now
  | none => return summary p.state

/-! ### Tasks -/

/-- Carries a task out. -/
def perform (s : Settings) (path : String) (now : Timestamp) : Task → Call CommandError Disk Json
  | .setUp force => s.found path force
  | .power account point => s.power account (point.getD now)
  | .status proposal => s.status proposal now
  | .stake owner amount lock delegate => do
    let target ← match delegate with
      | some target => pure target
      | none => s.currentDelegate owner
    let unlock ← (lock.resolve now).mapError CommandError.lock
    s.change now (.stake owner amount unlock target)
  | .extend owner bucket lock amount => do
    let unlock ← (lock.resolve now).mapError CommandError.lock
    s.change now (.extend owner bucket unlock amount)
  | .withdraw owner bucket => s.change now (.withdraw owner bucket)
  | .delegate owner target => s.change now (.delegate owner target)
  | .propose proposer description actions => do
    s.change now (.propose proposer (← s.proposalRequest description actions))
  | .vote voter id support => s.change now (.vote voter id support)
  | .queue id => s.change now (.queue id)
  | .execute id => s.change now (.execute id)
  | .cancel caller id => s.change now (.cancel caller id)
  | .prune => s.change now .prune

end Settings

namespace Invocation

/-! ### Invocations -/

/-- The file of the settings: the one that is named, or the one beside the store. -/
def settingsFile (i : Invocation) : String :=
  i.settingsPath.getD (Disk.join (i.dataDir.getD Settings.default.dataDir) Settings.fileName)

/-- Whether a store is to be set up. -/
def setsUp (i : Invocation) : Bool :=
  match i.task with
  | .setUp _ => true
  | _ => false

/-- The settings with what the options say. -/
def override (i : Invocation) (s : Settings) : Settings :=
  { s with
    dataDir := i.dataDir.getD s.dataDir
    logging := { s.logging with
      level := i.logLevel.getD s.logging.level
      format := if i.logJson then "json" else s.logging.format } }

/-- **The settings of an invocation.** A file that is named must be there, except when a
store is set up. -/
def settings (i : Invocation) (d : Disk) : Except CommandError Settings := do
  let path := i.settingsFile
  let s ←
    if d.present path then (Settings.read d path).mapError .setup
    else if i.settingsPath.isSome && !i.setsUp then throw (.noSettings path)
    else pure Settings.default
  let s := i.override s
  s.validate.mapError .setup
  return s

/-- **Carries an invocation out**, at the time it gives or else at that of the clock. -/
def run (i : Invocation) (clock : Timestamp) : Call CommandError Disk String := do
  let s ← i.settings (← get)
  return (← s.perform i.settingsFile (i.now.getD clock) i.task).pretty

end Invocation

/-- Carries out what arguments ask for. -/
def runArguments (arguments : List String) (clock : Timestamp) : Call CommandError Disk String := do
  let i ← (Invocation.ofArguments arguments).mapError CommandError.usage
  i.run clock

end StakeGovernance
