import StakeGovernance.Governor.Voting
import StakeGovernance.Timelock.Basic

/-!
# From a vote to its execution

The governor and its timelock together make up the council. A proposal that succeeded
passes from the one into the other: its actions are queued, wait, and are released for
execution, or are dropped when the proposal is canceled.

* `StakeGovernance.Council` – governor and timelock;
* `StakeGovernance.Council.queue` – **queues** the actions of a proposal, all or none;
* `StakeGovernance.Council.release` – **takes them out** for execution;
* `StakeGovernance.Council.cancel` – **cancels** a proposal.
-/

namespace StakeGovernance

/-- **The governor and its timelock.** -/
structure Council where
  governor : Governor
  timelock : Timelock
deriving DecidableEq

/-- **Actions released for execution**, each with the digest it was queued under. -/
structure ReleasedActions where
  eta : Timestamp
  actions : List (Digest × ProposalAction)
deriving DecidableEq

namespace Council

variable {α : Type}

/-- A call on the governor. -/
def onGovernor (call : Call GovernanceError Governor α) : Call GovernanceError Council α :=
  Call.part Council.governor (fun governor c => { c with governor }) id call

/-- A call on the timelock. -/
def onTimelock (call : Call GovernanceError Timelock α) : Call GovernanceError Council α :=
  Call.part Council.timelock (fun timelock c => { c with timelock }) id call

/-- The state of a proposal at a point. -/
def stateOf (c : Council) (p : Proposal) (now : Timestamp) : ProposalState :=
  p.state now c.timelock.params.gracePeriod

/-- The state of the proposal of a number. -/
def state (c : Council) (id : ProposalId) (now : Timestamp) :
    Except GovernanceError ProposalState := do
  return c.stateOf (← c.governor.find id) now

/-! ### Queueing -/

/-- Checks that a proposal can be queued. -/
def checkQueueable (c : Council) (id : ProposalId) (p : Proposal) (now : Timestamp) :
    Except GovernanceError Unit :=
  match c.stateOf p now with
  | .succeeded =>
    if c.timelock.admin = c.governor.address then .ok () else .error .governorNotAdmin
  | .pending => .error (.stillOpen id .pending)
  | .active => .error (.stillOpen id .active)
  | state => .error (.notQueueable id state)

/-- Checks that no action is in the queue already, nor twice among those to be queued. -/
def checkFresh (t : Timelock) (eta : Timestamp) (seen : List Digest) :
    List ProposalAction → Except GovernanceError Unit
  | [] => .ok ()
  | action :: rest =>
    let hash := action.hash eta
    if hash ∈ seen ∨ t.isQueued hash then .error (.alreadyQueued eta hash)
    else checkFresh t eta (hash :: seen) rest

/-- **Queues the actions of a proposal**, all for the same time. An action that is in the
queue already fails the call before any is queued. -/
def queue (id : ProposalId) (now : Timestamp) : Call GovernanceError Council Timestamp := do
  let c ← get
  let p ← c.governor.find id
  c.checkQueueable id p now
  let some eta := now.add? c.timelock.params.delay | throw .etaOverflow
  -- nothing is queued before all actions have been checked
  checkFresh c.timelock eta [] p.actions
  Call.forEach p.actions fun action =>
    onTimelock do let _ ← Timelock.queue c.governor.address action eta now
  onGovernor (modify fun g => (g.put id { p with eta }).report (.proposalQueued id eta))
  return eta

/-! ### Executing -/

/-- Checks that a proposal can be executed. -/
def checkExecutable (c : Council) (id : ProposalId) (p : Proposal) (now : Timestamp) :
    Except GovernanceError Unit :=
  match c.stateOf p now with
  | .queued => c.timelock.checkDue p.eta now
  | .expired => .error (.proposalExpired id p.eta)
  | .pending => .error (.stillOpen id .pending)
  | .active => .error (.stillOpen id .active)
  | state => .error (.notExecutable id state)

/-- Checks that the actions of a proposal are all in the queue. -/
def checkPresent (t : Timelock) (id : ProposalId) (eta : Timestamp)
    (actions : List ProposalAction) : Except GovernanceError Unit :=
  actions.forM fun action =>
    let hash := action.hash eta
    if t.isQueued hash then .ok () else .error (.actionGone hash id)

/-- **Releases the actions of a queued proposal.** The proposal is executed thereby;
carrying out the actions is left to the caller. -/
def release (id : ProposalId) (now : Timestamp) : Call GovernanceError Council ReleasedActions := do
  let c ← get
  let p ← c.governor.find id
  c.checkExecutable id p now
  checkPresent c.timelock id p.eta p.actions
  -- all entries have been looked for before the first is taken out
  let actions ← Call.collect p.actions fun action => do
    let hash ← onTimelock (Timelock.execute c.governor.address action p.eta now)
    return (hash, action)
  onGovernor (modify fun g => (g.put id { p with executed := true }).report (.proposalExecuted id))
  return ⟨p.eta, actions⟩

/-! ### Canceling -/

/-- Whether somebody may cancel a proposal: the proposer and the guardian always, anyone
else once the proposer's power has dropped below the threshold. -/
def mayCancel (c : Council) (ledger : Ledger) (caller : Address) (p : Proposal)
    (now : Timestamp) : Except GovernanceError Bool := do
  if caller = p.proposer ∨ c.governor.guardian? = some caller then return true
  let power ← ledger.powerOf p.proposer (now.monus (.ofNat 1))
  return power < c.governor.params.proposalThreshold

/-- **Cancels a proposal** that is not settled. What it has in the queue is dropped. -/
def cancel (ledger : Ledger) (caller : Address) (id : ProposalId) (now : Timestamp) :
    Call GovernanceError Council Unit := do
  let c ← get
  let p ← c.governor.find id
  let state := c.stateOf p now
  if state.isTerminal then throw (.settled id state)
  if !(← c.mayCancel ledger caller p now) then throw (.mayNotCancel caller id)
  -- a proposal without a time of execution has nothing in the queue
  if !p.eta.isZero then
    Call.forEach p.actions fun action =>
      onTimelock do let _ ← Timelock.cancel c.governor.address action p.eta
  onGovernor (modify fun g => (g.put id { p with canceled := true }).report (.proposalCanceled id))

end Council

end StakeGovernance
