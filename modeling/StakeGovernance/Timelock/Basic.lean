import StakeGovernance.Call
import StakeGovernance.Governance.Event
import StakeGovernance.Json.Record
import StakeGovernance.Proposal.Action
import StakeGovernance.Staking.Curve

/-!
# The timelock

Actions wait in the timelock until the time of their execution, and may be executed
only for a while after it. An entry is found under the digest of its action, which
covers the time of execution: one action can wait for several times, but not twice for
the same one. Only the admin may queue, execute and cancel.

* `StakeGovernance.TimelockParams` – the **delays**;
* `StakeGovernance.Timelock` – the **queue**;
* `StakeGovernance.Timelock.queue`, `StakeGovernance.Timelock.execute`,
  `StakeGovernance.Timelock.cancel`, `StakeGovernance.Timelock.pruneStale` – what enters
  the queue and what leaves it.
-/

namespace StakeGovernance

/-- **The delays of a timelock.** -/
structure TimelockParams where
  /-- The delay of newly queued proposals. -/
  delay : Timestamp
  minDelay : Timestamp
  maxDelay : Timestamp
  /-- How long after its time an entry can still be executed. -/
  gracePeriod : Timestamp
deriving DecidableEq

namespace TimelockParams

/-- Two days, at most thirty, and two weeks of grace. -/
def default : TimelockParams :=
  ⟨.ofNat (2 * day), .ofNat (2 * day), .ofNat (30 * day), .ofNat (14 * day)⟩

instance : Inhabited TimelockParams := ⟨default⟩

/-- Checks the delays. -/
def validate (p : TimelockParams) : Except GovernanceError Unit :=
  if p.maxDelay < p.minDelay then .error (.delayBounds p.minDelay p.maxDelay)
  else if p.delay < p.minDelay ∨ p.maxDelay < p.delay then
    .error (.delayOutside p.delay p.minDelay p.maxDelay)
  else if p.gracePeriod.isZero then .error .zeroGrace
  else .ok ()

/-- The delays as JSON. -/
def toJson (p : TimelockParams) : Json :=
  .object [("delay", .ofWord p.delay), ("min_delay", .ofWord p.minDelay),
    ("max_delay", .ofWord p.maxDelay), ("grace_period", .ofWord p.gracePeriod)]

instance : ToJson TimelockParams := ⟨toJson⟩

/-- The delays that a JSON value stands for. -/
def ofJson? (v : Json) : Option TimelockParams := do
  let [delay, minDelay, maxDelay, grace] ←
    v.parts? ["delay", "min_delay", "max_delay", "grace_period"] | none
  return ⟨← delay.word?, ← minDelay.word?, ← maxDelay.word?, ← grace.word?⟩

instance : FromJson TimelockParams := ⟨ofJson?⟩

end TimelockParams

/-- **An action in the queue.** -/
structure QueuedAction where
  action : ProposalAction
  /-- The earliest time of its execution. -/
  eta : Timestamp
  queuedAt : Timestamp
deriving DecidableEq

namespace QueuedAction

/-- An entry as JSON. -/
def toJson (q : QueuedAction) : Json :=
  .object [("action", q.action.toJson), ("eta", .ofWord q.eta), ("queued_at", .ofWord q.queuedAt)]

instance : ToJson QueuedAction := ⟨toJson⟩

/-- The entry that a JSON value stands for. -/
def ofJson? (v : Json) : Option QueuedAction := do
  let [action, eta, queuedAt] ← v.parts? ["action", "eta", "queued_at"] | none
  return ⟨← ProposalAction.ofJson? action, ← eta.word?, ← queuedAt.word?⟩

instance : FromJson QueuedAction := ⟨ofJson?⟩

end QueuedAction

/-- **The timelock.** -/
structure Timelock where
  admin : Address
  params : TimelockParams
  /-- The entries under their digests. -/
  queued : OrderedMap Digest QueuedAction
  /-- Changes that nobody has taken notice of yet. They are not part of stored data. -/
  events : List GovernanceEvent
deriving DecidableEq

namespace Timelock

/-- A new timelock, if its admin and its delays are sound. -/
def create (admin : Address) (params : TimelockParams) : Except GovernanceError Timelock := do
  if admin.isZero then throw .zeroAdmin
  params.validate
  return ⟨admin, params, .empty, []⟩

/-! ### Queries -/

/-- The entry under a digest. -/
def get? (t : Timelock) (hash : Digest) : Option QueuedAction := t.queued.get? hash

/-- Whether there is an entry under a digest. -/
def isQueued (t : Timelock) (hash : Digest) : Bool := t.queued.contains hash

/-- Whether the grace period of an entry is over. -/
def isStale (t : Timelock) (eta now : Timestamp) : Bool := eta.addSat t.params.gracePeriod < now

/-- Checks that an entry may be executed now. -/
def checkDue (t : Timelock) (eta now : Timestamp) : Except GovernanceError Unit :=
  if now < eta then .error (.etaNotReached eta now)
  else if t.isStale eta now then .error (.graceElapsed eta now)
  else .ok ()

/-- Checks that the caller is the admin. -/
def onlyAdmin (t : Timelock) (caller : Address) : Except GovernanceError Unit :=
  if caller = t.admin then .ok () else .error (.notAdmin caller)

/-! ### Operations -/

/-- **Queues an action** for a time of execution. -/
def queue (caller : Address) (action : ProposalAction) (eta now : Timestamp) :
    Call GovernanceError Timelock Digest := do
  let t ← get
  t.onlyAdmin caller
  -- a bound beyond the last second stands at the last second
  let earliest := now.addSat t.params.minDelay
  let latest := now.addSat t.params.maxDelay
  if eta < earliest ∨ latest < eta then throw (.etaOutside eta earliest latest)
  let hash := action.hash eta
  if t.isQueued hash then throw (.alreadyQueued eta hash)
  set { t with
    queued := t.queued.insert hash ⟨action, eta, now⟩
    events := t.events ++ [GovernanceEvent.actionQueued hash action.target eta] }
  return hash

/-- **Takes a due entry out**, before its action is carried out. An action that fails is
not in the queue any more. -/
def execute (caller : Address) (action : ProposalAction) (eta now : Timestamp) :
    Call GovernanceError Timelock Digest := do
  let t ← get
  t.onlyAdmin caller
  let hash := action.hash eta
  if !t.isQueued hash then throw (.notQueued hash)
  t.checkDue eta now
  set { t with queued := t.queued.erase hash }
  return hash

/-- **Drops an entry.** It is no error if there is none. -/
def cancel (caller : Address) (action : ProposalAction) (eta : Timestamp) :
    Call GovernanceError Timelock Digest := do
  let t ← get
  t.onlyAdmin caller
  let hash := action.hash eta
  if t.isQueued hash then
    set { t with
      queued := t.queued.erase hash
      events := t.events ++ [GovernanceEvent.actionCanceled hash action.target] }
  return hash

/-- Changes the delay of newly queued proposals. -/
def setDelay (caller : Address) (delay : Timestamp) : Call GovernanceError Timelock Unit := do
  let t ← get
  t.onlyAdmin caller
  let params := { t.params with delay }
  params.validate
  set { t with params }

/-- **Removes the entries whose grace period is over.** The result is their digests in
ascending order. -/
def pruneStale (now : Timestamp) : Call GovernanceError Timelock (List Digest) := do
  let t ← get
  let stale := (t.queued.filter fun _ q => t.isStale q.eta now).keys
  set { t with
    queued := t.queued.filter fun _ q => !t.isStale q.eta now
    events := t.events ++ stale.map GovernanceEvent.actionExpired }
  return stale

/-- Takes the changes that nobody has taken notice of yet. -/
def drainEvents : Call GovernanceError Timelock (List GovernanceEvent) := do
  let t ← get
  set { t with events := [] }
  return t.events

/-! ### JSON -/

/-- A timelock as JSON. -/
def toJson (t : Timelock) : Json :=
  .object [("admin", t.admin.toJson), ("params", t.params.toJson),
    ("queued", t.queued.toJson Digest.toText QueuedAction.toJson)]

instance : ToJson Timelock := ⟨toJson⟩

/-- The timelock that a JSON value stands for. -/
def ofJson? (v : Json) : Option Timelock := do
  let [admin, params, queued] ← v.parts? ["admin", "params", "queued"] | none
  return ⟨← Address.ofJson? admin, ← TimelockParams.ofJson? params,
    ← OrderedMap.ofJson? Digest.ofKey? QueuedAction.ofJson? queued, []⟩

instance : FromJson Timelock := ⟨ofJson?⟩

end Timelock

end StakeGovernance
