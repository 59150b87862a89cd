import StakeGovernance.Capability.Registry
import StakeGovernance.Protocol.State

/-!
# The protocol

The protocol is its state together with a vault and the handlers of its capabilities.
What a call reports passes into the journal when the call is settled.

* `StakeGovernance.Protocol` – the **protocol** over a kind of vault;
* `StakeGovernance.Protocol.record` – passes reported events **into the journal**;
* `StakeGovernance.Protocol.settled` – a call that is **settled** at a time: the clock
  advances if it succeeds, and its events are recorded in any case.
-/

namespace StakeGovernance

/-- **The protocol** over a kind of vault. -/
structure Protocol (ν : Type) where
  state : ProtocolState
  vault : ν
  registry : Registry
  /-- Events of the protocol itself that are not in the journal yet. -/
  events : List GovernanceEvent
  /-- Journal entries that nobody has taken yet. -/
  journal : List JournalEntry
deriving DecidableEq

namespace Protocol

variable {ν α : Type}

/-- A protocol with a given state. -/
def ofSnapshot (state : ProtocolState) (vault : ν) (registry : Registry) : Protocol ν :=
  ⟨state, vault, registry, [], []⟩

/-- A new protocol, if its settings are sound. -/
def create (config : ProtocolConfig) (vault : ν) : Except GovernanceError (Protocol ν) := do
  return ofSnapshot (← ProtocolState.create config) vault .empty

/-! ### Parts -/

/-- The protocol with another ledger. -/
def withLedger (p : Protocol ν) (ledger : Ledger) : Protocol ν :=
  { p with state := { p.state with ledger } }

/-- The protocol with another council. -/
def withCouncil (p : Protocol ν) (council : Council) : Protocol ν :=
  { p with state := { p.state with council } }

/-- A call on the council. -/
def onCouncil (call : Call GovernanceError Council α) : Call GovernanceError (Protocol ν) α :=
  Call.part (·.state.council) (fun council p => p.withCouncil council) id call

/-- A call on the governor. -/
def onGovernor (call : Call GovernanceError Governor α) : Call GovernanceError (Protocol ν) α :=
  onCouncil (Council.onGovernor call)

/-- A call on the timelock. -/
def onTimelock (call : Call GovernanceError Timelock α) : Call GovernanceError (Protocol ν) α :=
  onCouncil (Council.onTimelock call)

/-- A call on the ledger. -/
def onLedger (call : Call StakingError Ledger α) : Call GovernanceError (Protocol ν) α :=
  Call.part (·.state.ledger) (fun ledger p => p.withLedger ledger) .staking call

/-- A call on the vault. -/
def onVault {ε : Type} (wrap : StakingError → ε) (call : Call StakingError ν α) :
    Call ε (Protocol ν) α :=
  Call.part (·.vault) (fun vault p => { p with vault }) wrap call

/-! ### The journal -/

/-- The protocol with one more event of its own. -/
def note (p : Protocol ν) (event : GovernanceEvent) : Protocol ν :=
  { p with events := p.events ++ [event] }

/-- All events that are not in the journal yet: those of the ledger first, then those of
the timelock, of the governor, and of the protocol itself. -/
def pending (p : Protocol ν) : List ProtocolEvent :=
  p.state.ledger.events.map .staking ++ p.state.timelock.events.map .governance
    ++ p.state.governor.events.map .governance ++ p.events.map .governance

/-- The protocol with all its pending events taken away. -/
def cleared (p : Protocol ν) : Protocol ν :=
  { p with
    state := { p.state with
      ledger := { p.state.ledger with events := [] }
      council := {
        governor := { p.state.governor with events := [] }
        timelock := { p.state.timelock with events := [] } } }
    events := [] }

/-- The protocol with one more journal entry. -/
def append (now : Timestamp) (p : Protocol ν) (event : ProtocolEvent) : Protocol ν :=
  { p with
    state := { p.state with nextSeq := p.state.nextSeq.next }
    journal := p.journal ++ [⟨p.state.nextSeq, now, event⟩] }

/-- **Passes all pending events into the journal.** -/
def record (now : Timestamp) (p : Protocol ν) : Protocol ν :=
  p.pending.foldl (append now) p.cleared

/-- The protocol with its clock set. -/
def withClock (p : Protocol ν) (now : Timestamp) : Protocol ν :=
  { p with state := { p.state with clock := now } }

/-- **Settles a call.** -/
def settled (now : Timestamp) (call : Call GovernanceError (Protocol ν) α) :
    Call GovernanceError (Protocol ν) α := fun p =>
  match call p with
  | .ok a q => .ok a ((q.withClock now).record now)
  | .error e q => .error e (q.record now)

/-- Refuses a time before the clock. -/
def checkClock (now : Timestamp) : Call GovernanceError (Protocol ν) Unit := do
  (← get).state.checkClock now

/-- Takes the journal entries that nobody has taken yet. -/
def drainJournal : Call GovernanceError (Protocol ν) (List JournalEntry) := do
  let p ← get
  set { p with journal := [] }
  return p.journal

/-- The protocol with an earlier state and vault put back. What was reported and not
taken since is lost. -/
def rollback (p : Protocol ν) (state : ProtocolState) (vault : ν) : Protocol ν :=
  ofSnapshot state vault p.registry

end Protocol

end StakeGovernance
