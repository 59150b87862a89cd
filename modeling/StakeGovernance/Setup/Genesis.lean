import StakeGovernance.Protocol.Operations
import StakeGovernance.Setup.Error
import StakeGovernance.Setup.Settings
import StakeGovernance.Store.Snapshot

/-!
# Setting a protocol up and resuming it

A store is set up with the state of a protocol at its beginning. From then on the
protocol is resumed from the store; the handlers of its capabilities are not stored but
follow from the settings.

* `StakeGovernance.Settings.genesisProtocol` – the protocol at its **beginning**;
* `StakeGovernance.Settings.setUp` – **sets a store up**;
* `StakeGovernance.Settings.resume` – the protocol **as it was stored**.
-/

namespace StakeGovernance

/-- The versions of a treasury with their handlers. -/
def TreasurySettings.handlers (t : TreasurySettings) : List (Version × Treasury) :=
  [(.ofNat 1, ⟨t.account, none⟩), (.ofNat 2, ⟨t.account, some t.perTransferCap⟩)]

namespace Settings

/-! ### The beginning -/

/-- The handlers that settings ask for. -/
def handlers (s : Settings) : List (Version × Treasury) :=
  if s.treasury.enabled then s.treasury.handlers else []

/-- The registry of these handlers. -/
def registry (s : Settings) : Except SetupError Registry :=
  s.handlers.foldlM (fun r (version, handler) =>
    (r.register s.treasury.capability version handler).mapError .governance) .empty

/-- Credits all first balances. -/
def allocate (s : Settings) : Call SetupError Vault Unit := do
  Call.forEach s.genesis fun a =>
    Call.part id (fun v _ => v) (.allocation a.account) (Vault.mint a.account a.amount)
  let t := s.treasury
  if t.enabled && !t.initialBalance.isZero then
    Call.part id (fun v _ => v) .treasuryBalance (Vault.mint t.account t.initialBalance)

/-- Registers the handlers that settings ask for. -/
def registerAll (s : Settings) : Call GovernanceError (Protocol Vault) Unit :=
  Call.forEach s.handlers fun (version, handler) =>
    Protocol.registerCapability s.treasury.capability version handler

/-- What a call leaves behind, if it succeeds. -/
def outcome {ε σ : Type} (call : Call ε σ Unit) (s : σ) : Except ε σ :=
  match call.runFrom s with
  | (.ok _, t) => .ok t
  | (.error e, _) => .error e

/-- **The protocol at its beginning.** -/
def genesisProtocol (s : Settings) : Except SetupError (Protocol Vault) := do
  let vault ← outcome s.allocate .empty
  let p ← (Protocol.create s.protocol vault).mapError .governance
  (outcome s.registerAll p).mapError .governance

/-! ### The store -/

/-- A call on the store. -/
def onStore {α : Type} (call : Call StorageError Disk α) : Call SetupError Disk α :=
  Call.part id (fun d _ => d) .storage call

/-- Empties a store that is in use, if that is wanted. -/
def vacate (s : Settings) (force : Bool) (store : StateStore) :
    Call SetupError Disk StateStore := do
  let snapshot ← store.loadSnapshot?.mapError SetupError.storage
  if snapshot.isSome || 0 < store.journalLength then
    if force then onStore store.clear else throw (.inUse s.dataDir)
  else return store

/-- **Sets a store up.** One that is in use is replaced only if that is wanted. -/
def setUp (s : Settings) (force : Bool) : Call SetupError Disk StateStore := do
  let store ← onStore (StateStore.openAt s.dataDir)
  let store ← s.vacate force store
  let p ← s.genesisProtocol
  onStore (store.commit (.create p.state p.vault) p.journal)

/-- Checks that there are handlers for the capabilities in use. -/
def checkHandlers (registry : Registry) (state : ProtocolState) : Except SetupError Unit :=
  match state.capabilities.keys.find? fun target => !registry.hasTarget target with
  | some target => .error (.noHandler target)
  | none => .ok ()

/-- **The protocol as it was stored**, with its store. -/
def resume (s : Settings) : Call SetupError Disk (Protocol Vault × StateStore) := do
  let store ← onStore (StateStore.openAt s.dataDir)
  let some snapshot ← store.loadSnapshot?.mapError SetupError.storage | throw (.noState s.dataDir)
  let state := snapshot.state
  if state.address ≠ s.protocol.address then
    throw (.otherProtocol state.address s.protocol.address)
  let registry ← s.registry
  checkHandlers registry state
  return (.ofSnapshot state snapshot.vault registry, store)

end Settings

end StakeGovernance
