import StakeGovernance.Service.Request
import StakeGovernance.Store.Snapshot

/-!
# The service

A service owns a protocol and its store, and carries requests out strictly one after
the other. After every request that succeeds, the state and what was journaled are
committed and the state is published; a request whose commit fails is undone and never
published.

* `StakeGovernance.Service` – a **service**;
* `StakeGovernance.Service.submit` – **carries a request out**;
* `StakeGovernance.ServiceError` – what a caller is told if it fails.
-/

namespace StakeGovernance

/-- **What can go wrong with a request.** -/
inductive ServiceError where
  | governance (error : GovernanceError)
  | storage (error : StorageError)
  /-- The service was stopped. -/
  | closed
deriving DecidableEq

namespace ServiceError

/-- The kind of an error. -/
def kind : ServiceError → ErrorKind
  | governance e => e.kind
  | storage e => e.kind
  | closed => .storage

/-- The wording of an error. -/
def message : ServiceError → String
  | governance e => e.message
  | storage e => e.message
  | closed => "Protocol service has stopped"

end ServiceError

/-- **A service.** -/
structure Service where
  protocol : Protocol Vault
  store : StateStore
  /-- The state as of the latest request that succeeded. -/
  published : ProtocolState
  /-- Whether requests are still carried out. -/
  running : Bool

/-- A service and the disk that its store is on. -/
structure Host where
  service : Service
  disk : Disk

namespace Service

/-- A service that begins with a protocol. -/
def spawn (protocol : Protocol Vault) (store : StateStore) : Service :=
  ⟨protocol, store, protocol.state, true⟩

/-- A call on the protocol of a service. -/
def onProtocol {α : Type} (call : Call GovernanceError (Protocol Vault) α) :
    Call ServiceError Host α :=
  Call.part (·.service.protocol)
    (fun protocol h => { h with service := { h.service with protocol } }) .governance call

/-- Commits the state and what was journaled, then publishes the state. If that fails,
the protocol goes back to the state and the vault it had before. -/
def persist (state : ProtocolState) (vault : Vault) : Call ServiceError Host Unit := do
  let entries ← onProtocol Protocol.drainJournal
  let h ← get
  let p := h.service.protocol
  match (h.service.store.commit (.create p.state p.vault) entries).runFrom h.disk with
  | (.ok store, disk) =>
    set { h with service := { h.service with store, published := p.state }, disk }
  | (.error e, disk) =>
    set { h with service := { h.service with protocol := p.rollback state vault }, disk }
    throw (.storage e)

/-- **Carries a request out.** -/
def submit (request : Request) (now : Timestamp) : Call ServiceError Host Response := do
  let s := (← get).service
  if !s.running then throw .closed
  let response ← onProtocol (request.run now)
  persist s.protocol.state s.protocol.vault
  return response

/-- Stops carrying requests out. -/
def stop (s : Service) : Service := { s with running := false }

end Service

end StakeGovernance
