import StakeGovernance.Governance.Event
import StakeGovernance.Protocol.State
import StakeGovernance.Staking.Vault
import StakeGovernance.Store.Database

/-!
# Snapshots and the journal

The store of a protocol holds its latest snapshot, with a checksum, and its journal. A
commit replaces the one and adds to the other in a single write. Keys of the journal are
numbers with the most significant byte first, so that their order is the numeric one.

* `StakeGovernance.Snapshot` – **all that is needed to resume** a protocol;
* `StakeGovernance.StateStore` – the **store**;
* `StakeGovernance.StateStore.commit` – **writes** a snapshot and journal entries;
* `StakeGovernance.StateStore.loadSnapshot?`, `StakeGovernance.StateStore.journalSince` –
  **reads** them.
-/

namespace StakeGovernance

/-- **All that is needed to resume a protocol.** -/
structure Snapshot where
  /-- The version of the format. -/
  version : Version
  state : ProtocolState
  vault : Vault
deriving DecidableEq

namespace Snapshot

/-- The version of the format that is written. -/
def currentVersion : Version := .ofNat 1

/-- A snapshot of a state and a vault. -/
def create (state : ProtocolState) (vault : Vault) : Snapshot := ⟨currentVersion, state, vault⟩

/-- A snapshot as JSON. -/
def toJson (s : Snapshot) : Json :=
  .object [("version", .ofWord s.version), ("state", s.state.toJson), ("vault", s.vault.toJson)]

instance : ToJson Snapshot := ⟨toJson⟩

/-- The snapshot that a JSON value stands for. -/
def ofJson? (v : Json) : Option Snapshot := do
  let [version, state, vault] ← v.parts? ["version", "state", "vault"] | none
  return ⟨← version.word?, ← ProtocolState.ofJson? state, ← Vault.ofJson? vault⟩

instance : FromJson Snapshot := ⟨ofJson?⟩

/-- The snapshot of a text. Its tables have numbers for keys. -/
def ofText? (text : String) : Option Snapshot := (Json.parseTables? text).bind ofJson?

end Snapshot

/-- **The store of a protocol.** -/
structure StateStore where
  database : Database

namespace StateStore

/-- The column of the snapshot. -/
def metaColumn : String := "meta"

/-- The column of the journal. -/
def journalColumn : String := "journal"

/-- The key of the snapshot. -/
def snapshotKey : Bytes := utf8Bytes "snapshot"

/-- The key of the checksum. -/
def checksumKey : Bytes := utf8Bytes "snapshot_checksum"

/-- Opens the store of a directory. -/
def openAt (path : String) : Call StorageError Disk StateStore := do
  return ⟨← Database.openAt path⟩

/-! ### Reading -/

/-- The entry of a text. -/
def entryOfText? (text : String) : Option JournalEntry :=
  (Json.parse? text).bind JournalEntry.ofJson?

/-- What stands in a JSON text for a byte that belongs to no character: a literal with it
denotes nothing, and it can stand nowhere but in a literal. -/
def brokenByte : List Char := ['x', '\\', 'u', 'd', '8', '0', '0']

/-- The JSON text that bytes hold. -/
def textOfBytes (bs : Bytes) : String :=
  (utf8Text? bs).getD
    (String.ofList ((utf8Pieces 0 bs).flatMap fun c => (c.map fun c => [c]).getD brokenByte))

/-- A value read from the compact JSON text that bytes hold. -/
def decode {α : Type} (what : String) (read : String → Option α) (bs : Bytes) :
    Except StorageError α :=
  match read (textOfBytes bs) with
  | some a => .ok a
  | none => .error (.malformed what)

/-- The bytes of the compact JSON text of a value. -/
def encode (v : Json) : Bytes := utf8Bytes v.compact

/-- Checks the bytes of a snapshot against their checksum. -/
def checkSum (s : StateStore) (bs : Bytes) : Except StorageError Unit := do
  match ← s.database.get? metaColumn checksumKey with
  | none => throw .noChecksum
  | some expected =>
    let actual := (Digest.compute bs).bytes
    if expected ≠ actual then throw (.checksumMismatch expected actual)

/-- **The latest snapshot**, if there is one. -/
def loadSnapshot? (s : StateStore) : Except StorageError (Option Snapshot) := do
  match ← s.database.get? metaColumn snapshotKey with
  | none => return none
  | some bs =>
    s.checkSum bs
    let snapshot ← decode "snapshot" Snapshot.ofText? bs
    if snapshot.version ≠ Snapshot.currentVersion then throw (.snapshotVersion snapshot.version)
    return some snapshot

/-- The number that a key of the journal stands for. -/
def seqOfKey (key : Bytes) : Except StorageError (Word 64) :=
  if h : key.length = 8 then .ok ⟨ofBigEndian key, by
    have := ofBigEndian_lt key
    rw [h] at this
    exact this⟩
  else .error .journalKey

/-- The journal entries from a number on, given all that the column holds. -/
def entriesSince (first : Word 64) : List (Bytes × Bytes) → Except StorageError (List JournalEntry)
  | [] => .ok []
  | (key, value) :: rest => do
    let seq ← seqOfKey key
    if seq < first then entriesSince first rest
    else
      let entry ← decode "journal entry" entryOfText? value
      return entry :: (← entriesSince first rest)

/-- **The journal entries from a number on**, in order. -/
def journalSince (s : StateStore) (first : Word 64) : Except StorageError (List JournalEntry) := do
  entriesSince first (← s.database.scan journalColumn)

/-- The number of journal entries. -/
def journalLength (s : StateStore) : Nat := s.database.count journalColumn

/-! ### Writing -/

/-- The change that adds an entry to the journal. -/
def journalChange (e : JournalEntry) : Change :=
  ⟨journalColumn, bigEndian 8 e.seq.toNat, some (encode e.toJson)⟩

/-- The changes of a commit. -/
def commitBatch (snapshot : Snapshot) (entries : List JournalEntry) : List Change :=
  let bs := encode snapshot.toJson
  ⟨metaColumn, snapshotKey, some bs⟩ :: ⟨metaColumn, checksumKey, some (Digest.compute bs).bytes⟩
    :: entries.map journalChange

/-- **Replaces the snapshot and adds to the journal.** -/
def commit (s : StateStore) (snapshot : Snapshot) (entries : List JournalEntry) :
    Call StorageError Disk StateStore := do
  return ⟨← s.database.writeBatch (commitBatch snapshot entries)⟩

/-- Removes the snapshot and the whole journal. -/
def clear (s : StateStore) : Call StorageError Disk StateStore := do
  return ⟨← s.database.clear⟩

end StateStore

end StakeGovernance
