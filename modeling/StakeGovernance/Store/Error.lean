import StakeGovernance.Governance.Error
import StakeGovernance.Store.Disk

/-!
# What can go wrong in the store

* `StakeGovernance.StorageError` – the **causes**;
* `StakeGovernance.StorageError.category` – the **class** of a cause;
* `StakeGovernance.StorageError.message` – the wording.
-/

namespace StakeGovernance

/-- **What can go wrong in the store.** -/
inductive StorageError where
  /-- The disk refuses to read or to write. -/
  | disk (path : String)
  /-- A text that is no JSON, or not JSON of the kind that is stored there. -/
  | malformed (what : String)
  /-- A value of a column that is no text. -/
  | notText (column : String)
  /-- A key or a value that is no hexadecimal text. -/
  | hex (error : Hex.Error)
  /-- A column that is no table. -/
  | notTable (column : String)
  /-- A snapshot without a checksum. -/
  | noChecksum
  /-- A snapshot that its checksum does not fit. -/
  | checksumMismatch (expected actual : Bytes)
  /-- A snapshot of a version that is not known. -/
  | snapshotVersion (version : Version)
  /-- A key of the journal that is no number. -/
  | journalKey
deriving DecidableEq

namespace StorageError

/-- **The classes of causes.** -/
inductive Category where
  | disk
  | serialization
  | deserialization
  | notFound
  | checksumMismatch
deriving DecidableEq, Repr

/-- The class of a cause. -/
def category : StorageError → Category
  | disk _ => .disk
  | notTable _ => .serialization
  | malformed _ | notText _ | hex _ | snapshotVersion _ | journalKey => .deserialization
  | noChecksum => .notFound
  | checksumMismatch _ _ => .checksumMismatch

/-- The kind of an error. -/
def kind (e : StorageError) : ErrorKind :=
  match e.category with
  | .notFound => .notFound
  | _ => .storage

/-- The name of a class, for programs that tell errors apart. -/
def Category.name : Category → String
  | disk => "Io"
  | serialization => "Serialization"
  | deserialization => "Deserialization"
  | notFound => "NotFound"
  | checksumMismatch => "ChecksumMismatch"

/-- The first words of the messages of a class. -/
def Category.heading : Category → String
  | disk => "IO error: "
  | serialization => "Serialization error: "
  | deserialization => "Deserialization error: "
  | notFound => "Not found: "
  | checksumMismatch => "Snapshot checksum mismatch: "

/-- The cause in words. -/
def detail : StorageError → String
  | disk path => (DiskError.refused path).message
  | malformed what => s!"malformed {what}"
  | notText column => s!"non-string value in column {column}"
  | hex e => e.message
  | notTable column => s!"column {column} is not an object"
  | noChecksum => "snapshot checksum"
  | checksumMismatch expected actual =>
    s!"expected {Hex.encode expected}, got {Hex.encode actual}"
  | snapshotVersion version => s!"unsupported snapshot version {version}"
  | journalKey => "journal key is not a u64"

/-- The wording of an error. -/
def message (e : StorageError) : String := e.category.heading ++ e.detail

end StorageError

end StakeGovernance
