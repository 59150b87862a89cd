import StakeGovernance.Store.Contents
import StakeGovernance.Store.Disk

/-!
# The database

A database lives in one file of its directory. Every change rewrites the file, first
under another name; what is held in memory changes only when the file has changed.

* `StakeGovernance.Database` – an **open database**;
* `StakeGovernance.Database.openAt` – **opens** the database of a directory;
* `StakeGovernance.Database.writeBatch`, `StakeGovernance.Database.clear` – **changes**
  it. The result is the database after the change; after an error the one from before
  is still good.
-/

namespace StakeGovernance

/-- **An open database.** -/
structure Database where
  /-- The directory of the database. -/
  path : String
  contents : Contents

namespace Database

/-- The name of the file in the directory. -/
def fileName : String := "data.json"

/-- The path of the file. -/
def filePath (path : String) : String := Disk.join path fileName

/-- The path of the file while it is being written. -/
def draftPath (path : String) : String := Disk.join path (fileName ++ ".tmp")

/-- A call on the disk. -/
def onDisk {α : Type} (call : Call DiskError Disk α) : Call StorageError Disk α :=
  Call.part id (fun d _ => d) (fun | .refused path => .disk path) call

/-- The contents of the database of a directory, empty if there is no file. -/
def load (d : Disk) (path : String) : Except StorageError Contents :=
  match d.find? (filePath path) with
  | none => .ok .empty
  | some (.file text) => Contents.ofText text
  | some .directory => .error (.disk (filePath path))

/-- **Opens the database of a directory.** The directory is made if it is missing. -/
def openAt (path : String) : Call StorageError Disk Database := do
  onDisk (Disk.makeDirectories path)
  return ⟨path, ← load (← get) path⟩

/-- Writes contents into the file. -/
def persist (path : String) (contents : Contents) : Call StorageError Disk Unit := do
  onDisk (Disk.write (draftPath path) contents.toText)
  onDisk (Disk.rename (draftPath path) (filePath path))

/-- **Makes a batch of changes** with a single write. -/
def writeBatch (db : Database) (batch : List Change) : Call StorageError Disk Database := do
  let contents ← db.contents.apply batch
  persist db.path contents
  return { db with contents }

/-- Sets the value of a key. -/
def put (db : Database) (column : String) (key value : Bytes) : Call StorageError Disk Database :=
  db.writeBatch [⟨column, key, some value⟩]

/-- Removes a key. -/
def delete (db : Database) (column : String) (key : Bytes) : Call StorageError Disk Database :=
  db.writeBatch [⟨column, key, none⟩]

/-- **Drops every column.** -/
def clear (db : Database) : Call StorageError Disk Database := do
  persist db.path .empty
  return { db with contents := .empty }

/-- The value under a key. -/
def get? (db : Database) (column : String) (key : Bytes) : Except StorageError (Option Bytes) :=
  db.contents.get? column key

/-- All entries of a column. -/
def scan (db : Database) (column : String) : Except StorageError (List (Bytes × Bytes)) :=
  db.contents.scan column

/-- The number of entries of a column. -/
def count (db : Database) (column : String) : Nat := db.contents.count column

end Database

end StakeGovernance
