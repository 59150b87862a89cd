import StakeGovernance.Json.Parser
import StakeGovernance.Json.Printer
import StakeGovernance.Json.Tidy
import StakeGovernance.OrderedMap
import StakeGovernance.Store.Error
import StakeGovernance.Text.Basic

/-!
# What a database holds

A database is a table of columns, and a column is a table of values under keys, both of
them rows of bytes. It is stored as JSON with keys and values in hexadecimal text. A file
that somebody else has written may hold anything else in place of a value, of a column or
of the whole; it is kept in a tidy form, and is an error only where it is looked at.

* `StakeGovernance.Column`, `StakeGovernance.Contents` – what a **column** and a
  **database** hold;
* `StakeGovernance.Contents.get?`, `StakeGovernance.Contents.scan` – **looking up**;
* `StakeGovernance.Contents.apply` – the contents after a **batch** of changes;
* `StakeGovernance.Contents.toText`, `StakeGovernance.Contents.ofText` – the **stored
  text**.
-/

namespace StakeGovernance

/-- **What a column holds**: JSON values under texts. -/
inductive Column where
  | table (entries : OrderedMap String Json)
  | other (value : Json)

/-- **What a database holds**: columns under their names. -/
inductive Contents where
  | table (columns : OrderedMap String Column)
  | other (value : Json)

/-- **A change** of one key: a new value, or none. -/
structure Change where
  column : String
  key : Bytes
  value : Option Bytes
deriving DecidableEq

namespace Column

/-- A column without entries. -/
def empty : Column := .table .empty

/-- The JSON value under a key. -/
def cell? (c : Column) (key : Bytes) : Option Json :=
  match c with
  | .table entries => entries.get? (Hex.encode key)
  | .other _ => none

/-- The entries of a column. -/
def cells : Column → List (String × Json)
  | .table entries => entries.entries
  | .other _ => []

/-- A column as JSON. -/
def toJson : Column → Json
  | .table entries => .object entries.entries
  | .other value => value

/-- The column that a JSON value stands for. -/
def ofJson : Json → Column
  | .object fields => .table (.ofList (fields.map fun f => (f.1, f.2.tidy)))
  | value => .other value.tidy

end Column

namespace Contents

/-- Without any column. -/
def empty : Contents := .table .empty

/-- The column of a name. -/
def column? (c : Contents) (name : String) : Option Column :=
  match c with
  | .table columns => columns.get? name
  | .other _ => none

/-! ### Looking up -/

/-- The bytes that a hexadecimal text denotes. -/
def bytesOf (text : String) : Except StorageError Bytes := (Hex.decode text).mapError .hex

/-- The bytes of a JSON value in a column. -/
def valueOf (column : String) : Json → Except StorageError Bytes
  | .string text => bytesOf text
  | _ => .error (.notText column)

/-- **The value under a key** of a column, if there is one. -/
def get? (c : Contents) (column : String) (key : Bytes) : Except StorageError (Option Bytes) :=
  match (c.column? column).bind (·.cell? key) with
  | none => .ok none
  | some cell => (valueOf column cell).map some

/-- The bytes of an entry of a column. The value is looked at before the key. -/
def entryOf (column : String) : String × Json → Except StorageError (Bytes × Bytes)
  | (key, .string text) => do return (← bytesOf key, ← bytesOf text)
  | (_, _) => .error (.notText column)

/-- **All entries of a column** in ascending order of their keys; of entries whose keys
denote the same bytes, those come first whose texts come first. -/
def scan (c : Contents) (column : String) : Except StorageError (List (Bytes × Bytes)) := do
  match c.column? column with
  | none => return []
  | some entries =>
    let found ← entries.cells.mapM (entryOf column)
    return found.mergeSort fun a b => (compare a.1 b.1).isLE

/-- The number of entries of a column. -/
def count (c : Contents) (column : String) : Nat :=
  match c.column? column with
  | none => 0
  | some entries => entries.cells.length

/-! ### Changes -/

/-- The columns; none of them if the database is no table of columns. -/
def columns : Contents → OrderedMap String Column
  | .table columns => columns
  | .other _ => .empty

/-- The columns after a change. A column that is not there begins without entries. -/
def applyOne (columns : OrderedMap String Column) (change : Change) :
    Except StorageError (OrderedMap String Column) :=
  match columns.getD change.column .empty with
  | .other _ => .error (.notTable change.column)
  | .table entries =>
    let key := Hex.encode change.key
    let entries := match change.value with
      | some value => entries.insert key (.string (Hex.encode value))
      | none => entries.erase key
    .ok (columns.insert change.column (.table entries))

/-- **The contents after a batch of changes**, made in order, all or none. -/
def apply (c : Contents) (batch : List Change) : Except StorageError Contents :=
  (batch.foldlM applyOne c.columns).map .table

/-! ### The stored text -/

/-- Contents as JSON. -/
def toJson : Contents → Json
  | .table columns => .object (columns.entries.map fun e => (e.1, e.2.toJson))
  | .other value => value

/-- The contents that a JSON value stands for. -/
def ofJson : Json → Contents
  | .object fields => .table (.ofList (fields.map fun f => (f.1, Column.ofJson f.2)))
  | value => .other value.tidy

/-- **The stored text**, indented and with sorted keys. -/
def toText (c : Contents) : String := c.toJson.pretty

/-- **The contents of a stored text**, if it is JSON that can be kept. -/
def ofText (text : String) : Except StorageError Contents :=
  match Json.parse? text with
  | some v => if v.isKept then .ok (ofJson v) else .error (.malformed "database file")
  | none => .error (.malformed "database file")

end Contents

end StakeGovernance
