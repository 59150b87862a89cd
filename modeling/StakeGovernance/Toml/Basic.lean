import StakeGovernance.Json.Basic

/-!
# TOML values

A TOML document is a tree of tables. What can still be added to a table depends on how
it came about, so each table remembers that; an array remembers whether headers add to
it. Floating-point numbers, dates and times are kept as they were written: nothing that
is asked of a document is one.

* `StakeGovernance.Toml` – a **TOML value**;
* `StakeGovernance.Toml.Origin` – how a **table came about**;
* `StakeGovernance.Toml.toJson`, `StakeGovernance.Toml.ofJson` – the same **data as
  JSON**.
-/

namespace StakeGovernance

/-- **How a table came about.** -/
inductive Toml.Origin where
  /-- By a header of its own. The whole document counts as such a table. -/
  | header
  /-- By the header of a table inside it. -/
  | path
  /-- By a dotted key. -/
  | dotted
  /-- In braces. -/
  | inline
deriving DecidableEq, Repr

/-- **A TOML value.** -/
inductive Toml where
  | string (value : String)
  | int (value : Int)
  | bool (value : Bool)
  /-- A floating-point number, as it was written. -/
  | float (text : String)
  /-- A date, a time, or both, as it was written. -/
  | moment (text : String)
  /-- An array; `grows` if each of its items has a header. -/
  | array (grows : Bool) (items : List Toml)
  | table (origin : Toml.Origin) (fields : List (String × Toml))
deriving Inhabited

namespace Toml

/-- The fields of a table. -/
abbrev Fields := List (String × Toml)

/-! ### To JSON -/

mutual

/-- The data as JSON. A date becomes an object that has none of the fields one could ask
for. -/
def toJson : Toml → Json
  | .string s => .string s
  | .int n => .int n
  | .bool b => .bool b
  | .float text => .decimal text
  | .moment text => .object [("date-time", .string text)]
  | .array _ items => .array (itemsToJson items)
  | .table _ fields => .object (fieldsToJson fields)

/-- The items of an array. -/
def itemsToJson : List Toml → List Json
  | [] => []
  | x :: xs => toJson x :: itemsToJson xs

/-- The fields of a table. -/
def fieldsToJson : Fields → List (String × Json)
  | [] => []
  | (k, v) :: fs => (k, toJson v) :: fieldsToJson fs

end

/-! ### From JSON -/

/-- An integer that fits 64 bits with a sign. -/
def integer? (n : Int) : Option Toml :=
  if Int64.minValue.toInt ≤ n ∧ n ≤ Int64.maxValue.toInt then some (.int n) else none

/-- Whether a value is a table. -/
def isTable : Toml → Bool
  | .table .. => true
  | _ => false

mutual

/-- JSON data as TOML, if all of it has a form there: an object is a table with a header, a
list of nothing but objects has a header for each. There is no `null` in a list, no integer
beyond 64 bits, and nothing that denotes no value. -/
def ofJson? : Json → Option Toml
  | .null | .unreadable => none
  | .string s => some (.string s)
  | .int n => integer? n
  | .bool b => some (.bool b)
  | .decimal text => some (.float text)
  | .array items =>
    (itemsOfJson? items).map fun items => .array (!items.isEmpty && items.all isTable) items
  | .object fields => (fieldsOfJson? fields).map (.table .header)

/-- The items of an array. -/
def itemsOfJson? : List Json → Option (List Toml)
  | [] => some []
  | x :: xs => do return (← ofJson? x) :: (← itemsOfJson? xs)

/-- The fields of an object, but for those that are `null`. -/
def fieldsOfJson? : List (String × Json) → Option Fields
  | [] => some []
  | (_, .null) :: fs => fieldsOfJson? fs
  | (k, v) :: fs => do return (k, ← ofJson? v) :: (← fieldsOfJson? fs)

end

end Toml

end StakeGovernance
