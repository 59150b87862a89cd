import StakeGovernance.Json.Basic
import StakeGovernance.OrderedMap
import StakeGovernance.Text.Double

/-!
# Values that are kept

A value that is kept without being understood is read and written again in a tidy form:
the fields of objects are sorted, of two fields with one key the last one stays, and a
number that is no integer of 64 bits is a double. Values that are nested too deeply or
hold a number that is too large, or what denotes no value, cannot be kept.

* `StakeGovernance.Json.isKept` – whether a value **can be kept**;
* `StakeGovernance.Json.tidy` – its **tidy form**.
-/

namespace StakeGovernance.Json

/-- Whether an integer fits 64 bits, with a sign or without one. -/
def isWide (n : Int) : Bool := Int64.minValue.toInt ≤ n && n < UInt64.size

/-- The deepest nesting of a value that is kept. -/
def nestingLimit : Nat := 127

/-! ### What can be kept -/

mutual

/-- Whether a value is nested at most so deep and holds no number that is too large and
nothing that denotes no value. -/
def keeps (depth : Nat) : Json → Bool
  | .int n => isWide n || (Double.ofText? (toString n)).isSome
  | .decimal text => (Double.ofText? text).isSome
  | .array items => 0 < depth && keepsItems (depth - 1) items
  | .object fields => 0 < depth && keepsFields (depth - 1) fields
  | .unreadable => false
  | _ => true

/-- Whether all items are nested at most so deep. -/
def keepsItems (depth : Nat) : List Json → Bool
  | [] => true
  | x :: xs => keeps depth x && keepsItems depth xs

/-- Whether all fields are nested at most so deep. -/
def keepsFields (depth : Nat) : List (String × Json) → Bool
  | [] => true
  | (_, v) :: fs => keeps depth v && keepsFields depth fs

end

/-- **Whether a value can be kept.** -/
def isKept (v : Json) : Bool := keeps nestingLimit v

/-! ### The tidy form -/

/-- The number of a text as a double. -/
def tidyNumber (text : String) : Json :=
  .decimal (((Double.ofText? text).map Double.toText).getD text)

mutual

/-- **The tidy form** of a value. -/
def tidy : Json → Json
  | .int n => if isWide n then .int n else tidyNumber (toString n)
  | .decimal text => tidyNumber text
  | .array items => .array (tidyItems items)
  | .object fields => .object (OrderedMap.ofList (tidyFields fields)).entries
  | v => v

/-- The tidy forms of items. -/
def tidyItems : List Json → List Json
  | [] => []
  | x :: xs => tidy x :: tidyItems xs

/-- The tidy forms of the values of fields. -/
def tidyFields : List (String × Json) → List (String × Json)
  | [] => []
  | (k, v) :: fs => (k, tidy v) :: tidyFields fs

end

end StakeGovernance.Json
