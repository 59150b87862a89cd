import StakeGovernance.Json.Basic
import StakeGovernance.OrderedMap
import StakeGovernance.Text.Decimal

/-!
# Reading typed data from JSON values

Typed data is written in few shapes. A record is an object with a field for each of
its parts; on reading, fields of other names are passed over, a field that stands
twice is refused, and an array of the parts in their order is accepted as well. One of
several variants is an object whose only key names the variant, or just the name if
the variant has no parts. A table is an object whose keys are read as texts; the last
of two fields with one key counts. Integers must be written as integers and fit.

* `StakeGovernance.Json.record?`, `StakeGovernance.Json.partial?` – the parts of a
  **record**;
* `StakeGovernance.Json.variant?` – the name and the content of a **variant**;
* `StakeGovernance.Json.word?`, `StakeGovernance.Json.bool?`,
  `StakeGovernance.Json.text?`, `StakeGovernance.Json.list?`,
  `StakeGovernance.Json.option?` – parts of the elementary types;
* `StakeGovernance.Json.keyWord?` – an integer that is the **key** of a table;
* `StakeGovernance.OrderedMap.toJson`, `StakeGovernance.OrderedMap.ofJson?` – a map as a
  **table**.
-/

namespace StakeGovernance

namespace Json

/-! ### Records -/

/-- The value of a field that stands at most once: `none` if it stands twice, and
`some none` if it is missing. -/
def unique? (name : String) (fields : List (String × Json)) : Option (Option Json) :=
  match fields.filter (·.1 = name) with
  | [] => some none
  | [(_, v)] => some (some v)
  | _ => none

/-- **The parts of a record**, each of them `none` if it is missing. -/
def record? (names : List String) : Json → Option (List (Option Json))
  | .object fields => names.mapM fun name => unique? name fields
  | .array items => if items.length = names.length then some (items.map some) else none
  | _ => none

/-- The parts of a record that may not miss any. -/
def parts? (names : List String) (v : Json) : Option (List Json) :=
  (record? names v).bind fun parts => parts.mapM id

/-- **The parts of a record that may miss some**: an array may stop early. -/
def partial? (names : List String) : Json → Option (List (Option Json))
  | .array items =>
    if items.length ≤ names.length then
      some (items.map some ++ List.replicate (names.length - items.length) none)
    else none
  | v => record? names v

/-- A part that has a default. -/
def orDefault? {α : Type} (default : α) (f : Json → Option α) : Option Json → Option α
  | none => some default
  | some v => f v

/-! ### Variants -/

/-- **The name and the content of a variant**; a bare name has no content. -/
def variant? : Json → Option (String × Option Json)
  | .string name => some (name, none)
  | .object [(name, content)] => some (name, some content)
  | _ => none

/-- The name of a variant without parts. -/
def unitVariant? (v : Json) : Option String :=
  match variant? v with
  | some (name, none) => some name
  | some (name, some .null) => some name
  | _ => none

/-! ### Elementary parts -/

/-- An integer that fits a word. -/
def word? {bits : Nat} : Json → Option (Word bits)
  | .int (.ofNat n) => Word.ofNat? n
  | _ => none

/-- A truth value. -/
def bool? : Json → Option Bool
  | .bool b => some b
  | _ => none

/-- A text. -/
def text? : Json → Option String
  | .string s => some s
  | _ => none

/-- A list, each of its items read by `f`. -/
def list? {α : Type} (f : Json → Option α) : Json → Option (List α)
  | .array items => items.mapM f
  | _ => none

/-- A value that may be `null`. -/
def option? {α : Type} (f : Json → Option α) : Json → Option (Option α)
  | .null => some none
  | v => (f v).map some

/-- A part that may also be missing. -/
def optional? {α : Type} (f : Json → Option α) : Option Json → Option (Option α)
  | none => some none
  | some v => option? f v

/-- A pair, written as an array. -/
def pair? {α β : Type} (f : Json → Option α) (g : Json → Option β) : Json → Option (α × β)
  | .array [x, y] => do return (← f x, ← g y)
  | _ => none

/-! ### Keys -/

/-- **An integer that is the key of a table**: its digits, without leading zeros. -/
def keyWord? {bits : Nat} (key : String) : Option (Word bits) :=
  match key.toList with
  | '0' :: _ :: _ => none
  | cs => (Decimal.ofDigits? cs).bind Word.ofNat?

/-- The word as a number. -/
def ofWord {bits : Nat} (w : Word bits) : Json := .ofNat w.toNat

end Json

/-! ### Tables -/

namespace OrderedMap

variable {κ ν : Type} [Ord κ]

/-- **A map as an object** with a field for each entry, in the order of the keys. -/
def toJson (key : κ → String) (value : ν → Json) (m : OrderedMap κ ν) : Json :=
  .object (m.entries.map fun e => (key e.1, value e.2))

/-- **The map of an object**, whose fields may stand in any order. -/
def ofJson? [Std.TransOrd κ] (key : String → Option κ) (value : Json → Option ν) :
    Json → Option (OrderedMap κ ν)
  | .object fields => do
    let entries ← fields.mapM fun (k, v) => do return (← key k, ← value v)
    return ofList entries
  | _ => none

end OrderedMap

end StakeGovernance
