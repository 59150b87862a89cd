/-!
# JSON values

A JSON value keeps everything of a text that can matter to a reader of typed data:
the fields of an object in the order they were written, a key written twice as two
fields, and a number with a fraction or an exponent as the text it was written in,
since no quantity of the protocol is a floating-point number. A text can also hold parts
that are well-formed and denote nothing. They do no harm where nobody looks at them.

* `StakeGovernance.Json` – a **JSON value**;
* `StakeGovernance.Json.field?` – the value of a field;
* `StakeGovernance.Json.ofNat` – a number;
* `StakeGovernance.ToJson`, `StakeGovernance.FromJson` – data that is **written** as JSON
  and data that is **read** from it.
-/

namespace StakeGovernance

/-- **A JSON value.** -/
inductive Json where
  | null
  | bool (value : Bool)
  /-- A number written as an integer. -/
  | int (value : Int)
  /-- Any other number, as it was written. Minus zero is one of them. -/
  | decimal (text : String)
  | string (value : String)
  | array (items : List Json)
  | object (fields : List (String × Json))
  /-- What denotes no value: a literal with half a pair of surrogates, or an object with
  such a key. It can be passed over, and that is all. -/
  | unreadable
deriving Inhabited

namespace Json

/-- A natural number. -/
def ofNat (n : Nat) : Json := .int n

/-- A value or, where there is none, `null`. -/
def ofOption {α : Type} (f : α → Json) : Option α → Json
  | none => .null
  | some a => f a

/-- The value of the first field of that name. -/
def field? (name : String) : Json → Option Json
  | .object fields => fields.lookup name
  | _ => none

/-! ### Equality -/

mutual

/-- Whether two values are the same, field order included. -/
def same : Json → Json → Bool
  | .null, .null => true
  | .bool a, .bool b => a == b
  | .int a, .int b => a == b
  | .decimal a, .decimal b => a == b
  | .string a, .string b => a == b
  | .array xs, .array ys => sameItems xs ys
  | .object fs, .object gs => sameFields fs gs
  | .unreadable, .unreadable => true
  | _, _ => false

/-- Whether two lists of values are the same. -/
def sameItems : List Json → List Json → Bool
  | [], [] => true
  | x :: xs, y :: ys => same x y && sameItems xs ys
  | _, _ => false

/-- Whether two lists of fields are the same. -/
def sameFields : List (String × Json) → List (String × Json) → Bool
  | [], [] => true
  | (k, x) :: fs, (l, y) :: gs => k == l && same x y && sameFields fs gs
  | _, _ => false

end

instance : BEq Json := ⟨same⟩

end Json

/-! ### Data -/

/-- **Data that is written as JSON.** -/
class ToJson (α : Type) where
  toJson : α → Json

/-- **Data that is read from JSON**, if the value stands for any. -/
class FromJson (α : Type) where
  ofJson? : Json → Option α

end StakeGovernance
