import StakeGovernance.Json.Tidy
import StakeGovernance.Value.Address

/-!
# What the ledger reports

* `StakeGovernance.StakingEvent` – an observable **change of the ledger**;
* `StakeGovernance.StakingEvent.ofJsonAt?` – the change **at a level** of a JSON value.
-/

namespace StakeGovernance

/-- **An observable change of the ledger.** -/
inductive StakingEvent where
  /-- The amount locked in a bucket of an owner is now this. -/
  | stakeChanged (owner : Address) (bucket : Timestamp) (amount : Amount)
  /-- A bucket whose lock is over was given back to its owner. -/
  | withdrawn (owner : Address) (bucket : Timestamp) (amount : Amount)
  /-- An owner now attributes its live stake to another delegate. -/
  | delegateChanged (owner source target : Address)
deriving DecidableEq

namespace StakingEvent

/-- The account that a change is about. -/
def owner : StakingEvent → Address
  | stakeChanged o _ _ | withdrawn o _ _ | delegateChanged o _ _ => o

/-- A change as JSON: an object whose first field names what it is. -/
def toJson : StakingEvent → Json
  | stakeChanged owner bucket amount =>
    .object [("type", .string "StakeChanged"), ("owner", owner.toJson),
      ("bucket", .ofWord bucket), ("amount", Amount.toJson amount)]
  | withdrawn owner bucket amount =>
    .object [("type", .string "Withdrawn"), ("owner", owner.toJson),
      ("bucket", .ofWord bucket), ("amount", Amount.toJson amount)]
  | delegateChanged owner source target =>
    .object [("type", .string "DelegateChanged"), ("owner", owner.toJson),
      ("from", source.toJson), ("to", target.toJson)]

instance : ToJson StakingEvent := ⟨toJson⟩

/-- The name of a tagged value at a level, and the value without its tag. The tag is a
field, or the first item of an array. As the other fields are kept until the tag is found,
none of them may be such as cannot be kept. -/
def untag? (level : Nat) : Json → Option (String × Json)
  | .object fields =>
    match fields.filter (·.1 = "type") with
    | [(_, .string name)] =>
      if Json.keepsFields (Json.nestingLimit - (level + 1)) fields then
        some (name, .object (fields.filter (·.1 ≠ "type")))
      else none
    | _ => none
  | .array (.string name :: items) => some (name, .array items)
  | _ => none

/-- **The change that a JSON value stands for** which is so many levels below the outermost
one. -/
def ofJsonAt? (level : Nat) (v : Json) : Option StakingEvent := do
  let (name, content) ← untag? level v
  match name with
  | "StakeChanged" =>
    let [owner, bucket, amount] ← content.parts? ["owner", "bucket", "amount"] | none
    return .stakeChanged (← Address.ofJson? owner) (← bucket.word?) (← Amount.ofJson? amount)
  | "Withdrawn" =>
    let [owner, bucket, amount] ← content.parts? ["owner", "bucket", "amount"] | none
    return .withdrawn (← Address.ofJson? owner) (← bucket.word?) (← Amount.ofJson? amount)
  | "DelegateChanged" =>
    let [owner, source, target] ← content.parts? ["owner", "from", "to"] | none
    return .delegateChanged (← Address.ofJson? owner) (← Address.ofJson? source)
      (← Address.ofJson? target)
  | _ => none

instance : FromJson StakingEvent := ⟨ofJsonAt? 0⟩

end StakingEvent

end StakeGovernance
