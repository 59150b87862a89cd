import StakeGovernance.Json.Record
import StakeGovernance.Text.Bech32
import StakeGovernance.Text.Hex

/-!
# Kinds of errors, and errors of values

Every error of the program belongs to one kind, so that a caller can decide how to
react without knowing where it arose. The errors of the elementary values – addresses,
digests and amounts – say which rule a text or a row of bytes breaks.

* `StakeGovernance.ErrorKind` – the **kinds of errors**;
* `StakeGovernance.ValueError` – the **errors of elementary values**, with
  `StakeGovernance.ValueError.kind` and `StakeGovernance.ValueError.message`.
-/

namespace StakeGovernance

/-! ### Kinds -/

/-- **The kinds of errors.** -/
inductive ErrorKind where
  /-- A zero address or amount, a malformed list of actions. -/
  | invalidParameter
  /-- The caller lacks a role or voting power. -/
  | unauthorized
  /-- An operation outside its time window. -/
  | temporalViolation
  /-- A second vote, an action queued twice, a proposal that is settled. -/
  | stateConflict
  /-- A fixed width exceeded. -/
  | overflow
  /-- A subtraction below zero. -/
  | underflow
  /-- A dispatched action failed. -/
  | executionFailed
  /-- An identifier that nothing has. -/
  | notFound
  /-- A failure of the store. -/
  | storage
deriving DecidableEq, Repr

namespace ErrorKind

/-- Every kind. -/
def all : List ErrorKind :=
  [invalidParameter, unauthorized, temporalViolation, stateConflict, overflow, underflow,
    executionFailed, notFound, storage]

/-- The name of a kind in data. -/
def name : ErrorKind → String
  | invalidParameter => "InvalidParameter"
  | unauthorized => "Unauthorized"
  | temporalViolation => "TemporalViolation"
  | stateConflict => "StateConflict"
  | overflow => "Overflow"
  | underflow => "Underflow"
  | executionFailed => "ExecutionFailed"
  | notFound => "NotFound"
  | storage => "Storage"

/-- The wording of a kind in messages. -/
def label : ErrorKind → String
  | invalidParameter => "invalid parameter"
  | unauthorized => "unauthorized"
  | temporalViolation => "temporal violation"
  | stateConflict => "state conflict"
  | overflow => "overflow"
  | underflow => "underflow"
  | executionFailed => "execution failed"
  | notFound => "not found"
  | storage => "storage"

/-- The kind of that name. -/
def ofName? (name : String) : Option ErrorKind := all.find? fun k => k.name = name

/-- A kind as JSON. -/
def toJson (k : ErrorKind) : Json := .string k.name

instance : ToJson ErrorKind := ⟨toJson⟩

/-- The kind that a JSON value stands for. -/
def ofJson? (v : Json) : Option ErrorKind := v.unitVariant?.bind ofName?

instance : FromJson ErrorKind := ⟨ofJson?⟩

end ErrorKind

/-! ### Errors of values -/

/-- **The errors of elementary values.** -/
inductive ValueError where
  /-- A text is in none of the forms of an address. -/
  | addressFormat (text : String)
  /-- An address is written for another system. -/
  | addressPrefix (found : String)
  /-- A number of bytes that makes no address. -/
  | addressLength (found : Nat)
  /-- A number of bytes that makes no digest. -/
  | digestLength (found : Nat)
  /-- An amount that does not fit. -/
  | amountOverflow
  /-- An amount below zero. -/
  | amountUnderflow
  /-- A text that is no amount. -/
  | amountFormat (text : String)
  /-- A text that is not hexadecimal. -/
  | hex (error : Hex.Error)
  /-- A text that is not Bech32. -/
  | bech32 (error : Bech32.Error)
deriving DecidableEq, Repr

namespace ValueError

/-- The kind of an error. -/
def kind : ValueError → ErrorKind
  | amountOverflow => .overflow
  | amountUnderflow => .underflow
  | _ => .invalidParameter

/-- The name of an error, for programs that tell errors apart. -/
def name : ValueError → String
  | addressFormat _ | addressPrefix _ => "InvalidAddressFormat"
  | addressLength _ => "InvalidAddressLength"
  | digestLength _ => "InvalidHashLength"
  | amountOverflow => "AmountOverflow"
  | amountUnderflow => "AmountUnderflow"
  | amountFormat _ => "InvalidAmountString"
  | hex _ => "InvalidHex"
  | bech32 _ => "Bech32Error"

/-- The wording of an error. -/
def message : ValueError → String
  | addressFormat text => "Invalid address format: " ++ text
  | addressPrefix found =>
    "Invalid address format: Invalid HRP: expected 'lock', got '" ++ found ++ "'"
  | addressLength found => "Invalid address length: expected 20, got " ++ toString found
  | digestLength found => "Invalid hash length: expected 32, got " ++ toString found
  | amountOverflow => "Amount overflow"
  | amountUnderflow => "Amount underflow"
  | amountFormat text => "Invalid amount string: " ++ text
  | hex e => "Invalid hex: " ++ e.message
  | bech32 e => "Bech32 error: " ++ e.message

end ValueError

end StakeGovernance
