import StakeGovernance.Staking.Curve
import StakeGovernance.Text.Basic
import StakeGovernance.Value.Address

/-!
# What arguments stand for

An account is given by its address, or by a name from which an address is derived. Two
beginnings are reserved for addresses; a text with one of them is never a name. The end of
a lock is given as a point or as a number of days.

* `StakeGovernance.Address.ofArgument` – the **address of an argument**;
* `StakeGovernance.AccountError` – why an argument is **no account**;
* `StakeGovernance.LockEnd` – the end of a lock, as a **point or a length**;
* `StakeGovernance.LockEnd.resolve` – the **point** that is meant.
-/

namespace StakeGovernance

/-! ### Accounts -/

/-- **Why an argument is no account.** -/
inductive AccountError where
  | empty
  | address (error : ValueError)
deriving DecidableEq, Repr

/-- The wording of an error. -/
def AccountError.message : AccountError → String
  | empty => "account cannot be empty"
  | address e => e.message

/-- Whether a text begins like an address. -/
def Address.isReserved (text : String) : Bool :=
  "lock1".toList.isPrefixOf text.toList || "0x".toList.isPrefixOf text.toList

/-- **The address of an argument.** -/
def Address.ofArgument (argument : String) : Except AccountError Address :=
  let text := trimBlanks argument
  if text = "" then .error .empty
  else if isReserved text then (ofText text).mapError .address
  else .ok (derive (utf8Bytes text))

/-! ### The end of a lock -/

/-- **The end of a lock**: a point in time, or a number of days from now. If both are
given, the point counts. -/
structure LockEnd where
  point : Option Timestamp
  days : Option (Word 64)
deriving DecidableEq

/-- Why the end of a lock cannot be told. -/
inductive LockEndError where
  /-- So many days lead beyond the last point. -/
  | overflow (days : Word 64)
  /-- Nothing is given. -/
  | missing
deriving DecidableEq

/-- The wording of an error. -/
def LockEndError.message : LockEndError → String
  | overflow days => s!"Lock of {days} days overflows"
  | missing => "Either --until or --days is required"

/-- **The point that is meant.** -/
def LockEnd.resolve (e : LockEnd) (now : Timestamp) : Except LockEndError Timestamp :=
  match e.point, e.days with
  | some point, _ => .ok point
  | none, none => .error .missing
  | none, some days =>
    match Word.ofNat? (now.toNat + days.toNat * day) with
    | some point => .ok point
    | none => .error (.overflow days)

end StakeGovernance
