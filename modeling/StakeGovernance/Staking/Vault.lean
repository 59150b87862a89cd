import StakeGovernance.Call
import StakeGovernance.Json.Record
import StakeGovernance.Staking.Error

/-!
# Custody of tokens

The ledger only accounts for locked amounts; a vault moves the tokens. A deposit takes
them out of an account's balance into custody, a release gives them back, and a
transfer moves balance between accounts.

* `StakeGovernance.Custody` – what a **vault** can do;
* `StakeGovernance.Vault` – a vault that is a **table of balances**.
-/

namespace StakeGovernance

/-- **What a vault can do.** -/
class Custody (ν : Type) where
  /-- The balance that an account can spend. -/
  balanceOf : ν → Address → Amount
  /-- The amount held for all stakers. -/
  held : ν → Amount
  /-- Takes an amount into custody. -/
  deposit : Address → Amount → Call StakingError ν Unit
  /-- Gives an amount out of custody. -/
  release : Address → Amount → Call StakingError ν Unit
  /-- Moves balance from one account to another. -/
  transfer : Address → Address → Amount → Call StakingError ν Unit

/-- **A table of balances**, and the amount in custody. -/
structure Vault where
  balances : OrderedMap Address Amount
  held : Amount
deriving DecidableEq

namespace Vault

/-- The vault without any token. -/
def empty : Vault := ⟨.empty, .zero⟩

instance : Inhabited Vault := ⟨empty⟩

/-- The balance of an account, zero if it has none. -/
def balanceOf (v : Vault) (account : Address) : Amount := v.balances.getD account .zero

/-- Sets the balance of an account. -/
def setBalance (account : Address) (balance : Amount) : Call StakingError Vault Unit :=
  modify fun v => { v with balances := v.balances.insert account balance }

/-- The sum of two amounts, or an error. -/
def plus (a b : Amount) : Except StakingError Amount :=
  (Amount.add a b).mapError .value

/-- Adds to a balance. -/
def credit (account : Address) (amount : Amount) : Call StakingError Vault Unit := do
  let balance ← plus ((← get).balanceOf account) amount
  setBalance account balance

/-- Takes from a balance. -/
def debit (account : Address) (amount : Amount) : Call StakingError Vault Unit := do
  let balance := (← get).balanceOf account
  match balance.sub? amount with
  | none => throw (.balanceShort account balance amount)
  | some rest => setBalance account rest

/-- Adds an amount that comes from nowhere, as the first allocations do. -/
def mint (account : Address) (amount : Amount) : Call StakingError Vault Unit :=
  credit account amount

/-- Makes several allocations, in order. -/
def allocate (allocations : List (Address × Amount)) : Call StakingError Vault Unit :=
  Call.forEach allocations fun (account, amount) => mint account amount

/-- Takes an amount into custody. -/
def deposit (owner : Address) (amount : Amount) : Call StakingError Vault Unit := do
  -- the sum in custody is checked before anything is taken
  let held ← plus (← get).held amount
  debit owner amount
  modify fun v => { v with held }

/-- Gives an amount out of custody. -/
def release (owner : Address) (amount : Amount) : Call StakingError Vault Unit := do
  let before := (← get).held
  match before.sub? amount with
  | none => throw (.custodyShort amount before)
  | some held =>
    credit owner amount
    modify fun v => { v with held }

/-- Moves balance from one account to another. The side that receives is checked first,
so that a transfer that fails changes neither side. -/
def transfer (source target : Address) (amount : Amount) : Call StakingError Vault Unit := do
  if source = target then return ()
  let _ ← plus ((← get).balanceOf target) amount
  debit source amount
  credit target amount

instance : Custody Vault where
  balanceOf := balanceOf
  held := held
  deposit := deposit
  release := release
  transfer := transfer

/-! ### JSON -/

/-- A vault as JSON. -/
def toJson (v : Vault) : Json :=
  .object [("balances", v.balances.toJson Address.toHexText Amount.toJson),
    ("held", Amount.toJson v.held)]

instance : ToJson Vault := ⟨toJson⟩

/-- The vault that a JSON value stands for. -/
def ofJson? (v : Json) : Option Vault := do
  let [balances, held] ← v.parts? ["balances", "held"] | none
  return ⟨← OrderedMap.ofJson? Address.ofKey? Amount.ofJson? balances, ← Amount.ofJson? held⟩

instance : FromJson Vault := ⟨ofJson?⟩

end Vault

end StakeGovernance
