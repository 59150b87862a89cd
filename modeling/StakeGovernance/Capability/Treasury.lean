import StakeGovernance.Proposal.Command
import StakeGovernance.Protocol.Report
import StakeGovernance.Staking.Vault

/-!
# Treasuries

A treasury is an account of the vault that pays out by proposal, and may refuse single
payments above a limit.

* `StakeGovernance.Treasury` – the **handler** of such an account;
* `StakeGovernance.Treasury.handle` – **carries a command out**.
-/

namespace StakeGovernance

/-- **A treasury.** -/
structure Treasury where
  account : Address
  /-- The largest single payment, if there is a limit. -/
  cap : Option Amount
deriving DecidableEq

namespace Treasury

/-- The short name of a handler. -/
def name (t : Treasury) : String :=
  match t.cap with
  | some _ => "treasury-capped"
  | none => "treasury"

/-- Checks a payment against the limit. -/
def checkCap (t : Treasury) (amount : Amount) : Except ActionFault Unit :=
  match t.cap with
  | some cap => if cap < amount then .error (.aboveCap amount cap) else .ok ()
  | none => .ok ()

/-- Pays an amount out. -/
def pay {ν : Type} [Custody ν] (t : Treasury) (target : Address) (amount : Amount) :
    Call ActionFault ν ActionOutput := do
  if target.isZero then throw .transferToZero
  t.checkCap amount
  Call.part id (fun v _ => v) .vault (Custody.transfer t.account target amount)
  return .transferred t.account target amount

/-- **Carries a command out.** A treasury knows payments only. -/
def handle {ν : Type} [Custody ν] (t : Treasury) : Command → Call ActionFault ν ActionOutput
  | .treasuryTransfer target amount => t.pay target amount
  | command => throw (.unsupported t.name command.signature)

end Treasury

end StakeGovernance
