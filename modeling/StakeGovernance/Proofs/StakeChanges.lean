import StakeGovernance.Proofs.Refusals

/-!
# What a request about stakes comes to

The four requests about stakes go the same way. The ledger plans what it is going to write,
unless there is nothing to do; the plan is written and reported; tokens of the owner move with
it, or none; and the owner gets an answer. What a request comes to is said here once for all
four, so that nothing about them has to be read off the calls again.

* `StakeGovernance.Payment` – the **tokens that move** with a request;
* `StakeGovernance.StakeChange` – what a request **comes to**;
* `StakeGovernance.StakeChange.Planned` – what it comes to **on a ledger**;
* `StakeGovernance.Protocol.staking_eq_ok` – a request that succeeds has **come to that**.
-/

namespace StakeGovernance

/-- The owner whose stakes a request is about. -/
def Request.staker? : Request → Option Address
  | .stake owner .. | .extend owner .. | .withdraw owner _ | .delegate owner _ => some owner
  | _ => none

/-- All other requests leave stakes alone. -/
theorem Request.not_movesStakes {request : Request} (h : request.staker? = none) :
    ¬ request.MovesStakes := by
  cases request with
  | stake | extend | withdraw | delegate => cases h
  | propose | vote | queue | execute | cancel | prune => exact id

/-! ### Payments -/

/-- **The tokens of an owner that move** with a request. -/
inductive Payment where
  | nothing
  | deposit (amount : Amount)
  | release (amount : Amount)

namespace Payment

/-- The movement that a payment is. -/
def run {ν : Type} [Custody ν] (owner : Address) : Payment → Call StakingError ν Unit
  | nothing => pure ()
  | deposit amount => Custody.deposit owner amount
  | release amount => Custody.release owner amount

/-- What a payment takes from the balance. -/
def taken : Payment → Nat
  | deposit amount => amount.toNat
  | _ => 0

/-- What a payment gives to the balance. -/
def given : Payment → Nat
  | release amount => amount.toNat
  | _ => 0

variable {owner other : Address} {payment : Payment} {v w u x y : Vault}

/-- **A payment** leaves the vault alone, or moves tokens of its owner. -/
theorem run_eq_ok (h : payment.run owner v = .ok () w) :
    payment = .nothing ∧ w = v ∨
      payment ≠ .nothing ∧ Vault.Moved owner payment.taken payment.given v w := by
  cases payment with
  | nothing => exact Or.inl ⟨rfl, (Call.pure_eq_ok.1 h).2.symm⟩
  | deposit amount => exact Or.inr ⟨nofun, Vault.deposit_moved h⟩
  | release amount => exact Or.inr ⟨nofun, Vault.release_moved h⟩

/-- **Payments of different owners** can be made in either order. -/
theorem run_comm {payment' : Payment} (hne : owner ≠ other) (h : payment.run owner v = .ok () w)
    (hthen : payment'.run other w = .ok () x) (h' : payment'.run other v = .ok () u)
    (hthen' : payment.run owner u = .ok () y) : x = y := by
  rcases run_eq_ok h with ⟨rfl, rfl⟩ | ⟨hpays, hmoved⟩
  · obtain ⟨-, rfl⟩ := Call.pure_eq_ok.1 hthen'
    cases hthen.symm.trans h'
    rfl
  rcases run_eq_ok h' with ⟨rfl, rfl⟩ | ⟨hpays', hmoved'⟩
  · obtain ⟨-, rfl⟩ := Call.pure_eq_ok.1 hthen
    cases h.symm.trans hthen'
    rfl
  obtain ⟨hnone, -⟩ | ⟨-, hnext⟩ := run_eq_ok hthen
  · exact absurd hnone hpays'
  obtain ⟨hnone, -⟩ | ⟨-, hnext'⟩ := run_eq_ok hthen'
  · exact absurd hnone hpays
  exact hmoved.comm hne hnext hmoved' hnext'

end Payment

/-! ### Changes -/

/-- **What a request about stakes comes to.** -/
structure StakeChange where
  response : Response
  /-- What is written, if anything is. -/
  plan : Option Plan
  events : List StakingEvent
  payment : Payment

namespace StakeChange

variable {l m : Ledger} {now : Timestamp} {owner : Address} {request : Request}
  {change : StakeChange}

/-- The ledger after a change, with whatever it has still to report. -/
def ledger (change : StakeChange) (owner : Address) (now : Timestamp) (l : Ledger) : Ledger :=
  match change.plan with
  | some plan => l.written owner plan now
  | none => l

/-- The ledger after a change, and what it reports of it. -/
def reported (change : StakeChange) (owner : Address) (now : Timestamp) (l : Ledger) : Ledger :=
  { change.ledger owner now l with events := l.events ++ change.events }

/-- If the ledger had nothing to report, the events of a change are all that it has. -/
theorem events_reported (change : StakeChange) (hl : l.events = []) :
    (change.reported owner now l).events = change.events := by
  show l.events ++ change.events = change.events
  rw [hl, List.nil_append]

/-- **What a request of an owner comes to on a ledger**, if nothing stands in its way. -/
inductive Planned (l : Ledger) (now : Timestamp) (owner : Address) : Request → StakeChange → Prop
  | stake {amount unlock target planned}
      (h : l.planStake owner amount unlock target now = .ok planned) :
      Planned l now owner (.stake owner amount unlock target)
        ⟨.staked planned.result, some planned.plan, planned.events, .deposit amount⟩
  | extend {source unlock additional planned}
      (h : l.planExtend owner source unlock additional now = .ok planned) :
      Planned l now owner (.extend owner source unlock additional)
        ⟨.staked planned.result, some planned.plan, planned.events,
          if additional.isZero then .nothing else .deposit additional⟩
  | withdraw {bucket planned} (h : l.planWithdraw owner bucket now = .ok planned) :
      Planned l now owner (.withdraw owner bucket)
        ⟨.withdrawn planned.result, some planned.plan, planned.events, .release planned.result⟩
  | delegate {target planned} (h : l.planDelegate owner target now = .ok (some planned)) :
      Planned l now owner (.delegate owner target)
        ⟨.delegated planned.result, some planned.plan, planned.events, .nothing⟩
  /-- The delegate is the one that is asked for. -/
  | unchanged {target} (h : l.planDelegate owner target now = .ok none) :
      Planned l now owner (.delegate owner target) ⟨.delegated none, none, [], .nothing⟩

/-- A request comes to one thing only. -/
theorem Planned.unique {change' : StakeChange} (h : Planned l now owner request change)
    (h' : Planned l now owner request change') : change' = change := by
  cases h with
  | stake h =>
    cases h' with
    | stake h' =>
      cases h.symm.trans h'
      rfl
  | extend h =>
    cases h' with
    | extend h' =>
      cases h.symm.trans h'
      rfl
  | withdraw h =>
    cases h' with
    | withdraw h' =>
      cases h.symm.trans h'
      rfl
  | delegate h =>
    cases h' with
    | delegate h' =>
      cases h.symm.trans h'
      rfl
    | unchanged h' => cases h.symm.trans h'
  | unchanged h =>
    cases h' with
    | delegate h' => cases h.symm.trans h'
    | unchanged _ => rfl

end StakeChange

/-! ### Requests that succeed -/

namespace Protocol

variable {ν : Type} [Custody ν] {p q : Protocol ν} {now : Timestamp} {owner : Address}
  {request : Request} {response : Response}

/-- The protocol after a change has been made on the ledger and the vault, and before anything is
recorded of it. -/
def made (p : Protocol ν) (owner : Address) (now : Timestamp) (change : StakeChange) (v : ν) :
    Protocol ν :=
  ({ p.withLedger (change.reported owner now p.state.ledger) with vault := v }).withClock now

/-- **A request about stakes that succeeds** has been made in time, and what it comes to has been
written, paid, and recorded. -/
theorem staking_eq_ok (hstaker : request.staker? = some owner)
    (h : request.run now p = .ok response q) :
    ∃ change v, StakeChange.Planned p.state.ledger now owner request change ∧
      response = change.response ∧ p.state.clock ≤ now ∧
      change.payment.run owner p.vault = .ok () v ∧
      q = (p.made owner now change v).record now := by
  cases request with
  | stake owner amount unlock target =>
    cases hstaker
    obtain ⟨receipt, hclock, hrest, rfl⟩ := request_eq_ok h
    obtain ⟨r, hcall, rfl⟩ := settled_eq_ok.1 (Call.refuse_eq_ok.1 hrest).2
    obtain ⟨_, v, hl, hv, rfl⟩ := withCustody_eq_ok hcall
    obtain ⟨planned, hplanned, rfl, rfl⟩ := Ledger.planned_eq_ok hl
    exact ⟨_, v, .stake hplanned, rfl, hclock, hv, rfl⟩
  | extend owner source unlock additional =>
    cases hstaker
    obtain ⟨receipt, hclock, hsettled, rfl⟩ := request_eq_ok h
    obtain ⟨r, hcall, rfl⟩ := settled_eq_ok.1 hsettled
    obtain ⟨_, v, hl, hv, rfl⟩ := withCustody_eq_ok hcall
    obtain ⟨planned, hplanned, rfl, rfl⟩ := Ledger.planned_eq_ok hl
    refine ⟨_, v, .extend hplanned, rfl, hclock, ?_, rfl⟩
    split at hv
    · rename_i hzero
      rw [if_pos hzero]
      exact hv
    · rename_i hmore
      rw [if_neg hmore]
      exact hv
  | withdraw owner bucket =>
    cases hstaker
    obtain ⟨released, hclock, hsettled, rfl⟩ := request_eq_ok h
    obtain ⟨r, hcall, rfl⟩ := settled_eq_ok.1 hsettled
    obtain ⟨_, v, hl, hv, rfl⟩ := withCustody_eq_ok hcall
    obtain ⟨planned, hplanned, rfl, rfl⟩ := Ledger.planned_eq_ok hl
    exact ⟨_, v, .withdraw hplanned, rfl, hclock, hv, rfl⟩
  | delegate owner target =>
    cases hstaker
    obtain ⟨previous, hclock, hsettled, rfl⟩ := request_eq_ok h
    obtain ⟨r, hcall, rfl⟩ := settled_eq_ok.1 hsettled
    obtain ⟨l, hl, rfl⟩ := onLedger_eq_ok hcall
    rcases Ledger.delegate_spec owner target now p.state.ledger with
      ⟨hplanned, hspec⟩ | ⟨e, hspec⟩ | ⟨planned, hplanned, hspec⟩
    · cases hl.symm.trans hspec
      refine ⟨_, p.vault, .unchanged hplanned, rfl, hclock, rfl, ?_⟩
      unfold made StakeChange.reported
      rw [List.append_nil]
      rfl
    · cases hl.symm.trans hspec
    · cases hl.symm.trans hspec
      exact ⟨_, p.vault, .delegate hplanned, rfl, hclock, rfl, rfl⟩
  | propose | vote | queue | execute | cancel | prune => cases hstaker

end Protocol

end StakeGovernance
