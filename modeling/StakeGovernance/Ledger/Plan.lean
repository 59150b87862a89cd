import StakeGovernance.Ledger.Basic

/-!
# Planned changes of the ledger

A call on the ledger first works out all it is going to write, on a plan that lies over
the ledger like a sheet of tracing paper: a value is looked up on the plan and, if it is
not there, in the ledger. Every check and every sum happens on the plan, and only a
plan that is complete is written.

* `StakeGovernance.Plan` – the **planned values**;
* `StakeGovernance.Plan.add`, `StakeGovernance.Plan.remove`,
  `StakeGovernance.Plan.redelegate` – the **moves** that calls are made of;
* `StakeGovernance.Ledger.commit` – **writing** a plan, which checks first that no log it
  touches has a checkpoint later than now.
-/

namespace StakeGovernance

/-- A bucket of an account. -/
structure Slot where
  account : Address
  bucket : Timestamp
deriving DecidableEq

namespace Slot

/-- Slots are ordered by account, then by bucket. -/
instance : Ord Slot := ⟨compareLex (compareOn Slot.account) (compareOn Slot.bucket)⟩

instance : Std.OrientedOrd Slot :=
  inferInstanceAs (Std.OrientedCmp (compareLex (compareOn Slot.account) (compareOn Slot.bucket)))

instance : Std.TransOrd Slot :=
  inferInstanceAs (Std.TransCmp (compareLex (compareOn Slot.account) (compareOn Slot.bucket)))

instance : Std.LawfulEqOrd Slot where
  eq_of_compare {a b} h := by
    cases a
    cases b
    obtain ⟨h1, h2⟩ := compareLex_eq_eq.1 h
    cases Std.LawfulEqOrd.eq_of_compare h1
    cases Std.LawfulEqOrd.eq_of_compare h2
    rfl

end Slot

/-- **The values that a call is going to write.** -/
structure Plan where
  /-- New contents of buckets. -/
  stakes : OrderedMap Slot StakePoint
  /-- New amounts attributed to delegatees. -/
  delegated : OrderedMap Slot Amount
  /-- The new total, if it changes. -/
  total : Option Amount
  /-- The new delegate, if it changes. -/
  delegate : Option Address

namespace Plan

/-- Nothing is planned. -/
def empty : Plan := ⟨.empty, .empty, none, none⟩

/-! ### Looking through the plan -/

/-- The content of a bucket as planned. -/
def stakeOf (p : Plan) (l : Ledger) (owner : Address) (bucket : Timestamp) : StakePoint :=
  p.stakes.getD ⟨owner, bucket⟩ (l.latestStake owner bucket)

/-- The amount attributed to a delegatee as planned. -/
def amountOf (p : Plan) (l : Ledger) (delegatee : Address) (bucket : Timestamp) : Amount :=
  p.delegated.getD ⟨delegatee, bucket⟩ (l.delegation.amount delegatee bucket)

/-- The total as planned. -/
def totalOf (p : Plan) (l : Ledger) : Amount := p.total.getD l.total

/-- The plan with the content of a bucket set. -/
def setStake (p : Plan) (owner : Address) (bucket : Timestamp) (stake : StakePoint) : Plan :=
  { p with stakes := p.stakes.insert ⟨owner, bucket⟩ stake }

/-- The plan with an attributed amount set. -/
def setAmount (p : Plan) (delegatee : Address) (bucket : Timestamp) (amount : Amount) : Plan :=
  { p with delegated := p.delegated.insert ⟨delegatee, bucket⟩ amount }

/-! ### Moves -/

/-- Attributes more to a delegatee. -/
def credit (p : Plan) (l : Ledger) (delegatee : Address) (bucket : Timestamp) (amount : Amount) :
    Except StakingError Plan :=
  match (p.amountOf l delegatee bucket).add? amount with
  | some updated => .ok (p.setAmount delegatee bucket updated)
  | none => .error (.attributionOverflow delegatee bucket)

/-- Attributes less to a delegatee. -/
def debit (p : Plan) (l : Ledger) (delegatee : Address) (bucket : Timestamp) (amount : Amount) :
    Except StakingError Plan :=
  let current := p.amountOf l delegatee bucket
  match current.sub? amount with
  | some updated => .ok (p.setAmount delegatee bucket updated)
  | none => .error (.attributionUnderflow current delegatee bucket amount)

/-- **Adds to a bucket**, attributed to `delegate`. What the bucket holds already for
another delegate moves along. The result is the new content of the bucket. -/
def add (p : Plan) (l : Ledger) (owner : Address) (bucket : Timestamp) (amount : Amount)
    (delegate : Address) : Except StakingError (Plan × Amount) := do
  let current := p.stakeOf l owner bucket
  match current.amount.add? amount with
  | none => throw (.stakeOverflow current.amount amount bucket)
  | some staked =>
    let p ←
      -- only an amount that another delegate has must be taken away there first
      if current.delegate = delegate ∨ current.amount.isZero then
        p.credit l delegate bucket amount
      else do
        let p ← p.debit l current.delegate bucket current.amount
        p.credit l delegate bucket staked
    return (p.setStake owner bucket ⟨staked, delegate⟩, staked)

/-- **Empties a bucket.** The result is what it held. -/
def remove (p : Plan) (l : Ledger) (owner : Address) (bucket : Timestamp) :
    Except StakingError (Plan × StakePoint) := do
  let current := p.stakeOf l owner bucket
  let p ← p.debit l current.delegate bucket current.amount
  return (p.setStake owner bucket ⟨.zero, current.delegate⟩, current)

/-- Attributes the content of one bucket to another delegate. -/
def reattribute (l : Ledger) (owner target : Address) (p : Plan) (bucket : Timestamp) :
    Except StakingError Plan := do
  let current := p.stakeOf l owner bucket
  if current.amount.isZero ∨ current.delegate = target then return p
  let p ← p.debit l current.delegate bucket current.amount
  let p ← p.credit l target bucket current.amount
  return p.setStake owner bucket ⟨current.amount, target⟩

/-- **Attributes every bucket of an owner that ends after now to another delegate.** -/
def redelegate (p : Plan) (l : Ledger) (owner target : Address) (now : Timestamp) :
    Except StakingError Plan := do
  let live := ((l.bucketsOf owner).filter fun e => now < e.1).map (·.1)
  let p ← live.foldlM (reattribute l owner target) p
  return { p with delegate := some target }

/-- Adds to the total. -/
def addTotal (p : Plan) (l : Ledger) (amount : Amount) : Except StakingError Plan :=
  let total := p.totalOf l
  match total.add? amount with
  | some updated => .ok { p with total := some updated }
  | none => .error (.totalOverflow total amount)

/-- Takes from the total. -/
def subTotal (p : Plan) (l : Ledger) (amount : Amount) : Except StakingError Plan :=
  let total := p.totalOf l
  match total.sub? amount with
  | some updated => .ok { p with total := some updated }
  | none => .error (.totalUnderflow total amount)

/-- The newest points of all logs that a plan is going to write to. -/
def newestPoints (p : Plan) (l : Ledger) (owner : Address) : List Timestamp :=
  let delegate := p.delegate.bind fun _ => l.delegation.lastChange? owner
  let stakes := p.stakes.keys.map fun s =>
    ((l.checkpoints? s.account s.bucket).bind (·.latest?)).map (·.point)
  let delegated := p.delegated.keys.map fun s => l.delegation.lastAttribution? s.account s.bucket
  let total := p.total.bind fun _ => l.totalLog.latest?.map (·.point)
  (delegate :: (stakes ++ delegated ++ [total])).filterMap id

end Plan

namespace Ledger

/-! ### Writing a plan -/

/-- Writes to the log of a bucket. -/
def writeStake (slot : Slot) (stake : StakePoint) (now : Timestamp) :
    Call StakingError Ledger Unit := do
  let l ← get
  let buckets := l.stakes.getD slot.account .empty
  let log ← (buckets.getD slot.bucket .empty).write now stake
  set { l with stakes := l.stakes.insert slot.account (buckets.insert slot.bucket log) }

/-- Writes to the log of the total. -/
def writeTotal (total : Amount) (now : Timestamp) : Call StakingError Ledger Unit := do
  let l ← get
  let totalLog ← l.totalLog.write now total
  set { l with totalLog, total }

/-- A call on the registry of delegations. -/
def onDelegation {α : Type} (call : Call StakingError Delegation α) :
    Call StakingError Ledger α :=
  Call.part Ledger.delegation (fun delegation l => { l with delegation }) id call

/-- **Writes a plan** at a point. -/
def commit (owner : Address) (plan : Plan) (now : Timestamp) : Call StakingError Ledger Unit := do
  let l ← get
  -- every log is held against the time before the first of them is written
  match (plan.newestPoints l owner).max? with
  | some newest => if now < newest then throw (.recordBehind now newest)
  | none => pure ()
  match plan.delegate with
  | some target => let _ ← onDelegation (Delegation.setDelegate owner target now)
  | none => pure ()
  Call.forEach plan.stakes.entries fun (slot, stake) => writeStake slot stake now
  Call.forEach plan.delegated.entries fun (slot, amount) =>
    onDelegation (Delegation.writeDelegated slot.account slot.bucket now amount)
  match plan.total with
  | some total => writeTotal total now
  | none => pure ()
  modify fun l => { l with lastPoint := now }

/-- Adds to the changes that nobody has taken notice of yet. -/
def emit (events : List StakingEvent) : Call StakingError Ledger Unit :=
  modify fun l => { l with events := l.events ++ events }

end Ledger

end StakeGovernance
