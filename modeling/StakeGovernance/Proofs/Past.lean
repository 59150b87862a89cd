import StakeGovernance.Proofs.Orderly
import StakeGovernance.Proofs.Power

/-!
# The past does not change

What a ledger reads at a point of the past is settled once the clock has gone beyond that
point. A log may have its newest checkpoint replaced, but only by a write at the same point,
and no call writes at a point before the clock; voting power is added up over buckets that
later calls may add to, but these had nothing attributed at the time. So every reading of the
past stays what it was, through whatever operations follow.

* `StakeGovernance.Ledger.SamePast` – two ledgers **read the same** at a point;
* `StakeGovernance.Ledger.Sound.past_unchanged` – no call **changes the past** of a ledger;
* `StakeGovernance.Protocol.Transition.past` – no operation changes it **before the clock**;
* `StakeGovernance.Run.past_is_immutable` – the past is the same **ever after** in a run.
-/

namespace StakeGovernance

/-! ### Pointers -/

namespace Delegation

variable {d : Delegation} {owner : Address} {now point : Timestamp}

/-- The delegate at a point is read off the history of the pointer. -/
theorem delegateAt_eq (d : Delegation) (owner : Address) (point : Timestamp) :
    d.delegateAt owner point = ((d.historyOf owner).valueAt point).getD owner := by
  unfold delegateAt historyOf OrderedMap.getD
  cases d.history.get? owner <;> rfl

/-- **A pointer that moves now** was where it was in the past. -/
theorem delegateAt_pointed (o : Address) (h : (d.historyOf o).OrderedUpTo now)
    (hpoint : point < now) (owner target : Address) :
    (d.pointed owner target now).delegateAt o point = d.delegateAt o point := by
  have hnot : ¬ now ≤ point := Nat.not_le_of_lt hpoint
  rw [delegateAt_eq, delegateAt_eq]
  rcases d.historyOf_pointed owner target now o with hsame | hput
  · rw [hsame]
  · rw [hput, h.valueAt_put, if_neg hnot]

end Delegation

/-! ### Ledgers -/

namespace Ledger

variable {l m k : Ledger} {now point : Timestamp}

/-- **Two ledgers read the same at a point.** -/
structure SamePast (point : Timestamp) (l m : Ledger) : Prop where
  power : ∀ account, m.votingPowerAt account point = l.votingPowerAt account point
  amount : ∀ owner bucket, m.amountAt owner bucket point = l.amountAt owner bucket point
  delegate : ∀ owner, m.delegateAt owner point = l.delegateAt owner point
  attributed : ∀ delegatee bucket, m.delegation.amountAt delegatee bucket point
    = l.delegation.amountAt delegatee bucket point
  total : m.totalStakedAt point = l.totalStakedAt point

theorem SamePast.refl (point : Timestamp) (l : Ledger) : SamePast point l l :=
  ⟨fun _ => rfl, fun _ _ => rfl, fun _ => rfl, fun _ _ => rfl, rfl⟩

theorem SamePast.trans (hlm : SamePast point l m) (hmk : SamePast point m k) :
    SamePast point l k where
  power account := (hmk.power account).trans (hlm.power account)
  amount owner bucket := (hmk.amount owner bucket).trans (hlm.amount owner bucket)
  delegate owner := (hmk.delegate owner).trans (hlm.delegate owner)
  attributed delegatee bucket := (hmk.attributed delegatee bucket).trans
    (hlm.attributed delegatee bucket)
  total := hmk.total.trans hlm.total

/-- Reports are no part of what is read. -/
theorem SamePast.of_silent (h : SamePast point l.silent m.silent) : SamePast point l m :=
  ⟨h.power, h.amount, h.delegate, h.attributed, h.total⟩

/-- The amount in a bucket at a point is the size of the stake that is read there. -/
theorem toNat_amountAt (l : Ledger) (owner : Address) (bucket point : Timestamp) :
    (l.amountAt owner bucket point).toNat
      = BucketLogs.reading StakePoint.size l.stakes owner bucket point := by
  unfold amountAt checkpoints? BucketLogs.reading
  rw [BucketLogs.bind_log rfl]
  cases (BucketLogs.log l.stakes owner bucket).valueAt point <;> rfl

/-- A plan that is written leaves the delegates of the past alone. -/
theorem Sound.delegateAt_written (h : l.Sound) (hclock : l.lastPoint ≤ now) (hpoint : point < now)
    (owner o : Address) (plan : Plan) :
    (l.written owner plan now).delegateAt o point = l.delegateAt o point := by
  have ho := (h.history o).mono hclock
  unfold Ledger.written
  cases plan.delegate with
  | none => rfl
  | some target => exact Delegation.delegateAt_pointed o ho hpoint owner target

/-- **No call changes the past of a ledger**: at an earlier point than its own, everything
reads as before. -/
theorem Sound.past_unchanged (h : l.Sound) (ha : Advances now l m) (hpoint : point < now) :
    SamePast point l m := by
  have hpower := h.votingPowerAt_unchanged ha hpoint
  have hattributed := h.amountAt_unchanged ha hpoint
  have hnot : ¬ now ≤ point := Nat.not_le_of_lt hpoint
  cases ha with
  | stay events => exact ⟨hpower, fun _ _ => rfl, fun _ => rfl, hattributed, rfl⟩
  | write owner plan events hclock hplan =>
    refine ⟨hpower, fun o b => ?_, fun o => ?_, hattributed, ?_⟩
    · refine Word.ext ?_
      rw [toNat_amountAt, toNat_amountAt]
      show BucketLogs.reading _ (l.written owner plan now).stakes o b point = _
      exact (h.stakes_written size_zero hclock o b).trans (if_neg hnot)
    · exact h.delegateAt_written hclock hpoint owner o plan
    · show (l.written owner plan now).totalStakedAt point = _
      exact (h.total_written hclock).trans (if_neg hnot)

end Ledger

/-! ### Operations -/

namespace Protocol

variable {ν : Type} [Custody ν] {config : ProtocolConfig} {p q : Protocol ν} {point : Timestamp}
  {operation : Operation} {outcome : Except GovernanceError Outcome}

/-- **No operation changes what is read before the clock.** -/
theorem Transition.past (ht : Transition p operation outcome q) (hp : p.Orderly config)
    (hpoint : point < p.state.clock) :
    Ledger.SamePast point p.state.ledger q.state.ledger := by
  rcases ht.ledger with hsilent | ⟨hclock, hadvances⟩
  · refine .of_silent ?_
    rw [hsilent]
    exact .refl _ _
  · have hpast := (hp.sound.withEvents []).past_unchanged hadvances
      (Nat.lt_of_lt_of_le hpoint hclock)
    exact ⟨hpast.power, hpast.amount, hpast.delegate, hpast.attributed, hpast.total⟩

end Protocol

/-! ### Runs -/

namespace Run

variable {ν : Type} [Custody ν] {config : ProtocolConfig} {vault : ν} {steps : List (Step ν)}
  {p : Protocol ν} {point : Timestamp}

/-- **Whatever follows leaves the past alone**: the clock only goes forward, so a point before it
stays in the past. -/
theorem samePast (h : Run config vault steps p) (hpoint : point < p.state.clock)
    (operations : List Operation) :
    Ledger.SamePast point p.state.ledger (perform p operations).2.state.ledger := by
  induction operations generalizing steps p with
  | nil => exact .refl _ _
  | cons operation rest ih =>
    have ht := Protocol.transition h.orderly.sound operation
    have hnext : point < (operation.run.after p).state.clock := Nat.lt_of_lt_of_le hpoint ht.ticks
    exact (ht.past h.orderly hpoint).trans (ih (h.step operation) hnext)

/-- **The past is immutable.** Take any state of a run, any operations that follow it, whether
they succeed or fail, and any point before the clock of that state. Voting power, the amounts
of all buckets, the delegates, what is attributed to them bucket by bucket, and the total are
at that point the same afterwards as they were before. -/
theorem past_is_immutable (h : Run config vault steps p) (hpoint : point < p.state.clock)
    (operations : List Operation) :
    let before := p.state.ledger
    let after := (perform p operations).2.state.ledger
    (∀ account, after.votingPowerAt account point = before.votingPowerAt account point) ∧
      (∀ owner bucket, after.amountAt owner bucket point = before.amountAt owner bucket point) ∧
      (∀ owner, after.delegateAt owner point = before.delegateAt owner point) ∧
      (∀ delegatee bucket, after.delegation.amountAt delegatee bucket point
        = before.delegation.amountAt delegatee bucket point) ∧
      after.totalStakedAt point = before.totalStakedAt point := by
  intro before after
  have hpast : Ledger.SamePast point before after := h.samePast hpoint operations
  exact ⟨hpast.power, hpast.amount, hpast.delegate, hpast.attributed, hpast.total⟩

/-- When the account of the small run names a delegate, it keeps the power that it had when it
voted. -/
theorem past_is_immutable_sample :
    let p := (perform Sample.start Sample.operations).2
    let bob : Address := ⟨List.replicate 20 2, rfl⟩
    let q := (perform p [.request (.delegate Sample.alice bob) (.ofNat 50)]).2
    q.state.ledger.delegateOf Sample.alice = bob ∧
      q.state.ledger.delegateAt Sample.alice (.ofNat 25) = Sample.alice ∧
      q.state.ledger.votingPowerAt Sample.alice (.ofNat 25) = .ok (.ofNat 1341) := by
  intro p bob q
  have hclock : Word.ofNat 25 < p.state.clock := by decide +kernel
  obtain ⟨hpower, -, hdelegate, -⟩ := past_is_immutable Sample.run hclock
    [.request (.delegate Sample.alice bob) (.ofNat 50)]
  refine ⟨by decide +kernel, ?_, ?_⟩
  · exact (hdelegate Sample.alice).trans (by decide +kernel)
  · exact (hpower Sample.alice).trans (by decide +kernel)

end Run

end StakeGovernance
