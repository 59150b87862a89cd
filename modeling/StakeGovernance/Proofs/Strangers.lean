import StakeGovernance.Proofs.Interchange
import StakeGovernance.Proofs.Pointers

/-!
# Strangers

A call moves the stake of one owner, and its power from the delegate that the owner had to the
one that it has now. It writes to the logs of others as well: a withdrawal takes an amount from
whoever it was attributed to when the bucket ended, who need not be the delegate of the owner
any more. But a bucket that has ended counts for nothing, and a bucket that has not ended is
attributed to the delegate of its owner; so power is the same for everyone but those two.

* `StakeGovernance.Ledger.Spares` – a call **spares all others** than its owner and the two
  delegates of the owner;
* `StakeGovernance.Plan.Due` – what all **calls of an owner plan**;
* `StakeGovernance.Plan.Due.amountAt_eq` – what is attributed to **a stranger in live buckets**
  stays what it was;
* `StakeGovernance.Ledger.Reachable.strangers_spared` – **every call** spares all others.
-/

namespace StakeGovernance

variable {l m : Ledger} {owner other target account : Address} {bucket now point : Timestamp}
  {plan : Plan}

/-- A stake that names a delegate is no part of what anyone else is attributed. -/
theorem StakePoint.Names.share_eq_zero {s : StakePoint} {delegate : Address} (h : s.Names delegate)
    (hne : account ≠ delegate) : s.share account = 0 := by
  by_cases hamount : s.amount.toNat = 0
  · exact share_of_amount hamount account
  · exact if_neg fun heq => hne (heq.trans (h hamount))

/-- A pointer that moves leaves the history of every other one alone. -/
theorem Delegation.historyOf_pointed_of_ne (d : Delegation) (hne : other ≠ owner) (target : Address)
    (now : Timestamp) : (d.pointed owner target now).historyOf other = d.historyOf other := by
  by_cases hsame : d.delegateOf owner = target
  · rw [show d.pointed owner target now = d from if_pos hsame]
  · rw [pointed_of_ne hsame]
    exact (OrderedMap.getD_insert_eq ..).trans (if_neg hne)

/-! ### Others -/

namespace Ledger

/-- **A call of an owner spares all others.** Who is the delegate of the owner neither before
nor after it has the same voting power at every point; every other owner has the same positions
and the same logs, and the same delegate, now and at every point. -/
structure Spares (owner : Address) (l m : Ledger) : Prop where
  power : ∀ account, account ≠ l.delegateOf owner → account ≠ m.delegateOf owner →
    ∀ point, m.votingPowerAt account point = l.votingPowerAt account point
  positions : ∀ other, other ≠ owner → m.positions other = l.positions other
  checkpoints : ∀ other, other ≠ owner →
    ∀ bucket, m.checkpoints? other bucket = l.checkpoints? other bucket
  delegateOf : ∀ other, other ≠ owner → m.delegateOf other = l.delegateOf other
  delegateAt : ∀ other, other ≠ owner →
    ∀ point, m.delegateAt other point = l.delegateAt other point

theorem Spares.refl (owner : Address) (l : Ledger) : Spares owner l l :=
  ⟨fun _ _ _ _ => rfl, fun _ _ => rfl, fun _ _ _ => rfl, fun _ _ => rfl, fun _ _ _ => rfl⟩

/-- Reports are no part of what others have. -/
theorem Spares.withEvents (h : Spares owner l m) (events : List StakingEvent) :
    Spares owner l { m with events } :=
  ⟨h.power, h.positions, h.checkpoints, h.delegateOf, h.delegateAt⟩

/-- **Stake that is still locked is the power of one delegate**: in a bucket that ends later,
nobody but the delegate of the owner has a share from the latest point on. -/
theorem Faithful.reading_share_eq_zero (h : l.Faithful) (hpoint : l.lastPoint ≤ point)
    (hlive : point < bucket) (hne : account ≠ l.delegateOf owner) :
    BucketLogs.reading (StakePoint.share account) l.stakes owner bucket point = 0 := by
  unfold BucketLogs.reading
  rcases hread : (BucketLogs.log l.stakes owner bucket).valueAt point with _ | stake
  · rfl
  · have hnames := h.stakes owner bucket point stake hlive hread
    rw [h.pointer owner point hpoint] at hnames
    exact hnames.share_eq_zero hne

/-- An owner with the same logs has the same in each bucket. -/
theorem SameFor.reading_eq (h : SameFor other l m) (f : StakePoint → Nat)
    (bucket point : Timestamp) :
    BucketLogs.reading f m.stakes other bucket point
      = BucketLogs.reading f l.stakes other bucket point := by
  unfold BucketLogs.reading BucketLogs.log OrderedMap.getD
  rw [h.stakes]

/-- **The delegates of others** are where they were at every point, whatever one owner writes. -/
theorem delegateAt_written_of_ne (l : Ledger) (hne : other ≠ owner) (plan : Plan) (now : Timestamp)
    (point : Timestamp) :
    (l.written owner plan now).delegateAt other point = l.delegateAt other point := by
  have hhistory : (l.written owner plan now).delegation.historyOf other
      = l.delegation.historyOf other := by
    obtain ⟨stakes, delegated, total, delegate⟩ := plan
    rcases delegate with _ | target
    · rfl
    · exact l.delegation.historyOf_pointed_of_ne hne target now
  unfold delegateAt
  rw [Delegation.delegateAt_eq, Delegation.delegateAt_eq, hhistory]

end Ledger

/-! ### Plans -/

namespace Plan

/-- **What a call of an owner plans**: it is planned at a point that the ledger has not passed,
it is in balance, it changes the stakes of the owner only, and all live stake on it names the
delegate that its owner will have. -/
structure Due (plan : Plan) (l : Ledger) (owner : Address) (now : Timestamp) : Prop where
  clock : l.lastPoint ≤ now
  balanced : plan.Balanced l
  alike : plan.Alike owner plan
  names : plan.Names l now (plan.pointer l owner)

variable (hl : l.Sound) (hfaithful : l.Faithful) (h : plan.Due l owner now)

include hl h in
theorem Due.sound : (l.written owner plan now).Sound := hl.written h.clock h.balanced

include hl hfaithful h

theorem Due.faithful : (l.written owner plan now).Faithful :=
  hfaithful.written hl h.clock h.names

/-- **What a stranger is attributed** in a bucket that ends after a point is the same there: in
the past nothing has changed, and from now on the owner has no part in it. -/
theorem Due.amountAt_eq (hbefore : account ≠ l.delegateOf owner)
    (hafter : account ≠ (l.written owner plan now).delegateOf owner) (hlive : point < bucket) :
    (l.written owner plan now).delegation.amountAt account bucket point
      = l.delegation.amountAt account bucket point := by
  by_cases hpoint : now ≤ point
  · refine Word.ext ?_
    rw [Ledger.amountAt_eq, Ledger.amountAt_eq, (h.sound hl).attributed, hl.attributed]
    -- the shares are the same owner by owner, and those of the owner of the plan are nothing
    refine Finset.sum_congr rfl fun o _ => ?_
    by_cases ho : o = owner
    · subst ho
      rw [(h.faithful hl hfaithful).reading_share_eq_zero hpoint hlive hafter,
        hfaithful.reading_share_eq_zero (Nat.le_trans h.clock hpoint) hlive hbefore]
    · exact (Ledger.sameFor_written h.alike (Ne.symm ho) l now).reading_eq _ bucket point
  · exact hl.amountAt_unchanged (.write owner plan l.events h.clock h.balanced)
      (Nat.lt_of_not_le hpoint) account bucket

/-- **What a call of an owner plans spares all others.** -/
theorem Due.spares : Ledger.Spares owner l (l.written owner plan now) := by
  have hsame : ∀ other, other ≠ owner → Ledger.SameFor other l (l.written owner plan now) :=
    fun other hne => Ledger.sameFor_written h.alike (Ne.symm hne) l now
  constructor
  · intro account hbefore hafter point
    exact hl.votingPowerAt_congr (h.sound hl) rfl fun b hlive =>
      h.amountAt_eq hl hfaithful hbefore hafter hlive
  · intro other hne
    unfold Ledger.positions
    rw [(hsame other hne).bucketsOf]
  · intro other hne bucket
    unfold Ledger.checkpoints?
    rw [(hsame other hne).stakes]
  · intro other hne
    exact (hsame other hne).delegate
  · intro other hne point
    exact l.delegateAt_written_of_ne hne plan now point

end Plan

/-! ### Calls -/

namespace Ledger

variable {amount additional : Amount} {source unlock : Timestamp}

section Due

variable (hl : l.Sound) (hfaithful : l.Faithful)

include hl hfaithful

theorem due_planStake {planned : Planned StakeReceipt}
    (h : l.planStake owner amount unlock target now = .ok planned) :
    planned.plan.Due l owner now := by
  obtain ⟨hbalanced, hclock, -⟩ := planStake_spec hl.balanced h
  exact ⟨hclock, hbalanced, ((SameFor.refl owner l).planStake h h).plan,
    names_planStake h (hfaithful.names hl hclock)⟩

theorem due_planExtend {planned : Planned StakeReceipt}
    (h : l.planExtend owner source unlock additional now = .ok planned) :
    planned.plan.Due l owner now := by
  obtain ⟨hbalanced, hclock, -⟩ := planExtend_spec hl.balanced h
  exact ⟨hclock, hbalanced, ((SameFor.refl owner l).planExtend h h).plan,
    names_planExtend h (hfaithful.names hl hclock)⟩

theorem due_planWithdraw {planned : Planned Amount}
    (h : l.planWithdraw owner bucket now = .ok planned) : planned.plan.Due l owner now := by
  obtain ⟨hbalanced, hclock, -⟩ := planWithdraw_spec hl.balanced h
  exact ⟨hclock, hbalanced, ((SameFor.refl owner l).planWithdraw h h).plan,
    names_planWithdraw h (hfaithful.names hl hclock)⟩

theorem due_planDelegate {planned : Planned (Option Address)}
    (h : l.planDelegate owner target now = .ok (some planned)) : planned.plan.Due l owner now := by
  obtain ⟨hbalanced, hclock, -⟩ := planDelegate_spec hl.balanced h
  obtain ⟨-, -, hredelegate, -⟩ := planDelegate_eq_ok h
  exact ⟨hclock, hbalanced, ((SameFor.refl owner l).planDelegate h h).plan,
    Plan.names_redelegate hredelegate (hfaithful.names hl hclock)⟩

end Due

/-- **No call changes what strangers have.** Take any ledger that calls lead to, and any stake,
extension, withdrawal or delegation of an owner that succeeds on it. An account that is the
delegate of the owner neither before nor after the call has the same voting power as before, at
every point, also if amounts were taken from it; and no other owner has other positions, other
logs, or another delegate than before, now or at any point. -/
theorem Reachable.strangers_spared {params : StakingParams} (h : Reachable params l)
    (owner : Address) (now : Timestamp) :
    (∀ amount unlock target receipt m,
      stake owner amount unlock target now l = .ok receipt m → Spares owner l m) ∧
    (∀ source unlock additional receipt m,
      extend owner source unlock additional now l = .ok receipt m → Spares owner l m) ∧
    (∀ bucket released m, withdraw owner bucket now l = .ok released m → Spares owner l m) ∧
    ∀ target previous m, delegate owner target now l = .ok previous m → Spares owner l m := by
  refine ⟨?stake, ?extend, ?withdraw, ?delegate⟩
  case stake =>
    rintro amount unlock target receipt m hcall
    obtain ⟨planned, hplanned, -, rfl⟩ := planned_eq_ok hcall
    exact ((due_planStake h.sound h.faithful hplanned).spares h.sound h.faithful).withEvents _
  case extend =>
    rintro source unlock additional receipt m hcall
    obtain ⟨planned, hplanned, -, rfl⟩ := planned_eq_ok hcall
    exact ((due_planExtend h.sound h.faithful hplanned).spares h.sound h.faithful).withEvents _
  case withdraw =>
    rintro bucket released m hcall
    obtain ⟨planned, hplanned, -, rfl⟩ := planned_eq_ok hcall
    exact ((due_planWithdraw h.sound h.faithful hplanned).spares h.sound h.faithful).withEvents _
  case delegate =>
    rintro target previous m hcall
    rcases delegate_spec owner target now l with
      ⟨-, hspec⟩ | ⟨e, hspec⟩ | ⟨planned, hplanned, hspec⟩
    · cases hcall.symm.trans hspec
      exact .refl owner l
    · cases hcall.symm.trans hspec
    · cases hcall.symm.trans hspec
      exact ((due_planDelegate h.sound h.faithful hplanned).spares h.sound h.faithful).withEvents _

/-- The first delegate of a stake is neither the old delegate nor the new one when the stake is
withdrawn, long after the owner has named a second one. What is withdrawn is taken from the
first one all the same, and its power is the same at every point. -/
theorem strangers_spared_of_withdrawal :
    let alice : Address := ⟨List.replicate 20 1, rfl⟩
    let bob : Address := ⟨List.replicate 20 2, rfl⟩
    let carol : Address := ⟨List.replicate 20 3, rfl⟩
    let bucket : Timestamp := .ofNat (98 * day)
    let now : Timestamp := .ofNat (100 * day)
    let moves : List Move := [
      .stake alice (Word.ofNat 1000) (.ofNat (100 * day)) bob (.ofNat 10),
      .delegate alice carol (.ofNat (99 * day))]
    let l := moves.foldl (fun l move => move.apply l) (empty .default)
    let m := (withdraw alice bucket now).after l
    l.delegation.amount bob bucket = Word.ofNat 1000 ∧ m.delegation.amount bob bucket = .zero ∧
      l.delegateOf alice = carol ∧ m.delegateOf alice = carol ∧
      ∀ point, m.votingPowerAt bob point = l.votingPowerAt bob point := by
  intro alice bob carol bucket now moves l m
  have hl : Reachable .default l := (Reachable.create (by rfl)).moves moves
  have hcall : ((withdraw alice bucket now).runFrom l).1 = .ok (Word.ofNat 1000) := by
    decide +kernel
  obtain ⟨-, -, hwithdraw, -⟩ := hl.strangers_spared alice now
  have hspares : Spares alice l m :=
    hwithdraw bucket (Word.ofNat 1000) m (Call.eq_ok_of_runFrom hcall)
  exact ⟨by decide +kernel, by decide +kernel, by decide +kernel, by decide +kernel,
    hspares.power bob (by decide +kernel) (by decide +kernel)⟩

end Ledger

end StakeGovernance
