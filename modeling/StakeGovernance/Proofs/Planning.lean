import StakeGovernance.Proofs.Commit
import StakeGovernance.Proofs.Plans

/-!
# What calls on the ledger plan

Every call on the ledger either fails and leaves it alone, or writes a plan. Against a
ledger whose books are in balance the plan is in balance as well, and its total has moved
by exactly what the call adds or gives back.

* `StakeGovernance.Plan.Balanced` – the **books of a plan** agree;
* `StakeGovernance.Ledger.planStake_eq_ok`, `StakeGovernance.Ledger.planExtend_eq_ok`,
  `StakeGovernance.Ledger.planWithdraw_eq_ok`, `StakeGovernance.Ledger.planDelegate_eq_ok` –
  the **checks and moves** of each call;
* `StakeGovernance.Ledger.planStake_spec`, `StakeGovernance.Ledger.planExtend_spec`,
  `StakeGovernance.Ledger.planWithdraw_spec`, `StakeGovernance.Ledger.planDelegate_spec` –
  what each call plans is **in balance**;
* `StakeGovernance.Ledger.planned_spec` – what **becomes of a plan**.
-/

namespace StakeGovernance

/-- **The books of a plan agree**: stakes and attributed amounts are in balance, and the
total is the sum of all stakes. -/
structure Plan.Balanced (p : Plan) (l : Ledger) : Prop where
  attributed : p.Attributed l
  counted : (p.totalOf l).toNat = p.volume l

namespace Plan

variable {p q : Plan} {l : Ledger} {amount : Amount}

/-- A plan without a new total has the total of the ledger. -/
theorem totalOf_of_none (h : p.total = none) : p.totalOf l = l.total := by
  unfold totalOf
  rw [h]
  rfl

/-- Plans with the same stakes and attributed amounts have the same balance. -/
theorem Attributed.of_eq (h : p.Attributed l) (hstakes : q.stakes = p.stakes)
    (hdelegated : q.delegated = p.delegated) : q.Attributed l := by
  intro d b
  have hp := h d b
  unfold amountOf stakeOf at hp ⊢
  rwa [hstakes, hdelegated]

theorem volume_of_eq (hstakes : q.stakes = p.stakes) : q.volume l = p.volume l := by
  unfold volume stakeOf
  rw [hstakes]

/-- The total of a plan follows its stakes. -/
theorem balanced_addTotal (hattributed : p.Attributed l)
    (hvolume : p.volume l = (p.totalOf l).toNat + amount.toNat)
    (h : p.addTotal l amount = .ok q) : q.Balanced l := by
  obtain ⟨hstakes, hdelegated, htotal⟩ := addTotal_spec h
  refine ⟨hattributed.of_eq hstakes hdelegated, ?_⟩
  rw [htotal, volume_of_eq hstakes, hvolume]

theorem balanced_subTotal (hattributed : p.Attributed l)
    (hvolume : p.volume l + amount.toNat = (p.totalOf l).toNat)
    (h : p.subTotal l amount = .ok q) : q.Balanced l := by
  obtain ⟨hstakes, hdelegated, htotal⟩ := subTotal_spec h
  refine ⟨hattributed.of_eq hstakes hdelegated, ?_⟩
  rw [volume_of_eq hstakes]
  omega

end Plan

namespace Ledger

variable {l m : Ledger} {owner target : Address} {source bucket unlock now : Timestamp}
  {amount additional : Amount}

theorem checkClock_eq_ok {u : Unit} : l.checkClock now = .ok u ↔ l.lastPoint ≤ now := by
  unfold checkClock
  split
  · rename_i h
    have h : now.toNat < l.lastPoint.toNat := h
    constructor
    · intro e
      cases e
    · intro e
      have e : l.lastPoint.toNat ≤ now.toNat := e
      omega
  · rename_i h
    exact ⟨fun _ => Nat.le_of_not_lt h, fun _ => rfl⟩

/-- **The bucket of a lock** is the requested end rounded down, if that is after now and no further
off than the longest lock. -/
theorem lockBucket_eq_ok : l.lockBucket unlock now = .ok bucket ↔
    l.quantize unlock = bucket ∧ now < bucket ∧
      bucket.toNat ≤ now.toNat + l.params.curve.maxDuration.toNat := by
  unfold lockBucket
  simp only
  split
  · rename_i hended
    constructor
    · rintro ⟨⟩
    · rintro ⟨rfl, hlive, -⟩
      exact absurd hended (Nat.not_le.2 hlive)
  split
  · rename_i hlong
    constructor
    · rintro ⟨⟩
    · rintro ⟨rfl, -, hle⟩
      exact absurd hle (Nat.not_le.2 (Nat.add_lt_of_lt_sub' hlong))
  · rename_i hended hlong
    have hle : (l.quantize unlock).toNat - now.toNat ≤ l.params.curve.maxDuration.toNat :=
      Nat.not_lt.1 hlong
    constructor
    · intro h
      cases h
      exact ⟨rfl, Nat.lt_of_not_le hended, Nat.sub_le_iff_le_add'.1 hle⟩
    · rintro ⟨rfl, -⟩
      rfl

/-! ### What a call has planned

Each call is read backwards once, with the checks that it has passed; what follows is said
about the moves that it has made. -/

theorem planStake_eq_ok {planned : Planned StakeReceipt}
    (h : l.planStake owner amount unlock target now = .ok planned) :
    ∃ bucket p p' staked, l.lastPoint ≤ now ∧ l.lockBucket unlock now = .ok bucket ∧
      (∀ latest, l.latestLiveBucket? owner now = some latest → latest ≤ bucket) ∧
      (if target = l.delegateOf owner then pure Plan.empty
        else Plan.empty.redelegate l owner target now) = .ok p ∧
      p.add l owner bucket amount target = .ok (p', staked) ∧
      p'.addTotal l amount = .ok planned.plan ∧
      planned.result = ⟨owner, bucket, staked⟩ ∧
      planned.events = (if target = l.delegateOf owner then []
        else [.delegateChanged owner (l.delegateOf owner) target])
          ++ [.stakeChanged owner bucket staked] := by
  obtain ⟨-, h⟩ := Checked.refuse_eq_ok.1 h
  obtain ⟨-, h⟩ := Checked.refuse_eq_ok.1 h
  obtain ⟨_, hclock, h⟩ := Checked.bind_eq_ok.1 h
  obtain ⟨bucket, hbucket, h⟩ := Checked.bind_eq_ok.1 h
  extract_lets previous moved tail jp at h
  -- whether there is a live bucket or not, what is planned is the same
  obtain ⟨hlive, h⟩ : (∀ latest, l.latestLiveBucket? owner now = some latest → latest ≤ bucket) ∧
      jp () = .ok planned := by
    split at h
    · rename_i latest hlatest
      obtain ⟨hle, h⟩ := Checked.refuse_eq_ok.1 h
      refine ⟨fun other hother => ?_, h⟩
      cases hlatest.symm.trans hother
      exact Nat.le_of_not_lt hle
    · rename_i hnone
      refine ⟨fun other hother => ?_, h⟩
      cases hnone.symm.trans hother
  obtain ⟨p, hp, h⟩ := Checked.ite_bind_eq_ok.1 h
  obtain ⟨⟨p', staked⟩, hadd, h⟩ := Checked.bind_eq_ok.1 h
  obtain ⟨p'', htotal, h⟩ := Checked.bind_eq_ok.1 h
  cases h
  exact ⟨bucket, p, p', staked, checkClock_eq_ok.1 hclock, hbucket, hlive, hp, hadd, htotal, rfl,
    rfl⟩

theorem planExtend_eq_ok {planned : Planned StakeReceipt}
    (h : l.planExtend owner source unlock additional now = .ok planned) :
    ∃ bucket p staked, l.lastPoint ≤ now ∧ (l.amountOf owner source).toNat ≠ 0 ∧ now < source ∧
      l.lockBucket unlock now = .ok bucket ∧ source ≤ bucket ∧
      (bucket = source ∧
          Plan.empty.add l owner bucket additional (l.delegateOf owner) = .ok (p, staked) ∨
        bucket ≠ source ∧ ∃ p' moved moving, Plan.empty.remove l owner source = .ok (p', moved) ∧
          moved.amount.add? additional = some moving ∧
          p'.add l owner bucket moving (l.delegateOf owner) = .ok (p, staked)) ∧
      (if additional.isZero then pure p else p.addTotal l additional) = .ok planned.plan ∧
      planned.result = ⟨owner, bucket, staked⟩ ∧
      planned.events = (if bucket = source then [] else [.stakeChanged owner source .zero])
        ++ [.stakeChanged owner bucket staked] := by
  obtain ⟨_, hclock, h⟩ := Checked.bind_eq_ok.1 h
  obtain ⟨hamount, h⟩ := Checked.refuse_eq_ok.1 h
  obtain ⟨hlive, h⟩ := Checked.refuse_eq_ok.1 h
  obtain ⟨bucket, hbucket, h⟩ := Checked.bind_eq_ok.1 h
  obtain ⟨hlonger, h⟩ := Checked.refuse_eq_ok.1 h
  extract_lets target emptied tail at h
  obtain ⟨p, staked, hextended, h⟩ : ∃ p staked,
      (bucket = source ∧ Plan.empty.add l owner bucket additional target = .ok (p, staked) ∨
        bucket ≠ source ∧ ∃ p' moved moving, Plan.empty.remove l owner source = .ok (p', moved) ∧
          moved.amount.add? additional = some moving ∧
          p'.add l owner bucket moving target = .ok (p, staked)) ∧
        tail (p, staked) = .ok planned := by
    split at h
    · rename_i hsame
      obtain ⟨⟨p, staked⟩, hadd, h⟩ := Checked.bind_eq_ok.1 h
      exact ⟨p, staked, Or.inl ⟨hsame, hadd⟩, h⟩
    · rename_i hother
      obtain ⟨⟨p', moved⟩, hremove, h⟩ := Checked.bind_eq_ok.1 h
      simp only at h
      split at h
      · cases h
      · rename_i moving hmoving
        obtain ⟨⟨p, staked⟩, hadd, h⟩ := Checked.bind_eq_ok.1 h
        exact ⟨p, staked, Or.inr ⟨hother, p', moved, moving, hremove, hmoving, hadd⟩, h⟩
  obtain ⟨q, htotal, h⟩ := Checked.ite_bind_eq_ok.1 h
  cases h
  exact ⟨bucket, p, staked, checkClock_eq_ok.1 hclock, fun h => hamount (Word.isZero_iff.2 h),
    Nat.lt_of_not_le hlive, hbucket, Nat.le_of_not_lt hlonger, hextended, htotal, rfl, rfl⟩

theorem planWithdraw_eq_ok {planned : Planned Amount}
    (h : l.planWithdraw owner bucket now = .ok planned) :
    ∃ p released, l.lastPoint ≤ now ∧ (l.amountOf owner bucket).toNat ≠ 0 ∧ bucket ≤ now ∧
      Plan.empty.remove l owner bucket = .ok (p, released) ∧
      p.subTotal l released.amount = .ok planned.plan ∧ planned.result = released.amount ∧
      planned.events = [.withdrawn owner bucket released.amount] := by
  obtain ⟨_, hclock, h⟩ := Checked.bind_eq_ok.1 h
  obtain ⟨hamount, h⟩ := Checked.refuse_eq_ok.1 h
  obtain ⟨hover, h⟩ := Checked.refuse_eq_ok.1 h
  obtain ⟨⟨p, released⟩, hremove, h⟩ := Checked.bind_eq_ok.1 h
  obtain ⟨q, htotal, h⟩ := Checked.bind_eq_ok.1 h
  cases h
  exact ⟨p, released, checkClock_eq_ok.1 hclock, fun h => hamount (Word.isZero_iff.2 h),
    Nat.le_of_not_lt hover, hremove, htotal, rfl, rfl⟩

theorem planDelegate_eq_ok {planned : Planned (Option Address)}
    (h : l.planDelegate owner target now = .ok (some planned)) :
    l.lastPoint ≤ now ∧ target ≠ l.delegateOf owner ∧
      Plan.empty.redelegate l owner target now = .ok planned.plan ∧
      planned.result = some (l.delegateOf owner) ∧
      planned.events = [.delegateChanged owner (l.delegateOf owner) target] := by
  obtain ⟨-, h⟩ := Checked.refuse_eq_ok.1 h
  obtain ⟨_, hclock, h⟩ := Checked.bind_eq_ok.1 h
  simp only at h
  split at h
  · cases h
  · rename_i hother
    obtain ⟨p, hp, h⟩ := Checked.bind_eq_ok.1 h
    cases h
    exact ⟨checkClock_eq_ok.1 hclock, fun e => hother e.symm, hp, rfl, rfl⟩

/-! ### Plans in balance -/

/-- A plan that may begin with a new delegate for all live stake. -/
theorem redelegated_spec {p : Plan} (hl : Plan.empty.Balanced l) {previous : Address}
    (h : (if target = previous then pure Plan.empty
      else Plan.empty.redelegate l owner target now) = .ok p) :
    p.Balanced l ∧ p.total = none := by
  split at h
  · cases h
    exact ⟨hl, rfl⟩
  · obtain ⟨hattributed, hvolume, htotal⟩ := Plan.redelegate_spec h
    have htotal : p.total = none := htotal
    refine ⟨⟨hattributed hl.attributed, ?_⟩, htotal⟩
    rw [hvolume, ← hl.counted, Plan.totalOf_of_none htotal]
    rfl

theorem planStake_spec {planned : Planned StakeReceipt} (hl : Plan.empty.Balanced l)
    (h : l.planStake owner amount unlock target now = .ok planned) :
    planned.plan.Balanced l ∧ l.lastPoint ≤ now ∧
      (planned.plan.totalOf l).toNat = l.total.toNat + amount.toNat := by
  obtain ⟨bucket, p, p', staked, hclock, -, -, hp, hadd, htotal, -, -⟩ := planStake_eq_ok h
  obtain ⟨hbalanced, hnone⟩ := redelegated_spec hl hp
  obtain ⟨hputs, hstaked⟩ := Plan.add_spec hadd
  have hvolume := hputs.volume
  have hcounted := hbalanced.counted
  have hl' : p.totalOf l = l.total := Plan.totalOf_of_none hnone
  have hsame : p'.totalOf l = p.totalOf l :=
    (Plan.totalOf_of_none (hputs.total.trans hnone)).trans hl'.symm
  refine ⟨Plan.balanced_addTotal (hputs.attributed hbalanced.attributed) ?_ htotal, hclock, ?_⟩
  · rw [hsame]
    simp only at hvolume
    omega
  · rw [(Plan.addTotal_spec htotal).2.2, hsame, hl']

/-- An addition to a bucket raises the sum of all stakes by what is added. -/
theorem added_spec {p : Plan} {staked : Amount} (hl : Plan.empty.Balanced l)
    (hadd : Plan.empty.add l owner bucket additional target = .ok (p, staked)) :
    p.Attributed l ∧ p.total = none ∧ p.volume l = l.total.toNat + additional.toNat := by
  have hcounted : l.total.toNat = Plan.empty.volume l := hl.counted
  obtain ⟨hputs, hstaked⟩ := Plan.add_spec hadd
  have hvolume := hputs.volume
  simp only at hvolume
  exact ⟨hputs.attributed hl.attributed, hputs.total, by omega⟩

/-- A move of all of a bucket into another one raises the sum of all stakes by what is
added on the way. -/
theorem moved_spec {p p' : Plan} {stake : StakePoint} {moving staked : Amount}
    (hl : Plan.empty.Balanced l) (hremove : Plan.empty.remove l owner source = .ok (p', stake))
    (hmoving : stake.amount.add? additional = some moving)
    (hadd : p'.add l owner bucket moving target = .ok (p, staked)) :
    p.Attributed l ∧ p.total = none ∧ p.volume l = l.total.toNat + additional.toNat := by
  have hcounted : l.total.toNat = Plan.empty.volume l := hl.counted
  have hmoving := Word.add?_eq_some_iff.1 hmoving
  obtain ⟨hremoved, rfl⟩ := Plan.remove_spec hremove
  obtain ⟨hputs, hstaked⟩ := Plan.add_spec hadd
  have hemptied := hremoved.volume
  have hvolume := hputs.volume
  simp only [Word.toNat_zero] at hemptied hvolume
  exact ⟨hputs.attributed (hremoved.attributed hl.attributed), hputs.total.trans hremoved.total,
    by omega⟩

theorem planExtend_spec {planned : Planned StakeReceipt} (hl : Plan.empty.Balanced l)
    (h : l.planExtend owner source unlock additional now = .ok planned) :
    planned.plan.Balanced l ∧ l.lastPoint ≤ now ∧
      (planned.plan.totalOf l).toNat = l.total.toNat + additional.toNat := by
  obtain ⟨bucket, p, staked, hclock, -, -, -, -, hextended, htotal, -, -⟩ := planExtend_eq_ok h
  -- both ways, into the bucket itself and into another one, end with the same volume
  obtain ⟨hattributed, hnone, hvolume⟩ :
      p.Attributed l ∧ p.total = none ∧ p.volume l = l.total.toNat + additional.toNat := by
    rcases hextended with ⟨-, hadd⟩ | ⟨-, p', moved, moving, hremove, hmoving, hadd⟩
    · exact added_spec hl hadd
    · exact moved_spec hl hremove hmoving hadd
  have hl' : p.totalOf l = l.total := Plan.totalOf_of_none hnone
  split at htotal
  · rename_i hzero
    obtain rfl := Checked.pure_eq_ok.1 htotal
    have hzero := Word.isZero_iff.1 hzero
    refine ⟨⟨hattributed, ?_⟩, hclock, ?_⟩
    · rw [hl']
      omega
    · rw [hl']
      omega
  · refine ⟨Plan.balanced_addTotal hattributed (by rw [hl', hvolume]) htotal, hclock, ?_⟩
    rw [(Plan.addTotal_spec htotal).2.2, hl']

theorem planWithdraw_spec {planned : Planned Amount} (hl : Plan.empty.Balanced l)
    (h : l.planWithdraw owner bucket now = .ok planned) :
    planned.plan.Balanced l ∧ l.lastPoint ≤ now ∧
      (planned.plan.totalOf l).toNat + planned.result.toNat = l.total.toNat := by
  obtain ⟨p, released, hclock, -, -, hremove, htotal, hresult, -⟩ := planWithdraw_eq_ok h
  have hcounted : l.total.toNat = Plan.empty.volume l := hl.counted
  obtain ⟨hputs, hreleased⟩ := Plan.remove_spec hremove
  have hvolume := hputs.volume
  rw [← hreleased] at hvolume
  simp only [Word.toNat_zero] at hvolume
  have hl' : p.totalOf l = l.total := Plan.totalOf_of_none hputs.total
  refine ⟨Plan.balanced_subTotal (hputs.attributed hl.attributed) ?_ htotal, hclock, ?_⟩
  · rw [hl']
    omega
  · rw [← hl', hresult]
    exact (Plan.subTotal_spec htotal).2.2.symm

theorem planDelegate_spec {planned : Planned (Option Address)} (hl : Plan.empty.Balanced l)
    (h : l.planDelegate owner target now = .ok (some planned)) :
    planned.plan.Balanced l ∧ l.lastPoint ≤ now ∧ planned.plan.totalOf l = l.total := by
  obtain ⟨hclock, hother, hp, -, -⟩ := planDelegate_eq_ok h
  obtain ⟨hbalanced, hnone⟩ := redelegated_spec hl ((if_neg hother).trans hp)
  exact ⟨hbalanced, hclock, Plan.totalOf_of_none hnone⟩

/-! ### What becomes of a plan -/

/-- **What becomes of a plan**: it is written and reported as a whole, or the call fails and
leaves the ledger as it was. -/
theorem planned_spec {α : Type} (planOf : Ledger → Except StakingError (Planned α))
    (owner : Address) (now : Timestamp) (l : Ledger) :
    let call : Call StakingError Ledger α := do carryOut owner now (← planOf (← get))
    (∃ planned, planOf l = .ok planned ∧ call l = .ok planned.result
      { l.written owner planned.plan now with events := l.events ++ planned.events }) ∨
      ∃ e, call l = .error e l := by
  intro call
  cases hplan : planOf l with
  | error e =>
    refine Or.inr ⟨e, Call.get_bind_eq_error.2 (Call.lift_bind_eq_error.2 (Or.inl ?_))⟩
    exact ⟨hplan, rfl⟩
  | ok planned =>
    rcases carryOut_spec owner now planned l with h | ⟨e, h⟩
    · refine Or.inl ⟨planned, rfl, Call.get_bind_eq_ok.2 (Call.lift_bind_eq_ok.2 ?_)⟩
      exact ⟨planned, hplan, h⟩
    · refine Or.inr ⟨e, Call.get_bind_eq_error.2 (Call.lift_bind_eq_error.2 (Or.inr ?_))⟩
      exact ⟨planned, hplan, h⟩

theorem planned_eq_ok {α : Type} {planOf : Ledger → Except StakingError (Planned α)} {a : α}
    (h : (do carryOut owner now (← planOf (← get)) : Call StakingError Ledger α) l = .ok a m) :
    ∃ planned, planOf l = .ok planned ∧ a = planned.result ∧
      m = { l.written owner planned.plan now with events := l.events ++ planned.events } := by
  rcases planned_spec planOf owner now l with ⟨planned, hplan, hcall⟩ | ⟨e, hcall⟩
  · cases h.symm.trans hcall
    exact ⟨planned, hplan, rfl, rfl⟩
  · cases h.symm.trans hcall

theorem planned_eq_error {α : Type} {planOf : Ledger → Except StakingError (Planned α)}
    {e : StakingError}
    (h : (do carryOut owner now (← planOf (← get)) : Call StakingError Ledger α) l = .error e m) :
    m = l := by
  rcases planned_spec planOf owner now l with ⟨planned, hplan, hcall⟩ | ⟨e, hcall⟩
  · cases h.symm.trans hcall
  · cases h.symm.trans hcall
    rfl

/-- **What becomes of a delegation**: nothing, if there is nothing to do or it fails, and
else what was planned. -/
theorem delegate_spec (owner target : Address) (now : Timestamp) (l : Ledger) :
    (l.planDelegate owner target now = .ok none ∧ delegate owner target now l = .ok none l) ∨
      (∃ e, delegate owner target now l = .error e l) ∨
      ∃ planned, l.planDelegate owner target now = .ok (some planned) ∧
        delegate owner target now l = .ok planned.result
          { l.written owner planned.plan now with events := l.events ++ planned.events } := by
  cases hplan : l.planDelegate owner target now with
  | error e =>
    refine Or.inr (Or.inl ⟨e, Call.get_bind_eq_error.2 (Call.lift_bind_eq_error.2 (Or.inl ?_))⟩)
    exact ⟨hplan, rfl⟩
  | ok planned? =>
    cases planned? with
    | none => exact Or.inl ⟨rfl, Call.get_bind_eq_ok.2 (Call.lift_bind_eq_ok.2 ⟨none, hplan, rfl⟩)⟩
    | some planned =>
      rcases carryOut_spec owner now planned l with h | ⟨e, h⟩
      · refine Or.inr (Or.inr ⟨planned, rfl, Call.get_bind_eq_ok.2 (Call.lift_bind_eq_ok.2 ?_)⟩)
        exact ⟨some planned, hplan, h⟩
      · refine Or.inr (Or.inl ⟨e, Call.get_bind_eq_error.2 (Call.lift_bind_eq_error.2 (Or.inr ?_))⟩)
        exact ⟨some planned, hplan, h⟩

end Ledger

end StakeGovernance
