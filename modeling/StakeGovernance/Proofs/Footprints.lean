import StakeGovernance.Proofs.Interchange
import StakeGovernance.Proofs.Pointers

/-!
# Where a plan writes

A plan writes to the bucket that a lock was asked for, to the bucket that stake is taken out of,
and to the buckets that are attributed to another delegate. All but the first of them are buckets
that the owner has already, and what is attributed to delegatees is written to the very buckets
that stakes are written to. So whatever is true of the buckets of an owner, and of the bucket that
a lock is granted in, is true of all that a call writes to; everywhere else the logs stay as they
are.

* `StakeGovernance.Plan.Within` – a plan that writes to buckets **with a property only**;
* `StakeGovernance.Plan.Within.add`, `StakeGovernance.Plan.Within.remove`,
  `StakeGovernance.Plan.Within.redelegate` – the **moves** that calls are made of;
* `StakeGovernance.Ledger.Plans.within` – what **any call** writes;
* `StakeGovernance.Plan.Within.logs_written` – the logs of **all other buckets**.
-/

namespace StakeGovernance

variable {P : Timestamp → Prop} {l : Ledger} {owner target : Address} {bucket now : Timestamp}
  {amount staked : Amount}

/-! ### Moves on a plan -/

namespace Plan

variable {p q : Plan} {delegatee : Address} {stake : StakePoint}

/-- **A plan writes to buckets with a property only**, those of owners and those of delegatees. -/
structure Within (P : Timestamp → Prop) (p : Plan) : Prop where
  stakes : ∀ slot, ¬ P slot.bucket → p.stakes.get? slot = none
  delegated : ∀ slot, ¬ P slot.bucket → p.delegated.get? slot = none

theorem within_empty (P : Timestamp → Prop) : Within P .empty :=
  ⟨fun _ _ => rfl, fun _ _ => rfl⟩

theorem Within.of_eq (h : p.Within P) (hstakes : q.stakes = p.stakes)
    (hdelegated : q.delegated = p.delegated) : q.Within P :=
  ⟨hstakes ▸ h.stakes, hdelegated ▸ h.delegated⟩

/-- An entry for a bucket with the property is none for a bucket without it. -/
theorem get?_insert_of_not {α : Type} {entries : OrderedMap Slot α} {slot other : Slot} {value : α}
    (hslot : P slot.bucket) (hother : ¬ P other.bucket) (h : entries.get? other = none) :
    (entries.insert slot value).get? other = none := by
  have hne : other ≠ slot := by
    rintro rfl
    exact hother hslot
  rw [OrderedMap.get?_insert_eq, if_neg hne, h]

theorem Within.setStake (h : p.Within P) (hbucket : P bucket) (owner : Address)
    (stake : StakePoint) : (p.setStake owner bucket stake).Within P where
  stakes slot hslot := get?_insert_of_not hbucket hslot (h.stakes slot hslot)
  delegated := h.delegated

theorem Within.setAmount (h : p.Within P) (hbucket : P bucket) (delegatee : Address)
    (amount : Amount) : (p.setAmount delegatee bucket amount).Within P where
  stakes := h.stakes
  delegated slot hslot := get?_insert_of_not hbucket hslot (h.delegated slot hslot)

theorem Within.credit (h : p.Within P) (hbucket : P bucket)
    (hq : p.credit l delegatee bucket amount = .ok q) : q.Within P := by
  obtain ⟨updated, rfl⟩ := credit_eq_ok hq
  exact h.setAmount hbucket delegatee updated

theorem Within.debit (h : p.Within P) (hbucket : P bucket)
    (hq : p.debit l delegatee bucket amount = .ok q) : q.Within P := by
  obtain ⟨updated, rfl⟩ := debit_eq_ok hq
  exact h.setAmount hbucket delegatee updated

/-- **Adding to a bucket** writes to that bucket. -/
theorem Within.add (h : p.Within P) (hbucket : P bucket)
    (hq : p.add l owner bucket amount target = .ok (q, staked)) : q.Within P := by
  unfold Plan.add at hq
  simp only at hq
  split at hq
  · cases hq
  split at hq
  · obtain ⟨r, hcredit, hq⟩ := Checked.bind_eq_ok.1 hq
    cases hq
    exact (h.credit hbucket hcredit).setStake hbucket owner _
  · obtain ⟨r, hdebit, hq⟩ := Checked.bind_eq_ok.1 hq
    obtain ⟨s, hcredit, hq⟩ := Checked.bind_eq_ok.1 hq
    cases hq
    exact ((h.debit hbucket hdebit).credit hbucket hcredit).setStake hbucket owner _

/-- **Emptying a bucket** writes to that bucket. -/
theorem Within.remove (h : p.Within P) (hbucket : P bucket)
    (hq : p.remove l owner bucket = .ok (q, stake)) : q.Within P := by
  obtain ⟨r, hdebit, hq⟩ := Checked.bind_eq_ok.1 hq
  cases hq
  exact (h.debit hbucket hdebit).setStake hbucket owner _

theorem Within.reattribute (h : p.Within P) (hbucket : P bucket)
    (hq : reattribute l owner target p bucket = .ok q) : q.Within P := by
  rw [Plan.reattribute] at hq
  split at hq
  · cases hq
    exact h
  · obtain ⟨r, hdebit, hq⟩ := Checked.bind_eq_ok.1 hq
    obtain ⟨s, hcredit, hq⟩ := Checked.bind_eq_ok.1 hq
    cases hq
    exact ((h.debit hbucket hdebit).credit hbucket hcredit).setStake hbucket owner _

/-- **Attributing live buckets to another delegate** writes to live buckets of the owner. -/
theorem Within.redelegate (h : p.Within P) (hlive : ∀ e ∈ l.bucketsOf owner, now < e.1 → P e.1)
    (hq : p.redelegate l owner target now = .ok q) : q.Within P := by
  obtain ⟨r, hfold, hq⟩ := Checked.bind_eq_ok.1 hq
  cases hq
  suffices hr : r.Within P from ⟨hr.stakes, hr.delegated⟩
  have hbuckets : ∀ b ∈ ((l.bucketsOf owner).filter fun e => now < e.1).map (·.1), P b := by
    intro b hb
    obtain ⟨e, he, rfl⟩ := List.mem_map.1 hb
    obtain ⟨hmem, hnow⟩ := List.mem_filter.1 he
    exact hlive e hmem (of_decide_eq_true hnow)
  generalize ((l.bucketsOf owner).filter fun e => now < e.1).map (·.1) = buckets at hfold hbuckets
  clear hq
  -- the buckets are gone through one by one, each on the plan that the one before has left
  induction buckets generalizing p with
  | nil =>
    cases hfold
    exact h
  | cons b rest ih =>
    obtain ⟨s, hs, hrest⟩ := Checked.bind_eq_ok.1 hfold
    exact ih (h.reattribute (hbuckets b List.mem_cons_self) hs) hrest
      fun b' hb' => hbuckets b' (List.mem_cons_of_mem b hb')

theorem Within.addTotal (h : p.Within P) (hq : p.addTotal l amount = .ok q) : q.Within P :=
  h.of_eq (addTotal_spec hq).1 (addTotal_spec hq).2.1

theorem Within.subTotal (h : p.Within P) (hq : p.subTotal l amount = .ok q) : q.Within P :=
  h.of_eq (subTotal_spec hq).1 (subTotal_spec hq).2.1

/-- **What such a plan writes** leaves the logs of all other buckets as they are, those of owners
and those of delegatees. -/
theorem Within.logs_written (h : p.Within P) (hbucket : ¬ P bucket) (l : Ledger)
    (owner account : Address) :
    (l.written owner p now).delegation.log? account bucket = l.delegation.log? account bucket ∧
      (l.written owner p now).checkpoints? account bucket = l.checkpoints? account bucket := by
  constructor
  · refine (BucketLogs.log?_putAll l.delegation.delegated p.delegated account bucket).trans ?_
    rw [h.delegated ⟨account, bucket⟩ hbucket]
    rfl
  · refine (BucketLogs.log?_putAll l.stakes p.stakes account bucket).trans ?_
    rw [h.stakes ⟨account, bucket⟩ hbucket]
    rfl

end Plan

/-! ### Calls -/

namespace Ledger

variable {additional : Amount} {source unlock : Timestamp}

/-- A bucket that holds something is one that the owner has. -/
theorem of_amountOf (hbuckets : ∀ e ∈ l.bucketsOf owner, P e.1)
    (hamount : (l.amountOf owner bucket).toNat ≠ 0) : P bucket := by
  by_contra hbucket
  refine hamount (Plan.amount_of_not_mem_bucketsOf fun e he hsame => ?_)
  exact hbucket (hsame ▸ hbuckets e he)

/-- **A stake** writes to the bucket that was asked for, and to buckets that the owner has. -/
theorem within_planStake {planned : Planned StakeReceipt}
    (hbuckets : ∀ e ∈ l.bucketsOf owner, P e.1)
    (hlock : ∀ b, l.lockBucket unlock now = .ok b → P b)
    (h : l.planStake owner amount unlock target now = .ok planned) : planned.plan.Within P := by
  obtain ⟨b, p, p', staked, -, hb, -, hp, hadd, htotal, -, -⟩ := planStake_eq_ok h
  have hredelegated : p.Within P := by
    split at hp
    · cases hp
      exact Plan.within_empty P
    · exact (Plan.within_empty P).redelegate (fun e he _ => hbuckets e he) hp
  exact (hredelegated.add (hlock b hb) hadd).addTotal htotal

/-- **An extension** writes to the bucket that was asked for, and to the one that is left. -/
theorem within_planExtend {planned : Planned StakeReceipt}
    (hbuckets : ∀ e ∈ l.bucketsOf owner, P e.1)
    (hlock : ∀ b, l.lockBucket unlock now = .ok b → P b)
    (h : l.planExtend owner source unlock additional now = .ok planned) :
    planned.plan.Within P := by
  obtain ⟨b, p, staked, -, hamount, -, hb, -, hextended, htotal, -, -⟩ := planExtend_eq_ok h
  have hextended : p.Within P := by
    rcases hextended with ⟨-, hadd⟩ | ⟨-, p', moved, moving, hremove, -, hadd⟩
    · exact (Plan.within_empty P).add (hlock b hb) hadd
    · have hsource : P source := of_amountOf hbuckets hamount
      exact ((Plan.within_empty P).remove hsource hremove).add (hlock b hb) hadd
  split at htotal
  · cases htotal
    exact hextended
  · exact hextended.addTotal htotal

/-- **A withdrawal** writes to the bucket that is emptied. -/
theorem within_planWithdraw {planned : Planned Amount} (hbuckets : ∀ e ∈ l.bucketsOf owner, P e.1)
    (h : l.planWithdraw owner bucket now = .ok planned) : planned.plan.Within P := by
  obtain ⟨p, released, -, hamount, -, hremove, htotal, -, -⟩ := planWithdraw_eq_ok h
  have hbucket : P bucket := of_amountOf hbuckets hamount
  exact ((Plan.within_empty P).remove hbucket hremove).subTotal htotal

/-- **A delegation** writes to buckets that the owner has. -/
theorem within_planDelegate {planned : Planned (Option Address)}
    (hbuckets : ∀ e ∈ l.bucketsOf owner, P e.1)
    (h : l.planDelegate owner target now = .ok (some planned)) : planned.plan.Within P := by
  obtain ⟨-, -, hredelegate, -⟩ := planDelegate_eq_ok h
  exact (Plan.within_empty P).redelegate (fun e he _ => hbuckets e he) hredelegate

/-- **What any call writes** it writes to a bucket that a lock was granted in, or to one that the
owner has. -/
theorem Plans.within {plan : Plan} (hplan : Plans l owner now plan)
    (hbuckets : ∀ e ∈ l.bucketsOf owner, P e.1)
    (hlock : ∀ unlock b, l.lockBucket unlock now = .ok b → P b) : plan.Within P := by
  cases hplan with
  | stake h => exact within_planStake hbuckets (hlock _) h
  | extend h => exact within_planExtend hbuckets (hlock _) h
  | withdraw h => exact within_planWithdraw hbuckets h
  | delegate h => exact within_planDelegate hbuckets h

end Ledger

end StakeGovernance
