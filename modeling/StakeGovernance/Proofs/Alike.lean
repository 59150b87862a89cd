import StakeGovernance.Proofs.Soundness

/-!
# Plans of one owner on two ledgers

What a call of an owner is going to write depends on the other owners in numbers only: the
amounts attributed to delegatees and the total may differ, but which buckets are written to,
what the owner has in them, what is returned and what is reported follow from the parameters,
from the owner's own stakes, and from its delegate. So a call that is planned on two ledgers
which agree on these has two plans that differ in those numbers alone, and a call of one owner
leaves what the calls of others look at.

* `StakeGovernance.Ledger.SameFor` – two ledgers that are **the same for an owner**;
* `StakeGovernance.Plan.Alike` – two plans for an owner that **differ in numbers only**;
* `StakeGovernance.Planned.Alike` – two calls that **return and report the same**, with plans
  that are alike;
* `StakeGovernance.Ledger.SameFor.planStake`, `StakeGovernance.Ledger.SameFor.planExtend`,
  `StakeGovernance.Ledger.SameFor.planWithdraw`, `StakeGovernance.Ledger.SameFor.planDelegate` –
  **each call** is planned alike.
-/

namespace StakeGovernance

variable {l m : Ledger} {owner target : Address} {bucket source unlock now : Timestamp}
  {amount additional : Amount}

/-! ### What an owner sees of a ledger -/

namespace Ledger

/-- **Two ledgers are the same for an owner**: they have the same parameters, and the owner has
the same stakes and the same delegate. -/
structure SameFor (owner : Address) (l m : Ledger) : Prop where
  params : m.params = l.params
  stakes : m.stakes.get? owner = l.stakes.get? owner
  delegate : m.delegateOf owner = l.delegateOf owner

namespace SameFor

theorem refl (owner : Address) (l : Ledger) : SameFor owner l l := ⟨rfl, rfl, rfl⟩

theorem latestStake (h : SameFor owner l m) (bucket : Timestamp) :
    m.latestStake owner bucket = l.latestStake owner bucket := by
  have hdelegate : m.delegation.delegateOf owner = l.delegation.delegateOf owner := h.delegate
  unfold Ledger.latestStake checkpoints?
  rw [h.stakes, hdelegate]

theorem bucketsOf (h : SameFor owner l m) : m.bucketsOf owner = l.bucketsOf owner := by
  unfold Ledger.bucketsOf
  rw [h.stakes]

theorem lockBucket (h : SameFor owner l m) (unlock now : Timestamp) :
    m.lockBucket unlock now = l.lockBucket unlock now := by
  unfold Ledger.lockBucket quantize
  rw [h.params]

end SameFor

end Ledger

/-! ### Plans that are alike -/

namespace Plan

variable {p p' q q' : Plan} {delegatee : Address} {staked staked' : Amount}

/-- **Two plans for an owner differ in numbers only**: they write the same stakes, which are the
owner's, and the same delegate; they write attributed amounts of the same buckets; and if one
has a new total, so has the other. -/
structure Alike (owner : Address) (p q : Plan) : Prop where
  owned : ∀ slot, p.stakes.contains slot = true → slot.account = owner
  stakes : q.stakes = p.stakes
  delegated : ∀ slot, q.delegated.contains slot = p.delegated.contains slot
  total : q.total.isSome = p.total.isSome
  delegate : q.delegate = p.delegate

theorem alike_empty (owner : Address) : Alike owner .empty .empty :=
  ⟨fun _ h => (by cases h), rfl, fun _ => rfl, rfl, rfl⟩

/-- What is planned for the owner is the same. -/
theorem Alike.stakeOf (h : Alike owner p q) (hsame : Ledger.SameFor owner l m)
    (bucket : Timestamp) :
    q.stakeOf m owner bucket = p.stakeOf l owner bucket := by
  unfold Plan.stakeOf
  rw [h.stakes, hsame.latestStake]

theorem Alike.setStake (h : Alike owner p q) (bucket : Timestamp) (stake : StakePoint) :
    Alike owner (p.setStake owner bucket stake) (q.setStake owner bucket stake) := by
  refine ⟨fun slot hslot => ?_, ?_, h.delegated, h.total, h.delegate⟩
  · have hslot : ((p.stakes.insert ⟨owner, bucket⟩ stake).get? slot).isSome = true := hslot
    rw [OrderedMap.get?_insert_eq] at hslot
    split at hslot
    · rename_i heq
      rw [heq]
    · exact h.owned slot hslot
  · show q.stakes.insert _ _ = p.stakes.insert _ _
    rw [h.stakes]

theorem Alike.setAmount (h : Alike owner p q) (delegatee : Address) (bucket : Timestamp)
    (x y : Amount) :
    Alike owner (p.setAmount delegatee bucket x) (q.setAmount delegatee bucket y) := by
  refine ⟨h.owned, h.stakes, fun slot => ?_, h.total, h.delegate⟩
  have hslot := h.delegated slot
  unfold OrderedMap.contains at hslot ⊢
  show ((q.delegated.insert _ y).get? slot).isSome = ((p.delegated.insert _ x).get? slot).isSome
  rw [OrderedMap.get?_insert_eq, OrderedMap.get?_insert_eq]
  split
  · rfl
  · exact hslot

/-! ### Moves -/

theorem credit_eq_ok (h : p.credit l delegatee bucket amount = .ok p') :
    ∃ x, p' = p.setAmount delegatee bucket x := by
  unfold credit at h
  split at h
  · cases h
    exact ⟨_, rfl⟩
  · cases h

theorem debit_eq_ok (h : p.debit l delegatee bucket amount = .ok p') :
    ∃ x, p' = p.setAmount delegatee bucket x := by
  unfold debit at h
  simp only at h
  split at h
  · cases h
    exact ⟨_, rfl⟩
  · cases h

theorem Alike.credit (h : Alike owner p q) (hp : p.credit l delegatee bucket amount = .ok p')
    (hq : q.credit m delegatee bucket amount = .ok q') : Alike owner p' q' := by
  obtain ⟨x, rfl⟩ := credit_eq_ok hp
  obtain ⟨y, rfl⟩ := credit_eq_ok hq
  exact h.setAmount delegatee bucket x y

theorem Alike.debit (h : Alike owner p q) (hp : p.debit l delegatee bucket amount = .ok p')
    (hq : q.debit m delegatee bucket amount = .ok q') : Alike owner p' q' := by
  obtain ⟨x, rfl⟩ := debit_eq_ok hp
  obtain ⟨y, rfl⟩ := debit_eq_ok hq
  exact h.setAmount delegatee bucket x y

theorem Alike.add (h : Alike owner p q) (hsame : Ledger.SameFor owner l m)
    (hp : p.add l owner bucket amount target = .ok (p', staked))
    (hq : q.add m owner bucket amount target = .ok (q', staked')) :
    Alike owner p' q' ∧ staked' = staked := by
  unfold Plan.add at hp hq
  rw [h.stakeOf hsame] at hq
  cases hsum : (p.stakeOf l owner bucket).amount.add? amount with
  | none =>
    simp only [hsum] at hp
    cases hp
  | some sum =>
    simp only [hsum] at hp hq
    split at hp
    · rename_i hown
      obtain ⟨r, hr, hp⟩ := Checked.bind_eq_ok.1 hp
      rw [if_pos hown] at hq
      obtain ⟨s, hs, hq⟩ := Checked.bind_eq_ok.1 hq
      cases hp
      cases hq
      exact ⟨(h.credit hr hs).setStake bucket _, rfl⟩
    · rename_i hother
      obtain ⟨r, hr, hp⟩ := Checked.bind_eq_ok.1 hp
      obtain ⟨r', hr', hp⟩ := Checked.bind_eq_ok.1 hp
      rw [if_neg hother] at hq
      obtain ⟨s, hs, hq⟩ := Checked.bind_eq_ok.1 hq
      obtain ⟨s', hs', hq⟩ := Checked.bind_eq_ok.1 hq
      cases hp
      cases hq
      exact ⟨((h.debit hr hs).credit hr' hs').setStake bucket _, rfl⟩

theorem Alike.remove {stake stake' : StakePoint} (h : Alike owner p q)
    (hsame : Ledger.SameFor owner l m) (hp : p.remove l owner bucket = .ok (p', stake))
    (hq : q.remove m owner bucket = .ok (q', stake')) : Alike owner p' q' ∧ stake' = stake := by
  unfold Plan.remove at hp hq
  rw [h.stakeOf hsame] at hq
  obtain ⟨r, hr, hp⟩ := Checked.bind_eq_ok.1 hp
  obtain ⟨s, hs, hq⟩ := Checked.bind_eq_ok.1 hq
  cases hp
  cases hq
  exact ⟨(h.debit hr hs).setStake bucket _, rfl⟩

theorem Alike.reattribute (h : Alike owner p q) (hsame : Ledger.SameFor owner l m)
    (hp : reattribute l owner target p bucket = .ok p')
    (hq : reattribute m owner target q bucket = .ok q') : Alike owner p' q' := by
  unfold Plan.reattribute at hp hq
  rw [h.stakeOf hsame] at hq
  simp only at hp hq
  split at hp
  · rename_i hnone
    rw [if_pos hnone] at hq
    cases hp
    cases hq
    exact h
  · rename_i hmoves
    rw [if_neg hmoves] at hq
    obtain ⟨r, hr, hp⟩ := Checked.bind_eq_ok.1 hp
    obtain ⟨r', hr', hp⟩ := Checked.bind_eq_ok.1 hp
    obtain ⟨s, hs, hq⟩ := Checked.bind_eq_ok.1 hq
    obtain ⟨s', hs', hq⟩ := Checked.bind_eq_ok.1 hq
    cases hp
    cases hq
    exact ((h.debit hr hs).credit hr' hs').setStake bucket _

/-- **Attributing all live buckets to another delegate**, bucket by bucket. -/
theorem Alike.redelegate (h : Alike owner p q) (hsame : Ledger.SameFor owner l m)
    (hp : p.redelegate l owner target now = .ok p')
    (hq : q.redelegate m owner target now = .ok q') : Alike owner p' q' := by
  unfold Plan.redelegate at hp hq
  rw [hsame.bucketsOf] at hq
  obtain ⟨r, hr, hp⟩ := Checked.bind_eq_ok.1 hp
  obtain ⟨s, hs, hq⟩ := Checked.bind_eq_ok.1 hq
  cases hp
  cases hq
  clear hp hq
  suffices hfold : Alike owner r s from
    ⟨hfold.owned, hfold.stakes, hfold.delegated, hfold.total, rfl⟩
  generalize ((l.bucketsOf owner).filter fun e => now < e.1).map (·.1) = buckets at hr hs
  -- the two rows of moves go side by side, over the same buckets
  induction buckets generalizing p q with
  | nil =>
    cases hr
    cases hs
    exact h
  | cons bucket rest ih =>
    obtain ⟨r', hr', hr⟩ := Checked.bind_eq_ok.1 hr
    obtain ⟨s', hs', hs⟩ := Checked.bind_eq_ok.1 hs
    exact ih (h.reattribute hsame hr' hs') hr hs

theorem Alike.addTotal (h : Alike owner p q) (hp : p.addTotal l amount = .ok p')
    (hq : q.addTotal m amount = .ok q') : Alike owner p' q' := by
  unfold Plan.addTotal at hp hq
  simp only at hp hq
  split at hp
  · split at hq
    · cases hp
      cases hq
      exact ⟨h.owned, h.stakes, h.delegated, rfl, h.delegate⟩
    · cases hq
  · cases hp

theorem Alike.subTotal (h : Alike owner p q) (hp : p.subTotal l amount = .ok p')
    (hq : q.subTotal m amount = .ok q') : Alike owner p' q' := by
  unfold Plan.subTotal at hp hq
  simp only at hp hq
  split at hp
  · split at hq
    · cases hp
      cases hq
      exact ⟨h.owned, h.stakes, h.delegated, rfl, h.delegate⟩
    · cases hq
  · cases hp

end Plan

/-! ### Calls that are planned alike -/

/-- **Two calls return and report the same**, with plans that are alike. -/
structure Planned.Alike {α : Type} (owner : Address) (x y : Planned α) : Prop where
  plan : x.plan.Alike owner y.plan
  result : y.result = x.result
  events : y.events = x.events

namespace Ledger.SameFor

/-- A plan that may begin with a new delegate. -/
theorem redelegated (h : SameFor owner l m) {p q : Plan}
    (hp : (if target = l.delegateOf owner then pure Plan.empty
      else Plan.empty.redelegate l owner target now) = .ok p)
    (hq : (if target = m.delegateOf owner then pure Plan.empty
      else Plan.empty.redelegate m owner target now) = .ok q) : p.Alike owner q := by
  rw [h.delegate] at hq
  split at hp
  · rename_i hsame
    rw [if_pos hsame] at hq
    cases hp
    cases hq
    exact Plan.alike_empty owner
  · rename_i hother
    rw [if_neg hother] at hq
    exact (Plan.alike_empty owner).redelegate h hp hq

theorem planStake (h : SameFor owner l m) {x y : Planned StakeReceipt}
    (hx : l.planStake owner amount unlock target now = .ok x)
    (hy : m.planStake owner amount unlock target now = .ok y) : x.Alike owner y := by
  obtain ⟨bucket, p, p', staked, -, hbucket, -, hp, hadd, htotal, hresult, hevents⟩ :=
    planStake_eq_ok hx
  obtain ⟨bucket', q, q', staked', -, hbucket', -, hq, hadd', htotal', hresult', hevents'⟩ :=
    planStake_eq_ok hy
  rw [h.lockBucket, hbucket] at hbucket'
  cases hbucket'
  obtain ⟨halike, rfl⟩ := (h.redelegated hp hq).add h hadd hadd'
  refine ⟨halike.addTotal htotal htotal', hresult'.trans hresult.symm, ?_⟩
  rw [hevents', hevents, h.delegate]

theorem planExtend (h : SameFor owner l m) {x y : Planned StakeReceipt}
    (hx : l.planExtend owner source unlock additional now = .ok x)
    (hy : m.planExtend owner source unlock additional now = .ok y) : x.Alike owner y := by
  obtain ⟨bucket, p, staked, -, -, -, hbucket, -, hextended, htotal, hresult, hevents⟩ :=
    planExtend_eq_ok hx
  obtain ⟨bucket', q, staked', -, -, -, hbucket', -, hextended', htotal', hresult', hevents'⟩ :=
    planExtend_eq_ok hy
  rw [h.lockBucket, hbucket] at hbucket'
  cases hbucket'
  rw [h.delegate] at hextended'
  -- both plans go into the bucket itself, or both into another one
  obtain ⟨halike, rfl⟩ : p.Alike owner q ∧ staked' = staked := by
    rcases hextended with ⟨hown, hadd⟩ | ⟨hother, p', moved, moving, hremove, hmoving, hadd⟩
    · rcases hextended' with ⟨-, hadd'⟩ | ⟨hother, -⟩
      · exact (Plan.alike_empty owner).add h hadd hadd'
      · exact absurd hown hother
    · rcases hextended' with ⟨hown, -⟩ | ⟨-, q', moved', moving', hremove', hmoving', hadd'⟩
      · exact absurd hown hother
      · obtain ⟨halike, rfl⟩ := (Plan.alike_empty owner).remove h hremove hremove'
        cases hmoving.symm.trans hmoving'
        exact halike.add h hadd hadd'
  refine ⟨?_, hresult'.trans hresult.symm, hevents'.trans hevents.symm⟩
  split at htotal
  · rename_i hzero
    rw [if_pos hzero] at htotal'
    cases htotal
    cases htotal'
    exact halike
  · rename_i hmore
    rw [if_neg hmore] at htotal'
    exact halike.addTotal htotal htotal'

theorem planWithdraw (h : SameFor owner l m) {x y : Planned Amount}
    (hx : l.planWithdraw owner bucket now = .ok x) (hy : m.planWithdraw owner bucket now = .ok y) :
    x.Alike owner y := by
  obtain ⟨p, released, -, -, -, hremove, htotal, hresult, hevents⟩ := planWithdraw_eq_ok hx
  obtain ⟨q, released', -, -, -, hremove', htotal', hresult', hevents'⟩ := planWithdraw_eq_ok hy
  obtain ⟨halike, rfl⟩ := (Plan.alike_empty owner).remove h hremove hremove'
  exact ⟨halike.subTotal htotal htotal', hresult'.trans hresult.symm, hevents'.trans hevents.symm⟩

theorem planDelegate (h : SameFor owner l m) {x y : Planned (Option Address)}
    (hx : l.planDelegate owner target now = .ok (some x))
    (hy : m.planDelegate owner target now = .ok (some y)) : x.Alike owner y := by
  obtain ⟨-, -, hredelegate, hresult, hevents⟩ := planDelegate_eq_ok hx
  obtain ⟨-, -, hredelegate', hresult', hevents'⟩ := planDelegate_eq_ok hy
  rw [h.delegate] at hresult' hevents'
  exact ⟨(Plan.alike_empty owner).redelegate h hredelegate hredelegate',
    hresult'.trans hresult.symm, hevents'.trans hevents.symm⟩

end Ledger.SameFor

end StakeGovernance
