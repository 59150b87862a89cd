import StakeGovernance.Ledger.Operations
import StakeGovernance.Proofs.Calls
import StakeGovernance.Proofs.Maps
import StakeGovernance.Proofs.Sums

/-!
# The balance of a plan

On a plan, what is attributed to a delegatee in a bucket is what the stakes of all owners
in that bucket come to that name the delegatee. Every move on a plan keeps that balance:
it replaces the content of one bucket of one owner, and the attributed amounts follow.

* `StakeGovernance.Plan.Attributed` – the **balance** of stakes and attributed amounts;
* `StakeGovernance.Plan.volume` – the **sum of all stakes**;
* `StakeGovernance.Plan.Puts` – what a **single move** comes down to;
* `StakeGovernance.Plan.add_spec`, `StakeGovernance.Plan.remove_spec`,
  `StakeGovernance.Plan.redelegate_spec` – the moves that **calls are made of**.
-/

namespace StakeGovernance

/-- **What a stake counts for a delegatee**: its amount, if it names the delegatee, and
nothing otherwise. -/
def StakePoint.share (delegatee : Address) (s : StakePoint) : Nat :=
  if delegatee = s.delegate then s.amount.toNat else 0

namespace StakePoint

theorem share_of_amount {s : StakePoint} (h : s.amount.toNat = 0) (delegatee : Address) :
    s.share delegatee = 0 := by
  unfold share
  split <;> simp [h]

/-- **The shares of a stake** over all delegatees add up to its amount. -/
theorem sum_share (s : StakePoint) : ∑ d, s.share d = s.amount.toNat := by
  classical
  unfold share
  rw [Finset.sum_ite_eq', if_pos (Finset.mem_univ _)]

/-- Adding to a stake adds to the share of its delegate; an empty stake may change its
delegate on that occasion. -/
theorem share_add {s : StakePoint} {target : Address} {amount staked : Amount}
    (hsame : s.delegate = target ∨ s.amount.toNat = 0)
    (hsum : staked.toNat = s.amount.toNat + amount.toNat) (d : Address) :
    share d ⟨amount, target⟩ + s.share d = share d ⟨staked, target⟩ := by
  have hs : s.share d = share d ⟨s.amount, target⟩ := by
    rcases hsame with h | h
    · rw [← h]
    · rw [share_of_amount h, share_of_amount (s := ⟨s.amount, target⟩) h]
  rw [hs]
  unfold share
  by_cases hd : d = target
  · rw [if_pos hd, if_pos hd, if_pos hd]
    exact (Nat.add_comm _ _).trans hsum.symm
  · rw [if_neg hd, if_neg hd, if_neg hd]

end StakePoint

namespace Plan

variable {p q : Plan} {l : Ledger} {owner delegatee target : Address} {bucket : Timestamp}
  {amount staked : Amount} {stake : StakePoint}

/-! ### Values on a plan -/

theorem stakeOf_setStake (p : Plan) (l : Ledger) (owner : Address) (bucket : Timestamp)
    (stake : StakePoint) (o : Address) (b : Timestamp) :
    (p.setStake owner bucket stake).stakeOf l o b
      = if o = owner ∧ b = bucket then stake else p.stakeOf l o b := by
  unfold stakeOf setStake
  rw [OrderedMap.getD_insert_eq]
  simp only [Slot.mk.injEq]

theorem amountOf_setAmount (p : Plan) (l : Ledger) (delegatee : Address) (bucket : Timestamp)
    (amount : Amount) (d : Address) (b : Timestamp) :
    (p.setAmount delegatee bucket amount).amountOf l d b
      = if d = delegatee ∧ b = bucket then amount else p.amountOf l d b := by
  unfold amountOf setAmount
  rw [OrderedMap.getD_insert_eq]
  simp only [Slot.mk.injEq]

/-- **Stakes and attributed amounts are in balance.** -/
def Attributed (p : Plan) (l : Ledger) : Prop :=
  ∀ d b, (p.amountOf l d b).toNat = ∑ o, (p.stakeOf l o b).share d

/-- **The sum of all stakes.** -/
noncomputable def volume (p : Plan) (l : Ledger) : Nat := ∑ o, ∑ b, (p.stakeOf l o b).amount.toNat

/-! ### Attributed amounts -/

/-- **A shift of the amounts attributed in a bucket**: each delegatee gains something and
loses something, and stakes and the total stay as they are. -/
structure Shifts (p q : Plan) (l : Ledger) (bucket : Timestamp) (gain loss : Address → Nat) :
    Prop where
  stakes : q.stakes = p.stakes
  total : q.total = p.total
  other : ∀ d b, b ≠ bucket → q.amountOf l d b = p.amountOf l d b
  moved : ∀ d, (q.amountOf l d bucket).toNat + loss d = (p.amountOf l d bucket).toNat + gain d

theorem Shifts.trans {gain loss gain' loss' : Address → Nat} {r : Plan}
    (h : Shifts p q l bucket gain loss) (h' : Shifts q r l bucket gain' loss') :
    Shifts p r l bucket (fun d => gain d + gain' d) (fun d => loss d + loss' d) where
  stakes := h'.stakes.trans h.stakes
  total := h'.total.trans h.total
  other d b hb := (h'.other d b hb).trans (h.other d b hb)
  moved d := by
    have := h.moved d
    have := h'.moved d
    omega

theorem credit_shifts (h : p.credit l delegatee bucket amount = .ok q) :
    Shifts p q l bucket (StakePoint.share · ⟨amount, delegatee⟩) fun _ => 0 := by
  unfold credit at h
  split at h
  · rename_i updated hsum
    cases h
    refine ⟨rfl, rfl, fun d b hb => ?_, fun d => ?_⟩
    · rw [amountOf_setAmount, if_neg fun e => hb e.2]
    · rw [amountOf_setAmount]
      unfold StakePoint.share
      by_cases hd : d = delegatee
      · rw [if_pos ⟨hd, rfl⟩, if_pos hd, hd]
        exact Word.add?_eq_some_iff.1 hsum
      · rw [if_neg fun e => hd e.1, if_neg hd]
  · cases h

theorem debit_shifts (h : p.debit l stake.delegate bucket stake.amount = .ok q) :
    Shifts p q l bucket (fun _ => 0) (StakePoint.share · stake) := by
  unfold debit at h
  simp only at h
  split at h
  · rename_i updated hdiff
    cases h
    refine ⟨rfl, rfl, fun d b hb => ?_, fun d => ?_⟩
    · rw [amountOf_setAmount, if_neg fun e => hb e.2]
    · rw [amountOf_setAmount]
      unfold StakePoint.share
      by_cases hd : d = stake.delegate
      · rw [if_pos ⟨hd, rfl⟩, if_pos hd, hd]
        exact (Word.sub?_eq_some_iff.1 hdiff).symm
      · rw [if_neg fun e => hd e.1, if_neg hd]
  · cases h

/-! ### Single moves -/

/-- **What a move on a plan comes down to**: the content of one bucket is replaced, and the
balance and the total stay as they are. -/
structure Puts (p q : Plan) (l : Ledger) (owner : Address) (bucket : Timestamp)
    (stake : StakePoint) : Prop where
  attributed : p.Attributed l → q.Attributed l
  stakeOf : ∀ o b, q.stakeOf l o b = if o = owner ∧ b = bucket then stake else p.stakeOf l o b
  total : q.total = p.total

/-- **A move changes the volume** by what the bucket changes by. -/
theorem Puts.volume (h : Puts p q l owner bucket stake) :
    q.volume l + (p.stakeOf l owner bucket).amount.toNat = p.volume l + stake.amount.toNat := by
  have hbucket := sum_add_of_eq_off (i := bucket)
    (f := fun b => (q.stakeOf l owner b).amount.toNat)
    (g := fun b => (p.stakeOf l owner b).amount.toNat)
    fun b hb => by rw [h.stakeOf, if_neg fun e => hb e.2]
  have howner := sum_add_of_eq_off (i := owner)
    (f := fun o => ∑ b, (q.stakeOf l o b).amount.toNat)
    (g := fun o => ∑ b, (p.stakeOf l o b).amount.toNat)
    fun o ho => Finset.sum_congr rfl fun b _ => by rw [h.stakeOf, if_neg fun e => ho e.1]
  rw [h.stakeOf owner bucket, if_pos ⟨rfl, rfl⟩] at hbucket
  unfold Plan.volume
  omega

/-- **A bucket is replaced in balance** if its attributed amounts shift from the shares of
its old content to those of its new content. -/
theorem Shifts.puts {gain loss : Address → Nat} (h : Shifts p q l bucket gain loss)
    (hshare : ∀ d, gain d + (p.stakeOf l owner bucket).share d = loss d + stake.share d) :
    Puts p (q.setStake owner bucket stake) l owner bucket stake := by
  have hstakeOf : ∀ o b, (q.setStake owner bucket stake).stakeOf l o b
      = if o = owner ∧ b = bucket then stake else p.stakeOf l o b := by
    intro o b
    rw [stakeOf_setStake]
    unfold Plan.stakeOf
    rw [h.stakes]
  refine ⟨fun hp d b => ?_, hstakeOf, h.total⟩
  show (q.amountOf l d b).toNat = _
  -- in the bucket, the sum over all owners changes in the term of one owner only
  by_cases hb : b = bucket
  · subst hb
    have hsum := sum_add_of_eq_off (i := owner)
      (f := fun o => ((q.setStake owner b stake).stakeOf l o b).share d)
      (g := fun o => (p.stakeOf l o b).share d)
      fun o ho => by rw [hstakeOf, if_neg fun e => ho e.1]
    rw [hstakeOf owner b, if_pos ⟨rfl, rfl⟩] at hsum
    have := h.moved d
    have := hshare d
    have := hp d b
    omega
  · rw [h.other d b hb, hp d b]
    exact Finset.sum_congr rfl fun o _ => by rw [hstakeOf, if_neg fun e => hb e.2]

/-! ### Moves -/

/-- **Adding to a bucket** puts the sum into it, for the delegate that is named. -/
theorem add_spec (h : p.add l owner bucket amount target = .ok (q, staked)) :
    Puts p q l owner bucket ⟨staked, target⟩ ∧
      staked.toNat = (p.stakeOf l owner bucket).amount.toNat + amount.toNat := by
  unfold add at h
  simp only at h
  split at h
  · cases h
  · rename_i sum hsum
    have hsum := Word.add?_eq_some_iff.1 hsum
    split at h
    · rename_i hsame
      obtain ⟨r, hcredit, hr⟩ := Checked.bind_eq_ok.1 h
      cases hr
      refine ⟨(credit_shifts hcredit).puts fun d => ?_, hsum⟩
      rw [Nat.zero_add]
      exact StakePoint.share_add (hsame.imp id Word.isZero_iff.1) hsum d
    · obtain ⟨r, hdebit, hr⟩ := Checked.bind_eq_ok.1 h
      obtain ⟨r', hcredit, hr⟩ := Checked.bind_eq_ok.1 hr
      cases hr
      refine ⟨((debit_shifts hdebit).trans (credit_shifts hcredit)).puts fun d => ?_, hsum⟩
      omega

/-- **Emptying a bucket** leaves its delegate as it is. -/
theorem remove_spec (h : p.remove l owner bucket = .ok (q, stake)) :
    Puts p q l owner bucket ⟨.zero, stake.delegate⟩ ∧ stake = p.stakeOf l owner bucket := by
  obtain ⟨r, hdebit, hr⟩ := Checked.bind_eq_ok.1 h
  cases hr
  refine ⟨(debit_shifts hdebit).puts fun d => ?_, rfl⟩
  rw [StakePoint.share_of_amount (s := ⟨.zero, _⟩) rfl]
  omega

theorem reattribute_spec (h : reattribute l owner target p bucket = .ok q) :
    q = p ∨ Puts p q l owner bucket ⟨(p.stakeOf l owner bucket).amount, target⟩ := by
  unfold reattribute at h
  simp only at h
  split at h
  · cases h
    exact Or.inl rfl
  · obtain ⟨r, hdebit, hr⟩ := Checked.bind_eq_ok.1 h
    obtain ⟨r', hcredit, hr⟩ := Checked.bind_eq_ok.1 hr
    cases hr
    refine Or.inr (((debit_shifts hdebit).trans (credit_shifts hcredit)).puts fun d => ?_)
    omega

/-- **What every move of a bucket to another delegate keeps**, attributing all live buckets
keeps; the new delegate is written down besides. -/
theorem redelegate_keeps {P : Plan → Prop}
    (hmove : ∀ p q bucket, P p →
      Puts p q l owner bucket ⟨(p.stakeOf l owner bucket).amount, target⟩ → P q)
    {now : Timestamp} (h : p.redelegate l owner target now = .ok q) (hp : P p) :
    ∃ r, P r ∧ q = { r with delegate := some target } := by
  obtain ⟨r, hfold, hr⟩ := Checked.bind_eq_ok.1 h
  cases hr
  refine ⟨r, ?_, rfl⟩
  -- the induction is on the buckets, whichever they are, and moves on from plan to plan
  generalize ((l.bucketsOf owner).filter fun e => now < e.1).map (·.1) = buckets at hfold
  clear h
  induction buckets generalizing p with
  | nil =>
    cases hfold
    exact hp
  | cons bucket rest ih =>
    obtain ⟨s, hs, hrest⟩ := Checked.bind_eq_ok.1 hfold
    refine ih ?_ hrest
    rcases reattribute_spec hs with rfl | hputs
    · exact hp
    · exact hmove p s bucket hp hputs

/-- **Attributing buckets to another delegate** keeps the balance, all amounts and the
total. -/
theorem redelegate_spec {now : Timestamp} (h : p.redelegate l owner target now = .ok q) :
    (p.Attributed l → q.Attributed l) ∧ q.volume l = p.volume l ∧ q.total = p.total := by
  obtain ⟨r, hr, rfl⟩ := redelegate_keeps
    (P := fun r => (p.Attributed l → r.Attributed l) ∧ r.volume l = p.volume l ∧ r.total = p.total)
    (fun r s bucket ⟨hattributed, hvolume, htotal⟩ hputs => by
      have hmoved := hputs.volume
      exact ⟨fun hp => hputs.attributed (hattributed hp), by simp only at hmoved; omega,
        hputs.total.trans htotal⟩) h ⟨id, rfl, rfl⟩
  exact hr

/-- The amounts in all buckets are as before. -/
theorem redelegate_amounts {now : Timestamp} (h : p.redelegate l owner target now = .ok q) :
    q.delegate = some target ∧
      ∀ o b, (q.stakeOf l o b).amount = (p.stakeOf l o b).amount := by
  obtain ⟨r, hr, rfl⟩ := redelegate_keeps
    (P := fun r => ∀ o b, (r.stakeOf l o b).amount = (p.stakeOf l o b).amount)
    (fun r s bucket hr hputs o b => by
      rw [← hr, hputs.stakeOf]
      split
      · rename_i hslot
        rw [hslot.1, hslot.2]
      · rfl) h fun _ _ => rfl
  exact ⟨rfl, hr⟩

/-! ### The total -/

theorem addTotal_spec (h : p.addTotal l amount = .ok q) :
    q.stakes = p.stakes ∧ q.delegated = p.delegated ∧
      (q.totalOf l).toNat = (p.totalOf l).toNat + amount.toNat := by
  unfold addTotal at h
  simp only at h
  split at h
  · rename_i updated hsum
    cases h
    exact ⟨rfl, rfl, Word.add?_eq_some_iff.1 hsum⟩
  · cases h

theorem subTotal_spec (h : p.subTotal l amount = .ok q) :
    q.stakes = p.stakes ∧ q.delegated = p.delegated ∧
      (p.totalOf l).toNat = (q.totalOf l).toNat + amount.toNat := by
  unfold subTotal at h
  simp only at h
  split at h
  · rename_i updated hdiff
    cases h
    exact ⟨rfl, rfl, Word.sub?_eq_some_iff.1 hdiff⟩
  · cases h

end Plan

end StakeGovernance
