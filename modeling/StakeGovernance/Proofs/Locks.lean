import StakeGovernance.Proofs.Soundness

/-!
# Locked stake stays locked

What an owner has locked beyond a point is what its buckets hold that end after that point.
Until the point is reached no call lowers it, whoever makes the call and whether it succeeds
or is rejected: a stake adds to a bucket, an extension moves a bucket to a later end, a new
delegate leaves all amounts where they are, and what is withdrawn has already ended.

* `StakeGovernance.Ledger.lockedBeyond` – what is **locked beyond a point**;
* `StakeGovernance.Plan.beyond` – the same **on a plan**, with what each move does to it;
* `StakeGovernance.Ledger.Sound.lockedBeyond_le_apply` – what **one call** does;
* `StakeGovernance.Ledger.Reachable.locked_until` – locked stake **stays locked** until its
  time, over any calls.
-/

namespace StakeGovernance

/-! ### Positions -/

namespace Ledger

variable {l : Ledger} {owner : Address} {x : Timestamp}

/-- The content of the bucket of a position is the newest one of its log. -/
theorem position?_eq (f : Timestamp → Nat → Nat) (hf : ∀ b, f b 0 = 0) (bucket : Timestamp)
    (log : CheckpointLog StakePoint) :
    ((position? bucket log).map fun x => f x.bucket x.amount.toNat).getD 0
      = f bucket (((log.latest?).map (·.value.amount.toNat)).getD 0) := by
  unfold position?
  cases log.latest? with
  | none => exact (hf bucket).symm
  | some c =>
    simp only
    split
    · rename_i hzero
      show 0 = f bucket c.value.amount.toNat
      rw [Word.isZero_iff.1 hzero, hf]
    · rfl

/-- **A sum over the positions of an owner** is a sum over all buckets, if an empty bucket
counts nothing. -/
theorem sum_positions (f : Timestamp → Nat → Nat) (hf : ∀ b, f b 0 = 0) (l : Ledger)
    (owner : Address) :
    ((l.positions owner).map fun x => f x.bucket x.amount.toNat).sum
      = ∑ b, f b (l.amountOf owner b).toNat := by
  unfold positions bucketsOf amountOf latestStake checkpoints?
  cases hbuckets : l.stakes.get? owner with
  | none => exact (Finset.sum_eq_zero fun b _ => hf b).symm
  | some buckets =>
    have hlist := sum_map_filterMap_filter buckets.entries (fun _ => true)
      (fun e => position? e.1 e.2) fun x => f x.bucket x.amount.toNat
    rw [List.filter_true] at hlist
    have hkeys := buckets.sum_entries fun b log =>
      ((position? b log).map fun x : StakePosition => f x.bucket x.amount.toNat).getD 0
    refine hlist.trans (hkeys.trans (Finset.sum_congr rfl fun b _ => ?_))
    show _ = f b ((((buckets.get? b).bind CheckpointLog.latest?).map Checkpoint.value).getD
      _).amount.toNat
    cases buckets.get? b with
    | none => exact (hf b).symm
    | some log =>
      refine (position?_eq f hf b log).trans ?_
      show _ = f b ((log.latest?.map Checkpoint.value).getD _).amount.toNat
      cases log.latest? <;> rfl

/-- **What an owner has locked beyond a point**: what is in the buckets that end after it. -/
def lockedBeyond (l : Ledger) (owner : Address) (x : Timestamp) : Nat :=
  ((l.positions owner).map fun p => if x < p.bucket then p.amount.toNat else 0).sum

theorem lockedBeyond_eq (l : Ledger) (owner : Address) (x : Timestamp) :
    l.lockedBeyond owner x = ∑ b, if x < b then (l.amountOf owner b).toNat else 0 :=
  sum_positions (fun b n => if x < b then n else 0) (fun _ => ite_self _) l owner

end Ledger

/-! ### On a plan -/

namespace Plan

variable {p q : Plan} {l : Ledger} {owner o target : Address} {bucket x : Timestamp}
  {amount staked : Amount} {stake : StakePoint}

/-- **What an owner has locked beyond a point on a plan.** -/
noncomputable def beyond (p : Plan) (l : Ledger) (o : Address) (x : Timestamp) : Nat :=
  ∑ b, if x < b then (p.stakeOf l o b).amount.toNat else 0

/-- **A move changes what is locked** by what the bucket changes by, if it is one of the owner
that ends after the point. -/
theorem Puts.beyond (h : Puts p q l owner bucket stake) (o : Address) (x : Timestamp) :
    q.beyond l o x + (if o = owner ∧ x < bucket then (p.stakeOf l owner bucket).amount.toNat else 0)
      = p.beyond l o x + if o = owner ∧ x < bucket then stake.amount.toNat else 0 := by
  by_cases ho : o = owner
  · subst ho
    have hbucket := sum_add_of_eq_off (i := bucket)
      (f := fun b => if x < b then (q.stakeOf l o b).amount.toNat else 0)
      (g := fun b => if x < b then (p.stakeOf l o b).amount.toNat else 0)
      fun b hb => by
        have hoff : q.stakeOf l o b = p.stakeOf l o b :=
          (h.stakeOf o b).trans (if_neg fun e => hb e.2)
        rw [hoff]
    have hput : q.stakeOf l o bucket = stake := (h.stakeOf o bucket).trans (if_pos ⟨rfl, rfl⟩)
    rw [hput] at hbucket
    simp only [true_and]
    exact hbucket
  · -- another owner has nothing to do with it
    have hsame : q.beyond l o x = p.beyond l o x := Finset.sum_congr rfl fun b _ => by
      have hoff : q.stakeOf l o b = p.stakeOf l o b :=
        (h.stakeOf o b).trans (if_neg fun e => ho e.1)
      rw [hoff]
    rw [hsame, if_neg fun e => ho e.1, if_neg fun e => ho e.1]

/-- Attributing buckets to another delegate leaves what is locked where it is. -/
theorem beyond_redelegate {now : Timestamp} (h : p.redelegate l owner target now = .ok q)
    (o : Address) (x : Timestamp) : q.beyond l o x = p.beyond l o x :=
  Finset.sum_congr rfl fun b _ => by rw [(redelegate_amounts h).2 o b]

theorem beyond_of_eq (hstakes : q.stakes = p.stakes) (o : Address) (x : Timestamp) :
    q.beyond l o x = p.beyond l o x := by
  unfold beyond stakeOf
  rw [hstakes]

/-- What is added to a bucket is locked as long as the bucket. -/
theorem beyond_add (h : p.add l owner bucket amount target = .ok (q, staked)) (o : Address)
    (x : Timestamp) :
    q.beyond l o x = p.beyond l o x + if o = owner ∧ x < bucket then amount.toNat else 0 := by
  obtain ⟨hputs, hstaked⟩ := add_spec h
  have hbeyond := hputs.beyond o x
  by_cases hlocked : o = owner ∧ x < bucket
  · rw [if_pos hlocked, if_pos hlocked] at hbeyond
    rw [if_pos hlocked]
    have hbeyond : _ + (p.stakeOf l owner bucket).amount.toNat = _ + staked.toNat := hbeyond
    omega
  · rw [if_neg hlocked, if_neg hlocked] at hbeyond
    rw [if_neg hlocked]
    exact hbeyond

/-- What is taken out of a bucket was locked as long as the bucket. -/
theorem beyond_remove (h : p.remove l owner bucket = .ok (q, stake)) (o : Address)
    (x : Timestamp) :
    q.beyond l o x + (if o = owner ∧ x < bucket then stake.amount.toNat else 0)
      = p.beyond l o x := by
  obtain ⟨hputs, rfl⟩ := remove_spec h
  have hbeyond := hputs.beyond o x
  simp only [Word.toNat_zero, ite_self, Nat.add_zero] at hbeyond
  exact hbeyond

end Plan

/-! ### Calls -/

namespace Ledger

variable {l m : Ledger} {owner o target : Address} {source bucket unlock now x : Timestamp}
  {amount additional : Amount}

/-- **A stake** locks its amount as long as its bucket. -/
theorem beyond_planStake {planned : Planned StakeReceipt}
    (h : l.planStake owner amount unlock target now = .ok planned) (o : Address) (x : Timestamp) :
    planned.plan.beyond l o x = Plan.empty.beyond l o x
      + if o = owner ∧ x < planned.result.bucket then amount.toNat else 0 := by
  obtain ⟨bucket, p, p', staked, -, -, -, hp, hadd, htotal, hresult, -⟩ := planStake_eq_ok h
  have hsame : p.beyond l o x = Plan.empty.beyond l o x := by
    split at hp
    · cases hp
      rfl
    · exact Plan.beyond_redelegate hp o x
  rw [Plan.beyond_of_eq (Plan.addTotal_spec htotal).1, Plan.beyond_add hadd, hsame, hresult]

/-- **An extension** takes what is in a bucket out of it, and puts that and what is added into one
that does not end earlier, which may be the same. -/
theorem beyond_planExtend {planned : Planned StakeReceipt}
    (h : l.planExtend owner source unlock additional now = .ok planned) (o : Address)
    (x : Timestamp) :
    source ≤ planned.result.bucket ∧
      planned.plan.beyond l o x
          + (if o = owner ∧ x < source then (l.amountOf owner source).toNat else 0)
        = Plan.empty.beyond l o x + if o = owner ∧ x < planned.result.bucket then
            (l.amountOf owner source).toNat + additional.toNat else 0 := by
  obtain ⟨bucket, p, staked, -, -, -, -, hlater, hextended, htotal, hresult, -⟩ :=
    planExtend_eq_ok h
  have hstakes : planned.plan.stakes = p.stakes := by
    split at htotal
    · cases htotal
      rfl
    · exact (Plan.addTotal_spec htotal).1
  rw [Plan.beyond_of_eq hstakes, hresult]
  refine ⟨hlater, ?_⟩
  rcases hextended with ⟨rfl, hadd⟩ | ⟨-, p', moved, moving, hremove, hmoving, hadd⟩
  · rw [Plan.beyond_add hadd]
    split <;> omega
  · have hremoved := Plan.beyond_remove hremove o x
    obtain ⟨-, rfl⟩ := Plan.remove_spec hremove
    have hmoving : moving.toNat = (l.amountOf owner source).toNat + additional.toNat :=
      Word.add?_eq_some_iff.1 hmoving
    rw [Plan.beyond_add hadd, hmoving, ← hremoved]
    exact Nat.add_right_comm ..

/-- **A withdrawal** takes nothing that is locked beyond its own time. -/
theorem beyond_planWithdraw {planned : Planned Amount}
    (h : l.planWithdraw owner bucket now = .ok planned) (hx : now ≤ x) :
    planned.plan.beyond l o x = Plan.empty.beyond l o x := by
  obtain ⟨p, released, -, -, hover, hremove, htotal, -, -⟩ := planWithdraw_eq_ok h
  have hended : ¬ (o = owner ∧ x < bucket) := fun hlocked =>
    absurd (Nat.le_trans hover hx) (Nat.not_le_of_lt hlocked.2)
  have hremoved := Plan.beyond_remove hremove o x
  rw [if_neg hended, Nat.add_zero] at hremoved
  rw [Plan.beyond_of_eq (Plan.subTotal_spec htotal).1, hremoved]

/-- **A delegation** leaves what is locked where it is. -/
theorem beyond_planDelegate {planned : Planned (Option Address)}
    (h : l.planDelegate owner target now = .ok (some planned)) :
    planned.plan.beyond l o x = Plan.empty.beyond l o x :=
  Plan.beyond_redelegate (planDelegate_eq_ok h).2.2.1 o x

/-! ### Ledgers -/

/-- What is locked on a sound ledger before a plan, and after it has been written. -/
theorem Sound.lockedBeyond_written (h : l.Sound) (hclock : l.lastPoint ≤ now) {plan : Plan}
    (hplan : plan.Balanced l) (owner o : Address) (x : Timestamp) :
    (l.written owner plan now).lockedBeyond o x = plan.beyond l o x := by
  have hle : now ≤ now := Nat.le_refl _
  have hlast : (l.written owner plan now).lastPoint ≤ now := hle
  have hwritten : (l.written owner plan now).Sound := h.written hclock hplan
  rw [lockedBeyond_eq]
  refine Finset.sum_congr rfl fun b _ => ?_
  have hnow := hwritten.reading_stakes size_zero hlast o b
  rw [h.stakes_written size_zero hclock, if_pos hle] at hnow
  exact congrArg (fun n => if x < b then n else 0) hnow.symm

/-- A call that comes down to a plan lowers nothing that is locked, if the plan does not. -/
theorem Sound.lockedBeyond_le_planned {α : Type} (h : l.Sound)
    {planOf : Ledger → Except StakingError (Planned α)} {owner : Address}
    (hplan : ∀ planned, planOf l = .ok planned → planned.plan.Balanced l ∧ l.lastPoint ≤ now ∧
      Plan.empty.beyond l o x ≤ planned.plan.beyond l o x) :
    l.lockedBeyond o x
      ≤ ((do carryOut owner now (← planOf (← get)) : Call StakingError Ledger α).after
        l).lockedBeyond o x := by
  rcases planned_spec planOf owner now l with ⟨planned, hplanned, hcall⟩ | ⟨e, hcall⟩
  · obtain ⟨hbalanced, hclock, hbeyond⟩ := hplan planned hplanned
    rw [Call.after_of_ok hcall]
    show _ ≤ (l.written owner planned.plan now).lockedBeyond o x
    rw [h.lockedBeyond_written hclock hbalanced, lockedBeyond_eq]
    exact hbeyond
  · rw [Call.after_of_error hcall]

/-- **A call is made by a point**, if it is made at any time at all. -/
def Move.By (x : Timestamp) : Move → Prop
  | .stake _ _ _ _ now | .extend _ _ _ _ now | .withdraw _ _ now | .delegate _ _ now => now ≤ x
  | .drainEvents => True

instance (x : Timestamp) : DecidablePred (Move.By x)
  | .stake _ _ _ _ now | .extend _ _ _ _ now | .withdraw _ _ now | .delegate _ _ now =>
    inferInstanceAs (Decidable (now ≤ x))
  | .drainEvents => inferInstanceAs (Decidable True)

/-- **No call lowers what is locked** beyond a point by which it is made. -/
theorem Sound.lockedBeyond_le_apply (h : l.Sound) {move : Move} (hmove : move.By x)
    (o : Address) : l.lockedBeyond o x ≤ (move.apply l).lockedBeyond o x := by
  cases move with
  | stake owner amount unlock target now =>
    refine h.lockedBeyond_le_planned fun planned hplanned => ?_
    obtain ⟨hbalanced, hclock, -⟩ := planStake_spec h.balanced hplanned
    exact ⟨hbalanced, hclock, beyond_planStake hplanned o x ▸ Nat.le_add_right _ _⟩
  | extend owner source unlock additional now =>
    refine h.lockedBeyond_le_planned fun planned hplanned => ?_
    obtain ⟨hbalanced, hclock, -⟩ := planExtend_spec h.balanced hplanned
    refine ⟨hbalanced, hclock, ?_⟩
    -- a bucket that ends after the point is left for one that does so as well
    obtain ⟨hlater, hmoved⟩ := beyond_planExtend hplanned o x
    by_cases hlocked : o = owner ∧ x < source
    · have hlocked' : o = owner ∧ x < planned.result.bucket :=
        ⟨hlocked.1, Nat.lt_of_lt_of_le hlocked.2 hlater⟩
      rw [if_pos hlocked, if_pos hlocked'] at hmoved
      omega
    · rw [if_neg hlocked] at hmoved
      omega
  | withdraw owner bucket now =>
    refine h.lockedBeyond_le_planned fun planned hplanned => ?_
    obtain ⟨hbalanced, hclock, -⟩ := planWithdraw_spec h.balanced hplanned
    exact ⟨hbalanced, hclock, (beyond_planWithdraw hplanned hmove).ge⟩
  | delegate owner target now =>
    show _ ≤ ((Ledger.delegate owner target now).after l).lockedBeyond o x
    rcases delegate_spec owner target now l with
      ⟨-, hcall⟩ | ⟨e, hcall⟩ | ⟨planned, hplanned, hcall⟩
    · rw [Call.after_of_ok hcall]
    · rw [Call.after_of_error hcall]
    · obtain ⟨hbalanced, hclock, -⟩ := planDelegate_spec h.balanced hplanned
      rw [Call.after_of_ok hcall]
      show _ ≤ (l.written owner planned.plan now).lockedBeyond o x
      rw [h.lockedBeyond_written hclock hbalanced, lockedBeyond_eq]
      exact (beyond_planDelegate hplanned).ge
  | drainEvents => exact Nat.le_refl _

/-- **Locked stake stays locked.** On every ledger that calls lead to, whatever is called by a
point, by anyone and with any arguments, whether it succeeds or is rejected: what an owner has
locked beyond the point is afterwards at least as much as before. So is it after any row of
calls, if all of them are made by that point. -/
theorem Reachable.locked_until {params : StakingParams} (h : Reachable params l)
    (owner : Address) (x : Timestamp) :
    (∀ move : Move, move.By x → l.lockedBeyond owner x ≤ (move.apply l).lockedBeyond owner x) ∧
      ∀ moves : List Move, (∀ move ∈ moves, move.By x) →
        l.lockedBeyond owner x
          ≤ (moves.foldl (fun l move => move.apply l) l).lockedBeyond owner x := by
  refine ⟨fun move hmove => h.sound.lockedBeyond_le_apply hmove owner, fun moves hmoves => ?_⟩
  induction moves generalizing l with
  | nil => exact Nat.le_refl _
  | cons move rest ih =>
    have hfirst := h.sound.lockedBeyond_le_apply (hmoves move List.mem_cons_self) owner
    have hrest := ih (h.move move) fun other hother => hmoves other (List.mem_cons_of_mem _ hother)
    exact hfirst.trans hrest

/-- A lock of a hundred days is made longer, and is not given back: what is locked beyond its
fiftieth day does not become less. -/
theorem locked_until_of_extension :
    let alice : Address := ⟨List.replicate 20 1, rfl⟩
    let x : Timestamp := .ofNat (50 * day)
    let l := (Move.stake alice (Word.ofNat 1000) (.ofNat (100 * day)) alice (.ofNat 10)).apply
      (empty .default)
    let moves : List Move := [
      .extend alice (.ofNat (98 * day)) (.ofNat (200 * day)) (Word.ofNat 500) (.ofNat 20),
      .withdraw alice (.ofNat (196 * day)) x]
    l.lockedBeyond alice x = 1000 ∧
      1000 ≤ (moves.foldl (fun l move => move.apply l) l).lockedBeyond alice x := by
  intro alice x l moves
  have hl : Reachable .default l := (Reachable.create (by rfl)).move _
  have hlocked : l.lockedBeyond alice x = 1000 := by decide +kernel
  exact ⟨hlocked, hlocked ▸ (hl.locked_until alice x).2 moves (by decide +kernel)⟩

end Ledger

end StakeGovernance
