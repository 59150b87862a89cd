import StakeGovernance.Proofs.Past
import StakeGovernance.Proofs.Reports

/-!
# Stake follows the pointer

The delegate of an owner is kept in three places: as the pointer, in the history of the pointer,
and with each stake in the logs of the buckets. A call moves the pointer and attributes all live
stake of the owner anew in the same plan, and it leaves buckets behind that have ended or hold
nothing. So at every point, a bucket that ends later and holds something names the delegate that
the history gives for that point.

* `StakeGovernance.Plan.Names` – all **live stake on a plan** names the delegate of its owner,
  with what each move does to that;
* `StakeGovernance.Ledger.Faithful` – stake in a ledger **names the delegate in effect**, and
  the pointer is where its history ends;
* `StakeGovernance.Ledger.Faithful.written` – a plan that names the delegates it sets keeps a
  ledger **faithful**;
* `StakeGovernance.Ledger.Reachable.attribution_follows_pointer` – attribution **follows the
  pointer** on every ledger that calls lead to.
-/

namespace StakeGovernance

/-- **A stake names a delegate**, if it is a stake of anything at all. -/
def StakePoint.Names (s : StakePoint) (delegate : Address) : Prop :=
  s.amount.toNat ≠ 0 → s.delegate = delegate

/-! ### On a plan -/

namespace Plan

variable {p q : Plan} {l : Ledger} {owner target : Address} {bucket now : Timestamp}
  {amount staked : Amount} {stake : StakePoint} {delegate : Address → Address}

/-- **All live stake on a plan names the delegate of its owner.** -/
def Names (p : Plan) (l : Ledger) (now : Timestamp) (delegate : Address → Address) : Prop :=
  ∀ o b, now < b → (p.stakeOf l o b).Names (delegate o)

/-- The delegates once a plan for an owner is written. -/
def pointer (p : Plan) (l : Ledger) (owner o : Address) : Address :=
  if o = owner then p.delegate.getD (l.delegateOf owner) else l.delegateOf o

theorem pointer_of_none (h : p.delegate = none) (l : Ledger) (owner : Address) :
    p.pointer l owner = l.delegateOf := by
  funext o
  unfold pointer
  rw [h]
  exact l.delegateOf_ite owner o

theorem Names.of_eq (h : p.Names l now delegate) (hstakes : q.stakes = p.stakes) :
    q.Names l now delegate := by
  intro o b hlive
  have hnamed := h o b hlive
  unfold stakeOf at hnamed ⊢
  rwa [hstakes]

/-- A move keeps all named, if what it puts into a bucket is. -/
theorem Puts.names (h : Puts p q l owner bucket stake) (hp : p.Names l now delegate)
    (hstake : stake.Names (delegate owner)) : q.Names l now delegate := by
  intro o b hlive
  rw [h.stakeOf]
  split
  · rename_i hslot
    rw [hslot.1]
    exact hstake
  · exact hp o b hlive

/-- Adding to a bucket for the delegate of its owner. -/
theorem names_add (h : p.add l owner bucket amount (delegate owner) = .ok (q, staked))
    (hp : p.Names l now delegate) : q.Names l now delegate :=
  (add_spec h).1.names hp fun _ => rfl

/-- An empty bucket need not name anyone. -/
theorem names_remove (h : p.remove l owner bucket = .ok (q, stake)) (hp : p.Names l now delegate) :
    q.Names l now delegate :=
  (remove_spec h).1.names hp fun hamount => absurd rfl hamount

/-! ### Another delegate -/

/-- A bucket that was attributed to another delegate names it. -/
theorem names_reattribute (h : reattribute l owner target p bucket = .ok q) :
    (q.stakeOf l owner bucket).Names target := by
  unfold reattribute at h
  simp only at h
  split at h
  · rename_i hskip
    cases h
    intro hamount
    exact hskip.resolve_left fun hzero => hamount (Word.isZero_iff.1 hzero)
  · obtain ⟨r, -, hr⟩ := Checked.bind_eq_ok.1 h
    obtain ⟨r', -, hr⟩ := Checked.bind_eq_ok.1 hr
    cases hr
    rw [stakeOf_setStake, if_pos ⟨rfl, rfl⟩]
    exact fun _ => rfl

/-- What names a delegate already goes on to do so. -/
theorem names_reattribute_of_names (h : reattribute l owner target p bucket = .ok q) {b : Timestamp}
    (hb : (p.stakeOf l owner b).Names target) : (q.stakeOf l owner b).Names target := by
  rcases reattribute_spec h with rfl | hputs
  · exact hb
  · rw [hputs.stakeOf]
    split
    · exact fun _ => rfl
    · exact hb

/-- **A row of buckets** that was attributed to another delegate names it. -/
theorem names_foldlM {buckets : List Timestamp}
    (h : buckets.foldlM (reattribute l owner target) p = .ok q) {b : Timestamp}
    (hb : b ∈ buckets ∨ (p.stakeOf l owner b).Names target) :
    (q.stakeOf l owner b).Names target := by
  induction buckets generalizing p with
  | nil =>
    cases h
    exact hb.resolve_left List.not_mem_nil
  | cons bucket rest ih =>
    obtain ⟨r, hr, hrest⟩ := Checked.bind_eq_ok.1 h
    refine ih hrest ?_
    rcases hb with hmem | hnamed
    · rcases List.mem_cons.1 hmem with rfl | hmem
      · exact Or.inr (names_reattribute hr)
      · exact Or.inl hmem
    · exact Or.inr (names_reattribute_of_names hr hnamed)

/-- A bucket that an owner does not have holds nothing. -/
theorem amount_of_not_mem_bucketsOf (h : ∀ e ∈ l.bucketsOf owner, e.1 ≠ bucket) :
    (Plan.empty.stakeOf l owner bucket).amount.toNat = 0 := by
  show (((((l.stakes.get? owner).bind (·.get? bucket)).bind CheckpointLog.latest?).map
    Checkpoint.value).getD _).amount.toNat = 0
  unfold Ledger.bucketsOf at h
  cases hbuckets : l.stakes.get? owner with
  | none => rfl
  | some buckets =>
    rw [hbuckets] at h
    cases hlog : buckets.get? bucket with
    | none => rw [Option.bind_some, hlog]; rfl
    | some log => exact absurd rfl (h (bucket, log) (OrderedMap.get?_eq_some_iff.1 hlog))

/-- **When all live stake of an owner goes to another delegate**, it names that one, and all
other stake what it named before. -/
theorem names_redelegate (h : Plan.empty.redelegate l owner target now = .ok q)
    (hl : Plan.empty.Names l now l.delegateOf) : q.Names l now (q.pointer l owner) := by
  obtain ⟨hdelegate, hamounts⟩ := redelegate_amounts h
  have hother : ∀ o b, o ≠ owner → q.stakeOf l o b = Plan.empty.stakeOf l o b := by
    obtain ⟨r, hr, rfl⟩ := redelegate_keeps
      (P := fun r => ∀ o b, o ≠ owner → r.stakeOf l o b = Plan.empty.stakeOf l o b)
      (fun r s bucket hr hputs o b ho => by
        rw [hputs.stakeOf, if_neg fun e => ho e.1]
        exact hr o b ho) h fun _ _ _ => rfl
    exact hr
  intro o b hlive
  unfold pointer
  split
  · rename_i ho
    subst ho
    rw [hdelegate]
    obtain ⟨r, hfold, hr⟩ := Checked.bind_eq_ok.1 h
    cases hr
    -- a live bucket is one of those that are attributed anew, unless there is nothing in it
    by_cases hmem : ∃ e ∈ l.bucketsOf o, e.1 = b
    · obtain ⟨e, he, rfl⟩ := hmem
      exact names_foldlM hfold (Or.inl (List.mem_map_of_mem
        (List.mem_filter.2 ⟨he, decide_eq_true hlive⟩)))
    · intro hamount
      rw [hamounts] at hamount
      exact absurd (amount_of_not_mem_bucketsOf fun e he heq => hmem ⟨e, he, heq⟩) hamount
  · rename_i ho
    rw [hother o b ho]
    exact hl o b hlive

end Plan

/-! ### The pointer -/

/-- **A pointer that moves now** is where it moves to from now on, and all others stay. -/
theorem Delegation.delegateAt_pointed_of_le {d : Delegation} {o : Address} {now point : Timestamp}
    (h : (d.historyOf o).OrderedUpTo now) (hnow : d.delegateAt o point = d.delegateOf o)
    (hpoint : now ≤ point) (owner target : Address) :
    (d.pointed owner target now).delegateAt o point
      = (d.pointed owner target now).delegateOf o := by
  rw [delegateOf_pointed]
  unfold pointed
  split
  · rename_i hsame
    rw [hnow]
    split
    · rename_i ho
      rw [ho, hsame]
    · rfl
  · rw [delegateAt_eq]
    unfold historyOf
    dsimp only
    rw [OrderedMap.getD_insert_eq]
    split
    · rename_i ho
      subst ho
      have hput := h.valueAt_put target point
      rw [if_pos hpoint] at hput
      exact congrArg (Option.getD · o) hput
    · rw [← hnow, delegateAt_eq]
      rfl

namespace Ledger

variable {l m : Ledger} {owner target : Address} {source bucket unlock now point : Timestamp}
  {amount additional : Amount} {plan : Plan}

/-! ### What calls plan -/

theorem names_planStake {planned : Planned StakeReceipt}
    (h : l.planStake owner amount unlock target now = .ok planned)
    (hl : Plan.empty.Names l now l.delegateOf) :
    planned.plan.Names l now (planned.plan.pointer l owner) := by
  obtain ⟨bucket, p, p', staked, -, -, -, hp, hadd, htotal, -, -⟩ := planStake_eq_ok h
  have hdelegate : planned.plan.pointer l owner = p.pointer l owner := by
    unfold Plan.pointer
    rw [Plan.delegate_addTotal htotal, Plan.delegate_add hadd]
  -- the delegate that the stake is for is the one that the pointer will be at
  have hnamed : p.Names l now (p.pointer l owner) ∧ p.pointer l owner owner = target := by
    split at hp
    · rename_i hsame
      cases hp
      rw [Plan.pointer_of_none rfl]
      exact ⟨hl, hsame.symm⟩
    · refine ⟨Plan.names_redelegate hp hl, ?_⟩
      unfold Plan.pointer
      rw [if_pos rfl, (Plan.redelegate_amounts hp).1]
      rfl
  rw [hdelegate]
  rw [← hnamed.2] at hadd
  exact (Plan.names_add hadd hnamed.1).of_eq (Plan.addTotal_spec htotal).1

theorem names_planExtend {planned : Planned StakeReceipt}
    (h : l.planExtend owner source unlock additional now = .ok planned)
    (hl : Plan.empty.Names l now l.delegateOf) :
    planned.plan.Names l now (planned.plan.pointer l owner) := by
  obtain ⟨bucket, p, staked, -, -, -, -, -, hextended, htotal, -, -⟩ := planExtend_eq_ok h
  have hplan : planned.plan.stakes = p.stakes ∧ planned.plan.delegate = p.delegate := by
    split at htotal
    · cases htotal
      exact ⟨rfl, rfl⟩
    · exact ⟨(Plan.addTotal_spec htotal).1, Plan.delegate_addTotal htotal⟩
  have hmoved : p.Names l now l.delegateOf ∧ p.delegate = none := by
    rcases hextended with ⟨-, hadd⟩ | ⟨-, p', moved, moving, hremove, -, hadd⟩
    · exact ⟨Plan.names_add hadd hl, Plan.delegate_add hadd⟩
    · exact ⟨Plan.names_add hadd (Plan.names_remove hremove hl),
        (Plan.delegate_add hadd).trans (Plan.delegate_remove hremove)⟩
  rw [Plan.pointer_of_none (hplan.2.trans hmoved.2)]
  exact hmoved.1.of_eq hplan.1

theorem names_planWithdraw {planned : Planned Amount}
    (h : l.planWithdraw owner bucket now = .ok planned)
    (hl : Plan.empty.Names l now l.delegateOf) :
    planned.plan.Names l now (planned.plan.pointer l owner) := by
  obtain ⟨p, released, -, -, -, hremove, htotal, -, -⟩ := planWithdraw_eq_ok h
  rw [Plan.pointer_of_none ((Plan.delegate_subTotal htotal).trans (Plan.delegate_remove hremove))]
  exact (Plan.names_remove hremove hl).of_eq (Plan.subTotal_spec htotal).1

/-! ### Ledgers -/

/-- **Stake names the delegate in effect**: at every point, in every bucket that ends later, as
the history of the pointer has it; and the pointer is where its history ends. -/
structure Faithful (l : Ledger) : Prop where
  stakes : ∀ o b point s, point < b → (BucketLogs.log l.stakes o b).valueAt point = some s →
    s.Names (l.delegateAt o point)
  pointer : ∀ o point, l.lastPoint ≤ point → l.delegateAt o point = l.delegateOf o

/-- The newest content of a live bucket names the delegate of the owner. -/
theorem Faithful.names (h : l.Faithful) (hsound : l.Sound) (hclock : l.lastPoint ≤ now) :
    Plan.empty.Names l now l.delegateOf := by
  intro o b hlive hamount
  have hread := (hsound.stakes o b).valueAt_of_le hclock
  have hstake : Plan.empty.stakeOf l o b = ((BucketLogs.log l.stakes o b).latest?.map
      Checkpoint.value).getD ⟨.zero, l.delegateOf o⟩ := by
    show (((l.checkpoints? o b).bind CheckpointLog.latest?).map Checkpoint.value).getD _ = _
    unfold checkpoints?
    rw [BucketLogs.bind_log rfl]
    rfl
  rw [hstake] at hamount ⊢
  cases hlatest : (BucketLogs.log l.stakes o b).latest? with
  | none =>
    rw [hlatest] at hamount
    exact absurd rfl hamount
  | some c =>
    rw [hlatest] at hread hamount
    rw [← h.pointer o now hclock]
    exact h.stakes o b now c.value hlive hread hamount

/-- **What is read in a bucket** after a plan was written: from now on what was planned, if
anything was, and otherwise what was read before. -/
theorem Sound.valueAt_written (h : l.Sound) (hclock : l.lastPoint ≤ now) (o : Address)
    (b : Timestamp) : (BucketLogs.log (l.written owner plan now).stakes o b).valueAt point
      = if now ≤ point then
          (plan.stakes.get? ⟨o, b⟩).or ((BucketLogs.log l.stakes o b).valueAt point)
        else (BucketLogs.log l.stakes o b).valueAt point := by
  have hstakes : (l.written owner plan now).stakes = BucketLogs.putAll now l.stakes plan.stakes :=
    rfl
  rw [hstakes, BucketLogs.log_putAll]
  cases plan.stakes.get? ⟨o, b⟩ with
  | none => exact (ite_self _).symm
  | some stake => exact ((h.stakes.mono hclock) o b).valueAt_put stake point

/-- What is read in a bucket from now on is what the plan says of it. -/
theorem Sound.stakeOf_of_written (h : l.Sound) (hclock : l.lastPoint ≤ now) {o : Address}
    {b : Timestamp} {s : StakePoint} (hpoint : now ≤ point)
    (hread : (BucketLogs.log (l.written owner plan now).stakes o b).valueAt point = some s) :
    plan.stakeOf l o b = s := by
  rw [h.valueAt_written hclock, if_pos hpoint] at hread
  unfold Plan.stakeOf OrderedMap.getD
  cases hplan : plan.stakes.get? ⟨o, b⟩ with
  | some stake =>
    rw [hplan] at hread
    exact Option.some.inj hread
  | none =>
    rw [hplan, Option.none_or, ((h.stakes.mono hclock) o b).valueAt_of_le hpoint] at hread
    unfold latestStake checkpoints?
    rw [BucketLogs.bind_log rfl, hread]
    rfl

/-- **A plan keeps a ledger faithful**, if all live stake on it names the delegate that its
owner will have. -/
theorem Faithful.written (h : l.Faithful) (hsound : l.Sound) (hclock : l.lastPoint ≤ now)
    (hplan : plan.Names l now (plan.pointer l owner)) : (l.written owner plan now).Faithful := by
  have hpointer : ∀ o point, now ≤ point →
      (l.written owner plan now).delegateAt o point = (l.written owner plan now).delegateOf o := by
    intro o point hpoint
    have hnow := h.pointer o point (Nat.le_trans hclock hpoint)
    unfold Ledger.written
    cases plan.delegate with
    | none => exact hnow
    | some target =>
      exact Delegation.delegateAt_pointed_of_le ((hsound.history o).mono hclock) hnow hpoint _ _
  refine ⟨fun o b point s hlive hread => ?_, hpointer⟩
  by_cases hpoint : now ≤ point
  · -- from now on, what was planned is in effect
    rw [hpointer o point hpoint, delegateOf_written,
      ← hsound.stakeOf_of_written hclock hpoint hread]
    exact hplan o b (Nat.lt_of_le_of_lt hpoint hlive)
  · -- before, nothing has changed
    rw [hsound.delegateAt_written hclock (Nat.lt_of_not_le hpoint)]
    rw [hsound.valueAt_written hclock, if_neg hpoint] at hread
    exact h.stakes o b point s hlive hread

/-! ### Calls -/

/-- What is not noticed yet has no part in who names whom. -/
theorem Faithful.withEvents (h : l.Faithful) (events : List StakingEvent) :
    ({ l with events } : Ledger).Faithful := ⟨h.stakes, h.pointer⟩

/-- On what a call writes, all live stake names the delegate that its owner will have. -/
theorem Plans.names (hplan : Plans l owner now plan) (hl : Plan.empty.Names l now l.delegateOf) :
    plan.Names l now (plan.pointer l owner) := by
  cases hplan with
  | stake h => exact names_planStake h hl
  | extend h => exact names_planExtend h hl
  | withdraw h => exact names_planWithdraw h hl
  | delegate h => exact Plan.names_redelegate (planDelegate_eq_ok h).2.2.1 hl

/-- **No call makes a faithful ledger unfaithful.** -/
theorem Faithful.apply (h : l.Faithful) (hsound : l.Sound) (move : Move) :
    (move.apply l).Faithful := by
  rcases move.apply_cases l with ⟨events, hsame⟩ | ⟨owner, now, plan, events, hplan, hwritten⟩
  · exact hsame ▸ h.withEvents events
  · obtain ⟨hclock, -⟩ := hplan.balanced hsound
    exact hwritten ▸ (h.written hsound hclock
      (hplan.names (h.names hsound hclock))).withEvents events

theorem faithful_create {params : StakingParams} (h : create params = .ok l) : l.Faithful := by
  obtain ⟨_, -, hl⟩ := Checked.bind_eq_ok.1 h
  cases hl
  refine ⟨fun _ _ _ _ _ hread => ?_, fun _ _ _ => rfl⟩
  cases hread

/-- **Ledgers that calls lead to are faithful.** -/
theorem Reachable.faithful {params : StakingParams} (h : Reachable params l) : l.Faithful := by
  induction h with
  | create h => exact faithful_create h
  | move hreach move ih => exact ih.apply hreach.sound move

/-- **Attribution follows the pointer.** On every ledger that calls lead to, at every point, a
bucket that ends later and holds something has a checkpoint in effect there, and it names the
delegate that the owner has at that point. From the latest point on, the delegate at a point
is the delegate that the owner has now. -/
theorem Reachable.attribution_follows_pointer {params : StakingParams} (h : Reachable params l)
    (owner : Address) :
    (∀ point bucket, point < bucket → 0 < (l.amountAt owner bucket point).toNat →
      ∃ log stake, l.checkpoints? owner bucket = some log ∧ log.valueAt point = some stake ∧
        stake.delegate = l.delegateAt owner point) ∧
      ∀ point, l.lastPoint ≤ point → l.delegateAt owner point = l.delegateOf owner := by
  refine ⟨fun point bucket hlive hamount => ?_, h.faithful.pointer owner⟩
  unfold amountAt at hamount
  cases hlog : l.checkpoints? owner bucket with
  | none =>
    rw [hlog] at hamount
    exact absurd hamount (Nat.lt_irrefl 0)
  | some log =>
    rw [hlog, Option.bind_some] at hamount
    cases hread : log.valueAt point with
    | none =>
      rw [hread] at hamount
      exact absurd hamount (Nat.lt_irrefl 0)
    | some stake =>
      rw [hread] at hamount
      have hbucket : (BucketLogs.log l.stakes owner bucket).valueAt point = some stake := by
        rw [← BucketLogs.bind_log (f := fun log => log.valueAt point) rfl]
        show (l.checkpoints? owner bucket).bind _ = _
        rw [hlog]
        exact hread
      exact ⟨log, stake, rfl, hread,
        h.faithful.stakes owner bucket point stake hlive hbucket (Nat.ne_of_gt hamount)⟩

/-- The delegate is changed twice at one point, and all that is staked moves to a later bucket
afterwards: the bucket that it was in names the second delegate in between, and the owner before. -/
theorem attribution_follows_pointer_of_two_changes :
    let alice : Address := ⟨List.replicate 20 1, rfl⟩
    let bob : Address := ⟨List.replicate 20 2, rfl⟩
    let carol : Address := ⟨List.replicate 20 3, rfl⟩
    let bucket : Timestamp := .ofNat (98 * day)
    let moves : List Move := [
      .stake alice (Word.ofNat 1000) (.ofNat (100 * day)) alice (.ofNat 10),
      .delegate alice bob (.ofNat 30),
      .delegate alice carol (.ofNat 30),
      .extend alice bucket (.ofNat (200 * day)) .zero (.ofNat 40)]
    let l := moves.foldl (fun l move => move.apply l) (empty .default)
    (∃ log stake, l.checkpoints? alice bucket = some log ∧
        log.valueAt (.ofNat 20) = some stake ∧ stake.delegate = alice) ∧
      (∃ log stake, l.checkpoints? alice bucket = some log ∧
        log.valueAt (.ofNat 30) = some stake ∧ stake.delegate = carol) ∧
      l.delegateAt alice (.ofNat 50) = l.delegateOf alice := by
  intro alice bob carol bucket moves l
  have hl : Reachable .default l := (Reachable.create (by rfl)).moves moves
  obtain ⟨hstakes, hpointer⟩ := hl.attribution_follows_pointer alice
  have hbefore : l.delegateAt alice (.ofNat 20) = alice := by decide +kernel
  have hbetween : l.delegateAt alice (.ofNat 30) = carol := by decide +kernel
  obtain ⟨log, stake, hlog, hread, hnames⟩ := hstakes (.ofNat 20) bucket (by decide +kernel)
    (by decide +kernel)
  obtain ⟨log', stake', hlog', hread', hnames'⟩ := hstakes (.ofNat 30) bucket (by decide +kernel)
    (by decide +kernel)
  exact ⟨⟨log, stake, hlog, hread, hnames.trans hbefore⟩,
    ⟨log', stake', hlog', hread', hnames'.trans hbetween⟩,
    hpointer (.ofNat 50) (by decide +kernel)⟩

end Ledger

end StakeGovernance
