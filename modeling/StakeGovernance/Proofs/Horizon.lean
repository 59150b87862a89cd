import Mathlib.Algebra.Order.Floor.Div
import StakeGovernance.Proofs.Calendar
import StakeGovernance.Proofs.Footprints

/-!
# Buckets on the calendar and within reach

Stake comes into buckets by two calls only, and both put it into a bucket of the calendar that is
no further off than the longest lock. What is moved later stays in its bucket, or goes to another
one that a lock was granted in. So at every point, also at one of the past, whatever holds something
ends within the longest lock from there, and of the buckets that have not ended only so many hold
anything as the calendar has points in that span. That is how many terms a voting power has.

* `StakeGovernance.StakingParams.card_onCalendar_le` – **how many points of the calendar** there are
  in a span;
* `StakeGovernance.Plan.FillsOnly` – a plan on which **only buckets with a property** hold anything;
* `StakeGovernance.Ledger.Near`, `StakeGovernance.Ledger.WithinReach` – **the invariant** of a
  ledger;
* `StakeGovernance.Ledger.Reachable.buckets_within_reach` – the calendar, the reach and **the number
  of live buckets**, on every ledger that calls lead to.
-/

namespace StakeGovernance

/-! ### Counting points of the calendar -/

namespace StakingParams

variable {p : StakingParams} {b c point : Timestamp}

/-- Sound parameters have a calendar that goes on. -/
theorem interval_pos (h : p.validate = .ok ()) : 0 < p.bucketInterval.toNat := by
  obtain ⟨_, -, h⟩ := Checked.bind_eq_ok.1 h
  split at h
  · cases h
  · rename_i hinterval
    exact Nat.pos_of_ne_zero fun hzero => hinterval (.inl (Word.isZero_iff.2 hzero))

/-- **Two points of the calendar** that are closer than its width are one. -/
theorem OnCalendar.eq (hb : p.OnCalendar b) (hc : p.OnCalendar c)
    (hbc : b.toNat < c.toNat + p.bucketInterval.toNat)
    (hcb : c.toNat < b.toNat + p.bucketInterval.toNat) : b = c := by
  obtain ⟨j, hj⟩ := hb
  obtain ⟨k, hk⟩ := hc
  have hjk : j * p.bucketInterval.toNat < (k + 1) * p.bucketInterval.toNat := by
    rw [Nat.succ_mul]
    omega
  have hkj : k * p.bucketInterval.toNat < (j + 1) * p.bucketInterval.toNat := by
    rw [Nat.succ_mul]
    omega
  have hsame : j = k := Nat.le_antisymm (Nat.lt_succ_iff.1 (Nat.lt_of_mul_lt_mul_right hjk))
    (Nat.lt_succ_iff.1 (Nat.lt_of_mul_lt_mul_right hkj))
  exact Word.ext (by rw [hj, hk, hsame])

/-- **How many points of the calendar** there are in a span: its length by the width, rounded up. -/
theorem card_onCalendar_le (hinterval : 0 < p.bucketInterval.toNat) (point : Timestamp) {span : ℕ}
    {buckets : Finset Timestamp} (h : ∀ b ∈ buckets, p.OnCalendar b ∧ point < b ∧
      b.toNat ≤ point.toNat + span) : buckets.card ≤ span ⌈/⌉ p.bucketInterval.toNat := by
  -- the span is cut into pieces as wide as the calendar, and no two points share one
  let piece (b : Timestamp) : ℕ := (b.toNat - point.toNat - 1) / p.bucketInterval.toNat
  have hpiece : ∀ b ∈ buckets, piece b ∈ Finset.range (span ⌈/⌉ p.bucketInterval.toNat) := by
    intro b hb
    obtain ⟨-, hafter, hle⟩ := h b hb
    have hafter : point.toNat < b.toNat := hafter
    have hspan : span ≤ p.bucketInterval.toNat * (span ⌈/⌉ p.bucketInterval.toNat) :=
      le_smul_ceilDiv hinterval
    refine Finset.mem_range.2 ((Nat.div_lt_iff_lt_mul hinterval).2 ?_)
    rw [Nat.mul_comm]
    omega
  have hinjective : Set.InjOn piece buckets := by
    intro b hb c hc hsame
    obtain ⟨hcalendar, hafter, -⟩ := h b hb
    obtain ⟨hcalendar', hafter', -⟩ := h c hc
    have hafter : point.toNat < b.toNat := hafter
    have hafter' : point.toNat < c.toNat := hafter'
    have hb := Nat.div_add_mod' (b.toNat - point.toNat - 1) p.bucketInterval.toNat
    have hc := Nat.div_add_mod' (c.toNat - point.toNat - 1) p.bucketInterval.toNat
    have hsame : (b.toNat - point.toNat - 1) / p.bucketInterval.toNat
      = (c.toNat - point.toNat - 1) / p.bucketInterval.toNat := hsame
    have hrest := Nat.mod_lt (b.toNat - point.toNat - 1) hinterval
    have hrest' := Nat.mod_lt (c.toNat - point.toNat - 1) hinterval
    rw [hsame] at hb
    exact hcalendar.eq hcalendar' (by omega) (by omega)
  calc buckets.card ≤ (Finset.range (span ⌈/⌉ p.bucketInterval.toNat)).card :=
        Finset.card_le_card_of_injOn piece hpiece hinjective
    _ = span ⌈/⌉ p.bucketInterval.toNat := Finset.card_range _

end StakingParams

/-! ### Plans -/

variable {l : Ledger} {owner target : Address} {bucket now point : Timestamp}
  {amount staked : Amount} {R : Timestamp → Prop}

namespace Plan

variable {p q : Plan} {stake : StakePoint}

/-- **Only buckets with a property hold anything** on a plan. -/
def FillsOnly (R : Timestamp → Prop) (p : Plan) (l : Ledger) : Prop :=
  ∀ o b, (p.stakeOf l o b).amount.toNat ≠ 0 → R b

theorem FillsOnly.puts (h : p.FillsOnly R l) (hputs : Puts p q l owner bucket stake)
    (hbucket : stake.amount.toNat ≠ 0 → R bucket) : q.FillsOnly R l := by
  intro o b hamount
  rw [hputs.amount_eq] at hamount
  split at hamount
  · rename_i hput
    exact hput.2 ▸ hbucket hamount
  · exact h o b hamount

theorem FillsOnly.of_eq (h : p.FillsOnly R l) (hstakes : q.stakes = p.stakes) :
    q.FillsOnly R l := fun o b hamount => h o b (amount_of_eq hstakes o b ▸ hamount)

theorem FillsOnly.add (h : p.FillsOnly R l) (hbucket : R bucket)
    (hq : p.add l owner bucket amount target = .ok (q, staked)) : q.FillsOnly R l :=
  h.puts (add_spec hq).1 fun _ => hbucket

theorem FillsOnly.remove (h : p.FillsOnly R l)
    (hq : p.remove l owner bucket = .ok (q, stake)) : q.FillsOnly R l :=
  h.puts (remove_spec hq).1 fun hzero => absurd rfl hzero

theorem FillsOnly.redelegate (h : p.FillsOnly R l)
    (hq : p.redelegate l owner target now = .ok q) : q.FillsOnly R l := fun o b hamount =>
  h o b ((redelegate_amounts hq).2 o b ▸ hamount)

end Plan

/-! ### Calls -/

namespace Ledger

variable {unlock : Timestamp}

/-- **What any call writes** fills a bucket that a lock was granted in, or none. -/
theorem Plans.fillsOnly {plan : Plan} (hplan : Plans l owner now plan)
    (hl : Plan.empty.FillsOnly R l)
    (hlock : ∀ unlock b, l.lockBucket unlock now = .ok b → R b) : plan.FillsOnly R l := by
  cases hplan with
  | stake h =>
    obtain ⟨b, p, p', staked, -, hb, -, hp, hadd, htotal, -, -⟩ := planStake_eq_ok h
    have hredelegated : p.FillsOnly R l := by
      split at hp
      · cases hp
        exact hl
      · exact hl.redelegate hp
    exact (hredelegated.add (hlock _ b hb) hadd).of_eq (Plan.addTotal_spec htotal).1
  | extend h =>
    obtain ⟨b, p, staked, -, -, -, hb, -, hextended, htotal, -, -⟩ := planExtend_eq_ok h
    have hextended : p.FillsOnly R l := by
      rcases hextended with ⟨-, hadd⟩ | ⟨-, p', moved, moving, hremove, -, hadd⟩
      · exact hl.add (hlock _ b hb) hadd
      · exact (hl.remove hremove).add (hlock _ b hb) hadd
    split at htotal
    · cases htotal
      exact hextended
    · exact hextended.of_eq (Plan.addTotal_spec htotal).1
  | withdraw h =>
    obtain ⟨p, released, -, -, -, hremove, htotal, -, -⟩ := planWithdraw_eq_ok h
    exact (hl.remove hremove).of_eq (Plan.subTotal_spec htotal).1
  | delegate h => exact hl.redelegate (planDelegate_eq_ok h).2.2.1

/-! ### Ledgers -/

/-- **A bucket that is near**: it ends within the longest lock from a point. -/
def Near (l : Ledger) (point b : Timestamp) : Prop :=
  b.toNat ≤ point.toNat + l.params.curve.maxDuration.toNat

/-- **The buckets of a ledger are within reach**: those that have a log are on the calendar, and
those that hold something at a point are near it. -/
structure WithinReach (l : Ledger) : Prop where
  calendar : ∀ account b, ¬ l.params.OnCalendar b →
    l.delegation.log? account b = none ∧ l.checkpoints? account b = none
  reach : ∀ o b point, (l.amountAt o b point).toNat ≠ 0 → l.Near point b

/-- A bucket that an owner has is on the calendar. -/
theorem WithinReach.onCalendar (h : l.WithinReach) (owner : Address) :
    ∀ e ∈ l.bucketsOf owner, l.params.OnCalendar e.1 := by
  intro e he
  by_contra hoff
  have hnone := (h.calendar owner e.1 hoff).2
  unfold checkpoints? at hnone
  unfold bucketsOf at he
  cases hbuckets : l.stakes.get? owner with
  | none =>
    rw [hbuckets] at he
    cases he
  | some buckets =>
    rw [hbuckets] at he hnone
    cases hnone.symm.trans (OrderedMap.get?_eq_some_iff.2 he)

/-- The buckets that hold something now are near. -/
theorem WithinReach.fillsOnly (h : l.WithinReach) (hsound : l.Sound) (hclock : l.lastPoint ≤ now) :
    Plan.empty.FillsOnly (l.Near now) l := by
  intro o b hamount
  refine h.reach o b now ?_
  rwa [toNat_amountAt, hsound.reading_stakes size_zero hclock]

/-- **A plan keeps the buckets within reach**, if it writes to the calendar only and leaves nothing
in a bucket that is too far off. -/
theorem WithinReach.written (h : l.WithinReach) (hsound : l.Sound) (hclock : l.lastPoint ≤ now)
    {plan : Plan} (hwithin : plan.Within l.params.OnCalendar)
    (hfills : plan.FillsOnly (l.Near now) l) : (l.written owner plan now).WithinReach := by
  refine ⟨fun account b hoff => ?_, fun o b point hamount => ?_⟩
  · obtain ⟨hdelegated, hstakes⟩ := hwithin.logs_written hoff l owner account
    rw [hdelegated, hstakes]
    exact h.calendar account b hoff
  · rw [toNat_amountAt, hsound.stakes_written size_zero hclock] at hamount
    split at hamount
    · rename_i hle
      exact Nat.le_trans (hfills o b hamount) (Nat.add_le_add_right hle _)
    · exact h.reach o b point (by rwa [toNat_amountAt])

/-- What is not noticed yet has no part in where the buckets are. -/
theorem WithinReach.withEvents (h : l.WithinReach) (events : List StakingEvent) :
    ({ l with events } : Ledger).WithinReach := ⟨h.calendar, h.reach⟩

/-- What is granted to a lock is on the calendar, and near. -/
theorem onCalendar_of_lockBucket {b : Timestamp} (h : l.lockBucket unlock now = .ok b) :
    l.params.OnCalendar b :=
  (lockBucket_eq_ok.1 h).1 ▸ l.params.onCalendar_quantize unlock

theorem near_of_lockBucket {b : Timestamp} (h : l.lockBucket unlock now = .ok b) : l.Near now b :=
  (lockBucket_eq_ok.1 h).2.2

/-- **No call leads beyond reach.** -/
theorem WithinReach.apply (h : l.WithinReach) (hsound : l.Sound) (move : Move) :
    (move.apply l).WithinReach := by
  rcases move.apply_cases l with ⟨events, hsame⟩ | ⟨owner, now, plan, events, hplan, hwritten⟩
  · exact hsame ▸ h.withEvents events
  · obtain ⟨hclock, -⟩ := hplan.balanced hsound
    have hwithin := hplan.within (h.onCalendar owner) fun _ _ => onCalendar_of_lockBucket
    have hfills := hplan.fillsOnly (h.fillsOnly hsound hclock) fun _ _ => near_of_lockBucket
    exact hwritten ▸ (h.written hsound hclock hwithin hfills).withEvents events

theorem withinReach_create {params : StakingParams} (h : create params = .ok l) :
    l.WithinReach := by
  obtain ⟨_, -, hl⟩ := Checked.bind_eq_ok.1 h
  cases hl
  exact ⟨fun _ _ _ => ⟨rfl, rfl⟩, fun _ _ _ hamount => absurd rfl hamount⟩

/-- **On ledgers that calls lead to, the buckets are within reach.** -/
theorem Reachable.withinReach {params : StakingParams} (h : Reachable params l) :
    l.WithinReach := by
  induction h with
  | create h => exact withinReach_create h
  | move hreach move ih => exact ih.apply hreach.sound move

/-! ### Live buckets -/

/-- What is attributed in a bucket is some owner's stake there. -/
theorem Sound.exists_owner_of_attributed (h : l.Sound) {account : Address} {b : Timestamp}
    (hamount : (l.delegation.amountAt account b point).toNat ≠ 0) :
    ∃ o, (l.amountAt o b point).toNat ≠ 0 := by
  rw [amountAt_eq, h.attributed] at hamount
  obtain ⟨o, -, hshare⟩ := Finset.exists_ne_zero_of_sum_ne_zero hamount
  refine ⟨o, fun hnone => hshare ?_⟩
  rw [toNat_amountAt] at hnone
  unfold BucketLogs.reading at hnone ⊢
  cases hread : (BucketLogs.log l.stakes o b).valueAt point with
  | none => rfl
  | some s =>
    rw [hread] at hnone
    exact StakePoint.share_of_amount hnone account

/-- A bucket in which an account has something at a point is on the calendar, and near. -/
theorem WithinReach.of_amountAt (h : l.WithinReach) {o : Address} {b : Timestamp}
    (hamount : (l.amountAt o b point).toNat ≠ 0) :
    l.params.OnCalendar b ∧ l.Near point b := by
  refine ⟨?_, h.reach o b point hamount⟩
  by_contra hoff
  refine hamount ?_
  unfold amountAt
  rw [(h.calendar o b hoff).2]
  rfl

/-- **Buckets are on the calendar and within reach.** On every ledger that calls lead to: a bucket
that has a log, of stakes or of what is attributed, is on the calendar; a bucket that holds
something at a point, of now or of the past, ends within the longest lock from there; and of the
buckets that end after a point no more hold anything there, be it of an owner or attributed to a
delegatee, than the longest lock has widths of a bucket, rounded up. -/
theorem Reachable.buckets_within_reach {params : StakingParams} (h : Reachable params l) :
    (∀ account b, (l.checkpoints? account b).isSome ∨ (l.delegation.log? account b).isSome →
      params.OnCalendar b) ∧
    (∀ owner b point, 0 < (l.amountAt owner b point).toNat →
      b.toNat ≤ point.toNat + params.curve.maxDuration.toNat) ∧
    ∀ point (buckets : Finset Timestamp),
      (∀ b ∈ buckets, point < b ∧ ∃ account, 0 < (l.amountAt account b point).toNat ∨
        0 < (l.delegation.amountAt account b point).toNat) →
      buckets.card ≤ params.curve.maxDuration.toNat ⌈/⌉ params.bucketInterval.toNat := by
  obtain ⟨rfl, hvalid⟩ := h.params_eq
  refine ⟨fun account b hlog => ?_,
    fun owner b point hamount => h.withinReach.reach owner b point (Nat.ne_of_gt hamount),
    fun point buckets hbuckets => ?_⟩
  · by_contra hoff
    obtain ⟨hdelegated, hstakes⟩ := h.withinReach.calendar account b hoff
    rw [hdelegated, hstakes] at hlog
    rcases hlog with hlog | hlog <;> cases hlog
  · refine StakingParams.card_onCalendar_le (StakingParams.interval_pos hvalid) point fun b hb => ?_
    obtain ⟨hlive, account, hamount⟩ := hbuckets b hb
    obtain ⟨o, hheld⟩ : ∃ o, (l.amountAt o b point).toNat ≠ 0 := by
      rcases hamount with hheld | hattributed
      · exact ⟨account, Nat.ne_of_gt hheld⟩
      · exact h.sound.exists_owner_of_attributed (Nat.ne_of_gt hattributed)
    obtain ⟨hcalendar, hreach⟩ := h.withinReach.of_amountAt hheld
    exact ⟨hcalendar, hlive, hreach⟩

/-- A calendar of hundreds and locks of at most 250: at 1099 there are three buckets within reach,
and all three of them can be filled. -/
theorem buckets_within_reach_of_three :
    let alice : Address := ⟨List.replicate 20 1, rfl⟩
    let bob : Address := ⟨List.replicate 20 2, rfl⟩
    let params : StakingParams :=
      ⟨.ofNat 1000, .ofNat 100, ⟨.ofNat 10000, .ofNat 30000, .ofNat 250⟩⟩
    let moves : List Move := [
      .stake alice (Word.ofNat 1) (.ofNat 1150) bob (.ofNat 1010),
      .stake alice (Word.ofNat 2) (.ofNat 1200) bob (.ofNat 1010),
      .stake alice (Word.ofNat 3) (.ofNat 1349) bob (.ofNat 1099)]
    let l := moves.foldl (fun l move => move.apply l) (empty params)
    let buckets : Finset Timestamp := {.ofNat 1100, .ofNat 1200, .ofNat 1300}
    (∀ b ∈ buckets, Word.ofNat 1099 < b ∧
        0 < (l.delegation.amountAt bob b (.ofNat 1099)).toNat) ∧
      buckets.card = 3 ∧ buckets.card ≤ 250 ⌈/⌉ 100 ∧ params.OnCalendar (.ofNat 1300) ∧
      (Word.ofNat 1300 : Timestamp).toNat ≤ (Word.ofNat 1099 : Timestamp).toNat + 250 := by
  intro alice bob params moves l buckets
  have hl : Reachable params l := (Reachable.create (by rfl)).moves moves
  have hbuckets : ∀ b ∈ buckets, Word.ofNat 1099 < b ∧
      0 < (l.delegation.amountAt bob b (.ofNat 1099)).toNat := by
    rw [Finset.forall_mem_insert, Finset.forall_mem_insert]
    refine ⟨by decide +kernel, by decide +kernel, fun b hb => ?_⟩
    obtain rfl := Finset.mem_singleton.1 hb
    decide +kernel
  obtain ⟨hcalendar, hreach, hcard⟩ := hl.buckets_within_reach
  refine ⟨hbuckets, by decide +kernel, ?_, ?_, ?_⟩
  · exact hcard (.ofNat 1099) buckets fun b hb => ⟨(hbuckets b hb).1, bob, .inr (hbuckets b hb).2⟩
  · exact hcalendar alice (.ofNat 1300) (.inl (by decide +kernel))
  · exact hreach alice (.ofNat 1300) (.ofNat 1099) (by decide +kernel)

end Ledger

end StakeGovernance
