import StakeGovernance.Proofs.Decay
import StakeGovernance.Proofs.Footprints
import StakeGovernance.Proofs.NewDelegates
import StakeGovernance.Proofs.Strangers

/-!
# Power that moves

An extension moves stake of an owner to a bucket that ends later, and a delegation moves it from
one account to another. What moves is an amount, and not a weight: each bucket of an account is
weighed as a whole, together with what others have attributed to the account there, and is rounded
down. So an account does not lose or gain what the amount weighs on its own, but is off by less than
one unit of power for each bucket, and always to the same side. That is one inequality about units
that come in and units that go out, stated for all buckets at once, and what is said below of
extensions and of delegations are instances of it.

* `StakeGovernance.WeightCurve.weigh_exchange` – units that are **exchanged in one bucket**;
* `StakeGovernance.WeightCurve.weighed_exchange` – units that are exchanged **in all buckets**;
* `StakeGovernance.WeightCurve.weighed_moved` – units that are **moved between two accounts**;
* `StakeGovernance.Plan.Due.amount_add` – what a call of an owner **takes from an account and adds
  to it**;
* `StakeGovernance.Ledger.Reachable.extension_costs_only_rounding` – an extension costs the
  delegate **at most one unit** of power;
* `StakeGovernance.Ledger.Reachable.delegation_conserves_power` – a delegation moves the live
  amounts, and power is conserved **up to one unit for each bucket**.
-/

namespace StakeGovernance

variable {l m : Ledger} {owner target account : Address} {bucket now : Timestamp} {plan : Plan}

/-! ### Rounding -/

namespace WeightCurve

/-- **Units that are exchanged in one bucket**: what is left after some units came in and others
went out weighs at least what there was and what came in weigh, less what went out weighs, up to
one unit of power if anything went out at all. -/
theorem weigh_exchange (c : WeightCurve) {before after gain loss : ℕ}
    (h : after + loss = before + gain) (remaining : Timestamp) :
    c.weigh before remaining + c.weigh gain remaining
      ≤ c.weigh after remaining + c.weigh loss remaining + if loss = 0 then 0 else 1 := by
  by_cases hended : remaining.isZero = true
  · simp [weigh, hended]
  · simp only [weigh, if_neg hended]
    generalize (c.multiplier remaining).toNat = factor
    have hweighed : after * factor + loss * factor = before * factor + gain * factor := by
      rw [← Nat.add_mul, h, Nat.add_mul]
    split
    · rename_i hnone
      rw [hnone, Nat.zero_mul] at hweighed
      omega
    · omega

/-- **What units in all buckets weigh** at a point: those in buckets that end later. -/
noncomputable def weighed (c : WeightCurve) (now : Timestamp) (units : Timestamp → ℕ) : ℕ :=
  ∑ b, if now < b then c.weigh (units b) (b.monus now) else 0

/-- **In how many live buckets** there are any units. -/
noncomputable def parts (now : Timestamp) (units : Timestamp → ℕ) : ℕ :=
  ∑ b, if now < b ∧ units b ≠ 0 then 1 else 0

/-- **Units that are exchanged in all buckets**: the power that is lost beyond the weight of what
went out is at most one unit for each bucket from which anything did. -/
theorem weighed_exchange (c : WeightCurve) (before after gain loss : Timestamp → ℕ)
    (h : ∀ b, now < b → after b + loss b = before b + gain b) :
    c.weighed now before + c.weighed now gain
      ≤ c.weighed now after + c.weighed now loss + parts now loss := by
  unfold weighed parts
  simp only [← Finset.sum_add_distrib]
  refine Finset.sum_le_sum fun b _ => ?_
  by_cases hlive : now < b
  · simpa [hlive] using c.weigh_exchange (h b hlive) (b.monus now)
  · simp [hlive]

@[simp] theorem weighed_zero (c : WeightCurve) (now : Timestamp) :
    c.weighed now (fun _ => 0) = 0 := by
  simp [weighed]

@[simp] theorem parts_zero (now : Timestamp) : parts now (fun _ => 0) = 0 := by
  simp [parts]

/-- **Units that are moved** from one account to another, in all buckets: what the two weigh
together changes by at most one unit for each bucket in which anything was moved. -/
theorem weighed_moved (c : WeightCurve) {source source' target target' moved : Timestamp → ℕ}
    (hsource : ∀ b, now < b → source' b + moved b = source b)
    (htarget : ∀ b, now < b → target' b = target b + moved b) :
    c.weighed now source + c.weighed now target
        ≤ c.weighed now source' + c.weighed now target' + parts now moved ∧
      c.weighed now source' + c.weighed now target'
        ≤ c.weighed now source + c.weighed now target + parts now moved := by
  -- the source gives what is moved for nothing, and the target gets it for nothing
  have hgiven := c.weighed_exchange source source' (fun _ => 0) moved hsource
  have hgiven' := c.weighed_exchange source' source moved (fun _ => 0)
    fun b hb => (hsource b hb).symm
  have hgot := c.weighed_exchange target target' moved (fun _ => 0) htarget
  have hgot' := c.weighed_exchange target' target (fun _ => 0) moved
    fun b hb => (htarget b hb).symm
  simp only [weighed_zero, parts_zero] at hgiven hgiven' hgot hgot'
  omega

/-- Units in a single bucket. -/
theorem weighed_single (c : WeightCurve) (hlive : now < bucket) (units : ℕ) :
    c.weighed now (fun b => if b = bucket then units else 0)
      = c.weigh units (bucket.monus now) := by
  unfold weighed
  rw [Fintype.sum_eq_single bucket fun b hb => by simp [hb], if_pos hlive]
  exact congrArg (c.weigh · _) (if_pos rfl)

theorem parts_single_le (now bucket : Timestamp) (units : ℕ) :
    parts now (fun b => if b = bucket then units else 0) ≤ 1 := by
  unfold parts
  rw [Fintype.sum_eq_single bucket fun b hb => by simp [hb]]
  split <;> omega

end WeightCurve

/-! ### What an owner has a part in -/

/-- A stake that names a delegate is part of what the delegate is attributed, and of nothing
else. -/
theorem StakePoint.Names.share_eq {s : StakePoint} {delegate : Address} (h : s.Names delegate)
    (account : Address) : s.share account = if account = delegate then s.amount.toNat else 0 := by
  by_cases hsame : account = delegate
  · rw [if_pos hsame, share]
    by_cases hamount : s.amount.toNat = 0
    · rw [hamount, ite_self]
    · rw [if_pos (hsame.trans (h hamount).symm)]
  · rw [if_neg hsame, h.share_eq_zero hsame]

namespace Ledger

/-- **The power of an account** is what is attributed to it, weighed. -/
theorem Sound.power_eq_weighed (h : l.Sound) (hlast : l.lastPoint ≤ now) (account : Address) :
    l.power account now
      = l.params.curve.weighed now fun b => (l.delegation.amount account b).toNat := by
  refine Finset.sum_congr rfl fun b _ => ?_
  by_cases hlive : now < b
  · rw [h.bucketPower_eq hlast hlive, if_pos hlive]
  · rw [bucketPower, if_neg hlive, if_neg hlive]

/-- **The part of an owner** in what is attributed in a bucket that ends later: all it has there,
and it is its delegate's. -/
theorem Faithful.reading_share (h : l.Faithful) (hsound : l.Sound) (hlast : l.lastPoint ≤ now)
    (hlive : now < bucket) (owner account : Address) :
    BucketLogs.reading (StakePoint.share account) l.stakes owner bucket now
      = if account = l.delegateOf owner then (l.amountOf owner bucket).toNat else 0 := by
  rw [hsound.reading_stakes (share_zero account) hlast]
  exact (h.names hsound hlast owner bucket hlive).share_eq account

end Ledger

namespace Plan

variable (hl : l.Sound) (hfaithful : l.Faithful) (h : plan.Due l owner now)

include hl hfaithful h

/-- **What a call of an owner takes from an account and adds to it**, in each live bucket: it takes
what the owner had there if the account was its delegate, and adds what the owner has there now if
the account is. -/
theorem Due.amount_add (hlive : now < bucket) (account : Address) :
    ((l.written owner plan now).delegation.amount account bucket).toNat
        + (if account = l.delegateOf owner then (l.amountOf owner bucket).toNat else 0)
      = (l.delegation.amount account bucket).toNat
        + (if account = (l.written owner plan now).delegateOf owner
          then ((l.written owner plan now).amountOf owner bucket).toNat else 0) := by
  have hsound := h.sound hl
  have hlast : (l.written owner plan now).lastPoint ≤ now := Nat.le_refl _
  -- of the shares that make up the amount, only the one of the owner is another one
  have hsum := sum_add_of_eq_off (i := owner)
    (f := fun o => BucketLogs.reading (StakePoint.share account) (l.written owner plan now).stakes o
      bucket now)
    (g := fun o => BucketLogs.reading (StakePoint.share account) l.stakes o bucket now)
    fun o ho => (Ledger.sameFor_written h.alike (Ne.symm ho) l now).reading_eq _ bucket now
  rw [(h.faithful hl hfaithful).reading_share hsound hlast hlive,
    hfaithful.reading_share hl h.clock hlive] at hsum
  rw [← hsound.amountAt_of_le hlast, ← hl.amountAt_of_le h.clock, Ledger.amountAt_eq,
    Ledger.amountAt_eq, hsound.attributed, hl.attributed]
  exact hsum

omit hfaithful

/-- **The power of an account** after a call of an owner. -/
theorem Due.power_eq (account : Address) :
    (l.written owner plan now).power account now = l.params.curve.weighed now fun b =>
      ((l.written owner plan now).delegation.amount account b).toNat :=
  (h.sound hl).power_eq_weighed (Nat.le_refl _) account

end Plan

/-! ### Extensions -/

namespace Ledger

variable {amount additional : Amount} {source unlock : Timestamp}

/-- **What an extension takes out of buckets of the owner** is all that was in one of them, and what
it puts in is that and what is added, in one that does not end earlier. -/
theorem amountOf_planExtend {planned : Planned StakeReceipt}
    (h : l.planExtend owner source unlock additional now = .ok planned) :
    ∃ bucket, now < source ∧ source ≤ bucket ∧ ∀ b,
      ((l.written owner planned.plan now).amountOf owner b).toNat
          + (if b = source then (l.amountOf owner source).toNat else 0)
        = (l.amountOf owner b).toNat
          + if b = bucket then (l.amountOf owner source).toNat + additional.toNat else 0 := by
  obtain ⟨bucket, staked, hlive, hlater, -, hamounts, hstaked, -⟩ := planExtend_amounts h
  refine ⟨bucket, hlive, hlater, fun b => ?_⟩
  rw [amountOf_written, hamounts]
  by_cases hsame : bucket = source
  · rw [if_pos hsame] at hstaked
    subst hsame
    by_cases hb : b = bucket
    · subst hb
      simp only [true_and, if_true]
      omega
    · simp [hb]
  · rw [if_neg hsame] at hstaked
    by_cases hb : b = bucket
    · subst hb
      simp only [hsame, true_and, if_true, if_false]
      omega
    · by_cases hs : b = source
      · subst hs
        simp [hb, hsame]
      · simp [hb, hs]

/-- An extension leaves the delegate where it is. -/
theorem delegateOf_planExtend {planned : Planned StakeReceipt}
    (h : l.planExtend owner source unlock additional now = .ok planned) :
    (l.written owner planned.plan now).delegateOf owner = l.delegateOf owner := by
  obtain ⟨-, -, -, -, hnone, -⟩ := planExtend_amounts h
  rw [delegateOf_written, if_pos rfl, hnone]
  rfl

/-- **An extension costs the delegate at most one unit** of power, and what is added may bring it
more. -/
theorem Sound.power_le_planExtend (h : l.Sound) (hfaithful : l.Faithful)
    {planned : Planned StakeReceipt}
    (hplan : l.planExtend owner source unlock additional now = .ok planned) :
    l.power (l.delegateOf owner) now
      ≤ (l.written owner planned.plan now).power (l.delegateOf owner) now + 1 := by
  have hdue := due_planExtend h hfaithful hplan
  obtain ⟨bucket, hlive, hlater, hmoved⟩ := amountOf_planExtend hplan
  -- what the owner moves in its own buckets moves in those of the delegate
  have hexchange := l.params.curve.weighed_exchange
    (fun b => (l.delegation.amount (l.delegateOf owner) b).toNat)
    (fun b =>
      ((l.written owner planned.plan now).delegation.amount (l.delegateOf owner) b).toNat)
    (fun b => if b = bucket then (l.amountOf owner source).toNat + additional.toNat else 0)
    (fun b => if b = source then (l.amountOf owner source).toNat else 0)
    fun b hb => by
      have hadd := hdue.amount_add h hfaithful hb (l.delegateOf owner)
      rw [delegateOf_planExtend hplan, if_pos rfl, if_pos rfl] at hadd
      have := hmoved b
      omega
  -- it weighs no less in the bucket where it is now, because that one does not end earlier
  have hweight := l.params.curve.weigh_mono (r := source.monus now) (s := bucket.monus now)
    (Nat.le_add_right (l.amountOf owner source).toNat additional.toNat)
    (Nat.sub_le_sub_right hlater now.toNat)
  have hparts := WeightCurve.parts_single_le now source (l.amountOf owner source).toNat
  rw [WeightCurve.weighed_single _ hlive,
    WeightCurve.weighed_single _ (Nat.lt_of_lt_of_le hlive hlater)] at hexchange
  rw [h.power_eq_weighed hdue.clock, hdue.power_eq h]
  omega

/-- **An extension costs only rounding.** On every ledger that calls lead to, an extension that
succeeds, whatever it adds, leaves the delegate of the owner with at least the voting power that
it had, but for one unit. -/
theorem Reachable.extension_costs_only_rounding {params : StakingParams} (h : Reachable params l)
    {receipt : StakeReceipt}
    (hcall : extend owner source unlock additional now l = .ok receipt m) :
    ∃ before after, l.votingPowerAt (l.delegateOf owner) now = .ok before ∧
      m.votingPowerAt (l.delegateOf owner) now = .ok after ∧
      before.toNat ≤ after.toNat + 1 := by
  obtain ⟨planned, hplanned, -, rfl⟩ := planned_eq_ok hcall
  have hsound := (due_planExtend h.sound h.faithful hplanned).sound h.sound
  obtain ⟨before, hbefore, hp⟩ := h.sound.votingPowerAt_eq (l.delegateOf owner) now
  obtain ⟨after, hafter, hq⟩ := hsound.votingPowerAt_eq (l.delegateOf owner) now
  refine ⟨before, after, hbefore, hafter, ?_⟩
  rw [hp, hq]
  exact h.sound.power_le_planExtend h.faithful hplanned

/-- Two units of one owner leave a bucket that they have shared with one of another owner. The three
of them weighed four units of power; in different buckets they weigh two and one. -/
theorem extension_costs_only_rounding_of_shared_bucket :
    let alice : Address := ⟨List.replicate 20 1, rfl⟩
    let bob : Address := ⟨List.replicate 20 2, rfl⟩
    let carol : Address := ⟨List.replicate 20 3, rfl⟩
    let now : Timestamp := .ofNat 30
    let moves : List Move := [
      .stake alice (Word.ofNat 2) (.ofNat (100 * day)) bob (.ofNat 10),
      .stake carol (Word.ofNat 1) (.ofNat (100 * day)) bob (.ofNat 20)]
    let l := moves.foldl (fun l move => move.apply l) (empty .default)
    let m := (extend alice (.ofNat (98 * day)) (.ofNat (113 * day)) .zero now).after l
    ∃ before after : Power, before = .ofNat 4 ∧ after = .ofNat 3 ∧
      l.votingPowerAt bob now = .ok before ∧ m.votingPowerAt bob now = .ok after ∧
      before.toNat ≤ after.toNat + 1 := by
  intro alice bob carol now moves l m
  have hl : Reachable .default l := (Reachable.create (by rfl)).moves moves
  have hdelegate : l.delegateOf alice = bob := by decide +kernel
  have hcall := Call.eq_ok_of_runFrom (show ((extend alice (.ofNat (98 * day)) (.ofNat (113 * day))
    .zero now).runFrom l).1 = .ok ⟨alice, .ofNat (112 * day), Word.ofNat 2⟩ by decide +kernel)
  have hfour : l.votingPowerAt bob now = .ok (.ofNat 4) := by decide +kernel
  have hthree : m.votingPowerAt bob now = .ok (.ofNat 3) := by decide +kernel
  obtain ⟨before, after, hbefore, hafter, hle⟩ := hl.extension_costs_only_rounding hcall
  rw [hdelegate] at hbefore hafter
  exact ⟨before, after, Except.ok.inj (hbefore.symm.trans hfour),
    Except.ok.inj (hafter.symm.trans hthree), hbefore, hafter, hle⟩

/-! ### Delegations -/

/-- **In how many live buckets** an owner has something. -/
def liveParts (l : Ledger) (owner : Address) (now : Timestamp) : ℕ :=
  ((l.positions owner).filter fun x => now < x.bucket).length

theorem liveParts_eq (l : Ledger) (owner : Address) (now : Timestamp) :
    l.liveParts owner now = WeightCurve.parts now fun b => (l.amountOf owner b).toNat := by
  have hsum := sum_positions (fun b n => if now < b ∧ n ≠ 0 then 1 else 0) (fun b => by simp) l
    owner
  have hcount := sum_map_filterMap_filter (l.positions owner) (fun x => now < x.bucket) some
    fun _ => 1
  -- every position holds something, so that it counts if its bucket is live
  have hterm : ∀ x ∈ l.positions owner,
      (if now < x.bucket ∧ x.amount.toNat ≠ 0 then 1 else 0) = if now < x.bucket then 1 else 0 := by
    intro x hx
    obtain ⟨e, -, hposition⟩ := List.mem_filterMap.1 hx
    obtain ⟨c, -, hamount, rfl⟩ := position?_eq_some_iff.1 hposition
    simp [hamount]
  rw [List.map_congr_left hterm] at hsum
  refine Eq.trans ?_ hsum
  simpa [liveParts] using hcount

/-- **What a delegation moves**: in each live bucket all that the owner has there, from the delegate
that it had to the one that it has now. -/
theorem Sound.amounts_planDelegate (h : l.Sound) (hfaithful : l.Faithful)
    {planned : Planned (Option Address)}
    (hplan : l.planDelegate owner target now = .ok (some planned)) (hlive : now < bucket) :
    ((l.written owner planned.plan now).delegation.amount (l.delegateOf owner) bucket).toNat
          + (l.amountOf owner bucket).toNat
        = (l.delegation.amount (l.delegateOf owner) bucket).toNat ∧
      ((l.written owner planned.plan now).delegation.amount target bucket).toNat
        = (l.delegation.amount target bucket).toNat + (l.amountOf owner bucket).toNat := by
  have hdue := due_planDelegate h hfaithful hplan
  obtain ⟨-, hother, hredelegate, -⟩ := planDelegate_eq_ok hplan
  obtain ⟨hdelegate, hamounts⟩ := Plan.redelegate_amounts hredelegate
  have hnew : (l.written owner planned.plan now).delegateOf owner = target := by
    rw [delegateOf_written, if_pos rfl, hdelegate]
    rfl
  have hsame : (l.written owner planned.plan now).amountOf owner bucket
      = l.amountOf owner bucket := by
    rw [amountOf_written, hamounts]
    rfl
  have hadd := hdue.amount_add h hfaithful hlive
  rw [hnew, hsame] at hadd
  have hsource := hadd (l.delegateOf owner)
  have htarget := hadd target
  rw [if_pos rfl, if_neg (Ne.symm hother)] at hsource
  rw [if_neg hother, if_pos rfl] at htarget
  exact ⟨hsource, htarget⟩

/-- **A delegation conserves the power of the two delegates** up to one unit for each live bucket
of the owner. -/
theorem Sound.power_planDelegate (h : l.Sound) (hfaithful : l.Faithful)
    {planned : Planned (Option Address)}
    (hplan : l.planDelegate owner target now = .ok (some planned)) :
    l.power (l.delegateOf owner) now + l.power target now
        ≤ (l.written owner planned.plan now).power (l.delegateOf owner) now
          + (l.written owner planned.plan now).power target now + l.liveParts owner now ∧
      (l.written owner planned.plan now).power (l.delegateOf owner) now
          + (l.written owner planned.plan now).power target now
        ≤ l.power (l.delegateOf owner) now + l.power target now + l.liveParts owner now := by
  have hdue := due_planDelegate h hfaithful hplan
  have hmoved := fun b (hb : now < b) => h.amounts_planDelegate hfaithful hplan hb
  rw [liveParts_eq, h.power_eq_weighed hdue.clock, h.power_eq_weighed hdue.clock,
    hdue.power_eq h, hdue.power_eq h]
  exact l.params.curve.weighed_moved (fun b hb => (hmoved b hb).1) fun b hb => (hmoved b hb).2

/-- **A delegation conserves power up to rounding.** On every ledger that calls lead to, a
delegation that reports a delegate before, `previous`, takes from it, in every bucket that ends
later, exactly what the owner has there, and adds it to the new delegate. The logs of buckets that
have ended stay as they are, whatever they say of the owner or of any account. And the power of
the two together changes by at most one unit for each live bucket in which the owner has
something. -/
theorem Reachable.delegation_conserves_power {params : StakingParams} {previous : Address}
    (h : Reachable params l)
    (hcall : delegate owner target now l = .ok (some previous) m) :
    (∀ bucket, now < bucket →
      (m.delegation.amount previous bucket).toNat + (l.amountOf owner bucket).toNat
          = (l.delegation.amount previous bucket).toNat ∧
        (m.delegation.amount target bucket).toNat
          = (l.delegation.amount target bucket).toNat + (l.amountOf owner bucket).toNat) ∧
      (∀ bucket, bucket ≤ now → ∀ account,
        m.delegation.log? account bucket = l.delegation.log? account bucket ∧
          m.checkpoints? account bucket = l.checkpoints? account bucket) ∧
      ∃ p q p' q', l.votingPowerAt previous now = .ok p ∧ l.votingPowerAt target now = .ok q ∧
        m.votingPowerAt previous now = .ok p' ∧ m.votingPowerAt target now = .ok q' ∧
        p.toNat + q.toNat ≤ p'.toNat + q'.toNat + l.liveParts owner now ∧
        p'.toNat + q'.toNat ≤ p.toNat + q.toNat + l.liveParts owner now := by
  rcases delegate_spec owner target now l with ⟨-, hspec⟩ | ⟨e, hspec⟩ | ⟨planned, hplanned, hspec⟩
  · cases hcall.symm.trans hspec
  · cases hcall.symm.trans hspec
  obtain ⟨-, -, hredelegate, hresult, -⟩ := planDelegate_eq_ok hplanned
  rw [hresult] at hspec
  cases hcall.symm.trans hspec
  have hsound := (due_planDelegate h.sound h.faithful hplanned).sound h.sound
  -- only live buckets are attributed to the target, so nothing is written to ended ones
  have hwithin : planned.plan.Within (now < ·) :=
    (Plan.within_empty _).redelegate (fun _ _ hlive => hlive) hredelegate
  refine ⟨fun bucket hlive => h.sound.amounts_planDelegate h.faithful hplanned hlive,
    fun bucket hended account => hwithin.logs_written (Nat.not_lt.2 hended) l owner account, ?_⟩
  obtain ⟨p, hp, hpower⟩ := h.sound.votingPowerAt_eq (l.delegateOf owner) now
  obtain ⟨q, hq, hpower'⟩ := h.sound.votingPowerAt_eq target now
  obtain ⟨p', hp', hafter⟩ := hsound.votingPowerAt_eq (l.delegateOf owner) now
  obtain ⟨q', hq', hafter'⟩ := hsound.votingPowerAt_eq target now
  refine ⟨p, q, p', q', hp, hq, hp', hq', ?_⟩
  rw [hpower, hpower', hafter, hafter']
  exact h.sound.power_planDelegate h.faithful hplanned

/-- An owner takes what it has in two buckets away from a delegate that has a unit of its own in
each of them. Every bucket loses a unit of power by that: ten units become two and six. -/
theorem delegation_conserves_power_of_two_buckets :
    let alice : Address := ⟨List.replicate 20 1, rfl⟩
    let bob : Address := ⟨List.replicate 20 2, rfl⟩
    let carol : Address := ⟨List.replicate 20 3, rfl⟩
    let now : Timestamp := .ofNat 30
    let moves : List Move := [
      .stake alice (Word.ofNat 2) (.ofNat (100 * day)) bob (.ofNat 10),
      .stake alice (Word.ofNat 3) (.ofNat (200 * day)) bob (.ofNat 10),
      .stake bob (Word.ofNat 1) (.ofNat (100 * day)) bob (.ofNat 20),
      .stake bob (Word.ofNat 1) (.ofNat (200 * day)) bob (.ofNat 20)]
    let l := moves.foldl (fun l move => move.apply l) (empty .default)
    let m := (delegate alice carol now).after l
    l.votingPowerAt bob now = .ok (.ofNat 10) ∧ l.votingPowerAt carol now = .ok .zero ∧
      m.votingPowerAt bob now = .ok (.ofNat 2) ∧ m.votingPowerAt carol now = .ok (.ofNat 6) ∧
      l.liveParts alice now = 2 ∧
      (m.delegation.amount bob (.ofNat (98 * day))).toNat + 2
        = (l.delegation.amount bob (.ofNat (98 * day))).toNat := by
  intro alice bob carol now moves l m
  have hl : Reachable .default l := (Reachable.create (by rfl)).moves moves
  have hcall := Call.eq_ok_of_runFrom (show ((delegate alice carol now).runFrom l).1
    = .ok (some bob) by decide +kernel)
  obtain ⟨hlive, -, -⟩ := hl.delegation_conserves_power hcall
  have hbucket := (hlive (.ofNat (98 * day)) (by decide +kernel)).1
  have hheld : l.amountOf alice (.ofNat (98 * day)) = Word.ofNat 2 := by decide +kernel
  rw [hheld] at hbucket
  exact ⟨by decide +kernel, by decide +kernel, by decide +kernel, by decide +kernel,
    by decide +kernel, hbucket⟩

end Ledger

end StakeGovernance
