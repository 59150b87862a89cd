import StakeGovernance.Proofs.Interchange
import StakeGovernance.Proofs.Maturity
import StakeGovernance.Proofs.Pointers

/-!
# A stake for a new delegate

An owner that stakes for a delegate other than its own changes its delegate on that occasion, and
all its live stake goes along. The one call that does so plans both changes on one plan, where
what has been attributed anew is looked through before the amount is added; two calls, a
delegation and a stake, plan the second change on what the first has written. They come to the
same: a plan that goes on where another one has ended writes what the two would write one after
the other, at one point.

* `StakeGovernance.BucketLogs.putAll_putAll` – **two rows of writes** at one point as one row;
* `StakeGovernance.Plan.Deposits` – what is **added to a plan** by a stake;
* `StakeGovernance.Ledger.latestLiveBucket?_le_iff` – the check that locks of an owner **do not
  get shorter**;
* `StakeGovernance.Ledger.written_deposited` – a stake that is planned **on what was written**;
* `StakeGovernance.Ledger.Reachable.stake_iff_delegate_then_stake` – staking for a delegate is
  **delegating, then staking**.
-/

namespace StakeGovernance

variable {now : Timestamp}

/-! ### Logs -/

namespace BucketLogs

variable {α : Type}

/-- **Two rows of writes at one point** are one row, in which the later writes have taken the
place of the earlier ones. -/
theorem putAll_putAll {first second both : OrderedMap Slot α}
    (h : ∀ s, both.get? s = (second.get? s).or (first.get? s)) (m : BucketLogs α) :
    (m.putAll now first).putAll now second = m.putAll now both := by
  refine ext_log? (fun a => ?_) fun a b => ?_
  · have hboth : ∀ s, both.contains s = true ↔
        first.contains s = true ∨ second.contains s = true := by
      intro s
      unfold OrderedMap.contains
      rw [h, Option.isSome_or, Bool.or_eq_true, or_comm]
    simp only [contains_putAll, hboth, or_and_right, exists_or, or_assoc]
  · rw [log?_putAll_putAll, log?_putAll, h]

end BucketLogs

/-! ### Adding on a plan -/

namespace Plan

variable {p q : Plan} {l : Ledger} {owner target : Address} {bucket : Timestamp}
  {amount staked : Amount}

/-- The plan with an amount added: the bucket holds `staked` for `target`, which is attributed
`attributed` there, and there is a new total. -/
def deposited (p : Plan) (owner target : Address) (bucket : Timestamp)
    (staked attributed total : Amount) : Plan :=
  { (p.setAmount target bucket attributed).setStake owner bucket ⟨staked, target⟩ with
    total := some total }

/-- **An amount fits into a bucket of an owner**: it can be added to what the bucket holds, to what
the delegate is attributed there, and to the total. -/
structure Fits (p : Plan) (l : Ledger) (owner target : Address) (bucket : Timestamp)
    (amount staked attributed total : Amount) : Prop where
  staked : (p.stakeOf l owner bucket).amount.add? amount = some staked
  attributed : (p.amountOf l target bucket).add? amount = some attributed
  total : (p.totalOf l).add? amount = some total

theorem credit_eq_ok_iff :
    p.credit l target bucket amount = .ok q ↔ ∃ attributed,
      (p.amountOf l target bucket).add? amount = some attributed ∧
        p.setAmount target bucket attributed = q := by
  unfold credit
  cases (p.amountOf l target bucket).add? amount <;> simp

theorem addTotal_eq_ok_iff :
    p.addTotal l amount = .ok q ↔ ∃ total,
      (p.totalOf l).add? amount = some total ∧ { p with total := some total } = q := by
  unfold addTotal
  simp only
  cases (p.totalOf l).add? amount <;> simp

/-- **Adding to a bucket that names the delegate** takes nothing away from anyone. -/
theorem add_eq_ok_iff (h : (p.stakeOf l owner bucket).Names target) :
    p.add l owner bucket amount target = .ok (q, staked) ↔
      (p.stakeOf l owner bucket).amount.add? amount = some staked ∧ ∃ attributed,
        (p.amountOf l target bucket).add? amount = some attributed ∧
          (p.setAmount target bucket attributed).setStake owner bucket ⟨staked, target⟩ = q := by
  have hown : (p.stakeOf l owner bucket).delegate = target
      ∨ (p.stakeOf l owner bucket).amount.isZero = true := by
    by_cases hzero : (p.stakeOf l owner bucket).amount.toNat = 0
    · exact Or.inr (Word.isZero_iff.2 hzero)
    · exact Or.inl (h hzero)
  unfold add
  cases hsum : (p.stakeOf l owner bucket).amount.add? amount with
  | none => simp [hsum]
  | some sum =>
    simp only [hsum, if_pos hown, Checked.bind_eq_ok, credit_eq_ok_iff]
    constructor
    · rintro ⟨r, ⟨attributed, hattributed, rfl⟩, hr⟩
      cases hr
      exact ⟨rfl, attributed, hattributed, rfl⟩
    · rintro ⟨hstaked, attributed, hattributed, rfl⟩
      cases hstaked
      exact ⟨_, ⟨attributed, hattributed, rfl⟩, rfl⟩

/-- **The moves of a stake** on a plan whose bucket names the delegate. -/
theorem deposited_iff (h : (p.stakeOf l owner bucket).Names target) :
    (∃ r, p.add l owner bucket amount target = .ok (r, staked) ∧ r.addTotal l amount = .ok q) ↔
      ∃ attributed total, p.Fits l owner target bucket amount staked attributed total ∧
        p.deposited owner target bucket staked attributed total = q := by
  constructor
  · rintro ⟨r, hadd, htotal⟩
    obtain ⟨hstaked, attributed, hattributed, rfl⟩ := (add_eq_ok_iff h).1 hadd
    obtain ⟨total, hsum, rfl⟩ := addTotal_eq_ok_iff.1 htotal
    exact ⟨attributed, total, ⟨hstaked, hattributed, hsum⟩, rfl⟩
  · rintro ⟨attributed, total, hfits, rfl⟩
    exact ⟨_, (add_eq_ok_iff h).2 ⟨hfits.staked, attributed, hfits.attributed, rfl⟩,
      addTotal_eq_ok_iff.2 ⟨total, hfits.total, rfl⟩⟩

end Plan

/-! ### Live buckets -/

namespace Ledger

variable {l m k : Ledger} {owner target : Address} {bucket unlock : Timestamp} {amount : Amount}
  {p : Plan}

/-- The position that a bucket is, if it holds something. -/
theorem position?_eq_some_iff {log : CheckpointLog StakePoint} {x : StakePosition} :
    position? bucket log = some x ↔ ∃ c, log.latest? = some c ∧ c.value.amount.toNat ≠ 0 ∧
      ⟨bucket, c.value.amount, c.value.delegate⟩ = x := by
  unfold position?
  cases log.latest? with
  | none => simp
  | some c =>
    by_cases hzero : c.value.amount.isZero = true
    · simp [hzero, Word.isZero_iff.1 hzero]
    · have hamount : c.value.amount.toNat ≠ 0 := fun h => hzero (Word.isZero_iff.2 h)
      simp [hzero, hamount]

/-- **The positions of an owner** are those of its buckets that hold something. -/
theorem exists_position_iff (l : Ledger) (owner : Address) (bucket : Timestamp) :
    (∃ x ∈ l.positions owner, x.bucket = bucket) ↔ (l.amountOf owner bucket).toNat ≠ 0 := by
  unfold positions bucketsOf amountOf latestStake checkpoints?
  cases l.stakes.get? owner with
  | none => simp
  | some buckets =>
    constructor
    · rintro ⟨x, hx, rfl⟩
      obtain ⟨⟨b, log⟩, he, hposition⟩ := List.mem_filterMap.1 hx
      obtain ⟨c, hc, hamount, rfl⟩ := position?_eq_some_iff.1 hposition
      simp only [Option.bind_some, OrderedMap.get?_eq_some_iff.2 he, hc]
      exact hamount
    · intro hamount
      rw [Option.bind_some] at hamount
      cases hlog : buckets.get? bucket with
      | none => simp [hlog] at hamount
      | some log =>
        cases hc : log.latest? with
        | none => simp [hlog, hc] at hamount
        | some c =>
          simp only [hlog, hc, Option.bind_some] at hamount
          exact ⟨_, List.mem_filterMap.2 ⟨(bucket, log), OrderedMap.get?_eq_some_iff.1 hlog,
            position?_eq_some_iff.2 ⟨c, hc, hamount, rfl⟩⟩, rfl⟩

/-- Positions come in the order of their buckets. -/
theorem positions_ascending (l : Ledger) (owner : Address) :
    (l.positions owner).Pairwise fun x y => x.bucket < y.bucket := by
  unfold positions bucketsOf
  cases l.stakes.get? owner with
  | none => exact List.Pairwise.nil
  | some buckets =>
    refine List.Pairwise.filterMap _ (fun e e' hlt x hx x' hx' => ?_) buckets.ascending
    obtain ⟨_, -, -, rfl⟩ := position?_eq_some_iff.1 hx
    obtain ⟨_, -, -, rfl⟩ := position?_eq_some_iff.1 hx'
    exact Nat.compare_eq_lt.1 hlt

/-- **The last live bucket of an owner is not later than a bucket** if none of its live buckets
that hold something is. -/
theorem latestLiveBucket?_le_iff (l : Ledger) (owner : Address) (now bucket : Timestamp) :
    (∀ latest, l.latestLiveBucket? owner now = some latest → latest ≤ bucket) ↔
      ∀ b, now < b → (l.amountOf owner b).toNat ≠ 0 → b ≤ bucket := by
  have hsorted := (l.positions_ascending owner).filter fun x => now < x.bucket
  unfold latestLiveBucket?
  constructor
  · intro hlatest b hlive hamount
    obtain ⟨x, hx, rfl⟩ := (l.exists_position_iff owner b).2 hamount
    have hmem : x ∈ (l.positions owner).filter fun x => now < x.bucket :=
      List.mem_filter.2 ⟨hx, decide_eq_true hlive⟩
    -- the last of the live positions is the one with the last bucket
    have hlast := List.getLast?_eq_getLast_of_ne_nil (List.ne_nil_of_mem hmem)
    have hle := hlatest _ (congrArg (Option.map StakePosition.bucket) hlast)
    refine Nat.le_trans ?_ hle
    exact (hsorted.imp Nat.le_of_lt).rel_getLast_of_rel_getLast_getLast hmem (Nat.le_refl _)
  · intro hall latest hlatest
    obtain ⟨x, hx, rfl⟩ := Option.map_eq_some_iff.1 hlatest
    obtain ⟨hmem, hlive⟩ := List.mem_filter.1 (List.mem_of_getLast? hx)
    exact hall x.bucket (of_decide_eq_true hlive)
      ((l.exists_position_iff owner x.bucket).1 ⟨x, hmem, rfl⟩)

/-! ### Stakes and delegations that succeed -/

/-- The ledger after a plan has been carried out: it was written, and what it changes was
reported. -/
def carriedOut (l : Ledger) (owner : Address) (plan : Plan) (now : Timestamp)
    (events : List StakingEvent) : Ledger :=
  { l.written owner plan now with events := l.events ++ events }

/-- What is reported of a delegate, if it is a new one. -/
def moved (l : Ledger) (owner target : Address) : List StakingEvent :=
  if target = l.delegateOf owner then [] else [.delegateChanged owner (l.delegateOf owner) target]

/-- **What stands in front of a stake**: there are two parties and an amount, the time has not
passed, and the lock ends in `bucket`, in which no lock of the owner gets shorter. -/
structure MayStake (l : Ledger) (owner target : Address) (amount : Amount)
    (unlock bucket now : Timestamp) : Prop where
  parties : (owner.isZero || target.isZero) = false
  some : amount.isZero = false
  clock : l.lastPoint ≤ now
  lock : l.lockBucket unlock now = .ok bucket
  longest : ∀ b, now < b → (l.amountOf owner b).toNat ≠ 0 → b ≤ bucket

theorem planStake_eq_ok_iff {planned : Planned StakeReceipt} :
    l.planStake owner amount unlock target now = .ok planned ↔
      ∃ bucket, l.MayStake owner target amount unlock bucket now ∧ ∃ p,
        (if target = l.delegateOf owner then pure Plan.empty
          else Plan.empty.redelegate l owner target now) = .ok p ∧ ∃ q staked,
        (∃ r, p.add l owner bucket amount target = .ok (r, staked) ∧ r.addTotal l amount = .ok q) ∧
        planned = ⟨q, ⟨owner, bucket, staked⟩,
          l.moved owner target ++ [.stakeChanged owner bucket staked]⟩ := by
  constructor
  · intro h
    obtain ⟨hparties, hrest⟩ := Checked.refuse_eq_ok.1 h
    obtain ⟨hamount, -⟩ := Checked.refuse_eq_ok.1 hrest
    obtain ⟨bucket, p, r, staked, hclock, hbucket, hlive, hp, hadd, htotal, hresult, hevents⟩ :=
      planStake_eq_ok h
    refine ⟨bucket, ⟨Bool.eq_false_iff.2 hparties, Bool.eq_false_iff.2 hamount, hclock, hbucket,
      (l.latestLiveBucket?_le_iff owner now bucket).1 hlive⟩, p, hp, planned.plan, staked,
      ⟨r, hadd, htotal⟩, ?_⟩
    obtain ⟨plan, result, events⟩ := planned
    cases hresult
    cases hevents
    rfl
  · rintro ⟨bucket, ⟨hparties, hamount, hclock, hbucket, hlongest⟩, p, hp, q, staked,
      ⟨r, hadd, htotal⟩, rfl⟩
    have hlive := (l.latestLiveBucket?_le_iff owner now bucket).2 hlongest
    refine Checked.refuse_eq_ok.2 ⟨Bool.eq_false_iff.1 hparties, Checked.refuse_eq_ok.2
      ⟨Bool.eq_false_iff.1 hamount, Checked.bind_eq_ok.2 ⟨(), checkClock_eq_ok.2 hclock,
        Checked.bind_eq_ok.2 ⟨bucket, hbucket, ?_⟩⟩⟩⟩
    extract_lets previous moved' tail jp
    have hjp : jp () = .ok ⟨q, ⟨owner, bucket, staked⟩,
        l.moved owner target ++ [.stakeChanged owner bucket staked]⟩ :=
      Checked.ite_bind_eq_ok.2 ⟨p, hp, Checked.bind_eq_ok.2 ⟨_, hadd,
        Checked.bind_eq_ok.2 ⟨q, htotal, rfl⟩⟩⟩
    split
    · rename_i latest hlatest
      exact Checked.refuse_eq_ok.2 ⟨Nat.not_lt.2 (hlive latest hlatest), hjp⟩
    · exact hjp

/-- **What is planned is carried out** on a sound ledger, at any time that it has not passed. -/
theorem Sound.planned_of_parties {α : Type} (h : l.Sound)
    (planOf : Ledger → Except StakingError (Planned α)) {planned : Planned α}
    (hplan : planOf l = .ok planned) (hclock : l.lastPoint ≤ now)
    (hparties : ∀ delegate, planned.plan.delegate = some delegate →
      (owner.isZero || delegate.isZero) = false) :
    (do carryOut owner now (← planOf (← get)) : Call StakingError Ledger α) l
      = .ok planned.result
          (l.carriedOut owner planned.plan now planned.events) :=
  Call.get_bind_eq_ok.2 (Call.lift_bind_eq_ok.2 ⟨planned, hplan,
    Call.bind_eq_ok.2 ⟨(), _, h.commit_of_parties hclock hparties, rfl⟩⟩)

/-- The plan that a stake begins with: all live stake goes to the delegate, if it is a new one. -/
def redirecting (l : Ledger) (owner target : Address) (now : Timestamp) :
    Except StakingError Plan :=
  if target = l.delegateOf owner then pure Plan.empty
  else Plan.empty.redelegate l owner target now

/-- On that plan, what is live of the owner names the delegate. -/
theorem Faithful.redirecting_names (h : l.Faithful) (hsound : l.Sound) (hclock : l.lastPoint ≤ now)
    (hp : l.redirecting owner target now = .ok p) (hlive : now < bucket) :
    (p.stakeOf l owner bucket).Names target := by
  unfold redirecting at hp
  split at hp
  · rename_i hsame
    cases hp
    rw [hsame]
    exact h.names hsound hclock owner bucket hlive
  · have hnames := Plan.names_redelegate hp (h.names hsound hclock) owner bucket hlive
    unfold Plan.pointer at hnames
    rwa [if_pos rfl, (Plan.redelegate_amounts hp).1] at hnames

theorem redirecting_delegate (hp : l.redirecting owner target now = .ok p) {delegate : Address}
    (h : p.delegate = some delegate) : delegate = target := by
  unfold redirecting at hp
  split at hp
  · cases hp
    cases h
  · rw [(Plan.redelegate_amounts hp).1] at h
    exact (Option.some.inj h).symm

/-- Once that plan is written, the delegate is the one that the stake is for. -/
theorem redirecting_getD (hp : l.redirecting owner target now = .ok p) :
    p.delegate.getD (l.delegateOf owner) = target := by
  unfold redirecting at hp
  split at hp
  · rename_i hsame
    cases hp
    exact hsame.symm
  · rw [(Plan.redelegate_amounts hp).1]
    rfl

/-- That plan moves no amount from one bucket to another. -/
theorem redirecting_amounts (hp : l.redirecting owner target now = .ok p) (b : Timestamp) :
    (p.stakeOf l owner b).amount = l.amountOf owner b := by
  unfold redirecting at hp
  split at hp
  · cases hp
    rfl
  · exact (Plan.redelegate_amounts hp).2 owner b

/-- The bucket of a lock ends after now. -/
theorem lt_of_lockBucket (h : l.lockBucket unlock now = .ok bucket) : now < bucket :=
  (lockBucket_eq_ok.1 h).2.1

/-- **What a stake comes to**, and when it does. -/
theorem Faithful.stake_eq_ok_iff {receipt : StakeReceipt} (h : l.Faithful) (hsound : l.Sound) :
    stake owner amount unlock target now l = .ok receipt m ↔
      ∃ bucket, l.MayStake owner target amount unlock bucket now ∧
        ∃ p, l.redirecting owner target now = .ok p ∧
          ∃ staked attributed total, p.Fits l owner target bucket amount staked attributed total ∧
            receipt = ⟨owner, bucket, staked⟩ ∧
            m = l.carriedOut owner (p.deposited owner target bucket staked attributed total) now
              (l.moved owner target ++ [.stakeChanged owner bucket staked]) := by
  constructor
  · intro hcall
    obtain ⟨planned, hplanned, rfl, rfl⟩ := planned_eq_ok hcall
    obtain ⟨bucket, hmay, p, hp, q, staked, hmoves, rfl⟩ := planStake_eq_ok_iff.1 hplanned
    have hnames := h.redirecting_names hsound hmay.clock hp (lt_of_lockBucket hmay.lock)
    obtain ⟨attributed, total, hfits, rfl⟩ := (Plan.deposited_iff hnames).1 hmoves
    exact ⟨bucket, hmay, p, hp, staked, attributed, total, hfits, rfl, rfl⟩
  · rintro ⟨bucket, hmay, p, hp, staked, attributed, total, hfits, rfl, rfl⟩
    have hnames := h.redirecting_names hsound hmay.clock hp (lt_of_lockBucket hmay.lock)
    have hplanned := planStake_eq_ok_iff.2 ⟨bucket, hmay, p, hp, _, staked,
      (Plan.deposited_iff hnames).2 ⟨attributed, total, hfits, rfl⟩, rfl⟩
    refine hsound.planned_of_parties (·.planStake owner amount unlock target now) hplanned
      hmay.clock
      fun delegate hdelegate => ?_
    rw [redirecting_delegate hp hdelegate]
    exact hmay.parties

/-- **What a delegation plans**, and when it does: nothing, if the delegate is the one that the
owner has. -/
theorem planDelegate_eq_ok_iff {planned? : Option (Planned (Option Address))} :
    l.planDelegate owner target now = .ok planned? ↔
      (owner.isZero || target.isZero) = false ∧ l.lastPoint ≤ now ∧
        ∃ p, l.redirecting owner target now = .ok p ∧
          (if target = l.delegateOf owner then none
            else some ⟨p, some (l.delegateOf owner), l.moved owner target⟩) = planned? := by
  unfold planDelegate redirecting moved
  rw [Checked.refuse_eq_ok, Checked.bind_eq_ok, Bool.not_eq_true]
  refine and_congr_right fun _ => ?_
  by_cases hsame : target = l.delegateOf owner
  · simp only [if_pos hsame, if_pos hsame.symm]
    constructor
    · rintro ⟨_, hclock, hnone⟩
      exact ⟨checkClock_eq_ok.1 hclock, _, rfl, Except.ok.inj hnone⟩
    · rintro ⟨hclock, p, -, rfl⟩
      exact ⟨(), checkClock_eq_ok.2 hclock, rfl⟩
  · simp only [if_neg hsame, if_neg (Ne.symm hsame)]
    constructor
    · rintro ⟨_, hclock, hrest⟩
      obtain ⟨p, hp, hplanned⟩ := Checked.bind_eq_ok.1 hrest
      exact ⟨checkClock_eq_ok.1 hclock, p, hp, Except.ok.inj hplanned⟩
    · rintro ⟨hclock, p, hp, rfl⟩
      exact ⟨(), checkClock_eq_ok.2 hclock, Checked.bind_eq_ok.2 ⟨p, hp, rfl⟩⟩

/-- **A delegation to the delegate that the owner has** changes nothing. -/
theorem delegate_eq_ok_iff_of_eq {previous : Option Address} (hsame : target = l.delegateOf owner) :
    delegate owner target now l = .ok previous k ↔
      (owner.isZero || target.isZero) = false ∧ l.lastPoint ≤ now ∧ previous = none ∧ k = l := by
  constructor
  · intro hcall
    rcases delegate_spec owner target now l with ⟨hnone, h⟩ | ⟨e, h⟩ | ⟨planned, hplanned, -⟩
    · cases hcall.symm.trans h
      obtain ⟨hparties, hclock, -⟩ := planDelegate_eq_ok_iff.1 hnone
      exact ⟨hparties, hclock, rfl, rfl⟩
    · cases hcall.symm.trans h
    · exact absurd hsame (planDelegate_eq_ok hplanned).2.1
  · rintro ⟨hparties, hclock, rfl, rfl⟩
    have hnone := planDelegate_eq_ok_iff.2 ⟨hparties, hclock, _, if_pos hsame, if_pos hsame⟩
    exact Call.get_bind_eq_ok.2 (Call.lift_bind_eq_ok.2 ⟨none, hnone, rfl⟩)

/-- **A delegation to another delegate**: what it comes to, and when it does. -/
theorem Sound.delegate_eq_ok_iff_of_ne {previous : Option Address} (h : l.Sound)
    (hother : target ≠ l.delegateOf owner) :
    delegate owner target now l = .ok previous k ↔
      (owner.isZero || target.isZero) = false ∧ l.lastPoint ≤ now ∧
        ∃ p, l.redirecting owner target now = .ok p ∧ previous = some (l.delegateOf owner) ∧
          k = l.carriedOut owner p now (l.moved owner target) := by
  constructor
  · intro hcall
    rcases delegate_spec owner target now l with ⟨hnone, -⟩ | ⟨e, h⟩ | ⟨planned, hplanned, h⟩
    · obtain ⟨-, -, p, -, hplan⟩ := planDelegate_eq_ok_iff.1 hnone
      rw [if_neg hother] at hplan
      cases hplan
    · cases hcall.symm.trans h
    · cases hcall.symm.trans h
      obtain ⟨hparties, hclock, p, hp, hplan⟩ := planDelegate_eq_ok_iff.1 hplanned
      rw [if_neg hother] at hplan
      cases hplan
      exact ⟨hparties, hclock, p, hp, rfl, rfl⟩
  · rintro ⟨hparties, hclock, p, hp, rfl, rfl⟩
    have hplanned := planDelegate_eq_ok_iff.2 ⟨hparties, hclock, p, hp, if_neg hother⟩
    refine Call.get_bind_eq_ok.2 (Call.lift_bind_eq_ok.2 ⟨_, hplanned, ?_⟩)
    refine Call.bind_eq_ok.2 ⟨(), _, h.commit_of_parties hclock fun delegate hdelegate => ?_, rfl⟩
    rw [redirecting_delegate hp hdelegate]
    exact hparties

/-! ### A stake on what was written -/

/-- The amounts that are attributed after a plan was written are those of the plan. -/
theorem amount_written (l : Ledger) (owner : Address) (p : Plan) (now : Timestamp) (d : Address)
    (b : Timestamp) : (l.written owner p now).delegation.amount d b = p.amountOf l d b := by
  have hdelegated : (l.written owner p now).delegation.delegated
      = BucketLogs.putAll now l.delegation.delegated p.delegated := rfl
  unfold Plan.amountOf OrderedMap.getD Delegation.amount Delegation.log?
  rw [BucketLogs.bind_log rfl, BucketLogs.bind_log rfl, hdelegated, BucketLogs.log_putAll]
  cases p.delegated.get? ⟨d, b⟩ with
  | some amount =>
    dsimp only
    rw [CheckpointLog.latest?_put]
    rfl
  | none => rfl

/-- **A stake that is planned on what was carried out** fits where it fits on the plan. -/
theorem fits_carriedOut_iff {staked attributed total : Amount} (events : List StakingEvent) :
    Plan.empty.Fits (l.carriedOut owner p now events) owner target bucket amount staked attributed
        total ↔ p.Fits l owner target bucket amount staked attributed total := by
  have hstake : (Plan.empty.stakeOf (l.carriedOut owner p now events) owner bucket).amount
      = (p.stakeOf l owner bucket).amount := l.amountOf_written owner p now owner bucket
  have hattributed : Plan.empty.amountOf (l.carriedOut owner p now events) target bucket
      = p.amountOf l target bucket := l.amount_written owner p now target bucket
  have htotal : Plan.empty.totalOf (l.carriedOut owner p now events) = p.totalOf l := rfl
  constructor
  · rintro ⟨hs, ha, ht⟩
    exact ⟨hstake ▸ hs, hattributed ▸ ha, htotal ▸ ht⟩
  · rintro ⟨hs, ha, ht⟩
    exact ⟨hstake.symm ▸ hs, hattributed.symm ▸ ha, ht⟩

/-- **A stake that is planned on what was written** leaves what the plan leaves on which the stake
is planned as well. -/
theorem written_deposited (l : Ledger) (owner target : Address) (p : Plan) (bucket now : Timestamp)
    (staked attributed total : Amount) :
    (l.written owner p now).written owner
        (Plan.empty.deposited owner target bucket staked attributed total) now
      = l.written owner (p.deposited owner target bucket staked attributed total) now := by
  have hinsert : ∀ {α : Type} (m : OrderedMap Slot α) (slot : Slot) (value : α) (s : Slot),
      (m.insert slot value).get? s
        = ((OrderedMap.empty.insert slot value).get? s).or (m.get? s) := by
    intro α m slot value s
    rw [OrderedMap.get?_insert_eq, OrderedMap.get?_insert_eq]
    split <;> rfl
  have hstakes : BucketLogs.putAll now (BucketLogs.putAll now l.stakes p.stakes)
      (OrderedMap.empty.insert ⟨owner, bucket⟩ ⟨staked, target⟩) = BucketLogs.putAll now l.stakes
        (p.stakes.insert ⟨owner, bucket⟩ ⟨staked, target⟩) :=
    BucketLogs.putAll_putAll (hinsert p.stakes _ _) l.stakes
  have hdelegated : BucketLogs.putAll now (BucketLogs.putAll now l.delegation.delegated p.delegated)
      (OrderedMap.empty.insert ⟨target, bucket⟩ attributed) = BucketLogs.putAll now
        l.delegation.delegated (p.delegated.insert ⟨target, bucket⟩ attributed) :=
    BucketLogs.putAll_putAll (hinsert p.delegated _ _) l.delegation.delegated
  have hlog : ((l.written owner p now).written owner
      (Plan.empty.deposited owner target bucket staked attributed total) now).totalLog
        = l.totalLog.put now total := by
    rw [totalLog_written_written]
    exact if_pos (Bool.or_true _)
  refine (Ledger.mk.injEq ..).mpr ⟨rfl, hstakes, ?_, rfl, hlog, rfl, rfl⟩
  exact congrArg (fun delegated : BucketLogs Amount =>
    { l.delegation.redirected owner p.delegate now with delegated }) hdelegated

/-- **A stake that is planned on what was carried out** leaves what the plan leaves on which the
stake is planned as well. -/
theorem carriedOut_deposited (l : Ledger) (owner target : Address) (p : Plan)
    (bucket now : Timestamp) (staked attributed total : Amount) (first last : List StakingEvent) :
    (l.carriedOut owner p now first).carriedOut owner
        (Plan.empty.deposited owner target bucket staked attributed total) now last
      = l.carriedOut owner (p.deposited owner target bucket staked attributed total) now
        (first ++ last) := by
  unfold carriedOut
  rw [← l.written_deposited owner target p bucket now, ← List.append_assoc]
  rfl

/-- A delegation leaves alone what stands in front of a stake. -/
theorem mayStake_carriedOut_iff (hclock : l.lastPoint ≤ now)
    (hp : l.redirecting owner target now = .ok p) (events : List StakingEvent) :
    (l.carriedOut owner p now events).MayStake owner target amount unlock bucket now ↔
      l.MayStake owner target amount unlock bucket now := by
  have hamounts : ∀ b, (l.carriedOut owner p now events).amountOf owner b = l.amountOf owner b :=
    fun b => (l.amountOf_written owner p now owner b).trans (redirecting_amounts hp b)
  constructor
  · rintro ⟨hparties, hsome, -, hlock, hlongest⟩
    exact ⟨hparties, hsome, hclock, hlock, fun b hlive hamount =>
      hlongest b hlive (hamounts b ▸ hamount)⟩
  · rintro ⟨hparties, hsome, -, hlock, hlongest⟩
    exact ⟨hparties, hsome, Nat.le_refl _, hlock, fun b hlive hamount =>
      hlongest b hlive ((hamounts b) ▸ hamount)⟩

/-- **A stake on what was carried out** for the same delegate: what it comes to, and when it does,
is read off the plan that was carried out. -/
theorem Reachable.stake_carriedOut_iff {params : StakingParams} {receipt : StakeReceipt}
    {events : List StakingEvent} (h : Reachable params (l.carriedOut owner p now events))
    (hdelegate : p.delegate.getD (l.delegateOf owner) = target) :
    stake owner amount unlock target now (l.carriedOut owner p now events) = .ok receipt m ↔
      ∃ bucket, (l.carriedOut owner p now events).MayStake owner target amount unlock bucket now ∧
        ∃ staked attributed total, p.Fits l owner target bucket amount staked attributed total ∧
          receipt = ⟨owner, bucket, staked⟩ ∧
          m = l.carriedOut owner (p.deposited owner target bucket staked attributed total) now
            (events ++ [.stakeChanged owner bucket staked]) := by
  -- the delegate is the one that the stake is for, so that nothing is left to be redirected
  have hsame : target = (l.carriedOut owner p now events).delegateOf owner := by
    refine Eq.trans ?_ (l.delegateOf_written owner p now owner).symm
    rw [if_pos rfl, hdelegate]
  have hplan : (l.carriedOut owner p now events).redirecting owner target now = .ok Plan.empty :=
    if_pos hsame
  have hmoved : (l.carriedOut owner p now events).moved owner target = [] := if_pos hsame
  rw [h.faithful.stake_eq_ok_iff h.sound, hmoved, hplan]
  simp only [Except.ok.injEq, exists_eq_left', List.nil_append, fits_carriedOut_iff,
    carriedOut_deposited]

/-- **A stake after a delegation** to its delegate: what it comes to, and when it does, is what the
stake comes to without the delegation. -/
theorem Reachable.stake_after_delegate_iff {params : StakingParams} {receipt : StakeReceipt}
    (h : Reachable params l) (hother : target ≠ l.delegateOf owner)
    (hparties : (owner.isZero || target.isZero) = false) (hclock : l.lastPoint ≤ now)
    (hp : l.redirecting owner target now = .ok p) :
    stake owner amount unlock target now (l.carriedOut owner p now (l.moved owner target))
        = .ok receipt m ↔
      ∃ bucket, l.MayStake owner target amount unlock bucket now ∧
        ∃ staked attributed total, p.Fits l owner target bucket amount staked attributed total ∧
          receipt = ⟨owner, bucket, staked⟩ ∧
          m = l.carriedOut owner (p.deposited owner target bucket staked attributed total) now
            (l.moved owner target ++ [.stakeChanged owner bucket staked]) := by
  have hdelegated := (h.sound.delegate_eq_ok_iff_of_ne hother).2 ⟨hparties, hclock, p, hp, rfl, rfl⟩
  have hreachable : Reachable params (l.carriedOut owner p now (l.moved owner target)) := by
    rw [← Call.after_of_ok hdelegated]
    exact h.move (.delegate owner target now)
  rw [hreachable.stake_carriedOut_iff (redirecting_getD hp)]
  simp only [mayStake_carriedOut_iff hclock hp]

/-- **Staking for a delegate is delegating, then staking.** On every ledger that calls lead to, with
whatever it has still to report, a stake for any delegate succeeds with a receipt if a delegation
to that delegate succeeds and the same stake after it, with the same receipt; and both ways end
in the same ledger, with the same to report. -/
theorem Reachable.stake_iff_delegate_then_stake {params : StakingParams} (h : Reachable params l)
    (owner : Address) (amount : Amount) (unlock : Timestamp) (target : Address) (now : Timestamp)
    (receipt : StakeReceipt) (m : Ledger) :
    stake owner amount unlock target now l = .ok receipt m ↔
      ∃ previous k, delegate owner target now l = .ok previous k ∧
        stake owner amount unlock target now k = .ok receipt m := by
  by_cases hsame : target = l.delegateOf owner
  · -- nothing is delegated, and the stake is the same one
    constructor
    · intro hstake
      obtain ⟨bucket, hmay, -⟩ := (h.faithful.stake_eq_ok_iff h.sound).1 hstake
      have hdelegated := (delegate_eq_ok_iff_of_eq hsame).2 ⟨hmay.parties, hmay.clock, rfl, rfl⟩
      exact ⟨none, l, hdelegated, hstake⟩
    · rintro ⟨previous, k, hdelegate, hstake⟩
      obtain ⟨-, -, -, rfl⟩ := (delegate_eq_ok_iff_of_eq hsame).1 hdelegate
      exact hstake
  constructor
  · intro hstake
    obtain ⟨bucket, hmay, p, hp, hrest⟩ := (h.faithful.stake_eq_ok_iff h.sound).1 hstake
    exact ⟨_, _, (h.sound.delegate_eq_ok_iff_of_ne hsame).2
      ⟨hmay.parties, hmay.clock, p, hp, rfl, rfl⟩,
      (h.stake_after_delegate_iff hsame hmay.parties hmay.clock hp).2 ⟨bucket, hmay, hrest⟩⟩
  · rintro ⟨previous, k, hdelegate, hstake⟩
    obtain ⟨hparties, hclock, p, hp, -, rfl⟩ := (h.sound.delegate_eq_ok_iff_of_ne hsame).1 hdelegate
    obtain ⟨bucket, hmay, hrest⟩ := (h.stake_after_delegate_iff hsame hparties hclock hp).1 hstake
    exact (h.faithful.stake_eq_ok_iff h.sound).2 ⟨bucket, hmay, p, hp, hrest⟩

/-- An owner with two buckets, one of which it has emptied into the other while it had another
delegate, stakes into the other bucket for a third delegate. -/
theorem stake_iff_delegate_then_stake_of_emptied :
    let alice : Address := ⟨List.replicate 20 1, rfl⟩
    let bob : Address := ⟨List.replicate 20 2, rfl⟩
    let carol : Address := ⟨List.replicate 20 3, rfl⟩
    let bucket : Timestamp := .ofNat (196 * day)
    let moves : List Move := [
      .stake alice (Word.ofNat 1000) (.ofNat (100 * day)) carol (.ofNat 10),
      .extend alice (.ofNat (98 * day)) (.ofNat (200 * day)) .zero (.ofNat 20),
      .stake carol (Word.ofNat 7) (.ofNat (200 * day)) bob (.ofNat 30)]
    let l := moves.foldl (fun l move => move.apply l) (empty .default)
    ∃ m, stake alice (Word.ofNat 500) (.ofNat (200 * day)) bob (.ofNat 40) l
        = .ok ⟨alice, bucket, Word.ofNat 1500⟩ m ∧
      ∃ k, delegate alice bob (.ofNat 40) l = .ok (some carol) k ∧
        stake alice (Word.ofNat 500) (.ofNat (200 * day)) bob (.ofNat 40) k
          = .ok ⟨alice, bucket, Word.ofNat 1500⟩ m := by
  intro alice bob carol bucket moves l
  have hl : Reachable .default l := (Reachable.create (by rfl)).moves moves
  have hstake := Call.eq_ok_of_runFrom (show ((stake alice (Word.ofNat 500) (.ofNat (200 * day)) bob
    (.ofNat 40)).runFrom l).1 = .ok ⟨alice, bucket, Word.ofNat 1500⟩ by decide +kernel)
  obtain ⟨previous, k, hdelegate, hthen⟩ := (hl.stake_iff_delegate_then_stake alice (Word.ofNat 500)
    (.ofNat (200 * day)) bob (.ofNat 40) _ _).1 hstake
  have hprevious : ((delegate alice bob (.ofNat 40)).runFrom l).1 = .ok (some carol) := by
    decide +kernel
  rw [Call.runFrom, hdelegate] at hprevious
  cases hprevious
  exact ⟨_, hstake, k, hdelegate, hthen⟩

end Ledger

end StakeGovernance
