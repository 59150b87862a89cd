import StakeGovernance.Proofs.Soundness

/-!
# Voting power

On a sound ledger the voting power of an account can be read off at any point, and both
ways of computing it come to the same: over all buckets that end after the point, the
amount attributed to the account there, weighted by the time left. Neither way meets a
number that does not fit, because all power together is bounded by the total stake times
the largest multiplier.

* `StakeGovernance.Ledger.power` – the **voting power** as a number;
* `StakeGovernance.Ledger.Sound.sum_power_lt` – all power **together** fits;
* `StakeGovernance.Ledger.Sound.votingPowerAt_eq`,
  `StakeGovernance.Ledger.Sound.votingPowerAtLinear_eq` – what the **two ways** compute;
* `StakeGovernance.Ledger.Reachable.votingPowerAt_eq_linear` – **they agree** on every
  ledger that calls lead to;
* `StakeGovernance.Ledger.Sound.votingPowerAt_unchanged` – no call changes power **in the
  past**.
-/

namespace StakeGovernance

/-! ### Weights -/

namespace WeightCurve

theorem weight_zero (c : WeightCurve) (remaining : Timestamp) :
    (c.weight .zero remaining).toNat = 0 := by
  unfold weight Amount.scale
  split
  · rfl
  · simp

/-- A weight is less than the amount times the number of multipliers. -/
theorem weight_le (c : WeightCurve) (amount : Amount) (remaining : Timestamp) :
    (c.weight amount remaining).toNat ≤ amount.toNat * (Word.size 32 - 1) := by
  unfold weight
  split
  · exact Nat.zero_le _
  · refine Nat.le_trans (Nat.div_le_self _ _) (Nat.mul_le_mul_left _ ?_)
    exact Nat.le_sub_one_of_lt (c.multiplier remaining).toNat_lt

end WeightCurve

namespace Ledger

variable {l m : Ledger} {account : Address} {now point : Timestamp}

/-! ### Power as a number -/

/-- What a bucket counts for the voting power of an account at a point. -/
def bucketPower (l : Ledger) (account : Address) (point bucket : Timestamp) : Nat :=
  if point < bucket then
    (l.params.curve.weight (l.delegation.amountAt account bucket point)
      (bucket.monus point)).toNat
  else 0

/-- **The voting power of an account at a point**, as a number. -/
noncomputable def power (l : Ledger) (account : Address) (point : Timestamp) : Nat :=
  ∑ b, l.bucketPower account point b

theorem amountAt_eq (l : Ledger) (delegatee : Address) (bucket point : Timestamp) :
    (l.delegation.amountAt delegatee bucket point).toNat
      = BucketLogs.reading Word.toNat l.delegation.delegated delegatee bucket point := by
  unfold Delegation.amountAt Delegation.log? BucketLogs.reading
  rw [BucketLogs.bind_log rfl]
  cases (BucketLogs.log l.delegation.delegated delegatee bucket).valueAt point <;> rfl

/-- **What is attributed to all delegatees** is the total at every point. -/
theorem Sound.sum_amountAt (h : l.Sound) (point : Timestamp) :
    ∑ d, ∑ b, (l.delegation.amountAt d b point).toNat = (l.totalStakedAt point).toNat := by
  have hshare : ∀ o b, ∑ d, BucketLogs.reading (StakePoint.share d) l.stakes o b point
      = BucketLogs.reading StakePoint.size l.stakes o b point := by
    intro o b
    unfold BucketLogs.reading
    cases (BucketLogs.log l.stakes o b).valueAt point with
    | none => exact Finset.sum_eq_zero fun _ _ => rfl
    | some s => exact s.sum_share
  calc ∑ d, ∑ b, (l.delegation.amountAt d b point).toNat
      = ∑ d, ∑ b, ∑ o, BucketLogs.reading (StakePoint.share d) l.stakes o b point := by
        refine Finset.sum_congr rfl fun d _ => Finset.sum_congr rfl fun b _ => ?_
        rw [amountAt_eq, h.attributed]
    _ = ∑ b, ∑ o, ∑ d, BucketLogs.reading (StakePoint.share d) l.stakes o b point := by
        rw [Finset.sum_comm]
        exact Finset.sum_congr rfl fun b _ => Finset.sum_comm
    _ = ∑ o, ∑ b, BucketLogs.reading StakePoint.size l.stakes o b point := by
        rw [Finset.sum_comm]
        exact Finset.sum_congr rfl fun o _ => Finset.sum_congr rfl fun b _ => hshare o b
    _ = (l.totalStakedAt point).toNat := (h.counted point).symm

/-- **All power together fits.** -/
theorem Sound.sum_power_lt (h : l.Sound) (point : Timestamp) :
    ∑ d, l.power d point < Word.size 128 := by
  have hbucket : ∀ d b, l.bucketPower d point b
      ≤ (l.delegation.amountAt d b point).toNat * (Word.size 32 - 1) := by
    intro d b
    unfold bucketPower
    split
    · exact l.params.curve.weight_le _ _
    · exact Nat.zero_le _
  calc ∑ d, l.power d point
      ≤ ∑ d, ∑ b, (l.delegation.amountAt d b point).toNat * (Word.size 32 - 1) :=
        Finset.sum_le_sum fun d _ => Finset.sum_le_sum fun b _ => hbucket d b
    _ = (l.totalStakedAt point).toNat * (Word.size 32 - 1) := by
        rw [← h.sum_amountAt, Finset.sum_mul]
        exact Finset.sum_congr rfl fun d _ => (Finset.sum_mul ..).symm
    _ < Word.size 128 := by
        have htotal := (l.totalStakedAt point).toNat_lt
        have hsize : Word.size 96 * (Word.size 32 - 1) < Word.size 128 := by decide
        exact Nat.lt_of_le_of_lt (Nat.mul_le_mul_right _ htotal.le) hsize

theorem Sound.power_lt (h : l.Sound) (account : Address) (point : Timestamp) :
    l.power account point < Word.size 128 :=
  Nat.lt_of_le_of_lt (le_sum (f := fun d => l.power d point) account) (h.sum_power_lt point)

/-! ### Adding power up -/

/-- A row of checked additions succeeds if the whole sum fits. -/
theorem foldlM_eq_ok {β : Type} (step : Power → β → Except StakingError Power) (term : β → Nat)
    (items : List β)
    (hstep : ∀ x ∈ items, ∀ acc w : Power, w.toNat = acc.toNat + term x → step acc x = .ok w)
    (acc : Power) (hfits : acc.toNat + (items.map term).sum < Word.size 128) :
    ∃ w, items.foldlM step acc = .ok w ∧ w.toNat = acc.toNat + (items.map term).sum := by
  induction items generalizing acc with
  | nil => exact ⟨acc, rfl, rfl⟩
  | cons x xs ih =>
    rw [List.map_cons, List.sum_cons] at hfits
    have hx : acc.toNat + term x < Word.size 128 := by omega
    obtain ⟨w, hw, hsum⟩ := ih (fun y hy => hstep y (List.mem_cons_of_mem _ hy))
      ⟨acc.toNat + term x, hx⟩ (by simp only; omega)
    refine ⟨w, ?_, ?_⟩
    · rw [List.foldlM_cons, hstep x List.mem_cons_self acc ⟨_, hx⟩ rfl]
      exact hw
    · rw [hsum, List.map_cons, List.sum_cons]
      simp only
      omega

theorem addPower_eq_ok {power weight w : Power} (h : w.toNat = power.toNat + weight.toNat) :
    addPower account power weight = .ok w := by
  unfold addPower
  rw [Word.add?_eq_some_iff.2 h]

/-- The live buckets of a delegatee are the entries of a map. -/
theorem liveBuckets_eq (d : Delegation) (delegatee : Address) (point : Timestamp) :
    d.liveBuckets delegatee point
      = ((d.delegated.getD delegatee .empty).filter fun b _ => decide (point < b)).entries := by
  unfold Delegation.liveBuckets OrderedMap.getD
  cases d.delegated.get? delegatee <;> rfl

/-- What one live bucket adds to the power before it. -/
def addBucket (l : Ledger) (account : Address) (point : Timestamp) (power : Power)
    (e : Timestamp × CheckpointLog Amount) : Except StakingError Power :=
  let amount := (e.2.valueAt point).getD .zero
  if amount.isZero then .ok power
  else addPower account power (l.params.curve.weight amount (e.1.monus point))

theorem votingPowerAt_eq_foldlM (l : Ledger) (account : Address) (point : Timestamp) :
    l.votingPowerAt account point
      = (l.delegation.liveBuckets account point).foldlM (l.addBucket account point) .zero := rfl

theorem addBucket_eq_ok {e : Timestamp × CheckpointLog Amount} {power w : Power}
    (h : w.toNat = power.toNat
      + (l.params.curve.weight ((e.2.valueAt point).getD .zero) (e.1.monus point)).toNat) :
    l.addBucket account point power e = .ok w := by
  unfold addBucket
  simp only
  split
  · rename_i hzero
    have hzero : (e.2.valueAt point).getD .zero = Word.zero := Word.ext (Word.isZero_iff.1 hzero)
    rw [hzero, WeightCurve.weight_zero] at h
    exact congrArg _ (Word.ext h.symm)
  · exact addPower_eq_ok h

/-- **The fast way** computes the voting power. -/
theorem Sound.votingPowerAt_eq (h : l.Sound) (account : Address) (point : Timestamp) :
    ∃ w, l.votingPowerAt account point = .ok w ∧ w.toNat = l.power account point := by
  have hsum : ((l.delegation.liveBuckets account point).map fun e =>
      (l.params.curve.weight ((e.2.valueAt point).getD .zero) (e.1.monus point)).toNat).sum
        = l.power account point := by
    rw [liveBuckets_eq, OrderedMap.sum_entries _ fun (b : Timestamp) (log : CheckpointLog Amount) =>
      (l.params.curve.weight ((log.valueAt point).getD .zero) (b.monus point)).toNat]
    refine Finset.sum_congr rfl fun b _ => ?_
    unfold bucketPower Delegation.amountAt Delegation.log?
    rw [BucketLogs.bind_log rfl, OrderedMap.get?_filter]
    show _ = if point < b then (l.params.curve.weight
      ((CheckpointLog.valueAt (((l.delegation.delegated.getD account .empty).get? b).getD .empty)
        point).getD .zero) _).toNat
      else 0
    cases (l.delegation.delegated.getD account .empty).get? b with
    | none =>
      show 0 = if point < b then (l.params.curve.weight .zero _).toNat else 0
      rw [WeightCurve.weight_zero, ite_self]
    | some log =>
      by_cases hlive : point < b
      · simp [Option.filter, hlive]
      · simp [Option.filter, hlive]
  obtain ⟨w, hw, htotal⟩ := foldlM_eq_ok (l.addBucket account point) _
    (l.delegation.liveBuckets account point) (fun _ _ _ _ => addBucket_eq_ok)
    .zero (by rw [hsum]; simpa using h.power_lt account point)
  refine ⟨w, (l.votingPowerAt_eq_foldlM account point).trans hw, ?_⟩
  rw [htotal, hsum]
  simp

/-! ### The way for audits -/

/-- What an attributed stake adds to a bucket. -/
def inBucket (bucket : Timestamp) (stake : Timestamp × Amount) : Nat :=
  if stake.1 = bucket then stake.2.toNat else 0

/-- What one owner's log of a bucket comes to for an account. -/
def logShare (account : Address) (point bucket : Timestamp) (log : CheckpointLog StakePoint) :
    Nat :=
  if point < bucket then ((log.valueAtLinear point).map (StakePoint.share account)).getD 0 else 0

theorem logShare_empty (account : Address) (point bucket : Timestamp) :
    logShare account point bucket .empty = 0 := ite_self _

/-- What is found for one owner in a bucket. -/
theorem sum_ownerStakes (buckets : StakeBuckets) (account : Address) (point bucket : Timestamp) :
    ((((buckets.entries.filter fun e => point < e.1).filterMap fun (b, log) =>
        match log.valueAtLinear point with
        | none => none
        | some stake => if stake.delegate = account then some (b, stake.amount) else none).map
      (inBucket bucket)).sum)
      = logShare account point bucket (buckets.getD bucket .empty) := by
  let count (b : Timestamp) (log : CheckpointLog StakePoint) : Nat :=
    if b = bucket then logShare account point b log else 0
  have hcount : ∀ e : Timestamp × CheckpointLog StakePoint,
      (if decide (point < e.1) = true then
        (Option.map (inBucket bucket)
          (match e.2.valueAtLinear point with
          | none => none
          | some stake =>
            if stake.delegate = account then some (e.1, stake.amount) else none)).getD 0
        else 0) = count e.1 e.2 := by
    intro e
    unfold count logShare
    by_cases hlive : point < e.1
    · simp only [hlive, decide_true, if_true]
      cases e.2.valueAtLinear point with
      | none => simp
      | some stake =>
        unfold StakePoint.share inBucket
        by_cases hdelegate : stake.delegate = account
        · simp [hdelegate]
        · have hother : account ≠ stake.delegate := fun e => hdelegate e.symm
          simp [hdelegate, hother]
    · simp [hlive]
  rw [sum_map_filterMap_filter]
  refine (congrArg List.sum (List.map_congr_left fun e _ => hcount e)).trans ?_
  rw [OrderedMap.sum_entries buckets count, Fintype.sum_eq_single bucket]
  · show _ = logShare account point bucket ((buckets.get? bucket).getD .empty)
    cases buckets.get? bucket with
    | none => exact (logShare_empty account point bucket).symm
    | some log => exact if_pos rfl
  · intro b hb
    cases buckets.get? b with
    | none => rfl
    | some log => exact if_neg hb

/-- **What is found owner by owner** for a bucket is what the stakes of all owners in it
come to. -/
theorem Sound.sum_attributedStakes (h : l.Sound) (account : Address) (point bucket : Timestamp) :
    ((l.attributedStakes account point).map (inBucket bucket)).sum
      = if point < bucket then
          ∑ o, BucketLogs.reading (StakePoint.share account) l.stakes o bucket point
        else 0 := by
  have howner : ∀ o, ((l.stakes.get? o).map fun buckets =>
      logShare account point bucket (buckets.getD bucket .empty)).getD 0
        = if point < bucket then
            BucketLogs.reading (StakePoint.share account) l.stakes o bucket point
          else 0 := by
    intro o
    unfold BucketLogs.reading
    rw [(h.stakes o bucket).ordered.valueAt_eq_valueAtLinear point]
    show _ = logShare account point bucket (((l.stakes.get? o).getD .empty).getD bucket .empty)
    cases l.stakes.get? o with
    | none => exact (logShare_empty account point bucket).symm
    | some buckets => rfl
  unfold attributedStakes OrderedMap.values
  rw [sum_map_flatMap, List.map_map]
  refine (congrArg List.sum (List.map_congr_left fun e _ =>
    sum_ownerStakes e.2 account point bucket)).trans ?_
  rw [OrderedMap.sum_entries l.stakes fun _ buckets =>
    logShare account point bucket (buckets.getD bucket .empty)]
  rw [Finset.sum_congr rfl fun o _ => howner o]
  split
  · rfl
  · exact Finset.sum_const_zero

/-- **Stakes are only found in buckets that end after the point.** -/
theorem lt_of_mem_attributedStakes {stake : Timestamp × Amount}
    (h : stake ∈ l.attributedStakes account point) : point < stake.1 := by
  obtain ⟨buckets, -, h⟩ := List.mem_flatMap.1 h
  obtain ⟨⟨b, log⟩, he, hsome⟩ := List.mem_filterMap.1 h
  have hlive : point < b := of_decide_eq_true (List.mem_filter.1 he).2
  simp only at hsome
  split at hsome
  · cases hsome
  · split at hsome
    · cases hsome
      exact hlive
    · cases hsome

/-- **Adding stakes up bucket by bucket** succeeds if every bucket's sum fits; the result has
a sum for buckets of the stakes only. -/
theorem foldlM_bucketSums (stakes : List (Timestamp × Amount)) (start : OrderedMap Timestamp Power)
    (hfits : ∀ b, (start.getD b .zero).toNat + (stakes.map (inBucket b)).sum < Word.size 128) :
    ∃ sums, stakes.foldlM (fun (sums : OrderedMap Timestamp Power) (bucket, amount) =>
        match Word.ofNat? ((sums.getD bucket .zero).toNat + amount.toNat) with
        | some sum => Except.ok (sums.insert bucket sum)
        | none => .error StakingError.bucketSumOverflow) start = .ok sums ∧
      (∀ b, (sums.getD b .zero).toNat
        = (start.getD b .zero).toNat + (stakes.map (inBucket b)).sum) ∧
      ∀ b, sums.contains b = true → start.contains b = true ∨ ∃ e ∈ stakes, e.1 = b := by
  induction stakes generalizing start with
  | nil => exact ⟨start, rfl, fun _ => rfl, fun _ h => Or.inl h⟩
  | cons e rest ih =>
    obtain ⟨bucket, amount⟩ := e
    have hbucket := hfits bucket
    simp only [List.map_cons, List.sum_cons, inBucket, if_true] at hbucket
    have hsum : (start.getD bucket .zero).toNat + amount.toNat < Word.size 128 := by omega
    have hnext : ∀ b, ((start.insert bucket ⟨_, hsum⟩).getD b .zero).toNat
        = (start.getD b .zero).toNat + inBucket b (bucket, amount) := by
      intro b
      rw [OrderedMap.getD_insert_eq]
      unfold inBucket
      by_cases hb : b = bucket
      · simp [hb]
      · have hother : ¬ bucket = b := fun e => hb e.symm
        simp [hb, hother]
    obtain ⟨sums, hfold, hvalue, hkeys⟩ := ih (start.insert bucket ⟨_, hsum⟩) fun b => by
      have := hfits b
      rw [List.map_cons, List.sum_cons] at this
      rw [hnext]
      omega
    refine ⟨sums, ?_, fun b => ?_, fun b hb => ?_⟩
    · rw [List.foldlM_cons]
      simp only [Word.ofNat?, dif_pos hsum]
      exact hfold
    · rw [hvalue, hnext, List.map_cons, List.sum_cons]
      omega
    · rcases hkeys b hb with hstart | ⟨e, he, rfl⟩
      · unfold OrderedMap.contains at hstart ⊢
        rw [OrderedMap.get?_insert_eq] at hstart
        by_cases hb' : b = bucket
        · exact Or.inr ⟨_, List.mem_cons_self, hb'.symm⟩
        · rw [if_neg hb'] at hstart
          exact Or.inl hstart
      · exact Or.inr ⟨e, List.mem_cons_of_mem _ he, rfl⟩

/-- What the sum of one bucket adds to the power before it. -/
def addSum (l : Ledger) (account : Address) (point : Timestamp) (power : Power)
    (e : Timestamp × Power) : Except StakingError Power :=
  match Word.ofNat? e.2.toNat with
  | none => .error (.bucketOverflow e.1 e.2)
  | some amount => addPower account power (l.params.curve.weight amount (e.1.monus point))

theorem addSum_eq_ok {e : Timestamp × Power} {power w : Power} (hlive : point < e.1)
    (hamount : e.2.toNat = (l.delegation.amountAt account e.1 point).toNat)
    (h : w.toNat = power.toNat + l.bucketPower account point e.1) :
    l.addSum account point power e = .ok w := by
  have hword : Word.ofNat? e.2.toNat = some (l.delegation.amountAt account e.1 point) :=
    Word.ofNat?_eq_some_iff.2 hamount.symm
  unfold addSum
  simp only [hword]
  refine addPower_eq_ok ?_
  rw [h]
  unfold bucketPower
  rw [if_pos hlive]

/-- **The way for audits** computes the same voting power. -/
theorem Sound.votingPowerAtLinear_eq (h : l.Sound) (account : Address) (point : Timestamp) :
    ∃ w, l.votingPowerAtLinear account point = .ok w ∧ w.toNat = l.power account point := by
  have hbucket : ∀ b, ((l.attributedStakes account point).map (inBucket b)).sum
      = if point < b then (l.delegation.amountAt account b point).toNat else 0 := by
    intro b
    rw [h.sum_attributedStakes, ← h.attributed, amountAt_eq]
  have hsize : Word.size 96 ≤ Word.size 128 := by decide
  obtain ⟨sums, hsums, hvalue, hkeys⟩ := foldlM_bucketSums (l.attributedStakes account point)
    .empty fun b => by
      have := (l.delegation.amountAt account b point).toNat_lt
      have hzero : ((.empty : OrderedMap Timestamp Power).getD b .zero).toNat = 0 := rfl
      rw [hbucket, hzero]
      split <;> omega
  have hvalue : ∀ b, (sums.getD b .zero).toNat
      = if point < b then (l.delegation.amountAt account b point).toNat else 0 := by
    intro b
    rw [hvalue b, hbucket]
    exact Nat.zero_add _
  have hlive : ∀ b, sums.contains b = true → point < b := by
    intro b hb
    rcases hkeys b hb with hempty | ⟨e, he, rfl⟩
    · cases hempty
    · exact lt_of_mem_attributedStakes he
  have hsum : (sums.entries.map fun e => l.bucketPower account point e.1).sum
      = l.power account point := by
    rw [OrderedMap.sum_entries sums fun b _ => l.bucketPower account point b]
    refine Finset.sum_congr rfl fun b _ => ?_
    have hb := hvalue b
    unfold OrderedMap.getD at hb
    cases hget : sums.get? b with
    | some sum => rfl
    | none =>
      rw [hget] at hb
      unfold bucketPower
      split
      · rename_i hlt
        rw [if_pos hlt] at hb
        rw [show l.delegation.amountAt account b point = .zero from Word.ext hb.symm,
          WeightCurve.weight_zero]
        rfl
      · rfl
  have hstep : ∀ e ∈ sums.entries, point < e.1 ∧
      e.2.toNat = (l.delegation.amountAt account e.1 point).toNat := by
    intro e he
    have hget := OrderedMap.get?_eq_some_iff.2 he
    have hpoint := hlive e.1 (by unfold OrderedMap.contains; rw [hget]; rfl)
    have hamount := hvalue e.1
    unfold OrderedMap.getD at hamount
    rw [hget, if_pos hpoint] at hamount
    exact ⟨hpoint, hamount⟩
  obtain ⟨w, hw, htotal⟩ := foldlM_eq_ok (l.addSum account point) _ sums.entries
    (fun e he _ _ => addSum_eq_ok (hstep e he).1 (hstep e he).2)
    .zero (by rw [hsum]; simpa using h.power_lt account point)
  refine ⟨w, Checked.bind_eq_ok.2 ⟨sums, hsums, hw⟩, ?_⟩
  rw [htotal, hsum]
  simp

/-! ### Both ways -/

/-- A later point less an earlier one is a true difference. -/
theorem sub?_of_lt {bucket : Timestamp} (h : point < bucket) :
    bucket.sub? point = some (bucket.monus point) := by
  have h : point.toNat < bucket.toNat := h
  rw [Word.sub?_eq_some_iff]
  show bucket.toNat = bucket.toNat - point.toNat + point.toNat
  omega

theorem lt_of_mem_liveBuckets {d : Delegation} {e : Timestamp × CheckpointLog Amount}
    (h : e ∈ d.liveBuckets account point) : point < e.1 := by
  rw [liveBuckets_eq] at h
  exact of_decide_eq_true (List.mem_filter.1 h).2

/-- **The fast way and the way for audits agree** on every ledger that calls lead to, for
every account and at every point: both come to a result, and to the same one. No sum on
the way exceeds its width, and no bucket that is looked at ends before the point. -/
theorem Reachable.votingPowerAt_eq_linear {params : StakingParams} (h : Reachable params l)
    (account : Address) (point : Timestamp) :
    (∃ w, l.votingPowerAt account point = .ok w ∧ l.votingPowerAtLinear account point = .ok w) ∧
      (∀ e ∈ l.delegation.liveBuckets account point, e.1.sub? point = some (e.1.monus point)) ∧
      ∀ e ∈ l.attributedStakes account point, e.1.sub? point = some (e.1.monus point) := by
  obtain ⟨w, hfast, hw⟩ := h.sound.votingPowerAt_eq account point
  obtain ⟨w', haudit, hw'⟩ := h.sound.votingPowerAtLinear_eq account point
  obtain rfl : w = w' := Word.ext (hw.trans hw'.symm)
  exact ⟨⟨w, hfast, haudit⟩, fun _ he => sub?_of_lt (lt_of_mem_liveBuckets he),
    fun _ he => sub?_of_lt (lt_of_mem_attributedStakes he)⟩

/-- Two stakes and a change of delegate, and the power of the delegate while both last. -/
theorem votingPowerAt_eq_linear_of_two_stakes :
    let alice : Address := ⟨List.replicate 20 1, rfl⟩
    let bob : Address := ⟨List.replicate 20 2, rfl⟩
    let moves : List Move := [
      .stake alice (Word.ofNat 1000) (.ofNat (100 * day)) alice (.ofNat 10),
      .stake bob (Word.ofNat 500) (.ofNat (200 * day)) alice (.ofNat 20),
      .delegate alice bob (.ofNat 30)]
    let l := moves.foldl (fun l move => move.apply l) (empty .default)
    l.votingPowerAt bob (.ofNat 40) = .ok (.ofNat 1341) ∧
      (∃ w, l.votingPowerAt bob (.ofNat 40) = .ok w ∧
        l.votingPowerAtLinear bob (.ofNat 40) = .ok w) := by
  intro alice bob moves l
  have hl : Reachable .default l := (Reachable.create (by rfl)).moves moves
  exact ⟨by decide +kernel, (hl.votingPowerAt_eq_linear bob (.ofNat 40)).1⟩

/-! ### Power in the past -/

theorem Advances.params (h : Advances now l m) : m.params = l.params := by
  cases h <;> rfl

/-- **A call changes nothing that was attributed in the past.** -/
theorem Sound.amountAt_unchanged (h : l.Sound) (ha : Advances now l m) (hpoint : point < now)
    (delegatee : Address) (bucket : Timestamp) :
    m.delegation.amountAt delegatee bucket point
      = l.delegation.amountAt delegatee bucket point := by
  cases ha with
  | stay events => rfl
  | write owner plan events hclock hplan =>
    refine Word.ext ?_
    rw [amountAt_eq, amountAt_eq]
    exact (h.delegated_written hclock delegatee bucket).trans (if_neg (Nat.not_le_of_lt hpoint))

/-- **Power follows what is attributed**: an account to which two sound ledgers with the same
parameters attribute the same, in every bucket that ends after a point, has the same power there. -/
theorem Sound.votingPowerAt_congr (h : l.Sound) (h' : m.Sound) (hparams : m.params = l.params)
    (hattributed : ∀ b, point < b →
      m.delegation.amountAt account b point = l.delegation.amountAt account b point) :
    m.votingPowerAt account point = l.votingPowerAt account point := by
  obtain ⟨w, hl, hw⟩ := h.votingPowerAt_eq account point
  obtain ⟨w', hm, hw'⟩ := h'.votingPowerAt_eq account point
  have hpower : m.power account point = l.power account point := by
    refine Finset.sum_congr rfl fun b _ => ?_
    unfold bucketPower
    split
    · rename_i hlive
      rw [hparams, hattributed b hlive]
    · rfl
  rw [hl, hm]
  exact congrArg _ (Word.ext (by rw [hw, hw', hpower]))

/-- **A call changes no voting power in the past.** -/
theorem Sound.votingPowerAt_unchanged (h : l.Sound) (ha : Advances now l m) (hpoint : point < now)
    (account : Address) : m.votingPowerAt account point = l.votingPowerAt account point :=
  h.votingPowerAt_congr (h.advances ha) ha.params fun b _ =>
    h.amountAt_unchanged ha hpoint account b

end Ledger

end StakeGovernance
