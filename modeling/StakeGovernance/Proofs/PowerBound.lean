import StakeGovernance.Proofs.Power

/-!
# All power is bounded by all stake

Every unit of stake counts for one delegatee only, with at most the greatest multiplier. So
however many accounts are asked for their voting power at a point, all of it together is at
most the total stake at the point times that multiplier. Each bucket of each account is
rounded down on its own; the bound is rounded down once, at the end, because a sum of
roundings never exceeds the rounding of the sum.

* `StakeGovernance.WeightCurve.validate_eq_ok_iff` – the curves that are **sound**;
* `StakeGovernance.WeightCurve.multiplier_le` – no multiplier is **above the greatest**;
* `StakeGovernance.Ledger.Sound.sum_power_mul_le` – the bound **before rounding**, over all
  accounts at once;
* `StakeGovernance.Ledger.Reachable.sum_votingPowerAt_le` – the bound for **any accounts**
  of any ledger that calls lead to.
-/

namespace StakeGovernance

/-! ### Weights of a sound curve -/

namespace WeightCurve

variable {c : WeightCurve}

/-- **The curves that are sound.** -/
theorem validate_eq_ok_iff :
    c.validate = .ok () ↔ (0 < c.minBps.toNat ∧ c.minBps ≤ c.maxBps) ∧
      0 < c.maxDuration.toNat ∧ c.maxDuration.toNat ≤ longestDuration := by
  simp only [validate, Word.isZero_iff, Word.lt_def, Word.le_def]
  split_ifs with hbounds hduration
  · refine iff_of_false (by simp) ?_
    omega
  · refine iff_of_false (by simp) ?_
    omega
  · refine iff_of_true rfl ?_
    omega

/-- The multipliers of a sound curve are in order. -/
theorem validate_eq_ok (h : c.validate = .ok ()) : c.minBps ≤ c.maxBps :=
  (validate_eq_ok_iff.1 h).1.2

/-- **No multiplier is above the greatest.** -/
theorem multiplier_le (h : c.minBps ≤ c.maxBps) (remaining : Timestamp) :
    c.multiplier remaining ≤ c.maxBps := by
  have hle : c.minBps.toNat ≤ c.maxBps.toNat := h
  have hshape := shape_le (c.maxBps.toNat - c.minBps.toNat) c.maxDuration.toNat remaining.toNat
  show c.minBps.toNat + shape (c.maxBps.toNat - c.minBps.toNat) c.maxDuration.toNat
    remaining.toNat ≤ c.maxBps.toNat
  omega

/-- A weight, in basis points, is at most the amount times the greatest multiplier. -/
theorem weight_mul_le (h : c.minBps ≤ c.maxBps) (amount : Amount) (remaining : Timestamp) :
    (c.weight amount remaining).toNat * 10000 ≤ amount.toNat * c.maxBps.toNat := by
  unfold weight
  split
  · exact Nat.zero_le _
  · calc amount.toNat * (c.multiplier remaining).toNat / 10000 * 10000
        ≤ amount.toNat * (c.multiplier remaining).toNat := Nat.div_mul_le_self _ _
      _ ≤ amount.toNat * c.maxBps.toNat :=
        Nat.mul_le_mul_left _ (multiplier_le h remaining)

end WeightCurve

/-- The curve of sound parameters is sound. -/
theorem StakingParams.validate_eq_ok {params : StakingParams} (h : params.validate = .ok ()) :
    params.curve.validate = .ok () := by
  obtain ⟨_, hcurve, -⟩ := Checked.bind_eq_ok.1 h
  exact hcurve

namespace Ledger

variable {l : Ledger} {params : StakingParams}

/-! ### Parameters that never change -/

/-- **No call changes the parameters**, and they were sound from the start. -/
theorem Reachable.params_eq (h : Reachable params l) :
    l.params = params ∧ params.validate = .ok () := by
  induction h with
  | create h =>
    obtain ⟨_, hvalid, hl⟩ := Checked.bind_eq_ok.1 h
    cases hl
    exact ⟨rfl, hvalid⟩
  | move h move ih =>
    obtain ⟨now, ha⟩ := h.sound.apply move
    exact ⟨ha.params.trans ih.1, ih.2⟩

/-! ### The bound -/

/-- **All power together**, in basis points, is at most the total times the greatest
multiplier. -/
theorem Sound.sum_power_mul_le (h : l.Sound)
    (hcurve : l.params.curve.minBps ≤ l.params.curve.maxBps) (point : Timestamp) :
    (∑ d, l.power d point) * 10000
      ≤ (l.totalStakedAt point).toNat * l.params.curve.maxBps.toNat := by
  have hbucket : ∀ d b, l.bucketPower d point b * 10000
      ≤ (l.delegation.amountAt d b point).toNat * l.params.curve.maxBps.toNat := by
    intro d b
    unfold bucketPower
    split
    · exact WeightCurve.weight_mul_le hcurve _ _
    · rw [Nat.zero_mul]
      exact Nat.zero_le _
  calc (∑ d, l.power d point) * 10000
      = ∑ d, ∑ b, l.bucketPower d point b * 10000 := by
        rw [Finset.sum_mul]
        exact Finset.sum_congr rfl fun d _ => Finset.sum_mul ..
    _ ≤ ∑ d, ∑ b, (l.delegation.amountAt d b point).toNat * l.params.curve.maxBps.toNat :=
        Finset.sum_le_sum fun d _ => Finset.sum_le_sum fun b _ => hbucket d b
    _ = (∑ d, ∑ b, (l.delegation.amountAt d b point).toNat) * l.params.curve.maxBps.toNat := by
        rw [Finset.sum_mul]
        exact Finset.sum_congr rfl fun d _ => (Finset.sum_mul ..).symm
    _ = (l.totalStakedAt point).toNat * l.params.curve.maxBps.toNat := by
        rw [h.sum_amountAt]

/-- On a sound ledger, asking any accounts for their power comes to the numbers. -/
theorem Sound.forall₂_votingPowerAt (h : l.Sound) (accounts : List Address) (point : Timestamp) :
    ∃ powers : List Power,
      List.Forall₂ (fun a w => l.votingPowerAt a point = .ok w) accounts powers ∧
        powers.map Word.toNat = accounts.map fun a => l.power a point := by
  induction accounts with
  | nil => exact ⟨[], .nil, rfl⟩
  | cons a rest ih =>
    obtain ⟨w, hw, hpower⟩ := h.votingPowerAt_eq a point
    obtain ⟨powers, hpowers, hmap⟩ := ih
    exact ⟨w :: powers, .cons hw hpowers, by rw [List.map_cons, List.map_cons, hpower, hmap]⟩

/-- Distinct accounts have no more power than all accounts. -/
theorem sum_power_le {accounts : List Address} (hdistinct : accounts.Nodup) (l : Ledger)
    (point : Timestamp) : (accounts.map fun a => l.power a point).sum ≤ ∑ a, l.power a point := by
  classical
  rw [← List.sum_toFinset _ hdistinct]
  exact Finset.sum_le_sum_of_subset (Finset.subset_univ _)

/-- **All voting power is bounded by all stake.** On every ledger that calls lead to, any
distinct accounts can be asked for their voting power at any point, and what they have
together is at most the total stake at the point times the greatest multiplier, rounded
down. So it always fits the width of a power. -/
theorem Reachable.sum_votingPowerAt_le (h : Reachable params l) {accounts : List Address}
    (hdistinct : accounts.Nodup) (point : Timestamp) :
    ∃ powers : List Power,
      List.Forall₂ (fun a w => l.votingPowerAt a point = .ok w) accounts powers ∧
        (powers.map Word.toNat).sum
          ≤ (l.totalStakedAt point).toNat * params.curve.maxBps.toNat / 10000 ∧
        (powers.map Word.toNat).sum < Word.size 128 := by
  obtain ⟨hparams, hvalid⟩ := h.params_eq
  have hcurve : l.params.curve.minBps ≤ l.params.curve.maxBps := by
    rw [hparams]
    exact WeightCurve.validate_eq_ok (StakingParams.validate_eq_ok hvalid)
  obtain ⟨powers, hpowers, hmap⟩ := h.sound.forall₂_votingPowerAt accounts point
  have hall : (powers.map Word.toNat).sum ≤ ∑ a, l.power a point := by
    rw [hmap]
    exact sum_power_le hdistinct l point
  refine ⟨powers, hpowers, ?_, Nat.lt_of_le_of_lt hall (h.sound.sum_power_lt point)⟩
  rw [Nat.le_div_iff_mul_le (by decide), ← hparams]
  exact Nat.le_trans (Nat.mul_le_mul_right _ hall) (h.sound.sum_power_mul_le hcurve point)

/-- Two owners stake for one delegate, and one of them changes the delegate at the very point
that is asked about. The stake of 1000 counts for the new delegate only. -/
theorem sum_votingPowerAt_le_of_two_stakes :
    let alice : Address := ⟨List.replicate 20 1, rfl⟩
    let bob : Address := ⟨List.replicate 20 2, rfl⟩
    let carol : Address := ⟨List.replicate 20 3, rfl⟩
    let moves : List Move := [
      .stake alice (Word.ofNat 1000) (.ofNat (100 * day)) carol (.ofNat 10),
      .stake bob (Word.ofNat 500) (.ofNat (200 * day)) carol (.ofNat 20),
      .delegate alice bob (.ofNat 30)]
    let l := moves.foldl (fun l move => move.apply l) (empty .default)
    l.votingPowerAt bob (.ofNat 30) = .ok (.ofNat 1341) ∧
      l.votingPowerAt carol (.ofNat 30) = .ok (.ofNat 825) ∧
      ∃ powers : List Power,
        List.Forall₂ (fun a w => l.votingPowerAt a (.ofNat 30) = .ok w) [alice, bob, carol]
          powers ∧ (powers.map Word.toNat).sum ≤ 4500 := by
  intro alice bob carol moves l
  have hl : Reachable .default l := (Reachable.create (by rfl)).moves moves
  have hbound : (l.totalStakedAt (.ofNat 30)).toNat * 30000 / 10000 = 4500 := by decide +kernel
  have hdistinct : [alice, bob, carol].Nodup := by decide +kernel
  obtain ⟨powers, hpowers, hsum, -⟩ := hl.sum_votingPowerAt_le hdistinct (.ofNat 30)
  exact ⟨by decide +kernel, by decide +kernel, powers, hpowers, hsum.trans_eq hbound⟩

end Ledger

end StakeGovernance
