import Mathlib.Tactic.Ring
import StakeGovernance.Proofs.Power

/-!
# Power decays

An account to whose name nothing is added or taken away loses power as time passes, and never gains
any. What is attributed to it from the latest point of the ledger on is what is attributed now; so
two readings of its power differ in the time that is left to each bucket, and in which buckets have
ended. Both go one way. The multiplier grows with the time that is left, because the curve is what
`(D - r)²` leaves of `D²`; every bucket is rounded down on its own, which keeps the order; and a
bucket that drops out of the sum had weighed something or nothing before, but never less.

* `StakeGovernance.WeightCurve.shape_mono`, `StakeGovernance.WeightCurve.multiplier_mono` – the
  curve **grows** with the time that is left;
* `StakeGovernance.WeightCurve.weigh_mono` – so does a **weight**, and with the units;
* `StakeGovernance.Ledger.Sound.amountAt_of_le` – what is attributed **from the latest point on**;
* `StakeGovernance.Ledger.Reachable.untouched_power_decays` – power **only decays** on every ledger
  that calls lead to, until it is gone.
-/

namespace StakeGovernance

/-! ### The curve -/

namespace WeightCurve

/-- `2 m D - m²` is what `(D - m)²` leaves of `D²`. -/
theorem numerator_add_sq {m duration : ℕ} (h : m ≤ duration) :
    2 * m * duration - m * m + (duration - m) * (duration - m) = duration * duration := by
  obtain ⟨k, rfl⟩ := Nat.exists_eq_add_of_le h
  have hsquare : (m + k) * (m + k) + m * m = 2 * m * (m + k) + k * k := by ring
  have hfits : m * m ≤ 2 * m * (m + k) := Nat.mul_le_mul (by omega) (Nat.le_add_right m k)
  rw [Nat.add_sub_cancel_left]
  omega

/-- **The curve grows** with the time that is left. -/
theorem shape_mono (span duration : ℕ) {r s : ℕ} (h : r ≤ s) :
    shape span duration r ≤ shape span duration s := by
  have hr := numerator_add_sq (Nat.min_le_right r duration)
  have hs := numerator_add_sq (Nat.min_le_right s duration)
  have hrest : duration - min s duration ≤ duration - min r duration := by omega
  have hsquare := Nat.mul_le_mul hrest hrest
  refine Nat.div_le_div_right (Nat.mul_le_mul_left span ?_)
  omega

/-- **The multiplier grows** with the time that is left. -/
theorem multiplier_mono (c : WeightCurve) {r s : Timestamp} (h : r ≤ s) :
    c.multiplier r ≤ c.multiplier s :=
  Nat.add_le_add_left (shape_mono _ _ h) _

/-- **What a number of units weighs** that remain locked for some time. The units of several amounts
need not be an amount again. -/
def weigh (c : WeightCurve) (units : ℕ) (remaining : Timestamp) : ℕ :=
  if remaining.isZero then 0 else units * (c.multiplier remaining).toNat / 10000

theorem toNat_weight (c : WeightCurve) (amount : Amount) (remaining : Timestamp) :
    (c.weight amount remaining).toNat = c.weigh amount.toNat remaining := by
  rw [weight, weigh]
  split <;> rfl

@[simp] theorem weigh_zero (c : WeightCurve) (remaining : Timestamp) : c.weigh 0 remaining = 0 := by
  simp [weigh]

/-- **A weight grows** with the units and with the time that is left. -/
theorem weigh_mono (c : WeightCurve) {m n : ℕ} {r s : Timestamp} (hunits : m ≤ n) (hrest : r ≤ s) :
    c.weigh m r ≤ c.weigh n s := by
  by_cases hr : r.isZero = true
  · rw [weigh, if_pos hr]
    exact Nat.zero_le _
  · have hs : ¬ s.isZero = true := by
      rw [Word.isZero_iff] at hr ⊢
      have : r.toNat ≤ s.toNat := hrest
      omega
    rw [weigh, weigh, if_neg hr, if_neg hs]
    exact Nat.div_le_div_right (Nat.mul_le_mul hunits (c.multiplier_mono hrest))

end WeightCurve

/-! ### What is attributed -/

/-- A bucket in which something is attributed is one of those that are kept. -/
theorem Delegation.mem_keys_of_amount {d : Delegation} {delegatee : Address} {bucket : Timestamp}
    (h : 0 < (d.amount delegatee bucket).toNat) :
    bucket ∈ (d.delegated.getD delegatee .empty).keys := by
  rw [OrderedMap.mem_keys, OrderedMap.contains, Option.isSome_iff_ne_none]
  rintro hnone
  have hlog : d.log? delegatee bucket = none := by
    rcases hbuckets : d.delegated.get? delegatee with _ | buckets
    · rw [log?, hbuckets, Option.bind_none]
    · rw [OrderedMap.getD, hbuckets] at hnone
      rw [log?, hbuckets]
      exact hnone
  rw [amount, hlog] at h
  exact absurd h (Nat.lt_irrefl 0)

namespace Ledger

variable {l : Ledger} {account : Address} {bucket point p q : Timestamp}

/-- **From the latest point on**, what is attributed is what is attributed now. -/
theorem Sound.amountAt_of_le (h : l.Sound) (hlast : l.lastPoint ≤ point) (account : Address)
    (bucket : Timestamp) :
    l.delegation.amountAt account bucket point = l.delegation.amount account bucket := by
  refine Word.ext ?_
  rw [amountAt_eq, amount_eq, h.delegated.reading_of_le hlast]

/-! ### Power -/

/-- **What a live bucket counts** from the latest point on: what is attributed now, with the time
that is left. -/
theorem Sound.bucketPower_eq (h : l.Sound) (hlast : l.lastPoint ≤ point) (hlive : point < bucket) :
    l.bucketPower account point bucket
      = l.params.curve.weigh (l.delegation.amount account bucket).toNat (bucket.monus point) := by
  rw [bucketPower, if_pos hlive, h.amountAt_of_le hlast, WeightCurve.toNat_weight]

section Decay

variable (h : l.Sound) (hlast : l.lastPoint ≤ p) (hle : p ≤ q)

include h hlast hle

/-- **A bucket counts less** as time passes, and nothing once it has ended. -/
theorem Sound.bucketPower_le (account : Address) (bucket : Timestamp) :
    l.bucketPower account q bucket ≤ l.bucketPower account p bucket := by
  by_cases hlive : q < bucket
  · have hbefore : p < bucket := Nat.lt_of_le_of_lt hle hlive
    have hrest : bucket.monus q ≤ bucket.monus p := Nat.sub_le_sub_left hle bucket.toNat
    rw [h.bucketPower_eq hlast hbefore, h.bucketPower_eq (Nat.le_trans hlast hle) hlive]
    exact WeightCurve.weigh_mono _ (Nat.le_refl _) hrest
  · rw [bucketPower, if_neg hlive]
    exact Nat.zero_le _

/-- **Power decays.** -/
theorem Sound.power_le (account : Address) : l.power account q ≤ l.power account p :=
  Finset.sum_le_sum fun bucket _ => h.bucketPower_le hlast hle account bucket

end Decay

/-- **Power is gone** once no bucket is left in which anything is attributed. -/
theorem Sound.power_eq_zero (h : l.Sound) (hlast : l.lastPoint ≤ q)
    (hended : ∀ bucket, 0 < (l.delegation.amount account bucket).toNat → bucket ≤ q) :
    l.power account q = 0 := by
  refine Finset.sum_eq_zero fun bucket _ => ?_
  by_cases hlive : q < bucket
  · have hnothing : l.delegation.amount account bucket = .zero := by
      refine Word.ext (Nat.eq_zero_of_not_pos fun hpos => ?_)
      exact absurd hlive (Nat.not_lt.2 (hended bucket hpos))
    rw [h.bucketPower_eq hlast hlive, hnothing]
    exact WeightCurve.weigh_zero _ _
  · rw [bucketPower, if_neg hlive]

/-- **Untouched power only decays.** On every ledger that calls lead to, an account can be asked for
its voting power at any two points from the latest one on, and it has at the later one at most what
it has at the earlier one. Once no bucket that ends later has anything attributed to it, it has
no power at all. -/
theorem Reachable.untouched_power_decays {params : StakingParams} (h : Reachable params l)
    (account : Address) (hlast : l.lastPoint ≤ p) (hle : p ≤ q) :
    ∃ before after, l.votingPowerAt account p = .ok before ∧ l.votingPowerAt account q = .ok after ∧
      after ≤ before ∧
      ((∀ bucket, 0 < (l.delegation.amount account bucket).toNat → bucket ≤ q) →
        after = .zero) := by
  obtain ⟨before, hbefore, hp⟩ := h.sound.votingPowerAt_eq account p
  obtain ⟨after, hafter, hq⟩ := h.sound.votingPowerAt_eq account q
  refine ⟨before, after, hbefore, hafter, ?_, fun hended => ?_⟩
  · show after.toNat ≤ before.toNat
    rw [hp, hq]
    exact h.sound.power_le hlast hle account
  · refine Word.ext (hq.trans ?_)
    exact h.sound.power_eq_zero (Nat.le_trans hlast hle) hended

/-- Two buckets of two owners are attributed to one of them. The first one drops out while the other
one is still counted, and when that one ends too there is no power left. -/
theorem untouched_power_decays_of_two_buckets :
    let alice : Address := ⟨List.replicate 20 1, rfl⟩
    let bob : Address := ⟨List.replicate 20 2, rfl⟩
    let moves : List Move := [
      .stake alice (Word.ofNat 1000) (.ofNat (100 * day)) alice (.ofNat 10),
      .stake bob (Word.ofNat 500) (.ofNat (200 * day)) alice (.ofNat 20)]
    let l := moves.foldl (fun l move => move.apply l) (empty .default)
    l.votingPowerAt alice (.ofNat 20) = .ok (.ofNat 2166) ∧
      l.votingPowerAt alice (.ofNat (98 * day)) = .ok (.ofNat 670) ∧
      l.votingPowerAt alice (.ofNat (196 * day)) = .ok .zero := by
  intro alice bob moves l
  have hl : Reachable .default l := (Reachable.create (by rfl)).moves moves
  have hlast : l.lastPoint ≤ .ofNat 20 := by decide +kernel
  have hlater : (.ofNat 20 : Timestamp) ≤ .ofNat (196 * day) := by decide +kernel
  have hkeys : (l.delegation.delegated.getD alice .empty).keys
      = [.ofNat (98 * day), .ofNat (196 * day)] := by decide +kernel
  have hended : ∀ bucket, 0 < (l.delegation.amount alice bucket).toNat →
      bucket ≤ .ofNat (196 * day) := by
    intro bucket hamount
    have hmem := Delegation.mem_keys_of_amount hamount
    rw [hkeys, List.mem_pair] at hmem
    rcases hmem with rfl | rfl <;> decide +kernel
  obtain ⟨_, after, -, hafter, -, hgone⟩ := hl.untouched_power_decays alice hlast hlater
  rw [hgone hended] at hafter
  exact ⟨by decide +kernel, by decide +kernel, hafter⟩

end Ledger

end StakeGovernance
