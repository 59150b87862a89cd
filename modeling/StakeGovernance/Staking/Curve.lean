import StakeGovernance.Staking.Error

/-!
# The weight of a lock

Voting power is the amount of a stake times a multiplier that grows with the time the
stake remains locked: from a least multiplier at no time at all to a greatest one at a
longest duration `D`, along the concave quadratic `(2 r D - r²) / D²` of the remaining
time `r`. All of it is integer arithmetic in basis points, rounded down.

* `StakeGovernance.WeightCurve` – the **curve**, with
  `StakeGovernance.WeightCurve.validate`;
* `StakeGovernance.WeightCurve.multiplier` – the multiplier for a remaining time;
* `StakeGovernance.WeightCurve.weight` – the **weight** of an amount.
-/

namespace StakeGovernance

/-- Seconds of a day. -/
def day : Nat := 86400

/-- Seconds of a year. -/
def year : Nat := 365 * day

/-- **The curve** of multipliers over the remaining time of a lock. -/
structure WeightCurve where
  /-- The multiplier at no remaining time. -/
  minBps : BasisPoints
  /-- The multiplier at the longest duration and beyond. -/
  maxBps : BasisPoints
  /-- The longest duration that the curve tells apart, which is the longest lock. -/
  maxDuration : Timestamp
deriving DecidableEq

namespace WeightCurve

/-- From one to three in three years. -/
def default : WeightCurve := ⟨.ofNat 10000, .ofNat 30000, .ofNat (3 * year)⟩

instance : Inhabited WeightCurve := ⟨default⟩

/-- The largest longest duration: a hundred years. -/
def longestDuration : Nat := 100 * year

/-- Checks the parameters of a curve. -/
def validate (c : WeightCurve) : Except StakingError Unit :=
  if c.minBps.isZero ∨ c.maxBps < c.minBps then .error (.curveBounds c.minBps c.maxBps)
  else if c.maxDuration.isZero ∨ longestDuration < c.maxDuration.toNat then
    .error (.curveDuration c.maxDuration)
  else .ok ()

/-- The curve between the multipliers at a remaining time `r`, scaled to `span`. -/
def shape (span duration r : Nat) : Nat :=
  let r := min r duration
  span * (2 * r * duration - r * r) / (duration * duration)

/-- The curve never leaves the span, because `2 r D - r² = D² - (D - r)²`. -/
theorem shape_le (span duration r : Nat) : shape span duration r ≤ span := by
  have key : 2 * min r duration * duration - min r duration * min r duration
      ≤ duration * duration := by
    obtain ⟨k, hk⟩ : ∃ k, duration = min r duration + k :=
      ⟨duration - min r duration, by omega⟩
    generalize min r duration = m at hk
    subst hk
    have e : (m + k) * (m + k) + m * m = 2 * m * (m + k) + k * k := by grind
    omega
  refine Nat.div_le_of_le_mul ?_
  rw [Nat.mul_comm (duration * duration)]
  exact Nat.mul_le_mul_left span key

/-- **The multiplier** for a remaining time. -/
def multiplier (c : WeightCurve) (remaining : Timestamp) : BasisPoints :=
  ⟨c.minBps.toNat
      + shape (c.maxBps.toNat - c.minBps.toNat) c.maxDuration.toNat remaining.toNat, by
    have h := shape_le (c.maxBps.toNat - c.minBps.toNat) c.maxDuration.toNat remaining.toNat
    have := c.minBps.toNat_lt
    have := c.maxBps.toNat_lt
    omega⟩

/-- **The weight** of an amount that remains locked for some time. A lock that is over
weighs nothing. -/
def weight (c : WeightCurve) (amount : Amount) (remaining : Timestamp) : Power :=
  if remaining.isZero then .zero else amount.scale (c.multiplier remaining)

/-! ### JSON -/

/-- A curve as JSON. -/
def toJson (c : WeightCurve) : Json :=
  .object [("min_bps", .ofWord c.minBps), ("max_bps", .ofWord c.maxBps),
    ("max_duration", .ofWord c.maxDuration)]

instance : ToJson WeightCurve := ⟨toJson⟩

/-- The curve that a JSON value stands for. -/
def ofJson? (v : Json) : Option WeightCurve := do
  let [minBps, maxBps, maxDuration] ← v.parts? ["min_bps", "max_bps", "max_duration"] | none
  return ⟨← minBps.word?, ← maxBps.word?, ← maxDuration.word?⟩

instance : FromJson WeightCurve := ⟨ofJson?⟩

end WeightCurve

end StakeGovernance
