import StakeGovernance.Staking.Curve

/-!
# The calendar of locks

Locks end on the points of a calendar: a first point, the kickoff, and a point every
bucket width after it. A requested end is rounded down to the calendar.

* `StakeGovernance.StakingParams` – the **calendar and the curve** of a ledger;
* `StakeGovernance.StakingParams.quantize` – **rounding down** to the calendar.
-/

namespace StakeGovernance

/-- **The parameters of a ledger.** -/
structure StakingParams where
  /-- The first point of the calendar. -/
  kickoff : Timestamp
  /-- The width of a bucket. -/
  bucketInterval : Timestamp
  /-- The weight of locks, which also bounds their length. -/
  curve : WeightCurve
deriving DecidableEq

namespace StakingParams

/-- Two weeks for a bucket, starting at zero. -/
def default : StakingParams := ⟨.ofNat 0, .ofNat (14 * day), .default⟩

instance : Inhabited StakingParams := ⟨default⟩

/-- Checks the parameters. -/
def validate (p : StakingParams) : Except StakingError Unit := do
  p.curve.validate
  if p.bucketInterval.isZero ∨ p.curve.maxDuration < p.bucketInterval then
    throw (.bucketInterval p.bucketInterval p.curve.maxDuration)

/-- The greatest point of a calendar at or before `t`, or its first point. -/
def calendarFloor (kickoff interval t : Nat) : Nat :=
  if t ≤ kickoff then kickoff
  else kickoff + (t - kickoff) - (t - kickoff) % interval

theorem calendarFloor_le_max (kickoff interval t : Nat) :
    calendarFloor kickoff interval t ≤ max t kickoff := by
  unfold calendarFloor
  split <;> omega

/-- **A point rounded down to the calendar**; everything up to the kickoff falls on the
kickoff. -/
def quantize (p : StakingParams) (t : Timestamp) : Timestamp :=
  ⟨calendarFloor p.kickoff.toNat p.bucketInterval.toNat t.toNat, by
    have := calendarFloor_le_max p.kickoff.toNat p.bucketInterval.toNat t.toNat
    have := p.kickoff.toNat_lt
    have := t.toNat_lt
    omega⟩

/-! ### JSON -/

/-- Parameters as JSON. -/
def toJson (p : StakingParams) : Json :=
  .object [("kickoff", .ofWord p.kickoff), ("bucket_interval", .ofWord p.bucketInterval),
    ("curve", p.curve.toJson)]

instance : ToJson StakingParams := ⟨toJson⟩

/-- The parameters that a JSON value stands for. -/
def ofJson? (v : Json) : Option StakingParams := do
  let [kickoff, interval, curve] ← v.parts? ["kickoff", "bucket_interval", "curve"] | none
  return ⟨← kickoff.word?, ← interval.word?, ← WeightCurve.ofJson? curve⟩

instance : FromJson StakingParams := ⟨ofJson?⟩

end StakingParams

end StakeGovernance
