import Mathlib.Order.Bounds.Defs
import StakeGovernance.Proofs.Calendar

/-!
# Rounding is the floor of the calendar

A point is rounded down to the calendar by taking off what is left over of a bucket. The sum on the
way there is the point itself again, and what is taken off is less than what was added, so that
nothing is carried over the end of a word or borrowed from below zero, however late the point is.

What comes out is the greatest point of the calendar up to the point, or up to the kickoff if that
is later, and everything else follows from this. A later point has no fewer points of the calendar
up to it, so rounding is monotone; and a point of the calendar is itself the greatest one up to
itself, so rounding twice is rounding once.

* `StakeGovernance.Word.rem?` – the **remainder**, if one can divide;
* `StakeGovernance.StakingParams.quantize?` – rounding **step by step**, where no step may leave
  its width;
* `StakeGovernance.StakingParams.quantize?_eq_some` – none of them does;
* `StakeGovernance.StakingParams.isGreatest_quantize` – the **greatest point of the calendar**;
* `StakeGovernance.StakingParams.rounds_down_to_the_calendar` – rounding as **a floor**, for every
  calendar and every point.
-/

namespace StakeGovernance

namespace Word

variable {bits : ℕ}

/-- The remainder, if one can divide. -/
def rem? (a b : Word bits) : Option (Word bits) :=
  if b.isZero then none
  else some ⟨a.toNat % b.toNat, Nat.lt_of_le_of_lt (Nat.mod_le _ _) a.toNat_lt⟩

theorem exists_rem? (a b : Word bits) (h : 0 < b.toNat) :
    ∃ c, a.rem? b = some c ∧ c.toNat = a.toNat % b.toNat := by
  have hzero : ¬ b.isZero = true := by
    rw [isZero_iff]
    omega
  exact ⟨_, if_neg hzero, rfl⟩

end Word

namespace StakingParams

variable {p : StakingParams} {s t b : Timestamp}

/-! ### Step by step -/

/-- After the kickoff, **what is left over of a bucket** is taken off. -/
theorem toNat_quantize_add (ht : p.kickoff < t) :
    (p.quantize t).toNat + (t.toNat - p.kickoff.toNat) % p.bucketInterval.toNat = t.toNat := by
  have hquantize : (p.quantize t).toNat = p.kickoff.toNat + (t.toNat - p.kickoff.toNat)
      - (t.toNat - p.kickoff.toNat) % p.bucketInterval.toNat := if_neg (Nat.not_le.2 ht)
  have hrest := Nat.mod_le (t.toNat - p.kickoff.toNat) p.bucketInterval.toNat
  have ht : p.kickoff.toNat < t.toNat := ht
  omega

/-- A point rounded down to the calendar **step by step**: the time since the kickoff, the point
again, and what is left over of a bucket taken off. -/
def quantize? (p : StakingParams) (t : Timestamp) : Option Timestamp :=
  if t ≤ p.kickoff then some p.kickoff
  else do
    let offset ← t.sub? p.kickoff
    let sum ← p.kickoff.add? offset
    sum.sub? (← offset.rem? p.bucketInterval)

/-- **No step leaves its width** on a calendar that goes on. -/
theorem quantize?_eq_some (h : 0 < p.bucketInterval.toNat) (t : Timestamp) :
    p.quantize? t = some (p.quantize t) := by
  rw [quantize?]
  split_ifs with hearly
  · exact congrArg some (Word.ext (if_pos hearly).symm)
  · have hlate : p.kickoff < t := Nat.lt_of_not_le hearly
    obtain ⟨offset, hoffset⟩ := Word.exists_sub? (show p.kickoff ≤ t from Nat.le_of_lt hlate)
    have hn := Word.sub?_eq_some_iff.1 hoffset
    -- the sum cannot wrap, because it is the point itself
    have hsum : p.kickoff.add? offset = some t := Word.add?_eq_some_iff.2 (by omega)
    obtain ⟨rest, hrest, hleft⟩ := offset.exists_rem? p.bucketInterval h
    have hfloor : t.sub? rest = some (p.quantize t) := by
      rw [Word.sub?_eq_some_iff, hleft, show offset.toNat = t.toNat - p.kickoff.toNat by omega]
      exact (toNat_quantize_add hlate).symm
    simp only [hoffset, hsum, hrest, hfloor, Option.bind_eq_bind, Option.bind_some]

/-! ### The greatest point of the calendar -/

/-- The calendar begins at the kickoff. -/
theorem OnCalendar.kickoff_le (hb : p.OnCalendar b) : p.kickoff ≤ b := by
  obtain ⟨k, hk⟩ := hb
  exact (Nat.le_add_right _ _).trans_eq hk.symm

/-- The later one of a point and the kickoff is the point, once the calendar has begun. -/
theorem max_kickoff (ht : p.kickoff ≤ t) : max t p.kickoff = t := by
  refine Word.ext ?_
  rw [Ledger.toNat_max]
  exact Nat.max_eq_left ht

/-- **Rounding gives the greatest point of the calendar** up to a point, or up to the kickoff if
that is later. -/
theorem isGreatest_quantize (h : 0 < p.bucketInterval.toNat) (t : Timestamp) :
    IsGreatest {b | p.OnCalendar b ∧ b ≤ max t p.kickoff} (p.quantize t) := by
  have hmax : (max t p.kickoff).toNat = max t.toNat p.kickoff.toNat := Ledger.toNat_max _ _
  constructor
  · refine ⟨p.onCalendar_quantize t, ?_⟩
    rw [Word.le_def, hmax]
    exact calendarFloor_le_max _ _ _
  · rintro b ⟨⟨k, hk⟩, hle⟩
    rw [Word.le_def, hmax] at hle
    rcases Nat.lt_or_ge p.kickoff.toNat t.toNat with hlate | hearly
    · -- so many whole buckets fit between the kickoff and the point
      have hfit : k * p.bucketInterval.toNat ≤ t.toNat - p.kickoff.toNat := by omega
      have hwhole : k ≤ (t.toNat - p.kickoff.toNat) / p.bucketInterval.toNat :=
        (Nat.le_div_iff_mul_le h).2 hfit
      have hbuckets := Nat.mul_le_mul_right p.bucketInterval.toNat hwhole
      have hparts := Nat.div_add_mod' (t.toNat - p.kickoff.toNat) p.bucketInterval.toNat
      have hadd := toNat_quantize_add hlate
      exact show b.toNat ≤ (p.quantize t).toNat by omega
    · have hquantize : p.quantize t = p.kickoff := Word.ext (if_pos hearly)
      rwa [Nat.max_eq_right hearly, ← hquantize] at hle

/-- **A point of the calendar** is rounded to itself. -/
theorem quantize_eq_self (h : 0 < p.bucketInterval.toNat) (hb : p.OnCalendar b) :
    p.quantize b = b := by
  have hgreatest := isGreatest_quantize h b
  rw [max_kickoff hb.kickoff_le] at hgreatest
  exact Word.ext (Nat.le_antisymm hgreatest.1.2 (hgreatest.2 ⟨hb, Nat.le_refl _⟩))

/-- **A later point** is not rounded to an earlier one: there are no fewer points of the calendar up
to it. -/
theorem quantize_mono (h : 0 < p.bucketInterval.toNat) (hst : s ≤ t) :
    p.quantize s ≤ p.quantize t := by
  obtain ⟨hcalendar, hle⟩ := (isGreatest_quantize h s).1
  refine (isGreatest_quantize h t).2 ⟨hcalendar, Nat.le_trans hle ?_⟩
  rw [Ledger.toNat_max, Ledger.toNat_max]
  exact max_le_max_right _ hst

/-- **Rounding is the floor of the calendar**, on every calendar that goes on and at every point. It
gives the greatest point of the calendar that is not later, and the kickoff where there is none. No
step of it wraps; it is monotone; twice is as good as once; and it never leads beyond the later one
of the point and the kickoff. -/
theorem rounds_down_to_the_calendar (h : 0 < p.bucketInterval.toNat) :
    (∀ t, p.kickoff ≤ t → IsGreatest {b | p.OnCalendar b ∧ b ≤ t} (p.quantize t)) ∧
    (∀ t, t < p.kickoff → p.quantize t = p.kickoff) ∧
    (∀ t, p.quantize? t = some (p.quantize t)) ∧
    (∀ s t, s ≤ t → p.quantize s ≤ p.quantize t) ∧
    (∀ t, p.quantize (p.quantize t) = p.quantize t) ∧
    ∀ t, p.quantize t ≤ max t p.kickoff := by
  refine ⟨fun t ht => ?_, fun t ht => Word.ext (if_pos (Nat.le_of_lt ht)), quantize?_eq_some h,
    fun s t => quantize_mono h, fun t => quantize_eq_self h (p.onCalendar_quantize t),
    fun t => (isGreatest_quantize h t).1.2⟩
  have hgreatest := isGreatest_quantize h t
  rwa [max_kickoff ht] at hgreatest

/-- The last point of all, on a calendar of fortnights that begins at 1000. -/
theorem rounds_down_to_the_calendar_at_the_end :
    let p : StakingParams := ⟨.ofNat 1000, .ofNat (14 * day), .default⟩
    0 < p.bucketInterval.toNat ∧ p.quantize .max = .ofNat 18446744073708922600 ∧
      p.quantize? .max = some (p.quantize .max) ∧
      IsGreatest {b | p.OnCalendar b ∧ b ≤ .max} (p.quantize .max) := by
  intro p
  have hinterval : 0 < p.bucketInterval.toNat := by decide +kernel
  obtain ⟨hfloor, -, hsteps, -⟩ := rounds_down_to_the_calendar hinterval
  exact ⟨hinterval, by decide +kernel, hsteps _, hfloor _ (by decide +kernel)⟩

-- on a calendar without a width, nothing can be left over of a bucket
example : quantize? ⟨.ofNat 1000, .zero, .default⟩ (.ofNat 1001) = none := by decide +kernel

end StakingParams

end StakeGovernance
