import StakeGovernance.Proofs.Decay
import StakeGovernance.Proofs.PowerBound

/-!
# The curve in machine words

The multiplier is a quotient of products, and each of these is worked out in a word of some width:
the multipliers in words of 32 bits, the products in words of 128. None of the intermediate values
leaves its width, and nothing is lost when the quotient becomes a multiplier again. What makes room
is the limit of the longest duration: a hundred years are less than `2^32` seconds, so that two of
them make 64 bits and a span of multipliers on top of them makes 96.

The curve itself rises from its least multiplier at no time at all to its greatest one at the
longest duration, and stays there. So does the weight of an amount, which fits 128 bits whatever the
multiplier is.

* `StakeGovernance.WeightCurve.multiplier?`, `StakeGovernance.WeightCurve.weight?` – multiplier and
  weight **step by step**, none of which may leave its width;
* `StakeGovernance.WeightCurve.products_lt` – how large the **products** become;
* `StakeGovernance.WeightCurve.multiplier?_eq_some`, `StakeGovernance.WeightCurve.weight?_eq_some` –
  none of them does;
* `StakeGovernance.WeightCurve.grows_within_bounds` – the curve **grows within its bounds**.
-/

namespace StakeGovernance

/-! ### Words that may not leave their width -/

namespace Word

variable {bits other : ℕ}

/-- The product, if it fits. -/
def mul? (a b : Word bits) : Option (Word bits) := ofNat? (a.toNat * b.toNat)

/-- The quotient rounded down, if one can divide. -/
def div? (a b : Word bits) : Option (Word bits) :=
  if b.isZero then none
  else some ⟨a.toNat / b.toNat, Nat.lt_of_le_of_lt (Nat.div_le_self _ _) a.toNat_lt⟩

/-- A word in another width, if it fits. -/
def resize? (a : Word bits) : Option (Word other) := ofNat? a.toNat

theorem exists_mul? (a b : Word bits) (h : a.toNat * b.toNat < size bits) :
    ∃ c, a.mul? b = some c ∧ c.toNat = a.toNat * b.toNat :=
  ⟨⟨_, h⟩, ofNat?_eq_some_iff.2 rfl, rfl⟩

theorem exists_div? (a b : Word bits) (h : 0 < b.toNat) :
    ∃ c, a.div? b = some c ∧ c.toNat = a.toNat / b.toNat := by
  have hzero : ¬ b.isZero = true := by
    rw [isZero_iff]
    omega
  exact ⟨_, if_neg hzero, rfl⟩

theorem exists_resize? (a : Word bits) (other : ℕ) (h : a.toNat < size other) :
    ∃ b : Word other, a.resize? = some b ∧ b.toNat = a.toNat :=
  ⟨⟨_, h⟩, ofNat?_eq_some_iff.2 rfl, rfl⟩

end Word

namespace WeightCurve

variable {c : WeightCurve}

/-! ### Ends of the curve -/

theorem shape_zero (span duration : ℕ) : shape span duration 0 = 0 := by
  simp [shape]

/-- **From the longest duration on**, the curve is at the end of its span. -/
theorem shape_of_le (span : ℕ) {duration r : ℕ} (hpos : 0 < duration) (h : duration ≤ r) :
    shape span duration r = span := by
  have hnumerator := numerator_add_sq (Nat.le_refl duration)
  rw [Nat.sub_self, Nat.mul_zero, Nat.add_zero] at hnumerator
  simp only [shape, Nat.min_eq_right h, hnumerator]
  exact Nat.mul_div_cancel _ (Nat.mul_pos hpos hpos)

/-- **The numerator is at most the denominator**, and nothing is borrowed for it. -/
theorem numerator_le {m duration : ℕ} (h : m ≤ duration) :
    m * m ≤ 2 * m * duration ∧ 2 * m * duration - m * m ≤ duration * duration := by
  have hnumerator := numerator_add_sq h
  refine ⟨Nat.mul_le_mul ?_ h, ?_⟩ <;> omega

/-! ### Step by step -/

/-- The shape **step by step**: every product in a word of 128 bits. -/
def shape? (span duration r : Word 128) : Option (Word 128) := do
  let product ← (← (Word.ofNat 2).mul? r).mul? duration
  let numerator ← product.sub? (← r.mul? r)
  let scaled ← span.mul? numerator
  scaled.div? (← duration.mul? duration)

/-- The multiplier for a remaining time **step by step**: durations and the span in words of 128
bits, multipliers in words of 32 bits. -/
def multiplier? (c : WeightCurve) (remaining : Timestamp) : Option BasisPoints := do
  let duration ← c.maxDuration.resize?
  let r ← (if remaining ≤ c.maxDuration then remaining else c.maxDuration).resize?
  let span ← (← c.maxBps.sub? c.minBps).resize?
  let shaped ← shape? span duration r
  c.minBps.add? (← shaped.resize?)

/-- The weight of an amount **step by step**: the product in a word of 128 bits. -/
def weight? (c : WeightCurve) (amount : Amount) (remaining : Timestamp) : Option Power :=
  if remaining.isZero then some .zero
  else do
    let factor ← (← c.multiplier? remaining).resize?
    let product ← (← amount.resize?).mul? factor
    product.div? (.ofNat 10000)

/-- **The products are small** if the duration is within the limit: a hundred years are less than
`2^32` seconds, so that two of them make less than `2^64`, and a span on top of them less than
`2^96`. -/
theorem products_lt {span duration r : ℕ} (hspan : span < Word.size 32)
    (hlongest : duration ≤ longestDuration) (hr : r ≤ duration) :
    duration * duration < 2 ^ 64 ∧ 2 * r * duration < 2 ^ 65 ∧
      span * (2 * r * duration - r * r) < 2 ^ 96 := by
  have hlimit : longestDuration < 2 ^ 32 := by decide
  have hsquare : duration * duration < 2 ^ 32 * 2 ^ 32 :=
    Nat.mul_lt_mul'' (hlongest.trans_lt hlimit) (hlongest.trans_lt hlimit)
  have htwice : 2 * r * duration ≤ 2 * (duration * duration) := by
    rw [Nat.mul_assoc]
    exact Nat.mul_le_mul_left 2 (Nat.mul_le_mul_right _ hr)
  have hscaled : span * (2 * r * duration - r * r) < 2 ^ 32 * (2 ^ 32 * 2 ^ 32) :=
    Nat.mul_lt_mul'' hspan ((numerator_le hr).2.trans_lt hsquare)
  exact ⟨hsquare, by omega, hscaled⟩

/-- **No product leaves its width** if the duration is within the limit. -/
theorem exists_shape? (span duration r : Word 128) (hspan : span.toNat < Word.size 32)
    (hpos : 0 < duration.toNat) (hlongest : duration.toNat ≤ longestDuration)
    (hr : r.toNat ≤ duration.toNat) :
    ∃ shaped, shape? span duration r = some shaped ∧
      shaped.toNat = shape span.toNat duration.toNat r.toNat := by
  have hsize : Word.size 128 = 2 ^ 128 := rfl
  have hlimit : longestDuration < 2 ^ 32 := by decide
  have htwo : (Word.ofNat 2 : Word 128).toNat = 2 := rfl
  have hborrow := (numerator_le hr).1
  obtain ⟨hsquares, hproducts, hscaled⟩ := products_lt hspan hlongest hr
  obtain ⟨twice, h₁, hn₁⟩ := Word.exists_mul? (.ofNat 2) r (by
    rw [htwo]
    omega)
  rw [htwo] at hn₁
  obtain ⟨product, h₂, hn₂⟩ := Word.exists_mul? twice duration (by
    rw [hn₁]
    omega)
  rw [hn₁] at hn₂
  obtain ⟨square, h₃, hn₃⟩ := Word.exists_mul? r r (by omega)
  obtain ⟨numerator, h₄⟩ := Word.exists_sub? (a := product) (b := square) (by
    rw [Word.le_def, hn₂, hn₃]
    exact hborrow)
  have hn₄ : numerator.toNat = 2 * r.toNat * duration.toNat - r.toNat * r.toNat := by
    have := Word.sub?_eq_some_iff.1 h₄
    omega
  obtain ⟨scaled, h₅, hn₅⟩ := Word.exists_mul? span numerator (by
    rw [hn₄]
    omega)
  obtain ⟨denominator, h₆, hn₆⟩ := Word.exists_mul? duration duration (by omega)
  obtain ⟨shaped, h₇, hn₇⟩ := Word.exists_div? scaled denominator (by
    rw [hn₆]
    exact Nat.mul_pos hpos hpos)
  refine ⟨shaped, ?_, ?_⟩
  · simp only [shape?, h₁, h₂, h₃, h₄, h₅, h₆, h₇, Option.bind_eq_bind, Option.bind_some]
  · rw [hn₇, hn₅, hn₆, hn₄, shape, Nat.min_eq_left hr]

/-- A remaining time counts up to the longest duration. -/
theorem toNat_capped (c : WeightCurve) (remaining : Timestamp) :
    (if remaining ≤ c.maxDuration then remaining else c.maxDuration).toNat
      = min remaining.toNat c.maxDuration.toNat := by
  rw [Nat.min_def, apply_ite Word.toNat]
  rfl

theorem shape_min (span duration r : ℕ) : shape span duration (min r duration)
    = shape span duration r := by
  rw [shape, shape, Nat.min_assoc, Nat.min_self]

/-- **No step leaves its width** on a sound curve. -/
theorem multiplier?_eq_some (h : c.validate = .ok ()) (remaining : Timestamp) :
    c.multiplier? remaining = some (c.multiplier remaining) := by
  obtain ⟨⟨-, hbounds⟩, hpos, hlongest⟩ := validate_eq_ok_iff.1 h
  have hcapped := c.toNat_capped remaining
  generalize hr : (if remaining ≤ c.maxDuration then remaining else c.maxDuration) = cap at hcapped
  have hwide : ∀ w : Timestamp, w.toNat < Word.size 128 := fun w =>
    w.toNat_lt.trans (by decide)
  obtain ⟨duration, h₁, hn₁⟩ := Word.exists_resize? _ 128 (hwide c.maxDuration)
  obtain ⟨r, h₂, hn₂⟩ := Word.exists_resize? _ 128 (hwide cap)
  obtain ⟨difference, h₃⟩ := Word.exists_sub? hbounds
  have hn₃ := Word.sub?_eq_some_iff.1 h₃
  obtain ⟨span, h₄, hn₄⟩ := Word.exists_resize? difference 128
    (difference.toNat_lt.trans (by decide))
  obtain ⟨shaped, h₅, hn₅⟩ := exists_shape? span duration r
    (hn₄ ▸ difference.toNat_lt) (hn₁ ▸ hpos) (hn₁ ▸ hlongest) (by
      rw [hn₁, hn₂, hcapped]
      exact Nat.min_le_right _ _)
  rw [hn₁, hn₂, hn₄, hcapped, shape_min] at hn₅
  have hshape := shape_le difference.toNat c.maxDuration.toNat remaining.toNat
  obtain ⟨added, h₆, hn₆⟩ := Word.exists_resize? shaped 32 (by
    rw [hn₅]
    exact Nat.lt_of_le_of_lt hshape difference.toNat_lt)
  have h₇ : c.minBps.add? added = some (c.multiplier remaining) := by
    rw [Word.add?_eq_some_iff, hn₆, hn₅,
      show difference.toNat = c.maxBps.toNat - c.minBps.toNat by omega]
    rfl
  simp only [multiplier?, hr, h₁, h₂, h₃, h₄, h₅, h₆, h₇, Option.bind_eq_bind, Option.bind_some]

/-- **No weight leaves its width** on a sound curve. -/
theorem weight?_eq_some (h : c.validate = .ok ()) (amount : Amount) (remaining : Timestamp) :
    c.weight? amount remaining = some (c.weight amount remaining) := by
  rw [weight?, weight]
  split_ifs with hzero
  · rfl
  · have hfits : amount.toNat * (c.multiplier remaining).toNat < Word.size 96 * Word.size 32 :=
      Nat.mul_lt_mul'' amount.toNat_lt (c.multiplier remaining).toNat_lt
    obtain ⟨factor, h₁, hn₁⟩ := Word.exists_resize? (c.multiplier remaining) 128
      ((c.multiplier remaining).toNat_lt.trans (by decide))
    obtain ⟨wide, h₂, hn₂⟩ := Word.exists_resize? amount 128
      (amount.toNat_lt.trans (by decide))
    obtain ⟨product, h₃, hn₃⟩ := Word.exists_mul? wide factor (by
      rw [hn₁, hn₂]
      exact hfits)
    obtain ⟨w, h₄, hn₄⟩ := Word.exists_div? product (.ofNat 10000) (by decide)
    have hw : w = amount.scale (c.multiplier remaining) := by
      refine Word.ext ?_
      rw [hn₄, hn₃, hn₁, hn₂]
      rfl
    simp only [multiplier?_eq_some h, h₁, h₂, h₃, h₄, hw, Option.bind_eq_bind, Option.bind_some]

/-! ### The curve -/

/-- **A sound curve grows within its bounds.** The multiplier grows with the remaining time, from
the least multiplier at no time at all to the greatest one at the longest duration, and is never
outside. No value on the way to a multiplier or to a weight leaves its width, and the weight grows
with the amount and with the remaining time. -/
theorem grows_within_bounds (h : c.validate = .ok ()) :
    (∀ r s : Timestamp, r ≤ s →
      c.minBps ≤ c.multiplier r ∧ c.multiplier r ≤ c.multiplier s ∧
        c.multiplier s ≤ c.maxBps) ∧
    (∀ r, c.maxDuration ≤ r → c.multiplier r = c.maxBps) ∧ c.multiplier .zero = c.minBps ∧
    (∀ r, c.multiplier? r = some (c.multiplier r)) ∧
    (∀ amount r, c.weight? amount r = some (c.weight amount r)) ∧
    ∀ (a b : Amount) (r s : Timestamp), a ≤ b → r ≤ s → c.weight a r ≤ c.weight b s := by
  obtain ⟨⟨-, hbounds⟩, hpos, -⟩ := validate_eq_ok_iff.1 h
  refine ⟨fun r s hle => ⟨?_, multiplier_mono c hle, multiplier_le hbounds s⟩,
    fun r hlong => ?_, ?_, multiplier?_eq_some h, weight?_eq_some h, fun a b r s hunits hrest => ?_⟩
  · exact Nat.le_add_right _ _
  · refine Word.ext ?_
    show c.minBps.toNat + shape (c.maxBps.toNat - c.minBps.toNat) _ _ = c.maxBps.toNat
    rw [shape_of_le _ hpos hlong]
    exact Nat.add_sub_of_le hbounds
  · refine Word.ext ?_
    show c.minBps.toNat + shape (c.maxBps.toNat - c.minBps.toNat) _ 0 = c.minBps.toNat
    rw [shape_zero, Nat.add_zero]
  · show (c.weight a r).toNat ≤ (c.weight b s).toNat
    rw [toNat_weight, toNat_weight]
    exact weigh_mono c hunits hrest

/-- The default curve at the longest duration, at twice of it and at half of it. -/
theorem grows_within_bounds_of_default :
    default.validate = .ok () ∧ default.multiplier (.ofNat (6 * year)) = .ofNat 30000 ∧
      default.multiplier? (.ofNat (3 * year / 2)) = some (.ofNat 25000) ∧
      default.multiplier (.ofNat (3 * year / 2)) ≤ default.multiplier (.ofNat (3 * year)) := by
  have hsound : default.validate = .ok () := by decide +kernel
  obtain ⟨hgrows, htop, -, hsteps, -⟩ := grows_within_bounds hsound
  have hhalf : default.multiplier (.ofNat (3 * year / 2)) = .ofNat 25000 := by decide +kernel
  exact ⟨hsound, htop _ (by decide +kernel), (hsteps _).trans (congrArg some hhalf),
    (hgrows _ _ (by decide +kernel)).2.1⟩

-- on a curve that is too long, a product leaves its width
example : multiplier? ⟨.ofNat 1, .ofNat 2, .ofNat (2 ^ 64 - 1)⟩ (.ofNat (2 ^ 64 - 1)) = none := by
  decide +kernel

end WeightCurve

end StakeGovernance
