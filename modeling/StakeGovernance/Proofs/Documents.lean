import StakeGovernance.Setup.File

/-!
# Settings that have a text

An integer in a file of settings has 64 bits with a sign, the integers among the settings have 64
bits without one. That is all that can keep settings out of a file: texts, addresses and amounts
have a form there whatever they are, and what is missing is left out. So it can be told from the
numbers alone which settings cannot be written down.

* `StakeGovernance.Toml.Formless` – data that **cannot stand in a document**;
* `StakeGovernance.Settings.counts` – the **numbers** among settings;
* `StakeGovernance.Settings.toText_eq_error_iff` – which settings have **no text**.
-/

namespace StakeGovernance

/-! ### Data without a form -/

namespace Toml

/-- **Data that cannot stand in a document**, and is not left out either. -/
def Formless (v : Json) : Prop := v ≠ .null ∧ ofJson? v = none

/-- What is made of two results is missing if one of them is. -/
theorem bind_pair_eq_none_iff {α β γ : Type} {x : Option α} {y : Option β} {f : α → β → γ} :
    (do return f (← x) (← y) : Option γ) = none ↔ x = none ∨ y = none := by
  cases x <;> cases y <;> simp

theorem itemsOfJson?_eq_none_iff {items : List Json} :
    itemsOfJson? items = none ↔ ∃ x ∈ items, ofJson? x = none := by
  induction items with
  | nil => simp [itemsOfJson?]
  | cons x xs ih =>
    rw [itemsOfJson?, bind_pair_eq_none_iff, ih]
    simp only [List.mem_cons, exists_eq_or_imp]

theorem fieldsOfJson?_eq_none_iff {fields : List (String × Json)} :
    fieldsOfJson? fields = none ↔ ∃ f ∈ fields, Formless f.2 := by
  induction fields with
  | nil => simp [fieldsOfJson?]
  | cons f fs ih =>
    obtain ⟨name, value⟩ := f
    simp only [List.mem_cons, exists_eq_or_imp]
    by_cases hnull : value = .null
    · subst hnull
      rw [fieldsOfJson?, ih]
      simp [Formless]
    · rw [fieldsOfJson?.eq_3 _ _ _ hnull, bind_pair_eq_none_iff, ih]
      simp [Formless, hnull]

theorem ofJson?_object_eq_none_iff {fields : List (String × Json)} :
    ofJson? (.object fields) = none ↔ ∃ f ∈ fields, Formless f.2 := by
  rw [ofJson?, Option.map_eq_none_iff, fieldsOfJson?_eq_none_iff]

/-- **An object has no form** if one of its fields has none. -/
@[simp] theorem formless_object {fields : List (String × Json)} :
    Formless (.object fields) ↔ ∃ f ∈ fields, Formless f.2 := by
  rw [Formless, ofJson?_object_eq_none_iff]
  exact and_iff_right Json.noConfusion

/-- **A list has no form** if one of its items has none, or is `null`. -/
theorem formless_array {items : List Json} :
    Formless (.array items) ↔ ∃ x ∈ items, ofJson? x = none := by
  rw [Formless, ofJson?, Option.map_eq_none_iff, itemsOfJson?_eq_none_iff]
  exact and_iff_right Json.noConfusion

@[simp] theorem not_formless_string (s : String) : ¬ Formless (.string s) := by
  simp [Formless, ofJson?]

@[simp] theorem not_formless_bool (b : Bool) : ¬ Formless (.bool b) := by
  simp [Formless, ofJson?]

/-- A text that may be missing always has a form, or else is left out. -/
@[simp] theorem not_formless_optional (s : Option String) :
    ¬ Formless (Json.ofOption .string s) := by
  cases s <;> simp [Json.ofOption, Formless, ofJson?]

/-- **A number has no form** if it takes 64 bits or more. -/
@[simp] theorem formless_ofWord {bits : Nat} {w : Word bits} :
    Formless (.ofWord w) ↔ Word.size 63 ≤ w.toNat := by
  have hlow : Int64.minValue.toInt = - (Word.size 63 : Int) := by decide
  have hhigh : Int64.maxValue.toInt = Word.size 63 - 1 := by decide
  have hnone : ofJson? (.ofWord w) = none ↔ Word.size 63 ≤ w.toNat := by
    show integer? w.toNat = none ↔ _
    unfold integer?
    rw [ite_eq_right_iff]
    simp only [reduceCtorEq, imp_false, hlow, hhigh]
    omega
  rw [Formless, hnone]
  exact and_iff_right Json.noConfusion

end Toml

open Toml

/-! ### The records of settings -/

@[simp] theorem Address.not_formless (a : Address) : ¬ Formless a.toJson := not_formless_string _

@[simp] theorem Amount.not_formless (a : Amount) : ¬ Formless (Amount.toJson a) :=
  not_formless_string _

@[simp] theorem GovernorParams.not_formless_power (p : Power) : ¬ Formless (powerToJson p) :=
  not_formless_string _

@[simp] theorem WeightCurve.formless_iff {c : WeightCurve} :
    Formless c.toJson ↔ Word.size 63 ≤ c.maxDuration.toNat := by
  -- the factors have 32 bits
  have hmin := c.minBps.toNat_lt
  have hmax := c.maxBps.toNat_lt
  have hwidths : Word.size 32 < Word.size 63 := by decide
  simp only [toJson, formless_object, List.mem_cons, List.not_mem_nil, or_false, exists_eq_or_imp,
    exists_eq_left, formless_ofWord]
  omega

@[simp] theorem Allocation.not_formless (allocations : List Allocation) :
    ¬ Formless (.array (allocations.map toJson)) := by
  rw [formless_array]
  rintro ⟨_, hmem, hnone⟩
  obtain ⟨a, -, rfl⟩ := List.mem_map.1 hmem
  revert hnone
  simp [toJson, ofJson?_object_eq_none_iff]

@[simp] theorem TreasurySettings.not_formless (t : TreasurySettings) : ¬ Formless t.toJson := by
  simp [toJson]

@[simp] theorem LogSettings.not_formless (l : LogSettings) : ¬ Formless l.toJson := by
  simp [toJson]

namespace Settings

variable {s : Settings}

/-- **The numbers among settings** that stand in a file as numbers and have 64 bits. -/
def counts (s : Settings) : List (Word 64) :=
  let p := s.protocol
  [p.staking.kickoff, p.staking.bucketInterval, p.staking.curve.maxDuration,
    p.governor.votingDelay, p.governor.votingPeriod, p.governor.maxActions,
    p.timelock.delay, p.timelock.minDelay, p.timelock.maxDelay, p.timelock.gracePeriod]

/-- Settings are data without a form if one of the numbers among them is. -/
theorem ofJson?_toJson_eq_none_iff :
    Toml.ofJson? s.toJson = none ↔ ∃ n ∈ s.counts, Word.size 63 ≤ n.toNat := by
  simp [toJson, ofJson?_object_eq_none_iff, counts, ProtocolConfig.toJson, StakingParams.toJson,
    GovernorParams.toJson, TimelockParams.toJson, or_assoc]

/-- **Settings have no text** if one of the numbers among them takes 64 bits. -/
theorem toText_eq_error_iff {e : SetupError} :
    s.toText = .error e ↔ e = .unprintable ∧ ∃ n ∈ s.counts, Word.size 63 ≤ n.toNat := by
  obtain ⟨fields, hfields⟩ : ∃ fields, s.toJson = .object fields := ⟨_, rfl⟩
  unfold toText
  rw [← ofJson?_toJson_eq_none_iff, hfields, Toml.ofJson?]
  cases Toml.fieldsOfJson? fields with
  | none => simp [eq_comm]
  | some document => simp

end Settings

end StakeGovernance
