import Mathlib.Data.Nat.Digits.Defs
import Mathlib.Tactic.Ring
import StakeGovernance.Proofs.Arguments
import StakeGovernance.Proofs.Printing
import StakeGovernance.Proofs.Texts

/-!
# What decimal texts denote

A row of decimal digits denotes the sum of what each digit counts in its place; zeros in front count
for nothing, and there is no limit to the length of a row. The reader goes from left to right
instead and never looks at a place. The two agree, because a digit that is put behind a row makes
ten times as much of it; and so an amount is read from exactly the rows that denote one. What a row
denotes that is too large for an amount may well be too large for any other word too: to read it as
a word of 128 bits first, and to refuse what does not fit that, comes to the same.

* `StakeGovernance.Decimal.Denotes` – what a text **denotes**;
* `StakeGovernance.Decimal.ofDigits?_eq_some_iff` – a row is **read as what it denotes**;
* `StakeGovernance.Amount.ofDecimal_eq_narrowed` – **two limits**, one after the other, are the
  smaller one;
* `StakeGovernance.Amount.decimals_are_read_exactly` – which texts are **amounts**, which are **too
  large**, and which are **neither**; and what an amount is written as is read as this amount.
-/

namespace StakeGovernance

namespace Decimal

/-! ### What a row of digits counts -/

/-- What a digit counts in the last place. -/
def digitValue (c : Char) : ℕ := c.toNat - '0'.toNat

/-- **What a row of digits counts**: each one its value in its place, of which the last one is that
of the units. -/
def value (cs : List Char) : ℕ := Nat.ofDigits 10 (cs.reverse.map digitValue)

@[simp] theorem value_nil : value [] = 0 := rfl

/-- The first digit counts in the highest place. -/
theorem value_cons (c : Char) (cs : List Char) :
    value (c :: cs) = digitValue c * 10 ^ cs.length + value cs := by
  simp only [value, List.reverse_cons, List.map_append, Nat.ofDigits_append, List.map_cons,
    List.map_nil, Nat.ofDigits_singleton, List.length_map, List.length_reverse]
  ring

/-- **What a text denotes** in decimal: it is a row of digits, and the number is what they count. -/
structure Denotes (text : String) (n : ℕ) : Prop where
  nonempty : text.toList ≠ []
  digits : ∀ c ∈ text.toList, c.isDigit = true
  value : value text.toList = n

/-- A text denotes one number at most. -/
theorem Denotes.eq {text : String} {m n : ℕ} (h : Denotes text m) (h' : Denotes text n) : m = n :=
  h.value.symm.trans h'.value

/-! ### Reading from left to right -/

theorem digit?_eq_some_iff {c : Char} {d : ℕ} :
    digit? c = some d ↔ c.isDigit = true ∧ digitValue c = d := by
  have hrange : ('0' ≤ c ∧ c ≤ '9') ↔ c.isDigit = true := by
    simp [Char.isDigit, Char.le_def]
  rw [digit?]
  by_cases hdigit : c.isDigit = true
  · simp [if_pos (hrange.2 hdigit), hdigit, digitValue]
  · rw [if_neg (hdigit ∘ hrange.1)]
    simp [hdigit]

/-- **What is read behind a number**: digits, each of which makes ten times as much of what stands
before it. -/
theorem continue?_eq_some_iff {acc n : ℕ} {cs : List Char} :
    continue? acc cs = some n ↔
      (∀ c ∈ cs, c.isDigit = true) ∧ acc * 10 ^ cs.length + value cs = n := by
  induction cs generalizing acc with
  | nil => simp [continue?]
  | cons c rest ih =>
    rw [continue?, Option.bind_eq_some_iff, List.forall_mem_cons, value_cons, List.length_cons]
    constructor
    · rintro ⟨d, hd, hrest⟩
      obtain ⟨hdigit, rfl⟩ := digit?_eq_some_iff.1 hd
      obtain ⟨hdigits, rfl⟩ := ih.1 hrest
      exact ⟨⟨hdigit, hdigits⟩, by ring⟩
    · rintro ⟨⟨hdigit, hdigits⟩, rfl⟩
      exact ⟨_, digit?_eq_some_iff.2 ⟨hdigit, rfl⟩, ih.2 ⟨hdigits, by ring⟩⟩

/-- **A row of digits is read as what it denotes**, and nothing else is read. -/
theorem ofDigits?_eq_some_iff {text : String} {n : ℕ} :
    ofDigits? text.toList = some n ↔ Denotes text n := by
  have hwhole : text.toList ≠ [] → ofDigits? text.toList = continue? 0 text.toList := by
    intro hne
    rcases hcs : text.toList with _ | ⟨c, rest⟩
    · exact absurd hcs hne
    · rfl
  constructor
  · intro h
    have hne : text.toList ≠ [] := by
      intro hempty
      rw [hempty] at h
      cases h
    obtain ⟨hdigits, hvalue⟩ := continue?_eq_some_iff.1 (hwhole hne ▸ h)
    exact ⟨hne, hdigits, by omega⟩
  · rintro ⟨hne, hdigits, rfl⟩
    exact (hwhole hne).trans (continue?_eq_some_iff.2 ⟨hdigits, by omega⟩)

theorem ofDigits?_eq_none_iff {text : String} :
    ofDigits? text.toList = none ↔ ¬ ∃ n, Denotes text n := by
  rw [Option.eq_none_iff_forall_ne_some, not_exists]
  exact forall_congr' fun n => not_congr ofDigits?_eq_some_iff

/-- **The digits of a number** denote it. -/
theorem denotes_digits (n : ℕ) : Denotes (String.ofList (digits n)) n :=
  ofDigits?_eq_some_iff.1 (by rw [String.toList_ofList, ofDigits?_digits])

end Decimal

namespace Amount

variable {text : String} {n : ℕ}

/-! ### Amounts of numbers -/

theorem ofNat_eq_ok_iff {a : Amount} : ofNat n = .ok a ↔ n = a.toNat := by
  rw [ofNat, eq_comm (a := n), ← Word.ofNat?_eq_some_iff]
  cases Word.ofNat? n <;> simp

theorem ofNat_eq_overflow_iff : ofNat n = .error .amountOverflow ↔ 2 ^ 96 ≤ n := by
  have hlimit : (Word.ofNat? n : Option Amount) = none ↔ 2 ^ 96 ≤ n := Word.ofNat?_eq_none_iff
  rw [ofNat, ← hlimit]
  cases Word.ofNat? n <;> simp

/-- A number is no text. -/
theorem ofNat_ne_format : ofNat n ≠ .error (.amountFormat text) := by
  rw [ofNat]
  cases Word.ofNat? n <;> simp

/-! ### Reading amounts -/

/-- **A text that denotes a number** is the amount of this number, if there is one. -/
theorem ofDecimal_of_denotes (h : Decimal.Denotes text n) : ofDecimal text = ofNat n := by
  rw [ofDecimal, Decimal.ofDigits?_eq_some_iff.2 h]

theorem ofDecimal_of_not_denotes (h : ¬ ∃ n, Decimal.Denotes text n) :
    ofDecimal text = .error (.amountFormat text) := by
  rw [ofDecimal, Decimal.ofDigits?_eq_none_iff.2 h]

/-- A text that is no row of digits **is refused with its wording**, and no other text is. -/
theorem ofDecimal_eq_format_iff :
    ofDecimal text = .error (.amountFormat text) ↔ ¬ ∃ n, Decimal.Denotes text n := by
  refine ⟨?_, ofDecimal_of_not_denotes⟩
  rintro h ⟨n, hn⟩
  exact ofNat_ne_format ((ofDecimal_of_denotes hn).symm.trans h)

/-- A row of digits **is an amount** if it denotes one, and nothing else is. -/
theorem ofDecimal_eq_ok_iff {a : Amount} :
    ofDecimal text = .ok a ↔ Decimal.Denotes text a.toNat := by
  by_cases hdenotes : ∃ n, Decimal.Denotes text n
  · obtain ⟨n, hn⟩ := hdenotes
    rw [ofDecimal_of_denotes hn, ofNat_eq_ok_iff]
    exact ⟨fun h => h ▸ hn, hn.eq⟩
  · rw [ofDecimal_of_not_denotes hdenotes]
    exact iff_of_false nofun fun h => hdenotes ⟨_, h⟩

/-- A row of digits **is too large** if it denotes no amount, and nothing else is. -/
theorem ofDecimal_eq_overflow_iff :
    ofDecimal text = .error .amountOverflow ↔ ∃ n, Decimal.Denotes text n ∧ 2 ^ 96 ≤ n := by
  by_cases hdenotes : ∃ n, Decimal.Denotes text n
  · obtain ⟨n, hn⟩ := hdenotes
    rw [ofDecimal_of_denotes hn, ofNat_eq_overflow_iff]
    exact ⟨fun h => ⟨n, hn, h⟩, fun ⟨m, hm, h⟩ => hn.eq hm ▸ h⟩
  · rw [ofDecimal_of_not_denotes hdenotes]
    exact iff_of_false nofun fun ⟨n, hn, _⟩ => hdenotes ⟨n, hn⟩

/-- **Two limits**: a row of digits is read as a word of 128 bits, and what it denotes is then taken
for an amount. If either one does not fit, the amount is too large. -/
theorem ofDecimal_eq_narrowed (h : Decimal.Denotes text n) :
    ofDecimal text = ((Word.ofText text : Except Decimal.Error Power).mapError
      fun _ => ValueError.amountOverflow).bind fun power => ofNat power.toNat := by
  rw [ofDecimal_of_denotes h]
  have hdigits := Decimal.ofDigits?_eq_some_iff.2 h
  rcases hpower : (Word.ofText text : Except Decimal.Error Power) with e | power
  · -- a number that is no word of 128 bits is no word of 96 bits either
    refine ofNat_eq_overflow_iff.2 (Nat.le_of_not_lt fun hfits => ?_)
    have hsmall : n < Word.size 128 := Nat.lt_trans hfits (by decide)
    have hread := ((⟨n, hsmall⟩ : Power).ofText_eq_ok_iff hdigits).2 rfl
    rw [hpower] at hread
    cases hread
  · rw [(power.ofText_eq_ok_iff hdigits).1 hpower]
    rfl

/-- **The bytes of an amount** are read as this amount. -/
theorem ofBytes?_toBytes (a : Amount) : ofBytes? a.toBytes = some a := by
  have hbytes : ofBigEndian a.toBytes = a.toNat := ofBigEndian_bigEndian a.toNat_lt
  rw [ofBytes?, if_pos (by rw [toBytes, length_bigEndian]), hbytes, Word.ofNat?_toNat]

/-- **The hexadecimal text of an amount** is read as this amount. -/
theorem ofText_toHexText (a : Amount) : ofText a.toHexText = .ok a := by
  simp only [ofText, toHexText, afterHexMark?_encodeMarked, Hex.decode_encode, ofBytes?_toBytes]

/-- **The JSON text of an amount** is read as this amount. -/
theorem ofJson?_compact (a : Amount) :
    (Json.parse? (toJson a).compact).bind ofJson? = some a := by
  have hparse : Json.parse? (toJson a).compact = some (toJson a) :=
    (Json.Plain.string a.toText).parseText?_compact false
  rw [hparse, Option.bind_some, ofJson?_toJson]

/-- **Decimal amounts are read exactly.** A text is read as an amount if and only if it is a row of
digits that denotes this amount; it is refused as too large if and only if it is a row of digits
that denotes a number of more than 96 bits, however large; and any other text is refused as no
number. An amount is read from all that it is written as: its decimal text, its hexadecimal text,
its twelve bytes, and its JSON text. -/
theorem decimals_are_read_exactly :
    (∀ (text : String) (a : Amount), ofDecimal text = .ok a ↔ Decimal.Denotes text a.toNat) ∧
      (∀ text : String, ofDecimal text = .error .amountOverflow ↔
        ∃ n, Decimal.Denotes text n ∧ 2 ^ 96 ≤ n) ∧
      (∀ text : String, ofDecimal text = .error (.amountFormat text) ↔
        ¬ ∃ n, Decimal.Denotes text n) ∧
      ∀ a : Amount, ofText a.toText = .ok a ∧ ofText a.toHexText = .ok a ∧
        a.toBytes.length = 12 ∧ ofBytes? a.toBytes = some a ∧
        readWhole readAmount a.toBytes = .ok a ∧
        (Json.parse? (toJson a).compact).bind ofJson? = some a := by
  refine ⟨fun text a => ofDecimal_eq_ok_iff, fun text => ofDecimal_eq_overflow_iff,
    fun text => ofDecimal_eq_format_iff, fun a => ⟨a.ofText_toText, a.ofText_toHexText,
      length_bigEndian 12 a.toNat, a.ofBytes?_toBytes, ?_, a.ofJson?_compact⟩⟩
  exact (readWhole_eq_ok exact_readAmount).2 rfl

end Amount

end StakeGovernance
