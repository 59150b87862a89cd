import StakeGovernance.Proposal.Action
import StakeGovernance.Text.Basic

/-!
# Texts are read as they were written

Everything that is stored is text in the end: numbers are rows of decimal digits, bytes are
pairs of hexadecimal digits, and a text is itself a row of bytes. Each of these is read back
as what it was written from.

* `StakeGovernance.utf8Text?_utf8Bytes` – the **bytes of a text**;
* `StakeGovernance.Hex.decode_encode` – **hexadecimal digits**;
* `StakeGovernance.Decimal.digits_eq` – the **decimal digits** of a number, the last one apart;
* `StakeGovernance.Decimal.scan_eq_ok_iff` – a word is **read as a number is**, if it fits;
* `StakeGovernance.Word.ofText_toString`, `StakeGovernance.Json.keyWord?_toString` – **words**
  as texts and as keys of tables;
* `StakeGovernance.Amount.ofText_toText`, `StakeGovernance.Address.ofText_toHexText`,
  `StakeGovernance.Digest.ofText_toText` – amounts, addresses and digests.
-/

namespace StakeGovernance

/-! ### Bytes of texts -/

/-- **The bytes of a text** are its encoding. -/
theorem utf8Text?_utf8Bytes (s : String) : utf8Text? (utf8Bytes s) = some s := by
  have hbytes : (⟨(utf8Bytes s).toArray⟩ : ByteArray) = s.toByteArray := by
    rw [← String.utf8Encode_toList]
    exact ByteArray.ext List.data_toByteArray.symm
  unfold utf8Text? String.fromUTF8?
  rw [hbytes, dif_pos s.isValidUTF8]
  rfl

theorem utf8Bytes_ofList (cs : List Char) :
    utf8Bytes (String.ofList cs) = cs.flatMap String.utf8EncodeChar := by
  unfold utf8Bytes
  rw [String.toList_ofList]

/-! ### Hexadecimal digits -/

namespace Hex

/-- A digit is a single byte. -/
theorem utf8EncodeChar_digit (n : Fin 16) :
    String.utf8EncodeChar (digit n) = [(digit n).toNat.toUInt8] := by
  revert n
  decide

theorem value?_digit (n : Fin 16) : value? (digit n).toNat.toUInt8 = some n.val := by
  revert n
  decide

/-- The two digits of a byte are read as that byte. -/
theorem decodePairs_digits (acc : Bytes) (position : Nat) (b : UInt8) (rest : Bytes) :
    decodePairs acc position
        ([digit (b.toNat / 16), digit (b.toNat % 16)].flatMap String.utf8EncodeChar ++ rest)
      = decodePairs (b :: acc) (position + 2) rest := by
  have hb : b.toNat < 256 := b.toNat_lt
  have hhigh := utf8EncodeChar_digit ⟨b.toNat / 16, by omega⟩
  have hlow := utf8EncodeChar_digit ⟨b.toNat % 16, by omega⟩
  have hvalue : UInt8.ofNat (16 * (b.toNat / 16) + b.toNat % 16) = b := by
    rw [Nat.div_add_mod, UInt8.ofNat_toNat]
  rw [List.flatMap_cons, List.flatMap_singleton, hhigh, hlow]
  show decodePairs acc position (_ :: _ :: rest) = _
  rw [decodePairs, value?_digit ⟨b.toNat / 16, by omega⟩, value?_digit ⟨b.toNat % 16, by omega⟩]
  show decodePairs (UInt8.ofNat (16 * (b.toNat / 16) + b.toNat % 16) :: acc) _ rest = _
  rw [hvalue]

theorem decodePairs_encodeChars (acc : Bytes) (position : Nat) (bs : Bytes) :
    decodePairs acc position ((encodeChars bs).flatMap String.utf8EncodeChar)
      = .ok (acc.reverse ++ bs) := by
  induction bs generalizing acc position with
  | nil =>
    rw [List.append_nil]
    rfl
  | cons b rest ih =>
    rw [encodeChars, List.flatMap_cons, List.flatMap_append, decodePairs_digits]
    exact (ih _ _).trans (by rw [List.reverse_cons, List.append_assoc]; rfl)

/-- There are two bytes for each byte. -/
theorem length_encoded (bs : Bytes) :
    ((encodeChars bs).flatMap String.utf8EncodeChar).length = 2 * bs.length := by
  induction bs with
  | nil => rfl
  | cons b rest ih =>
    have hb : b.toNat < 256 := b.toNat_lt
    have hhigh := utf8EncodeChar_digit ⟨b.toNat / 16, by omega⟩
    have hlow := utf8EncodeChar_digit ⟨b.toNat % 16, by omega⟩
    rw [encodeChars, List.flatMap_cons, List.flatMap_append, List.length_append, ← encodeChars, ih,
      List.flatMap_cons, List.flatMap_singleton, hhigh, hlow, List.length_cons]
    simp only [List.length_append, List.length_singleton]
    omega

/-- **Hexadecimal text** is read as the bytes that it was written from. -/
theorem decode_encode (bs : Bytes) : decode (encode bs) = .ok bs := by
  unfold decode encode
  rw [utf8Bytes_ofList]
  rw [if_pos (by rw [length_encoded]; omega), decodePairs_encodeChars]
  rfl

theorem encode_injective {bs cs : Bytes} (h : encode bs = encode cs) : bs = cs :=
  Except.ok.inj ((decode_encode bs).symm.trans ((congrArg decode h).trans (decode_encode cs)))

theorem toList_encodeMarked (bs : Bytes) :
    (encodeMarked bs).toList = '0' :: 'x' :: encodeChars bs := by
  unfold encodeMarked encode
  rw [String.toList_append, String.toList_ofList]
  simp

end Hex

/-! ### Decimal digits -/

namespace Decimal

/-- **The digits of a number**: those of its tenth, and the last one. -/
theorem digits_eq (n : Nat) :
    digits n = if n < 10 then [n.digitChar] else digits (n / 10) ++ [(n % 10).digitChar] :=
  Nat.toDigits_eq_if (by decide)

theorem digit?_digitChar {d : Nat} (h : d < 10) : digit? d.digitChar = some d := by
  have hall : ∀ d : Fin 10, digit? (d.val).digitChar = some d.val := by decide
  exact hall ⟨d, h⟩

theorem continue?_append (acc : Nat) (cs : List Char) (c : Char) :
    continue? acc (cs ++ [c]) = (continue? acc cs).bind fun n => (digit? c).map (10 * n + ·) := by
  induction cs generalizing acc with
  | nil =>
    show (digit? c).bind (fun d => some (10 * acc + d)) = _
    cases digit? c <;> rfl
  | cons first rest ih =>
    rw [List.cons_append, continue?, continue?]
    cases digit? first with
    | none => rfl
    | some d => exact ih _

theorem continue?_digits (n : Nat) : continue? 0 (digits n) = some n := by
  induction n using Nat.strongRecOn with
  | ind n ih =>
    rw [digits_eq]
    split
    · rename_i hn
      show (digit? n.digitChar).bind _ = _
      rw [digit?_digitChar hn]
      exact congrArg some (Nat.zero_add n)
    · rename_i hn
      rw [continue?_append, ih (n / 10) (by omega), digit?_digitChar (by omega)]
      exact congrArg some (Nat.div_add_mod n 10)

theorem digits_ne_nil (n : Nat) : digits n ≠ [] := Nat.toDigits_ne_nil

theorem isDigit_of_mem_digits {n : Nat} {c : Char} (h : c ∈ digits n) : c.isDigit = true :=
  Nat.isDigit_of_mem_toDigits (by decide) (by decide) h

/-- Nothing follows a leading zero. -/
theorem eq_nil_of_digits {n : Nat} {cs : List Char} (h : digits n = '0' :: cs) : cs = [] := by
  induction n using Nat.strongRecOn generalizing cs with
  | ind n ih =>
    rw [digits_eq] at h
    split at h
    · exact (List.cons.inj h).2.symm
    · rename_i hn
      -- the zero would be the leading digit of the tenth, which is not zero
      cases hdigits : digits (n / 10) with
      | nil => exact absurd hdigits (digits_ne_nil _)
      | cons first rest =>
        rw [hdigits, List.cons_append] at h
        obtain ⟨rfl, -⟩ := List.cons.inj h
        have hrest := ih (n / 10) (by omega) hdigits
        subst hrest
        have hvalue := continue?_digits (n / 10)
        rw [hdigits] at hvalue
        have hzero : 0 = n / 10 := Option.some.inj hvalue
        omega

theorem ofDigits?_digits (n : Nat) : ofDigits? (digits n) = some n := by
  have hvalue := continue?_digits n
  cases h : digits n with
  | nil => exact absurd h (digits_ne_nil n)
  | cons first rest =>
    rw [h] at hvalue
    exact hvalue

/-- More digits make no smaller number. -/
theorem le_of_continue? {acc n : Nat} {cs : List Char} (h : continue? acc cs = some n) :
    acc ≤ n := by
  induction cs generalizing acc with
  | nil => exact Nat.le_of_eq (Option.some.inj h)
  | cons c rest ih =>
    obtain ⟨d, -, hrest⟩ := Option.bind_eq_some_iff.1 h
    have hle := ih hrest
    omega

/-- **A word is read as a number is**, if the number fits: what has been read on the way is no
greater than the whole, so that it fits too. -/
theorem scan_eq_ok_iff {bits : Nat} {acc w : Word bits} {cs : List Char} :
    scan acc cs = .ok w ↔ continue? acc.toNat cs = some w.toNat := by
  induction cs generalizing acc with
  | nil => simp [scan, continue?, Word.toNat_inj]
  | cons c rest ih =>
    rw [scan, continue?]
    rcases digit? c with _ | d
    · simp
    · rcases hnext : (Word.ofNat? (10 * acc.toNat + d) : Option (Word bits)) with _ | next
      · have hlarge := Word.ofNat?_eq_none_iff.1 hnext
        refine iff_of_false (by simp [hnext]) fun hrest => ?_
        have hle := le_of_continue? hrest
        have hfits := w.toNat_lt
        omega
      · have hsame := Word.ofNat?_eq_some_iff.1 hnext
        simp only [hnext, Option.bind_some]
        rw [ih, hsame]

end Decimal

/-! ### Words -/

namespace Word

variable {bits : Nat} (w : Word bits)

theorem toList_toString : (toString w).toList = Decimal.digits w.toNat :=
  String.toList_ofList

/-- **A row of digits is read as a word**, if its value fits. -/
theorem ofText_eq_ok_iff {text : String} {n : Nat} (h : Decimal.ofDigits? text.toList = some n) :
    ofText text = .ok w ↔ n = w.toNat := by
  have hscan : ofText text = Decimal.scan (zero : Word bits) text.toList := by
    unfold ofText
    split
    · rename_i hempty
      rw [hempty] at h
      cases h
    · rename_i hplus
      rw [hplus] at h
      cases h
    · rename_i hplus
      rw [hplus] at h
      cases h
    · rfl
  have hvalue : Decimal.continue? 0 text.toList = some n := by
    rcases hcs : text.toList with _ | ⟨c, cs⟩ <;> rw [hcs] at h
    · cases h
    · exact h
  rw [hscan, Decimal.scan_eq_ok_iff, toNat_zero, hvalue, Option.some.injEq]

/-- **The text of a word** is read as that word. -/
theorem ofText_toString : (ofText (toString w) : Except Decimal.Error (Word bits)) = .ok w := by
  refine (w.ofText_eq_ok_iff ?_).2 rfl
  rw [toList_toString]
  exact Decimal.ofDigits?_digits w.toNat

end Word

/-- **The text of a word** is a key that is read as that word. -/
theorem Json.keyWord?_toString {bits : Nat} (w : Word bits) :
    (Json.keyWord? (toString w) : Option (Word bits)) = some w := by
  unfold Json.keyWord?
  rw [Word.toList_toString]
  split
  · rename_i h
    cases Decimal.eq_nil_of_digits h
  · rw [Decimal.ofDigits?_digits]
    exact w.ofNat?_toNat

/-! ### Values -/

namespace Amount

theorem afterHexMark?_digits (n : Nat) :
    afterHexMark? (String.ofList (Decimal.digits n)) = none := by
  unfold afterHexMark?
  rw [String.toList_ofList]
  split
  · rename_i h
    cases Decimal.eq_nil_of_digits h
  · rename_i h
    cases Decimal.eq_nil_of_digits h
  · rfl

theorem afterHexMark?_encodeMarked (bs : Bytes) :
    afterHexMark? (Hex.encodeMarked bs) = some (Hex.encode bs) := by
  unfold afterHexMark?
  rw [Hex.toList_encodeMarked]
  rfl

/-- **The text of an amount** is read as that amount. -/
theorem ofText_toText (a : Amount) : ofText a.toText = .ok a := by
  unfold ofText toText
  rw [afterHexMark?_digits]
  show ofDecimal _ = _
  unfold ofDecimal ofNat
  simp only [String.toList_ofList, Decimal.ofDigits?_digits, Word.ofNat?_toNat]

theorem ofJson?_toJson (a : Amount) : ofJson? (toJson a) = some a := by
  show (ofText a.toText).toOption = some a
  rw [ofText_toText]
  rfl

end Amount

namespace Address

variable (a : Address)

/-- **The hexadecimal text of an address** is read as that address. -/
theorem ofText_toHexText : ofText a.toHexText = .ok a := by
  have hmark : "lock1".toList.isPrefixOf a.toHexText.toList = false := by
    unfold toHexText
    rw [Hex.toList_encodeMarked]
    rfl
  unfold ofText
  rw [hmark, if_neg Bool.false_ne_true]
  simp only [toHexText, Amount.afterHexMark?_encodeMarked, ofHex, Hex.decode_encode]
  exact dif_pos a.length_bytes

theorem ofKey?_toHexText : ofKey? a.toHexText = some a := by
  unfold ofKey?
  rw [ofText_toHexText]
  rfl

theorem ofJson?_toJson : ofJson? a.toJson = some a := by
  simp only [ofJson?, toJson, Json.text?, Option.bind_some, ofKey?_toHexText]

end Address

namespace Digest

variable (d : Digest)

/-- **The text of a digest** is read as that digest. -/
theorem ofText_toText : ofText d.toText = .ok d := by
  unfold ofText toText
  rw [Amount.afterHexMark?_encodeMarked, Option.getD_some, Hex.decode_encode]
  exact dif_pos d.length_bytes

theorem ofKey?_toText : ofKey? d.toText = some d := by
  unfold ofKey?
  rw [ofText_toText]
  rfl

theorem ofJson?_toJson : ofJson? d.toJson = some d := by
  simp only [ofJson?, toJson, Json.text?, Option.bind_some, ofKey?_toText]

end Digest

end StakeGovernance
