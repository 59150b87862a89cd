import StakeGovernance.CommandLine.Argument
import StakeGovernance.Proofs.Texts

/-!
# Accounts and addresses

An account on the command line is an address or a name, and two readers decide which: the reader
of accounts looks at how a text begins, and then the reader of addresses reads it. They agree as
long as every text that the second one reads begins in a way that the first one knows. There is
one exception. Hexadecimal text may have its mark in upper case for the reader of addresses; the
reader of accounts takes such a text for a name, so that the account is not the address that was
written, but one that nobody has the key of.

* `StakeGovernance.trimBlanks_eq_self` – a text **without blanks** is not trimmed;
* `StakeGovernance.Address.isReserved_of_ofText` – how the text of an address **begins**;
* `StakeGovernance.Address.ofArgument_of_ofText` – an argument that is an address **is that
  address**, unless its mark is in upper case;
* `StakeGovernance.Address.ofArgument_ne_ofText` – a text on which the two readers **do not agree**;
* `StakeGovernance.Address.ofArgument_toHexText`,
  `StakeGovernance.Address.ofArgument_toUpperHexText` – **every address**, with the one mark and
  with the other.
-/

namespace StakeGovernance

/-! ### Blanks -/

theorem dropBlankEnd_eq_self {cs : List Char} (h : ∀ c ∈ cs, isBlank c = false) :
    dropBlankEnd cs = cs := by
  induction cs with
  | nil => rfl
  | cons c rest ih =>
    obtain ⟨hc, hrest⟩ := List.forall_mem_cons.1 h
    unfold dropBlankEnd
    rw [ih hrest]
    cases rest with
    | nil => exact if_neg (Bool.eq_false_iff.1 hc)
    | cons d rest => rfl

/-- **A text without blanks** has none around it. -/
theorem trimBlanks_eq_self {text : String} (h : ∀ c ∈ text.toList, isBlank c = false) :
    trimBlanks text = text := by
  have hfront : text.toList.dropWhile isBlank = text.toList := by
    cases hcs : text.toList with
    | nil => rfl
    | cons c rest =>
      rw [hcs] at h
      exact List.dropWhile_cons_of_neg (Bool.eq_false_iff.1 (h c List.mem_cons_self))
  unfold trimBlanks
  rw [hfront, dropBlankEnd_eq_self h, String.ofList_toList]

theorem Hex.isBlank_of_mem {bs : Bytes} {c : Char} (h : c ∈ encodeChars bs) :
    isBlank c = false := by
  have hdigit : ∀ n : Fin 16, isBlank (digit n) = false := by decide
  obtain ⟨b, -, hc⟩ := List.mem_flatMap.1 h
  have hb : b.toNat < 256 := b.toNat_lt
  rcases List.mem_cons.1 hc with rfl | hc
  · exact hdigit ⟨b.toNat / 16, by omega⟩
  · rw [List.mem_singleton.1 hc]
    exact hdigit ⟨b.toNat % 16, by omega⟩

namespace Address

variable {argument text : String} {a : Address}

/-! ### How an address begins -/

/-- Whether a text has the mark of hexadecimal text in upper case. -/
def hasUpperMark (text : String) : Bool := "0X".toList.isPrefixOf text.toList

/-- **The text of an address begins** in one of the two ways that are reserved for addresses, or it
has the mark in upper case, and not both. -/
theorem isReserved_of_ofText (h : ofText text = .ok a) : isReserved text = !hasUpperMark text := by
  unfold ofText at h
  unfold isReserved hasUpperMark
  split at h
  · rename_i hlock
    obtain ⟨rest, hrest⟩ := List.isPrefixOf_iff_prefix.1 hlock
    rw [← hrest]
    rfl
  · rename_i hlock
    rw [Bool.eq_false_iff.2 hlock, Bool.false_or]
    unfold Amount.afterHexMark? at h
    split at h
    · rename_i hmark
      split at hmark
      · rename_i hcs
        rw [hcs]
        rfl
      · rename_i hcs
        rw [hcs]
        rfl
      · cases hmark
    · cases h

/-- The empty text is no address. -/
theorem ne_empty_of_ofText (h : ofText text = .ok a) : text ≠ "" := by
  rintro rfl
  cases h

/-! ### Hexadecimal text -/

/-- Hexadecimal text has no blanks around it. -/
theorem trimBlanks_hex {mark : Char} {bs : Bytes} (hmark : isBlank mark = false)
    (htext : text.toList = '0' :: mark :: Hex.encodeChars bs) : trimBlanks text = text := by
  refine trimBlanks_eq_self ?_
  rw [htext]
  exact List.forall_mem_cons.2 ⟨rfl, List.forall_mem_cons.2 ⟨hmark, fun c => Hex.isBlank_of_mem⟩⟩

/-- The hexadecimal text of an address with the mark in upper case. -/
def toUpperHexText (a : Address) : String := "0X" ++ Hex.encode a.bytes

theorem toList_toUpperHexText (a : Address) :
    a.toUpperHexText.toList = '0' :: 'X' :: Hex.encodeChars a.bytes := by
  unfold toUpperHexText Hex.encode
  rw [String.toList_append, String.toList_ofList]
  simp

theorem ofText_toUpperHexText (a : Address) : ofText a.toUpperHexText = .ok a := by
  have hlock : "lock1".toList.isPrefixOf a.toUpperHexText.toList = false := by
    rw [a.toList_toUpperHexText]
    rfl
  have hdigits : Amount.afterHexMark? a.toUpperHexText = some (Hex.encode a.bytes) := by
    unfold Amount.afterHexMark?
    rw [a.toList_toUpperHexText]
    rfl
  unfold ofText
  rw [hlock, if_neg Bool.false_ne_true]
  simp only [hdigits, ofHex, Hex.decode_encode]
  exact dif_pos a.length_bytes

/-! ### Arguments -/

/-- An argument that is an address without the mark in upper case is that address. -/
theorem ofArgument_of_lower (h : ofText (trimBlanks argument) = .ok a)
    (hmark : hasUpperMark (trimBlanks argument) = false) : ofArgument argument = .ok a := by
  have hreserved := isReserved_of_ofText h
  rw [hmark] at hreserved
  unfold ofArgument
  simp only [if_neg (ne_empty_of_ofText h), hreserved, h]
  rfl

/-- An argument with the mark in upper case is a name, whatever follows the mark. -/
theorem ofArgument_of_upper (hmark : hasUpperMark (trimBlanks argument) = true) :
    ofArgument argument = .ok (derive (utf8Bytes (trimBlanks argument))) := by
  obtain ⟨rest, hrest⟩ := List.isPrefixOf_iff_prefix.1 hmark
  have hreserved : isReserved (trimBlanks argument) = false := by
    unfold isReserved
    rw [← hrest]
    rfl
  have hsome : trimBlanks argument ≠ "" := by
    intro hempty
    rw [hempty] at hmark
    cases hmark
  unfold ofArgument
  simp only [if_neg hsome, hreserved]
  rfl

/-- **An argument that is an address is that address**, whatever blanks are around it and in
whichever of its forms it is given. The one exception is hexadecimal text with its mark in upper
case: it is taken for a name. -/
theorem ofArgument_of_ofText (h : ofText (trimBlanks argument) = .ok a) :
    ofArgument argument = .ok (if hasUpperMark (trimBlanks argument)
      then derive (utf8Bytes (trimBlanks argument)) else a) := by
  cases hmark : hasUpperMark (trimBlanks argument) with
  | false => exact ofArgument_of_lower h hmark
  | true => exact ofArgument_of_upper hmark

/-- An address is given in the form of data, with blanks around it; with the other mark, it is the
account of a name. -/
theorem ofArgument_of_ofText_sample :
    let a : Address := ⟨[0x71, 0xb2, 0x78, 0xf3, 0xdc, 0x43, 0x44, 0x47, 0xfc, 0x62, 0x05, 0x00,
      0xe4, 0x7b, 0x6a, 0x80, 0xb0, 0xcb, 0x0d, 0xf7], rfl⟩
    ofArgument " 0x71b278f3dc434447fc620500e47b6a80b0cb0df7\n" = .ok a ∧
      ofArgument "0X71b278f3dc434447fc620500e47b6a80b0cb0df7"
        = .ok (derive (utf8Bytes "0X71b278f3dc434447fc620500e47b6a80b0cb0df7")) := by
  intro a
  have hlower : trimBlanks " 0x71b278f3dc434447fc620500e47b6a80b0cb0df7\n" = a.toHexText := by
    decide +kernel
  have hupper : trimBlanks "0X71b278f3dc434447fc620500e47b6a80b0cb0df7" = a.toUpperHexText := by
    decide +kernel
  exact ⟨ofArgument_of_ofText ((congrArg ofText hlower).trans a.ofText_toHexText),
    ofArgument_of_ofText ((congrArg ofText hupper).trans a.ofText_toUpperHexText)⟩

/-- **The mark makes a difference**: one text is read as an address, and as the account of
another. -/
theorem ofArgument_ne_ofText :
    ∃ a b, ofText (trimBlanks "0X71b278f3dc434447fc620500e47b6a80b0cb0df7") = .ok a ∧
      ofArgument "0X71b278f3dc434447fc620500e47b6a80b0cb0df7" = .ok b ∧ a ≠ b := by
  let a : Address := ⟨[0x71, 0xb2, 0x78, 0xf3, 0xdc, 0x43, 0x44, 0x47, 0xfc, 0x62, 0x05, 0x00, 0xe4,
    0x7b, 0x6a, 0x80, 0xb0, 0xcb, 0x0d, 0xf7], rfl⟩
  have htext : trimBlanks "0X71b278f3dc434447fc620500e47b6a80b0cb0df7" = a.toUpperHexText := by
    decide +kernel
  have hmark : hasUpperMark (trimBlanks "0X71b278f3dc434447fc620500e47b6a80b0cb0df7") = true := by
    decide +kernel
  exact ⟨a, _, (congrArg ofText htext).trans a.ofText_toUpperHexText, ofArgument_of_upper hmark,
    by decide +kernel⟩

/-! ### Every address -/

/-- **The hexadecimal text of an address is an account**, namely that address. -/
theorem ofArgument_toHexText (a : Address) : ofArgument a.toHexText = .ok a := by
  have htext : a.toHexText.toList = '0' :: 'x' :: Hex.encodeChars a.bytes :=
    Hex.toList_encodeMarked a.bytes
  have htrim := trimBlanks_hex rfl htext
  refine ofArgument_of_lower ((congrArg ofText htrim).trans a.ofText_toHexText) ?_
  rw [htrim]
  unfold hasUpperMark
  rw [htext]
  rfl

/-- **With the mark in upper case, no address is an account**: the text is that of the address for
the reader of addresses, and a name for the reader of accounts. -/
theorem ofArgument_toUpperHexText (a : Address) :
    ofText a.toUpperHexText = .ok a ∧
      ofArgument a.toUpperHexText = .ok (derive (utf8Bytes a.toUpperHexText)) := by
  have htrim := trimBlanks_hex rfl a.toList_toUpperHexText
  have hmark : hasUpperMark (trimBlanks a.toUpperHexText) = true := by
    rw [htrim]
    unfold hasUpperMark
    rw [a.toList_toUpperHexText]
    rfl
  have hread := ofArgument_of_upper hmark
  rw [htrim] at hread
  exact ⟨a.ofText_toUpperHexText, hread⟩

end Address

end StakeGovernance
