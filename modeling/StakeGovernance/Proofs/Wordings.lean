import StakeGovernance.Proofs.Decimals
import StakeGovernance.Proofs.Parts
import StakeGovernance.Proofs.Spellings

/-!
# Every way to write a command

A command is given on the command line as the name of its signature and its arguments. There are
many ways to write it: numbers may have zeros in front, an account has sixty-six spellings in Bech32
and those in hexadecimal digits of either case, the capability of the treasury has a name of its
own, and there may be blanks around everything. Each of them is read as the command. A number is read
as what it denotes, and an account as the address that it spells; and neither ever has a blank, a
comma or an equals sign in it, so that the text as a whole is taken apart into what it was put
together from. That much is seen from the reader: a letter that it takes for a digit or for a symbol
lies between the digit zero and the small letters, where there are no blanks.

* `StakeGovernance.Address.Spells` – the texts that **spell an address**, and
  `StakeGovernance.Address.Spells.plain`: these **may be parts**;
* `StakeGovernance.Command.Written` – the **ways to write a command**;
* `StakeGovernance.Command.ofParts_of_spelled` – the **arguments are read** as those of the command;
* `StakeGovernance.Command.written_toArgument` – every command **can be written**.
-/

namespace StakeGovernance

/-! ### Letters -/

/-- Between the digit zero and the small letters there are no blanks, and one mark only. -/
theorem isPlain_of_range {c : Char} (hlow : 48 ≤ c.toNat) (hhigh : c.toNat ≤ 122)
    (hmark : c.toNat ≠ 61) : isPlain c = true := by
  refine isPlain_iff.2 ⟨?_, ?_, ?_⟩
  · simp only [isBlank, Bool.or_eq_false_iff, Bool.and_eq_false_iff, decide_eq_false_iff_not]
    omega
  · rintro rfl
    exact hmark rfl
  · rintro rfl
    exact absurd hlow (by decide)

theorem Decimal.Denotes.plain {text : String} {n : ℕ} (h : Denotes text n) : Plain text where
  nonempty := by
    rintro rfl
    exact h.nonempty rfl
  letters := by
    refine List.all_eq_true.2 fun c hc => ?_
    have hdigit := h.digits c hc
    simp only [Char.isDigit, Bool.and_eq_true, decide_eq_true_eq, UInt32.le_iff_toNat_le] at hdigit
    obtain ⟨hlow, hhigh⟩ := hdigit
    have hlow : 48 ≤ c.toNat := hlow
    have hhigh : c.toNat ≤ 57 := hhigh
    exact isPlain_of_range hlow (by omega) (by omega)

namespace Hex

/-- Bytes that are read in pairs are digits, each of them. -/
theorem isSome_value?_of_decodePairs {acc bs out : Bytes} {position : ℕ}
    (h : decodePairs acc position bs = .ok out) : ∀ b ∈ bs, (value? b).isSome = true := by
  fun_induction decodePairs acc position bs with
  | case1 => simp
  | case2 => cases h
  | case3 => cases h
  | case4 => cases h
  | case5 acc position high low rest hi lo hhigh hlow ih => simpa [hhigh, hlow] using ih h

theorem range_of_value? {b : UInt8} (h : (value? b).isSome = true) :
    48 ≤ b.toNat ∧ b.toNat ≤ 102 ∧ b.toNat ≠ 61 := by
  rw [value?] at h
  simp only [UInt8.le_iff_toNat_le] at h
  split_ifs at h with h₁ h₂ h₃
  · obtain ⟨hlow, hhigh⟩ := h₁
    have hlow : 48 ≤ b.toNat := hlow
    have hhigh : b.toNat ≤ 57 := hhigh
    omega
  · obtain ⟨hlow, hhigh⟩ := h₂
    have hlow : 97 ≤ b.toNat := hlow
    have hhigh : b.toNat ≤ 102 := hhigh
    omega
  · obtain ⟨hlow, hhigh⟩ := h₃
    have hlow : 65 ≤ b.toNat := hlow
    have hhigh : b.toNat ≤ 70 := hhigh
    omega
  · cases h

/-- A letter is the byte that it is written as, unless that is greater than all digits. -/
theorem toNat_range {c : Char}
    (h : ∀ b ∈ String.utf8EncodeChar c, 48 ≤ b.toNat ∧ b.toNat ≤ 102 ∧ b.toNat ≠ 61) :
    48 ≤ c.toNat ∧ c.toNat ≤ 102 ∧ c.toNat ≠ 61 := by
  have hc : c.val.toNat = c.toNat := rfl
  simp only [String.utf8EncodeChar, hc] at h
  split_ifs at h
  all_goals
    have hfirst := h _ List.mem_cons_self
    simp only [UInt8.toNat_ofNat'] at hfirst
    omega

/-- **The digits of bytes** may be a part. -/
theorem plain_of_decode {text : String} {bs : Bytes} (h : decode text = .ok bs) :
    text.toList.all isPlain = true := by
  rw [decode] at h
  split at h
  · refine List.all_eq_true.2 fun c hc => ?_
    obtain ⟨hlow, hhigh, hmark⟩ := toNat_range fun b hb => range_of_value?
      (isSome_value?_of_decodePairs h b (List.mem_flatMap.2 ⟨c, hc, hb⟩))
    exact isPlain_of_range hlow (by omega) hmark
  · cases h

end Hex

/-! ### Arguments -/

/-- Decimal digits have no mark of hexadecimal text. -/
theorem Amount.ofText_of_denotes {text : String} {n : ℕ} (h : Decimal.Denotes text n) :
    ofText text = ofDecimal text := by
  have hmark : afterHexMark? text = none := by
    rw [afterHexMark?]
    split
    · rename_i hcs
      exact absurd (h.digits 'x' (by simp [hcs])) (by decide)
    · rename_i hcs
      exact absurd (h.digits 'X' (by simp [hcs])) (by decide)
    · rfl
  rw [ofText, hmark]

namespace Address

variable {text : String} {a : Address}

/-- **A text that spells an address**: one that begins in a way that is reserved for addresses, and
is read as this one. -/
def Spells (text : String) (a : Address) : Prop := isReserved text = true ∧ ofText text = .ok a

/-- **The text of an address** spells it. -/
theorem spells_toText (a : Address) : Spells a.toText a := by
  have hstarts := starts_of_mem_spellings (mem_spellings.2 a.ofBech32_toText)
  refine ⟨?_, (ofText_of_starts hstarts).trans a.ofBech32_toText⟩
  rw [isReserved, List.isPrefixOf_iff_prefix.2 hstarts, Bool.true_or]

/-- So does **its hexadecimal text**. -/
theorem spells_toHexText (a : Address) : Spells a.toHexText a := by
  refine ⟨?_, a.ofText_toHexText⟩
  rw [isReserved, show a.toHexText.toList = '0' :: 'x' :: Hex.encodeChars a.bytes from
    Hex.toList_encodeMarked a.bytes]
  rfl

/-- The letters of a text in Bech32 are no blanks and no marks. -/
theorem letters_of_mem_spellings (h : text ∈ a.spellings) :
    text.toList.all isPlain = true := by
  have hhuman : humanPart.toList.all isPlain = true := by decide
  have hseparator : isPlain '1' = true := by decide
  have hletters : ∀ s : Bech32.Symbol, isPlain (Bech32.letter s) = true := by decide
  obtain ⟨e, -, rfl⟩ := List.mem_map.1 h
  rw [Bech32.toList_textFor, List.all_append, List.all_cons, List.all_map, hhuman, hseparator]
  exact List.all_eq_true.2 fun s _ => hletters s

/-- **A text that spells an address** may be a part. -/
theorem Spells.plain (h : Spells text a) : Plain text where
  nonempty := ne_empty_of_ofText h.2
  letters := by
    obtain ⟨hreserved, hread⟩ := h
    rw [isReserved, Bool.or_eq_true, List.isPrefixOf_iff_prefix, List.isPrefixOf_iff_prefix]
      at hreserved
    rcases hreserved with hlock | ⟨digits, hdigits⟩
    · exact letters_of_mem_spellings (mem_spellings.2 (ofText_of_starts hlock ▸ hread))
    · have hcs : text.toList = '0' :: 'x' :: digits := hdigits.symm
      have hhex : ofText text = ofHex (String.ofList digits) := by
        rw [ofText, Amount.afterHexMark?, hcs]
        rfl
      rw [hhex, ofHex] at hread
      split at hread
      · cases hread
      · rename_i bs hdecode
        have hplain := Hex.plain_of_decode hdecode
        rw [String.toList_ofList] at hplain
        rw [hcs, List.all_cons, List.all_cons, hplain]
        rfl

/-- A text that spells an address is an account, namely this address. -/
theorem Spells.ofArgument (h : Spells text a) : ofArgument text = .ok a := by
  have htrim : trimBlanks text = text := h.plain.trimBlanks_eq (.refl text)
  simp only [Address.ofArgument, htrim, if_neg (ne_empty_of_ofText h.2), h.1, h.2]
  rfl

/-- The name of the treasury spells no address. -/
theorem Spells.ne_treasury (h : Spells text a) : text ≠ "treasury" := by
  rintro rfl
  exact absurd h.1 (by decide)

end Address

/-- **An argument of a command.** -/
inductive Argument where
  | number (n : ℕ)
  | account (a : Address)
  /-- The target of a switch, for which the capability of the treasury has a name. -/
  | target (a : Address)

/-- **How an argument may be spelled**: a number by any digits that denote it, an address by any
text that is reserved for addresses. -/
def Argument.Spelled (treasury : Address) : Argument → String → Prop
  | number n, text => Decimal.Denotes text n
  | account a, text => Address.Spells text a
  | target a, text => Address.Spells text a ∨ text = "treasury" ∧ a = treasury

/-- **An argument may be a part**, however it is spelled. -/
theorem Argument.Spelled.plain {treasury : Address} {argument : Argument} {text : String}
    (h : argument.Spelled treasury text) : Plain text := by
  cases argument with
  | number n => exact Decimal.Denotes.plain h
  | account a => exact Address.Spells.plain h
  | target a =>
    rcases h with h | ⟨rfl, -⟩
    · exact h.plain
    · exact ⟨by decide, by decide⟩

/-- The digits of a number, or a form of an address. -/
def Argument.text (form : Address → String) : Argument → String
  | number n => toString n
  | account a | target a => form a

theorem Argument.spelled_text {form : Address → String}
    (hform : ∀ a, Address.Spells (form a) a) (treasury : Address) (argument : Argument) :
    argument.Spelled treasury (argument.text form) := by
  cases argument with
  | number n => exact Decimal.denotes_digits n
  | account a => exact hform a
  | target a => exact .inl (hform a)

theorem Argument.plain_of_spelled {treasury : Address} {arguments : List Argument}
    {texts : List String} (h : List.Forall₂ (Argument.Spelled treasury) arguments texts) :
    ∀ text ∈ texts, Plain text := by
  induction h with
  | nil => simp
  | cons hfirst _ ih => exact List.forall_mem_cons.2 ⟨hfirst.plain, ih⟩

namespace Command

variable {treasury : Address} {c : Command} {texts : List String}

/-! ### Commands -/

/-- The arguments of a command, in their order. -/
def arguments : Command → List Argument
  | setVotingDelay delay | setTimelockDelay delay => [.number delay.toNat]
  | setVotingPeriod period => [.number period.toNat]
  | setProposalThreshold power | setQuorumVotes power => [.number power.toNat]
  | setGuardian guardian => [.account guardian]
  | treasuryTransfer target amount => [.account target, .number amount.toNat]
  | upgradeCapability target version => [.target target, .number version.toNat]

theorem arguments_ne_nil (c : Command) : c.arguments ≠ [] := by
  cases c <;> exact List.cons_ne_nil _ _

theorem plain_signature (c : Command) : Plain c.signature := by
  have hall : ∀ signature ∈ signatures, signature ≠ "" ∧
      signature.toList.all isPlain = true := by decide +kernel
  obtain ⟨hnonempty, hletters⟩ := hall _ c.signature_mem_signatures
  exact ⟨hnonempty, hletters⟩

/-- **The ways to write a command**: its signature, an equals sign, and its arguments with commas
between them, each of them spelled in one of the ways that there are, and blanks around each. -/
def Written (treasury : Address) (c : Command) (argument : String) : Prop :=
  ∃ name spellings parts, Padded c.signature name ∧
    List.Forall₂ (Argument.Spelled treasury) c.arguments spellings ∧
    List.Forall₂ Padded spellings parts ∧ argument = name ++ "=" ++ ",".intercalate parts

/-! ### Reading arguments -/

theorem integerOf_of_denotes {bits : ℕ} {text : String} {w : Word bits}
    (h : Decimal.Denotes text w.toNat) : integerOf text = .ok w :=
  Checked.mapError_eq_ok.2 ((w.ofText_eq_ok_iff (Decimal.ofDigits?_eq_some_iff.2 h)).2 rfl)

theorem amountOf_of_denotes {text : String} {amount : Amount}
    (h : Decimal.Denotes text amount.toNat) : amountOf text = .ok amount := by
  rw [amountOf, Amount.ofText_of_denotes h]
  exact Checked.mapError_eq_ok.2 (Amount.ofDecimal_eq_ok_iff.2 h)

theorem accountOf_of_spells {text : String} {a : Address} (h : Address.Spells text a) :
    accountOf text = .ok a := Checked.mapError_eq_ok.2 h.ofArgument

theorem targetOf_of_spelled {text : String} {a : Address}
    (h : (Argument.target a).Spelled treasury text) :
    (if text = "treasury" then pure treasury else accountOf text) = .ok a := by
  rcases h with h | ⟨rfl, rfl⟩
  · rw [if_neg h.ne_treasury]
    exact accountOf_of_spells h
  · rfl

/-- **The command is read** from its signature and its arguments, however they are spelled. -/
theorem ofParts_of_spelled (argument : String)
    (h : List.Forall₂ (Argument.Spelled treasury) c.arguments texts) :
    ofParts argument treasury c.signature texts = .ok c := by
  cases c with
  | setVotingDelay w | setVotingPeriod w | setProposalThreshold w | setQuorumVotes w
  | setTimelockDelay w =>
    obtain ⟨text, _, hnumber, ⟨⟩, rfl⟩ := List.forall₂_cons_left_iff.1 h
    show _ <$> integerOf text = _
    rw [integerOf_of_denotes hnumber]
    rfl
  | setGuardian guardian =>
    obtain ⟨text, _, haccount, ⟨⟩, rfl⟩ := List.forall₂_cons_left_iff.1 h
    show setGuardian <$> accountOf text = _
    rw [accountOf_of_spells haccount]
    rfl
  | treasuryTransfer target amount =>
    obtain ⟨text, _, haccount, hrest, rfl⟩ := List.forall₂_cons_left_iff.1 h
    obtain ⟨amountText, _, hamount, ⟨⟩, rfl⟩ := List.forall₂_cons_left_iff.1 hrest
    refine Checked.bind_eq_ok.2 ⟨target, accountOf_of_spells haccount, ?_⟩
    exact Checked.bind_eq_ok.2 ⟨amount, amountOf_of_denotes hamount, rfl⟩
  | upgradeCapability target version =>
    obtain ⟨text, _, htarget, hrest, rfl⟩ := List.forall₂_cons_left_iff.1 h
    obtain ⟨versionText, _, hversion, ⟨⟩, rfl⟩ := List.forall₂_cons_left_iff.1 hrest
    refine Checked.ite_bind_eq_ok.2 ⟨target, targetOf_of_spelled htarget, ?_⟩
    exact Checked.bind_eq_ok.2 ⟨version, integerOf_of_denotes hversion, rfl⟩

/-! ### The plain way -/

/-- **A command without anything that could be left out**: the digits of its numbers, and its
addresses in some form. -/
def toArgument (form : Address → String) (c : Command) : String :=
  c.signature ++ "=" ++ ",".intercalate (c.arguments.map (Argument.text form))

theorem written_toArgument {form : Address → String} (hform : ∀ a, Address.Spells (form a) a)
    (treasury : Address) (c : Command) : c.Written treasury (c.toArgument form) := by
  refine ⟨c.signature, _, _, .refl _, ?_, List.forall₂_same.2 fun text _ => .refl text, rfl⟩
  rw [List.forall₂_map_right_iff, List.forall₂_same]
  exact fun argument _ => Argument.spelled_text hform treasury argument

end Command

end StakeGovernance
