import StakeGovernance.Proofs.Printing
import StakeGovernance.Proofs.Symbols
import StakeGovernance.Proofs.Texts

/-!
# Texts with a checksum

Taking a symbol into a remainder is linear in exclusive or, so that six symbols at the end of a
row add to the remainder just what they would make of nothing. Six symbols that are taken into
nothing only move up, and the six symbols of a remainder make this remainder. That is why there is
a checksum for any row, and why it is found by dividing the row with six zeros in its place: the
remainder is then the one that is asked for, whatever the row was.

The letters of a text are those of its symbols, none of which is the separator, so that the last
separator is the one that was written.

* `StakeGovernance.Bech32.foldl_absorb_xor` – remainders are **linear**;
* `StakeGovernance.Bech32.foldl_symbolsOfResidue` – the **six symbols** of a remainder;
* `StakeGovernance.Bech32.residue_eq_iff` – the **one checksum** with which a row has a remainder;
* `StakeGovernance.Bech32.residue_checksum` – a row **with its checksum**;
* `StakeGovernance.Bech32.decode_encode` – a text is **read as it was written**;
* `StakeGovernance.Address.own_texts_are_read` – so are **the texts of an address**.
-/

namespace StakeGovernance

namespace Bech32

/-! ### Remainders -/

theorem xor_nothing (r : Residue) : r ^^^ 0 = r := BitVec.xor_zero

theorem ite_xor (a b : Bool) (r : Residue) :
    (if (a ^^ b) = true then r else 0)
      = (if a = true then r else 0) ^^^ (if b = true then r else 0) := by
  cases a <;> cases b <;> simp

theorem feedback_xor (a b : Residue) : feedback (a ^^^ b) = feedback a ^^^ feedback b := by
  unfold feedback
  simp only [BitVec.getLsbD_xor, ite_xor]
  ac_rfl

/-- **Taking in a symbol is linear**: one of two parts of a remainder takes in the symbol, and the
other one a zero. -/
theorem absorb_xor (a b : Residue) (s : Symbol) :
    absorb (a ^^^ b) s = absorb a 0 ^^^ absorb b s := by
  have hzero : BitVec.ofNat 30 (0 : Symbol).val = 0 := rfl
  unfold absorb
  rw [feedback_xor, BitVec.shiftLeft_xor_distrib, hzero, xor_nothing]
  ac_rfl

theorem foldl_absorb_xor (a b : Residue) (symbols : List Symbol) :
    symbols.foldl absorb (a ^^^ b)
      = (List.replicate symbols.length 0).foldl absorb a ^^^ symbols.foldl absorb b := by
  induction symbols generalizing a b with
  | nil => rfl
  | cons s rest ih =>
    rw [List.foldl_cons, absorb_xor, ih, List.length_cons, List.replicate_succ, List.foldl_cons,
      List.foldl_cons]

/-- Nothing leaves a remainder at the top that has room there for a symbol. -/
theorem feedback_shift (r : Residue) (k : Nat) : feedback (r >>> (k + 5)) = 0 := by
  have htop : ∀ i, 25 ≤ i → (r >>> (k + 5)).getLsbD i = false := fun i hi => by
    rw [BitVec.getLsbD_ushiftRight]
    exact BitVec.getLsbD_of_ge r _ (by omega)
  unfold feedback
  rw [htop 25 (by decide), htop 26 (by decide), htop 27 (by decide), htop 28 (by decide),
    htop 29 (by decide)]
  rfl

/-- **The upper symbols of a remainder** take in the next one. -/
theorem absorb_shift (r : Residue) (k : Nat) :
    absorb (r >>> (k + 5)) (Fin.ofNat 32 (r >>> k).toNat) = r >>> k := by
  unfold absorb
  rw [feedback_shift, xor_nothing]
  refine BitVec.eq_of_getLsbD_eq fun i hi => ?_
  have hlow : (BitVec.ofNat 30 (Fin.ofNat 32 (r >>> k).toNat).val).getLsbD i
      = (decide (i < 5) && (r >>> k).getLsbD i) := by
    have hfive : ∀ n : Nat, (Fin.ofNat 32 n).val = n % 2 ^ 5 := fun _ => rfl
    rw [hfive, BitVec.getLsbD_ofNat, Nat.testBit_mod_two_pow, decide_eq_true hi, Bool.true_and,
      BitVec.testBit_toNat]
  rw [BitVec.getLsbD_xor, hlow, BitVec.getLsbD_shiftLeft, decide_eq_true hi,
    BitVec.getLsbD_ushiftRight, BitVec.getLsbD_ushiftRight]
  by_cases h : i < 5
  · simp [h]
  · have hindex : k + 5 + (i - 5) = k + i := by omega
    simp [h, hindex]

/-- **The six symbols of a remainder**, taken into nothing, make this remainder. -/
theorem foldl_symbolsOfResidue (r : Residue) : (symbolsOfResidue r).foldl absorb 0 = r := by
  have hstart : (0 : Residue) = r >>> (25 + 5) := by
    refine BitVec.eq_of_getLsbD_eq fun i _ => ?_
    rw [BitVec.getLsbD_ushiftRight, BitVec.getLsbD_of_ge r _ (by omega)]
    exact BitVec.getLsbD_zero
  unfold symbolsOfResidue
  simp only [List.map_cons, List.map_nil, List.foldl_cons, List.foldl_nil]
  rw [hstart, absorb_shift r 25, absorb_shift r 20, absorb_shift r 15, absorb_shift r 10,
    absorb_shift r 5, absorb_shift r 0, BitVec.ushiftRight_zero]

/-- A remainder that has room at the top for a symbol takes one in as its last digit. -/
theorem toNat_absorb {r : Residue} (hroom : r.toNat < 2 ^ 25) (s : Symbol) :
    (absorb r s).toNat = 32 * r.toNat + s.val := by
  have hs : s.val < 32 := s.isLt
  obtain ⟨q, hq⟩ : ∃ q : Residue, q.toNat = 32 * r.toNat + s.val :=
    ⟨BitVec.ofNat 30 (32 * r.toNat + s.val), by rw [BitVec.toNat_ofNat]; omega⟩
  have hupper : q >>> (0 + 5) = r := BitVec.eq_of_toNat_eq (by
    rw [BitVec.toNat_ushiftRight, Nat.shiftRight_eq_div_pow]
    omega)
  have hlast : Fin.ofNat 32 (q >>> 0).toNat = s := Fin.ext (by
    show (q >>> 0).toNat % 32 = s.val
    rw [BitVec.toNat_ushiftRight, Nat.shiftRight_eq_div_pow]
    omega)
  have h := absorb_shift q 0
  rw [hupper, hlast, BitVec.ushiftRight_zero] at h
  rw [h, hq]

/-- **Six symbols are those of the remainder** that they make of nothing, so that no six others make
the same one. -/
theorem symbolsOfResidue_foldl {symbols : List Symbol} (h : symbols.length = 6) :
    symbolsOfResidue (symbols.foldl absorb 0) = symbols := by
  obtain ⟨a, b, c, d, e, f, rfl⟩ : ∃ a b c d e f, symbols = [a, b, c, d, e, f] := by
    match symbols, h with
    | [a, b, c, d, e, f], _ => exact ⟨a, b, c, d, e, f, rfl⟩
  obtain ⟨r, hr⟩ : ∃ r, [a, b, c, d, e, f].foldl absorb 0 = r := ⟨_, rfl⟩
  have ha : (absorb 0 a).toNat = a.val := (toNat_absorb (by decide) a).trans (Nat.zero_add _)
  have hb := toNat_absorb (r := absorb 0 a) (by omega) b
  have hc := toNat_absorb (r := absorb (absorb 0 a) b) (by omega) c
  have hd := toNat_absorb (r := absorb (absorb (absorb 0 a) b) c) (by omega) d
  have he := toNat_absorb (r := absorb (absorb (absorb (absorb 0 a) b) c) d) (by omega) e
  have hf := toNat_absorb (r := absorb (absorb (absorb (absorb (absorb 0 a) b) c) d) e) (by omega) f
  simp only [List.foldl_cons, List.foldl_nil] at hr
  rw [hr, he, hd, hc, hb, ha] at hf
  have hdigit : ∀ (k : Nat) (s : Symbol), r.toNat / 2 ^ k % 32 = s.val →
      Fin.ofNat 32 (r >>> k).toNat = s := fun k s hk => Fin.ext (by
    show (r >>> k).toNat % 32 = s.val
    rw [BitVec.toNat_ushiftRight, Nat.shiftRight_eq_div_pow, hk])
  simp only [List.foldl_cons, List.foldl_nil, hr, symbolsOfResidue, List.map_cons, List.map_nil]
  rw [hdigit 25 a (by omega), hdigit 20 b (by omega), hdigit 15 c (by omega),
    hdigit 10 d (by omega), hdigit 5 e (by omega), hdigit 0 f (by omega)]

/-- The checksum with which a row has the remainder `target`: what is missing to it once the six
symbols of nothing have been taken in. -/
def checksumFor (target : Residue) (hrp : List Char) (data : List Symbol) : List Symbol :=
  symbolsOfResidue (residue (expand hrp ++ data ++ symbolsOfResidue 0) ^^^ target)

theorem length_checksumFor (target : Residue) (hrp : List Char) (data : List Symbol) :
    (checksumFor target hrp data).length = 6 := rfl

/-- **The checksum of a row** for a remainder is the only one with which the row has it. -/
theorem residue_eq_iff {target : Residue} (hrp : List Char) (data : List Symbol)
    {check : List Symbol} (hcheck : check.length = 6) :
    residue (expand hrp ++ (data ++ check)) = target ↔ check = checksumFor target hrp data := by
  unfold checksumFor residue
  simp only [List.foldl_append]
  generalize data.foldl absorb ((expand hrp).foldl absorb 1) = before
  have hsplit := foldl_absorb_xor before 0 check
  rw [xor_nothing, hcheck] at hsplit
  have hnothing : symbolsOfResidue 0 = List.replicate 6 0 := by decide
  rw [hsplit, hnothing]
  generalize (List.replicate 6 0).foldl absorb before = shifted
  constructor
  · rintro rfl
    rw [← BitVec.xor_assoc, BitVec.xor_self, BitVec.zero_xor, symbolsOfResidue_foldl hcheck]
  · rintro rfl
    rw [foldl_symbolsOfResidue, ← BitVec.xor_assoc, BitVec.xor_self, BitVec.zero_xor]

/-- **A row with its checksum** has the remainder of the modern variant. -/
theorem residue_checksum (hrp : List Char) (data : List Symbol) :
    residue (expand hrp ++ (data ++ checksum hrp data)) = modernTarget :=
  (residue_eq_iff hrp data rfl).2 rfl

/-! ### Letters -/

theorem symbol?_letter (s : Symbol) : symbol? (letter s) = some s := by
  revert s
  decide +kernel

theorem letter_ne_separator (s : Symbol) : letter s ≠ '1' := by
  revert s
  decide +kernel

theorem isUpper_letter (s : Symbol) : (letter s).isUpper = false := by
  revert s
  decide +kernel

/-- **The last separator** is the one that no other comes behind. -/
theorem splitAtSeparator_append (hrp : List Char) {tail : List Char} (h : '1' ∉ tail) :
    splitAtSeparator (hrp ++ '1' :: tail) = some (hrp, tail) := by
  have htail : ∀ c ∈ tail.reverse, decide (c ≠ '1') = true := fun c hc => by
    simp only [decide_eq_true_eq]
    rintro rfl
    exact h (List.mem_reverse.1 hc)
  have hreverse : (hrp ++ '1' :: tail).reverse = tail.reverse ++ '1' :: hrp.reverse := by simp
  unfold splitAtSeparator
  rw [hreverse, List.takeWhile_append_of_pos htail, List.dropWhile_append_of_pos htail]
  simp

/-! ### Texts -/

/-- **A human-readable part** as texts are written with it: in lower case. -/
structure IsHumanPart (hrp : List Char) : Prop where
  nonempty : hrp ≠ []
  short : hrp.length ≤ maxHrpLength
  visible : ∀ c ∈ hrp, isHrpChar c = true
  lower : ∀ c ∈ hrp, c.isUpper = false

/-- Symbols in lower case after a human-readable part, with the remainder of either variant, are a
text that is read. -/
theorem decode_of_symbols {text : String} {hrp : List Char} {symbols : List Symbol}
    (h : IsHumanPart hrp) (htext : text.toList = hrp ++ '1' :: symbols.map letter)
    (hroom : text.toList.length ≤ maxLength) (hchecked : 6 ≤ symbols.length)
    (hresidue : residue (expand hrp ++ symbols) = modernTarget ∨
      residue (expand hrp ++ symbols) = plainTarget) :
    decode text = .ok (String.ofList hrp, ungroup (symbols.take (symbols.length - 6))) := by
  have hnone : '1' ∉ symbols.map letter := fun hmem => by
    obtain ⟨s, -, hs⟩ := List.mem_map.1 hmem
    exact letter_ne_separator s hs
  have hsymbols : (symbols.map letter).mapM symbol? = some symbols :=
    Json.mapM_map_self fun s _ => symbol?_letter s
  have hlower : text.toList.any Char.isUpper = false := by
    refine List.any_eq_false.2 fun c hc => Bool.not_eq_true _ ▸ ?_
    rw [htext] at hc
    rcases List.mem_append.1 hc with hhrp | htail
    · exact h.lower c hhrp
    · rcases List.mem_cons.1 htail with rfl | hletter
      · rfl
      · obtain ⟨s, -, rfl⟩ := List.mem_map.1 hletter
        exact isUpper_letter s
  have hhuman : (hrp.isEmpty || decide (maxHrpLength < hrp.length)
      || !hrp.all isHrpChar) = false := by
    simp [h.nonempty, List.all_eq_true.2 h.visible, h.short]
  have hlength : (decide (maxLength < text.toList.length) || decide (symbols.length < 6))
      = false := by
    simp [hroom, hchecked]
  have hsplit : splitAtSeparator text.toList = some (hrp, symbols.map letter) := by
    rw [htext]
    exact splitAtSeparator_append hrp hnone
  unfold decode
  simp only [hsplit, hsymbols, hlower, hhuman, hlength, if_pos hresidue]
  rfl

/-- **A text is read as it was written.** -/
theorem decode_encode {hrp : String} (h : IsHumanPart hrp.toList) {bs : Bytes}
    (hroom : (encodeChars hrp.toList bs).length ≤ maxLength) :
    decode (encode hrp bs) = .ok (hrp, bs) := by
  have htext : (encode hrp bs).toList = encodeChars hrp.toList bs := String.toList_ofList
  have hcheck : (checksum hrp.toList (regroup bs)).length = 6 := rfl
  have hlength : (regroup bs ++ checksum hrp.toList (regroup bs)).length
      = (regroup bs).length + 6 := List.length_append
  have hread := decode_of_symbols h htext (htext ▸ hroom) (by omega)
    (Or.inl (residue_checksum hrp.toList (regroup bs)))
  rw [hread, hlength, Nat.add_sub_cancel, List.take_left, ungroup_regroup, String.ofList_toList]

/-- **The length of a text.** -/
theorem length_encodeChars (hrp : List Char) (bs : Bytes) : ∃ missing < 5,
    5 * (encodeChars hrp bs).length = 5 * (hrp.length + 7) + (8 * bs.length + missing) := by
  obtain ⟨missing, hmissing, hbits⟩ := exists_bits_regroup bs
  refine ⟨missing, hmissing, ?_⟩
  have hlength := congrArg List.length hbits
  rw [length_bits_symbols, List.length_append, length_bits_bytes, List.length_replicate] at hlength
  have hcheck : (checksum hrp (regroup bs)).length = 6 := rfl
  simp only [encodeChars, List.length_append, List.length_cons, List.length_map, hcheck]
  omega

end Bech32

namespace Address

theorem isHumanPart_humanPart : Bech32.IsHumanPart humanPart.toList where
  nonempty := by decide
  short := by decide
  visible := List.all_eq_true.1 (by decide)
  lower c hc := by
    have hlower : humanPart.toList.all (fun c => !c.isUpper) = true := by decide
    simpa using List.all_eq_true.1 hlower c hc

/-- The Bech32 text of an address has room for its checksum. -/
theorem room_toText (a : Address) :
    (Bech32.encodeChars humanPart.toList a.bytes).length ≤ Bech32.maxLength := by
  obtain ⟨missing, hmissing, hlength⟩ := Bech32.length_encodeChars humanPart.toList a.bytes
  have hhuman : humanPart.toList.length = 4 := by decide
  rw [hhuman, a.length_bytes] at hlength
  show _ ≤ 1023
  omega

theorem ofBech32_toText (a : Address) : ofBech32 a.toText = .ok a := by
  unfold ofBech32 toText
  rw [Bech32.decode_encode isHumanPart_humanPart a.room_toText]
  exact (if_pos rfl).trans (dif_pos a.length_bytes)

/-- **The texts of an address are read as this address**, both of them: the Bech32 text, which
begins with the human-readable part and the separator, and the hexadecimal text. -/
theorem own_texts_are_read (a : Address) :
    (∃ rest, a.toText = "lock1" ++ rest) ∧ ofText a.toText = .ok a ∧ ofText a.toHexText = .ok a := by
  obtain ⟨rest, hrest⟩ : ∃ rest, a.toText.toList = "lock1".toList ++ rest :=
    ⟨(Bech32.encodeChars humanPart.toList a.bytes).drop 5, String.toList_ofList⟩
  refine ⟨⟨String.ofList rest, String.toList_inj.1 ?_⟩, ?_, a.ofText_toHexText⟩
  · have htail : (String.ofList rest).toList = rest := String.toList_ofList
    rw [hrest, String.toList_append, htail]
  · unfold ofText
    rw [hrest, if_pos (List.isPrefixOf_iff_prefix.2 (List.prefix_append ..))]
    exact a.ofBech32_toText

end Address

end StakeGovernance
