import Mathlib.Data.Finset.Basic
import Mathlib.Data.List.ProdSigma
import StakeGovernance.Proofs.Checksums
import StakeGovernance.Proofs.Rearranged

/-!
# Every spelling of an address in Bech32

An address is written in one way, but it is read from more texts than that one. Two things are
left open by the reader. It takes the checksum of either variant of the format, although only the
modern one is ever written. And it drops what does not make a byte at the end of the data: the
twenty bytes of an address are thirty-two symbols exactly, so that one symbol more, of any value,
is read and forgotten. Nothing else is left open. A text that begins in lower case has no letter in
upper case behind it; a letter is that of one symbol only; and six symbols of a checksum are
determined by the remainder that is asked for.

So an address has two variants times thirty-three rows of data, sixty-six spellings in all, of
which the first one is its text.

* `StakeGovernance.Bech32.textFor` – a **text with any data**, and the checksum of either variant;
* `StakeGovernance.Bech32.decode_eq_ok_iff` – the texts that are **read as some bytes**;
* `StakeGovernance.Address.spellings` – the **spellings of an address**;
* `StakeGovernance.Address.read_from_sixty_six_spellings` – these are **all texts** that begin like
  an address in Bech32 and are read as this one;
* `StakeGovernance.Address.other_variant_is_read` – a text that is read, and **is not the text** of
  what it is read as.
-/

namespace StakeGovernance

namespace Bech32

/-! ### Letters and separators, back -/

/-- A symbol is read from no other letter in lower case than its own. -/
theorem letter_of_symbol? {c : Char} {s : Symbol} (h : symbol? c = some s)
    (hlower : c.isUpper = false) : letter s = c := by
  have hc : c.toLower = c := dif_neg (of_decide_eq_false hlower)
  rw [symbol?, hc] at h
  obtain ⟨i, hi, h⟩ := Option.bind_eq_some_iff.1 h
  split at h
  · cases h
    obtain ⟨hbound, hletter, -⟩ := List.idxOf?_eq_some_iff.1 hi
    exact (List.getElem_eq_getD _).symm.trans hletter
  · cases h

/-- Letters in lower case that are read as symbols are theirs. -/
theorem map_letter_of_mapM {tail : List Char} {symbols : List Symbol}
    (h : tail.mapM symbol? = some symbols) (hlower : ∀ c ∈ tail, c.isUpper = false) :
    symbols.map letter = tail := by
  have hread := Json.mapM_eq_some.1 h
  clear h
  induction hread with
  | nil => rfl
  | cons hfirst _ ih =>
    obtain ⟨hc, hrest⟩ := List.forall_mem_cons.1 hlower
    rw [List.map_cons, letter_of_symbol? hfirst hc, ih hrest]

/-- **A text is cut at a separator**, and loses nothing else. -/
theorem eq_of_splitAtSeparator {cs hrp tail : List Char}
    (h : splitAtSeparator cs = some (hrp, tail)) : cs = hrp ++ '1' :: tail := by
  have hwhole := List.takeWhile_append_dropWhile (p := (· ≠ '1')) (l := cs.reverse)
  rw [splitAtSeparator] at h
  split at h
  · cases h
  · rename_i mark head hcut
    cases h
    have hmark : mark = '1' := by
      have hstop := List.head_dropWhile_not (· ≠ '1') (hcut ▸ List.cons_ne_nil mark head)
      simpa only [hcut, List.head_cons, decide_eq_false_iff_not, not_not] using hstop
    rw [hcut, hmark] at hwhole
    have hback := congrArg List.reverse hwhole
    simpa using hback.symm

/-! ### Texts with any data -/

/-- **A text with any data** behind a human-readable part, and the checksum with which it has the
remainder `target`. -/
def textFor (target : Residue) (hrp : String) (data : List Symbol) : String :=
  String.ofList (hrp.toList ++ '1' :: (data ++ checksumFor target hrp.toList data).map letter)

theorem toList_textFor (target : Residue) (hrp : String) (data : List Symbol) :
    (textFor target hrp data).toList
      = hrp.toList ++ '1' :: (data ++ checksumFor target hrp.toList data).map letter :=
  String.toList_ofList

/-- **What is written** is the modern variant, with the symbols of the bytes as data. -/
theorem textFor_modern (hrp : String) (bs : Bytes) :
    textFor modernTarget hrp (regroup bs) = encode hrp bs := rfl

/-- **A text tells** its data and its variant. -/
theorem textFor_inj {hrp : String} {target target' : Residue} {data data' : List Symbol}
    (h : textFor target hrp data = textFor target' hrp data') :
    target = target' ∧ data = data' := by
  have hletters : ∀ s t : Symbol, letter s = letter t → s = t := by
    intro s t hst
    have hsame := congrArg symbol? hst
    rw [symbol?_letter, symbol?_letter] at hsame
    exact Option.some.inj hsame
  have h := congrArg String.toList h
  rw [toList_textFor, toList_textFor, List.append_right_inj, List.cons_inj_right,
    List.map_inj_right hletters] at h
  have hcheck := length_checksumFor target hrp.toList data
  obtain ⟨rfl, hsame⟩ := List.append_inj' h (hcheck.trans (length_checksumFor ..).symm)
  -- one row of symbols has one remainder
  have hown := (residue_eq_iff hrp.toList data hcheck).2 rfl
  exact ⟨hown.symm.trans ((residue_eq_iff hrp.toList data hcheck).2 hsame), rfl⟩

/-- The two variants of the format. -/
def targets : List Residue := [modernTarget, plainTarget]

theorem mem_targets {r : Residue} : r ∈ targets ↔ r = modernTarget ∨ r = plainTarget := by
  simp [targets]

section Reading

variable {text hrp : String} {bs : Bytes}

/-- A text that is read begins with its human-readable part; then come a separator, and the letters
of the data and of a checksum of either variant. They are in lower case if a letter before them
is. -/
theorem eq_textFor_of_decode (h : decode text = .ok (hrp, bs))
    (hcase : hrp.toList.any Char.isLower = true) :
    ∃ target ∈ targets, ∃ data, ungroup data = bs ∧ text = textFor target hrp data := by
  simp only [decode] at h
  split at h
  · cases h
  rename_i front tail hsplit
  split at h
  · cases h
  rename_i symbols hsymbols
  split at h
  · cases h
  rename_i hmixed
  split at h
  · cases h
  split at h
  · cases h
  rename_i hlength
  split at h
  · rename_i hresidue
    cases h
    have hfront : (String.ofList front).toList = front := String.toList_ofList
    rw [hfront] at hcase
    have htext := eq_of_splitAtSeparator hsplit
    -- a letter in lower case stands before the separator, so that none in upper case is behind it
    have hlower : ∀ c ∈ tail, c.isUpper = false := by
      simp only [htext, List.any_append, hcase, Bool.true_or, Bool.and_true, Bool.not_eq_true,
        Bool.or_eq_false_iff, List.any_cons, List.any_eq_false] at hmixed
      exact fun c hc => Bool.not_eq_true _ ▸ hmixed.2.2 c hc
    have hletters := map_letter_of_mapM hsymbols hlower
    simp only [Bool.or_eq_true, decide_eq_true_eq, not_or, not_lt] at hlength
    have hcheck : (symbols.drop (symbols.length - 6)).length = 6 := by
      rw [List.length_drop]
      omega
    have hparts := List.take_append_drop (symbols.length - 6) symbols
    have hchecked := (residue_eq_iff front _ hcheck).1
      (congrArg (fun row => residue (expand front ++ row)) hparts)
    refine ⟨_, mem_targets.2 hresidue, _, rfl, String.toList_inj.1 ?_⟩
    rw [toList_textFor, hfront, ← hchecked, hparts, hletters, htext]
  · cases h

/-- Any data is read behind a human-readable part in lower case, as long as there is room for it. -/
theorem decode_textFor (h : IsHumanPart hrp.toList) {target : Residue} (htarget : target ∈ targets)
    {data : List Symbol} (hroom : hrp.toList.length + data.length + 7 ≤ maxLength) :
    decode (textFor target hrp data) = .ok (hrp, ungroup data) := by
  have htext := toList_textFor target hrp data
  have hcheck := length_checksumFor target hrp.toList data
  have hlength : (textFor target hrp data).toList.length = hrp.toList.length + data.length + 7 := by
    rw [htext]
    simp only [List.length_append, List.length_cons, List.length_map, hcheck]
    omega
  have hresidue := (residue_eq_iff hrp.toList data hcheck).2 rfl
  have hsymbols : (data ++ checksumFor target hrp.toList data).length = data.length + 6 :=
    List.length_append
  rw [decode_of_symbols h htext (hlength ▸ hroom) (by omega)
    (hresidue.symm ▸ mem_targets.1 htarget), hsymbols, Nat.add_sub_cancel, List.take_left,
    String.ofList_toList]

end Reading

/-- **The texts that are read as some bytes** after a human-readable part in lower case: any data
that is read as the bytes will do, with the checksum of either variant, if there is room. -/
theorem decode_eq_ok_iff {text hrp : String} {bs : Bytes} (h : IsHumanPart hrp.toList)
    (hcase : hrp.toList.any Char.isLower = true)
    (hroom : hrp.toList.length + 2 * bs.length + 8 ≤ maxLength) :
    decode text = .ok (hrp, bs) ↔
      ∃ target ∈ targets, ∃ data, ungroup data = bs ∧ text = textFor target hrp data := by
  constructor
  · exact fun hread => eq_textFor_of_decode hread hcase
  · rintro ⟨target, htarget, data, rfl, rfl⟩
    refine decode_textFor h htarget ?_
    obtain ⟨rest, hrest, hbits⟩ := exists_bits_ungroup data
    have hlength := congrArg List.length hbits
    rw [length_bits_symbols, List.length_append, length_bits_bytes] at hlength
    omega

end Bech32

namespace Address

open Bech32

/-! ### The spellings of an address -/

theorem ofBech32_eq_ok_iff {text : String} {a : Address} :
    ofBech32 text = .ok a ↔ decode text = .ok (humanPart, a.bytes) := by
  unfold ofBech32
  cases decode text with
  | error e => simp
  | ok parts =>
    obtain ⟨found, bs⟩ := parts
    by_cases hfound : found = humanPart
    · by_cases hlength : bs.length = 20
      · simp only [hfound, ofBytes, dif_pos hlength, if_true, Except.ok.injEq, Prod.mk.injEq,
          true_and]
        exact ⟨congrArg bytes, fun h => ext h⟩
      · have hne : bs ≠ a.bytes := fun hbs => hlength (hbs ▸ a.length_bytes)
        simp [ofBytes, hfound, hlength, hne]
    · simp [hfound]

/-- What may stand between the symbols of an address and the checksum: nothing, or any one
symbol. -/
def spares : List (List Symbol) := [] :: (List.finRange 32).map fun s => [s]

theorem mem_spares {spare : List Symbol} : spare ∈ spares ↔ spare.length ≤ 1 := by
  rcases spare with _ | ⟨s, _ | ⟨t, rest⟩⟩ <;> simp [spares]

/-- **The spellings of an address** in Bech32: its symbols with nothing or any one symbol behind
them, and the checksum of either variant. -/
def spellings (a : Address) : List String :=
  (targets ×ˢ spares).map fun e => textFor e.1 humanPart (regroup a.bytes ++ e.2)

theorem nodup_spellings (a : Address) : a.spellings.Nodup := by
  have hspares : spares.Nodup := by
    refine List.nodup_cons.2 ⟨by simp, (List.nodup_finRange 32).map fun s t h => ?_⟩
    exact List.singleton_injective h
  have hpairs : (targets ×ˢ spares).Nodup := List.Nodup.product (by decide) hspares
  refine hpairs.map fun e e' h => ?_
  obtain ⟨htarget, hdata⟩ := textFor_inj h
  exact Prod.ext htarget (List.append_cancel_left hdata)

theorem mem_spellings {text : String} {a : Address} :
    text ∈ a.spellings ↔ ofBech32 text = .ok a := by
  have hfills : 5 ∣ a.bytes.length := by
    rw [a.length_bytes]
    decide
  have hroom : humanPart.toList.length + 2 * a.bytes.length + 8 ≤ maxLength := by
    rw [a.length_bytes]
    decide
  rw [ofBech32_eq_ok_iff, decode_eq_ok_iff isHumanPart_humanPart (by decide) hroom]
  simp only [spellings, List.mem_map, List.mem_product, Prod.exists, ungroup_eq_iff hfills,
    mem_spares]
  constructor
  · rintro ⟨target, spare, ⟨htarget, hspare⟩, rfl⟩
    exact ⟨target, htarget, _, ⟨spare, hspare, rfl⟩, rfl⟩
  · rintro ⟨target, htarget, _, ⟨spare, hspare, rfl⟩, rfl⟩
    exact ⟨target, spare, ⟨htarget, hspare⟩, rfl⟩

/-- A spelling begins with the human-readable part and the separator. -/
theorem starts_of_mem_spellings {text : String} {a : Address} (h : text ∈ a.spellings) :
    "lock1".toList <+: text.toList := by
  obtain ⟨e, -, rfl⟩ := List.mem_map.1 h
  exact ⟨_, (toList_textFor e.1 humanPart (regroup a.bytes ++ e.2)).symm⟩

/-- A text that begins like an address in Bech32 is read as one. -/
theorem ofText_of_starts {text : String} (h : "lock1".toList <+: text.toList) :
    ofText text = ofBech32 text :=
  if_pos (List.isPrefixOf_iff_prefix.2 h)

/-- **An address is read from sixty-six texts** that begin like an address in Bech32, and from no
other ones: from its own text, and from sixty-five others, which differ from it by the variant of
their checksum or by one symbol more before it. -/
theorem read_from_sixty_six_spellings (a : Address) :
    a.spellings.head? = some a.toText ∧ a.spellings.length = 66 ∧ a.spellings.Nodup ∧
      ∀ text : String,
        "lock1".toList <+: text.toList ∧ ofText text = .ok a ↔ text ∈ a.spellings := by
  refine ⟨?_, ?_, a.nodup_spellings, fun text => ⟨?_, fun hmem => ?_⟩⟩
  · rw [toText, ← textFor_modern, ← List.append_nil (regroup a.bytes)]
    rfl
  · simp [spellings, targets, spares]
  · rintro ⟨hstarts, hread⟩
    exact mem_spellings.2 (ofText_of_starts hstarts ▸ hread)
  · have hstarts := starts_of_mem_spellings hmem
    exact ⟨hstarts, (ofText_of_starts hstarts).trans (mem_spellings.1 hmem)⟩

/-- **A text with the checksum of the other variant is read**, and it is not the text of the address
that it is read as. -/
theorem other_variant_is_read :
    let text := "lock1qqqsyqcyq5rqwzqfpg9scrgwpugpzysn43v2p7"
    ∃ a : Address, "lock1".toList <+: text.toList ∧ ofText text = .ok a ∧ a.toText ≠ text :=
  ⟨⟨[0, 1, 2, 3, 4, 5, 6, 7, 8, 9, 10, 11, 12, 13, 14, 15, 16, 17, 18, 19], rfl⟩,
    by decide +kernel, by decide +kernel, by decide +kernel⟩

end Address

end StakeGovernance
