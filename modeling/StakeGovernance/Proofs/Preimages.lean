import StakeGovernance.Proofs.Arguments
import StakeGovernance.Proofs.Texts
import StakeGovernance.Proposal.Action

/-!
# The bytes under a digest

An action waits for its execution under the digest of a row of bytes, and two actions that share a
digest share an entry. What keeps them apart is the digest function only as long as the bytes
themselves are not the same. They are a row of parts of which two have no fixed width, the signature
and the arguments: bytes could move over from the one to the other. Each of the two therefore stands
behind its length, in four bytes. These are enough for every action that is accepted, as its
signature is that of a command and its arguments are limited; and then the parts are read off the
bytes from left to right, each with what follows it.

* `StakeGovernance.counted_append_inj` – bytes **behind their length**;
* `StakeGovernance.ProposalAction.Measured` – the actions whose **lengths fit**;
* `StakeGovernance.ProposalAction.preimages_are_unambiguous` – the bytes **tell all parts**.
-/

namespace StakeGovernance

/-! ### Parts -/

theorem utf8Bytes_injective {s t : String} (h : utf8Bytes s = utf8Bytes t) : s = t := by
  have hback := congrArg utf8Text? h
  rw [utf8Text?_utf8Bytes, utf8Text?_utf8Bytes] at hback
  exact Option.some.inj hback

/-- A number that fits its width is told from what follows it. -/
theorem bigEndian_append_inj {width m n : Nat} {rest rest' : Bytes}
    (hm : m < Word.size (8 * width)) (hn : n < Word.size (8 * width))
    (h : bigEndian width m ++ rest = bigEndian width n ++ rest') : m = n ∧ rest = rest' := by
  obtain ⟨hnumber, hrest⟩ := List.append_inj h (by rw [length_bigEndian, length_bigEndian])
  have hback := congrArg ofBigEndian hnumber
  rw [ofBigEndian_bigEndian hm, ofBigEndian_bigEndian hn] at hback
  exact ⟨hback, hrest⟩

/-- **Bytes behind their length** are told from what follows them, if the length fits. -/
theorem counted_append_inj {xs ys rest rest' : Bytes} (hxs : xs.length < Word.size 32)
    (hys : ys.length < Word.size 32)
    (h : bigEndian 4 xs.length ++ (xs ++ rest) = bigEndian 4 ys.length ++ (ys ++ rest')) :
    xs = ys ∧ rest = rest' := by
  obtain ⟨hlength, htail⟩ := bigEndian_append_inj hxs hys h
  exact List.append_inj htail hlength

namespace ProposalAction

/-- **An action whose lengths fit** the four bytes that they are written in. -/
structure Measured (a : ProposalAction) : Prop where
  signature : (utf8Bytes a.signature).length < Word.size 32
  data : a.data.length < Word.size 32

/-- **Actions that are accepted** have lengths that fit: their signatures are those of commands, and
there is a limit to their arguments. -/
theorem measured_of_command {a : ProposalAction} {c : Command} (h : a.command = .ok c) :
    a.Measured := by
  unfold command at h
  split at h
  · cases h
  split at h
  · cases h
  rename_i hshort
  constructor
  · obtain ⟨hsignature, -⟩ := Command.written_of_readArgs? (Command.decode_eq_ok.1 h)
    have hall : ∀ s ∈ Command.signatures, (utf8Bytes s).length < Word.size 32 := by decide +kernel
    exact hsignature ▸ hall _ c.signature_mem_signatures
  · have hlimit : maxDataLength < Word.size 32 := by decide +kernel
    exact Nat.lt_of_le_of_lt (Nat.le_of_not_lt hshort) hlimit

/-- **The bytes under a digest are unambiguous.** Two actions whose lengths fit, each with the time
of its execution, have the same bytes only if they have the same target, the same value, the same
signature and the same arguments, and are to be executed at the same time. All actions that are
accepted are of this kind. So if two of them that are not the same share a digest, or one does at
two times, then it is the digest function that has given two rows of bytes the same digest. -/
theorem preimages_are_unambiguous :
    (∀ (a b : ProposalAction) (eta eta' : Timestamp), a.Measured → b.Measured →
      a.preimage eta = b.preimage eta' →
        a.target = b.target ∧ a.value = b.value ∧ a.signature = b.signature ∧ a.data = b.data ∧
          eta = eta') ∧
    ∀ (a : ProposalAction) (c : Command), a.command = .ok c → a.Measured := by
  refine ⟨fun a b eta eta' ha hb h => ?_, fun a c => measured_of_command⟩
  simp only [preimage, List.append_assoc] at h
  -- from left to right, each part with what follows it
  obtain ⟨htarget, h⟩ := exact_readAddress.append_inj h
  obtain ⟨hvalue, h⟩ := exact_readAmount.append_inj h
  obtain ⟨hsignature, h⟩ := counted_append_inj ha.signature hb.signature h
  obtain ⟨hdata, h⟩ := counted_append_inj ha.data hb.data h
  have hend : bigEndian 8 eta.toNat ++ [] = bigEndian 8 eta'.toNat ++ [] := congrArg (· ++ []) h
  obtain ⟨heta, -⟩ := bigEndian_append_inj eta.toNat_lt eta'.toNat_lt hend
  exact ⟨htarget, hvalue, utf8Bytes_injective hsignature, hdata, Word.ext heta⟩

/-- A byte has moved from the arguments to the signature, so that without the lengths the bytes
would be the same; and an action that sets the delay of votes is accepted. -/
theorem preimages_are_unambiguous_sample :
    let target : Address := ⟨List.replicate 20 1, rfl⟩
    let a : ProposalAction := ⟨target, .zero, "SetGuardian", [0x21, 0x22]⟩
    let b : ProposalAction := ⟨target, .zero, "SetGuardian!", [0x22]⟩
    utf8Bytes a.signature ++ a.data = utf8Bytes b.signature ++ b.data ∧
      a.preimage (.ofNat 7) ≠ b.preimage (.ofNat 7) ∧
      (ofCommand target .zero (.setVotingDelay (.ofNat 10))).Measured := by
  intro target a b
  obtain ⟨hapart, haccepted⟩ := preimages_are_unambiguous
  refine ⟨by decide +kernel, fun h => ?_, haccepted _ (.setVotingDelay (.ofNat 10)) rfl⟩
  have ha : a.Measured := ⟨by decide +kernel, by decide +kernel⟩
  have hb : b.Measured := ⟨by decide +kernel, by decide +kernel⟩
  obtain ⟨-, -, -, hdata, -⟩ := hapart a b _ _ ha hb h
  cases hdata

end ProposalAction

end StakeGovernance
