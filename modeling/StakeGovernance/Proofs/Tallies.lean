import StakeGovernance.Proofs.Maps
import StakeGovernance.Proofs.Power
import StakeGovernance.Proofs.States
import StakeGovernance.Proofs.Sums

/-!
# Tallies and receipts

A vote is entered twice, in the tally of its kind and as a receipt under its voter. As
there is one receipt for each voter, each tally is a sum over all accounts of what they
have cast; and if everybody has cast the power that a sound ledger gives at one point, all
of it together fits a power, so that no tally ever overflows.

* `StakeGovernance.Proposal.cast` – the votes of a kind **by the receipts**;
* `StakeGovernance.Proposal.Counted` – the tallies **are those sums**;
* `StakeGovernance.Proposal.Weighed` – every receipt has **the power of its voter**;
* `StakeGovernance.Proposal.recordVote_ne_overflow` – no tally **overflows**.
-/

namespace StakeGovernance.Proposal

variable {p q : Proposal} {l : Ledger} {voter : Address} {support : VoteSupport} {votes : Power}

/-! ### Sums over receipts -/

/-- **The votes of a kind by the receipts.** -/
def cast (p : Proposal) (support : VoteSupport) : Nat :=
  ((p.receipts.values.filter fun r => r.support = support).map (·.votes.toNat)).sum

/-- What an account has cast for a kind of votes. -/
def castBy (p : Proposal) (support : VoteSupport) (voter : Address) : Nat :=
  ((p.receipts.get? voter).map fun r =>
    if r.support = support then r.votes.toNat else 0).getD 0

theorem cast_eq (p : Proposal) (support : VoteSupport) :
    p.cast support = ∑ voter, p.castBy support voter := by
  have hlist : ∀ receipts : List VoteReceipt,
      ((receipts.filter fun r => r.support = support).map (·.votes.toNat)).sum
        = (receipts.map fun r => if r.support = support then r.votes.toNat else 0).sum := by
    intro receipts
    rw [List.sum_map_ite]
    simp
  unfold cast OrderedMap.values
  rw [hlist, List.map_map]
  exact p.receipts.sum_entries fun _ r => if r.support = support then r.votes.toNat else 0

theorem castBy_of_none (h : p.receipts.get? voter = none) (support : VoteSupport) :
    p.castBy support voter = 0 := by
  unfold castBy
  rw [h]
  rfl

/-! ### Counting -/

/-- **The tallies are what the receipts come to.** -/
def Counted (p : Proposal) : Prop := ∀ support, (p.tally support).toNat = p.cast support

/-- **A vote is counted.** -/
theorem Counted.recordVote (h : p.Counted) (hvote : p.recordVote voter support votes = .ok q) :
    q.Counted := by
  intro kind
  obtain ⟨hnone, htally, hreceipts, -⟩ := recordVote_eq_ok hvote
  -- as a sum over all accounts, the receipts change in the term of the voter only
  have hget : ∀ other, q.receipts.get? other
      = if other = voter then some ⟨support, votes⟩ else p.receipts.get? other := by
    intro other
    rw [hreceipts]
    exact OrderedMap.get?_insert_eq p.receipts voter other _
  have hsum := sum_add_of_eq_off (f := q.castBy kind) (g := p.castBy kind) (i := voter)
    fun other hother => by
      unfold castBy
      rw [hget, if_neg hother]
  have hbefore := castBy_of_none hnone kind
  have hafter : q.castBy kind voter = if kind = support then votes.toNat else 0 := by
    unfold castBy
    rw [hget, if_pos rfl]
    exact if_congr eq_comm rfl rfl
  rw [htally, h kind, cast_eq, cast_eq]
  omega

/-! ### Weighing -/

/-- **Every receipt has the power of its voter** when the proposal was made, and some. -/
def Weighed (l : Ledger) (p : Proposal) : Prop :=
  ∀ voter receipt, p.receipts.get? voter = some receipt →
    receipt.votes.toNat ≠ 0 ∧ l.votingPowerAt voter p.snapshot = .ok receipt.votes

/-- Nobody has cast more than the power of the account. -/
theorem Weighed.castBy_le (h : p.Weighed l) (hl : l.Sound) (support : VoteSupport)
    (voter : Address) : p.castBy support voter ≤ l.power voter p.snapshot := by
  unfold castBy
  cases hreceipt : p.receipts.get? voter with
  | none => exact Nat.zero_le _
  | some receipt =>
    obtain ⟨w, hw, heq⟩ := hl.votingPowerAt_eq voter p.snapshot
    rw [(h voter receipt hreceipt).2] at hw
    cases hw
    rw [← heq]
    show (if receipt.support = support then receipt.votes.toNat else 0) ≤ receipt.votes.toNat
    split
    · exact Nat.le_refl _
    · exact Nat.zero_le _

/-- **The votes of somebody who has not voted fit**, with all that was cast, because the power
of all accounts together fits. -/
theorem Weighed.cast_add_lt (h : p.Weighed l) (hl : l.Sound)
    (hnone : p.receipts.get? voter = none)
    (hvotes : l.votingPowerAt voter p.snapshot = .ok votes) (support : VoteSupport) :
    p.cast support + votes.toNat < Word.size 128 := by
  obtain ⟨w, hw, hpower⟩ := hl.votingPowerAt_eq voter p.snapshot
  rw [hvotes] at hw
  cases hw
  have hbefore := castBy_of_none hnone support
  -- the votes are put in the place of the voter, where nothing has been cast so far
  have hsum := sum_add_of_eq_off (i := voter) (g := p.castBy support)
    (f := fun other => if other = voter then votes.toNat else p.castBy support other)
    fun other hother => if_neg hother
  have hle : ∑ other, (if other = voter then votes.toNat else p.castBy support other)
      ≤ ∑ other, l.power other p.snapshot := by
    refine Finset.sum_le_sum fun other _ => ?_
    split
    · rename_i hother
      rw [hother, hpower]
    · exact h.castBy_le hl support other
  have hlt := hl.sum_power_lt p.snapshot
  rw [if_pos rfl, hbefore] at hsum
  rw [cast_eq]
  omega

/-- **No tally overflows** by a vote with the power of its voter. -/
theorem recordVote_ne_overflow (hl : l.Sound) (hcounted : p.Counted) (hweighed : p.Weighed l)
    (hvotes : l.votingPowerAt voter p.snapshot = .ok votes) (id : ProposalId) :
    p.recordVote voter support votes ≠ .error (.tallyOverflow id) := by
  intro h
  unfold recordVote at h
  split at h
  · cases h
  rename_i hvoted
  have hnone := hasVoted_eq_false.1 (show p.hasVoted voter = false by simpa using hvoted)
  have hfits := hweighed.cast_add_lt hl hnone hvotes support
  rw [← hcounted support] at hfits
  cases hsum : (p.tally support).add? votes with
  | none =>
    have hlarge := Word.ofNat?_eq_none_iff.1 hsum
    omega
  | some sum =>
    rw [hsum] at h
    cases h

end StakeGovernance.Proposal
