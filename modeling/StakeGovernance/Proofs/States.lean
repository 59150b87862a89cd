import StakeGovernance.Proposal.Record

/-!
# Reading the state of a proposal

The state of a proposal follows from the record and the time, so that everything there is
to know about a proposal in some state is read off the record.

* `StakeGovernance.Proposal.Unsettled` – neither **canceled** nor **executed**;
* `StakeGovernance.Proposal.state_spec` – what the **state** says about the record;
* `StakeGovernance.Proposal.recordVote_eq_ok` – what a **vote** makes of it.
-/

namespace StakeGovernance.Proposal

/-- A proposal that is neither canceled nor executed. -/
def Unsettled (p : Proposal) : Prop := p.canceled = false ∧ p.executed = false

/-- A majority and the quorum, in numbers. -/
theorem passed_iff {p : Proposal} :
    p.passed = true ↔ p.againstVotes < p.forVotes ∧ p.quorumVotes ≤ p.forVotes := by
  simp [Proposal.passed]

/-- **What the state says about the record.** -/
theorem state_spec (p : Proposal) (now grace : Timestamp) :
    match p.state now grace with
    | .canceled => p.canceled = true
    | .executed => p.executed = true
    | .pending => p.Unsettled ∧ now < p.start
    | .active => p.Unsettled ∧ p.start ≤ now ∧ now ≤ p.finish
    | .defeated => p.Unsettled ∧ p.finish < now ∧ p.passed = false
    | .succeeded => p.Unsettled ∧ p.finish < now ∧ p.passed = true ∧ p.eta.toNat = 0
    | .expired => p.Unsettled ∧ p.finish < now ∧ p.passed = true ∧ p.eta.toNat ≠ 0 ∧
        p.eta.addSat grace < now
    | .queued => p.Unsettled ∧ p.finish < now ∧ p.passed = true ∧ p.eta.toNat ≠ 0 ∧
        now ≤ p.eta.addSat grace := by
  unfold Proposal.state
  -- one case for each question, in the order in which they are asked
  by_cases hcanceled : p.canceled = true
  · rwa [if_pos hcanceled]
  by_cases hexecuted : p.executed = true
  · rwa [if_neg hcanceled, if_pos hexecuted]
  have hopen : p.Unsettled := ⟨by simpa using hcanceled, by simpa using hexecuted⟩
  rw [if_neg hcanceled, if_neg hexecuted]
  by_cases hstart : now < p.start
  · rw [if_pos hstart]
    exact ⟨hopen, hstart⟩
  by_cases hfinish : now ≤ p.finish
  · rw [if_neg hstart, if_pos hfinish]
    exact ⟨hopen, Nat.le_of_not_lt hstart, hfinish⟩
  have hended : p.finish < now := Nat.lt_of_not_le hfinish
  rw [if_neg hstart, if_neg hfinish]
  cases hpassed : p.passed with
  | false => exact ⟨hopen, hended, rfl⟩
  | true =>
    by_cases heta : p.eta.isZero = true
    · rw [if_neg (by simp), if_pos heta]
      exact ⟨hopen, hended, rfl, Word.isZero_iff.1 heta⟩
    have hqueued : p.eta.toNat ≠ 0 := fun h => heta (Word.isZero_iff.2 h)
    rw [if_neg (by simp), if_neg heta]
    by_cases hlate : p.eta.addSat grace < now
    · rw [if_pos hlate]
      exact ⟨hopen, hended, rfl, hqueued, hlate⟩
    · rw [if_neg hlate]
      exact ⟨hopen, hended, rfl, hqueued, Nat.le_of_not_lt hlate⟩

/-- **A proposal that has succeeded** has passed its vote, and has no time of execution yet. -/
theorem of_succeeded {p : Proposal} {now grace : Timestamp} (h : p.state now grace = .succeeded) :
    p.Unsettled ∧ p.finish < now ∧ p.passed = true ∧ p.eta.toNat = 0 := by
  have hspec := p.state_spec now grace
  rwa [h] at hspec

/-- **A proposal that is queued** has a time of execution, and it is not too late for it. -/
theorem of_queued {p : Proposal} {now grace : Timestamp} (h : p.state now grace = .queued) :
    p.Unsettled ∧ p.finish < now ∧ p.passed = true ∧ p.eta.toNat ≠ 0 ∧
      now ≤ p.eta.addSat grace := by
  have hspec := p.state_spec now grace
  rwa [h] at hspec

/-- A proposal in a state that something can follow is not settled. -/
theorem unsettled_of_state {p : Proposal} {now grace : Timestamp} {state : ProposalState}
    (h : p.state now grace = state) (hopen : state.isTerminal = false) : p.Unsettled := by
  have hstate := p.state_spec now grace
  rw [h] at hstate
  cases state with
  | canceled | executed => cases hopen
  | pending | active | defeated | succeeded | expired | queued => exact hstate.1

/-! ### Votes -/

theorem hasVoted_eq_false {p : Proposal} {voter : Address} :
    p.hasVoted voter = false ↔ p.receipts.get? voter = none := by
  unfold hasVoted OrderedMap.contains
  cases p.receipts.get? voter <;> simp

theorem tally_setTally (p : Proposal) (support kind : VoteSupport) (sum : Power) :
    (p.setTally support sum).tally kind = if kind = support then sum else p.tally kind := by
  cases support <;> cases kind <;> rfl

/-- **A vote that was entered** is the first of its voter. It adds to its tally and has a
receipt, and the proposal is as before otherwise. -/
theorem recordVote_eq_ok {p q : Proposal} {voter : Address} {support : VoteSupport}
    {votes : Power} (h : p.recordVote voter support votes = .ok q) :
    p.receipts.get? voter = none ∧
      (∀ kind, (q.tally kind).toNat
        = (p.tally kind).toNat + if kind = support then votes.toNat else 0) ∧
      q.receipts = p.receipts.insert voter ⟨support, votes⟩ ∧
      q = { p with
        forVotes := q.forVotes
        againstVotes := q.againstVotes
        abstainVotes := q.abstainVotes
        receipts := q.receipts } := by
  unfold recordVote at h
  split at h
  · cases h
  rename_i hvoted
  cases hsum : (p.tally support).add? votes with
  | none => simp [hsum] at h
  | some sum =>
    simp only [hsum, Except.ok.injEq] at h
    subst h
    have hsum := Word.add?_eq_some_iff.1 hsum
    refine ⟨hasVoted_eq_false.1 (by simpa using hvoted), fun kind => ?_, rfl, ?_⟩
    · show ((p.setTally support sum).tally kind).toNat = _
      rw [tally_setTally]
      split
      · rename_i hkind
        rw [hkind, hsum]
      · rfl
    · cases support <;> rfl

end StakeGovernance.Proposal
