import StakeGovernance.Proofs.Orderly
import StakeGovernance.Proofs.Tables
import StakeGovernance.Proofs.Tallies

/-!
# Votes in a run

Votes are cast with the power that an account had one second before the proposal was made.
That is in the past of the ledger whenever a vote is cast, and no later call changes the
past. So at any time of a run the receipts of a proposal show the power that the ledger
gives for its snapshot, the tallies are what the receipts come to, and no tally overflows.

* `StakeGovernance.Protocol.Fair` – the votes of a proposal **are as they should be**;
* `StakeGovernance.Run.fair` – they are so **in every state of a run**;
* `StakeGovernance.Run.votes_are_snapshot_power` – the same in full, for proposals that were
  not made at time zero.
-/

namespace StakeGovernance

/-! ### Ledgers without their reports -/

namespace Ledger

variable {l m : Ledger}

theorem votingPowerAt_of_silent (h : m.silent = l.silent) (account : Address) (point : Timestamp) :
    m.votingPowerAt account point = l.votingPowerAt account point := by
  show m.silent.votingPowerAt account point = l.silent.votingPowerAt account point
  rw [h]

end Ledger

namespace Protocol

variable {ν : Type} {config : ProtocolConfig} {p q : Protocol ν} {operation : Operation}
  {outcome : Except GovernanceError Outcome} {proposal voted : Proposal} {voter : Address}
  {support : VoteSupport} {votes : Power} {id : ProposalId}

/-! ### Fair votes -/

/-- **The votes of a proposal are as they should be.** What is said of power does not hold at
time zero, before which there is no second: there the ledger may still change. -/
structure Fair (p : Protocol ν) (proposal : Proposal) : Prop where
  created : proposal.createdAt ≤ p.state.clock
  snapshot : proposal.snapshot = proposal.createdAt.monus (.ofNat 1)
  counted : proposal.Counted
  weighed : 1 ≤ proposal.createdAt.toNat → proposal.Weighed p.state.ledger

theorem Fair.snapshot_lt (h : p.Fair proposal) (hcreated : 1 ≤ proposal.createdAt.toNat) :
    proposal.snapshot < p.state.clock := by
  have hclock : proposal.createdAt.toNat ≤ p.state.clock.toNat := h.created
  rw [h.snapshot]
  show proposal.createdAt.toNat - 1 < p.state.clock.toNat
  omega

/-- A new proposal has no votes. -/
theorem fair_draft {proposer : Address} {content : ProposalRequest} {now : Timestamp}
    (hdraft : p.state.governor.draft p.state.ledger proposer content now = .ok proposal)
    (hclock : q.state.clock = now) : q.Fair proposal := by
  obtain ⟨_, _, _, -, -, -, rfl⟩ := Governor.draft_eq_ok hdraft
  refine ⟨Nat.le_of_eq (congrArg Word.toNat hclock.symm), rfl, fun support => ?_, ?_⟩
  · cases support <;> rfl
  · intro _ voter receipt hreceipt
    cases hreceipt

/-- A vote with the power of its voter is fair. -/
theorem Fair.recordVote (h : p.Fair proposal)
    (hvote : proposal.recordVote voter support votes = .ok voted) (hzero : votes.toNat ≠ 0)
    (hpower : p.state.ledger.votingPowerAt voter proposal.snapshot = .ok votes) :
    p.Fair voted := by
  obtain ⟨-, -, hreceipts, hvoted⟩ := Proposal.recordVote_eq_ok hvote
  have hcreatedAt : voted.createdAt = proposal.createdAt := by rw [hvoted]
  have hsnapshot : voted.snapshot = proposal.snapshot := by rw [hvoted]
  refine ⟨hcreatedAt ▸ h.created, ?_, h.counted.recordVote hvote, ?_⟩
  · rw [hsnapshot, hcreatedAt, h.snapshot]
  · intro hcreated other receipt hother
    rw [hreceipts, OrderedMap.get?_insert_eq] at hother
    rw [hsnapshot]
    split at hother
    · rename_i hvoter
      cases hother
      rw [hvoter]
      exact ⟨hzero, hpower⟩
    · exact h.weighed (hcreatedAt ▸ hcreated) other receipt hother

/-! ### Transitions -/

variable [Custody ν]

/-- **No transition changes voting power before the time of the clock.** -/
theorem Transition.votingPowerAt (ht : Transition p operation outcome q) (h : p.Orderly config)
    {point : Timestamp} (hpoint : point < p.state.clock) (account : Address) :
    q.state.ledger.votingPowerAt account point = p.state.ledger.votingPowerAt account point := by
  rcases ht.ledger with hsilent | ⟨hclock, hadvances⟩
  · exact Ledger.votingPowerAt_of_silent hsilent account point
  · exact (h.sound.withEvents []).votingPowerAt_unchanged hadvances
      (Nat.lt_of_lt_of_le hpoint hclock) account

/-- Fair votes stay fair, whatever the ledger does. -/
theorem Fair.transition (h : p.Fair proposal) (ht : Transition p operation outcome q)
    (hp : p.Orderly config) : q.Fair proposal where
  created := Nat.le_trans h.created ht.ticks
  snapshot := h.snapshot
  counted := h.counted
  weighed hcreated voter receipt hreceipt := by
    obtain ⟨hzero, hpower⟩ := h.weighed hcreated voter receipt hreceipt
    exact ⟨hzero, (ht.votingPowerAt hp (h.snapshot_lt hcreated) voter).trans hpower⟩

/-- **Every transition keeps votes fair.** -/
theorem Transition.fair (ht : Transition p operation outcome q) (hp : p.Orderly config)
    (h : ∀ id proposal, p.state.governor.get? id = some proposal → p.Fair proposal)
    (hfind : q.state.governor.get? id = some proposal) : q.Fair proposal := by
  cases ht.origin hfind with
  | kept hbefore => exact (h id proposal hbefore).transition ht hp
  | made _ hdraft hticks => exact fair_draft hdraft hticks.after
  | voted hbefore _ hzero hpower hrecord =>
    -- the power is that of the ledger before the vote, and the snapshot is in its past
    exact ((h id _ hbefore).recordVote hrecord hzero hpower).transition ht hp
  | queued hbefore | canceled hbefore | executed hbefore =>
    have hfair := (h id _ hbefore).transition ht hp
    exact ⟨hfair.created, hfair.snapshot, hfair.counted, hfair.weighed⟩

/-! ### Overflow -/

/-- A ballot can overflow only where the vote is entered, with the power of its voter. -/
theorem ballot_eq_overflow {g : Governor} {l : Ledger} {now : Timestamp} {other : ProposalId}
    (h : g.ballot l voter id support now = .error (.tallyOverflow other)) :
    ∃ proposal votes, g.get? id = some proposal ∧
      l.votingPowerAt voter proposal.snapshot = .ok votes ∧
      proposal.recordVote voter support votes = .error (.tallyOverflow other) := by
  -- the other parts of a ballot fail as well, but with errors of their own
  rcases Checked.bind_eq_error.1 h with hfind | ⟨proposal, hfind, hrest⟩
  · unfold Governor.find at hfind
    split at hfind <;> cases hfind
  rcases Checked.bind_eq_error.1 hrest with hopen | ⟨_, -, hrest⟩
  · unfold Governor.checkVoting at hopen
    simp only at hopen
    split at hopen
    · cases hopen
    · split at hopen <;> cases hopen
  rcases Checked.refuse_eq_error.1 hrest with ⟨-, hvoted⟩ | ⟨-, hrest⟩
  · cases hvoted
  rcases Checked.bind_eq_error.1 hrest with hpower | ⟨votes, hpower, hrest⟩
  · unfold Ledger.powerOf at hpower
    cases hat : l.votingPowerAt voter proposal.snapshot <;> rw [hat] at hpower <;> cases hpower
  rcases Checked.refuse_eq_error.1 hrest with ⟨-, hzero⟩ | ⟨-, hrest⟩
  · cases hzero
  rcases Checked.bind_eq_error.1 hrest with hrecord | ⟨_, -, hpure⟩
  · exact ⟨proposal, votes, Governor.find_eq_ok.1 hfind, Checked.mapError_eq_ok.1 hpower, hrecord⟩
  · cases hpure

/-- A request to vote that is answered by an overflow is one whose ballot overflows. -/
theorem ballot_of_vote_eq_overflow {now : Timestamp} {other : ProposalId}
    (h : ((Operation.request (.vote voter id support) now).run.runFrom p).1
      = .error (.tallyOverflow other)) :
    p.state.governor.ballot p.state.ledger voter id support now
      = .error (.tallyOverflow other) := by
  unfold Call.runFrom at h
  cases hrun : (Operation.request (.vote voter id support) now).run p with
  | ok a q =>
    rw [hrun] at h
    cases h
  | error e q =>
    rw [hrun] at h
    cases h
    rcases Call.bind_eq_error.1 hrun with hrequest | ⟨_, _, -, hpure⟩
    · rcases Call.bind_eq_error.1 hrequest with hcall | ⟨_, _, -, hpure⟩
      · rcases timed_eq_error hcall with ⟨hclock, -⟩ | hsettled
        · cases hclock
        obtain ⟨r, hvote, -⟩ := settled_eq_error.1 (Call.get_bind_eq_error.1 hsettled)
        obtain ⟨g, hg, -⟩ := onGovernor_eq_error hvote
        exact (Governor.castVote_eq_error hg).2
      · exact absurd hpure Call.pure_ne_error
    · exact absurd hpure Call.pure_ne_error

end Protocol

/-! ### Runs -/

namespace Run

variable {ν : Type} [Custody ν] {config : ProtocolConfig} {vault : ν} {steps : List (Step ν)}
  {p : Protocol ν} {id : ProposalId} {proposal : Proposal}

/-- **Votes are fair in every state of a run.** -/
theorem fair (h : Run config vault steps p) (hfind : p.state.governor.get? id = some proposal) :
    p.Fair proposal := by
  refine h.invariant (P := fun _ p => ∀ id proposal,
    p.state.governor.get? id = some proposal → p.Fair proposal) (fun p hp => ?_)
    (fun _ _ _ _ _ _ hp ht ih id proposal => ht.fair hp ih) id proposal hfind
  obtain ⟨rfl, -⟩ := Protocol.create_eq_ok hp
  intro id proposal hfind
  cases hfind

/-- **Votes are snapshot power, once each.** In every state of a run, for every proposal that
was not made at time zero: the three tallies are what the receipts of their kind come to; each
receipt, of which an account has one at most, shows some power, and the power that the ledger
gives the account for the snapshot *now*; and no vote with that power would overflow a tally,
so that no request to vote is answered so. -/
theorem votes_are_snapshot_power (h : Run config vault steps p)
    (hfind : p.state.governor.get? id = some proposal) (hcreated : 1 ≤ proposal.createdAt.toNat) :
    proposal.forVotes.toNat = proposal.cast .for ∧
      proposal.againstVotes.toNat = proposal.cast .against ∧
      proposal.abstainVotes.toNat = proposal.cast .abstain ∧
      (∀ voter receipt, proposal.receipts.get? voter = some receipt →
        receipt.votes.toNat ≠ 0 ∧
          p.state.ledger.votingPowerAt voter proposal.snapshot = .ok receipt.votes) ∧
      (∀ voter support votes other,
        p.state.ledger.votingPowerAt voter proposal.snapshot = .ok votes →
          proposal.recordVote voter support votes ≠ .error (.tallyOverflow other)) ∧
      ∀ voter support now other,
        ((Operation.request (.vote voter id support) now).run.runFrom p).1
          ≠ .error (.tallyOverflow other) := by
  have hfair := h.fair hfind
  have hrecord : ∀ voter support votes other,
      p.state.ledger.votingPowerAt voter proposal.snapshot = .ok votes →
        proposal.recordVote voter support votes ≠ .error (.tallyOverflow other) :=
    fun voter support votes other hvotes => Proposal.recordVote_ne_overflow h.orderly.sound
      hfair.counted (hfair.weighed hcreated) hvotes other
  refine ⟨hfair.counted .for, hfair.counted .against, hfair.counted .abstain,
    hfair.weighed hcreated, hrecord, fun voter support now other hanswer => ?_⟩
  obtain ⟨found, votes, hfound, hvotes, hoverflow⟩ :=
    Protocol.ballot_eq_overflow (Protocol.ballot_of_vote_eq_overflow hanswer)
  cases hfind.symm.trans hfound
  exact hrecord voter support votes other hvotes hoverflow

/-- In the small run, one vote with the power of a thousand tokens is for the proposal. -/
theorem votes_are_snapshot_power_sample :
    let p := (Run.perform Sample.start Sample.operations).2
    ∃ proposal, p.state.governor.get? (.ofNat 1) = some proposal ∧
      proposal.createdAt.toNat = 20 ∧ proposal.forVotes.toNat = 1341 ∧
      proposal.cast .for = 1341 := by
  intro p
  have hproposal : (p.state.governor.get? (.ofNat 1)).map
      (fun x => (x.createdAt.toNat, x.forVotes.toNat)) = some (20, 1341) := by decide +kernel
  obtain ⟨proposal, hfind, hvalues⟩ := Option.map_eq_some_iff.1 hproposal
  obtain ⟨hcreated, hfor⟩ := Prod.mk.inj hvalues
  have hcounted := (votes_are_snapshot_power Sample.run hfind (by omega)).1
  exact ⟨proposal, hfind, hcreated, hfor, by omega⟩

end Run

end StakeGovernance
