import StakeGovernance.Proofs.Past
import StakeGovernance.Proofs.Tables

/-!
# What counts for a proposal

A proposal is voted on with the power that accounts had one second before it was made. Once it has
been made, the clock is beyond that second, so nothing that follows can change it: neither what
any account has to vote with, nor which account a stake counts for, wherever its owner delegates
it to afterwards.

The second before has to exist. A proposal that is made at time zero is voted on with the power at
time zero itself, and there the ledger can still be written to: an account can vote with a stake,
delegate it, and have it voted with once more.

* `StakeGovernance.Ledger.countsFor` – the **one account** that a stake counts for at a point;
* `StakeGovernance.Ledger.Sound.amountAt_eq_sum` – what is attributed is what **counts for it**;
* `StakeGovernance.Run.snapshot_is_settled` – what counts for a proposal is **settled when it is
  made**, at any time but zero;
* `StakeGovernance.Run.snapshot_open_at_zero` – at time zero **it is not**.
-/

namespace StakeGovernance

/-! ### What a stake counts for -/

namespace Ledger

variable {l : Ledger} {owner delegatee : Address} {bucket point : Timestamp}

/-- **The account that a stake counts for** at a point: the delegate that its bucket names there. -/
def countsFor (l : Ledger) (point : Timestamp) (owner : Address) (bucket : Timestamp) : Address :=
  (((l.checkpoints? owner bucket).bind (·.valueAt point)).map (·.delegate)).getD owner

/-- A share of a stake that is read at a point is all of it or nothing. -/
theorem reading_share (l : Ledger) (delegatee owner : Address) (bucket point : Timestamp) :
    BucketLogs.reading (StakePoint.share delegatee) l.stakes owner bucket point
      = if l.countsFor point owner bucket = delegatee then (l.amountAt owner bucket point).toNat
        else 0 := by
  unfold countsFor amountAt checkpoints? BucketLogs.reading
  rw [BucketLogs.bind_log rfl]
  cases (BucketLogs.log l.stakes owner bucket).valueAt point with
  | none => exact (ite_self _).symm
  | some stake =>
    unfold StakePoint.share
    by_cases hsame : stake.delegate = delegatee
    · exact (if_pos hsame.symm).trans (if_pos hsame).symm
    · exact (if_neg (Ne.symm hsame)).trans (if_neg hsame).symm

/-- **What a delegatee is attributed** in a bucket at a point is the stakes of all owners that count
for it. -/
theorem Sound.amountAt_eq_sum (h : l.Sound) (delegatee : Address) (bucket point : Timestamp) :
    (l.delegation.amountAt delegatee bucket point).toNat
      = ∑ owner, if l.countsFor point owner bucket = delegatee
          then (l.amountAt owner bucket point).toNat else 0 := by
  rw [amountAt_eq, h.attributed]
  exact Finset.sum_congr rfl fun owner _ => l.reading_share delegatee owner bucket point

end Ledger

/-! ### Proposals -/

namespace Protocol

variable {ν : Type} [Custody ν] {p q : Protocol ν} {proposer : Address} {content : ProposalRequest}
  {now : Timestamp} {id : ProposalId}

theorem run_of_propose (h : propose proposer content now p = .ok id q) :
    (Operation.request (.propose proposer content) now).run p = .ok (.response (.proposed id)) q :=
  Call.bind_eq_ok.2 ⟨_, q, Call.bind_eq_ok.2 ⟨id, q, h, rfl⟩, rfl⟩

/-- **A proposal that has been made** is in the table with its snapshot, and the clock is at its
time. -/
theorem propose_eq_ok (hsound : p.state.ledger.Sound)
    (h : propose proposer content now p = .ok id q) :
    ∃ proposal, q.state.governor.get? id = some proposal ∧
      proposal.snapshot = now.monus (.ofNat 1) ∧ q.state.clock = now := by
  have hrun := run_of_propose h
  have ht := transition hsound (.request (.propose proposer content) now)
  unfold Transits at ht
  rw [Call.after_of_ok hrun, Call.runFrom, hrun] at ht
  cases ht with
  | idle hanswer => exact absurd rfl (hanswer _)
  | staking hrequest => exact hrequest.elim
  | @proposing _ _ _ draft _ hdraft henters =>
    have hfind : q.state.governor.get? draft.id = some draft := by
      rw [Governor.get?_of_silent henters.governor, Governor.get?_enter, if_pos rfl]
    obtain ⟨_, _, _, -, -, -, rfl⟩ := Governor.draft_eq_ok hdraft
    exact ⟨_, hfind, rfl, henters.ticks.after⟩

end Protocol

/-! ### Runs -/

namespace Run

variable {ν : Type} [Custody ν] {config : ProtocolConfig} {vault : ν} {steps : List (Step ν)}
  {p q : Protocol ν} {proposer : Address} {content : ProposalRequest} {now : Timestamp}
  {id : ProposalId}

/-- **What counts for a proposal is settled when it is made.** Take any state of a run in which a
proposal is made, at any time but zero. Its snapshot is the second before; and whatever operations
follow, whether they succeed or fail, every account has for that second the power that it had when
the proposal was made, and what it is attributed are the stakes that counted for it then, each of
which counts for one account only. -/
theorem snapshot_is_settled (h : Run config vault steps p)
    (hpropose : Protocol.propose proposer content now p = .ok id q) (hnow : 1 ≤ now.toNat) :
    ∃ proposal, q.state.governor.get? id = some proposal ∧
      proposal.snapshot.toNat + 1 = now.toNat ∧
      ∃ countsFor : Address → Timestamp → Address, ∀ operations,
        let before := q.state.ledger
        let after := (perform q operations).2.state.ledger
        (∀ account, after.votingPowerAt account proposal.snapshot
          = before.votingPowerAt account proposal.snapshot) ∧
        ∀ account bucket, (after.delegation.amountAt account bucket proposal.snapshot).toNat
          = ∑ owner, if countsFor owner bucket = account
              then (before.amountAt owner bucket proposal.snapshot).toNat else 0 := by
  obtain ⟨proposal, hfind, hsnapshot, hclock⟩ := Protocol.propose_eq_ok h.orderly.sound hpropose
  have hq := h.step (.request (.propose proposer content) now)
  rw [Call.after_of_ok (Protocol.run_of_propose hpropose)] at hq
  have hsecond : proposal.snapshot.toNat = now.toNat - 1 := by
    rw [hsnapshot]
    rfl
  have hpast : proposal.snapshot < q.state.clock := by
    rw [hclock, Word.lt_def, hsecond]
    omega
  refine ⟨proposal, hfind, by omega, q.state.ledger.countsFor proposal.snapshot,
    fun operations => ?_⟩
  have hsame := hq.samePast hpast operations
  refine ⟨hsame.power, fun account bucket => ?_⟩
  rw [hsame.attributed]
  exact hq.orderly.sound.amountAt_eq_sum account bucket proposal.snapshot

/-- In the small run, what the account has staked counts for it although it names a delegate at the
very time of its proposal: the delegate has nothing to vote with. -/
theorem snapshot_is_settled_sample :
    let p := (perform Sample.start (Sample.operations.take 1)).2
    let q := (Protocol.propose Sample.alice Sample.content (.ofNat 20)).after p
    let bob : Address := ⟨List.replicate 20 2, rfl⟩
    let r := (perform q [.request (.delegate Sample.alice bob) (.ofNat 20)]).2
    ∃ proposal, q.state.governor.get? (.ofNat 1) = some proposal ∧
      proposal.snapshot = .ofNat 19 ∧
      r.state.ledger.delegateOf Sample.alice = bob ∧
      r.state.ledger.votingPowerAt Sample.alice proposal.snapshot = .ok (.ofNat 1341) ∧
      r.state.ledger.votingPowerAt bob proposal.snapshot = .ok .zero := by
  intro p q bob r
  have hrun : Run Sample.config Sample.vault _ p :=
    (Run.create (by rfl)).perform_run (Sample.operations.take 1)
  have hpropose : Protocol.propose Sample.alice Sample.content (.ofNat 20) p
      = .ok (Word.ofNat 1) q := Call.eq_ok_of_runFrom (by decide +kernel)
  obtain ⟨proposal, hfind, hsecond, countsFor, hsettled⟩ :=
    hrun.snapshot_is_settled hpropose (by decide)
  have hsnapshot : proposal.snapshot = .ofNat 19 := Word.ext (Nat.succ.inj hsecond)
  obtain ⟨hpower, -⟩ := hsettled [.request (.delegate Sample.alice bob) (.ofNat 20)]
  refine ⟨proposal, hfind, hsnapshot, by decide +kernel, ?_⟩
  rw [hsnapshot] at hpower ⊢
  exact ⟨(hpower Sample.alice).trans (by decide +kernel), (hpower bob).trans (by decide +kernel)⟩

end Run

/-! ### Time zero -/

namespace Sample

/-- Settings without a delay of votes. -/
def promptConfig : ProtocolConfig :=
  { config with governor := { config.governor with votingDelay := .zero } }

/-- The new protocol with these settings. -/
def promptStart : Protocol Vault := (Protocol.create promptConfig vault).toOption.getD start

end Sample

/-- **At time zero nothing is settled.** An account stakes, makes a proposal and votes, names a
delegate, and the delegate votes as well, all at time zero: it had no power when the proposal was
made, and both votes count in full, with the same stake. -/
theorem Run.snapshot_open_at_zero :
    let alice := Sample.alice
    let bob : Address := ⟨List.replicate 20 2, rfl⟩
    let p := (perform Sample.promptStart
      [.request (.stake alice (Word.ofNat 1000) (.ofNat (100 * day)) alice) .zero]).2
    let q := (Protocol.propose alice Sample.content .zero).after p
    let r := (perform q [.request (.vote alice (.ofNat 1) .for) .zero,
      .request (.delegate alice bob) .zero, .request (.vote bob (.ofNat 1) .for) .zero]).2
    (∃ steps, Run Sample.promptConfig Sample.vault steps p) ∧
      Protocol.propose alice Sample.content .zero p = .ok (Word.ofNat 1) q ∧
      ∃ proposal, q.state.governor.get? (.ofNat 1) = some proposal ∧
        q.state.ledger.votingPowerAt alice proposal.snapshot = .ok (.ofNat 1341) ∧
        q.state.ledger.votingPowerAt bob proposal.snapshot = .ok .zero ∧
        r.state.ledger.votingPowerAt alice proposal.snapshot = .ok .zero ∧
        r.state.ledger.votingPowerAt bob proposal.snapshot = .ok (.ofNat 1341) ∧
        (r.state.governor.get? (.ofNat 1)).map (fun x => x.forVotes.toNat) = some 2682 := by
  intro alice bob p q r
  have hproposal : (q.state.governor.get? (.ofNat 1)).map (·.snapshot) = some .zero := by
    decide +kernel
  obtain ⟨proposal, hfind, hsnapshot⟩ := Option.map_eq_some_iff.1 hproposal
  refine ⟨⟨_, (Run.create (by rfl)).perform_run _⟩, Call.eq_ok_of_runFrom (by decide +kernel),
    proposal, hfind, ?_⟩
  rw [hsnapshot]
  decide +kernel

end StakeGovernance
