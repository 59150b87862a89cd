import StakeGovernance.Proofs.Maps
import StakeGovernance.Proofs.Orderly

/-!
# The table of proposals

A transition changes one proposal of the table at most: it makes one, enters a vote, or
queues, cancels or executes one. So whatever is found in the table was there before, or is
what one of these has made of what was there before.

* `StakeGovernance.Step.About` – a step **is about a proposal**;
* `StakeGovernance.Protocol.Origin` – where an entry of the table **comes from**;
* `StakeGovernance.Protocol.Transition.origin` – every entry **has an origin**.
-/

namespace StakeGovernance

/-! ### Lookups -/

namespace Governor

variable {g g' : Governor} {id : ProposalId} {p : Proposal}

theorem get?_put (g : Governor) (id j : ProposalId) (p : Proposal) :
    (g.put id p).get? j = if j = id then some p else g.get? j :=
  OrderedMap.get?_insert_eq g.proposals id j p

theorem get?_enter (g : Governor) (p : Proposal) (j : ProposalId) :
    (g.enter p).get? j = if j = p.id then some p else g.get? j :=
  OrderedMap.get?_insert_eq g.proposals p.id j p

theorem get?_of_silent (h : g'.silent = g.silent) (j : ProposalId) : g'.get? j = g.get? j := by
  show g'.silent.get? j = g.silent.get? j
  rw [h]

theorem nextId_of_silent (h : g'.silent = g.silent) : g'.nextId = g.nextId := by
  show g'.silent.nextId = g.silent.nextId
  rw [h]

theorem latest_of_silent (h : g'.silent = g.silent) : g'.latestByProposer = g.latestByProposer := by
  show g'.silent.latestByProposer = g.silent.latestByProposer
  rw [h]

theorem Reruled.get? (h : Reruled g g') (j : ProposalId) : g'.get? j = g.get? j := by
  unfold Governor.get?
  rw [h.proposals]

end Governor

/-! ### Steps about a proposal -/

namespace Step

variable {ν : Type} {s : Step ν} {id : ProposalId}

/-- The number of the proposal that a step made, if it made one. -/
def proposed? (s : Step ν) : Option ProposalId :=
  match s.operation, s.outcome with
  | .request (.propose _ _) _, .ok (.response (.proposed id)) => some id
  | _, _ => none

/-- **The number of the proposal that a step is about**: one that it made, queued, canceled or
executed. -/
def about? (s : Step ν) : Option ProposalId :=
  match s.operation, s.outcome with
  | .request (.propose _ _) _, .ok (.response (.proposed id)) => some id
  | .request (.queue id) _, .ok (.response (.queued _)) => some id
  | .request (.cancel _ id) _, .ok (.response .canceled) => some id
  | .request (.execute id) _, .ok (.response (.executed _)) => some id
  | _, _ => none

/-- **A step is about a proposal.** -/
def About (id : ProposalId) (s : Step ν) : Prop := s.about? = some id

/-- A step that is about no proposal made none. -/
theorem proposed?_of_about? (h : s.about? = none) : s.proposed? = none := by
  unfold about? at h
  unfold proposed?
  split
  · rename_i hop houtcome
    rw [hop, houtcome] at h
    cases h
  · rfl

theorem about?_of_idle (h : ∀ response, s.outcome ≠ .ok (.response response)) :
    s.about? = none := by
  unfold about?
  split
  iterate 4
    rename_i houtcome
    exact absurd houtcome (h _)
  rfl

theorem about?_of_staking {request : Request} {now : Timestamp} (h : request.MovesStakes)
    (hop : s.operation = .request request now) : s.about? = none := by
  unfold about?
  rw [hop]
  cases request with
  | stake | extend | withdraw | delegate => rfl
  | propose | vote | queue | execute | cancel | prune => exact h.elim

/-- An execution that is about a proposal was answered with a report. -/
theorem About.executed {now : Timestamp} (h : s.About id)
    (hop : s.operation = .request (.execute id) now) :
    ∃ report, s.Answered (.execute id) now (.executed report) := by
  unfold About about? at h
  rw [hop] at h
  split at h
  · cases ‹Operation.request _ _ = _›
  · cases ‹Operation.request _ _ = _›
  · cases ‹Operation.request _ _ = _›
  · rename_i report _ houtcome
    exact ⟨report, hop, houtcome⟩
  · cases h

end Step

/-! ### Origins -/

namespace Protocol

variable {ν : Type}

/-- **Where an entry of the table comes from** when an operation has been answered. -/
inductive Origin (p : Protocol ν) (id : ProposalId) :
    Operation → Except GovernanceError Outcome → Protocol ν → Proposal → Prop where
  /-- It was there before, and the operation was not about it. -/
  | kept {operation outcome q proposal} (hbefore : p.state.governor.get? id = some proposal)
    (habout : (Step.mk p operation outcome).about? ≠ some id) :
    Origin p id operation outcome q proposal
  | made {proposer content now q proposal} (hid : id = proposal.id)
    (hdraft : p.state.governor.draft p.state.ledger proposer content now = .ok proposal)
    (hticks : Ticks now p q) :
    Origin p id (.request (.propose proposer content) now)
      (.ok (.response (.proposed proposal.id))) q proposal
  | voted {before voter support now votes q proposal}
    (hbefore : p.state.governor.get? id = some before)
    (hactive : before.state now .zero = .active) (hzero : votes.toNat ≠ 0)
    (hpower : p.state.ledger.votingPowerAt voter before.snapshot = .ok votes)
    (hrecord : before.recordVote voter support votes = .ok proposal) :
    Origin p id (.request (.vote voter id support) now) (.ok (.response (.voted votes))) q proposal
  | queued {before now eta q} (hbefore : p.state.governor.get? id = some before)
    (hstate : p.state.council.stateOf before now = .succeeded)
    (heta : now.add? p.state.timelock.params.delay = some eta) :
    Origin p id (.request (.queue id) now) (.ok (.response (.queued eta))) q { before with eta }
  | canceled {before caller now q} (hbefore : p.state.governor.get? id = some before) :
    Origin p id (.request (.cancel caller id) now) (.ok (.response .canceled)) q
      { before with canceled := true }
  | executed {before now report q} (hbefore : p.state.governor.get? id = some before) :
    Origin p id (.request (.execute id) now) (.ok (.response (.executed report))) q
      { before with executed := true }

variable [Custody ν] {p q : Protocol ν} {operation : Operation}
  {outcome : Except GovernanceError Outcome} {id : ProposalId} {proposal : Proposal}

/-- **Every entry of the table has an origin.** -/
theorem Transition.origin (h : Transition p operation outcome q)
    (hfind : q.state.governor.get? id = some proposal) :
    Origin p id operation outcome q proposal := by
  cases h with
  | idle hanswer hsame _ =>
    rw [Governor.get?_of_silent hsame.governor] at hfind
    refine .kept hfind ?_
    rw [Step.about?_of_idle hanswer]
    exact fun habout => by cases habout
  | staking hrequest _ _ hgovernor =>
    rw [Governor.get?_of_silent hgovernor] at hfind
    refine .kept hfind ?_
    rw [Step.about?_of_staking hrequest rfl]
    exact fun habout => by cases habout
  | pruning henters =>
    rw [Governor.get?_of_silent henters.governor] at hfind
    exact .kept hfind fun habout => by cases habout
  | proposing hdraft henters =>
    rw [Governor.get?_of_silent henters.governor, Governor.get?_enter] at hfind
    split at hfind
    · rename_i hid
      cases hfind
      exact .made hid hdraft henters.ticks
    · rename_i hid
      exact .kept hfind fun habout => hid (Option.some.inj habout).symm
  | voting hballot henters =>
    obtain ⟨before, hbefore, hactive, -, hpower, hzero, hrecord⟩ := Governor.ballot_eq_ok hballot
    rw [Governor.get?_of_silent henters.governor, Governor.get?_put] at hfind
    split at hfind
    · rename_i hid
      cases hfind
      cases hid
      exact .voted hbefore hactive hzero (Checked.mapError_eq_ok.1 hpower) hrecord
    · exact .kept hfind fun habout => by cases habout
  | queueing hbefore hstate heta henters =>
    rw [Governor.get?_of_silent henters.governor, Governor.get?_put] at hfind
    split at hfind
    · rename_i hid
      cases hfind
      cases hid
      exact .queued hbefore hstate heta
    · rename_i hid
      exact .kept hfind fun habout => hid (Option.some.inj habout).symm
  | canceling hbefore _ henters =>
    rw [Governor.get?_of_silent henters.governor, Governor.get?_put] at hfind
    split at hfind
    · rename_i hid
      cases hfind
      cases hid
      exact .canceled hbefore
    · rename_i hid
      exact .kept hfind fun habout => hid (Option.some.inj habout).symm
  | executing hbefore _ _ _ _ _ hgovernor =>
    rw [hgovernor.get?, Governor.get?_put] at hfind
    split at hfind
    · rename_i hid
      cases hfind
      cases hid
      exact .executed hbefore
    · rename_i hid
      exact .kept hfind fun habout => hid (Option.some.inj habout).symm

end Protocol

end StakeGovernance
