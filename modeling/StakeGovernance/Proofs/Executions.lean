import StakeGovernance.Proofs.Numbers
import StakeGovernance.Proofs.States

/-!
# What comes before an execution

A proposal that is executed was made, was queued once after its vote had ended and passed,
and was neither canceled nor executed before. This is read off the table: as long as a
proposal in it is neither canceled nor executed, the run tells how it came there, and its
time of execution tells whether it was queued. The state of a proposal is derived from the
record and the time, and nothing but the execution time distinguishes the two.

* `StakeGovernance.Step.Makes`, `StakeGovernance.Step.Queues` – what holds **when a proposal
  is made** and **when it is queued**;
* `StakeGovernance.Told` – the **course of a proposal** in a run;
* `StakeGovernance.Run.told` – the course of **every open proposal**;
* `StakeGovernance.Run.queued_once_of_executed` – what comes before **an execution**.
-/

namespace StakeGovernance

variable {ν : Type} {config : ProtocolConfig} {steps early late : List (Step ν)}
  {s : Step ν} {id : ProposalId} {proposal voted : Proposal}

/-! ### Making and queueing -/

namespace Step

/-- **A step makes a proposal**, with the times and the quorum of the rules of the day. -/
structure Makes (s : Step ν) (id : ProposalId) (proposal : Proposal) : Prop where
  answered : ∃ proposer content,
    s.Answered (.propose proposer content) proposal.createdAt (.proposed id)
  start : proposal.start.toNat
    = proposal.createdAt.toNat + s.before.state.governor.params.votingDelay.toNat
  finish : proposal.finish.toNat
    = proposal.start.toNat + s.before.state.governor.params.votingPeriod.toNat
  quorum : proposal.quorumVotes = s.before.state.governor.params.quorumVotes

/-- **A step queues a proposal**: the vote has ended with a majority and the quorum, and the
time of execution lies within the bounds of the delay. -/
structure Queues (config : ProtocolConfig) (s : Step ν) (id : ProposalId) (proposal : Proposal)
    (now : Timestamp) : Prop where
  answered : s.Answered (.queue id) now (.queued proposal.eta)
  passed : ∃ voted, s.before.state.governor.get? id = some voted ∧
    voted.againstVotes < voted.forVotes ∧ proposal.quorumVotes ≤ voted.forVotes
  ended : proposal.finish < now
  earliest : now.toNat + config.timelock.minDelay.toNat ≤ proposal.eta.toNat
  latest : proposal.eta.toNat ≤ now.toNat + config.timelock.maxDelay.toNat

end Step

/-! ### The course of a proposal -/

/-- **The course of a proposal** that is neither canceled nor executed: it was made and
nothing is about it since, or it was made, queued, and nothing else is about it since. -/
inductive Told (config : ProtocolConfig) (steps : List (Step ν)) (id : ProposalId)
    (proposal : Proposal) : Prop where
  | made (early : List (Step ν)) (made : Step ν) (late : List (Step ν))
    (hsteps : steps = early ++ made :: late) (hmade : made.Makes id proposal)
    (hlate : ∀ s ∈ late, ¬ s.About id) (heta : proposal.eta.toNat = 0)
  | queued (early : List (Step ν)) (made : Step ν) (middle : List (Step ν)) (queued : Step ν)
    (late : List (Step ν)) (now : Timestamp)
    (hsteps : steps = early ++ made :: (middle ++ queued :: late))
    (hmade : made.Makes id proposal) (hqueued : queued.Queues config id proposal now)
    (hothers : ∀ s ∈ middle ++ late, ¬ s.About id) (heta : proposal.eta.toNat ≠ 0)

/-- A step that is not about a proposal does not change its course. -/
theorem Told.append (h : Told config steps id proposal) (hs : ¬ s.About id) :
    Told config (steps ++ [s]) id proposal := by
  have hmore : ∀ {rs : List (Step ν)}, (∀ r ∈ rs, ¬ r.About id) →
      ∀ r ∈ rs ++ [s], ¬ r.About id := by
    intro rs hrs r hr
    rcases List.mem_append.1 hr with hr | hr
    · exact hrs r hr
    · rw [List.mem_singleton.1 hr]
      exact hs
  rcases h with ⟨early, made, late, rfl, hmade, hlate, heta⟩ |
    ⟨early, made, middle, queued, late, now, rfl, hmade, hqueued, hothers, heta⟩
  · refine .made early made (late ++ [s]) ?_ hmade (hmore hlate) heta
    rw [List.append_assoc]
    rfl
  · refine .queued early made middle queued (late ++ [s]) now ?_ hmade hqueued ?_ heta
    · simp
    · rw [← List.append_assoc]
      exact hmore hothers

/-- Votes do not change the course of a proposal. -/
theorem Told.recordVote {voter : Address} {support : VoteSupport} {votes : Power}
    (h : Told config steps id proposal)
    (hvote : proposal.recordVote voter support votes = .ok voted) :
    Told config steps id voted := by
  have hframe : voted.createdAt = proposal.createdAt ∧ voted.start = proposal.start ∧
      voted.finish = proposal.finish ∧ voted.quorumVotes = proposal.quorumVotes ∧
      voted.eta = proposal.eta := by
    obtain ⟨-, -, -, hvoted⟩ := Proposal.recordVote_eq_ok hvote
    rw [hvoted]
    exact ⟨rfl, rfl, rfl, rfl, rfl⟩
  obtain ⟨hcreated, hstart, hfinish, hquorum, heta'⟩ := hframe
  have hmakes : ∀ {made : Step ν}, made.Makes id proposal → made.Makes id voted := by
    rintro made ⟨hanswered, hs, hf, hq⟩
    constructor
    · rwa [hcreated]
    · rwa [hstart, hcreated]
    · rwa [hfinish, hstart]
    · rwa [hquorum]
  rcases h with ⟨early, made, late, rfl, hmade, hlate, heta⟩ |
    ⟨early, made, middle, queued, late, now, rfl, hmade, hqueued, hothers, heta⟩
  · exact .made early made late rfl (hmakes hmade) hlate (heta' ▸ heta)
  · refine .queued early made middle queued late now rfl (hmakes hmade) ?_ hothers (heta' ▸ heta)
    obtain ⟨hanswered, hpassed, hended, hearliest, hlatest⟩ := hqueued
    constructor
    · rwa [heta']
    · rwa [hquorum]
    · rwa [hfinish]
    · rwa [heta']
    · rwa [heta']

/-! ### Open proposals -/

/-- A new proposal has a course that begins with the step that made it. -/
theorem Told.of_draft {p : Protocol ν} {proposer : Address} {content : ProposalRequest}
    {now : Timestamp}
    (hdraft : p.state.governor.draft p.state.ledger proposer content now = .ok proposal) :
    Told config (steps ++ [⟨p, .request (.propose proposer content) now,
      .ok (.response (.proposed proposal.id))⟩]) proposal.id proposal := by
  obtain ⟨actions, start, finish, -, hstart, hfinish, rfl⟩ := Governor.draft_eq_ok hdraft
  exact .made steps _ [] rfl ⟨⟨proposer, content, rfl, rfl⟩, hstart, hfinish, rfl⟩
    (fun s hs => by cases hs) rfl

/-- A proposal that is queued goes on in its course by being queued. -/
theorem Told.of_queue {p : Protocol ν} {now eta : Timestamp} (horderly : p.Orderly config)
    (h : Told config steps id proposal) (hfind : p.state.governor.get? id = some proposal)
    (hstate : p.state.council.stateOf proposal now = .succeeded)
    (heta : now.add? p.state.timelock.params.delay = some eta) :
    Told config (steps ++ [⟨p, .request (.queue id) now, .ok (.response (.queued eta))⟩]) id
      { proposal with eta } := by
  obtain ⟨-, hended, hpassed, hzero⟩ := Proposal.of_succeeded hstate
  have heta := Word.add?_eq_some_iff.1 heta
  obtain ⟨hmin, hmax⟩ := Protocol.delay_bounds horderly.delays
  rw [Word.le_def, horderly.minDelay] at hmin
  rw [Word.le_def, horderly.maxDelay] at hmax
  rcases h with ⟨early, made, late, rfl, hmade, hlate, -⟩ | ⟨_, _, _, _, _, _, -, -, -, -, hqueued⟩
  · refine .queued early made late ⟨p, .request (.queue id) now, .ok (.response (.queued eta))⟩ []
      now (by simp) ⟨hmade.1, hmade.2, hmade.3, hmade.4⟩
      ⟨⟨rfl, rfl⟩, ⟨proposal, hfind, Proposal.passed_iff.1 hpassed⟩, hended, ?_, ?_⟩ ?_ ?_
    · show _ ≤ eta.toNat
      omega
    · show eta.toNat ≤ _
      omega
    · rwa [List.append_nil]
    · -- zero stands for no time of execution, but the vote has ended before it
      have hended : proposal.finish.toNat < now.toNat := hended
      show eta.toNat ≠ 0
      omega
  · exact absurd hzero hqueued

variable [Custody ν] {vault : ν} {p : Protocol ν}

/-- **The run tells the course of every open proposal** of the table. -/
theorem Run.told (h : Run config vault steps p) :
    ∀ id proposal, p.state.governor.get? id = some proposal → proposal.Unsettled →
      Told config steps id proposal := by
  refine h.invariant (P := fun steps p => ∀ id proposal,
    p.state.governor.get? id = some proposal → proposal.Unsettled → Told config steps id proposal)
    (fun p hp => ?_) fun steps p operation outcome q _ horderly ht ih id proposal hfind hopen => ?_
  · obtain ⟨rfl, -⟩ := Protocol.create_eq_ok hp
    intro id proposal hfind
    cases hfind
  -- the course goes on by one step, which the origin of the entry tells
  cases ht.origin hfind with
  | kept hbefore habout => exact (ih id proposal hbefore hopen).append habout
  | made hid hdraft =>
    rw [hid]
    exact .of_draft hdraft
  | voted hbefore hactive _ _ hrecord =>
    have hunsettled := Proposal.unsettled_of_state hactive rfl
    exact ((ih id _ hbefore hunsettled).append fun habout => by cases habout).recordVote hrecord
  | queued hbefore hstate heta =>
    have hunsettled := Proposal.unsettled_of_state hstate rfl
    exact .of_queue horderly (ih id _ hbefore hunsettled) hbefore hstate heta
  | canceled => cases hopen.1
  | executed => cases hopen.2

/-! ### Executions -/

/-- A time of execution that is due, and not too late. -/
theorem eta_le_of_checkDue {t : Timelock} {eta now : Timestamp} (h : t.checkDue eta now = .ok ()) :
    eta ≤ now := (Timelock.checkDue_eq_ok.1 h).1

/-- **What comes before an execution.** Whenever a proposal is executed in a run, the steps
before tell its whole course: it was made, later it was queued once, and nothing else was
ever about it, so that it was not canceled and not executed before. It was queued after its
vote had ended with a majority and with the quorum that was in force when it was made, for
a time within the bounds of the delay, and it is executed not before that time and not
after the grace period. So its actions, which are carried out one by one in this step, are
carried out neither twice, nor after a cancellation, nor before the delay and the period of
voting of then and the shortest delay have passed. Numbers are words: what is said of the
time before the proposal was made holds as long as not more proposals were made than there
are numbers. -/
theorem Run.queued_once_of_executed {now : Timestamp} {report : ExecutionReport}
    (h : Run config vault (early ++ s :: late) p)
    (hexecuted : s.Answered (.execute id) now (.executed report)) :
    ∃ proposal first made middle queued last time,
      s.before.state.governor.get? id = some proposal ∧
      early = first ++ made :: (middle ++ queued :: last) ∧
      made.Makes id proposal ∧ queued.Queues config id proposal time ∧
      (∀ r ∈ middle ++ last, ¬ r.About id) ∧
      ((early.filterMap Step.proposed?).length ≤ Word.size 64 → ∀ r ∈ first, ¬ r.About id) ∧
      proposal.eta ≤ now ∧ now ≤ proposal.eta.addSat config.timelock.gracePeriod ∧
      proposal.createdAt.toNat + made.before.state.governor.params.votingDelay.toNat
        + made.before.state.governor.params.votingPeriod.toNat
        + config.timelock.minDelay.toNat ≤ now.toNat ∧
      report.proposalId = id ∧ report.eta = proposal.eta ∧
      report.receipts.map (fun r => (r.hash, r.target, r.signature))
        = proposal.actions.map fun action =>
          (action.hash proposal.eta, action.target, action.signature) := by
  obtain ⟨hop, houtcome⟩ := hexecuted
  obtain ⟨hrun, -⟩ := h.of_append
  have ht := h.transition_of_append
  rw [hop, houtcome] at ht
  cases ht with
  | idle hanswer _ _ => exact absurd rfl (hanswer _)
  | staking hrequest _ _ _ _ _ => exact hrequest.elim
  | @executing _ _ proposal receipts _ hfind hstate hdue _ hreceipts _ _ _ _ =>
    have hspec := proposal.state_spec now s.before.state.council.timelock.params.gracePeriod
    rw [show proposal.state now _ = .queued from hstate] at hspec
    obtain ⟨hopen, -, -, hqueued, hgrace⟩ := hspec
    have hgrace : now ≤ proposal.eta.addSat config.timelock.gracePeriod :=
      hrun.orderly.gracePeriod ▸ hgrace
    have hearliest := eta_le_of_checkDue hdue
    -- it has a time of execution, so its course is not one that has only been made
    rcases hrun.told id proposal hfind hopen with ⟨_, _, _, -, -, -, hzero⟩ |
      ⟨first, made, middle, queued, last, time, hsteps, hmakes, hqueues, hothers, -⟩
    · exact absurd hzero hqueued
    refine ⟨proposal, first, made, middle, queued, last, time, hfind, hsteps, hmakes, hqueues,
      hothers, fun hfew => ?_, hearliest, hgrace, ?_, rfl, rfl, hreceipts⟩
    · obtain ⟨_, _, hproposed, hmade⟩ := hmakes.answered
      rw [hsteps] at hrun hfew
      refine hrun.not_about_of_made ?_ hfew
      unfold Step.proposed?
      rw [hproposed, hmade]
    · have hstart := hmakes.start
      have hfinish := hmakes.finish
      have hended : proposal.finish.toNat < time.toNat := hqueues.ended
      have heta := hqueues.earliest
      have hearliest : proposal.eta.toNat ≤ now.toNat := hearliest
      omega

/-- The proposal of the small run is executed, and its course is one that was queued once. -/
theorem Run.queued_once_of_executed_sample :
    let before := (Run.perform Sample.start Sample.operations).1
    let s := Step.take (Run.perform Sample.start Sample.operations).2 Sample.execution
    ∃ report, s.Answered (.execute (.ofNat 1)) (.ofNat 150) (.executed report) ∧
      ∃ first made middle queued last, before = first ++ made :: (middle ++ queued :: last) ∧
        ∀ r ∈ first ++ (middle ++ last), ¬ r.About (.ofNat 1) := by
  intro before s
  have habout : s.about? = some (.ofNat 1) := by decide +kernel
  obtain ⟨report, hanswered⟩ := Step.About.executed habout rfl
  obtain ⟨_, first, made, middle, queued, last, _, -, hbefore, -, -, hothers, hfirst, -⟩ :=
    Run.queued_once_of_executed (Sample.run.step Sample.execution) hanswered
  refine ⟨report, hanswered, first, made, middle, queued, last, hbefore, fun r hr => ?_⟩
  rcases List.mem_append.1 hr with hr | hr
  · exact hfirst (by decide +kernel) r hr
  · exact hothers r hr

end StakeGovernance
