import Mathlib.Logic.Relation
import StakeGovernance.Proofs.Numbers
import StakeGovernance.Proofs.Agreement

/-!
# The life of a proposal

The state of a proposal is not written down. It is worked out each time from the flags, the
tallies, the time of execution and the clock, so nothing in the record says that it cannot go
back. It cannot, for two reasons. As time passes alone, the questions are answered one way first
and the other way from some time on, and always in the same order. And a call changes a proposal
only in a state in which it leads on to the next one; changed rules and delays do not reach a
proposal that was made before, because it keeps its own times and its own quorum.

* `StakeGovernance.ProposalState.Next` – the **seven kinds of steps** between states, and
  `StakeGovernance.ProposalState.Leads`, what they lead to;
* `StakeGovernance.Proposal.leads_of_le` – **time alone** leads forward;
* `StakeGovernance.Proposal.Evolves` – what **a call** makes of a proposal, which leads forward
  as well (`StakeGovernance.Proposal.Evolves.leads`);
* `StakeGovernance.Protocol.Transition.alters` – no operation does **anything else** to a
  proposal of the table;
* `StakeGovernance.Run.lifecycle_moves_forward` – over any operations a proposal **moves
  forward only**, and its terms stay what they were.
-/

namespace StakeGovernance

/-! ### Steps between states -/

namespace ProposalState

/-- **The steps between states.** -/
inductive Next : ProposalState → ProposalState → Prop where
  | opens : Next pending active
  | succeeds : Next active succeeded
  | fails : Next active defeated
  | queues : Next succeeded queued
  | executes : Next queued executed
  | expires : Next queued expired
  /-- Whatever is not settled can be canceled. -/
  | cancels {s : ProposalState} (h : s.isTerminal = false) : Next s canceled

/-- **A state leads to another** by any number of steps. -/
def Leads : ProposalState → ProposalState → Prop := Relation.ReflTransGen Next

variable {s s' s'' : ProposalState}

theorem Leads.refl (s : ProposalState) : s.Leads s := Relation.ReflTransGen.refl

theorem Next.leads (h : Next s s') : s.Leads s' := Relation.ReflTransGen.single h

theorem Leads.trans (h : s.Leads s') (h' : s'.Leads s'') : s.Leads s'' :=
  Relation.ReflTransGen.trans h h'

/-- **A settled state absorbs**: it leads to itself only. -/
theorem Leads.eq_of_isTerminal (h : s.Leads s') (hs : s.isTerminal = true) : s' = s := by
  rcases Relation.ReflTransGen.cases_head h with heq | ⟨next, hnext, -⟩
  · exact heq.symm
  · cases hnext with
    | cancels hopen => cases hopen.symm.trans hs
    | opens | succeeds | fails | queues | executes | expires => cases hs

end ProposalState

/-! ### Time alone -/

namespace Proposal

open ProposalState

variable {p q : Proposal} {t t' now grace : Timestamp}

/-- What becomes of a proposal when its vote has ended. -/
def verdict (p : Proposal) (now grace : Timestamp) : ProposalState :=
  if !p.passed then .defeated
  else if p.eta.isZero then .succeeded
  else if p.eta.addSat grace < now then .expired
  else .queued

theorem state_of_unsettled (h : p.Unsettled) (now grace : Timestamp) :
    p.state now grace = if now < p.start then .pending
      else if now ≤ p.finish then .active else p.verdict now grace := by
  unfold state
  rw [h.1, h.2]
  rfl

/-- A proposal that has passed leads from success to what becomes of it, if it was queued. -/
theorem succeeded_leads_verdict (hpassed : p.passed = true) (heta : p.eta.toNat ≠ 0)
    (now grace : Timestamp) : succeeded.Leads (p.verdict now grace) := by
  have hqueued : ¬ p.eta.isZero = true := fun h => heta (Word.isZero_iff.1 h)
  unfold verdict
  rw [hpassed, if_neg (by decide), if_neg hqueued]
  split
  · exact Next.queues.leads.trans Next.expires.leads
  · exact Next.queues.leads

/-- An open vote leads to what becomes of the proposal. -/
theorem active_leads_verdict (p : Proposal) (now grace : Timestamp) :
    active.Leads (p.verdict now grace) := by
  by_cases hpassed : p.passed = true
  · by_cases heta : p.eta.toNat = 0
    · unfold verdict
      rw [hpassed, if_neg (by decide), if_pos (Word.isZero_iff.2 heta)]
      exact Next.succeeds.leads
    · exact Next.succeeds.leads.trans (succeeded_leads_verdict hpassed heta now grace)
  · unfold verdict
    rw [if_pos (by simpa using hpassed)]
    exact Next.fails.leads

/-- What becomes of a proposal only changes when it is too late to execute it. -/
theorem verdict_leads (p : Proposal) (grace : Timestamp) (hle : t ≤ t') :
    (p.verdict t grace).Leads (p.verdict t' grace) := by
  have hle : t.toNat ≤ t'.toNat := hle
  unfold verdict
  split
  · exact .refl _
  split
  · exact .refl _
  by_cases hlate : p.eta.addSat grace < t
  · have hlater : p.eta.addSat grace < t' := Nat.lt_of_lt_of_le hlate hle
    rw [if_pos hlate, if_pos hlater]
    exact .refl _
  · rw [if_neg hlate]
    split
    · exact Next.expires.leads
    · exact .refl _

/-- An open vote leads to what the proposal is at any time from its start on. -/
theorem active_leads_state (h : p.Unsettled) (hstart : p.start ≤ now) (grace : Timestamp) :
    active.Leads (p.state now grace) := by
  have hbegun : ¬ now < p.start := Nat.not_lt_of_le hstart
  rw [state_of_unsettled h, if_neg hbegun]
  split
  · exact .refl _
  · exact p.active_leads_verdict now grace

/-- Whether a vote is open does not depend on how late an execution may be. -/
theorem state_eq_active {other : Timestamp} (h : p.state now other = .active) (grace : Timestamp) :
    p.state now grace = .active := by
  have hspec := p.state_spec now other
  rw [h] at hspec
  obtain ⟨hopen, hstart, hfinish⟩ := hspec
  have hbegun : ¬ now < p.start := Nat.not_lt_of_le hstart
  rw [state_of_unsettled hopen, if_neg hbegun, if_pos hfinish]

/-- **Time alone leads forward.** -/
theorem leads_of_le (p : Proposal) (grace : Timestamp) (hle : t ≤ t') :
    (p.state t grace).Leads (p.state t' grace) := by
  by_cases hcanceled : p.canceled = true
  · unfold state
    rw [if_pos hcanceled, if_pos hcanceled]
    exact .refl _
  by_cases hexecuted : p.executed = true
  · unfold state
    rw [if_neg hcanceled, if_neg hcanceled, if_pos hexecuted, if_pos hexecuted]
    exact .refl _
  have hopen : p.Unsettled := ⟨by simpa using hcanceled, by simpa using hexecuted⟩
  -- the later time is before the vote, or the earlier one is before, in or after it
  by_cases hbefore : t' < p.start
  · have hearlier : t < p.start := Nat.lt_of_le_of_lt hle hbefore
    rw [state_of_unsettled hopen, state_of_unsettled hopen, if_pos hbefore, if_pos hearlier]
    exact .refl _
  have hstart : p.start ≤ t' := Nat.le_of_not_lt hbefore
  rw [state_of_unsettled hopen t]
  split
  · exact Next.opens.leads.trans (active_leads_state hopen hstart grace)
  split
  · exact active_leads_state hopen hstart grace
  · rename_i hended
    have hlater : ¬ t' ≤ p.finish := fun hfinish => hended (Nat.le_trans hle hfinish)
    rw [state_of_unsettled hopen, if_neg hbefore, if_neg hlater]
    exact p.verdict_leads grace hle

/-! ### Calls -/

/-- **The terms of a proposal** are those of another: all that was settled when it was made. -/
structure SameTerms (p q : Proposal) : Prop where
  id : q.id = p.id
  proposer : q.proposer = p.proposer
  actions : q.actions = p.actions
  description : q.description = p.description
  createdAt : q.createdAt = p.createdAt
  snapshot : q.snapshot = p.snapshot
  start : q.start = p.start
  finish : q.finish = p.finish
  quorumVotes : q.quorumVotes = p.quorumVotes

theorem SameTerms.refl (p : Proposal) : p.SameTerms p :=
  ⟨rfl, rfl, rfl, rfl, rfl, rfl, rfl, rfl, rfl⟩

theorem SameTerms.trans {r : Proposal} (h : p.SameTerms q) (h' : q.SameTerms r) :
    p.SameTerms r where
  id := h'.id.trans h.id
  proposer := h'.proposer.trans h.proposer
  actions := h'.actions.trans h.actions
  description := h'.description.trans h.description
  createdAt := h'.createdAt.trans h.createdAt
  snapshot := h'.snapshot.trans h.snapshot
  start := h'.start.trans h.start
  finish := h'.finish.trans h.finish
  quorumVotes := h'.quorumVotes.trans h.quorumVotes

/-- **What a call at a time makes of a proposal**, in which state. -/
inductive Evolves (now grace : Timestamp) (p : Proposal) : Proposal → Prop where
  | voted {q : Proposal} {voter : Address} {support : VoteSupport} {votes : Power}
    (hstate : p.state now grace = .active) (hrecord : p.recordVote voter support votes = .ok q) :
    Evolves now grace p q
  | queued {eta : Timestamp} (hstate : p.state now grace = .succeeded) (heta : now ≤ eta) :
    Evolves now grace p { p with eta }
  | canceled (hstate : (p.state now grace).isTerminal = false) :
    Evolves now grace p { p with canceled := true }
  | executed (hstate : p.state now grace = .queued) :
    Evolves now grace p { p with executed := true }

/-- **No call changes the terms** of a proposal. -/
theorem Evolves.sameTerms (h : Evolves now grace p q) : p.SameTerms q := by
  cases h with
  | voted _ hrecord =>
    obtain ⟨-, -, -, hvoted⟩ := recordVote_eq_ok hrecord
    rw [hvoted]
    exact ⟨rfl, rfl, rfl, rfl, rfl, rfl, rfl, rfl, rfl⟩
  | queued | canceled | executed => exact ⟨rfl, rfl, rfl, rfl, rfl, rfl, rfl, rfl, rfl⟩

/-- A call leads forward at its own time. -/
theorem Evolves.leads_now (h : Evolves now grace p q) :
    (p.state now grace).Leads (q.state now grace) := by
  have hspec := p.state_spec now grace
  cases h with
  | voted hstate hrecord =>
    obtain ⟨-, -, -, hvoted⟩ := recordVote_eq_ok hrecord
    rw [hstate] at hspec ⊢
    obtain ⟨hopen, hstart, -⟩ := hspec
    -- a vote leaves alone what decides whether the vote is open
    have hopen' : q.Unsettled := by rw [hvoted]; exact hopen
    have hstart' : q.start ≤ now := by rw [hvoted]; exact hstart
    exact active_leads_state hopen' hstart' grace
  | @queued eta hstate heta =>
    obtain ⟨hopen, hfinish, hpassed, -⟩ := of_succeeded hstate
    have hended : ¬ now ≤ p.finish := Nat.not_le_of_lt hfinish
    have hbegun : ¬ now < p.start := fun hbefore => by
      rw [state_of_unsettled hopen, if_pos hbefore] at hstate
      cases hstate
    have hverdict : state { p with eta } now grace = verdict { p with eta } now grace := by
      rw [state_of_unsettled (p := { p with eta }) hopen, if_neg hbegun, if_neg hended]
    -- the vote has ended, so the time is not zero, and neither is a later one
    have hlater : eta.toNat ≠ 0 := by
      have hfinish : p.finish.toNat < now.toNat := hfinish
      have heta : now.toNat ≤ eta.toNat := heta
      omega
    rw [hstate, hverdict]
    exact succeeded_leads_verdict (p := { p with eta }) hpassed hlater now grace
  | canceled hstate => exact (Next.cancels hstate).leads
  | executed hstate =>
    rw [hstate]
    obtain ⟨hopen, -⟩ := of_queued hstate
    have hexecuted : state { p with executed := true } now grace = .executed := by
      unfold state
      rw [hopen.1]
      rfl
    rw [hexecuted]
    exact Next.executes.leads

/-- **A call leads forward**, from any time before it to any time after it. -/
theorem Evolves.leads (h : Evolves now grace p q) (ht : t ≤ now) (ht' : now ≤ t') :
    (p.state t grace).Leads (q.state t' grace) :=
  ((p.leads_of_le grace ht).trans h.leads_now).trans (q.leads_of_le grace ht')

end Proposal

/-! ### Operations -/

/-- What is found in a table in which one proposal was put back is what was found before, or
that one. -/
theorem Governor.find_of_put {g g' : Governor} {id j : ProposalId}
    {proposal before after : Proposal} {Change : Proposal → Proposal → Prop}
    (hput : g'.get? id = (g.put j after).get? id) (hbefore : g.get? j = some before)
    (hfind : g.get? id = some proposal) (hchange : Change before after) :
    ∃ later, g'.get? id = some later ∧ (later = proposal ∨ Change proposal later) := by
  rw [hput, get?_put]
  split
  · rename_i hid
    rw [hid, hbefore] at hfind
    cases hfind
    exact ⟨after, rfl, Or.inr hchange⟩
  · exact ⟨proposal, hfind, Or.inl rfl⟩

/-- **A step alters a proposal** in one of the ways in which calls do, at the time of its call. -/
def Step.Alters {ν : Type} (s : Step ν) (q : Protocol ν) (before after : Proposal) : Prop :=
  ∃ request now response, s.Answered request now response ∧ Protocol.Ticks now s.before q ∧
    before.Evolves now s.before.state.timelock.params.gracePeriod after

namespace Protocol

variable {ν : Type} [Custody ν] {p q : Protocol ν} {operation : Operation}
  {outcome : Except GovernanceError Outcome} {id : ProposalId} {proposal : Proposal}

/-- **What an operation does to a proposal of the table**: nothing, or it alters it, unless it
makes another one under the same number. -/
theorem Transition.alters (ht : Transition p operation outcome q)
    (hnew : (Step.mk p operation outcome).proposed? ≠ some id)
    (hfind : p.state.governor.get? id = some proposal) :
    ∃ later, q.state.governor.get? id = some later ∧
      (later = proposal ∨ (Step.mk p operation outcome).Alters q proposal later) := by
  have hkept : q.state.governor.silent = p.state.governor.silent →
      q.state.governor.get? id = some proposal := fun hsame =>
    (Governor.get?_of_silent hsame id).trans hfind
  -- each of the calls that put a proposal back is answered at its own time
  have haltered : ∀ {request now response before after},
      operation = .request request now → outcome = .ok (.response response) → Ticks now p q →
      before.Evolves now p.state.timelock.params.gracePeriod after →
      (Step.mk p operation outcome).Alters q before after :=
    fun hop houtcome hticks hevolves => ⟨_, _, _, ⟨hop, houtcome⟩, hticks, hevolves⟩
  cases ht with
  | idle _ hsame => exact ⟨proposal, hkept hsame.governor, Or.inl rfl⟩
  | staking _ _ _ hgovernor => exact ⟨proposal, hkept hgovernor, Or.inl rfl⟩
  | pruning henters => exact ⟨proposal, hkept henters.governor, Or.inl rfl⟩
  | proposing hdraft henters =>
    obtain ⟨_, _, _, -, -, -, rfl⟩ := Governor.draft_eq_ok hdraft
    have hother : id ≠ p.state.governor.nextId := fun h => hnew (congrArg some h.symm)
    refine ⟨proposal, ?_, Or.inl rfl⟩
    rw [Governor.get?_of_silent henters.governor, Governor.get?_enter]
    exact (if_neg hother).trans hfind
  | voting hballot henters =>
    obtain ⟨before, hbefore, hactive, -, -, -, hrecord⟩ := Governor.ballot_eq_ok hballot
    exact Governor.find_of_put (Governor.get?_of_silent henters.governor id) hbefore hfind
      (haltered rfl rfl henters.ticks (.voted (Proposal.state_eq_active hactive _) hrecord))
  | @queueing _ now _ eta _ hbefore hstate heta henters =>
    have heta : now ≤ eta := by
      have := Word.add?_eq_some_iff.1 heta
      rw [Word.le_def]
      omega
    exact Governor.find_of_put (Governor.get?_of_silent henters.governor id) hbefore hfind
      (haltered rfl rfl henters.ticks (.queued hstate heta))
  | canceling hbefore hstate henters =>
    exact Governor.find_of_put (Governor.get?_of_silent henters.governor id) hbefore hfind
      (haltered rfl rfl henters.ticks (.canceled hstate))
  | executing hbefore hstate _ hticks _ _ hgovernor =>
    exact Governor.find_of_put (hgovernor.get? id) hbefore hfind
      (haltered rfl rfl hticks (.executed hstate))

theorem proposalState_eq_ok {ν : Type} {p : Protocol ν}
    (hfind : p.state.governor.get? id = some proposal) (t : Timestamp) :
    p.proposalState id t = .ok (proposal.state t p.state.timelock.params.gracePeriod) :=
  Checked.bind_eq_ok.2 ⟨proposal, Governor.find_eq_ok.2 hfind, rfl⟩

end Protocol

/-! ### Runs -/

namespace Run

variable {ν : Type} [Custody ν] {config : ProtocolConfig} {vault : ν} {steps : List (Step ν)}
  {p : Protocol ν} {id : ProposalId} {proposal : Proposal}

/-- **No number is given out again**, as long as not all have been. -/
theorem not_proposed_again (h : Run config vault steps p) (operations : List Operation)
    (hfew : ((steps ++ (perform p operations).1).filterMap Step.proposed?).length ≤ Word.size 64)
    (hfind : p.state.governor.get? id = some proposal) :
    id ∉ (perform p operations).1.filterMap Step.proposed? := by
  obtain ⟨n, hn⟩ := h.numbered
  have hnodup := (h.perform_run operations).nodup_proposed hfew
  have hgiven : id ∈ steps.filterMap Step.proposed? :=
    hn.given ▸ hn.table id (Option.isSome_iff_exists.2 ⟨proposal, hfind⟩)
  rw [List.filterMap_append] at hnodup
  exact fun hagain => (List.nodup_append.1 hnodup).2.2 id hgiven id hagain rfl

/-- **A proposal moves forward over any operations**, from a time that is not later than the clock
or than any request that succeeds, to a time that is not earlier than any of them. -/
theorem leads (h : Run config vault steps p) (operations : List Operation)
    (hnew : id ∉ (perform p operations).1.filterMap Step.proposed?)
    (hfind : p.state.governor.get? id = some proposal) :
    ∃ later, (perform p operations).2.state.governor.get? id = some later ∧
      proposal.SameTerms later ∧
      ∀ t t', t ≤ t' →
        (t ≤ p.state.clock ∨ ∀ s ∈ (perform p operations).1, ∀ request u response,
          s.Answered request u response → t ≤ u) →
        (∀ s ∈ (perform p operations).1, ∀ request u response,
          s.Answered request u response → u ≤ t') →
        (proposal.state t p.state.timelock.params.gracePeriod).Leads
          (later.state t' (perform p operations).2.state.timelock.params.gracePeriod) := by
  induction operations generalizing steps p proposal with
  | nil => exact ⟨proposal, hfind, .refl proposal, fun t t' hle _ _ => proposal.leads_of_le _ hle⟩
  | cons operation rest ih =>
    have ht : p.Transition operation _ _ := Protocol.transition h.orderly.sound operation
    rw [List.mem_filterMap] at hnew
    have hfirst : (Step.take p operation).proposed? ≠ some id := fun hmade =>
      hnew ⟨_, List.mem_cons_self, hmade⟩
    obtain ⟨mid, hmid, halters⟩ := ht.alters hfirst hfind
    have hrest : id ∉ (perform (operation.run.after p) rest).1.filterMap Step.proposed? := by
      rw [List.mem_filterMap]
      rintro ⟨s, hs, hmade⟩
      exact hnew ⟨s, List.mem_cons_of_mem _ hs, hmade⟩
    obtain ⟨later, hlater, hterms, hleads⟩ := ih (h.step operation) hrest hmid
    rw [ht.delays.gracePeriod] at hleads
    refine ⟨later, hlater, ?_, fun t t' hle hbefore hafter => ?_⟩
    · rcases halters with rfl | ⟨_, _, _, -, -, hevolves⟩
      · exact hterms
      · exact hevolves.sameTerms.trans hterms
    have hlast : ∀ s ∈ (perform (operation.run.after p) rest).1, ∀ request u response,
        s.Answered request u response → u ≤ t' := fun s hs =>
      hafter s (List.mem_cons_of_mem _ hs)
    rcases halters with rfl | ⟨request, now, response, hanswered, hticks, hevolves⟩
    · -- nothing has happened to it, and the clock has only gone forward
      refine hleads t t' hle (hbefore.imp (fun hclock => Nat.le_trans hclock ht.ticks) ?_) hlast
      exact fun hfirst s hs => hfirst s (List.mem_cons_of_mem _ hs)
    · -- from now on, the clock is at the time of the call
      have hnow : t ≤ now := hbefore.elim (fun hclock => Nat.le_trans hclock hticks.before)
        fun hfirst => hfirst _ List.mem_cons_self request now response hanswered
      have hend : now ≤ t' := hafter _ List.mem_cons_self request now response hanswered
      exact (hevolves.leads hnow (Nat.le_refl _)).trans
        (hleads now t' hend (Or.inl (Nat.le_of_eq (congrArg Word.toNat hticks.after.symm))) hlast)

/-- **The life of a proposal only moves forward.** Take any state of a run, any operations that
follow it, whether they succeed or fail, and any proposal of that state. The proposal is in the
table afterwards, and its terms are the same. If `t` is not later and `t'` not earlier than any
request among the operations that succeeds, then the state at `t` before them leads to the state
at `t'` after them by the steps between states; and a settled state stays what it is.

Numbers of proposals are words: this holds as long as the operations do not make another proposal
under its number, which they cannot before all numbers have been given out. -/
theorem lifecycle_moves_forward (h : Run config vault steps p) (operations : List Operation)
    (hnew : id ∉ (perform p operations).1.filterMap Step.proposed? ∨
      ((steps ++ (perform p operations).1).filterMap Step.proposed?).length ≤ Word.size 64)
    (hfind : p.state.governor.get? id = some proposal) :
    let q := (perform p operations).2
    ∃ later, q.state.governor.get? id = some later ∧
      (later.id = proposal.id ∧ later.proposer = proposal.proposer ∧
        later.actions = proposal.actions ∧ later.description = proposal.description ∧
        later.createdAt = proposal.createdAt ∧ later.snapshot = proposal.snapshot ∧
        later.start = proposal.start ∧ later.finish = proposal.finish ∧
        later.quorumVotes = proposal.quorumVotes) ∧
      ∀ t t', t ≤ t' →
        (∀ s ∈ (perform p operations).1, ∀ request u response,
          s.Answered request u response → t ≤ u ∧ u ≤ t') →
        ∃ before after, p.proposalState id t = .ok before ∧ q.proposalState id t' = .ok after ∧
          before.Leads after ∧ (before.isTerminal = true → after = before) := by
  intro q
  have hnew : id ∉ (perform p operations).1.filterMap Step.proposed? :=
    hnew.elim (fun hnot => hnot) fun hfew => h.not_proposed_again operations hfew hfind
  obtain ⟨later, hlater, hterms, hleads⟩ := h.leads operations hnew hfind
  refine ⟨later, hlater, ⟨hterms.id, hterms.proposer, hterms.actions, hterms.description,
    hterms.createdAt, hterms.snapshot, hterms.start, hterms.finish, hterms.quorumVotes⟩,
    fun t t' hle htimes => ?_⟩
  have hforward := hleads t t' hle
    (Or.inr fun s hs request u response ha => (htimes s hs request u response ha).1)
    fun s hs request u response ha => (htimes s hs request u response ha).2
  exact ⟨_, _, Protocol.proposalState_eq_ok hfind t, Protocol.proposalState_eq_ok hlater t',
    hforward, fun hterminal => hforward.eq_of_isTerminal hterminal⟩

theorem operation_mem_of_perform {operations : List Operation} {s : Step ν}
    (hs : s ∈ (perform p operations).1) : s.operation ∈ operations := by
  induction operations generalizing p with
  | nil => cases hs
  | cons operation rest ih =>
    rcases List.mem_cons.1 hs with rfl | hs
    · exact List.mem_cons_self
    · exact List.mem_cons_of_mem _ (ih hs)

/-- The proposal of the small run is followed from its making to its end: it is pending at first,
and at last it is executed, with the quorum that it was made with. -/
theorem lifecycle_moves_forward_sample :
    let p := (perform Sample.start (Sample.operations.take 2)).2
    let rest := Sample.operations.drop 2 ++ [Sample.execution]
    let q := (perform p rest).2
    p.proposalState (.ofNat 1) (.ofNat 20) = .ok .pending ∧
      q.proposalState (.ofNat 1) (.ofNat 200) = .ok .executed ∧
      ProposalState.pending.Leads .executed ∧
      (q.state.governor.get? (.ofNat 1)).map (·.quorumVotes)
        = (p.state.governor.get? (.ofNat 1)).map (·.quorumVotes) := by
  intro p rest q
  have hstart : Run Sample.config Sample.vault [] Sample.start := .create (by rfl)
  have hrun := hstart.perform_run (Sample.operations.take 2)
  have hfirst : p.proposalState (.ofNat 1) (.ofNat 20) = .ok .pending := by decide +kernel
  have hlast : q.proposalState (.ofNat 1) (.ofNat 200) = .ok .executed := by decide +kernel
  obtain ⟨proposal, hfind⟩ : ∃ proposal, p.state.governor.get? (.ofNat 1) = some proposal :=
    Option.isSome_iff_exists.1 (by decide +kernel)
  obtain ⟨later, hlater, ⟨-, -, -, -, -, -, -, -, hquorum⟩, hleads⟩ :=
    hrun.lifecycle_moves_forward rest (Or.inl (by decide +kernel)) hfind
  obtain ⟨before, after, hbefore, hafter, hforward, -⟩ := hleads (.ofNat 20) (.ofNat 200)
    (by decide) fun s hs request u response ⟨hop, _⟩ => by
      have hmem : Operation.request request u ∈ rest := hop ▸ operation_mem_of_perform hs
      rcases List.mem_cons.1 hmem with h | hmem
      · cases h
        decide
      rcases List.mem_cons.1 hmem with h | hmem
      · cases h
        decide
      · cases List.mem_singleton.1 hmem
        decide
  cases hbefore.symm.trans hfirst
  cases hafter.symm.trans hlast
  refine ⟨hfirst, hlast, hforward, ?_⟩
  rw [hfind, hlater]
  exact congrArg some hquorum

end Run

end StakeGovernance
