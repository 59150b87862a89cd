import StakeGovernance.Proofs.Numbers
import StakeGovernance.Proofs.Waits

/-!
# Table and timelock agree

Which actions wait is written down twice: in the table of proposals, and in the queue of the
timelock. The two agree in every state of a run. An entry belongs to one proposal that is
neither executed nor canceled; and what such a proposal waits for is in the queue, unless it is
too late. Entries are found under digests, so this needs that different actions, or times, have
different digests, at least those that were queued. It follows that nothing is in the way of a
proposal when its time has come.

* `StakeGovernance.Protocol.Agrees` – **table and timelock agree**;
* `StakeGovernance.Protocol.Agrees.moves` – nothing that happens **makes them disagree**;
* `StakeGovernance.Step.queuedActions`, `StakeGovernance.CollisionFree` – what a run has
  **queued**, all under different digests;
* `StakeGovernance.Run.agrees` – the agreement **in a run**;
* `StakeGovernance.Run.due_proposals_execute` – the agreement in full, and that **due proposals
  execute**.
-/

namespace StakeGovernance

variable {ν : Type}

/-! ### Agreement -/

namespace Protocol

variable {p q : Protocol ν}

/-- **Table and timelock agree** on what waits. -/
structure Agrees (p : Protocol ν) : Prop where
  /-- Every entry belongs to a proposal. -/
  owned : ∀ hash entry, p.entry? hash = some entry →
    hash = entry.action.hash entry.eta ∧ ∃ id, p.Waits id entry.action entry.eta
  /-- What waits has an entry, unless it is too late. -/
  entered : ∀ id action eta, p.Waits id action eta →
    p.state.clock ≤ eta.addSat p.state.timelock.params.gracePeriod →
    ∃ entry, p.entry? (action.hash eta) = some entry ∧ entry.action = action ∧ entry.eta = eta
  /-- No two proposals wait for the same. -/
  unique : ∀ i j action eta, p.Waits i action eta → p.Waits j action eta → i = j

/-- **Different actions, or times, that wait have different digests.** -/
def Distinct (p : Protocol ν) : Prop :=
  ∀ i j action eta other t, p.Waits i action eta → p.Waits j other t →
    action.hash eta = other.hash t → action = other ∧ eta = t

theorem le_addSat {t eta grace : Timestamp} (h : t ≤ eta) : t ≤ eta.addSat grace := by
  have h : t.toNat ≤ eta.toNat := h
  have hfits := eta.toNat_lt
  rw [Word.le_def, Word.toNat_addSat]
  omega

section Moves

variable (h : p.Agrees) (hm : Moves p q)
include h hm

/-- What is in the queue afterwards belongs to a proposal. -/
theorem Agrees.owned_moves {hash : Digest} {entry : QueuedAction}
    (hentry : q.entry? hash = some entry) :
    hash = entry.action.hash entry.eta ∧ ∃ id, q.Waits id entry.action entry.eta := by
  cases hm with
  | stays hwaits hentries =>
    rw [hentries] at hentry
    obtain ⟨hhash, id, howner⟩ := h.owned hash entry hentry
    exact ⟨hhash, id, (hwaits _ _ _).2 howner⟩
  | enters id actions eta hwaits _ _ hentries =>
    rcases (hentries hash entry).1 hentry with ⟨action, haction, hhash, rfl⟩ | ⟨-, hold⟩
    · exact ⟨hhash, id, (hwaits _ _ _).2 (Or.inr ⟨rfl, haction, rfl⟩)⟩
    · obtain ⟨hhash, j, howner⟩ := h.owned hash entry hold
      exact ⟨hhash, j, (hwaits _ _ _).2 (Or.inl howner)⟩
  | leaves id hwaits hentries =>
    obtain ⟨hold, hothers⟩ := (hentries hash entry).1 hentry
    obtain ⟨hhash, j, howner⟩ := h.owned hash entry hold
    refine ⟨hhash, j, (hwaits _ _ _).2 ⟨howner, ?_⟩⟩
    -- the entries of the leaving proposal are gone
    rintro rfl
    exact hothers entry.action entry.eta howner hhash
  | prunes hwaits hentries =>
    obtain ⟨hhash, id, howner⟩ := h.owned hash entry ((hentries hash entry).1 hentry).1
    exact ⟨hhash, id, (hwaits _ _ _).2 howner⟩

/-- What waits afterwards has an entry, unless it is too late. -/
theorem Agrees.entered_moves (hclock : p.state.clock ≤ q.state.clock)
    (hgrace : q.state.timelock.params.gracePeriod = p.state.timelock.params.gracePeriod)
    (hdistinct : p.Distinct) {id : ProposalId} {action : ProposalAction} {eta : Timestamp}
    (hawaits : q.Waits id action eta)
    (hle : q.state.clock ≤ eta.addSat q.state.timelock.params.gracePeriod) :
    ∃ entry, q.entry? (action.hash eta) = some entry ∧ entry.action = action ∧ entry.eta = eta := by
  rw [hgrace] at hle
  have hold : p.Waits id action eta →
      ∃ entry, p.entry? (action.hash eta) = some entry ∧ entry.action = action ∧ entry.eta = eta :=
    fun hwaits => h.entered id action eta hwaits (Nat.le_trans hclock hle)
  cases hm with
  | stays hwaits hentries =>
    rw [hentries]
    exact hold ((hwaits _ _ _).1 hawaits)
  | enters j actions t hwaits _ hfresh hentries =>
    rcases (hwaits id action eta).1 hawaits with hbefore | ⟨-, haction, rfl⟩
    · obtain ⟨entry, hentry, hsame⟩ := hold hbefore
      refine ⟨entry, (hentries _ _).2 (Or.inr ⟨fun other hother hhash => ?_, hentry⟩), hsame⟩
      rw [hhash, hfresh other hother] at hentry
      cases hentry
    · exact ⟨_, (hentries _ _).2 (Or.inl ⟨action, haction, rfl, rfl⟩), rfl, rfl⟩
  | leaves j hwaits hentries =>
    obtain ⟨hbefore, hne⟩ := (hwaits id action eta).1 hawaits
    obtain ⟨entry, hentry, hsame⟩ := hold hbefore
    refine ⟨entry, (hentries _ _).2 ⟨hentry, fun other t hother hhash => ?_⟩, hsame⟩
    -- an entry that goes away is one that the leaving proposal waits for
    obtain ⟨rfl, rfl⟩ := hdistinct id j action eta other t hbefore hother hhash
    exact hne (h.unique id j action eta hbefore hother)
  | prunes hwaits hentries =>
    obtain ⟨entry, hentry, haction, rfl⟩ := hold ((hwaits _ _ _).1 hawaits)
    exact ⟨entry, (hentries _ _).2 ⟨hentry, hle⟩, haction, rfl⟩

/-- No two proposals wait for the same afterwards. -/
theorem Agrees.unique_moves (hclock : p.state.clock ≤ q.state.clock) {i j : ProposalId}
    {action : ProposalAction} {eta : Timestamp} (hi : q.Waits i action eta)
    (hj : q.Waits j action eta) : i = j := by
  cases hm with
  | stays hwaits | prunes hwaits =>
    exact h.unique i j action eta ((hwaits _ _ _).1 hi) ((hwaits _ _ _).1 hj)
  | leaves id hwaits =>
    exact h.unique i j action eta ((hwaits _ _ _).1 hi).1 ((hwaits _ _ _).1 hj).1
  | enters id actions t hwaits hle hfresh =>
    -- nobody waits for one of the new actions yet, as it would be in the queue
    have hnobody : ∀ k action, action ∈ actions → ¬ p.Waits k action t := by
      intro k action haction hbefore
      obtain ⟨entry, hentry, -⟩ := h.entered k action t hbefore
        (le_addSat (Nat.le_trans hclock hle))
      cases (hfresh action haction).symm.trans hentry
    rcases (hwaits i action eta).1 hi with hi | ⟨rfl, haction, rfl⟩
    · rcases (hwaits j action eta).1 hj with hj | ⟨-, haction, rfl⟩
      · exact h.unique i j action eta hi hj
      · exact absurd hi (hnobody i action haction)
    · rcases (hwaits j action _).1 hj with hj | ⟨rfl, -, -⟩
      · exact absurd hj (hnobody j action haction)
      · rfl

/-- **Nothing that happens makes them disagree.** -/
theorem Agrees.moves (hclock : p.state.clock ≤ q.state.clock)
    (hgrace : q.state.timelock.params.gracePeriod = p.state.timelock.params.gracePeriod)
    (hdistinct : p.Distinct) : q.Agrees where
  owned _ _ := h.owned_moves hm
  entered _ _ _ := h.entered_moves hm hclock hgrace hdistinct
  unique _ _ _ _ := h.unique_moves hm hclock

end Moves

/-! ### Due proposals -/

/-- **A due proposal is executed**, if all its actions are in the queue. -/
theorem execute_eq_ok [Custody ν] {id : ProposalId} {now : Timestamp} {proposal : Proposal}
    (hfit : p.state.council.Fit) (hclock : p.state.clock ≤ now)
    (hfind : p.state.governor.get? id = some proposal)
    (hstate : p.state.council.stateOf proposal now = .queued) (hdue : proposal.eta ≤ now)
    (hpresent : ∀ action ∈ proposal.actions,
      p.state.timelock.isQueued (action.hash proposal.eta) = true) :
    ∃ report q, execute id now p = .ok report q := by
  obtain ⟨-, -, -, -, hgrace⟩ := Proposal.of_queued hstate
  have hcheck : p.state.timelock.checkDue proposal.eta now = .ok () :=
    Timelock.checkDue_eq_ok.2 ⟨hdue, hgrace⟩
  have hrelease := hfit.release_eq hfind hstate hcheck hpresent
  -- once the actions have been released, nothing fails any more
  obtain ⟨receipts, r, hperform, -⟩ := performAll_eq_ok
    (proposal.actions.map fun action => (action.hash proposal.eta, action)) (p.withCouncil _)
  refine ⟨⟨id, proposal.eta, receipts⟩, (r.withClock now).record now, ?_⟩
  refine Call.bind_eq_ok.2 ⟨(), p, checkClock_eq_ok.2 ⟨hclock, rfl⟩, settled_eq_ok.2 ⟨r, ?_, rfl⟩⟩
  refine Call.bind_eq_ok.2 ⟨_, _, Call.part_eq_ok.2 ⟨_, hrelease, rfl⟩, ?_⟩
  exact Call.bind_eq_ok.2 ⟨receipts, r, hperform, rfl⟩

end Protocol

/-! ### What a run has queued -/

/-- **The actions that a step has queued**, each with its time of execution. -/
def Step.queuedActions (s : Step ν) : List (ProposalAction × Timestamp) :=
  match s.operation, s.outcome with
  | .request (.queue id) _, .ok (.response (.queued eta)) =>
    match s.before.state.governor.get? id with
    | some proposal => proposal.actions.map fun action => (action, eta)
    | none => []
  | _, _ => []

/-- **No two of the actions that were queued**, for their times of execution, have one
digest. -/
def CollisionFree (steps : List (Step ν)) : Prop :=
  ∀ x ∈ steps.flatMap Step.queuedActions, ∀ y ∈ steps.flatMap Step.queuedActions,
    x.1.hash x.2 = y.1.hash y.2 → x = y

instance (steps : List (Step ν)) : Decidable (CollisionFree steps) :=
  inferInstanceAs (Decidable (∀ x ∈ steps.flatMap Step.queuedActions,
    ∀ y ∈ steps.flatMap Step.queuedActions, x.1.hash x.2 = y.1.hash y.2 → x = y))

namespace Run

variable [Custody ν] {config : ProtocolConfig} {vault : ν} {steps : List (Step ν)}
  {p : Protocol ν}

/-- **Every proposal that has a time of execution was queued** in the run, with all its
actions. -/
theorem queued_of_eta (h : Run config vault steps p) :
    ∀ id proposal, p.state.governor.get? id = some proposal → proposal.eta.toNat ≠ 0 →
      ∀ action ∈ proposal.actions, (action, proposal.eta) ∈ steps.flatMap Step.queuedActions := by
  refine h.invariant (P := fun steps p => ∀ id proposal,
    p.state.governor.get? id = some proposal → proposal.eta.toNat ≠ 0 → ∀ action ∈ proposal.actions,
      (action, proposal.eta) ∈ steps.flatMap Step.queuedActions)
    (fun p hp => ?_) fun steps p operation outcome q _ _ ht ih id proposal hfind heta action ha =>
      ?_
  · obtain ⟨rfl, -⟩ := Protocol.create_eq_ok hp
    intro id proposal hfind
    cases hfind
  rw [List.flatMap_append, List.mem_append]
  cases ht.origin hfind with
  | kept hbefore => exact Or.inl (ih id proposal hbefore heta action ha)
  | made _ hdraft =>
    obtain ⟨_, _, _, -, -, -, rfl⟩ := Governor.draft_eq_ok hdraft
    exact absurd rfl heta
  | voted hbefore _ _ _ hrecord =>
    obtain ⟨-, -, -, hvoted⟩ := Proposal.recordVote_eq_ok hrecord
    rw [hvoted] at heta ha ⊢
    exact Or.inl (ih id _ hbefore heta action ha)
  | queued hbefore =>
    refine Or.inr ?_
    rw [List.flatMap_singleton]
    unfold Step.queuedActions
    simp only [hbefore]
    exact List.mem_map.2 ⟨action, ha, rfl⟩
  | canceled hbefore | executed hbefore => exact Or.inl (ih id _ hbefore heta action ha)

/-- The next number is not in the table as long as not all have been given out. -/
theorem nextId_free (h : Run config vault steps p)
    (hfew : (steps.filterMap Step.proposed?).length < Word.size 64) :
    p.state.governor.get? p.state.governor.nextId = none := by
  obtain ⟨n, hn⟩ := h.numbered
  rw [hn.given, length_numbers] at hfew
  have hnodup := nodup_numbers hfew
  rw [numbers_succ, ← hn.next] at hnodup
  -- whatever is in the table has one of the numbers before
  rw [← Option.not_isSome_iff_eq_none]
  intro hfound
  exact (List.nodup_append.1 hnodup).2.2 _ (hn.table _ hfound) _ List.mem_cons_self rfl

/-- What waits in a run has different digests, if what was queued has. -/
theorem distinct (h : Run config vault steps p) (hfree : CollisionFree steps) : p.Distinct := by
  rintro i j action eta other t ⟨proposal, hfind, hopen, rfl, heta, haction⟩
    ⟨proposal', hfind', hopen', rfl, heta', hother⟩ hhash
  have hfirst := h.queued_of_eta i proposal hfind heta action haction
  have hsecond := h.queued_of_eta j proposal' hfind' heta' other hother
  exact Prod.mk.inj (hfree _ hfirst _ hsecond hhash)

/-- **Table and timelock agree in a run**, as long as not all numbers have been given out and
what was queued has different digests. -/
theorem agrees (h : Run config vault steps p)
    (hfew : (steps.filterMap Step.proposed?).length ≤ Word.size 64)
    (hfree : CollisionFree steps) : p.Agrees := by
  induction h with
  | create h =>
    obtain ⟨rfl, -⟩ := Protocol.create_eq_ok h
    refine ⟨fun hash entry hentry => (by cases hentry), ?_, ?_⟩
    · rintro id action eta ⟨proposal, hfind, -⟩
      cases hfind
    · rintro i j action eta ⟨proposal, hfind, -⟩
      cases hfind
  | @step steps p h operation ih =>
    rw [List.filterMap_append, List.length_append] at hfew
    have hfree' : CollisionFree steps := by
      intro x hx y hy
      unfold CollisionFree at hfree
      rw [List.flatMap_append] at hfree
      exact hfree x (List.mem_append_left _ hx) y (List.mem_append_left _ hy)
    have hnew : (Step.take p operation).proposed?.isSome →
        p.state.governor.get? p.state.governor.nextId = none := by
      intro hsome
      obtain ⟨id, hid⟩ := Option.isSome_iff_exists.1 hsome
      rw [List.filterMap_cons_some hid, List.length_cons] at hfew
      exact h.nextId_free (by omega)
    have ht : p.Transition operation _ _ := Protocol.transition h.orderly.sound operation
    exact (ih (by omega) hfree').moves (Protocol.moves h.quiet h.fit operation hnew) ht.ticks
      ht.delays.gracePeriod (h.distinct hfree')

/-- **Table and timelock agree, so due proposals always execute.** In every state of a run in
which no two of the actions that were queued have one digest:

* every entry of the timelock stands under the digest of its action and time, and belongs to
  exactly one proposal that is neither executed nor canceled, is to be executed at that time,
  which is not zero, and has that action;
* every proposal that is neither executed nor canceled and has a time of execution has all its
  actions in the timelock, as long as the clock is not beyond its grace period;
* every proposal that is queued, at a time that is neither before the clock nor before its time
  of execution, is executed if that is asked for.

Numbers of proposals are words: this holds as long as not more proposals were made than there
are numbers. -/
theorem due_proposals_execute (h : Run config vault steps p)
    (hfew : (steps.filterMap Step.proposed?).length ≤ Word.size 64)
    (hfree : CollisionFree steps) :
    (∀ hash entry, p.state.timelock.get? hash = some entry →
      hash = entry.action.hash entry.eta ∧ entry.eta.toNat ≠ 0 ∧
        ∃! id, ∃ proposal, p.state.governor.get? id = some proposal ∧ proposal.Unsettled ∧
          proposal.eta = entry.eta ∧ entry.action ∈ proposal.actions) ∧
      (∀ id proposal, p.state.governor.get? id = some proposal → proposal.Unsettled →
        proposal.eta.toNat ≠ 0 →
        p.state.clock ≤ proposal.eta.addSat p.state.timelock.params.gracePeriod →
        ∀ action ∈ proposal.actions, ∃ entry,
          p.state.timelock.get? (action.hash proposal.eta) = some entry ∧
            entry.action = action ∧ entry.eta = proposal.eta) ∧
      ∀ id proposal now, p.state.governor.get? id = some proposal → p.state.clock ≤ now →
        proposal.eta ≤ now → p.proposalState id now = .ok .queued →
        ∃ report q, Protocol.execute id now p = .ok report q := by
  have hagrees := h.agrees hfew hfree
  have hentered : ∀ id proposal, p.state.governor.get? id = some proposal → proposal.Unsettled →
      proposal.eta.toNat ≠ 0 →
      p.state.clock ≤ proposal.eta.addSat p.state.timelock.params.gracePeriod →
      ∀ action ∈ proposal.actions, ∃ entry,
        p.state.timelock.get? (action.hash proposal.eta) = some entry ∧
          entry.action = action ∧ entry.eta = proposal.eta := by
    intro id proposal hfind hopen heta hle action haction
    exact hagrees.entered id action proposal.eta ⟨proposal, hfind, hopen, rfl, heta, haction⟩ hle
  refine ⟨fun hash entry hentry => ?_, hentered, fun id proposal now hfind hclock hdue hstate => ?_⟩
  · obtain ⟨hhash, id, proposal, hfind, hopen, heta, hne, haction⟩ :=
      hagrees.owned hash entry hentry
    refine ⟨hhash, hne, id, ⟨proposal, hfind, hopen, heta, haction⟩, ?_⟩
    rintro j ⟨other, hother, hopen', heta', haction'⟩
    exact hagrees.unique j id entry.action entry.eta ⟨other, hother, hopen', heta', hne, haction'⟩
      ⟨proposal, hfind, hopen, heta, hne, haction⟩
  · obtain ⟨found, hfound, hqueued⟩ := Checked.bind_eq_ok.1 hstate
    obtain rfl : found = proposal :=
      Option.some.inj ((Governor.find_eq_ok.1 hfound).symm.trans hfind)
    have hqueued : p.state.council.stateOf found now = .queued := Checked.pure_eq_ok.1 hqueued
    obtain ⟨hopen, -, -, heta, hgrace⟩ := Proposal.of_queued hqueued
    refine Protocol.execute_eq_ok h.fit hclock hfind hqueued hdue fun action haction => ?_
    obtain ⟨entry, hentry, -⟩ := hentered id found hfind hopen heta (Nat.le_trans hclock hgrace)
      action haction
    exact Timelock.isQueued_iff.2 ⟨entry, hentry⟩

/-- The proposal of the small run waits for its time, and is executed when it has come. -/
theorem due_proposals_execute_sample :
    let p := (perform Sample.start Sample.operations).2
    p.state.timelock.queued.size = 1 ∧
      ∃ report q, Protocol.execute (.ofNat 1) (.ofNat 150) p = .ok report q := by
  intro p
  have hfree : CollisionFree (perform Sample.start Sample.operations).1 := by decide +kernel
  have hdue : (p.state.governor.get? (.ofNat 1)).any
      (fun proposal => proposal.eta ≤ Word.ofNat 150) = true := by decide +kernel
  obtain ⟨proposal, hfind, hdue⟩ := (Option.any_eq_true _ _).1 hdue
  refine ⟨by decide +kernel, ?_⟩
  exact (due_proposals_execute Sample.run (by decide +kernel) hfree).2.2 (.ofNat 1) proposal
    (.ofNat 150) hfind (by decide +kernel) (of_decide_eq_true hdue) (by decide +kernel)

end Run

end StakeGovernance
