import StakeGovernance.Proofs.Lifecycle

/-!
# One open proposal of each proposer

A proposal is open as long as it is pending or active. Whoever makes a proposal must not have
another one open, but the governor looks at one proposal only to see to it, the latest of the
proposer, and at the time of the call only. This is enough. Which proposals are open changes in
one direction: time closes a proposal, and so does whatever is done to it, but nothing opens it
again, since a change of the rules does not reach its times. So a proposal that is open is the
latest of its proposer, whatever time it is from now on.

* `StakeGovernance.Proposal.OpenAt` – what it takes for a proposal to be **open**;
* `StakeGovernance.Protocol.Transition.before` – what a step **finds in the table**;
* `StakeGovernance.Run.latest_of_open` – what is open is **the latest** of its proposer;
* `StakeGovernance.Run.isSome_iff_proposed` – the table has **every number** that was given out;
* `StakeGovernance.Governor.Tracks` – the latest proposal is the one with the **highest number**;
* `StakeGovernance.Run.one_open_proposal_each` – all of it, in **every state of a run**.
-/

namespace StakeGovernance

/-! ### Open proposals -/

namespace Proposal

variable {p q : Proposal} {t t' now grace : Timestamp}

/-- **A proposal is open**: it is not settled, and its vote has not ended. Its vote may end before
it begins, if the record says so; then it is open until it begins. -/
def OpenAt (p : Proposal) (t : Timestamp) : Prop := p.Unsettled ∧ (t < p.start ∨ t ≤ p.finish)

/-- Whether a proposal is open does not depend on how late an execution may be. -/
theorem isOpen_state_iff (p : Proposal) (t grace : Timestamp) :
    (p.state t grace).isOpen = true ↔ p.OpenAt t := by
  have hspec := p.state_spec t grace
  constructor
  · intro hopen
    cases hstate : p.state t grace with
    | pending =>
      rw [hstate] at hspec
      exact ⟨hspec.1, Or.inl hspec.2⟩
    | active =>
      rw [hstate] at hspec
      exact ⟨hspec.1, Or.inr hspec.2.2⟩
    | canceled | executed | defeated | succeeded | expired | queued =>
      rw [hstate] at hopen
      cases hopen
  · rintro ⟨hunsettled, htime⟩
    rw [state_of_unsettled hunsettled]
    split
    · rfl
    · rename_i hbegun
      rw [if_pos (htime.resolve_left hbegun)]
      rfl

/-- **What is open was open at any earlier time.** -/
theorem OpenAt.earlier (h : p.OpenAt t') (hle : t ≤ t') : p.OpenAt t :=
  ⟨h.1, h.2.imp (fun hstart => Nat.lt_of_le_of_lt hle hstart) fun hfinish =>
    Nat.le_trans hle hfinish⟩

/-- **Nothing opens a proposal**: one that has the terms of another and is open is so because the
other one is, unless that one was settled. -/
theorem SameTerms.openAt (h : p.SameTerms q) (hopen : p.Unsettled) (hq : q.OpenAt t) :
    p.OpenAt t := by
  obtain ⟨-, htime⟩ := hq
  rw [h.start, h.finish] at htime
  exact ⟨hopen, htime⟩

/-- A call only changes what is not settled. -/
theorem Evolves.unsettled (h : Evolves now grace p q) : p.Unsettled := by
  cases h with
  | voted hstate => exact unsettled_of_state hstate rfl
  | queued hstate => exact unsettled_of_state hstate rfl
  | canceled hstate => exact unsettled_of_state rfl hstate
  | executed hstate => exact unsettled_of_state hstate rfl

end Proposal

/-! ### The governor -/

namespace Governor

variable {g g' : Governor} {ledger : Ledger} {proposer other : Address} {request : ProposalRequest}
  {now : Timestamp} {id j : ProposalId} {p draft : Proposal}

/-- The proposer of the proposal of a number. -/
def proposer? (g : Governor) (id : ProposalId) : Option Address := (g.get? id).map (·.proposer)

theorem proposer?_eq_some_iff :
    g.proposer? id = some proposer ↔ ∃ p, g.get? id = some p ∧ p.proposer = proposer :=
  Option.map_eq_some_iff

theorem proposer?_enter (g : Governor) (draft : Proposal) (j : ProposalId) :
    (g.enter draft).proposer? j = if j = draft.id then some draft.proposer else g.proposer? j := by
  unfold proposer?
  rw [get?_enter]
  split <;> rfl

theorem latest_enter (g : Governor) (draft : Proposal) (other : Address) :
    (g.enter draft).latestByProposer.get? other
      = if other = draft.proposer then some draft.id else g.latestByProposer.get? other :=
  OrderedMap.get?_insert_eq g.latestByProposer draft.proposer other draft.id

theorem proposer?_of_silent (h : g'.silent = g.silent) (j : ProposalId) :
    g'.proposer? j = g.proposer? j := by
  unfold proposer?
  rw [get?_of_silent h]

/-- The latest proposal of a proposer who makes another one is not open any more. -/
theorem not_openAt_of_draft (h : g.draft ledger proposer request now = .ok draft)
    (hlatest : g.latestByProposer.get? proposer = some id) (hfind : g.get? id = some p) :
    ¬ p.OpenAt now := by
  intro hopen
  obtain ⟨halone, -⟩ := draft_alone h
  have hsome : g.openProposal? proposer now = some id := by
    unfold openProposal?
    rw [hlatest, Option.bind_eq_bind, Option.bind_some, hfind, Option.bind_eq_bind,
      Option.bind_some, if_pos ((p.isOpen_state_iff now .zero).2 hopen)]
  cases halone.symm.trans hsome

end Governor

/-! ### Steps -/

namespace Protocol

variable {ν : Type} [Custody ν] {p q : Protocol ν} {operation : Operation}
  {outcome : Except GovernanceError Outcome} {id : ProposalId} {proposal : Proposal}

/-- **What a step finds in the table** where there is a proposal afterwards that it has not made:
a proposal on the same terms, and the same one if that was settled. -/
theorem Transition.before (ht : Transition p operation outcome q)
    (hnew : (Step.mk p operation outcome).proposed? ≠ some id)
    (hfind : q.state.governor.get? id = some proposal) :
    ∃ before, p.state.governor.get? id = some before ∧ before.SameTerms proposal ∧
      (proposal = before ∨ before.Unsettled) := by
  have hold : (p.state.governor.get? id).isSome := by
    rcases ht.numbers with ⟨-, -, htable⟩ | ⟨hsome, -, htable⟩
    · exact htable id (hfind ▸ rfl)
    · rcases htable id (hfind ▸ rfl) with rfl | hold
      · exact absurd hsome hnew
      · exact hold
  obtain ⟨before, hbefore⟩ := Option.isSome_iff_exists.1 hold
  obtain ⟨later, hlater, haltered⟩ := ht.alters hnew hbefore
  cases hfind.symm.trans hlater
  refine ⟨before, hbefore, ?_⟩
  rcases haltered with rfl | ⟨_, _, _, -, -, hevolves⟩
  · exact ⟨.refl _, Or.inl rfl⟩
  · exact ⟨hevolves.sameTerms, Or.inr hevolves.unsettled⟩

/-- **A proposal that a step has made** is in the table then, under its own number. -/
theorem Transition.find_made (ht : Transition p operation outcome q)
    (hmade : (Step.mk p operation outcome).proposed? = some id) :
    ∃ draft, q.state.governor.get? id = some draft ∧ draft.id = id := by
  rcases ht.made with ⟨hnone, -, -⟩ | ⟨_, _, _, draft, hdraft, -, -, -, henters⟩
  · cases hnone.symm.trans hmade
  · have hid : id = draft.id := Option.some.inj (hmade.symm.trans hdraft)
    refine ⟨draft, ?_, hid.symm⟩
    rw [Governor.get?_of_silent henters.governor, Governor.get?_enter, if_pos hid]

/-- A step that makes no proposal leaves everybody the proposals that they have made. -/
theorem Transition.proposers (ht : Transition p operation outcome q)
    (hnone : (Step.mk p operation outcome).proposed? = none) (j : ProposalId) :
    q.state.governor.proposer? j = p.state.governor.proposer? j := by
  have hnew : (Step.mk p operation outcome).proposed? ≠ some j := fun hsome => by
    cases hnone.symm.trans hsome
  refine Option.ext fun proposer => ?_
  rw [Governor.proposer?_eq_some_iff, Governor.proposer?_eq_some_iff]
  constructor
  · rintro ⟨later, hlater, rfl⟩
    obtain ⟨before, hbefore, hterms, -⟩ := ht.before hnew hlater
    exact ⟨before, hbefore, hterms.proposer.symm⟩
  · rintro ⟨before, hbefore, rfl⟩
    obtain ⟨later, hlater, haltered⟩ := ht.alters hnew hbefore
    obtain ⟨_, hfound, hterms, -⟩ := ht.before hnew hlater
    cases hbefore.symm.trans hfound
    exact ⟨later, hlater, hterms.proposer⟩

/-- **A proposal is open** as far as its state can tell: it is pending or active. -/
def IsOpen (p : Protocol ν) (id : ProposalId) (t : Timestamp) : Prop :=
  p.proposalState id t = .ok .pending ∨ p.proposalState id t = .ok .active

omit [Custody ν] in
theorem isOpen_iff (hfind : p.state.governor.get? id = some proposal) {t : Timestamp} :
    p.IsOpen id t ↔ proposal.OpenAt t := by
  unfold IsOpen
  rw [proposalState_eq_ok hfind, Except.ok.injEq, Except.ok.injEq,
    ← proposal.isOpen_state_iff t p.state.timelock.params.gracePeriod]
  unfold ProposalState.isOpen
  rw [Bool.or_eq_true, decide_eq_true_iff, decide_eq_true_iff]

/-- **What is open is the latest of its proposer.** -/
def OpenLatest (p : Protocol ν) : Prop :=
  ∀ id proposal, p.state.governor.get? id = some proposal → proposal.OpenAt p.state.clock →
    p.state.governor.latestByProposer.get? proposal.proposer = some id

/-- Every step keeps it so. The governor does not look for an open proposal in the table, but if
there was one of the same proposer, it was the latest, which the governor does look at. -/
theorem Transition.openLatest (ht : Transition p operation outcome q) (h : p.OpenLatest) :
    q.OpenLatest := by
  intro id proposal hfind hopen
  have hopen : proposal.OpenAt p.state.clock ∧ proposal.OpenAt q.state.clock :=
    ⟨hopen.earlier ht.ticks, hopen⟩
  -- a proposal that was in the table was open, and the latest of its proposer
  have hold : (Step.mk p operation outcome).proposed? ≠ some id →
      ∃ before, p.state.governor.get? id = some before ∧ before.OpenAt q.state.clock ∧
        p.state.governor.latestByProposer.get? proposal.proposer = some id := by
    intro hnew
    obtain ⟨before, hbefore, hterms, hsettled⟩ := ht.before hnew hfind
    have hunsettled : before.Unsettled := hsettled.elim (fun heq => heq ▸ hopen.1.1) fun h => h
    refine ⟨before, hbefore, hterms.openAt hunsettled hopen.2, ?_⟩
    rw [hterms.proposer]
    exact h id before hbefore (hterms.openAt hunsettled hopen.1)
  rcases ht.made with ⟨hnone, hlatest, -⟩ | ⟨_, _, now, draft, hmade, hdraft, rfl, -, henters⟩
  · obtain ⟨_, -, -, hbefore⟩ := hold fun hsome => by cases hnone.symm.trans hsome
    rw [hlatest]
    exact hbefore
  rw [Governor.latest_of_silent henters.governor, Governor.latest_enter]
  by_cases hid : id = draft.id
  · rw [Governor.get?_of_silent henters.governor, Governor.get?_enter, if_pos hid] at hfind
    cases hfind
    rw [if_pos rfl, hid]
  obtain ⟨before, hbefore, hnow, hlatest⟩ := hold fun hsome =>
    hid (Option.some.inj (hmade.symm.trans hsome)).symm
  rw [henters.ticks.after] at hnow
  split
  · rename_i hproposer
    rw [hproposer] at hlatest
    exact absurd hnow (Governor.not_openAt_of_draft hdraft hlatest hbefore)
  · exact hlatest

end Protocol

/-! ### The latest proposal -/

/-- **The latest proposal of each proposer is the one with the highest number**: it is one of the
proposer's, and there is one wherever there is a proposal, with a number that is not lower. -/
structure Governor.Tracks (g : Governor) : Prop where
  own : ∀ proposer latest, g.latestByProposer.get? proposer = some latest →
    g.proposer? latest = some proposer
  highest : ∀ proposer id, g.proposer? id = some proposer →
    ∃ latest, g.latestByProposer.get? proposer = some latest ∧ id ≤ latest

theorem Governor.Tracks.congr {g g' : Governor} (h : g.Tracks)
    (hlatest : g'.latestByProposer = g.latestByProposer)
    (hproposers : ∀ j, g'.proposer? j = g.proposer? j) : g'.Tracks where
  own proposer latest hsome := by
    rw [hlatest] at hsome
    rw [hproposers]
    exact h.own proposer latest hsome
  highest proposer id hsome := by
    rw [hproposers] at hsome
    rw [hlatest]
    exact h.highest proposer id hsome

/-- A new proposal with a higher number than any other becomes the latest. -/
theorem Governor.Tracks.enter {g : Governor} (h : g.Tracks) {draft : Proposal}
    (hhighest : ∀ j, (g.get? j).isSome → j < draft.id) : (g.enter draft).Tracks := by
  have hbefore : ∀ {j proposer}, g.proposer? j = some proposer → j < draft.id := fun hj =>
    hhighest _ (Option.isSome_map ▸ Option.isSome_of_eq_some hj)
  constructor
  · intro proposer latest hlatest
    rw [latest_enter] at hlatest
    rw [proposer?_enter]
    split at hlatest
    · rename_i hproposer
      rw [← Option.some.inj hlatest, if_pos rfl, hproposer]
    · have hown := h.own proposer latest hlatest
      rw [if_neg fun hid => Nat.lt_irrefl _ (hid ▸ hbefore hown), hown]
  · intro proposer id hid
    rw [proposer?_enter] at hid
    rw [latest_enter]
    split at hid
    · rename_i hdraft
      exact ⟨draft.id, if_pos (Option.some.inj hid).symm, Nat.le_of_eq (congrArg _ hdraft)⟩
    · split
      · exact ⟨draft.id, rfl, Nat.le_of_lt (hbefore hid)⟩
      · exact h.highest proposer id hid

/-! ### Runs -/

namespace Run

variable {ν : Type} [Custody ν] {config : ProtocolConfig} {vault : ν} {steps : List (Step ν)}
  {p : Protocol ν} {id : ProposalId} {proposal : Proposal}

theorem openLatest (h : Run config vault steps p) : p.OpenLatest := by
  refine h.invariant (P := fun _ p => p.OpenLatest) (fun p hp => ?_)
    fun _ _ _ _ _ _ _ ht ih => ht.openLatest ih
  obtain ⟨rfl, -⟩ := Protocol.create_eq_ok hp
  intro id proposal hfind
  cases hfind

/-- **What is open** at a time that is not over is **the latest** of its proposer. -/
theorem latest_of_open (h : Run config vault steps p)
    (hfind : p.state.governor.get? id = some proposal) {t : Timestamp} (ht : p.state.clock ≤ t)
    (hopen : proposal.OpenAt t) :
    p.state.governor.latestByProposer.get? proposal.proposer = some id :=
  h.openLatest id proposal hfind (hopen.earlier ht)

/-- **A proposal is in the table under its own number.** -/
theorem id_of_get? (h : Run config vault steps p)
    (hfind : p.state.governor.get? id = some proposal) : proposal.id = id := by
  refine h.invariant (P := fun _ p => ∀ id proposal,
    p.state.governor.get? id = some proposal → proposal.id = id) (fun p hp id proposal hfind => ?_)
    (fun _ p operation outcome q _ _ ht ih id proposal hfind => ?_) id proposal hfind
  · obtain ⟨rfl, -⟩ := Protocol.create_eq_ok hp
    cases hfind
  · by_cases hnew : (Step.mk p operation outcome).proposed? = some id
    · obtain ⟨draft, hdraft, hid⟩ := ht.find_made hnew
      rw [← hid, Option.some.inj (hfind.symm.trans hdraft)]
    · obtain ⟨before, hbefore, hterms, -⟩ := ht.before hnew hfind
      exact hterms.id.trans (ih id before hbefore)

/-- **The table has the numbers that were given out**, and no other ones. -/
theorem isSome_iff_proposed (h : Run config vault steps p) :
    (p.state.governor.get? id).isSome ↔ id ∈ steps.filterMap Step.proposed? := by
  constructor
  · intro hfind
    obtain ⟨n, hn⟩ := h.numbered
    exact hn.given ▸ hn.table id hfind
  refine h.invariant (P := fun steps p => ∀ id ∈ steps.filterMap Step.proposed?,
    (p.state.governor.get? id).isSome) (fun p hp id hid => ?_)
    (fun steps p operation outcome q _ _ ht ih id hid => ?_) id
  · cases hid
  by_cases hnew : (Step.mk p operation outcome).proposed? = some id
  · obtain ⟨draft, hdraft, -⟩ := ht.find_made hnew
    exact hdraft ▸ rfl
  · rw [List.filterMap_append, List.mem_append] at hid
    have hbefore : id ∈ steps.filterMap Step.proposed? := hid.resolve_right fun hmade => by
      obtain ⟨s, hs, hsome⟩ := List.mem_filterMap.1 hmade
      rw [List.mem_singleton.1 hs] at hsome
      exact hnew hsome
    obtain ⟨before, hfind⟩ := Option.isSome_iff_exists.1 (ih id hbefore)
    obtain ⟨later, hlater, -⟩ := ht.alters hnew hfind
    exact hlater ▸ rfl

/-- The numbers are those from one up to the one before the next, as long as not all have been
given out. -/
theorem isSome_iff_le (h : Run config vault steps p)
    (hfew : (steps.filterMap Step.proposed?).length < Word.size 64) :
    (p.state.governor.get? id).isSome
      ↔ 1 ≤ id.toNat ∧ id ≤ p.state.governor.nextId.previous := by
  obtain ⟨n, hn⟩ := h.numbered
  rw [hn.given, length_numbers] at hfew
  rw [h.isSome_iff_proposed, hn.given, mem_numbers_iff hfew, hn.next, Word.le_def,
    previous_ofNat hfew]

/-- **The latest proposal is the one with the highest number**, as long as not all numbers have
been given out. -/
theorem tracks (h : Run config vault steps p)
    (hfew : (steps.filterMap Step.proposed?).length < Word.size 64) :
    p.state.governor.Tracks := by
  refine h.invariant (P := fun steps p =>
    (steps.filterMap Step.proposed?).length < Word.size 64 → p.state.governor.Tracks)
    (fun p hp _ => ?_) (fun steps p operation outcome q hrun _ ht ih hfew => ?_) hfew
  · obtain ⟨rfl, -⟩ := Protocol.create_eq_ok hp
    exact ⟨fun _ _ hlatest => (by cases hlatest), fun _ _ hid => by cases hid⟩
  rw [List.filterMap_append, List.length_append] at hfew
  have ih := ih (Nat.lt_of_le_of_lt (Nat.le_add_right _ _) hfew)
  rcases ht.made with ⟨hnone, hlatest, -⟩ | ⟨_, _, _, draft, hmade, -, -, hid, henters⟩
  · exact ih.congr hlatest (ht.proposers hnone)
  -- the number of the new proposal has not been given out, and it is higher than all that have
  obtain ⟨n, hn⟩ := hrun.numbered
  rw [List.filterMap_cons_some hmade, hn.given, length_numbers] at hfew
  have hfew : n + 1 < Word.size 64 := hfew
  have hentered : (p.state.governor.enter draft).Tracks := ih.enter fun j hj => by
    have hlast := ((mem_numbers_iff (Nat.lt_of_succ_lt hfew)).1 (hn.table j hj)).2
    rw [hid, hn.next, Word.lt_def, Word.toNat_ofNat, Nat.mod_eq_of_lt hfew]
    exact Nat.lt_succ_of_le hlast
  exact hentered.congr (Governor.latest_of_silent henters.governor)
    (Governor.proposer?_of_silent henters.governor)

/-- **One open proposal of each proposer.** Take any state of a run, and any time from its clock
on. No two proposals of one proposer are pending or active at that time, though the delay and the
length of a vote may have been changed between them. Every proposal is in the table under its own
number. The numbers of the table are those from one up to the one before the next, and the latest
proposal of each proposer is the one with the highest number.

Numbers of proposals are words: the last two hold as long as not all of them have been given out,
after which they start again. -/
theorem one_open_proposal_each (h : Run config vault steps p) :
    (∀ t, p.state.clock ≤ t → ∀ i j a b,
      p.state.governor.get? i = some a → p.state.governor.get? j = some b →
      a.proposer = b.proposer → p.IsOpen i t → p.IsOpen j t → i = j) ∧
    (∀ id proposal, p.state.governor.get? id = some proposal → proposal.id = id) ∧
    ((steps.filterMap Step.proposed?).length < Word.size 64 →
      (∀ id, (p.state.governor.get? id).isSome
        ↔ 1 ≤ id.toNat ∧ id ≤ p.state.governor.nextId.previous) ∧
      p.state.governor.Tracks) := by
  refine ⟨fun t ht i j a b hi hj hproposer hopen hopen' => ?_, fun _ _ => h.id_of_get?,
    fun hfew => ⟨fun _ => h.isSome_iff_le hfew, h.tracks hfew⟩⟩
  have hlatest := h.latest_of_open hi ht ((Protocol.isOpen_iff hi).1 hopen)
  have hlatest' := h.latest_of_open hj ht ((Protocol.isOpen_iff hj).1 hopen')
  rw [hproposer, hlatest'] at hlatest
  exact (Option.some.inj hlatest).symm

/-- In the small run, the proposer makes a second proposal when the vote on the first one has
ended. From then on the second one is the only one that is open. -/
theorem one_open_proposal_each_sample :
    let operations := Sample.operations.take 2 ++
      [.request (.propose Sample.alice Sample.content) (.ofNat 40)]
    let p := (perform Sample.start operations).2
    p.state.governor.proposer? (.ofNat 2) = some Sample.alice ∧ p.IsOpen (.ofNat 2) (.ofNat 45) ∧
      (∀ i, p.state.governor.proposer? i = some Sample.alice → p.IsOpen i (.ofNat 45) →
        i = .ofNat 2) ∧
      (∀ id, (p.state.governor.get? id).isSome ↔ 1 ≤ id.toNat ∧ id.toNat ≤ 2) ∧
      ∃ latest, p.state.governor.latestByProposer.get? Sample.alice = some latest ∧
        (.ofNat 2) ≤ latest := by
  intro operations p
  have hrun : Run Sample.config Sample.vault (perform Sample.start operations).1 p :=
    (Run.create (by rfl)).perform_run operations
  have hproposer : p.state.governor.proposer? (.ofNat 2) = some Sample.alice := by decide +kernel
  have hopen : p.IsOpen (.ofNat 2) (.ofNat 45) := Or.inr (by decide +kernel)
  have hnext : p.state.governor.nextId.previous = .ofNat 2 := by decide +kernel
  obtain ⟨hone, -, hnumbers⟩ := hrun.one_open_proposal_each
  obtain ⟨hids, hlatest⟩ := hnumbers (by decide +kernel)
  refine ⟨hproposer, hopen, fun i hi hiopen => ?_, fun id => ?_, hlatest.highest _ _ hproposer⟩
  · obtain ⟨a, ha, hother⟩ := Governor.proposer?_eq_some_iff.1 hi
    obtain ⟨b, hb, halice⟩ := Governor.proposer?_eq_some_iff.1 hproposer
    exact hone (.ofNat 45) (by decide +kernel) i (.ofNat 2) a b ha hb (hother.trans halice.symm)
      hiopen hopen
  · rw [hids, hnext]
    exact Iff.rfl

end Run

end StakeGovernance
