import StakeGovernance.Proofs.StakeChanges

/-!
# Actions that wait

An action waits from the time its proposal is queued until the proposal is executed or
canceled. The table tells which actions wait, and the timelock has entries for them. What an
operation does to the two is one of four things: it leaves both alone, it lets the actions of
one proposal begin to wait, it ends the waiting of one proposal, or it removes entries that are
too late to be executed.

* `StakeGovernance.Protocol.Waits` – an action **waits** for its execution;
* `StakeGovernance.Protocol.Moves` – what happens to **waiting actions and their entries**;
* `StakeGovernance.Protocol.moves` – every operation does **one of these things**.
-/

namespace StakeGovernance

/-- **An action of a proposal waits** for a time of execution. -/
structure Proposal.Awaits (proposal : Proposal) (action : ProposalAction) (eta : Timestamp) :
    Prop where
  unsettled : proposal.Unsettled
  eta_eq : proposal.eta = eta
  eta_ne : eta.toNat ≠ 0
  mem : action ∈ proposal.actions

namespace Protocol

variable {ν α : Type} {p q : Protocol ν} {id : ProposalId} {action : ProposalAction}
  {eta now : Timestamp} {hash : Digest} {entry : QueuedAction} {proposal : Proposal}

/-- The entry of the timelock under a digest. -/
def entry? (p : Protocol ν) (hash : Digest) : Option QueuedAction := p.state.timelock.get? hash

/-- **An action waits** for its execution at a time, as part of the proposal of a number. -/
def Waits (p : Protocol ν) (id : ProposalId) (action : ProposalAction) (eta : Timestamp) : Prop :=
  ∃ proposal, p.state.governor.get? id = some proposal ∧ proposal.Awaits action eta

theorem waits_iff (hfind : p.state.governor.get? id = some proposal) :
    p.Waits id action eta ↔ proposal.Awaits action eta := by
  constructor
  · rintro ⟨other, hother, hawaits⟩
    cases hother.symm.trans hfind
    exact hawaits
  · intro hawaits
    exact ⟨proposal, hfind, hawaits⟩

theorem waits_congr (h : q.state.governor.get? id = p.state.governor.get? id) :
    q.Waits id action eta ↔ p.Waits id action eta := by
  unfold Waits
  rw [h]

/-! ### What can happen -/

/-- **What happens to waiting actions and their entries.** -/
inductive Moves (p q : Protocol ν) : Prop where
  /-- Nothing. -/
  | stays (hwaits : ∀ id action eta, q.Waits id action eta ↔ p.Waits id action eta)
    (hentries : ∀ hash, q.entry? hash = p.entry? hash)
  /-- The actions of a proposal begin to wait. -/
  | enters (id : ProposalId) (actions : List ProposalAction) (eta : Timestamp)
    (hwaits : ∀ j action t,
      q.Waits j action t ↔ p.Waits j action t ∨ j = id ∧ action ∈ actions ∧ t = eta)
    (hlate : q.state.clock ≤ eta)
    (hfresh : ∀ action ∈ actions, p.entry? (action.hash eta) = none)
    (hentries : ∀ hash entry, q.entry? hash = some entry ↔
      (∃ action ∈ actions, hash = action.hash eta ∧ entry = ⟨action, eta, q.state.clock⟩) ∨
        (∀ action ∈ actions, hash ≠ action.hash eta) ∧ p.entry? hash = some entry)
  /-- The actions of a proposal do not wait any more. -/
  | leaves (id : ProposalId)
    (hwaits : ∀ j action t, q.Waits j action t ↔ p.Waits j action t ∧ j ≠ id)
    (hentries : ∀ hash entry, q.entry? hash = some entry ↔
      p.entry? hash = some entry ∧ ∀ action t, p.Waits id action t → hash ≠ action.hash t)
  /-- Entries that are too late are removed. -/
  | prunes (hwaits : ∀ id action eta, q.Waits id action eta ↔ p.Waits id action eta)
    (hentries : ∀ hash entry, q.entry? hash = some entry ↔ p.entry? hash = some entry ∧
      q.state.clock ≤ entry.eta.addSat p.state.timelock.params.gracePeriod)

theorem moves_of_eq (hgovernor : ∀ id, q.state.governor.get? id = p.state.governor.get? id)
    (htimelock : q.state.timelock.queued = p.state.timelock.queued) : Moves p q := by
  refine .stays (fun id action eta => waits_congr (hgovernor id)) fun hash => ?_
  show q.state.timelock.queued.get? hash = _
  rw [htimelock]
  rfl

/-! ### Operations that fail, and operations of other kinds -/

theorem Refused.moves [Custody ν] (h : Refused p q) : Moves p q := by
  rw [h.rest]
  exact .stays (fun _ _ _ => Iff.rfl) fun _ => rfl

/-- A request about stakes leaves waiting actions alone. -/
theorem moves_of_staking [Custody ν] {request : Request} {owner : Address} {response : Response}
    (hstaker : request.staker? = some owner) (h : request.run now p = .ok response q) :
    Moves p q := by
  obtain ⟨change, v, -, -, -, -, rfl⟩ := staking_eq_ok hstaker h
  refine moves_of_eq (fun id => ?_) ?_
  · rw [record_governor]
    rfl
  · rw [record_timelock]
    rfl

/-! ### One proposal is put in -/

section Put

variable (hput : ∀ j, q.state.governor.get? j
  = if j = id then some proposal else p.state.governor.get? j)
include hput

/-- What waits after one proposal of the table has been put in. -/
theorem waits_of_put {j : ProposalId} :
    q.Waits j action eta ↔ if j = id then proposal.Awaits action eta else p.Waits j action eta := by
  split
  · rename_i hj
    exact waits_iff ((hput j).trans (if_pos hj))
  · rename_i hj
    exact waits_congr ((hput j).trans (if_neg hj))

/-- If a proposal is put in for which the same actions wait as for the one before it, nothing
happens. -/
theorem moves_of_put (hsame : ∀ action eta, proposal.Awaits action eta ↔ p.Waits id action eta)
    (hentries : ∀ hash, q.entry? hash = p.entry? hash) : Moves p q := by
  refine .stays (fun j action eta => ?_) hentries
  rw [waits_of_put hput]
  split
  · rename_i hj
    rw [hj]
    exact hsame action eta
  · rfl

/-- **A proposal that leaves** takes its entries with it. -/
theorem moves_of_leave {before : Proposal}
    (hfind : p.state.governor.get? id = some before) (hopen : before.Unsettled)
    (heta : before.eta.toNat ≠ 0) (hsettled : ¬ proposal.Unsettled)
    (hentries : ∀ hash, q.entry? hash = if ∃ action ∈ before.actions, hash = action.hash before.eta
      then none else p.entry? hash) : Moves p q := by
  refine .leaves id (fun j action t => ?_) fun hash entry => ?_
  · rw [waits_of_put hput]
    split
    · rename_i hj
      constructor
      · intro hawaits
        exact absurd hawaits.unsettled hsettled
      · rintro ⟨-, hne⟩
        exact absurd hj hne
    · rename_i hj
      exact (and_iff_left hj).symm
  · rw [hentries]
    split
    · rename_i hgone
      obtain ⟨action, haction, hhash⟩ := hgone
      constructor
      · intro hnone
        cases hnone
      · rintro ⟨-, hothers⟩
        exact absurd hhash (hothers action before.eta
          ((waits_iff hfind).2 ⟨hopen, rfl, heta, haction⟩))
    · rename_i hstays
      refine (and_iff_left ?_).symm
      intro action t hwaits hhash
      have hawaits := (waits_iff hfind).1 hwaits
      exact hstays ⟨action, hawaits.mem, hawaits.eta_eq ▸ hhash⟩

end Put

/-! ### Calls on the council -/

/-- What a call on the council has done is found in the table, in the timelock and on the
clock. -/
theorem council_eq_ok {call : Call GovernanceError Council α} {a : α}
    (h : settled now (onCouncil call) p = .ok a q) :
    ∃ c, call p.state.council = .ok a c ∧ (∀ id, q.state.governor.get? id = c.governor.get? id) ∧
      (∀ hash, q.entry? hash = c.timelock.get? hash) ∧ q.state.clock = now := by
  obtain ⟨r, hcall, rfl⟩ := settled_eq_ok.1 h
  obtain ⟨c, hc, rfl⟩ := onCouncil_eq_ok hcall
  refine ⟨c, hc, fun id => ?_, fun hash => ?_, ?_⟩
  · rw [record_governor]
    rfl
  · unfold entry?
    rw [record_timelock]
    rfl
  · rw [record_clock]
    rfl

/-- **A new proposal** has nothing that waits yet. -/
theorem moves_of_propose {proposer : Address} {content : ProposalRequest}
    (h : settled now (onGovernor (Governor.propose p.state.ledger proposer content now)) p
      = .ok id q) (hnew : p.state.governor.get? p.state.governor.nextId = none) : Moves p q := by
  obtain ⟨c, hc, hgovernor, hentries, -⟩ := council_eq_ok h
  obtain ⟨g, hg, rfl⟩ := Call.part_eq_ok.1 hc
  obtain ⟨draft, hdraft, rfl, rfl⟩ := Governor.propose_eq_ok hg
  refine moves_of_put (fun j => (hgovernor j).trans (Governor.get?_enter _ _ _))
    (fun action eta => ?_) hentries
  obtain ⟨_, _, _, -, -, -, rfl⟩ := Governor.draft_eq_ok hdraft
  constructor
  · intro hawaits
    exact absurd (congrArg Word.toNat hawaits.eta_eq).symm hawaits.eta_ne
  · rintro ⟨other, hother, -⟩
    cases hnew.symm.trans hother

/-- **A vote** changes nothing about what waits. -/
theorem moves_of_vote {voter : Address} {support : VoteSupport} {votes : Power}
    (h : settled now (onGovernor (Governor.castVote p.state.ledger voter id support now)) p
      = .ok votes q) : Moves p q := by
  obtain ⟨c, hc, hgovernor, hentries, -⟩ := council_eq_ok h
  obtain ⟨g, hg, rfl⟩ := Call.part_eq_ok.1 hc
  obtain ⟨voted, hballot, rfl⟩ := Governor.castVote_eq_ok hg
  obtain ⟨before, hbefore, -, -, -, -, hrecord⟩ := Governor.ballot_eq_ok hballot
  refine moves_of_put (fun j => (hgovernor j).trans (Governor.get?_put _ _ _ _))
    (fun action eta => ?_) hentries
  rw [waits_iff hbefore]
  obtain ⟨-, -, -, hvoted⟩ := Proposal.recordVote_eq_ok hrecord
  constructor
  · intro hawaits
    rw [hvoted] at hawaits
    exact ⟨hawaits.unsettled, hawaits.eta_eq, hawaits.eta_ne, hawaits.mem⟩
  · intro hawaits
    rw [hvoted]
    exact ⟨hawaits.unsettled, hawaits.eta_eq, hawaits.eta_ne, hawaits.mem⟩

/-- **The actions of a proposal that is queued** begin to wait. -/
theorem moves_of_queue (hfit : p.state.council.Fit)
    (h : settled now (onCouncil (Council.queue id now)) p = .ok eta q) : Moves p q := by
  obtain ⟨c, hc, hgovernor, hentries, hclock⟩ := council_eq_ok h
  rcases hfit.queue_spec id now with ⟨_, hspec⟩ | ⟨before, _, hfind, hstate, heta, hadmits, hspec⟩
  · cases hc.symm.trans hspec
  cases hc.symm.trans hspec
  obtain ⟨hopen, hended, -, hzero⟩ := Proposal.of_succeeded hstate
  have heta := Word.add?_eq_some_iff.1 heta
  have hended : before.finish.toNat < now.toNat := hended
  refine .enters id before.actions eta (fun j action t => ?_) ?_ hadmits.fresh fun hash entry => ?_
  · rw [waits_of_put fun j => (hgovernor j).trans (Governor.get?_put _ _ _ _)]
    split
    · rename_i hj
      rw [hj, waits_iff hfind]
      constructor
      · intro hawaits
        exact Or.inr ⟨rfl, hawaits.mem, hawaits.eta_eq.symm⟩
      · rintro (hawaits | ⟨-, haction, rfl⟩)
        · -- before it was queued, it had no time of execution
          exact absurd ((congrArg Word.toNat hawaits.eta_eq).symm.trans hzero) hawaits.eta_ne
        · exact ⟨hopen, rfl, by omega, haction⟩
    · rename_i hj
      constructor
      · exact Or.inl
      · rintro (hwaits | ⟨hid, -, -⟩)
        · exact hwaits
        · exact absurd hid hj
  · rw [hclock, Word.le_def]
    omega
  · rw [hentries, hclock]
    exact Timelock.get?_enterAll hadmits.distinct

/-- **The actions of a proposal that is canceled** do not wait any more. -/
theorem moves_of_cancel {caller : Address} {u : Unit} (hfit : p.state.council.Fit)
    (h : settled now (onCouncil (Council.cancel p.state.ledger caller id now)) p = .ok u q) :
    Moves p q := by
  obtain ⟨c, hc, hgovernor, hentries, -⟩ := council_eq_ok h
  rcases hfit.cancel_spec p.state.ledger caller id now with
    ⟨_, hspec⟩ | ⟨before, hfind, hopen, hspec⟩
  · cases hc.symm.trans hspec
  cases hc.symm.trans hspec
  have hput := fun j => (hgovernor j).trans (Governor.get?_put _ _ _ _)
  have hsettled : ¬ ({ before with canceled := true } : Proposal).Unsettled := by
    rintro ⟨hcanceled, -⟩
    cases hcanceled
  cases hzero : before.eta.isZero with
  | true =>
    -- it was not queued, so that it had nothing that waits
    rw [hzero] at hentries
    refine moves_of_put hput (fun action t => ?_) hentries
    rw [waits_iff hfind]
    constructor
    · intro hawaits
      exact absurd hawaits.unsettled hsettled
    · intro hawaits
      have heta := hawaits.eta_ne
      rw [← hawaits.eta_eq] at heta
      exact absurd (Word.isZero_iff.1 hzero) heta
  | false =>
    rw [hzero] at hentries
    refine moves_of_leave hput hfind (Proposal.unsettled_of_state rfl hopen) ?_ hsettled
      fun hash => (hentries hash).trans (Timelock.get?_dropAll _ _ _ _)
    intro heta
    cases hzero.symm.trans (Word.isZero_iff.2 heta)

/-- **Entries that are too late** are removed. -/
theorem moves_of_prune {hashes : List Digest}
    (h : settled now (onTimelock (Timelock.pruneStale now)) p = .ok hashes q) : Moves p q := by
  obtain ⟨c, hc, hgovernor, hentries, hclock⟩ := council_eq_ok h
  obtain ⟨t, ht, rfl⟩ := Call.part_eq_ok.1 hc
  refine .prunes (fun id action eta => waits_congr (hgovernor id)) fun hash entry => ?_
  rw [hentries, hclock]
  exact Timelock.get?_pruneStale ht

variable [Custody ν]

/-- **The actions of a proposal that is executed** do not wait any more. -/
theorem moves_of_execute {report : ExecutionReport} (hfit : p.state.council.Fit)
    (h : settled now (do
      let released ← onCouncil (Council.release id now)
      let receipts ← performAll released.actions
      return ⟨id, released.eta, receipts⟩) p = .ok report q) : Moves p q := by
  obtain ⟨r, hcall, rfl⟩ := settled_eq_ok.1 h
  obtain ⟨released, s, hrelease, hrest⟩ := Call.bind_eq_ok.1 hcall
  obtain ⟨receipts, s', hperform, hpure⟩ := Call.bind_eq_ok.1 hrest
  obtain ⟨-, rfl⟩ := Call.pure_eq_ok.1 hpure
  obtain ⟨c, hc, rfl⟩ := onCouncil_eq_ok hrelease
  rcases hfit.release_spec id now with ⟨_, hspec⟩ | ⟨before, hfind, hstate, hspec⟩
  · cases hc.symm.trans hspec
  cases hc.symm.trans hspec
  -- the actions change rules and delays, but neither the table nor the queue
  have hrest : Reconfigured _ s' := (keeps_performAll _).of_ok hperform (.refl _)
  obtain ⟨hopen, -, -, heta, -⟩ := Proposal.of_queued hstate
  have hput : ∀ j, ((s'.withClock now).record now).state.governor.get? j
      = if j = id then some { before with executed := true } else p.state.governor.get? j := by
    intro j
    rw [record_governor]
    exact (hrest.governor.get? j).trans (Governor.get?_put _ _ _ _)
  refine moves_of_leave hput hfind hopen heta ?_ fun hash => ?_
  · rintro ⟨-, hexecuted⟩
    cases hexecuted
  · have hqueued : s'.state.timelock.get? hash
        = (p.state.timelock.takeAll before.actions before.eta).get? hash :=
      congrArg (OrderedMap.get? · hash) hrest.timelock.queued
    unfold entry?
    rw [record_timelock]
    exact hqueued.trans (Timelock.get?_takeAll _ _ _ _)

/-! ### All operations -/

/-- **Every operation does one of these things**, in a council that is fit for work and as
long as a new proposal gets a number that is not in the table. -/
theorem moves (hquiet : p.Quiet) (hfit : p.state.council.Fit) (operation : Operation)
    (hnew : (Step.take p operation).proposed?.isSome →
      p.state.governor.get? p.state.governor.nextId = none) :
    Moves p (operation.run.after p) := by
  cases hrun : operation.run p with
  | error e q =>
    rw [Call.after_of_error hrun]
    exact (refused hquiet hfit hrun).moves
  | ok outcome q =>
    rw [Call.after_of_ok hrun]
    cases operation with
    | request request now =>
      obtain ⟨response, hrequest, rfl⟩ := operation_eq_ok hrun
      cases request with
      | stake | extend | withdraw | delegate => exact moves_of_staking rfl hrequest
      | propose proposer content =>
        obtain ⟨id, -, hread, hid⟩ := request_eq_ok hrequest
        obtain ⟨_, -, hsettled⟩ := Call.lift_bind_eq_ok.1 (Call.get_bind_eq_ok.1 hread)
        refine moves_of_propose hsettled (hnew ?_)
        unfold Step.take Step.proposed?
        rw [Call.runFrom, hrun, hid]
        rfl
      | vote voter id support =>
        obtain ⟨_, -, hread, -⟩ := request_eq_ok hrequest
        exact moves_of_vote (Call.get_bind_eq_ok.1 hread)
      | queue id =>
        obtain ⟨_, -, hsettled, -⟩ := request_eq_ok hrequest
        exact moves_of_queue hfit hsettled
      | execute id =>
        obtain ⟨_, -, hsettled, -⟩ := request_eq_ok hrequest
        exact moves_of_execute hfit hsettled
      | cancel caller id =>
        obtain ⟨_, -, hread, -⟩ := request_eq_ok (f := fun _ => .canceled) hrequest
        exact moves_of_cancel hfit (Call.get_bind_eq_ok.1 hread)
      | prune =>
        obtain ⟨_, -, hsettled, -⟩ := request_eq_ok hrequest
        exact moves_of_prune hsettled
    | register target version handler =>
      obtain ⟨_, _, hregister, hpure⟩ := Call.bind_eq_ok.1 hrun
      obtain ⟨-, rfl⟩ := Call.pure_eq_ok.1 hpure
      have hregister := Call.get_bind_eq_ok.1 hregister
      obtain ⟨-, hregister⟩ := Call.refuse_eq_ok.1 hregister
      obtain ⟨_, -, hset⟩ := Call.lift_bind_eq_ok.1 hregister
      obtain rfl := Call.set_eq_ok.1 hset
      exact moves_of_eq (fun _ => rfl) rfl
    | drain =>
      cases hrun
      exact moves_of_eq (fun _ => rfl) rfl

end Protocol

end StakeGovernance
