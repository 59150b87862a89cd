import StakeGovernance.Proofs.States
import StakeGovernance.Protocol.State

/-!
# Reading events

What the events of the journal say about a bucket, a pointer, a proposal and a digest is read
off them one after the other. An event is about one of these at most, and says what has
become of it; all other events are passed over.

* `StakeGovernance.Docket` – what is known **about a proposal**;
* `StakeGovernance.Replay.amount`, `StakeGovernance.Replay.delegate`,
  `StakeGovernance.Replay.docket`, `StakeGovernance.Replay.queued` – what is known after
  **one more event**;
* `StakeGovernance.ProtocolState.Told` – events that **tell the change** from one state to
  another;
* `StakeGovernance.ProtocolState.Told.trans` – changes told **one after the other**.
-/

namespace StakeGovernance

/-! ### Proposals -/

/-- **What is known about a proposal** from its events: the votes of each kind, who has cast
them, and whether it was executed or canceled. -/
structure Docket where
  tally : VoteSupport → Nat
  receipts : OrderedMap Address VoteReceipt
  executed : Bool
  canceled : Bool

namespace Docket

/-- A proposal that was just made. -/
def opened : Docket := ⟨fun _ => 0, .empty, false, false⟩

/-- The docket with a vote entered. -/
def vote (d : Docket) (voter : Address) (support : VoteSupport) (votes : Power) : Docket :=
  { d with
    tally := fun kind => d.tally kind + if kind = support then votes.toNat else 0
    receipts := d.receipts.insert voter ⟨support, votes⟩ }

end Docket

/-- The docket of a proposal as it is. -/
def Proposal.docket (p : Proposal) : Docket :=
  ⟨fun kind => (p.tally kind).toNat, p.receipts, p.executed, p.canceled⟩

/-- The docket of the proposal of a number. -/
def Governor.docket? (g : Governor) (id : ProposalId) : Option Docket :=
  (g.get? id).map Proposal.docket

/-- Nothing is known about a new proposal yet. -/
theorem Proposal.docket_create (id : ProposalId) (proposer : Address)
    (actions : List ProposalAction) (description : String)
    (createdAt snapshot start finish : Timestamp) (quorumVotes : Power) :
    (create id proposer actions description createdAt snapshot start finish quorumVotes).docket
      = .opened := by
  have htally : ∀ kind, ((create id proposer actions description createdAt snapshot start finish
      quorumVotes).tally kind).toNat = 0 := fun kind => by cases kind <;> rfl
  unfold docket Docket.opened
  rw [funext htally]
  rfl

theorem Proposal.docket_recordVote {p q : Proposal} {voter : Address} {support : VoteSupport}
    {votes : Power} (h : p.recordVote voter support votes = .ok q) :
    q.docket = p.docket.vote voter support votes := by
  obtain ⟨-, htally, hreceipts, hq⟩ := recordVote_eq_ok h
  unfold docket Docket.vote
  rw [hreceipts, funext htally, hq]

/-! ### One more event -/

namespace Replay

/-- **The amount in a bucket** after one more event. -/
def amount (owner : Address) (bucket : Timestamp) (before : Amount) : ProtocolEvent → Amount
  | .staking (.stakeChanged o b after) => if owner = o ∧ bucket = b then after else before
  | .staking (.withdrawn o b _) => if owner = o ∧ bucket = b then .zero else before
  | _ => before

/-- **The delegate of an owner** after one more event. -/
def delegate (owner before : Address) : ProtocolEvent → Address
  | .staking (.delegateChanged o _ target) => if owner = o then target else before
  | _ => before

/-- **The docket of a proposal** after one more event. -/
def docket (id : ProposalId) (before : Option Docket) : ProtocolEvent → Option Docket
  | .governance (.proposalCreated i ..) => if id = i then some .opened else before
  | .governance (.voteCast voter i support votes) =>
    if id = i then before.map (·.vote voter support votes) else before
  | .governance (.proposalExecuted i) =>
    if id = i then before.map ({ · with executed := true }) else before
  | .governance (.proposalCanceled i) =>
    if id = i then before.map ({ · with canceled := true }) else before
  | _ => before

/-- **Whether an action waits** under a digest after one more event. -/
def queued (hash : Digest) (before : Bool) : ProtocolEvent → Bool
  | .governance (.actionQueued h ..) => if hash = h then true else before
  | .governance (.actionExecuted h ..) | .governance (.actionCanceled h ..)
  | .governance (.actionExpired h) => if hash = h then false else before
  | _ => before

end Replay

/-! ### Events that say nothing -/

/-- Events that each change nothing change nothing together. -/
theorem foldl_eq_self {α β : Type} {f : β → α → β} {events : List α} {b : β}
    (h : ∀ e ∈ events, ∀ b, f b e = b) : events.foldl f b = b := by
  induction events generalizing b with
  | nil => rfl
  | cons e rest ih =>
    rw [List.foldl_cons, h e List.mem_cons_self]
    exact ih fun e' he' => h e' (List.mem_cons_of_mem _ he')

/-- Changes of governance tell nothing about stakes. -/
theorem Replay.amount_governance (owner : Address) (bucket : Timestamp)
    (events : List GovernanceEvent) (b : Amount) :
    (events.map ProtocolEvent.governance).foldl (amount owner bucket) b = b := by
  refine foldl_eq_self fun e he b => ?_
  obtain ⟨event, -, rfl⟩ := List.mem_map.1 he
  rfl

theorem Replay.delegate_governance (owner : Address) (events : List GovernanceEvent)
    (b : Address) : (events.map ProtocolEvent.governance).foldl (delegate owner) b = b := by
  refine foldl_eq_self fun e he b => ?_
  obtain ⟨event, -, rfl⟩ := List.mem_map.1 he
  rfl

/-- Changes of stakes tell nothing about governance. -/
theorem Replay.docket_staking (id : ProposalId) (events : List StakingEvent)
    (b : Option Docket) : (events.map ProtocolEvent.staking).foldl (docket id) b = b := by
  refine foldl_eq_self fun e he b => ?_
  obtain ⟨event, -, rfl⟩ := List.mem_map.1 he
  rfl

theorem Replay.queued_staking (hash : Digest) (events : List StakingEvent) (b : Bool) :
    (events.map ProtocolEvent.staking).foldl (queued hash) b = b := by
  refine foldl_eq_self fun e he b => ?_
  obtain ⟨event, -, rfl⟩ := List.mem_map.1 he
  rfl

/-! ### Changes that are told -/

/-- **Events that tell the change** of a ledger. -/
structure Ledger.Told (l : Ledger) (events : List ProtocolEvent) (m : Ledger) : Prop where
  amount : ∀ owner bucket,
    events.foldl (Replay.amount owner bucket) (l.amountOf owner bucket) = m.amountOf owner bucket
  delegate : ∀ owner, events.foldl (Replay.delegate owner) (l.delegateOf owner) = m.delegateOf owner

/-- **Events that tell the change** of a council. -/
structure Council.Told (c : Council) (events : List ProtocolEvent) (d : Council) : Prop where
  docket : ∀ id, events.foldl (Replay.docket id) (c.governor.docket? id) = d.governor.docket? id
  queued : ∀ hash,
    events.foldl (Replay.queued hash) (c.timelock.isQueued hash) = d.timelock.isQueued hash

/-- **Events that tell the change** from one state of the protocol to another. -/
structure ProtocolState.Told (s : ProtocolState) (events : List ProtocolEvent)
    (t : ProtocolState) : Prop where
  ledger : s.ledger.Told events t.ledger
  council : s.council.Told events t.council

section Changes

variable {events later : List ProtocolEvent}

theorem Ledger.Told.trans {l m n : Ledger} (h : l.Told events m) (h' : m.Told later n) :
    l.Told (events ++ later) n where
  amount owner bucket := by rw [List.foldl_append, h.amount, h'.amount]
  delegate owner := by rw [List.foldl_append, h.delegate, h'.delegate]

theorem Council.Told.trans {c d e : Council} (h : c.Told events d) (h' : d.Told later e) :
    c.Told (events ++ later) e where
  docket id := by rw [List.foldl_append, h.docket, h'.docket]
  queued hash := by rw [List.foldl_append, h.queued, h'.queued]

/-- **Changes that are told one after the other** are told together. -/
theorem ProtocolState.Told.trans {s t u : ProtocolState} (h : s.Told events t)
    (h' : t.Told later u) : s.Told (events ++ later) u :=
  ⟨h.ledger.trans h'.ledger, h.council.trans h'.council⟩

/-- Nothing is told if nothing has changed. -/
theorem Ledger.Told.refl (l : Ledger) : l.Told [] l := ⟨fun _ _ => rfl, fun _ => rfl⟩

theorem Council.Told.refl (c : Council) : c.Told [] c := ⟨fun _ => rfl, fun _ => rfl⟩

theorem ProtocolState.Told.refl (s : ProtocolState) : s.Told [] s := ⟨.refl _, .refl _⟩

/-- The events of the ledger tell all, if the council has not changed. -/
theorem ProtocolState.told_of_ledger {s : ProtocolState} {l : Ledger} {events : List StakingEvent}
    (h : s.ledger.Told (events.map .staking) l) :
    s.Told (events.map .staking) { s with ledger := l } where
  ledger := h
  council := ⟨fun _ => Replay.docket_staking _ _ _, fun _ => Replay.queued_staking _ _ _⟩

/-- The events of the council tell all, if the ledger has not changed. -/
theorem ProtocolState.told_of_council {s : ProtocolState} {c : Council}
    {events : List GovernanceEvent} (h : s.council.Told (events.map .governance) c) :
    s.Told (events.map .governance) { s with council := c } where
  ledger := ⟨fun _ _ => Replay.amount_governance _ _ _ _, fun _ => Replay.delegate_governance _ _ _⟩
  council := h

end Changes

end StakeGovernance
