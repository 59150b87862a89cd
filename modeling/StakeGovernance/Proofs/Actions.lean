import StakeGovernance.Proofs.Councils
import StakeGovernance.Protocol.Execution

/-!
# What actions can change

The actions of a proposal can change the rules of voting, the guardian and the delay of the
timelock, switch capabilities, and move tokens. They can change nothing about stakes and
nothing in the table of proposals, and rules and delays stay such as pass their checks.

* `StakeGovernance.Governor.Reruled`, `StakeGovernance.Timelock.Redelayed` – only **rules**
  or **delays** have changed;
* `StakeGovernance.Protocol.Reconfigured` – the protocol after **some actions**;
* `StakeGovernance.Protocol.keeps_performAll` – actions **reconfigure** the protocol, and
  do no more.
-/

namespace StakeGovernance

/-! ### The governor -/

namespace Governor

variable {g : Governor}

/-- **Only the rules of voting and the guardian have changed.** -/
structure Reruled (g g' : Governor) : Prop where
  address : g'.address = g.address
  proposals : g'.proposals = g.proposals
  latestByProposer : g'.latestByProposer = g.latestByProposer
  nextId : g'.nextId = g.nextId
  valid : g.params.validate = .ok () → g'.params.validate = .ok ()

theorem Reruled.refl (g : Governor) : Reruled g g := ⟨rfl, rfl, rfl, rfl, id⟩

theorem keeps_adopt (params : GovernorParams) : Call.Keeps (Reruled g) (adopt params) := by
  refine Call.keeps_of (fun s _ u hs h => ?_) fun s e u hs h => ?_
  · obtain ⟨_, hvalid, h⟩ := Call.lift_bind_eq_ok.1 h
    obtain rfl := Call.modify_eq_ok.1 h
    exact ⟨hs.address, hs.proposals, hs.latestByProposer, hs.nextId, fun _ => hvalid⟩
  · rcases Call.lift_bind_eq_error.1 h with ⟨-, rfl⟩ | ⟨_, -, h⟩
    · exact hs
    · exact absurd h Call.modify_ne_error

theorem keeps_setGuardian (guardian : Address) : Call.Keeps (Reruled g) (setGuardian guardian) :=
  .modify fun _ hs => ⟨hs.address, hs.proposals, hs.latestByProposer, hs.nextId, hs.valid⟩

end Governor

/-! ### The timelock -/

namespace Timelock

variable {t : Timelock}

/-- **Only the delay of newly queued proposals has changed.** -/
structure Redelayed (t t' : Timelock) : Prop extends Bounded t t' where
  queued : t'.queued = t.queued

theorem Redelayed.refl (t : Timelock) : Redelayed t t := ⟨.refl t, rfl⟩

theorem keeps_setDelay (caller : Address) (delay : Timestamp) :
    Call.Keeps (Redelayed t) (setDelay caller delay) := by
  refine Call.keeps_of (fun s _ u hs h => ?_) fun s e u hs h => setDelay_eq_error h ▸ hs
  obtain ⟨-, hvalid, rfl⟩ := setDelay_eq_ok.1 h
  exact ⟨⟨hs.admin, hs.minDelay, hs.maxDelay, hs.gracePeriod, fun _ => hvalid⟩, hs.queued⟩

end Timelock

/-! ### The protocol -/

namespace Protocol

variable {ν : Type} {p : Protocol ν}

/-- **The protocol after some actions**: nothing has changed about stakes, the table of
proposals, the queue, the clock and the handlers. -/
structure Reconfigured (p q : Protocol ν) : Prop where
  address : q.state.address = p.state.address
  ledger : q.state.ledger = p.state.ledger
  governor : Governor.Reruled p.state.governor q.state.governor
  timelock : Timelock.Redelayed p.state.timelock q.state.timelock
  clock : q.state.clock = p.state.clock
  registry : q.registry = p.registry

theorem Reconfigured.refl (p : Protocol ν) : Reconfigured p p :=
  ⟨rfl, rfl, .refl _, .refl _, rfl, rfl⟩

theorem Reconfigured.note {q : Protocol ν} (h : Reconfigured p q) (event : GovernanceEvent) :
    Reconfigured p (q.note event) :=
  ⟨h.address, h.ledger, h.governor, h.timelock, h.clock, h.registry⟩

theorem keeps_onGovernor {α : Type} {call : Call GovernanceError Governor α}
    (h : Call.Keeps (Governor.Reruled p.state.governor) call) :
    Call.Keeps (Reconfigured p) (onGovernor call) :=
  .part fun q hq => by
    -- the governor is a part of a part: the timelock beside it stays where it is
    have hcouncil : Call.Keeps (fun c : Council => Governor.Reruled p.state.governor c.governor ∧
        c.timelock = q.state.council.timelock) (Council.onGovernor call) :=
      .part fun c hc => ⟨h c.governor hc.1, hc.2⟩
    obtain ⟨hgovernor, htimelock⟩ := hcouncil q.state.council ⟨hq.governor, rfl⟩
    have hdelays : Timelock.Redelayed p.state.timelock
        ((Council.onGovernor call).after q.state.council).timelock := by
      rw [htimelock]
      exact hq.timelock
    exact ⟨hq.address, hq.ledger, hgovernor, hdelays, hq.clock, hq.registry⟩

theorem keeps_onTimelock {α : Type} {call : Call GovernanceError Timelock α}
    (h : Call.Keeps (Timelock.Redelayed p.state.timelock) call) :
    Call.Keeps (Reconfigured p) (onTimelock call) :=
  .part fun q hq => by
    have hcouncil : Call.Keeps (fun c : Council => c.governor = q.state.council.governor ∧
        Timelock.Redelayed p.state.timelock c.timelock) (Council.onTimelock call) :=
      .part fun c hc => ⟨hc.1, h c.timelock hc.2⟩
    obtain ⟨hgovernor, htimelock⟩ := hcouncil q.state.council ⟨rfl, hq.timelock⟩
    have hrules : Governor.Reruled p.state.governor
        ((Council.onTimelock call).after q.state.council).governor := by
      rw [hgovernor]
      exact hq.governor
    exact ⟨hq.address, hq.ledger, hrules, htimelock, hq.clock, hq.registry⟩

/-- A setting that is carried out keeps what its report leaves alone. -/
theorem keeps_change {P : Protocol ν → Prop} {name value : String}
    {call : Call GovernanceError (Protocol ν) Unit}
    (hnote : ∀ q, P q → P (note q (.parameterChanged name value))) (h : Call.Keeps P call) :
    Call.Keeps P (change name value call) :=
  .bind (.part fun q hq => h q hq) fun _ => .bind (.modify hnote) fun _ => .pure _

theorem keeps_upgrade (target : Address) (version : Version) :
    Call.Keeps (Reconfigured p) (upgrade target version) := by
  refine .get_bind fun q hq => Call.Keeps.refuse (P := Reconfigured p)
    (.bind (.set ?_) fun _ => .pure _) q hq
  exact ⟨hq.address, hq.ledger, hq.governor, hq.timelock, hq.clock, hq.registry⟩

theorem keeps_setting {name value : String} {call : Call GovernanceError (Protocol ν) Unit}
    (h : Call.Keeps (Reconfigured p) call) : Call.Keeps (Reconfigured p) (change name value call) :=
  keeps_change (fun _ hq => hq.note _) h

/-- **A command on the protocol itself** changes rules, a delay or a capability. -/
theorem keeps_applyOwn (command : Command) : Call.Keeps (Reconfigured p) (applyOwn command) := by
  cases command with
  | setVotingDelay delay =>
    exact keeps_setting (keeps_onGovernor (.get_bind fun _ => Governor.keeps_adopt _ _))
  | setVotingPeriod period =>
    exact keeps_setting (keeps_onGovernor (.get_bind fun _ => Governor.keeps_adopt _ _))
  | setProposalThreshold threshold =>
    exact keeps_setting (keeps_onGovernor (.get_bind fun _ => Governor.keeps_adopt _ _))
  | setQuorumVotes quorum =>
    exact keeps_setting (keeps_onGovernor (.get_bind fun _ => Governor.keeps_adopt _ _))
  | setGuardian guardian =>
    exact keeps_setting (keeps_onGovernor (Governor.keeps_setGuardian guardian))
  | setTimelockDelay delay =>
    refine keeps_setting (.get_bind fun q hq => ?_)
    exact keeps_onTimelock (Timelock.keeps_setDelay _ delay) q hq
  | upgradeCapability target version => exact keeps_upgrade target version
  | treasuryTransfer target amount => exact .throw _

/-! ### The vault -/

variable {P : ν → Prop}

theorem keeps_vault_onCouncil {α : Type} {call : Call GovernanceError Council α} :
    Call.Keeps (fun q : Protocol ν => P q.vault) (onCouncil call) := .part fun _ hq => hq

/-- A command on the protocol itself leaves the vault alone. -/
theorem keeps_vault_applyOwn (command : Command) :
    Call.Keeps (fun q : Protocol ν => P q.vault) (applyOwn command) := by
  have hchange : ∀ {name value : String} {call : Call GovernanceError Council Unit},
      Call.Keeps (fun q : Protocol ν => P q.vault) (change name value (onCouncil call)) :=
    keeps_change (fun _ hq => hq) keeps_vault_onCouncil
  cases command with
  | setTimelockDelay delay =>
    exact keeps_change (fun _ hq => hq) (.get_bind fun q hq => keeps_vault_onCouncil q hq)
  | upgradeCapability target version =>
    refine .get_bind fun q hq => Call.Keeps.refuse (P := fun q : Protocol ν => P q.vault)
      (.bind (.set ?_) fun _ => .pure _) q hq
    exact hq
  | treasuryTransfer target amount => exact .throw _
  | _ => exact hchange

/-! ### Any action -/

variable [Custody ν]

/-- **An action** changes no more than that, and the vault. -/
theorem keeps_dispatch (action : ProposalAction) :
    Call.Keeps (Reconfigured p) (dispatch action) := by
  refine .bind (.lift _) fun command => .get_bind fun q hq => ?_
  by_cases htarget : action.target = q.state.address
  · rw [if_pos htarget]
    exact keeps_applyOwn command q hq
  · -- a handler is given the vault, and nothing else of the protocol
    rw [if_neg htarget]
    refine Call.Keeps.bind (P := Reconfigured p) (.lift _) (fun handler => ?_) q hq
    refine .part fun r hr => ?_
    exact ⟨hr.address, hr.ledger, hr.governor, hr.timelock, hr.clock, hr.registry⟩

/-- What an action keeps, and a report leaves alone, carrying out the action keeps. -/
theorem keeps_perform {P : Protocol ν → Prop} (hnote : ∀ q event, P q → P (note q event))
    {action : ProposalAction} (h : Call.Keeps P (dispatch action)) (hash : Digest) :
    Call.Keeps P (perform hash action) := by
  intro q hq
  unfold Call.after Call.runFrom perform
  cases hcall : dispatch action q with
  | ok output r => exact hnote r _ (h.of_ok hcall hq)
  | error fault r => exact hnote r _ (h.of_error hcall hq)

/-- Carries out actions one by one, each under its hash. -/
def performAll (actions : List (Digest × ProposalAction)) :
    Call GovernanceError (Protocol ν) (List ActionReceipt) :=
  Call.collect actions fun e => perform e.1 e.2

/-- **Actions reconfigure the protocol**, and do no more. -/
theorem keeps_performAll (actions : List (Digest × ProposalAction)) :
    Call.Keeps (Reconfigured p) (performAll actions) :=
  .collect fun e _ => keeps_perform (fun _ event hq => hq.note event) (keeps_dispatch e.2) e.1

/-- A treasury moves tokens by transfers alone. -/
theorem keeps_handle
    (h : ∀ source target amount, Call.Keeps P (Custody.transfer source target amount))
    (handler : Treasury) (command : Command) : Call.Keeps P (handler.handle command) := by
  cases command with
  | treasuryTransfer target amount =>
    show Call.Keeps P (handler.pay target amount)
    exact .refuse (.bind (.lift _) fun _ => .bind (.part fun w hw => h _ _ _ w hw) fun _ => .pure _)
  | _ => exact .throw _

theorem keeps_vault_dispatch
    (h : ∀ source target amount, Call.Keeps P (Custody.transfer source target amount))
    (action : ProposalAction) : Call.Keeps (fun q : Protocol ν => P q.vault) (dispatch action) := by
  refine .bind (.lift _) fun command => .get_bind fun q hq => ?_
  by_cases htarget : action.target = q.state.address
  · rw [if_pos htarget]
    exact keeps_vault_applyOwn command q hq
  · rw [if_neg htarget]
    exact Call.Keeps.bind (P := fun q : Protocol ν => P q.vault) (.lift _)
      (fun handler => .part fun r hr => keeps_handle h handler command r.vault hr) q hq

/-- **Actions move tokens by transfers alone.** -/
theorem keeps_vault_performAll
    (h : ∀ source target amount, Call.Keeps P (Custody.transfer source target amount))
    (actions : List (Digest × ProposalAction)) :
    Call.Keeps (fun q : Protocol ν => P q.vault) (performAll actions) :=
  .collect fun e _ => keeps_perform (fun _ _ hq => hq) (keeps_vault_dispatch h e.2) e.1

/-- Carrying out an action never fails: there is a receipt for each, with what it was about. -/
theorem performAll_eq_ok (actions : List (Digest × ProposalAction)) (p : Protocol ν) :
    ∃ receipts q, performAll actions p = .ok receipts q ∧
      receipts.map (fun r => (r.hash, r.target, r.signature))
        = actions.map fun e => (e.1, e.2.target, e.2.signature) := by
  induction actions generalizing p with
  | nil => exact ⟨[], p, rfl, rfl⟩
  | cons first rest ih =>
    obtain ⟨hash, action⟩ := first
    have hfirst : ∃ receipt q, perform hash action p = .ok receipt q ∧
        (receipt.hash, receipt.target, receipt.signature)
          = (hash, action.target, action.signature) := by
      unfold perform
      cases dispatch action p with
      | ok output q => exact ⟨_, _, rfl, rfl⟩
      | error fault q => exact ⟨_, _, rfl, rfl⟩
    obtain ⟨receipt, q, hq, hreceipt⟩ := hfirst
    obtain ⟨receipts, r, hr, hreceipts⟩ := ih q
    refine ⟨receipt :: receipts, r, ?_, ?_⟩
    · exact Call.bind_eq_ok.2 ⟨receipt, q, hq, Call.bind_eq_ok.2 ⟨receipts, r, hr, rfl⟩⟩
    · rw [List.map_cons, List.map_cons, hreceipts, hreceipt]

end Protocol

end StakeGovernance
