import StakeGovernance.Proofs.Frames
import StakeGovernance.Proofs.Tables

/-!
# Admitted actions can be dispatched

Where an action may be aimed is checked when its proposal is made; where it goes is decided when
the proposal is executed. In between, other proposals may have switched capabilities to other
versions, and handlers may have been registered. But what an action needs is never taken away:
the address of the protocol stays, a capability that has an active version keeps having one, and
a version is made active only if it has a handler. So an action that was admitted reaches whoever
carries it out, and if it fails there, that is for a reason of its own.

* `StakeGovernance.ProtocolState.Admits` – **where a command belongs**;
* `StakeGovernance.Protocol.Ready` – every active version **has a handler**, and every action in
  the table **is admitted**;
* `StakeGovernance.ActionFault.OwnTo` – the faults that are **a command's own**;
* `StakeGovernance.Protocol.Covered.dispatch_eq_error` – an admitted action has **no other faults**;
* `StakeGovernance.Run.admitted_actions_reach_handlers` – in a run, **every executed action**
  reaches whoever carries it out.
-/

namespace StakeGovernance

/-! ### Where commands belong -/

/-- **Where a command belongs**: one on the protocol itself is aimed at the protocol, any other
one at a capability. -/
def ProtocolState.Admits (s : ProtocolState) (target : Address) (command : Command) : Prop :=
  if target = s.address then command.isGovernance = true
  else command.isGovernance = false ∧ s.capabilities.contains target = true

theorem ProtocolState.checkTarget_eq_ok {s : ProtocolState} {action : ProposalAction} :
    s.checkTarget action = .ok () ↔
      ∃ command, action.command = .ok command ∧ s.Admits action.target command := by
  unfold checkTarget Admits
  rw [Checked.bind_eq_ok]
  refine exists_congr fun command => and_congr_right fun _ => ?_
  split
  · cases command.isGovernance <;> simp [pure, Except.pure, throw, throwThe, MonadExceptOf.throw]
  · cases command.isGovernance
    · cases s.capabilities.contains action.target <;>
        simp [pure, Except.pure, throw, throwThe, MonadExceptOf.throw]
    · simp [bind, Except.bind, throw, throwThe, MonadExceptOf.throw]

/-- **The faults that are a command's own.** A payment can be one that nobody makes, or that the
treasury or the vault refuses; a switch can be one to a version that has no handler; and a
setting can be one that is not sound. No other fault is a matter of the command. -/
def ActionFault.OwnTo (command : Command) : ActionFault → Prop
  | .transferToZero => ∃ target amount, command = .treasuryTransfer target amount ∧
      target.isZero = true
  | .aboveCap amount cap => ∃ target, command = .treasuryTransfer target amount ∧ cap < amount
  | .vault _ => ∃ target amount, command = .treasuryTransfer target amount
  | .notRegistered version target => command = .upgradeCapability target version
  | .governance _ => command.isGovernance = true
  | .unsupported _ _ | .noCapability _ | .noHandler _ _ | .ownTransfer => False

/-- A version has a handler after one was registered if it had one before, or got it now. -/
theorem Registry.hasVersion_register {r r' : Registry} {target other : Address}
    {version v : Version} {handler : Treasury} (h : r.register target version handler = .ok r') :
    r'.hasVersion other v = true ↔
      (other = target ∧ v = version) ∨ r.hasVersion other v = true := by
  unfold register at h
  split at h
  · cases h
  split at h
  · cases h
  cases h
  unfold hasVersion resolve? handlersOf
  rw [OrderedMap.getD_insert_eq]
  split
  · rename_i hsame
    rw [OrderedMap.get?_insert_eq]
    by_cases hversion : v = version
    · simp [hsame, hversion]
    · simp [hsame, hversion]
  · rename_i hother
    simp [hother]

namespace Protocol

variable {ν : Type} {p q r : Protocol ν} {now : Timestamp} {action : ProposalAction}
  {command : Command} {fault : ActionFault}

/-! ### What is never taken away -/

/-- **Every active version has a handler.** -/
def Covered (p : Protocol ν) : Prop :=
  ∀ target version, p.state.activeVersion? target = some version →
    p.registry.hasVersion target version = true

/-- **A protocol has only gained** capabilities since, under the same address. -/
structure Gained (p q : Protocol ν) : Prop where
  address : q.state.address = p.state.address
  capabilities : ∀ target, p.state.capabilities.contains target = true →
    q.state.capabilities.contains target = true

theorem Gained.refl (p : Protocol ν) : Gained p p := ⟨rfl, fun _ => id⟩

/-- **What was admitted is admitted ever after.** -/
theorem Gained.checkTarget (h : Gained p q) (hadmitted : p.state.checkTarget action = .ok ()) :
    q.state.checkTarget action = .ok () := by
  obtain ⟨command, hcommand, hadmits⟩ := ProtocolState.checkTarget_eq_ok.1 hadmitted
  refine ProtocolState.checkTarget_eq_ok.2 ⟨command, hcommand, ?_⟩
  unfold ProtocolState.Admits at hadmits ⊢
  rw [h.address]
  split
  · rename_i hown
    rwa [if_pos hown] at hadmits
  · rename_i hother
    rw [if_neg hother] at hadmits
    exact ⟨hadmits.1, h.capabilities _ hadmits.2⟩

/-- A capability that has got a version keeps all others, and has one itself. -/
theorem contains_insert {capabilities : OrderedMap Address Version} {target other : Address}
    {version : Version} (h : capabilities.contains other = true) :
    (capabilities.insert target version).contains other = true := by
  unfold OrderedMap.contains at h ⊢
  rw [OrderedMap.get?_insert_eq]
  split
  · rfl
  · exact h

/-- **A protocol with handlers gains capabilities, and handlers for them**, whatever its requests
do to its setup. -/
theorem lasting_gained (p : Protocol ν) : Lasting fun q => Gained p q ∧ q.Covered := by
  constructor
  · rintro q r ⟨hgained, hcovered⟩ hsame
    refine ⟨⟨hsame.address.trans hgained.address, fun target htarget => ?_⟩,
      fun target version hactive => ?_⟩
    · rw [hsame.capabilities]
      exact hgained.capabilities target htarget
    · unfold ProtocolState.activeVersion? at hactive
      rw [hsame.capabilities] at hactive
      rw [hsame.registry]
      exact hcovered target version hactive
  · rintro q target version ⟨hgained, hcovered⟩ hversion
    refine ⟨⟨hgained.address, fun other hother => contains_insert
      (hgained.capabilities other hother)⟩, fun other v hactive => ?_⟩
    have hactive : (q.state.capabilities.insert target version).get? other = some v := hactive
    rw [OrderedMap.get?_insert_eq] at hactive
    split at hactive
    · rename_i hsame
      cases hactive
      exact hsame ▸ hversion
    · exact hcovered other v hactive

/-- **A handler that is registered** is one for a version that is active already, or that becomes
active now. -/
theorem Covered.register {target : Address} {version : Version} {handler : Treasury} {u : Unit}
    (hp : p.Covered) (h : registerCapability target version handler p = .ok u q) :
    Gained p q ∧ q.Covered := by
  obtain ⟨registry, hregistry, rfl⟩ := registerCapability_eq_ok h
  refine ⟨⟨rfl, fun other hother => ?_⟩, fun other v hactive => ?_⟩
  · show OrderedMap.contains (if _ then _ else _) other = true
    split
    · exact hother
    · exact contains_insert hother
  · refine (Registry.hasVersion_register hregistry).2 ?_
    have hactive : OrderedMap.get? (if p.state.capabilities.contains target
        then p.state.capabilities else p.state.capabilities.insert target version) other
          = some v := hactive
    split at hactive
    · exact Or.inr (hp other v hactive)
    · rw [OrderedMap.get?_insert_eq] at hactive
      split at hactive
      · rename_i hsame
        cases hactive
        exact Or.inl ⟨hsame, rfl⟩
      · exact Or.inr (hp other v hactive)

/-! ### Dispatching -/

/-- **A handler is found** for a capability. -/
theorem Covered.handlerOf (hp : p.Covered) {target : Address}
    (h : p.state.capabilities.contains target = true) :
    ∃ handler, p.handlerOf target = .ok handler := by
  obtain ⟨version, hactive⟩ := Option.isSome_iff_exists.1 h
  obtain ⟨handler, hhandler⟩ := Option.isSome_iff_exists.1 (hp target version hactive)
  have hactive : p.state.activeVersion? target = some version := hactive
  refine ⟨handler, ?_⟩
  unfold Protocol.handlerOf
  simp only [hactive, hhandler]
  rfl

/-- A setting fails only if it is not sound. -/
theorem change_eq_error {name value : String} {call : Call GovernanceError (Protocol ν) Unit}
    (h : change name value call p = .error fault q) : ∃ e, fault = .governance e := by
  rcases Call.bind_eq_error.1 h with hcall | ⟨_, _, -, hrest⟩
  · obtain ⟨e, _, -, rfl, -⟩ := Call.part_eq_error.1 hcall
    exact ⟨e, rfl⟩
  · rcases Call.bind_eq_error.1 hrest with hnote | ⟨_, _, -, hpure⟩
    · exact absurd hnote Call.modify_ne_error
    · exact absurd hpure Call.pure_ne_error

/-- **A command on the protocol itself** fails for its own reasons. -/
theorem applyOwn_eq_error (hown : command.isGovernance = true)
    (h : applyOwn command p = .error fault q) : fault.OwnTo command := by
  cases command with
  | upgradeCapability target version =>
    have h := Call.get_bind_eq_error.1 h
    rcases Call.refuse_eq_error.1 h with ⟨-, rfl, -⟩ | ⟨-, hset⟩
    · rfl
    · exact absurd hset Call.set_pure_ne_error
  | treasuryTransfer target amount => cases hown
  | _ =>
    obtain ⟨e, rfl⟩ := change_eq_error h
    rfl

/-- **A treasury** fails a payment for the payment's own reasons. -/
theorem handle_eq_error [Custody ν] {handler : Treasury} {v w : ν}
    (hother : command.isGovernance = false) (h : handler.handle command v = .error fault w) :
    fault.OwnTo command := by
  cases command with
  | treasuryTransfer target amount =>
    have h : handler.pay target amount v = .error fault w := h
    rcases Call.refuse_eq_error.1 h with ⟨hzero, rfl, -⟩ | ⟨-, h⟩
    · exact ⟨target, amount, rfl, hzero⟩
    rcases Call.lift_bind_eq_error.1 h with ⟨hcap, -⟩ | ⟨_, -, h⟩
    · unfold Treasury.checkCap at hcap
      split at hcap
      · split at hcap
        · cases hcap
          exact ⟨target, rfl, ‹_›⟩
        · cases hcap
      · cases hcap
    · rcases Call.bind_eq_error.1 h with hmoved | ⟨_, _, -, hpure⟩
      · obtain ⟨e, _, -, rfl, -⟩ := Call.part_eq_error.1 hmoved
        exact ⟨target, amount, rfl⟩
      · exact absurd hpure Call.pure_ne_error
  | _ => cases hother

variable [Custody ν]

/-- **An admitted action reaches whoever carries it out**: it is a command, and if it fails, it
does so for the command's own reasons. -/
theorem Covered.dispatch_eq_error (hp : p.Covered)
    (hadmitted : p.state.checkTarget action = .ok ()) :
    ∃ command, action.command = .ok command ∧
      ∀ fault q, dispatch action p = .error fault q → fault.OwnTo command := by
  obtain ⟨command, hcommand, hadmits⟩ := ProtocolState.checkTarget_eq_ok.1 hadmitted
  refine ⟨command, hcommand, fun fault q h => ?_⟩
  unfold dispatch at h
  rw [hcommand] at h
  rcases Call.lift_bind_eq_error.1 h with ⟨hdecode, -⟩ | ⟨_, hdecode, h⟩
  · cases hdecode
  cases hdecode
  have h := Call.get_bind_eq_error.1 h
  unfold ProtocolState.Admits at hadmits
  by_cases htarget : action.target = p.state.address
  · rw [if_pos htarget] at hadmits h
    exact applyOwn_eq_error hadmits h
  · rw [if_neg htarget] at hadmits h
    obtain ⟨handler, hhandler⟩ := hp.handlerOf hadmits.2
    rcases Call.lift_bind_eq_error.1 h with ⟨hnone, -⟩ | ⟨_, -, h⟩
    · cases hhandler.symm.trans hnone
    · obtain ⟨_, _, hcall, rfl, -⟩ := Call.part_eq_error.1 h
      exact handle_eq_error hadmits.1 hcall

end Protocol

/-- **A receipt for an action that was carried out where it belongs**: what it is about is the
action, which is a command, and if it failed, it did so for the command's own reasons. -/
structure ActionReceipt.Sent (action : ProposalAction) (receipt : ActionReceipt) : Prop where
  target : receipt.target = action.target
  signature : receipt.signature = action.signature
  carried : ∃ command, action.command = .ok command ∧
    ∀ fault, receipt.outcome = .failed fault → fault.OwnTo command

namespace Protocol

variable {ν : Type} [Custody ν] {p q r : Protocol ν} {now : Timestamp} {id : ProposalId}
  {operation : Operation}

theorem Covered.perform (hp : p.Covered) {hash : Digest} {action : ProposalAction}
    {receipt : ActionReceipt} (hadmitted : p.state.checkTarget action = .ok ())
    (h : perform hash action p = .ok receipt q) : ActionReceipt.Sent action receipt := by
  obtain ⟨command, hcommand, hfaults⟩ := hp.dispatch_eq_error hadmitted
  unfold Protocol.perform at h
  rcases hcall : dispatch action p with ⟨output, s⟩ | ⟨fault, s⟩
  · rw [hcall] at h
    cases h
    refine ⟨rfl, rfl, command, hcommand, ?_⟩
    rintro fault ⟨⟩
  · rw [hcall] at h
    cases h
    refine ⟨rfl, rfl, command, hcommand, ?_⟩
    rintro _ ⟨⟩
    exact hfaults fault s hcall

/-- **Actions that were admitted before the first of them** is carried out reach their places, one
after the other, whatever the ones before have changed. -/
theorem Covered.performAll {actions : List (Digest × ProposalAction)}
    {receipts : List ActionReceipt} (hp : Gained p q ∧ q.Covered)
    (hadmitted : ∀ e ∈ actions, p.state.checkTarget e.2 = .ok ())
    (h : performAll actions q = .ok receipts r) :
    List.Forall₂ (fun e receipt => ActionReceipt.Sent e.2 receipt) actions receipts := by
  induction actions generalizing q receipts with
  | nil =>
    cases h
    exact .nil
  | cons first rest ih =>
    obtain ⟨receipt, s, hfirst, h⟩ := Call.bind_eq_ok.1 h
    obtain ⟨others, s', hrest, hpure⟩ := Call.bind_eq_ok.1 h
    obtain ⟨rfl, rfl⟩ := Call.pure_eq_ok.1 hpure
    have hnext : Gained p s ∧ s.Covered :=
      ((lasting_gained p).perform first.1 first.2).of_ok hfirst hp
    refine .cons (hp.2.perform ?_ hfirst) (ih hnext ?_ hrest)
    · exact hp.1.checkTarget (hadmitted first List.mem_cons_self)
    · exact fun e he => hadmitted e (List.mem_cons_of_mem first he)

/-- An execution carries out the actions of its proposal, on the protocol from which the council
has released them. -/
theorem execute_answered {report : ExecutionReport}
    (h : (Request.execute id).run now p = .ok (.executed report) q) :
    ∃ proposal c s, p.state.governor.get? id = some proposal ∧
      performAll (proposal.actions.map fun action => (action.hash proposal.eta, action))
        (p.withCouncil c) = .ok report.receipts s := by
  obtain ⟨_, -, hsettled, hreport⟩ := request_eq_ok h
  cases hreport
  obtain ⟨proposal, c, receipts, s, hexecuted, rfl, -⟩ := Executed.of_settled hsettled
  exact ⟨proposal, c, s, hexecuted.find, hexecuted.performed⟩

/-! ### The table -/

/-- **A protocol that is ready to dispatch**: every active version has a handler, and every action
of every proposal in the table is admitted. -/
structure Ready (p : Protocol ν) : Prop where
  covered : p.Covered
  admitted : ∀ id proposal, p.state.governor.get? id = some proposal →
    ∀ action ∈ proposal.actions, p.state.checkTarget action = .ok ()

/-- **An operation takes nothing away** from the setup. -/
theorem Covered.gained_after (hp : p.Covered) (operation : Operation) :
    Gained p (operation.run.after p) ∧ (operation.run.after p).Covered := by
  have hstart : Gained p p ∧ p.Covered := ⟨.refl p, hp⟩
  cases operation with
  | request request now =>
    exact ((lasting_gained p).request request now).bind (fun _ => .pure _) p hstart
  | register target version handler =>
    rcases hcall : registerCapability target version handler p with ⟨u, q⟩ | ⟨e, q⟩
    · have hop : (Operation.register target version handler).run p = .ok .registered q :=
        Call.bind_eq_ok.2 ⟨u, q, hcall, rfl⟩
      rw [Call.after_of_ok hop]
      exact hp.register hcall
    · have hop : (Operation.register target version handler).run p = .error e q :=
        Call.bind_eq_error.2 (Or.inl hcall)
      rw [Call.after_of_error hop, registerCapability_eq_error hcall]
      exact hstart
  | drain => exact ⟨⟨rfl, fun _ hcontains => hcontains⟩, hp⟩

/-- The actions of a new proposal were admitted when it was made. -/
theorem checkTarget_of_propose {proposer : Address} {content : ProposalRequest} {outcome : Outcome}
    (h : (Operation.request (.propose proposer content) now).run p = .ok outcome q)
    {actions : List ProposalAction} (hactions : content.actions = .ok actions) :
    ∀ action ∈ actions, p.state.checkTarget action = .ok () := by
  obtain ⟨response, hrequest, -⟩ := operation_eq_ok h
  obtain ⟨_, -, hread, -⟩ := request_eq_ok hrequest
  obtain ⟨_, hchecked, -⟩ := Call.lift_bind_eq_ok.1 (Call.get_bind_eq_ok.1 hread)
  unfold checkTargets at hchecked
  rw [hactions] at hchecked
  exact Checked.forM_eq_ok.1 hchecked

/-- **Every operation leaves a protocol ready** that was ready before. -/
theorem Ready.after (hp : p.Ready) (hsound : p.state.ledger.Sound) (operation : Operation) :
    (operation.run.after p).Ready := by
  obtain ⟨hgained, hcovered⟩ := hp.covered.gained_after operation
  refine ⟨hcovered, fun id proposal hfind action haction => hgained.checkTarget ?_⟩
  have ht : Transition p operation _ _ := transition hsound operation
  have hrun := fun a (h : (operation.run.runFrom p).1 = .ok a) => Call.eq_ok_of_runFrom h
  generalize (operation.run.runFrom p).1 = outcome at ht hrun
  generalize operation.run.after p = q at ht hfind hrun
  cases ht.origin hfind with
  | kept hbefore => exact hp.admitted id proposal hbefore action haction
  | made _ hdraft =>
    obtain ⟨actions, _, _, hactions, -, -, rfl⟩ := Governor.draft_eq_ok hdraft
    exact checkTarget_of_propose (hrun _ rfl) hactions action haction
  | voted hbefore _ _ _ hrecord =>
    obtain ⟨-, -, -, hvoted⟩ := Proposal.recordVote_eq_ok hrecord
    rw [hvoted] at haction
    exact hp.admitted id _ hbefore action haction
  | queued hbefore | canceled hbefore | executed hbefore =>
    exact hp.admitted id _ hbefore action haction

end Protocol

/-! ### Runs -/

namespace Sample

/-- A treasury that pays five at most. -/
def treasury : Treasury := ⟨⟨List.replicate 20 6, rfl⟩, some (Word.ofNat 5)⟩

/-- The proposal to pay out ten. -/
def payment : ProposalRequest :=
  (ProposalRequest.empty "payment").withCommand treasury.account .zero
    (.treasuryTransfer alice (Word.ofNat 10))

/-- The operations up to the one that queues the proposal of a payment. -/
def asking : List Operation := [
  .register treasury.account (.ofNat 1) treasury,
  .request (.stake alice (Word.ofNat 1000) (.ofNat (100 * day)) alice) (.ofNat 10),
  .request (.propose alice payment) (.ofNat 20),
  .request (.vote alice (.ofNat 1) .for) (.ofNat 25),
  .request (.queue (.ofNat 1)) (.ofNat 40)]

/-- The protocol that has queued it. -/
def asked : Protocol Vault := (Run.perform start asking).2

end Sample

namespace Run

variable {ν : Type} [Custody ν] {config : ProtocolConfig} {vault : ν} {steps : List (Step ν)}
  {p : Protocol ν}

/-- **Every state of a run is ready to dispatch.** -/
theorem ready (h : Run config vault steps p) : p.Ready := by
  induction h with
  | create h =>
    obtain ⟨rfl, -⟩ := Protocol.create_eq_ok h
    exact ⟨fun _ _ hactive => (nomatch hactive), fun _ _ hfind => nomatch hfind⟩
  | step h operation ih => exact ih.after h.orderly.sound operation

/-- **Admitted actions reach whoever carries them out.** In every state of a run, the active
version of every capability has a handler. And whenever a proposal is executed in the run, there
is a receipt for each of its actions, in their order: the action is a command, and if it failed,
then not because it was sent to the wrong place, but because of a payment that nobody makes, that
exceeds the limit or that the vault refuses, a switch to a version that has no handler, or a
setting that is not sound. -/
theorem admitted_actions_reach_handlers (h : Run config vault steps p) :
    (∀ target version, p.state.activeVersion? target = some version →
      p.registry.hasVersion target version = true) ∧
      ∀ s ∈ steps, ∀ id now report, s.Answered (.execute id) now (.executed report) →
        ∃ proposal, s.before.state.governor.get? id = some proposal ∧
          List.Forall₂ ActionReceipt.Sent proposal.actions report.receipts := by
  refine ⟨h.ready.covered, ?_⟩
  rintro s hs id now report ⟨hoperation, houtcome⟩
  obtain ⟨early, late, rfl⟩ := List.append_of_mem hs
  obtain ⟨hrun, htake⟩ := h.of_append
  have hanswer : (s.operation.run.runFrom s.before).1 = .ok (.response (.executed report)) :=
    (congrArg Step.outcome htake).symm.trans houtcome
  rw [hoperation] at hanswer
  obtain ⟨response, hrequest, hresponse⟩ :=
    Protocol.operation_eq_ok (Call.eq_ok_of_runFrom hanswer)
  cases hresponse
  obtain ⟨proposal, c, r, hfind, hperform⟩ := Protocol.execute_answered hrequest
  refine ⟨proposal, hfind, ?_⟩
  -- the council has released the actions, and that has no part in the setup
  have hready : Protocol.Gained s.before (s.before.withCouncil c) ∧
      (s.before.withCouncil c).Covered :=
    ⟨⟨rfl, fun _ hcontains => hcontains⟩, hrun.ready.covered⟩
  have hreceipts := Protocol.Covered.performAll hready (fun e he => ?_) hperform
  · rwa [List.forall₂_map_left_iff] at hreceipts
  · obtain ⟨action, haction, rfl⟩ := List.mem_map.1 he
    exact hrun.ready.admitted id proposal hfind action haction

/-- A payment is asked of a treasury that was registered before. It reaches the treasury, and
fails because of the limit there. -/
theorem admitted_actions_reach_handlers_sample :
    ∃ report, (Step.take Sample.asked Sample.execution).Answered (.execute (.ofNat 1)) (.ofNat 150)
        (.executed report) ∧
      report.receipts.map (·.outcome) = [.failed (.aboveCap (Word.ofNat 10) (Word.ofNat 5))] ∧
      ∃ proposal, Sample.asked.state.governor.get? (.ofNat 1) = some proposal ∧
        List.Forall₂ ActionReceipt.Sent proposal.actions report.receipts := by
  have houtcomes : (Step.take Sample.asked Sample.execution).receipts.map (·.outcome)
      = [.failed (.aboveCap (Word.ofNat 10) (Word.ofNat 5))] := by decide +kernel
  have hsome : (Step.take Sample.asked Sample.execution).receipts ≠ [] := fun hnone => by
    rw [hnone] at houtcomes
    cases houtcomes
  obtain ⟨report, hreport, hreceipts⟩ := Step.exists_report hsome
  rw [← hreceipts] at houtcomes
  have hanswered : (Step.take Sample.asked Sample.execution).Answered (.execute (.ofNat 1))
      (.ofNat 150) (.executed report) := ⟨rfl, hreport⟩
  have hstart : Run Sample.config Sample.vault [] Sample.start := .create (by rfl)
  have hrun := (hstart.perform_run Sample.asking).step Sample.execution
  obtain ⟨-, hsteps⟩ := hrun.admitted_actions_reach_handlers
  exact ⟨report, hanswered, houtcomes,
    hsteps _ (List.mem_append_right _ List.mem_cons_self) _ _ report hanswered⟩

end Run

end StakeGovernance
