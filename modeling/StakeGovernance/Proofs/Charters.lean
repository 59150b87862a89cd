import StakeGovernance.Proofs.Admission

/-!
# Charters

What the actions of proposals can change is the charter of a protocol: the rules of voting, the
guardian, the delays of the timelock, the active versions of the capabilities, and the vault that
treasuries pay from. What an action does to a charter can be said without any call: it changes
the charter as a whole, or there is a fault, and then there is no other charter. Executing a
proposal is the fold of that over its actions.

The calls that carry actions out are not like that. They change one part of a protocol after the
other, keep what they have changed when they fail, and a transfer works on one balance before it
works on the other. So it is shown of each of them what it comes to
(`StakeGovernance.Call.ComesTo`), seen through the charter.

* `StakeGovernance.Charter` – **what actions can change**;
* `StakeGovernance.Charter.carried` – what **an action** does to a charter;
* `StakeGovernance.Charter.next` – the **receipt** of an action, and the charter after it;
* `StakeGovernance.Protocol.dispatch_comesTo` – carrying out an action **does that, and no more**;
* `StakeGovernance.Run.execute_eq_foldl` – executing a proposal is **a fold over its actions**.
-/

namespace StakeGovernance

/-! ### Treasuries -/

namespace Treasury

variable (t : Treasury) (v : Vault)

/-- **The vault after a payment**, and what is reported of it. -/
def paid (target : Address) (amount : Amount) : Except ActionFault (ActionOutput × Vault) :=
  if target.isZero then .error .transferToZero
  else do
    t.checkCap amount
    let w ← (v.transferred t.account target amount).mapError .vault
    return (.transferred t.account target amount, w)

/-- **The vault after a command** to a treasury, which knows payments only. -/
def handled : Command → Except ActionFault (ActionOutput × Vault)
  | .treasuryTransfer target amount => t.paid v target amount
  | command => .error (.unsupported t.name command.signature)

theorem pay_comesTo (target : Address) (amount : Amount) :
    Call.ComesTo id (t.pay target amount) v (t.paid v target amount) := by
  have htransfer := Vault.transfer_comesTo t.account target amount v
  refine .refuse (.lift_bind fun _ => ?_)
  constructor
  · intro output w h
    obtain ⟨_, w', hpart, hpure⟩ := Call.bind_eq_ok.1 h
    obtain ⟨rfl, rfl⟩ := Call.pure_eq_ok.1 hpure
    obtain ⟨w, hmoved, rfl⟩ := Call.part_eq_ok.1 hpart
    rw [htransfer.eq_ok hmoved]
    rfl
  · intro fault w h
    rcases Call.bind_eq_error.1 h with hpart | ⟨_, _, -, hpure⟩
    · obtain ⟨e, w, hmoved, rfl, rfl⟩ := Call.part_eq_error.1 hpart
      obtain ⟨hrefused, hsame⟩ := htransfer.eq_error hmoved
      rw [hrefused]
      exact ⟨rfl, hsame⟩
    · exact absurd hpure Call.pure_ne_error

/-- **A treasury** pays as a whole, or not at all. -/
theorem handle_comesTo (command : Command) :
    Call.ComesTo id (t.handle command) v (t.handled v command) := by
  cases command with
  | treasuryTransfer target amount => exact t.pay_comesTo v target amount
  | _ => exact .refused rfl rfl

end Treasury

/-! ### Charters -/

/-- **A charter**: what the actions of proposals can change. -/
structure Charter where
  rules : GovernorParams
  guardian : Address
  delays : TimelockParams
  /-- The active version of each capability. -/
  versions : OrderedMap Address Version
  vault : Vault
deriving DecidableEq

namespace Charter

/-- The charter with other rules of voting, which have to pass their check. -/
def withRules (c : Charter) (rules : GovernorParams) : Except GovernanceError Charter := do
  rules.validate
  return { c with rules }

/-- The charter with another delay of the timelock, which has to lie within its bounds. -/
def withDelay (c : Charter) (delay : Timestamp) : Except GovernanceError Charter := do
  let delays := { c.delays with delay }
  delays.validate
  return { c with delays }

/-- A charter with a setting that has changed, and what is reported of it. -/
def reported (name value : String) (x : Except GovernanceError Charter) :
    Except ActionFault (ActionOutput × Charter) :=
  (x.mapError .governance).map fun c => (.parameterChanged name value, c)

/-- **What a command on the protocol itself does** to its charter. -/
def amended (registry : Registry) (c : Charter) :
    Command → Except ActionFault (ActionOutput × Charter)
  | .setVotingDelay delay =>
    reported "voting_delay" (toString delay) (c.withRules { c.rules with votingDelay := delay })
  | .setVotingPeriod period =>
    reported "voting_period" (toString period) (c.withRules { c.rules with votingPeriod := period })
  | .setProposalThreshold threshold =>
    reported "proposal_threshold" (toString threshold)
      (c.withRules { c.rules with proposalThreshold := threshold })
  | .setQuorumVotes quorum =>
    reported "quorum_votes" (toString quorum) (c.withRules { c.rules with quorumVotes := quorum })
  | .setGuardian guardian =>
    reported "guardian" (toString guardian) (.ok { c with guardian })
  | .setTimelockDelay delay => reported "timelock_delay" (toString delay) (c.withDelay delay)
  | .upgradeCapability target version =>
    if !registry.hasVersion target version then .error (.notRegistered version target)
    else .ok (.capabilityUpgraded target version,
      { c with versions := c.versions.insert target version })
  | .treasuryTransfer _ _ => .error .ownTransfer

/-- The handler of the active version of a capability. -/
def handlerOf (registry : Registry) (c : Charter) (target : Address) :
    Except ActionFault Treasury := do
  let some version := c.versions.get? target | throw (.noCapability target)
  let some handler := registry.resolve? target version | throw (.noHandler target version)
  return handler

/-- **What an action does** to the charter of the protocol of an address. -/
def carried (own : Address) (registry : Registry) (c : Charter) (action : ProposalAction) :
    Except ActionFault (ActionOutput × Charter) := do
  let command ← action.command.mapError .governance
  if action.target = own then c.amended registry command
  else do
    let handler ← c.handlerOf registry action.target
    let (output, vault) ← handler.handled c.vault command
    return (output, { c with vault })

/-- **One more action**: its receipt behind those of the actions before, and the charter that it
leads to. An action that fails leads to the charter that there was. -/
def next (own : Address) (registry : Registry) (eta : Timestamp)
    (done : List ActionReceipt × Charter) (action : ProposalAction) :
    List ActionReceipt × Charter :=
  let receipt (outcome : ActionOutcome) : ActionReceipt :=
    ⟨action.hash eta, action.target, action.signature, outcome⟩
  match done.2.carried own registry action with
  | .ok (output, c) => (done.1 ++ [receipt (.executed output)], c)
  | .error fault => (done.1 ++ [receipt (.failed fault)], done.2)

end Charter

/-! ### Carrying actions out -/

namespace Protocol

variable {p q : Protocol Vault} {name value : String}

/-- **The charter** of a protocol. -/
def charter (p : Protocol Vault) : Charter :=
  ⟨p.state.governor.params, p.state.governor.guardian, p.state.timelock.params,
    p.state.capabilities, p.vault⟩

/-! #### Commands on the protocol itself -/

/-- **Rules of voting** are adopted if they pass their check. -/
theorem adopt_comesTo (change : GovernorParams → GovernorParams) :
    Call.ComesTo charter (onGovernor (do Governor.adopt (change (← get).params))) p
      ((p.charter.withRules (change p.charter.rules)).map fun c => ((), c)) := by
  unfold Charter.withRules
  constructor
  · intro u q h
    obtain ⟨g, hg, rfl⟩ := onGovernor_eq_ok h
    obtain ⟨_, hvalid, hset⟩ := Call.lift_bind_eq_ok.1 (Call.get_bind_eq_ok.1 hg)
    obtain rfl := Call.modify_eq_ok.1 hset
    rw [show (change p.charter.rules).validate = .ok () from hvalid]
    rfl
  · intro e q h
    obtain ⟨g, hg, rfl⟩ := onGovernor_eq_error h
    rcases Call.lift_bind_eq_error.1 (Call.get_bind_eq_error.1 hg) with ⟨hvalid, rfl⟩ | ⟨_, -, hset⟩
    · rw [show (change p.charter.rules).validate = .error e from hvalid]
      exact ⟨rfl, rfl⟩
    · exact absurd hset Call.modify_ne_error

/-- **A guardian** is named, whoever it is. -/
theorem setGuardian_comesTo (guardian : Address) :
    Call.ComesTo charter (onGovernor (Governor.setGuardian guardian)) p
      (.ok ((), { p.charter with guardian })) := by
  constructor
  · intro u q h
    obtain ⟨g, hg, rfl⟩ := onGovernor_eq_ok h
    obtain rfl := Call.modify_eq_ok.1 hg
    rfl
  · intro e q h
    obtain ⟨g, hg, rfl⟩ := onGovernor_eq_error h
    exact absurd hg Call.modify_ne_error

/-- **A delay of the timelock** is adopted if it passes its check. The protocol has to be the
admin of its timelock. -/
theorem setDelay_comesTo (hadmin : p.state.timelock.admin = p.state.address) (delay : Timestamp) :
    Call.ComesTo charter (do onTimelock (Timelock.setDelay (← get).state.address delay)) p
      ((p.charter.withDelay delay).map fun c => ((), c)) := by
  have hallowed : p.state.timelock.onlyAdmin p.state.address = .ok () := if_pos hadmin.symm
  unfold Charter.withDelay
  dsimp only
  constructor
  · intro u q h
    obtain ⟨c, hc, rfl⟩ := onCouncil_eq_ok (Call.get_bind_eq_ok.1 h)
    obtain ⟨t, ht, rfl⟩ := Call.part_eq_ok.1 hc
    obtain ⟨-, hvalid, rfl⟩ := Timelock.setDelay_eq_ok.1 ht
    rw [show TimelockParams.validate { p.charter.delays with delay } = .ok () from hvalid]
    rfl
  · intro e q h
    obtain ⟨c, hc, rfl⟩ := onCouncil_eq_error (Call.get_bind_eq_error.1 h)
    obtain ⟨_, t, ht, rfl, rfl⟩ := Call.part_eq_error.1 hc
    rcases Call.lift_bind_eq_error.1 (Call.get_bind_eq_error.1 ht) with ⟨hnot, -⟩ | ⟨_, -, ht⟩
    · cases hallowed.symm.trans hnot
    rcases Call.lift_bind_eq_error.1 ht with ⟨hvalid, rfl⟩ | ⟨_, -, hset⟩
    · rw [show TimelockParams.validate { p.charter.delays with delay } = .error _ from hvalid]
      exact ⟨rfl, rfl⟩
    · exact absurd hset Call.set_ne_error

/-- A setting that is carried out is reported under its name. -/
theorem change_comesTo {call : Call GovernanceError (Protocol Vault) Unit}
    {x : Except GovernanceError Charter} (name value : String)
    (h : Call.ComesTo charter call p (x.map fun c => ((), c))) :
    Call.ComesTo charter (change name value call) p (Charter.reported name value x) := by
  constructor
  · intro output q hq
    obtain ⟨_, r, hpart, hnote⟩ := Call.bind_eq_ok.1 hq
    obtain ⟨_, s, hs, hpure⟩ := Call.bind_eq_ok.1 hnote
    obtain rfl := Call.modify_eq_ok.1 hs
    obtain ⟨rfl, rfl⟩ := Call.pure_eq_ok.1 hpure
    obtain ⟨r, hcall, rfl⟩ := Call.part_eq_ok.1 hpart
    rw [h.eq_ok hcall]
    rfl
  · intro fault q hq
    rcases Call.bind_eq_error.1 hq with hpart | ⟨_, _, -, hnote⟩
    · obtain ⟨e, r, hcall, rfl, rfl⟩ := Call.part_eq_error.1 hpart
      obtain ⟨hx, hsame⟩ := h.eq_error hcall
      rw [hx]
      exact ⟨rfl, hsame⟩
    · cases hnote

/-- **A capability** is switched to a version that has a handler. -/
theorem upgrade_comesTo (target : Address) (version : Version) :
    Call.ComesTo charter (upgrade target version) p
      (p.charter.amended p.registry (.upgradeCapability target version)) := by
  refine .get_bind (.refuse ⟨fun h => ?_, fun h => absurd h Call.set_pure_ne_error⟩)
  obtain ⟨rfl, rfl⟩ := Call.set_pure_eq_ok.1 h
  rfl

/-- **A command on the protocol itself** does to the charter what is said of it. -/
theorem applyOwn_comesTo (hadmin : p.state.timelock.admin = p.state.address) (command : Command) :
    Call.ComesTo charter (applyOwn command) p (p.charter.amended p.registry command) := by
  cases command with
  | setVotingDelay delay =>
    exact change_comesTo _ _ (adopt_comesTo fun rules => { rules with votingDelay := delay })
  | setVotingPeriod period =>
    exact change_comesTo _ _ (adopt_comesTo fun rules => { rules with votingPeriod := period })
  | setProposalThreshold threshold =>
    exact change_comesTo _ _
      (adopt_comesTo fun rules => { rules with proposalThreshold := threshold })
  | setQuorumVotes quorum =>
    exact change_comesTo _ _ (adopt_comesTo fun rules => { rules with quorumVotes := quorum })
  | setGuardian guardian =>
    exact change_comesTo _ _ (x := .ok { p.charter with guardian }) (setGuardian_comesTo guardian)
  | setTimelockDelay delay => exact change_comesTo _ _ (setDelay_comesTo hadmin delay)
  | upgradeCapability target version => exact upgrade_comesTo target version
  | treasuryTransfer target amount => exact .refused rfl rfl

/-! #### Any action -/

/-- A command to a treasury shows in the vault. -/
theorem handle_comesTo (handler : Treasury) (command : Command) :
    Call.ComesTo charter (Call.part (fun p : Protocol Vault => p.vault)
        (fun vault p => { p with vault }) id (handler.handle command)) p
      (do let (output, vault) ← handler.handled p.vault command
          return (output, { p.charter with vault })) := by
  have hhandle := handler.handle_comesTo p.vault command
  constructor
  · intro output q h
    obtain ⟨v, hv, rfl⟩ := Call.part_eq_ok.1 h
    rw [hhandle.of_ok hv]
    rfl
  · intro fault q h
    obtain ⟨_, v, hv, rfl, rfl⟩ := Call.part_eq_error.1 h
    obtain ⟨hrefused, hsame⟩ := hhandle.of_error hv
    obtain rfl : v = p.vault := hsame
    rw [hrefused]
    exact ⟨rfl, rfl⟩

/-- **An action** does to the charter what is said of it, and nothing at all if it fails. -/
theorem dispatch_comesTo (hadmin : p.state.timelock.admin = p.state.address)
    (action : ProposalAction) :
    Call.ComesTo charter (dispatch action) p
      (p.charter.carried p.state.address p.registry action) := by
  refine .lift_bind fun command => .get_bind ?_
  split
  · exact applyOwn_comesTo hadmin command
  · -- the active version is looked up in the charter, and its handler where no action reaches
    exact .lift_bind fun handler => handle_comesTo handler command

/-- **A receipt** is written of what has been done, and of what could not be. -/
theorem perform_eq_next {eta : Timestamp} {action : ProposalAction} {receipt : ActionReceipt}
    (hadmin : p.state.timelock.admin = p.state.address)
    (h : perform (action.hash eta) action p = .ok receipt q) (before : List ActionReceipt) :
    Charter.next p.state.address p.registry eta (before, p.charter) action
      = (before ++ [receipt], q.charter) := by
  have hdispatch := dispatch_comesTo hadmin action
  unfold perform at h
  unfold Charter.next
  cases hrun : dispatch action p with
  | ok output r =>
    rw [hrun] at h
    cases h
    rw [hdispatch.of_ok hrun]
    rfl
  | error fault r =>
    rw [hrun] at h
    cases h
    obtain ⟨hfault, hsame⟩ := hdispatch.of_error hrun
    rw [hfault, ← hsame]
    rfl

/-- **Actions are carried out one after the other**, each on the charter that the one before has
led to. -/
theorem performAll_eq_foldl {eta : Timestamp} {actions : List ProposalAction}
    {receipts : List ActionReceipt} (hadmin : p.state.timelock.admin = p.state.address)
    (h : performAll (actions.map fun action => (action.hash eta, action)) p = .ok receipts q)
    (before : List ActionReceipt) :
    actions.foldl (Charter.next p.state.address p.registry eta) (before, p.charter)
      = (before ++ receipts, q.charter) := by
  induction actions generalizing p receipts before with
  | nil =>
    obtain ⟨rfl, rfl⟩ := Call.pure_eq_ok.1 h
    rw [List.append_nil]
    rfl
  | cons action rest ih =>
    obtain ⟨receipt, r, hfirst, hrest⟩ := Call.bind_eq_ok.1 h
    obtain ⟨others, _, hothers, hpure⟩ := Call.bind_eq_ok.1 hrest
    obtain ⟨rfl, rfl⟩ := Call.pure_eq_ok.1 hpure
    have hkept : Reconfigured p r :=
      (keeps_perform (fun _ event hq => hq.note event) (keeps_dispatch action) _).of_ok hfirst
        (.refl p)
    have hadmin' : r.state.timelock.admin = r.state.address := by
      rw [hkept.timelock.admin, hkept.address]
      exact hadmin
    have hothers := ih hadmin' hothers (before ++ [receipt])
    rw [hkept.address, hkept.registry] at hothers
    rw [List.foldl_cons, perform_eq_next hadmin hfirst, hothers, List.append_assoc]
    rfl

/-! ### Runs -/

/-- A settled call leaves the charter as it was before it was settled. -/
theorem charter_settled (now : Timestamp) :
    ((p.withClock now).record now).charter = p.charter := by
  unfold charter
  rw [record_governor, record_timelock, record_vault,
    record_frame (f := fun q : Protocol Vault => q.state.capabilities) (fun _ _ => rfl)]
  rfl

end Protocol

namespace Run

variable {config : ProtocolConfig} {vault : Vault} {steps : List (Step Vault)}
  {p q : Protocol Vault}

/-- In a run, the protocol is the admin of its timelock. -/
theorem admin_eq (h : Run config vault steps p) :
    p.state.timelock.admin = p.state.address := by
  induction h with
  | create h =>
    obtain ⟨rfl, -⟩ := Protocol.create_eq_ok h
    rfl
  | step h operation ih =>
    have ht := Protocol.transition h.orderly.sound operation
    rw [ht.offices.2, (h.ready.covered.gained_after operation).1.address]
    exact ih

/-- **Executing a proposal is a fold over its actions.** In every state of a run, whenever a
proposal is executed, there is a receipt for each of its actions, in their order, with the target
and the signature of the action and its digest for the time of execution. And the receipts, the
rules of voting, the guardian, the delays of the timelock, the active versions and the vault are
afterwards what is reached by taking the actions one after the other: an action does to the
charter that the one before has led to what is said of it, and its receipt says that it was
carried out; or there is a fault, which its receipt names, and the charter stays as it was. -/
theorem execute_eq_foldl (h : Run config vault steps p) {id : ProposalId} {now : Timestamp}
    {report : ExecutionReport} (hexecute : Protocol.execute id now p = .ok report q) :
    ∃ proposal, p.state.governor.get? id = some proposal ∧
      report.proposalId = id ∧ report.eta = proposal.eta ∧
      report.receipts.map (fun r => (r.hash, r.target, r.signature))
        = proposal.actions.map (fun action =>
          (action.hash proposal.eta, action.target, action.signature)) ∧
      (report.receipts, q.charter)
        = proposal.actions.foldl (Charter.next p.state.address p.registry proposal.eta)
          ([], p.charter) := by
  obtain ⟨-, hsettled⟩ := Protocol.timed_eq_ok hexecute
  obtain ⟨proposal, c, receipts, r, hexecuted, rfl, rfl⟩ := Protocol.Executed.of_settled hsettled
  refine ⟨proposal, hexecuted.find, rfl, rfl, hexecuted.receipts_eq, ?_⟩
  -- the release itself changes the table and the queue, which are not in the charter
  have hsame : (p.withCouncil c).charter = p.charter := by
    show Charter.mk c.governor.params c.governor.guardian c.timelock.params _ _ = _
    rw [hexecuted.governor, hexecuted.timelock.2]
    rfl
  have hadmin : (p.withCouncil c).state.timelock.admin = (p.withCouncil c).state.address :=
    hexecuted.timelock.1.trans h.admin_eq
  have hfold := Protocol.performAll_eq_foldl hadmin hexecuted.performed []
  rw [hsame] at hfold
  rw [Protocol.charter_settled]
  exact hfold.symm

end Run

namespace Sample

/-- A vault in which the treasury has eight tokens. -/
def funded : Vault := ⟨vault.balances.insert treasury.account (Word.ofNat 8), .zero⟩

/-- The proposal to have votes of no length, and to pay five. -/
def spending : ProposalRequest :=
  ((ProposalRequest.empty "spending").withCommand config.address .zero
    (.setVotingPeriod .zero)).withCommand treasury.account .zero
    (.treasuryTransfer alice (Word.ofNat 5))

/-- The operations up to the one that queues it. -/
def charging : List Operation := [
  .register treasury.account (.ofNat 1) treasury,
  .request (.stake alice (Word.ofNat 1000) (.ofNat (100 * day)) alice) (.ofNat 10),
  .request (.propose alice spending) (.ofNat 20),
  .request (.vote alice (.ofNat 1) .for) (.ofNat 25),
  .request (.queue (.ofNat 1)) (.ofNat 40)]

/-- The protocol that has queued it. -/
def charged : Protocol Vault := (Run.perform { start with vault := funded } charging).2

end Sample

/-- The first action of the proposal fails, and the second one pays five of the eight tokens. -/
theorem Run.execute_eq_foldl_sample :
    ∃ report q, Protocol.execute (.ofNat 1) (.ofNat 150) Sample.charged = .ok report q ∧
      report.receipts.map ActionReceipt.succeeded = [false, true] ∧
      (q.vault.balanceOf Sample.treasury.account).toNat = 3 ∧
      ∃ proposal, Sample.charged.state.governor.get? (.ofNat 1) = some proposal ∧
        (report.receipts, q.charter)
          = proposal.actions.foldl (Charter.next Sample.charged.state.address
            Sample.charged.registry proposal.eta) ([], Sample.charged.charter) := by
  have hseen : (((Protocol.execute (.ofNat 1) (.ofNat 150)).runFrom Sample.charged).1.map
      (fun report => report.receipts.map ActionReceipt.succeeded),
      (((Protocol.execute (.ofNat 1) (.ofNat 150)).runFrom Sample.charged).2.vault.balanceOf
        Sample.treasury.account).toNat) = (.ok [false, true], 3) := by decide +kernel
  cases hrun : Protocol.execute (.ofNat 1) (.ofNat 150) Sample.charged with
  | error e q =>
    rw [Call.runFrom, hrun] at hseen
    cases congrArg Prod.fst hseen
  | ok report q =>
    rw [Call.runFrom, hrun] at hseen
    have hstart : Run Sample.config Sample.funded [] { Sample.start with vault := Sample.funded } :=
      .create (by rfl)
    obtain ⟨proposal, hfind, -, -, -, hfold⟩ :=
      (hstart.perform_run Sample.charging).execute_eq_foldl hrun
    have hreceipts := Except.ok.inj (congrArg Prod.fst hseen)
    exact ⟨report, q, rfl, hreceipts, congrArg Prod.snd hseen, proposal, hfind, hfold⟩

end StakeGovernance
