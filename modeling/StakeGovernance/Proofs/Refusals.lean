import StakeGovernance.Proofs.Tables
import StakeGovernance.Proofs.Vaults
import StakeGovernance.Proofs.Waiting

/-!
# Calls that fail change nothing

A call may have changed something when it fails, and what it has changed stays. It never has,
in any state of a run: the ledger is written as a whole or not at all, and is put back if the
vault refuses; the council is fit for work, so that none of its loops stops half-way; the
actions of a released proposal do not fail any more. And the events of all earlier calls have
passed into the journal, so that settling a call that failed has nothing to record.

* `StakeGovernance.Protocol.Quiet` – **nothing is left to record**;
* `StakeGovernance.Protocol.Refused` – what is left behind by **a call that failed**;
* `StakeGovernance.Protocol.refused` – no operation leaves **more than that**;
* `StakeGovernance.Run.fit` – in a run, the council is always **fit for work**;
* `StakeGovernance.Run.failed_without_trace` – a call that fails changes **nothing at all**.
-/

namespace StakeGovernance

namespace Protocol

variable {ν α : Type} {p q : Protocol ν} {now : Timestamp} {e : GovernanceError}

/-! ### The journal -/

/-- **Nothing is left to record.** -/
def Quiet (p : Protocol ν) : Prop := p.cleared = p

/-- Whatever a call has reported, when it is settled it is recorded. -/
theorem quiet_record (p : Protocol ν) (now : Timestamp) : Quiet (p.record now) :=
  -- an entry of the journal is no event, so the events may be taken away before or after it
  (List.foldl_hom cleared fun _ _ => rfl).symm

/-- If nothing is left to record, recording does nothing. -/
theorem Quiet.record_eq (h : Quiet p) (now : Timestamp) : p.record now = p := by
  have hpending : p.pending = [] := by
    rw [← show p.cleared = p from h]
    rfl
  unfold record
  rw [hpending]
  exact h

theorem Quiet.withVault (h : Quiet p) (v : ν) : Quiet ({ p with vault := v } : Protocol ν) :=
  congrArg (fun p : Protocol ν => ({ p with vault := v } : Protocol ν)) h

theorem keeps_checkClock {P : Protocol ν → Prop} : Call.Keeps P (checkClock (ν := ν) now) :=
  .get_bind fun p hp => Call.Keeps.lift (P := P) _ p hp

theorem keeps_settled {call : Call GovernanceError (Protocol ν) α} :
    Call.Keeps Quiet (settled now call) := by
  refine Call.keeps_of (fun p a q _ h => ?_) fun p e q _ h => ?_
  · obtain ⟨r, -, rfl⟩ := settled_eq_ok.1 h
    exact quiet_record _ now
  · obtain ⟨r, -, rfl⟩ := settled_eq_error.1 h
    exact quiet_record _ now

/-- **A request leaves nothing to record**, whether it succeeds or fails. -/
theorem keeps_request [Custody ν] (request : Request) (now : Timestamp) :
    Call.Keeps (Quiet (ν := ν)) (request.run now) := by
  have htimed : ∀ {α : Type} {call : Call GovernanceError (Protocol ν) α} {f : α → Response},
      Call.Keeps Quiet call →
      Call.Keeps Quiet (do return f (← checkClock now >>= fun _ => call)) := by
    intro α call f h
    exact (keeps_checkClock.bind fun _ => h).bind fun _ => .pure _
  cases request with
  | stake => exact htimed (.refuse keeps_settled)
  | propose => exact htimed (.get_bind fun q hq =>
      Call.Keeps.bind (P := Quiet) (.lift _) (fun _ => keeps_settled) q hq)
  | vote => exact htimed (.get_bind fun q hq => keeps_settled q hq)
  | cancel => exact htimed (f := fun _ => .canceled) (.get_bind fun q hq => keeps_settled q hq)
  | extend | withdraw | delegate | queue | execute | prune => exact htimed keeps_settled

/-- **No operation leaves anything to record.** -/
theorem Quiet.after [Custody ν] (h : Quiet p) (operation : Operation) :
    Quiet (operation.run.after p) := by
  cases operation with
  | request request now => exact ((keeps_request request now).bind fun _ => .pure _) p h
  | register target version handler =>
    have hkeeps : Call.Keeps (Quiet (ν := ν)) (registerCapability target version handler) := by
      refine .get_bind fun q hq => Call.Keeps.refuse (P := Quiet)
        (.bind (.lift _) fun registry => .set ?_) q hq
      have hq : q.cleared = q := hq
      exact congrArg (fun r : Protocol ν => { r with registry, state := { r.state with
        capabilities := if q.state.capabilities.contains target then q.state.capabilities
          else q.state.capabilities.insert target version } }) hq
    exact (hkeeps.bind fun _ => .pure _) p h
  | drain => exact congrArg (fun p : Protocol ν => { p with journal := [] }) h

/-! ### Calls that fail -/

variable [Custody ν]

/-- **What is left behind by a call that failed**: everything is as it was, except that the
vault is as the failed movement of tokens has left it, if there was one. -/
structure Refused (p q : Protocol ν) : Prop where
  rest : q = { p with vault := q.vault }
  vault : VaultKept p q

theorem Refused.refl (p : Protocol ν) : Refused p p := ⟨rfl, .refl p⟩

omit [Custody ν] in
/-- A request that fails is refused at its time, or fails after that. -/
theorem request_eq_error {rest : Call GovernanceError (Protocol ν) α} {f : α → Response}
    (h : (do return f (← checkClock now >>= fun _ => rest) :
      Call GovernanceError (Protocol ν) Response) p = .error e q) :
    q = p ∨ rest p = .error e q := by
  rcases Call.bind_eq_error.1 h with h | ⟨_, _, -, h⟩
  · rcases timed_eq_error h with ⟨-, rfl⟩ | hrest
    · exact Or.inl rfl
    · exact Or.inr hrest
  · exact absurd h Call.pure_ne_error

omit [Custody ν] in
/-- A request that succeeds is made in time. -/
theorem request_eq_ok {rest : Call GovernanceError (Protocol ν) α} {f : α → Response}
    {response : Response} (h : (do return f (← checkClock now >>= fun _ => rest) :
      Call GovernanceError (Protocol ν) Response) p = .ok response q) :
    ∃ a, p.state.clock ≤ now ∧ rest p = .ok a q ∧ response = f a := by
  obtain ⟨a, _, hcall, hpure⟩ := Call.bind_eq_ok.1 h
  obtain ⟨rfl, rfl⟩ := Call.pure_eq_ok.1 hpure
  obtain ⟨hclock, hrest⟩ := timed_eq_ok hcall
  exact ⟨a, hclock, hrest, rfl⟩

theorem operation_eq_ok {request : Request} {outcome : Outcome}
    (h : (Operation.request request now).run p = .ok outcome q) :
    ∃ response, request.run now p = .ok response q ∧ outcome = .response response := by
  obtain ⟨response, _, hrun, hpure⟩ := Call.bind_eq_ok.1 h
  obtain ⟨rfl, rfl⟩ := Call.pure_eq_ok.1 hpure
  exact ⟨response, hrun, rfl⟩

omit [Custody ν] in
/-- A handler that was registered is in the registry, and its version is active if it is the first
one of its target. -/
theorem registerCapability_eq_ok {target : Address} {version : Version} {handler : Treasury}
    {u : Unit} (h : registerCapability target version handler p = .ok u q) :
    ∃ registry, p.registry.register target version handler = .ok registry ∧
      q = { p with registry, state := { p.state with
        capabilities := if p.state.capabilities.contains target then p.state.capabilities
          else p.state.capabilities.insert target version } } := by
  have h := Call.get_bind_eq_ok.1 h
  obtain ⟨-, h⟩ := Call.refuse_eq_ok.1 h
  obtain ⟨registry, hregistry, hset⟩ := Call.lift_bind_eq_ok.1 h
  obtain rfl := Call.set_eq_ok.1 hset
  exact ⟨registry, hregistry, rfl⟩

omit [Custody ν] in
theorem registerCapability_eq_error {target : Address} {version : Version} {handler : Treasury}
    (h : registerCapability target version handler p = .error e q) : q = p := by
  have h := Call.get_bind_eq_error.1 h
  rcases Call.refuse_eq_error.1 h with ⟨-, -, rfl⟩ | ⟨-, h⟩
  · rfl
  rcases Call.lift_bind_eq_error.1 h with ⟨-, rfl⟩ | ⟨registry, -, hset⟩
  · rfl
  · exact absurd hset Call.set_ne_error

/-- **A call on the ledger with a movement of tokens** that fails. -/
theorem Quiet.refused_custody (hquiet : Quiet p) {call : Call StakingError Ledger α}
    {custody : α → Call StakingError ν Unit}
    (h : settled now (withCustody call custody) p = .error e q)
    (hledger : ∀ d l, call p.state.ledger = .error d l → l = p.state.ledger)
    (hcustody : ∀ a d v, custody a p.vault = .error d v → ∃ account amount,
      Custody.deposit account amount p.vault = .error d v ∨
        Custody.release account amount p.vault = .error d v) : Refused p q := by
  obtain ⟨r, hcall, rfl⟩ := settled_eq_error.1 h
  rcases withCustody_eq_error hcall with ⟨d, l, hl, rfl⟩ | ⟨a, l, d, v, -, hv, rfl⟩
  · rw [hledger d l hl]
    rw [show p.withLedger p.state.ledger = p from rfl, hquiet.record_eq]
    exact .refl p
  · rw [(hquiet.withVault v).record_eq]
    obtain ⟨account, amount, hmoved⟩ := hcustody a d v hv
    exact ⟨rfl, Or.inr ⟨account, amount, d, hmoved⟩⟩

/-- **A call on the council** that fails. -/
theorem Quiet.refused_council (hquiet : Quiet p) {call : Call GovernanceError Council α}
    (h : settled now (onCouncil call) p = .error e q)
    (hcouncil : ∀ c, call p.state.council = .error e c → c = p.state.council) : Refused p q := by
  obtain ⟨r, hcall, rfl⟩ := settled_eq_error.1 h
  obtain ⟨c, hc, rfl⟩ := onCouncil_eq_error hcall
  rw [hcouncil c hc, show p.withCouncil p.state.council = p from rfl, hquiet.record_eq]
  exact .refl p

theorem Quiet.refused_governor (hquiet : Quiet p) {call : Call GovernanceError Governor α}
    (h : settled now (onGovernor call) p = .error e q)
    (hgovernor : ∀ g, call p.state.governor = .error e g → g = p.state.governor) :
    Refused p q := by
  refine hquiet.refused_council h fun c hc => ?_
  obtain ⟨_, g, hg, rfl, rfl⟩ := Call.part_eq_error.1 hc
  rw [hgovernor g hg]
  rfl

/-- **A request that fails** is refused without a trace, if nothing is left to record and the
council is fit for work. -/
theorem refused_request (hquiet : Quiet p) (hfit : p.state.council.Fit) {request : Request}
    (h : request.run now p = .error e q) : Refused p q := by
  cases request with
  | stake owner amount unlock target =>
    rcases request_eq_error h with rfl | hrest
    · exact .refl q
    rcases Call.refuse_eq_error.1 hrest with ⟨-, -, rfl⟩ | ⟨-, hsettled⟩
    · exact .refl p
    · exact hquiet.refused_custody hsettled (fun _ _ => Ledger.stake_eq_error)
        fun _ _ _ hv => ⟨owner, amount, Or.inl hv⟩
  | extend owner source unlock additional =>
    rcases request_eq_error h with rfl | hsettled
    · exact .refl q
    refine hquiet.refused_custody hsettled (fun _ _ => Ledger.extend_eq_error) fun _ d v hv => ?_
    split at hv
    · exact absurd hv Call.pure_ne_error
    · exact ⟨owner, additional, Or.inl hv⟩
  | withdraw owner bucket =>
    rcases request_eq_error h with rfl | hsettled
    · exact .refl q
    · exact hquiet.refused_custody hsettled (fun _ _ => Ledger.withdraw_eq_error)
        fun released _ _ hv => ⟨owner, released, Or.inr hv⟩
  | delegate owner target =>
    rcases request_eq_error h with rfl | hsettled
    · exact .refl q
    obtain ⟨r, hcall, rfl⟩ := settled_eq_error.1 hsettled
    obtain ⟨d, l, hl, rfl⟩ := onLedger_eq_error hcall
    rw [Ledger.delegate_eq_error hl, show p.withLedger p.state.ledger = p from rfl,
      hquiet.record_eq]
    exact .refl p
  | propose proposer content =>
    rcases request_eq_error h with rfl | hread
    · exact .refl q
    rcases Call.lift_bind_eq_error.1 (Call.get_bind_eq_error.1 hread) with
      ⟨-, rfl⟩ | ⟨_, -, hsettled⟩
    · exact .refl p
    · exact hquiet.refused_governor hsettled fun _ => Governor.propose_eq_error
  | vote voter id support =>
    rcases request_eq_error h with rfl | hread
    · exact .refl q
    · exact hquiet.refused_governor (Call.get_bind_eq_error.1 hread)
        fun _ hg => (Governor.castVote_eq_error hg).1
  | queue id =>
    rcases request_eq_error h with rfl | hsettled
    · exact .refl q
    · exact hquiet.refused_council hsettled fun _ => hfit.queue_eq_error
  | execute id =>
    rcases request_eq_error h with rfl | hsettled
    · exact .refl q
    obtain ⟨r, hcall, rfl⟩ := settled_eq_error.1 hsettled
    rcases Call.bind_eq_error.1 hcall with hrelease | ⟨released, s, -, hrest⟩
    · exact hquiet.refused_council (settled_eq_error.2 ⟨r, hrelease, rfl⟩)
        fun _ => hfit.release_eq_error
    -- once the actions have been released, nothing fails any more
    obtain ⟨receipts, s', hperform, -⟩ := performAll_eq_ok released.actions s
    rcases Call.bind_eq_error.1 hrest with hfailed | ⟨_, _, -, hpure⟩
    · cases hfailed.symm.trans hperform
    · exact absurd hpure Call.pure_ne_error
  | cancel caller id =>
    rcases request_eq_error (f := fun _ => .canceled) h with rfl | hread
    · exact .refl q
    · exact hquiet.refused_council (Call.get_bind_eq_error.1 hread)
        fun _ => hfit.cancel_eq_error
  | prune =>
    rcases request_eq_error h with rfl | hsettled
    · exact .refl q
    refine hquiet.refused_council hsettled fun c hc => ?_
    obtain ⟨_, t, ht, -, rfl⟩ := Call.part_eq_error.1 hc
    cases ht

/-- **No operation that fails leaves a trace**, except what a failed movement of tokens has
done to the vault. -/
theorem refused (hquiet : Quiet p) (hfit : p.state.council.Fit) {operation : Operation}
    (h : operation.run p = .error e q) : Refused p q := by
  cases operation with
  | request request now =>
    rcases Call.bind_eq_error.1 h with h | ⟨_, _, -, h⟩
    · exact refused_request hquiet hfit h
    · exact absurd h Call.pure_ne_error
  | register target version handler =>
    rcases Call.bind_eq_error.1 h with h | ⟨_, _, -, h⟩
    · have h := Call.get_bind_eq_error.1 h
      rcases Call.refuse_eq_error.1 h with ⟨-, -, rfl⟩ | ⟨-, h⟩
      · exact .refl p
      rcases Call.lift_bind_eq_error.1 h with ⟨-, rfl⟩ | ⟨_, -, h⟩
      · exact .refl p
      · exact absurd h Call.set_ne_error
    · exact absurd h Call.pure_ne_error
  | drain => cases h

/-! ### Councils in a run -/

variable {config : ProtocolConfig} {operation : Operation}
  {outcome : Except GovernanceError Outcome}

/-- The governor keeps its address, and the timelock its admin. -/
theorem Transition.offices (h : Transition p operation outcome q) :
    q.state.governor.address = p.state.governor.address ∧
      q.state.timelock.admin = p.state.timelock.admin := by
  refine ⟨?_, h.delays.admin⟩
  have hsilent : ∀ {g : Governor}, q.state.governor.silent = g.silent →
      q.state.governor.address = g.address := by
    intro g hg
    show q.state.governor.silent.address = g.silent.address
    rw [hg]
  cases h with
  | idle _ hsame _ => exact hsilent hsame.governor
  | staking _ _ _ hgovernor => exact hsilent hgovernor
  | executing _ _ _ _ _ _ hgovernor => exact hgovernor.address
  | proposing _ henters | voting _ henters | queueing _ _ _ henters | canceling _ _ henters
  | pruning henters => exact (hsilent henters.governor).trans rfl

/-- **A proposal that is queued** has actions that the timelock admits. -/
theorem queue_answered (hfit : p.state.council.Fit) {id : ProposalId} {eta : Timestamp}
    (h : (Operation.request (.queue id) now).run p = .ok (.response (.queued eta)) q) :
    ∃ proposal, p.state.governor.get? id = some proposal ∧
      p.state.timelock.Admits p.state.governor.address eta now proposal.actions := by
  obtain ⟨_, hrun, hresponse⟩ := operation_eq_ok h
  cases hresponse
  obtain ⟨_, -, hsettled, heta⟩ := request_eq_ok hrun
  cases heta
  obtain ⟨r, hcall, -⟩ := settled_eq_ok.1 hsettled
  obtain ⟨c, hc, -⟩ := onCouncil_eq_ok hcall
  rcases hfit.queue_spec id now with ⟨_, hspec⟩ | ⟨proposal, _, hfind, -, -, hadmits, hspec⟩
  · cases hc.symm.trans hspec
  · cases hc.symm.trans hspec
    exact ⟨proposal, hfind, hadmits⟩

/-- **Every operation keeps the council fit for work.** -/
theorem fit_after (hfit : p.state.council.Fit) (hp : p.Orderly config) (operation : Operation) :
    (operation.run.after p).state.council.Fit := by
  have ht : Transition p operation _ _ := transition hp.sound operation
  obtain ⟨haddress, hadmin⟩ := ht.offices
  refine ⟨?_, delay_bounds (hp.transition ht).delays, fun id proposal hfind heta => ?_⟩
  · show (operation.run.after p).state.governor.address = _
    rw [haddress]
    exact hfit.admin.trans hadmin.symm
  have hrun := fun a (h : (operation.run.runFrom p).1 = .ok a) => Call.eq_ok_of_runFrom h
  generalize (operation.run.runFrom p).1 = outcome at ht hrun
  generalize operation.run.after p = q at ht hfind hrun
  cases ht.origin hfind with
  | kept hbefore => exact hfit.distinct id proposal hbefore heta
  | made _ hdraft =>
    obtain ⟨_, _, _, -, -, -, rfl⟩ := Governor.draft_eq_ok hdraft
    exact absurd rfl heta
  | voted hbefore _ _ _ hrecord =>
    obtain ⟨-, -, -, hvoted⟩ := Proposal.recordVote_eq_ok hrecord
    rw [hvoted] at heta ⊢
    have hdistinct := hfit.distinct id _ hbefore heta
    exact hdistinct
  | queued hbefore =>
    obtain ⟨proposal, hproposal, hadmits⟩ := queue_answered hfit (hrun _ rfl)
    cases hbefore.symm.trans hproposal
    exact hadmits.distinct
  | canceled hbefore | executed hbefore =>
    have hdistinct := hfit.distinct id _ hbefore heta
    exact hdistinct

omit [Custody ν] in
/-- A new protocol has an empty table, and delays that pass their check. -/
theorem fit_create {vault : ν} (h : create config vault = .ok p) : p.state.council.Fit := by
  obtain ⟨rfl, -, hdelays⟩ := create_eq_ok h
  exact ⟨rfl, delay_bounds hdelays, fun id proposal hfind => by cases hfind⟩

end Protocol

/-! ### Runs -/

namespace Run

/-- **Nothing is left to record** at the end of a run. -/
theorem quiet {ν : Type} [Custody ν] {config : ProtocolConfig} {vault : ν} {steps : List (Step ν)}
    {p : Protocol ν} (h : Run config vault steps p) : p.Quiet := by
  induction h with
  | create h =>
    obtain ⟨rfl, -⟩ := Protocol.create_eq_ok h
    rfl
  | step _ operation ih => exact ih.after operation

/-- **The council is fit for work** at the end of a run. -/
theorem fit {ν : Type} [Custody ν] {config : ProtocolConfig} {vault : ν} {steps : List (Step ν)}
    {p : Protocol ν} (h : Run config vault steps p) : p.state.council.Fit := by
  induction h with
  | create h => exact Protocol.fit_create h
  | step h operation ih => exact Protocol.fit_after ih h.orderly operation

variable {config : ProtocolConfig} {vault : Vault} {steps : List (Step Vault)}
  {p q : Protocol Vault}

/-- **A call that fails changes nothing.** In every state of a run, whatever is asked for, with
any arguments and at any time: if the call fails, then the ledger, the governor, the timelock,
the active capabilities, the clock and the number of the next journal entry are afterwards what
they were before, and so are the vault, the handlers and the journal entries that nobody has
taken yet. -/
theorem failed_without_trace (h : Run config vault steps p) {operation : Operation}
    {e : GovernanceError} (hfailed : operation.run p = .error e q) : q = p := by
  obtain ⟨hrest, hvault⟩ := Protocol.refused h.quiet h.fit hfailed
  have hkept : q.vault = p.vault := by
    -- a vault that refuses to move tokens has not moved any
    rcases hvault with hvault | ⟨account, amount, d, hdeposit | hrelease⟩
    · exact hvault
    · exact Vault.deposit_eq_error hdeposit
    · exact Vault.release_eq_error hrelease
  rw [hrest, hkept]

/-- In the small run, what has been staked cannot be taken back at once, and more than there is
cannot be staked. -/
theorem failed_without_trace_sample :
    let p := (perform Sample.start Sample.operations).2
    let requests : List Request := [
      .withdraw Sample.alice (.ofNat (98 * day)),
      .stake Sample.alice (Word.ofNat 5000) (.ofNat (100 * day)) Sample.alice]
    ∀ request ∈ requests, ∃ e, (Operation.request request (.ofNat 50)).run p = .error e p := by
  intro p requests request hrequest
  have hfails : ((Operation.request request (.ofNat 50)).run.runFrom p).1.toOption.isNone := by
    revert request
    decide +kernel
  cases hrun : (Operation.request request (.ofNat 50)).run p with
  | ok outcome q =>
    rw [Call.runFrom, hrun] at hfails
    cases hfails
  | error e q => exact ⟨e, congrArg _ (failed_without_trace Sample.run hrun)⟩

end Run

end StakeGovernance
