import StakeGovernance.Proofs.Frames
import StakeGovernance.Proofs.StakeChanges

/-!
# Only executed proposals reconfigure

The rules of voting, the guardian, the delays of the timelock and the active versions of the
capabilities are settings of a protocol. They are changed by the actions of proposals, and
only while a proposal is executed; whatever they are changed to passes the checks that the
first settings had to pass. The same goes for balances, except that owners move their own
tokens when they stake, extend a lock or withdraw.

* `StakeGovernance.Protocol.SameSettings` – the settings are **as before**;
* `StakeGovernance.Step.MovesTokensOf` – the steps that move **an owner's own tokens**;
* `StakeGovernance.Protocol.Transition.valid` – rules and delays **stay valid**, whatever a
  transition does;
* `StakeGovernance.Run.only_executions_reconfigure` – in a run, **only executions** change
  settings, or the balance of anyone else.
-/

namespace StakeGovernance

/-! ### Steps that may change something -/

/-- The owner whose own tokens a request moves. -/
def Request.payer? : Request → Option Address
  | .stake owner .. | .extend owner .. | .withdraw owner _ => some owner
  | _ => none

namespace Step

variable {ν : Type}

/-- The protocol that a step led to. -/
def after [Custody ν] (s : Step ν) : Protocol ν := s.operation.run.after s.before

/-- **A step that executed a proposal.** -/
def Executes (s : Step ν) : Prop :=
  ∃ id now report, s.Answered (.execute id) now (.executed report)

/-- **A step that moved an owner's own tokens**: a stake, an extension or a withdrawal of the
owner that succeeded. -/
def MovesTokensOf (account : Address) (s : Step ν) : Prop :=
  ∃ request now response, s.Answered request now response ∧ request.payer? = some account

end Step

namespace Protocol

section Settings

variable {ν : Type} [Custody ν] {config : ProtocolConfig} {p q : Protocol ν} {now : Timestamp}
  {operation : Operation} {outcome : Except GovernanceError Outcome}

/-! ### Settings -/

/-- **The settings are as before.** A capability that had no active version may have got its
first one. -/
structure SameSettings (p q : Protocol ν) : Prop where
  rules : q.state.governor.params = p.state.governor.params
  guardian : q.state.governor.guardian = p.state.governor.guardian
  delays : q.state.timelock.params = p.state.timelock.params
  versions : ∀ target version, p.state.activeVersion? target = some version →
    q.state.activeVersion? target = some version

/-- **Rules and delays pass their checks.** -/
structure Valid (p : Protocol ν) : Prop where
  rules : p.state.governor.params.validate = .ok ()
  delays : p.state.timelock.params.validate = .ok ()

omit [Custody ν] in
/-- What a governor that differs in nothing but reports has for its rules and its guardian. -/
theorem rules_of_silent {g h : Governor} (hsilent : h.silent = g.silent) :
    h.params = g.params ∧ h.guardian = g.guardian := by
  show h.silent.params = g.silent.params ∧ h.silent.guardian = g.silent.guardian
  rw [hsilent]
  exact ⟨rfl, rfl⟩

/-- **No transition but an execution changes rules, guardian or delays.** -/
theorem Transition.rules (h : Transition p operation outcome q)
    (hexecutes : ¬ (Step.mk p operation outcome).Executes) :
    (q.state.governor.params = p.state.governor.params ∧
      q.state.governor.guardian = p.state.governor.guardian) ∧
      q.state.timelock.params = p.state.timelock.params := by
  cases h with
  | idle _ hsame _ => exact ⟨rules_of_silent hsame.governor, hsame.timelock.2⟩
  | staking _ _ _ hgovernor htimelock => exact ⟨rules_of_silent hgovernor, htimelock.2⟩
  | executing => exact absurd ⟨_, _, _, rfl, rfl⟩ hexecutes
  | proposing _ henters | voting _ henters | queueing _ _ _ henters | canceling _ _ henters
  | pruning henters =>
    have hrules := rules_of_silent henters.governor
    exact ⟨hrules, henters.timelock.2⟩

/-- **Rules and delays stay valid** through every transition: each setting that an execution
changes is checked before it is adopted. -/
theorem Transition.valid (h : Transition p operation outcome q) (hp : p.Valid) : q.Valid where
  rules := by
    by_cases hexecutes : (Step.mk p operation outcome).Executes
    · cases h with
      | executing _ _ _ _ _ _ hgovernor => exact hgovernor.valid hp.rules
      | idle hanswer =>
        obtain ⟨_, _, report, -, houtcome⟩ := hexecutes
        exact absurd houtcome (hanswer _)
      | staking hrequest =>
        obtain ⟨_, _, _, hoperation, -⟩ := hexecutes
        cases hoperation
        cases hrequest
      | proposing | voting | queueing | canceling | pruning =>
        obtain ⟨_, _, _, hoperation, -⟩ := hexecutes
        cases hoperation
    · rw [(h.rules hexecutes).1.1]
      exact hp.rules
  delays := h.delays.valid hp.delays

/-- A request to execute a proposal that succeeds has executed it. -/
theorem executes_of_ok {request : Request} {response : Response}
    (hrun : request.run now p = .ok response q) (h : request.Executes) :
    (Step.take p (.request request now)).Executes := by
  cases request with
  | execute id =>
    obtain ⟨report, -, -, rfl⟩ := request_eq_ok hrun
    have hop : (Operation.request (.execute id) now).run p = .ok (.response (.executed report)) q :=
      Call.bind_eq_ok.2 ⟨_, q, hrun, rfl⟩
    refine ⟨id, now, report, rfl, ?_⟩
    show (Call.runFrom _ p).1 = _
    rw [Call.runFrom, hop]
  | _ => cases h

/-- **No operation but an execution switches a capability**: a request that succeeds leaves all
active versions alone, and a handler that is registered makes a version active only where there
was none. -/
theorem versions_after (hquiet : Quiet p) (hfit : p.state.council.Fit)
    (hexecutes : ¬ (Step.take p operation).Executes) {target : Address} {version : Version}
    (hactive : p.state.activeVersion? target = some version) :
    (operation.run.after p).state.activeVersion? target = some version := by
  cases hrun : operation.run p with
  | error e q =>
    rw [Call.after_of_error hrun, (refused hquiet hfit hrun).rest]
    exact hactive
  | ok outcome q =>
    rw [Call.after_of_ok hrun]
    cases operation with
    | request request now =>
      obtain ⟨response, hrequest, -⟩ := operation_eq_ok hrun
      have hsame : SameSetup p q :=
        (keeps_setup_request (fun h => hexecutes (executes_of_ok hrequest h)) now).of_ok hrequest
          (.refl p)
      unfold ProtocolState.activeVersion?
      rw [hsame.capabilities]
      exact hactive
    | register other first handler =>
      obtain ⟨_, _, hregister, hpure⟩ := Call.bind_eq_ok.1 hrun
      obtain ⟨-, rfl⟩ := Call.pure_eq_ok.1 hpure
      obtain ⟨registry, -, rfl⟩ := registerCapability_eq_ok hregister
      show OrderedMap.get? (if p.state.capabilities.contains other then p.state.capabilities
        else p.state.capabilities.insert other first) target = some version
      split
      · exact hactive
      · rename_i hnone
        -- the target has an active version, so it is not the one that gets its first
        have hother : target ≠ other := by
          rintro rfl
          exact hnone (Option.isSome_iff_exists.2 ⟨version, hactive⟩)
        rw [OrderedMap.get?_insert_eq, if_neg hother]
        exact hactive
    | drain =>
      cases hrun
      exact hactive

/-! ### Balances -/

/-- A request that neither moves stakes nor executes a proposal leaves the vault alone. -/
theorem Transition.vault_eq {request : Request} {response : Response}
    (h : Transition p (.request request now) (.ok (.response response)) q)
    (hstakes : ¬ request.MovesStakes) (hexecutes : ¬ request.Executes) : q.vault = p.vault := by
  cases h with
  | idle hanswer => exact absurd rfl (hanswer _)
  | staking hrequest => exact absurd hrequest hstakes
  | executing => exact absurd trivial hexecutes
  | proposing _ henters | voting _ henters | queueing _ _ _ henters | canceling _ _ henters
  | pruning henters => exact henters.vault

/-- A request with a payment moves tokens of its owner. -/
theorem payer?_of_pays {l : Ledger} {owner : Address} {request : Request} {change : StakeChange}
    (h : StakeChange.Planned l now owner request change) (hpays : change.payment ≠ .nothing) :
    request.payer? = some owner := by
  cases h with
  | stake | extend | withdraw => rfl
  | delegate | unchanged => exact absurd rfl hpays

end Settings

/-- **A request that succeeds moves no tokens of others**, unless it executes a proposal. -/
theorem balanceOf_of_request {p q : Protocol Vault} {now : Timestamp} {request : Request}
    {response : Response} {account : Address}
    (ht : Transition p (.request request now) (.ok (.response response)) q)
    (hrun : request.run now p = .ok response q) (hexecutes : ¬ request.Executes)
    (hother : request.payer? ≠ some account) :
    q.vault.balanceOf account = p.vault.balanceOf account := by
  cases hstaker : request.staker? with
  | none => rw [ht.vault_eq (Request.not_movesStakes hstaker) hexecutes]
  | some owner =>
    obtain ⟨change, v, hplanned, -, -, hpaid, rfl⟩ := staking_eq_ok hstaker hrun
    rw [record_vault]
    show v.balanceOf account = p.vault.balanceOf account
    rcases Payment.run_eq_ok hpaid with ⟨-, rfl⟩ | ⟨hpays, hmoved⟩
    · rfl
    · refine hmoved.balanceOf_of_ne ?_
      rintro rfl
      exact hother (payer?_of_pays hplanned hpays)

/-- **No operation but an execution moves tokens of others**: whoever has not asked for a
movement has the same balance afterwards. -/
theorem balanceOf_after {config : ProtocolConfig} {p : Protocol Vault} {operation : Operation}
    (hp : p.Orderly config) (hexecutes : ¬ (Step.take p operation).Executes) {account : Address}
    (hown : ¬ (Step.take p operation).MovesTokensOf account) :
    (operation.run.after p).vault.balanceOf account = p.vault.balanceOf account := by
  have ht : Transition p operation _ _ := transition hp.sound operation
  cases hrun : operation.run p with
  | error e q =>
    rw [Call.after_of_error hrun, Call.runFrom, hrun] at ht
    cases ht with
    | idle _ _ hvault =>
      rw [Call.after_of_error hrun, hvault.vault_eq]
  | ok outcome q =>
    have hanswer : (operation.run.runFrom p).1 = .ok outcome := by rw [Call.runFrom, hrun]
    rw [Call.after_of_ok hrun, hanswer] at ht
    rw [Call.after_of_ok hrun]
    cases operation with
    | request request now =>
      obtain ⟨response, hrequest, rfl⟩ := operation_eq_ok hrun
      exact balanceOf_of_request ht hrequest (fun h => hexecutes (executes_of_ok hrequest h))
        fun hpayer => hown ⟨request, now, response, ⟨rfl, hanswer⟩, hpayer⟩
    | register target version handler =>
      obtain ⟨_, _, hregister, hpure⟩ := Call.bind_eq_ok.1 hrun
      obtain ⟨-, rfl⟩ := Call.pure_eq_ok.1 hpure
      obtain ⟨registry, -, rfl⟩ := registerCapability_eq_ok hregister
      rfl
    | drain =>
      cases hrun
      rfl

end Protocol

/-! ### Runs -/

namespace Run

variable {config : ProtocolConfig} {vault : Vault} {steps : List (Step Vault)} {p : Protocol Vault}

/-- The settings of a protocol are valid at the end of every run. -/
theorem valid (h : Run config vault steps p) : p.Valid := by
  refine h.invariant (P := fun _ p => p.Valid) (fun p hp => ?_)
    fun _ p _ _ q _ _ ht ih => ht.valid ih
  obtain ⟨rfl, hrules, hdelays⟩ := Protocol.create_eq_ok hp
  exact ⟨hrules, hdelays⟩

/-- **Only executed proposals reconfigure.** In every state of a run, the rules of voting and the
delays of the timelock pass their checks. And whatever is asked for in the run, with any
arguments and at any time: unless a proposal is executed, the rules, the guardian, the delays
and the active version of every capability that has one stay what they are; and so does the
balance of every account, except when the account itself stakes, extends a lock or withdraws. -/
theorem only_executions_reconfigure (h : Run config vault steps p) :
    p.Valid ∧ ∀ s ∈ steps, ¬ s.Executes →
      s.before.SameSettings s.after ∧
        ∀ account, ¬ s.MovesTokensOf account →
          s.after.vault.balanceOf account = s.before.vault.balanceOf account := by
  refine ⟨h.valid, fun s hs hexecutes => ?_⟩
  obtain ⟨early, late, rfl⟩ := List.append_of_mem hs
  obtain ⟨hrun, htake⟩ := h.of_append
  obtain ⟨⟨hrules, hguardian⟩, hdelays⟩ := h.transition_of_append.rules hexecutes
  rw [htake] at hexecutes
  refine ⟨⟨hrules, hguardian, hdelays, fun target version hactive => ?_⟩, fun account hown => ?_⟩
  · exact Protocol.versions_after hrun.quiet hrun.fit hexecutes hactive
  · rw [htake] at hown
    exact Protocol.balanceOf_after hrun.orderly hexecutes hown

/-- In the small run, the execution of the proposal changes the delay of votes from one second to
five. The stake at its beginning changes no setting, and the balance of its owner alone. -/
theorem only_executions_reconfigure_sample :
    let operations := Sample.operations ++ [Sample.execution]
    let p := (perform Sample.start operations).2
    let stake := Step.take Sample.start (.request
      (.stake Sample.alice (Word.ofNat 1000) (.ofNat (100 * day)) Sample.alice) (.ofNat 10))
    p.state.governor.params.votingDelay = .ofNat 5 ∧ p.Valid ∧
      stake ∈ (perform Sample.start operations).1 ∧ stake.before.SameSettings stake.after ∧
      stake.after.vault.balanceOf Sample.alice = Word.ofNat 4000 ∧
      ∀ account, account ≠ Sample.alice →
        stake.after.vault.balanceOf account = stake.before.vault.balanceOf account := by
  intro operations p stake
  have hrun : Run Sample.config Sample.vault (perform Sample.start operations).1 p :=
    (Run.create (by rfl)).perform_run operations
  have hmem : stake ∈ (perform Sample.start operations).1 := List.mem_cons_self
  have hexecutes : ¬ stake.Executes := by
    rintro ⟨id, now, report, hoperation, -⟩
    cases hoperation
  obtain ⟨hvalid, hsteps⟩ := hrun.only_executions_reconfigure
  obtain ⟨hsettings, hbalances⟩ := hsteps stake hmem hexecutes
  refine ⟨by decide +kernel, hvalid, hmem, hsettings, by decide +kernel, fun account hother => ?_⟩
  refine hbalances account ?_
  rintro ⟨request, now, response, ⟨hoperation, -⟩, hpayer⟩
  cases hoperation
  exact hother (Option.some.inj hpayer).symm

end Run

end StakeGovernance
