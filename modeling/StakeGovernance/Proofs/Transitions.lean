import StakeGovernance.Proofs.Actions
import StakeGovernance.Proofs.Runs
import StakeGovernance.Proofs.Settling
import StakeGovernance.Proofs.Soundness
import StakeGovernance.Proofs.Vaults

/-!
# What an operation does to a protocol

There are few things that an operation can do. Most of the time it does nothing, apart from
reports; if it succeeds, it moves stakes and tokens, or it enters or changes one proposal.
Every invariant of runs is proved along these cases.

* `StakeGovernance.Protocol.Same` – a protocol that has changed **in nothing but reports**
  and the queue of the timelock;
* `StakeGovernance.Protocol.Tokens` – how **tokens follow stakes**;
* `StakeGovernance.Protocol.Transition` – **what an operation does**;
* `StakeGovernance.Protocol.transition` – every operation does **one of these things**.
-/

namespace StakeGovernance

namespace Protocol

variable {ν α : Type} {p q r : Protocol ν} {now : Timestamp} {e : GovernanceError}

/-! ### Cases -/

/-- **Nothing has changed but reports** and the queue of the timelock. -/
structure Same (p q : Protocol ν) : Prop where
  ledger : q.state.ledger.silent = p.state.ledger.silent
  governor : q.state.governor.silent = p.state.governor.silent
  timelock : Timelock.Aside p.state.timelock q.state.timelock
  clock : q.state.clock = p.state.clock

/-- **Tokens follow stakes.** -/
inductive Tokens [Custody ν] (p q : Protocol ν) : Prop where
  | rest (htotal : q.state.ledger.total = p.state.ledger.total) (hvault : q.vault = p.vault)
  | deposit (owner : Address) (amount : Amount)
    (htotal : q.state.ledger.total.toNat = p.state.ledger.total.toNat + amount.toNat)
    (hvault : Custody.deposit owner amount p.vault = .ok () q.vault)
  | release (owner : Address) (amount : Amount)
    (htotal : q.state.ledger.total.toNat + amount.toNat = p.state.ledger.total.toNat)
    (hvault : Custody.release owner amount p.vault = .ok () q.vault)

/-- The vault is as before, or as a movement of tokens that failed has left it. -/
def VaultKept [Custody ν] (p q : Protocol ν) : Prop :=
  q.vault = p.vault ∨ ∃ account amount e,
    Custody.deposit account amount p.vault = .error e q.vault ∨
      Custody.release account amount p.vault = .error e q.vault

/-- The time of a call that succeeds becomes the time of the clock. -/
structure Ticks (now : Timestamp) (p q : Protocol ν) : Prop where
  before : p.state.clock ≤ now
  after : q.state.clock = now

/-- One proposal of the table has been put in, and stakes, rules and tokens are as before. -/
structure Enters (now : Timestamp) (governor : Governor) (p q : Protocol ν) : Prop where
  ticks : Ticks now p q
  ledger : q.state.ledger.silent = p.state.ledger.silent
  governor : q.state.governor.silent = governor.silent
  timelock : Timelock.Aside p.state.timelock q.state.timelock
  vault : q.vault = p.vault

end Protocol

/-- The requests that move stakes. -/
def Request.MovesStakes : Request → Prop
  | .stake .. | .extend .. | .withdraw .. | .delegate .. => True
  | _ => False

namespace Protocol

variable {ν α : Type} {now : Timestamp}

/-- **What an operation does.** -/
inductive Transition [Custody ν] (p : Protocol ν) :
    Operation → Except GovernanceError Outcome → Protocol ν → Prop where
  /-- It fails, or it is not a request. -/
  | idle {operation outcome q} (hanswer : ∀ response, outcome ≠ .ok (.response response))
    (hsame : Same p q) (hvault : VaultKept p q) : Transition p operation outcome q
  /-- It moves stakes and tokens. -/
  | staking {request now response q} (hrequest : request.MovesStakes) (hticks : Ticks now p q)
    (hledger : Ledger.Advances now p.state.ledger.silent q.state.ledger)
    (hgovernor : q.state.governor.silent = p.state.governor.silent)
    (htimelock : Timelock.Aside p.state.timelock q.state.timelock) (htokens : Tokens p q) :
    Transition p (.request request now) (.ok (.response response)) q
  /-- It makes a proposal. -/
  | proposing {proposer content now draft q}
    (hdraft : p.state.governor.draft p.state.ledger proposer content now = .ok draft)
    (henters : Enters now (p.state.governor.enter draft) p q) :
    Transition p (.request (.propose proposer content) now)
      (.ok (.response (.proposed draft.id))) q
  /-- It enters a vote. -/
  | voting {voter id support now proposal votes q}
    (hballot : p.state.governor.ballot p.state.ledger voter id support now = .ok (proposal, votes))
    (henters : Enters now (p.state.governor.put id proposal) p q) :
    Transition p (.request (.vote voter id support) now) (.ok (.response (.voted votes))) q
  /-- It queues a proposal. -/
  | queueing {id now proposal eta q} (hfind : p.state.governor.get? id = some proposal)
    (hstate : p.state.council.stateOf proposal now = .succeeded)
    (heta : now.add? p.state.timelock.params.delay = some eta)
    (henters : Enters now (p.state.governor.put id { proposal with eta }) p q) :
    Transition p (.request (.queue id) now) (.ok (.response (.queued eta))) q
  /-- It cancels a proposal. -/
  | canceling {caller id now proposal q} (hfind : p.state.governor.get? id = some proposal)
    (hstate : (p.state.council.stateOf proposal now).isTerminal = false)
    (henters : Enters now (p.state.governor.put id { proposal with canceled := true }) p q) :
    Transition p (.request (.cancel caller id) now) (.ok (.response .canceled)) q
  /-- It executes a proposal, whose actions may change rules, delays, capabilities and the
  vault. -/
  | executing {id now proposal receipts q} (hfind : p.state.governor.get? id = some proposal)
    (hstate : p.state.council.stateOf proposal now = .queued)
    (hdue : p.state.timelock.checkDue proposal.eta now = .ok ()) (hticks : Ticks now p q)
    (hreceipts : receipts.map (fun r : ActionReceipt => (r.hash, r.target, r.signature))
      = proposal.actions.map fun action =>
          (action.hash proposal.eta, action.target, action.signature))
    (hledger : q.state.ledger.silent = p.state.ledger.silent)
    (hgovernor : Governor.Reruled
      (p.state.governor.put id { proposal with executed := true }) q.state.governor)
    (htimelock : Timelock.Bounded p.state.timelock q.state.timelock)
    (hvault : ∀ P : ν → Prop, (∀ source target amount,
      Call.Keeps P (Custody.transfer source target amount)) → P p.vault → P q.vault) :
    Transition p (.request (.execute id) now)
      (.ok (.response (.executed ⟨id, proposal.eta, receipts⟩))) q
  /-- It removes entries of the timelock. -/
  | pruning {now hashes q} (henters : Enters now p.state.governor p q) :
    Transition p (.request .prune now) (.ok (.response (.pruned hashes))) q

/-! ### What is left behind -/

theorem Same.refl (p : Protocol ν) : Same p p := ⟨rfl, rfl, ⟨rfl, rfl⟩, rfl⟩

theorem VaultKept.refl [Custody ν] (p : Protocol ν) : VaultKept p p := Or.inl rfl

/-- A table of balances that refuses to move tokens has not moved any. -/
theorem VaultKept.vault_eq {p q : Protocol Vault} (h : VaultKept p q) : q.vault = p.vault := by
  rcases h with hvault | ⟨account, amount, e, hdeposit | hrelease⟩
  · exact hvault
  · exact Vault.deposit_eq_error hdeposit
  · exact Vault.release_eq_error hrelease

section Parts

variable {p : Protocol ν} {l : Ledger} {c : Council} {governor : Governor} {v : ν}

/-- A plan that advances a ledger advances it without its reports as well. -/
theorem advances_silent {m : Ledger} (h : Ledger.Advances now l m) :
    Ledger.Advances now l.silent m.silent := by
  cases h with
  | stay events => exact .stay []
  | write owner plan events hclock hplan =>
    exact .write (l := l.silent) owner plan [] hclock ⟨hplan.attributed, hplan.counted⟩

theorem same_of_aside (h : Council.Aside p.state.council c) :
    Same p ((p.withCouncil c).record now) where
  ledger := by rw [record_ledger]; rfl
  governor := by
    rw [record_governor]
    show c.governor.silent = p.state.council.governor.silent
    rw [h.governor]
  timelock := by
    rw [record_timelock]
    exact h.timelock
  clock := by rw [record_clock]; rfl

theorem enters_of (hclock : p.state.clock ≤ now) (hgovernor : c.governor.silent = governor.silent)
    (htimelock : Timelock.Aside p.state.timelock c.timelock) :
    Enters now governor p (((p.withCouncil c).withClock now).record now) where
  ticks := ⟨hclock, by rw [record_clock]; rfl⟩
  ledger := by rw [record_ledger]; rfl
  governor := by
    rw [record_governor]
    exact hgovernor
  timelock := by
    rw [record_timelock]
    exact htimelock
  vault := by rw [record_vault]; rfl

/-- A vault that was changed by a movement of tokens that failed. -/
theorem same_of_vault (v : ν) : Same p (({ p with vault := v } : Protocol ν).record now) where
  ledger := by rw [record_ledger]; rfl
  governor := by rw [record_governor]; rfl
  timelock := by rw [record_timelock]; exact ⟨rfl, rfl⟩
  clock := by rw [record_clock]

theorem Tokens.settled [Custody ν] {r : Protocol ν} (h : Tokens p r) :
    Tokens p ((r.withClock now).record now) := by
  have hledger : ((r.withClock now).record now).state.ledger = r.state.ledger.silent :=
    record_ledger _ _
  have hvault : ((r.withClock now).record now).vault = r.vault := record_vault _ _
  cases h with
  | rest ht hv => exact .rest (hledger ▸ ht) (hvault ▸ hv)
  | deposit owner amount ht hv => exact .deposit owner amount (hledger ▸ ht) (hvault ▸ hv)
  | release owner amount ht hv => exact .release owner amount (hledger ▸ ht) (hvault ▸ hv)

theorem staking_of [Custody ν] {request : Request} {response : Response}
    (hrequest : request.MovesStakes) (hclock : p.state.clock ≤ now)
    (hledger : Ledger.Advances now p.state.ledger l)
    (htokens : Tokens p { p.withLedger l with vault := v }) :
    Transition p (.request request now) (.ok (.response response))
      ((({ p.withLedger l with vault := v } : Protocol ν).withClock now).record now) := by
  refine .staking hrequest ⟨hclock, ?_⟩ ?_ ?_ ?_ htokens.settled
  · rw [record_clock]
    rfl
  · rw [record_ledger]
    exact advances_silent hledger
  · rw [record_governor]
    rfl
  · rw [record_timelock]
    exact ⟨rfl, rfl⟩

end Parts

/-! ### Requests -/

variable [Custody ν] {p : Protocol ν}

/-- An operation does one of these things. -/
def Transits (p : Protocol ν) (operation : Operation) : Prop :=
  Transition p operation (operation.run.runFrom p).1 (operation.run.after p)

/-- **A request does what its call does** once its time has been checked: nothing, apart from
reports, if it fails, and one of the other things if it succeeds. -/
theorem transition_of (call : Call GovernanceError (Protocol ν) α) (wrap : α → Response)
    {rest : Call GovernanceError (Protocol ν) α} {request : Request}
    (hrun : request.run now = do return wrap (← call))
    (htimed : call = checkClock now >>= fun _ => rest)
    (hok : ∀ a q, p.state.clock ≤ now → rest p = .ok a q →
      Transition p (.request request now) (.ok (.response (wrap a))) q)
    (herror : ∀ e q, rest p = .error e q → Same p q ∧ VaultKept p q) :
    Transits p (.request request now) := by
  have hop : (Operation.request request now).run
      = (call >>= fun a => pure (wrap a)) >>= fun response => pure (Outcome.response response) := by
    rw [← hrun]
    rfl
  unfold Transits
  cases hcall : call p with
  | ok a q =>
    have hop : (Operation.request request now).run p = .ok (.response (wrap a)) q := by
      rw [hop]
      exact Call.bind_eq_ok.2 ⟨_, q, Call.bind_eq_ok.2 ⟨a, q, hcall, rfl⟩, rfl⟩
    rw [Call.after_of_ok hop, Call.runFrom, hop]
    rw [htimed] at hcall
    obtain ⟨hclock, hrest⟩ := timed_eq_ok hcall
    exact hok a q hclock hrest
  | error e q =>
    have hop : (Operation.request request now).run p = .error e q := by
      rw [hop]
      exact Call.bind_eq_error.2 (Or.inl (Call.bind_eq_error.2 (Or.inl hcall)))
    rw [Call.after_of_error hop, Call.runFrom, hop]
    have hkept : Same p q ∧ VaultKept p q := by
      rw [htimed] at hcall
      rcases timed_eq_error hcall with ⟨-, rfl⟩ | hrest
      · exact ⟨.refl p, .refl p⟩
      · exact herror e q hrest
    exact .idle (fun _ h => by cases h) hkept.1 hkept.2

variable {owner target : Address} {amount additional : Amount} {source bucket unlock : Timestamp}

/-- A call on the ledger with a movement of tokens that fails leaves the ledger alone. -/
theorem custody_eq_error {call : Call StakingError Ledger α}
    {custody : α → Call StakingError ν Unit} {e : GovernanceError} {q : Protocol ν}
    (h : settled now (withCustody call custody) p = .error e q)
    (hledger : ∀ d l, call p.state.ledger = .error d l → l = p.state.ledger)
    (hcustody : ∀ a d v, custody a p.vault = .error d v → ∃ account amount,
      Custody.deposit account amount p.vault = .error d v ∨
        Custody.release account amount p.vault = .error d v) :
    Same p q ∧ VaultKept p q := by
  obtain ⟨r, hcall, rfl⟩ := settled_eq_error.1 h
  rcases withCustody_eq_error hcall with ⟨d, l, hl, rfl⟩ | ⟨a, l, d, v, -, hv, rfl⟩
  · rw [hledger d l hl]
    exact ⟨same_of_vault p.vault, Or.inl (record_vault _ _)⟩
  · obtain ⟨account, amount, hmoved⟩ := hcustody a d v hv
    refine ⟨same_of_vault v, Or.inr ⟨account, amount, d, ?_⟩⟩
    rwa [record_vault]

theorem transits_stake (hsound : p.state.ledger.Sound) :
    Transits p (.request (.stake owner amount unlock target) now) := by
  refine transition_of (Protocol.stake owner amount unlock target now) .staked rfl rfl
    (fun receipt q hclock hrest => ?_) fun e q hrest => ?_
  · obtain ⟨-, hsettled⟩ := Call.refuse_eq_ok.1 hrest
    obtain ⟨r, hcall, rfl⟩ := settled_eq_ok.1 hsettled
    obtain ⟨l, v, hl, hv, rfl⟩ := withCustody_eq_ok hcall
    obtain ⟨hadvances, htotal⟩ := hsound.stake_eq_ok hl
    exact staking_of trivial hclock hadvances (.deposit owner amount htotal hv)
  · rcases Call.refuse_eq_error.1 hrest with ⟨-, -, rfl⟩ | ⟨-, hsettled⟩
    · exact ⟨.refl p, .refl p⟩
    · exact custody_eq_error hsettled (fun _ _ => Ledger.stake_eq_error)
        fun _ _ _ hv => ⟨owner, amount, Or.inl hv⟩

theorem transits_extend (hsound : p.state.ledger.Sound) :
    Transits p (.request (.extend owner source unlock additional) now) := by
  refine transition_of (Protocol.extend owner source unlock additional now) .staked rfl rfl
    (fun receipt q hclock hsettled => ?_) fun e q hsettled => ?_
  · obtain ⟨r, hcall, rfl⟩ := settled_eq_ok.1 hsettled
    obtain ⟨l, v, hl, hv, rfl⟩ := withCustody_eq_ok hcall
    obtain ⟨hadvances, htotal⟩ := hsound.extend_eq_ok hl
    refine staking_of trivial hclock hadvances ?_
    split at hv
    · -- nothing is added, so the tokens stay where they are
      rename_i hzero
      rw [Word.isZero_iff.1 hzero, Nat.add_zero] at htotal
      exact .rest (Word.ext htotal) (Call.pure_eq_ok.1 hv).2.symm
    · exact .deposit owner additional htotal hv
  · refine custody_eq_error hsettled (fun _ _ => Ledger.extend_eq_error) fun _ d v hv => ?_
    split at hv
    · exact absurd hv Call.pure_ne_error
    · exact ⟨owner, additional, Or.inl hv⟩

theorem transits_withdraw (hsound : p.state.ledger.Sound) :
    Transits p (.request (.withdraw owner bucket) now) := by
  refine transition_of (Protocol.withdraw owner bucket now) .withdrawn rfl rfl
    (fun released q hclock hsettled => ?_) fun e q hsettled => ?_
  · obtain ⟨r, hcall, rfl⟩ := settled_eq_ok.1 hsettled
    obtain ⟨l, v, hl, hv, rfl⟩ := withCustody_eq_ok hcall
    obtain ⟨hadvances, htotal⟩ := hsound.withdraw_eq_ok hl
    exact staking_of trivial hclock hadvances (.release owner released htotal hv)
  · exact custody_eq_error hsettled (fun _ _ => Ledger.withdraw_eq_error)
      fun released _ _ hv => ⟨owner, released, Or.inr hv⟩

theorem transits_delegate (hsound : p.state.ledger.Sound) :
    Transits p (.request (.delegate owner target) now) := by
  refine transition_of (Protocol.delegate owner target now) .delegated rfl rfl
    (fun previous q hclock hsettled => ?_) fun e q hsettled => ?_
  · obtain ⟨r, hcall, rfl⟩ := settled_eq_ok.1 hsettled
    obtain ⟨l, hl, rfl⟩ := onLedger_eq_ok hcall
    obtain ⟨hadvances, htotal⟩ := hsound.delegate_eq_ok hl
    exact staking_of (v := p.vault) trivial hclock hadvances (.rest htotal rfl)
  · obtain ⟨r, hcall, rfl⟩ := settled_eq_error.1 hsettled
    obtain ⟨d, l, hl, rfl⟩ := onLedger_eq_error hcall
    rw [Ledger.delegate_eq_error hl]
    exact ⟨same_of_vault p.vault, Or.inl (record_vault _ _)⟩

variable {proposer voter caller : Address} {id : ProposalId} {support : VoteSupport}
  {content : ProposalRequest}

/-- A call on the council that fails changes nothing but the queue. -/
theorem council_eq_error {call : Call GovernanceError Council α} {e : GovernanceError}
    {q : Protocol ν} (h : settled now (onCouncil call) p = .error e q)
    (hcouncil : ∀ c, call p.state.council = .error e c → Council.Aside p.state.council c) :
    Same p q ∧ VaultKept p q := by
  obtain ⟨r, hcall, rfl⟩ := settled_eq_error.1 h
  obtain ⟨c, hc, rfl⟩ := onCouncil_eq_error hcall
  exact ⟨same_of_aside (hcouncil c hc), Or.inl (record_vault _ _)⟩

theorem governor_eq_error {call : Call GovernanceError Governor α} {e : GovernanceError}
    {q : Protocol ν} (h : settled now (onGovernor call) p = .error e q)
    (hgovernor : ∀ g, call p.state.governor = .error e g → g = p.state.governor) :
    Same p q ∧ VaultKept p q := by
  refine council_eq_error h fun c hc => ?_
  obtain ⟨_, g, hg, rfl, rfl⟩ := Call.part_eq_error.1 hc
  exact ⟨hgovernor g hg, rfl, rfl⟩

theorem transits_propose : Transits p (.request (.propose proposer content) now) := by
  refine transition_of (Protocol.propose proposer content now) .proposed rfl rfl
    (fun id q hclock hread => ?_) fun e q hread => ?_
  · obtain ⟨_, -, hsettled⟩ := Call.lift_bind_eq_ok.1 (Call.get_bind_eq_ok.1 hread)
    obtain ⟨r, hcall, rfl⟩ := settled_eq_ok.1 hsettled
    obtain ⟨g, hg, rfl⟩ := onGovernor_eq_ok hcall
    obtain ⟨draft, hdraft, rfl, rfl⟩ := Governor.propose_eq_ok hg
    exact .proposing hdraft (enters_of hclock rfl ⟨rfl, rfl⟩)
  · have hread := Call.get_bind_eq_error.1 hread
    rcases Call.lift_bind_eq_error.1 hread with ⟨-, rfl⟩ | ⟨_, -, hsettled⟩
    · exact ⟨.refl p, .refl p⟩
    · exact governor_eq_error hsettled fun _ => Governor.propose_eq_error

theorem transits_vote : Transits p (.request (.vote voter id support) now) := by
  refine transition_of (Protocol.castVote voter id support now) .voted rfl rfl
    (fun votes q hclock hread => ?_) fun e q hread => ?_
  · obtain ⟨r, hcall, rfl⟩ := settled_eq_ok.1 (Call.get_bind_eq_ok.1 hread)
    obtain ⟨g, hg, rfl⟩ := onGovernor_eq_ok hcall
    obtain ⟨proposal, hballot, rfl⟩ := Governor.castVote_eq_ok hg
    exact .voting hballot (enters_of hclock rfl ⟨rfl, rfl⟩)
  · exact governor_eq_error (Call.get_bind_eq_error.1 hread)
      fun _ hg => (Governor.castVote_eq_error hg).1

theorem transits_queue : Transits p (.request (.queue id) now) := by
  refine transition_of (Protocol.queue id now) .queued rfl rfl
    (fun eta q hclock hsettled => ?_) fun e q hsettled => ?_
  · obtain ⟨r, hcall, rfl⟩ := settled_eq_ok.1 hsettled
    obtain ⟨c, hc, rfl⟩ := onCouncil_eq_ok hcall
    obtain ⟨proposal, hfind, hstate, heta, hgovernor, htimelock⟩ := Council.queue_eq_ok hc
    refine .queueing hfind hstate heta (enters_of hclock ?_ htimelock)
    rw [hgovernor]
    rfl
  · exact council_eq_error hsettled fun _ => Council.queue_eq_error

theorem transits_cancel : Transits p (.request (.cancel caller id) now) := by
  refine transition_of (Protocol.cancel caller id now) (fun _ => .canceled) rfl rfl
    (fun _ q hclock hread => ?_) fun e q hread => ?_
  · obtain ⟨r, hcall, rfl⟩ := settled_eq_ok.1 (Call.get_bind_eq_ok.1 hread)
    obtain ⟨c, hc, rfl⟩ := onCouncil_eq_ok hcall
    obtain ⟨proposal, hfind, hstate, -, hgovernor, htimelock⟩ := Council.cancel_eq_ok hc
    refine .canceling hfind hstate (enters_of hclock ?_ htimelock)
    rw [hgovernor]
    rfl
  · exact council_eq_error (Call.get_bind_eq_error.1 hread) fun _ => Council.cancel_eq_error

theorem transits_prune : Transits p (.request .prune now) := by
  refine transition_of (Protocol.prune now) .pruned rfl rfl
    (fun hashes q hclock hsettled => ?_) fun e q hsettled => ?_
  · obtain ⟨r, hcall, rfl⟩ := settled_eq_ok.1 hsettled
    obtain ⟨_, hc, rfl⟩ := onCouncil_eq_ok hcall
    obtain ⟨t, ht, rfl⟩ := Call.part_eq_ok.1 hc
    exact .pruning (enters_of hclock rfl (Timelock.keeps_pruneStale.of_ok ht ⟨rfl, rfl⟩))
  · refine council_eq_error hsettled fun c hc => ?_
    obtain ⟨_, t, ht, -, rfl⟩ := Call.part_eq_error.1 hc
    exact ⟨rfl, Timelock.keeps_pruneStale.of_error ht ⟨rfl, rfl⟩⟩

/-! ### Executing -/

/-- **An execution on the way**: the proposal was queued and due, the council has released it, and
its actions have been carried out on what the release has left. -/
structure Executed (p : Protocol ν) (id : ProposalId) (now : Timestamp) (proposal : Proposal)
    (c : Council) (receipts : List ActionReceipt) (r : Protocol ν) : Prop where
  find : p.state.governor.get? id = some proposal
  queued : p.state.council.stateOf proposal now = .queued
  due : p.state.timelock.checkDue proposal.eta now = .ok ()
  governor : c.governor = (p.state.governor.put id { proposal with executed := true }).report
    (.proposalExecuted id)
  timelock : Timelock.Aside p.state.timelock c.timelock
  performed : performAll (proposal.actions.map fun action => (action.hash proposal.eta, action))
    (p.withCouncil c) = .ok receipts r

/-- An execution that succeeds was on the way before it was settled. -/
theorem Executed.of_settled {report : ExecutionReport} (h : settled now (do
      let released ← onCouncil (Council.release id now)
      let receipts ← Call.collect released.actions fun (hash, action) => perform hash action
      return ⟨id, released.eta, receipts⟩) p = .ok report q) :
    ∃ proposal c receipts r, Executed p id now proposal c receipts r ∧
      report = ⟨id, proposal.eta, receipts⟩ ∧ q = (r.withClock now).record now := by
  obtain ⟨r, hcall, rfl⟩ := settled_eq_ok.1 h
  obtain ⟨released, _, hrelease, hrest⟩ := Call.bind_eq_ok.1 hcall
  obtain ⟨c, hc, rfl⟩ := onCouncil_eq_ok hrelease
  obtain ⟨proposal, hfind, hstate, hdue, rfl, hgovernor, htimelock⟩ := Council.release_eq_ok hc
  obtain ⟨receipts, r', hperform, hpure⟩ := Call.bind_eq_ok.1 hrest
  obtain ⟨rfl, rfl⟩ := Call.pure_eq_ok.1 hpure
  exact ⟨proposal, c, receipts, r', ⟨hfind, hstate, hdue, hgovernor, htimelock, hperform⟩, rfl, rfl⟩

/-- There is a receipt for each action, with what it was about. -/
theorem Executed.receipts_eq {proposal : Proposal} {c : Council} {receipts : List ActionReceipt}
    {r : Protocol ν} (h : Executed p id now proposal c receipts r) :
    receipts.map (fun r => (r.hash, r.target, r.signature))
      = proposal.actions.map fun action =>
        (action.hash proposal.eta, action.target, action.signature) := by
  obtain ⟨receipts', r', hperform, hreceipts⟩ := performAll_eq_ok
    (proposal.actions.map fun action => (action.hash proposal.eta, action)) (p.withCouncil c)
  cases h.performed.symm.trans hperform
  rwa [List.map_map] at hreceipts

/-- What a released proposal is settled to, after its actions. -/
theorem Executed.transition {proposal : Proposal} {c : Council} {receipts : List ActionReceipt}
    {r : Protocol ν} (h : Executed p id now proposal c receipts r) (hclock : p.state.clock ≤ now) :
    Transition p (.request (.execute id) now)
      (.ok (.response (.executed ⟨id, proposal.eta, receipts⟩)))
      ((r.withClock now).record now) := by
  have hrest : Reconfigured (p.withCouncil c) r :=
    (keeps_performAll _).of_ok h.performed (.refl _)
  have hrules : Governor.Reruled c.governor r.state.governor := hrest.governor
  have hdelays : Timelock.Redelayed c.timelock r.state.timelock := hrest.timelock
  refine .executing h.find h.queued h.due ⟨hclock, ?_⟩ h.receipts_eq ?_ ?_ ?_
    fun P htransfer hP => ?_
  · rw [record_clock]
    rfl
  · rw [record_ledger]
    show r.state.ledger.silent = p.state.ledger.silent
    rw [hrest.ledger]
    rfl
  · rw [record_governor]
    rw [h.governor] at hrules
    exact ⟨hrules.address, hrules.proposals, hrules.latestByProposer, hrules.nextId, hrules.valid⟩
  · rw [record_timelock]
    have hbounds := h.timelock.bounded.trans hdelays.toBounded
    exact ⟨hbounds.admin, hbounds.minDelay, hbounds.maxDelay, hbounds.gracePeriod, hbounds.valid⟩
  · rw [record_vault]
    show P r.vault
    exact (keeps_vault_performAll htransfer _).of_ok h.performed hP

theorem transits_execute : Transits p (.request (.execute id) now) := by
  refine transition_of (Protocol.execute id now) .executed rfl rfl
    (fun report q hclock hsettled => ?_) fun e q hsettled => ?_
  · obtain ⟨proposal, c, receipts, r, hexecuted, rfl, rfl⟩ := Executed.of_settled hsettled
    exact hexecuted.transition hclock
  · obtain ⟨r, hcall, rfl⟩ := settled_eq_error.1 hsettled
    rcases Call.bind_eq_error.1 hcall with hrelease | ⟨released, q, -, hrest⟩
    · obtain ⟨c, hc, rfl⟩ := onCouncil_eq_error hrelease
      exact ⟨same_of_aside (Council.release_eq_error hc), Or.inl (record_vault _ _)⟩
    -- once the actions have been released, nothing fails any more
    obtain ⟨receipts, r', hperform, -⟩ := performAll_eq_ok released.actions q
    rcases Call.bind_eq_error.1 hrest with hfailed | ⟨_, _, -, hpure⟩
    · cases hfailed.symm.trans hperform
    · exact absurd hpure Call.pure_ne_error

/-! ### Operations -/

theorem transits_register {version : Version} {handler : Treasury} :
    Transits p (.register target version handler) := by
  have hkeeps : Call.Keeps (fun q : Protocol ν => Same p q ∧ q.vault = p.vault)
      (registerCapability target version handler) := by
    refine .get_bind fun q hq => Call.Keeps.refuse
      (P := fun q : Protocol ν => Same p q ∧ q.vault = p.vault)
      (.bind (.lift _) fun registry => .set ?_) q hq
    exact ⟨⟨hq.1.ledger, hq.1.governor, hq.1.timelock, hq.1.clock⟩, hq.2⟩
  unfold Transits
  cases hcall : registerCapability target version handler p with
  | ok u q =>
    have hop : (Operation.register target version handler).run p = .ok .registered q :=
      Call.bind_eq_ok.2 ⟨u, q, hcall, rfl⟩
    obtain ⟨hsame, hvault⟩ := hkeeps.of_ok hcall ⟨.refl p, rfl⟩
    rw [Call.after_of_ok hop, Call.runFrom, hop]
    exact .idle (fun _ h => by cases h) hsame (Or.inl hvault)
  | error e q =>
    have hop : (Operation.register target version handler).run p = .error e q :=
      Call.bind_eq_error.2 (Or.inl hcall)
    obtain ⟨hsame, hvault⟩ := hkeeps.of_error hcall ⟨.refl p, rfl⟩
    rw [Call.after_of_error hop, Call.runFrom, hop]
    exact .idle (fun _ h => by cases h) hsame (Or.inl hvault)

/-- **Every operation does one of these things.** -/
theorem transition (hsound : p.state.ledger.Sound) (operation : Operation) :
    Transits p operation := by
  cases operation with
  | request request now =>
    cases request with
    | stake owner amount unlock target => exact transits_stake hsound
    | extend owner source unlock additional => exact transits_extend hsound
    | withdraw owner bucket => exact transits_withdraw hsound
    | delegate owner target => exact transits_delegate hsound
    | propose proposer content => exact transits_propose
    | vote voter id support => exact transits_vote
    | queue id => exact transits_queue
    | execute id => exact transits_execute
    | cancel caller id => exact transits_cancel
    | prune => exact transits_prune
  | register target version handler => exact transits_register
  | drain => exact .idle (fun _ h => by cases h) ⟨rfl, rfl, ⟨rfl, rfl⟩, rfl⟩ (.refl p)

end Protocol

end StakeGovernance
