import StakeGovernance.Proofs.Refusals

/-!
# What requests do not depend on

A protocol that was resumed from its store differs from the one that went on in memory in one
thing: the journal entries that were taken by the store are not in its journal any more. No
request looks at the journal; each adds to it what there is to record and leaves the rest. So
it makes no difference whether entries are taken before a request or after it.

The handlers of the capabilities are not stored. No request changes them, only the execution
of a proposal makes another version of a capability active, and none that has no handler.

* `StakeGovernance.Call.Blind` – a call that **does not see** what is done to a state;
* `StakeGovernance.Protocol.SameSetup` – a protocol **set up as before**, which only an execution
  changes (`StakeGovernance.Protocol.keeps_setup_request`);
* `StakeGovernance.Protocol.Lasting` – a property of the setup that **lasts through requests**
  (`StakeGovernance.Protocol.Lasting.request`);
* `StakeGovernance.Protocol.Handled` – a protocol **with the handlers of another one**;
* `StakeGovernance.Protocol.keeps_handled_request` – a request **leaves the handlers alone**;
* `StakeGovernance.Protocol.preceded` – a protocol with **entries in front of its journal**;
* `StakeGovernance.Protocol.blind_request` – a request **does not see them**.
-/

namespace StakeGovernance

namespace Call

variable {ε δ σ τ α β : Type} {f : σ → σ}

/-! ### What a call does not look at -/

/-- The result of a call with something done to the state that it leaves. -/
def mapState (f : σ → σ) : EStateM.Result ε σ α → EStateM.Result ε σ α
  | .ok a s => .ok a (f s)
  | .error e s => .error e (f s)

/-- **A call that does not see** what `f` does to a state: it makes no difference whether that is
done before the call or after it. -/
def Blind (f : σ → σ) (call : Call ε σ α) : Prop := ∀ s, call (f s) = mapState f (call s)

theorem Blind.pure (a : α) : Blind f (pure a : Call ε σ α) := fun _ => rfl

theorem Blind.throw (e : ε) : Blind f (throw e : Call ε σ α) := fun _ => rfl

theorem Blind.lift (x : Except ε α) : Blind f (liftM x : Call ε σ α) := by
  cases x <;> exact fun _ => rfl

theorem Blind.bind {x : Call ε σ α} {k : α → Call ε σ β} (hx : Blind f x)
    (hk : ∀ a, Blind f (k a)) : Blind f (x >>= k) := by
  intro s
  show EStateM.bind x k (f s) = mapState f (EStateM.bind x k s)
  unfold EStateM.bind
  rw [hx s]
  cases x s with
  | ok a t => exact hk a t
  | error e t => rfl

theorem Blind.modify {g : σ → σ} (h : ∀ s, g (f s) = f (g s)) :
    Blind f (modify g : Call ε σ PUnit) := fun s =>
  congrArg (EStateM.Result.ok PUnit.unit) (h s)

/-- A call that looks at nothing but what `f` leaves alone. -/
theorem Blind.get_bind {k : σ → Call ε σ α} (hsame : ∀ s, k (f s) = k s)
    (hk : ∀ s, Blind f (k s)) : Blind f (MonadState.get >>= k) := fun s => by
  show k (f s) (f s) = mapState f (k s s)
  rw [hsame]
  exact hk s s

theorem Blind.refuse {c : Prop} [Decidable c] {e : ε} {k : α → Call ε σ β} {x : Call ε σ β}
    (h : Blind f x) : Blind f (if c then (MonadExcept.throw e : Call ε σ α) >>= k else x) := by
  split
  · exact fun _ => rfl
  · exact h

/-- A call on a part of the state does not see what is done to the rest. -/
theorem Blind.part {read : σ → τ} {write : τ → σ → σ} {wrap : ε → δ} {call : Call ε τ α}
    (hread : ∀ s, read (f s) = read s) (hwrite : ∀ t s, write t (f s) = f (write t s)) :
    Blind f (part read write wrap call) := by
  intro s
  unfold Call.part
  rw [hread]
  cases call (read s) with
  | ok a t => exact congrArg (EStateM.Result.ok a) (hwrite t s)
  | error e t => exact congrArg (EStateM.Result.error (wrap e)) (hwrite t s)

theorem Blind.collect {items : List β} {round : β → Call ε σ α} (h : ∀ b, Blind f (round b)) :
    Blind f (collect items round) := by
  induction items with
  | nil => exact .pure _
  | cons b rest ih => exact (h b).bind fun _ => ih.bind fun _ => .pure _

end Call

/-- The requests that execute a proposal. -/
def Request.Executes : Request → Prop
  | .execute _ => True
  | _ => False

namespace Protocol

variable {ν α : Type} {p q r : Protocol ν} {now : Timestamp}

/-! ### The setup -/

/-- **A protocol is set up as before**: under the same address, with the same handlers and the
same active versions of its capabilities. -/
structure SameSetup (p q : Protocol ν) : Prop where
  address : q.state.address = p.state.address
  registry : q.registry = p.registry
  capabilities : q.state.capabilities = p.state.capabilities

theorem SameSetup.refl (p : Protocol ν) : SameSetup p p := ⟨rfl, rfl, rfl⟩

theorem SameSetup.record (h : SameSetup p q) (now : Timestamp) : SameSetup p (q.record now) where
  address := (record_frame (f := fun q => q.state.address) (fun _ _ => rfl) q).trans h.address
  registry := (record_frame (f := fun q => q.registry) (fun _ _ => rfl) q).trans h.registry
  capabilities :=
    (record_frame (f := fun q => q.state.capabilities) (fun _ _ => rfl) q).trans h.capabilities

theorem SameSetup.withClock (h : SameSetup p q) (now : Timestamp) :
    SameSetup p (q.withClock now) := ⟨h.address, h.registry, h.capabilities⟩

theorem keeps_setup_settled {call : Call GovernanceError (Protocol ν) α}
    (h : Call.Keeps (SameSetup p) call) : Call.Keeps (SameSetup p) (settled now call) := by
  refine Call.keeps_of (fun q a r hq hr => ?_) fun q e r hq hr => ?_
  · obtain ⟨s, hs, rfl⟩ := settled_eq_ok.1 hr
    exact ((h.of_ok hs hq).withClock now).record now
  · obtain ⟨s, hs, rfl⟩ := settled_eq_error.1 hr
    exact (h.of_error hs hq).record now

theorem keeps_setup_onLedger {call : Call StakingError Ledger α} :
    Call.Keeps (SameSetup p) (onLedger call) :=
  .part fun _ hq => ⟨hq.address, hq.registry, hq.capabilities⟩

theorem keeps_setup_onCouncil {call : Call GovernanceError Council α} :
    Call.Keeps (SameSetup p) (onCouncil call) :=
  .part fun _ hq => ⟨hq.address, hq.registry, hq.capabilities⟩

theorem keeps_setup_withCustody {call : Call StakingError Ledger α}
    {custody : α → Call StakingError ν Unit} :
    Call.Keeps (SameSetup p) (withCustody call custody) := by
  refine Call.keeps_of (fun q a r hq hr => ?_) fun q e r hq hr => ?_
  · obtain ⟨l, v, -, -, rfl⟩ := withCustody_eq_ok hr
    exact ⟨hq.address, hq.registry, hq.capabilities⟩
  · rcases withCustody_eq_error hr with ⟨_, l, -, rfl⟩ | ⟨_, l, _, v, -, -, rfl⟩
    · exact ⟨hq.address, hq.registry, hq.capabilities⟩
    · exact ⟨hq.address, hq.registry, hq.capabilities⟩

/-- **Only an execution changes the setup.** -/
theorem keeps_setup_request [Custody ν] {request : Request} (h : ¬ request.Executes)
    (now : Timestamp) : Call.Keeps (SameSetup p) (request.run now) := by
  have htimed : ∀ {α : Type} {call : Call GovernanceError (Protocol ν) α} {f : α → Response},
      Call.Keeps (SameSetup p) call →
      Call.Keeps (SameSetup p) (do return f (← checkClock now >>= fun _ => call)) := by
    intro α call f h
    exact (keeps_checkClock.bind fun _ => h).bind fun _ => .pure _
  have hcouncil : ∀ {α : Type} {call : Call GovernanceError Council α},
      Call.Keeps (SameSetup p) (settled now (onCouncil call)) :=
    keeps_setup_settled keeps_setup_onCouncil
  cases request with
  | stake => exact htimed (.refuse (keeps_setup_settled keeps_setup_withCustody))
  | extend | withdraw => exact htimed (keeps_setup_settled keeps_setup_withCustody)
  | delegate => exact htimed (keeps_setup_settled keeps_setup_onLedger)
  | propose => exact htimed (.get_bind fun q hq =>
      Call.Keeps.bind (P := SameSetup p) (.lift _) (fun _ => hcouncil) q hq)
  | vote => exact htimed (.get_bind fun q hq => hcouncil q hq)
  | cancel => exact htimed (f := fun _ => .canceled) (.get_bind fun q hq => hcouncil q hq)
  | queue | prune => exact htimed hcouncil
  | execute => exact absurd trivial h

/-! ### What lasts -/

/-- The protocol with another version of a capability active. -/
def switched (p : Protocol ν) (target : Address) (version : Version) : Protocol ν :=
  { p with state := { p.state with capabilities := p.state.capabilities.insert target version } }

/-- **A property of the setup that lasts**: a protocol that is set up as before has it, and so has
one with a capability that was switched to a version with a handler. -/
structure Lasting (P : Protocol ν → Prop) : Prop where
  of_setup : ∀ q r, P q → SameSetup q r → P r
  of_switch : ∀ q target version, P q → q.registry.hasVersion target version = true →
    P (q.switched target version)

section Lasting

variable {P : Protocol ν → Prop} (hP : Lasting P)

include hP

theorem Lasting.onCouncil {call : Call GovernanceError Council α} :
    Call.Keeps P (onCouncil call) :=
  fun q hq => hP.of_setup q _ hq (keeps_setup_onCouncil q (.refl q))

theorem Lasting.note (event : GovernanceEvent) (hq : P q) : P (q.note event) :=
  hP.of_setup q _ hq ⟨rfl, rfl, rfl⟩

theorem Lasting.settled {call : Call GovernanceError (Protocol ν) α} (h : Call.Keeps P call) :
    Call.Keeps P (settled now call) := by
  refine Call.keeps_of (fun q a r hq hr => ?_) fun q e r hq hr => ?_
  · obtain ⟨s, hs, rfl⟩ := settled_eq_ok.1 hr
    exact hP.of_setup s _ (h.of_ok hs hq) (((SameSetup.refl s).withClock now).record now)
  · obtain ⟨s, hs, rfl⟩ := settled_eq_error.1 hr
    exact hP.of_setup s _ (h.of_error hs hq) ((SameSetup.refl s).record now)

/-- **A capability is switched** only to a version that has a handler. -/
theorem Lasting.upgrade (target : Address) (version : Version) :
    Call.Keeps P (upgrade target version) := by
  refine Call.keeps_of (fun q a r hq hr => ?_) fun q e r hq hr => ?_
  · have hr := Call.get_bind_eq_ok.1 hr
    obtain ⟨hversion, hr⟩ := Call.refuse_eq_ok.1 hr
    obtain ⟨-, rfl⟩ := Call.set_pure_eq_ok.1 hr
    exact hP.note _ (hP.of_switch q target version hq (by simpa using hversion))
  · have hr := Call.get_bind_eq_error.1 hr
    rcases Call.refuse_eq_error.1 hr with ⟨-, -, rfl⟩ | ⟨-, hr⟩
    · exact hq
    · exact absurd hr Call.set_pure_ne_error

theorem Lasting.applyOwn (command : Command) : Call.Keeps P (applyOwn command) := by
  have hchange : ∀ {name value : String} {call : Call GovernanceError (Protocol ν) Unit},
      Call.Keeps P call → Call.Keeps P (change name value call) := fun h =>
    keeps_change (fun _ hq => hP.note _ hq) h
  cases command with
  | setTimelockDelay delay => exact hchange (.get_bind fun q hq => hP.onCouncil q hq)
  | upgradeCapability target version => exact hP.upgrade target version
  | treasuryTransfer target amount => exact .throw _
  | _ => exact hchange hP.onCouncil

variable [Custody ν]

theorem Lasting.dispatch (action : ProposalAction) : Call.Keeps P (dispatch action) := by
  refine .bind (.lift _) fun command => .get_bind fun q hq => ?_
  by_cases htarget : action.target = q.state.address
  · rw [if_pos htarget]
    exact hP.applyOwn command q hq
  · rw [if_neg htarget]
    refine Call.Keeps.bind (P := P) (.lift _) (fun handler => ?_) q hq
    exact .part fun r hr => hP.of_setup r _ hr ⟨rfl, rfl, rfl⟩

theorem Lasting.perform (hash : Digest) (action : ProposalAction) :
    Call.Keeps P (perform hash action) :=
  keeps_perform (fun _ event hq => hP.note event hq) (hP.dispatch action) hash

/-- **What lasts outlives every request.** -/
theorem Lasting.request (request : Request) (now : Timestamp) :
    Call.Keeps P (request.run now) := by
  by_cases hexecutes : request.Executes
  · cases request with
    | execute id =>
      refine Call.Keeps.bind (keeps_checkClock.bind fun _ => hP.settled
        (hP.onCouncil.bind fun released => ?_)) fun _ => .pure _
      exact Call.Keeps.bind (.collect fun e _ => hP.perform e.1 e.2) fun _ => .pure _
    | _ => cases hexecutes
  · exact fun q hq => hP.of_setup q _ hq (keeps_setup_request hexecutes now q (.refl q))

end Lasting

/-! ### Handlers -/

/-- **A protocol with the handlers of another one**, under the same address, whose capabilities
are those of the other one or have handlers. -/
structure Handled (p q : Protocol ν) : Prop where
  address : q.state.address = p.state.address
  registry : q.registry = p.registry
  capabilities : ∀ target, q.state.capabilities.contains target = true →
    p.state.capabilities.contains target = true ∨ p.registry.hasTarget target = true

theorem Handled.refl (p : Protocol ν) : Handled p p := ⟨rfl, rfl, fun _ => .inl⟩

theorem Handled.of_setup (h : Handled p q) (hsame : SameSetup q r) : Handled p r where
  address := hsame.address.trans h.address
  registry := hsame.registry.trans h.registry
  capabilities := by
    rw [hsame.capabilities]
    exact h.capabilities

/-- A version has a handler only if its target has one. -/
theorem hasTarget_of_hasVersion {r : Registry} {target : Address} {version : Version}
    (h : r.hasVersion target version = true) : r.hasTarget target = true := by
  unfold Registry.hasVersion Registry.resolve? Registry.handlersOf OrderedMap.getD at h
  unfold Registry.hasTarget OrderedMap.contains
  cases hget : r.handlers.get? target with
  | none =>
    rw [hget] at h
    cases h
  | some handlers => rfl

theorem lasting_handled (p : Protocol ν) : Lasting (Handled p) := by
  refine ⟨fun q r => Handled.of_setup, fun q target version hq hversion => ?_⟩
  refine ⟨hq.address, hq.registry, fun other hother => ?_⟩
  have hother : ((q.state.capabilities.insert target version).get? other).isSome = true := hother
  by_cases hsame : other = target
  · have hhas : q.registry.hasTarget target = true := hasTarget_of_hasVersion hversion
    rw [hq.registry] at hhas
    exact .inr (hsame ▸ hhas)
  · rw [OrderedMap.get?_insert_eq, if_neg hsame] at hother
    exact hq.capabilities other hother

/-- **A request leaves the handlers alone**, and activates none that is not there. -/
theorem keeps_handled_request [Custody ν] (request : Request) (now : Timestamp) :
    Call.Keeps (Handled p) (request.run now) := (lasting_handled p).request request now

end Protocol

namespace Protocol

section Blind

variable {ν α : Type} {now : Timestamp} {before : List JournalEntry}

/-! ### The journal -/

/-- The protocol with entries in front of its journal. -/
def preceded (before : List JournalEntry) (p : Protocol ν) : Protocol ν :=
  { p with journal := before ++ p.journal }

theorem record_preceded (before : List JournalEntry) (p : Protocol ν) (now : Timestamp) :
    (p.preceded before).record now = (p.record now).preceded before := by
  -- the entries are appended one by one, each behind all that are there
  show p.pending.foldl (append now) (p.cleared.preceded before) = _
  refine List.foldl_hom (preceded before) fun q event => ?_
  exact congrArg (fun journal => ({ q with
    state := { q.state with nextSeq := q.state.nextSeq.next }, journal } : Protocol ν))
    (List.append_assoc ..)

/-- **Settling a call** that does not see the journal records after what was in it. -/
theorem blind_settled {call : Call GovernanceError (Protocol ν) α}
    (h : Call.Blind (preceded before) call) : Call.Blind (preceded before) (settled now call) := by
  intro p
  unfold settled
  rw [h p]
  cases call p with
  | ok a q => exact congrArg (EStateM.Result.ok a) (record_preceded before (q.withClock now) now)
  | error e q => exact congrArg (EStateM.Result.error e) (record_preceded before q now)

theorem blind_checkClock : Call.Blind (preceded (ν := ν) before) (checkClock now) :=
  .get_bind (fun _ => rfl) fun _ => .lift _

theorem blind_onLedger {call : Call StakingError Ledger α} :
    Call.Blind (preceded (ν := ν) before) (onLedger call) := .part (fun _ => rfl) fun _ _ => rfl

theorem blind_onCouncil {call : Call GovernanceError Council α} :
    Call.Blind (preceded (ν := ν) before) (onCouncil call) := .part (fun _ => rfl) fun _ _ => rfl

theorem blind_onVault {ε : Type} {wrap : StakingError → ε} {call : Call StakingError ν α} :
    Call.Blind (preceded before) (onVault wrap call) := .part (fun _ => rfl) fun _ _ => rfl

theorem blind_withCustody {call : Call StakingError Ledger α}
    {custody : α → Call StakingError ν Unit} :
    Call.Blind (preceded before) (withCustody call custody) := by
  intro p
  unfold withCustody
  rw [blind_onLedger p]
  cases onLedger call p with
  | error e q => rfl
  | ok a q =>
    dsimp only [Call.mapState]
    rw [blind_onVault q]
    cases onVault GovernanceError.staking (custody a) q with
    | error e r => rfl
    | ok _ r => rfl

/-! ### Actions -/

theorem blind_change {name value : String} {call : Call GovernanceError (Protocol ν) Unit}
    (h : Call.Blind (preceded before) call) :
    Call.Blind (preceded before) (change name value call) := by
  refine .bind (fun p => ?_) fun _ => .bind (.modify fun _ => rfl) fun _ => .pure _
  unfold Call.part
  simp only [id_eq]
  rw [h p]
  cases call p <;> rfl

theorem blind_upgrade (target : Address) (version : Version) :
    Call.Blind (preceded (ν := ν) before) (upgrade target version) := by
  intro p
  unfold upgrade
  rw [Call.get_bind, Call.get_bind]
  show (if (!p.registry.hasVersion target version) = true then _ else _ :
    Call ActionFault (Protocol ν) ActionOutput) (p.preceded before) = _
  split <;> rfl

theorem blind_applyOwn (command : Command) :
    Call.Blind (preceded (ν := ν) before) (applyOwn command) := by
  cases command with
  | setTimelockDelay delay =>
    exact blind_change (.get_bind (fun _ => rfl) fun _ => blind_onCouncil)
  | upgradeCapability target version => exact blind_upgrade target version
  | treasuryTransfer target amount => exact .throw _
  | _ => exact blind_change blind_onCouncil

variable [Custody ν]

theorem blind_dispatch (action : ProposalAction) :
    Call.Blind (preceded (ν := ν) before) (dispatch action) := by
  refine .bind (.lift _) fun command => .get_bind (fun _ => rfl) fun p => ?_
  split
  · exact blind_applyOwn command
  · exact .bind (.lift _) fun handler => .part (fun _ => rfl) fun _ _ => rfl

theorem blind_perform (hash : Digest) (action : ProposalAction) :
    Call.Blind (preceded (ν := ν) before) (perform hash action) := by
  intro p
  unfold perform
  rw [blind_dispatch action p]
  cases dispatch action p <;> rfl

/-- **A request does not see** the entries that are in the journal already. -/
theorem blind_request (request : Request) (now : Timestamp) :
    Call.Blind (preceded (ν := ν) before) (request.run now) := by
  have htimed : ∀ {α : Type} {call : Call GovernanceError (Protocol ν) α} {f : α → Response},
      Call.Blind (preceded before) call →
      Call.Blind (preceded before) (do return f (← checkClock now >>= fun _ => call)) := by
    intro α call f h
    exact (blind_checkClock.bind fun _ => h).bind fun _ => .pure _
  cases request with
  | stake => exact htimed (.refuse (blind_settled blind_withCustody))
  | extend | withdraw => exact htimed (blind_settled blind_withCustody)
  | delegate => exact htimed (blind_settled blind_onLedger)
  | propose => exact htimed (.get_bind (fun _ => rfl) fun _ =>
      .bind (.lift _) fun _ => blind_settled blind_onCouncil)
  | vote => exact htimed (.get_bind (fun _ => rfl) fun _ => blind_settled blind_onCouncil)
  | cancel =>
    exact htimed (f := fun _ => .canceled)
      (.get_bind (fun _ => rfl) fun _ => blind_settled blind_onCouncil)
  | queue | prune => exact htimed (blind_settled blind_onCouncil)
  | execute =>
    refine htimed (blind_settled (blind_onCouncil.bind fun released => ?_))
    exact .bind (.collect fun e => blind_perform e.1 e.2) fun _ => .pure _

end Blind

end Protocol

end StakeGovernance
