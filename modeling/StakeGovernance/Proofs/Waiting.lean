import StakeGovernance.Proofs.Councils
import StakeGovernance.Proofs.Maps
import StakeGovernance.Proofs.States

/-!
# Calls of the council, as a whole or not at all

Queueing, releasing and canceling a proposal work on the queue of the timelock one action at a
time, and each round of the loop could fail. It never does in a council that is fit for work:
its timelock takes orders from its governor, the delay lies within its bounds, and a proposal
that was queued has no two actions under one digest. So each call of such a council fails
before the first entry is touched, or it does all that it is meant to do.

* `StakeGovernance.Timelock.Admits`, `StakeGovernance.Timelock.Yields` – actions that can be
  **queued** and actions that can be **taken out** one after the other;
* `StakeGovernance.Timelock.enterAll`, `StakeGovernance.Timelock.takeAll`,
  `StakeGovernance.Timelock.dropAll` – the timelock after **whole rows** of them;
* `StakeGovernance.Council.Fit` – a council that is **fit for work**;
* `StakeGovernance.Council.Fit.queue_spec`, `StakeGovernance.Council.Fit.release_spec`,
  `StakeGovernance.Council.Fit.cancel_spec` – each call is made **as a whole or not at all**.
-/

namespace StakeGovernance

variable {id : ProposalId} {now eta : Timestamp} {caller : Address} {action : ProposalAction}
  {actions rest : List ProposalAction} {hash : Digest}

/-- In a row of actions with different digests, no later one has the digest of the first. -/
theorem hash_ne_of_distinct {first other : ProposalAction}
    (hdistinct : ((first :: rest).map fun action => action.hash eta).Nodup)
    (hother : other ∈ rest) : other.hash eta ≠ first.hash eta := by
  intro hsame
  have hmem : first.hash eta ∈ rest.map fun action => action.hash eta :=
    List.mem_map.2 ⟨other, hother, hsame⟩
  exact (List.nodup_cons.1 hdistinct).1 hmem

/-! ### One entry -/

namespace Timelock

variable {t : Timelock} {entry : QueuedAction}

/-- The timelock with an entry put in. -/
def enter (t : Timelock) (action : ProposalAction) (eta now : Timestamp) : Timelock :=
  { t with
    queued := t.queued.insert (action.hash eta) ⟨action, eta, now⟩
    events := t.events ++ [.actionQueued (action.hash eta) action.target eta] }

/-- The timelock with an entry taken out for its execution. -/
def take (t : Timelock) (action : ProposalAction) (eta : Timestamp) : Timelock :=
  { t with queued := t.queued.erase (action.hash eta) }

/-- The timelock without an entry, if it had it. -/
def drop (t : Timelock) (action : ProposalAction) (eta : Timestamp) : Timelock :=
  if t.isQueued (action.hash eta) then
    { t with
      queued := t.queued.erase (action.hash eta)
      events := t.events ++ [.actionCanceled (action.hash eta) action.target] }
  else t

theorem isQueued_eq_false : t.isQueued hash = false ↔ t.get? hash = none := by
  unfold isQueued OrderedMap.contains get?
  exact Option.isSome_eq_false_iff.trans Option.isNone_iff_eq_none

theorem isQueued_iff : t.isQueued hash = true ↔ ∃ entry, t.get? hash = some entry :=
  Option.isSome_iff_exists

@[simp] theorem get?_enter (t : Timelock) (action : ProposalAction) (eta now : Timestamp)
    (hash : Digest) : (t.enter action eta now).get? hash
      = if hash = action.hash eta then some ⟨action, eta, now⟩ else t.get? hash :=
  OrderedMap.get?_insert_eq _ _ _ _

@[simp] theorem get?_take (t : Timelock) (action : ProposalAction) (eta : Timestamp)
    (hash : Digest) :
    (t.take action eta).get? hash = if hash = action.hash eta then none else t.get? hash :=
  OrderedMap.get?_erase_eq _ _ _

@[simp] theorem get?_drop (t : Timelock) (action : ProposalAction) (eta : Timestamp)
    (hash : Digest) :
    (t.drop action eta).get? hash = if hash = action.hash eta then none else t.get? hash := by
  unfold drop
  split
  · exact OrderedMap.get?_erase_eq _ _ _
  · -- there is nothing to remove
    rename_i habsent
    split
    · rename_i hsame
      rw [hsame]
      exact isQueued_eq_false.1 (by simpa using habsent)
    · rfl

/-- **What is left in the queue** after it was pruned: the entries whose grace period is not
over. -/
theorem get?_pruneStale {hashes : List Digest} (h : pruneStale now t = .ok hashes u) :
    u.get? hash = some entry ↔
      t.get? hash = some entry ∧ now ≤ entry.eta.addSat t.params.gracePeriod := by
  cases h
  unfold get?
  rw [OrderedMap.get?_filter, Option.filter_eq_some_iff]
  refine and_congr Iff.rfl ?_
  unfold isStale
  rw [Bool.not_eq_true', decide_eq_false_iff_not]
  exact Nat.not_lt

/-- **What leaves the queue** when it is pruned: the entries whose grace period is over. -/
theorem mem_of_pruneStale {hashes : List Digest} (h : pruneStale now t = .ok hashes u) :
    hash ∈ hashes ↔
      ∃ entry, t.get? hash = some entry ∧ entry.eta.addSat t.params.gracePeriod < now := by
  cases h
  rw [OrderedMap.mem_keys, OrderedMap.contains, Option.isSome_iff_exists]
  refine exists_congr fun entry => ?_
  rw [OrderedMap.get?_filter, Option.filter_eq_some_iff]
  refine and_congr Iff.rfl ?_
  unfold isStale
  exact decide_eq_true_iff

/-! ### Rows of entries -/

/-- The timelock with a row of actions queued. -/
def enterAll (t : Timelock) (actions : List ProposalAction) (eta now : Timestamp) : Timelock :=
  actions.foldl (fun t action => t.enter action eta now) t

/-- The timelock with a row of actions taken out. -/
def takeAll (t : Timelock) (actions : List ProposalAction) (eta : Timestamp) : Timelock :=
  actions.foldl (fun t action => t.take action eta) t

/-- The timelock with a row of actions dropped. -/
def dropAll (t : Timelock) (actions : List ProposalAction) (eta : Timestamp) : Timelock :=
  actions.foldl (fun t action => t.drop action eta) t

/-- **What is found in the queue** after a row of actions with different digests has been put
in: their entries, and what was there before under other digests. -/
theorem get?_enterAll (hdistinct : (actions.map fun action => action.hash eta).Nodup) :
    (t.enterAll actions eta now).get? hash = some entry ↔
      (∃ action ∈ actions, hash = action.hash eta ∧ entry = ⟨action, eta, now⟩) ∨
        (∀ action ∈ actions, hash ≠ action.hash eta) ∧ t.get? hash = some entry := by
  unfold enterAll
  induction actions generalizing t with
  | nil => simp
  | cons first rest ih =>
    rw [List.foldl_cons, ih (List.nodup_cons.1 hdistinct).2, get?_enter]
    by_cases hhash : hash = first.hash eta
    · have hothers : ∀ action ∈ rest, hash ≠ action.hash eta := by
        intro action haction hsame
        exact hash_ne_of_distinct hdistinct haction (hsame.symm.trans hhash)
      constructor
      · rintro (⟨action, haction, hsame, -⟩ | ⟨-, hentry⟩)
        · exact absurd hsame (hothers action haction)
        · rw [if_pos hhash] at hentry
          exact Or.inl ⟨first, List.mem_cons_self, hhash, (Option.some.inj hentry).symm⟩
      · rintro (⟨action, haction, hsame, rfl⟩ | ⟨hnew, -⟩)
        · rcases List.mem_cons.1 haction with rfl | haction
          · exact Or.inr ⟨hothers, if_pos hhash⟩
          · exact absurd hsame (hothers action haction)
        · exact absurd hhash (hnew first List.mem_cons_self)
    · simp [hhash]

/-- What is found in the queue after a row of actions has been removed from it. -/
theorem get?_foldl {remove : Timelock → ProposalAction → Timelock}
    (hremove : ∀ t action, (remove t action).get? hash
      = if hash = action.hash eta then none else t.get? hash) :
    (actions.foldl remove t).get? hash
      = if ∃ action ∈ actions, hash = action.hash eta then none else t.get? hash := by
  induction actions generalizing t with
  | nil => simp
  | cons first rest ih =>
    rw [List.foldl_cons, ih, hremove]
    by_cases hhash : hash = first.hash eta
    · simp [hhash]
    · simp [hhash]

theorem get?_takeAll (t : Timelock) (actions : List ProposalAction) (eta : Timestamp)
    (hash : Digest) : (t.takeAll actions eta).get? hash
      = if ∃ action ∈ actions, hash = action.hash eta then none else t.get? hash :=
  get?_foldl fun t action => t.get?_take action eta hash

theorem get?_dropAll (t : Timelock) (actions : List ProposalAction) (eta : Timestamp)
    (hash : Digest) : (t.dropAll actions eta).get? hash
      = if ∃ action ∈ actions, hash = action.hash eta then none else t.get? hash :=
  get?_foldl fun t action => t.get?_drop action eta hash

/-! ### Rounds that succeed -/

/-- **Actions that can be queued** one after the other. -/
structure Admits (t : Timelock) (caller : Address) (eta now : Timestamp)
    (actions : List ProposalAction) : Prop where
  admin : caller = t.admin
  earliest : now.addSat t.params.minDelay ≤ eta
  latest : eta ≤ now.addSat t.params.maxDelay
  fresh : ∀ action ∈ actions, t.get? (action.hash eta) = none
  distinct : (actions.map fun action => action.hash eta).Nodup

/-- **Actions that can be taken out** one after the other. -/
structure Yields (t : Timelock) (caller : Address) (eta now : Timestamp)
    (actions : List ProposalAction) : Prop where
  admin : caller = t.admin
  due : t.checkDue eta now = .ok ()
  present : ∀ action ∈ actions, t.isQueued (action.hash eta) = true
  distinct : (actions.map fun action => action.hash eta).Nodup

theorem Admits.queue_eq (h : t.Admits caller eta now (action :: rest)) :
    queue caller action eta now t = .ok (action.hash eta) (t.enter action eta now) := by
  exact queue_eq_ok.2 ⟨h.admin, h.earliest, h.latest,
    isQueued_eq_false.2 (h.fresh action List.mem_cons_self), rfl, rfl⟩

theorem Admits.enter (h : t.Admits caller eta now (action :: rest)) :
    (t.enter action eta now).Admits caller eta now rest := by
  refine ⟨h.admin, h.earliest, h.latest, fun other hother => ?_, (List.nodup_cons.1 h.distinct).2⟩
  rw [get?_enter, if_neg (hash_ne_of_distinct h.distinct hother)]
  exact h.fresh other (List.mem_cons_of_mem _ hother)

theorem Yields.execute_eq (h : t.Yields caller eta now (action :: rest)) :
    execute caller action eta now t = .ok (action.hash eta) (t.take action eta) := by
  exact execute_eq_ok.2 ⟨h.admin, h.present action List.mem_cons_self, h.due, rfl, rfl⟩

theorem Yields.take (h : t.Yields caller eta now (action :: rest)) :
    (t.take action eta).Yields caller eta now rest := by
  refine ⟨h.admin, h.due, fun other hother => ?_, (List.nodup_cons.1 h.distinct).2⟩
  rw [isQueued_iff, get?_take, if_neg (hash_ne_of_distinct h.distinct hother), ← isQueued_iff]
  exact h.present other (List.mem_cons_of_mem _ hother)

theorem cancel_eq (h : caller = t.admin) (action : ProposalAction) (eta : Timestamp) :
    cancel caller action eta t = .ok (action.hash eta) (t.drop action eta) :=
  cancel_eq_ok.2 ⟨h, rfl, rfl⟩

theorem admin_drop (t : Timelock) (action : ProposalAction) (eta : Timestamp) :
    (t.drop action eta).admin = t.admin := by
  unfold drop
  split <;> rfl

end Timelock

/-! ### Loops of the council -/

namespace Council

variable {c : Council} {p : Proposal}

/-- **Actions that can be queued are queued**, all of them. -/
theorem queueActions_eq (h : c.timelock.Admits caller eta now actions) :
    Call.forEach actions (fun action =>
        onTimelock do let _ ← Timelock.queue caller action eta now) c
      = .ok () { c with timelock := c.timelock.enterAll actions eta now } := by
  have hloop := (Call.forEach_of_rest actions
    (fun action => onTimelock do let _ ← Timelock.queue caller action eta now)
    (fun rest (c : Council) => c.timelock.Admits caller eta now rest)
    (fun action c => { c with timelock := c.timelock.enter action eta now })
    (fun action rest c hc => ⟨Call.part_eq_ok.2 ⟨_,
      Call.bind_eq_ok.2 ⟨_, _, hc.queue_eq, rfl⟩, rfl⟩, hc.enter⟩) h).1
  rw [hloop]
  exact congrArg _ (List.foldl_hom (fun timelock => { c with timelock }) fun _ _ => rfl)

/-- **Actions that can be taken out are taken out**, all of them. -/
theorem takeActions_eq (h : c.timelock.Yields caller eta now actions) :
    Call.collect actions (fun action => do
        let hash ← onTimelock (Timelock.execute caller action eta now)
        return (hash, action)) c
      = .ok (actions.map fun action => (action.hash eta, action))
        { c with timelock := c.timelock.takeAll actions eta } := by
  have hloop := Call.collect_of_rest actions (fun action => do
      let hash ← onTimelock (Timelock.execute caller action eta now)
      return (hash, action))
    (fun rest c => c.timelock.Yields caller eta now rest)
    (fun action => (action.hash eta, action))
    (fun action c => { c with timelock := c.timelock.take action eta })
    (fun action rest c hc => ⟨Call.bind_eq_ok.2 ⟨_, _,
      Call.part_eq_ok.2 ⟨_, hc.execute_eq, rfl⟩, rfl⟩, hc.take⟩) h
  rw [hloop]
  exact congrArg _ (List.foldl_hom (fun timelock => { c with timelock }) fun _ _ => rfl)

/-- **Actions are dropped** by the admin, all of them. -/
theorem dropActions_eq (h : caller = c.timelock.admin) (actions : List ProposalAction)
    (eta : Timestamp) :
    Call.forEach actions (fun action =>
        onTimelock do let _ ← Timelock.cancel caller action eta) c
      = .ok () { c with timelock := c.timelock.dropAll actions eta } := by
  have hloop := (Call.forEach_of_rest actions
    (fun action => onTimelock do let _ ← Timelock.cancel caller action eta)
    (fun _ (c : Council) => caller = c.timelock.admin)
    (fun action c => { c with timelock := c.timelock.drop action eta })
    (fun action rest c hc => ⟨Call.part_eq_ok.2 ⟨_,
      Call.bind_eq_ok.2 ⟨_, _, Timelock.cancel_eq hc action eta, rfl⟩, rfl⟩,
      hc.trans (Timelock.admin_drop _ action eta).symm⟩) h).1
  rw [hloop]
  exact congrArg _ (List.foldl_hom (fun timelock => { c with timelock }) fun _ _ => rfl)

/-! ### Checks -/

/-- Actions that pass the check are new to the queue and have different digests. -/
theorem checkFresh_eq_ok {t : Timelock} {seen : List Digest} {u : Unit}
    (h : checkFresh t eta seen actions = .ok u) :
    (∀ action ∈ actions, action.hash eta ∉ seen ∧ t.get? (action.hash eta) = none) ∧
      (actions.map fun action => action.hash eta).Nodup := by
  induction actions generalizing seen with
  | nil => exact ⟨fun _ ha => absurd ha List.not_mem_nil, List.nodup_nil⟩
  | cons first rest ih =>
    unfold checkFresh at h
    simp only at h
    split at h
    · cases h
    · rename_i hfirst
      rw [not_or] at hfirst
      obtain ⟨hseen, habsent⟩ := hfirst
      obtain ⟨hothers, hdistinct⟩ := ih h
      refine ⟨fun action haction => ?_, List.nodup_cons.2 ⟨fun hmem => ?_, hdistinct⟩⟩
      · rcases List.mem_cons.1 haction with rfl | haction
        · exact ⟨hseen, Timelock.isQueued_eq_false.1 (by simpa using habsent)⟩
        · obtain ⟨hnew, hnone⟩ := hothers action haction
          exact ⟨fun hmem => hnew (List.mem_cons_of_mem _ hmem), hnone⟩
      · -- what comes later was held against the first digest as well
        obtain ⟨action, haction, hsame⟩ := List.mem_map.1 hmem
        have hsame : action.hash eta = first.hash eta := hsame
        refine (hothers action haction).1 ?_
        rw [hsame]
        exact List.mem_cons_self

/-- The check for actions in the queue is passed if all of them are. -/
theorem checkPresent_eq_ok {t : Timelock} {u : Unit} :
    checkPresent t id eta actions = .ok u ↔
      ∀ action ∈ actions, t.isQueued (action.hash eta) = true := by
  refine Checked.forM_eq_ok.trans (forall₂_congr fun action _ => ?_)
  by_cases hqueued : t.isQueued (action.hash eta) = true
  · simp [hqueued]
  · simp [hqueued]

/-! ### Councils that are fit for work -/

/-- **A council that is fit for work**: its timelock takes orders from its governor, the delay
lies within its bounds, and no proposal that was queued has two actions under one digest. -/
structure Fit (c : Council) : Prop where
  admin : c.governor.address = c.timelock.admin
  delays : c.timelock.params.minDelay ≤ c.timelock.params.delay ∧
    c.timelock.params.delay ≤ c.timelock.params.maxDelay
  distinct : ∀ id p, c.governor.get? id = some p → p.eta.toNat ≠ 0 →
    (p.actions.map fun action => action.hash p.eta).Nodup

/-- A time of execution that is the delay away lies within the bounds of the delay. -/
theorem Fit.admits (h : c.Fit) (heta : now.add? c.timelock.params.delay = some eta)
    (hfresh : checkFresh c.timelock eta [] actions = .ok ()) :
    c.timelock.Admits c.governor.address eta now actions := by
  obtain ⟨hnew, hdistinct⟩ := checkFresh_eq_ok hfresh
  have heta := Word.add?_eq_some_iff.1 heta
  have hmin : _ ≤ c.timelock.params.delay.toNat := h.delays.1
  have hmax : c.timelock.params.delay.toNat ≤ _ := h.delays.2
  have hfits := eta.toNat_lt
  refine ⟨h.admin, ?_, ?_, fun action haction => (hnew action haction).2, hdistinct⟩
  · rw [Word.le_def, Word.toNat_addSat]
    omega
  · rw [Word.le_def, Word.toNat_addSat]
    omega

/-- **A proposal is queued as a whole or not at all.** -/
theorem Fit.queue_spec (h : c.Fit) (id : ProposalId) (now : Timestamp) :
    (∃ e, queue id now c = .error e c) ∨
      ∃ p eta, c.governor.get? id = some p ∧ c.stateOf p now = .succeeded ∧
        now.add? c.timelock.params.delay = some eta ∧
        c.timelock.Admits c.governor.address eta now p.actions ∧
        queue id now c = .ok eta
          ⟨(c.governor.put id { p with eta }).report (.proposalQueued id eta),
            c.timelock.enterAll p.actions eta now⟩ := by
  rcases queue_cases id now c with herror | ⟨p, eta, hp, hstate, heta, hfresh, hcall⟩
  · exact Or.inl herror
  · have hadmits := h.admits heta hfresh
    refine Or.inr ⟨p, eta, hp, hstate, heta, hadmits, ?_⟩
    rw [hcall, Call.bind_of_ok (queueActions_eq hadmits)]
    rfl

theorem Fit.queue_eq_error (h : c.Fit) {d : Council} {e : GovernanceError}
    (hcall : queue id now c = .error e d) : d = c := by
  rcases h.queue_spec id now with ⟨_, hspec⟩ | ⟨_, _, -, -, -, -, hspec⟩
  · cases hcall.symm.trans hspec
    rfl
  · cases hcall.symm.trans hspec

/-- **A queued proposal is released** when it is due, if all its actions are in the queue. -/
theorem Fit.release_eq (h : c.Fit) (hp : c.governor.get? id = some p)
    (hstate : c.stateOf p now = .queued) (hdue : c.timelock.checkDue p.eta now = .ok ())
    (hpresent : ∀ action ∈ p.actions, c.timelock.isQueued (action.hash p.eta) = true) :
    release id now c = .ok ⟨p.eta, p.actions.map fun action => (action.hash p.eta, action)⟩
      ⟨(c.governor.put id { p with executed := true }).report (.proposalExecuted id),
        c.timelock.takeAll p.actions p.eta⟩ := by
  obtain ⟨-, -, -, heta, -⟩ := Proposal.of_queued hstate
  have hexecutable : c.checkExecutable id p now = .ok () := by
    unfold checkExecutable
    rw [hstate]
    exact hdue
  have hyields : c.timelock.Yields c.governor.address p.eta now p.actions :=
    ⟨h.admin, hdue, hpresent, h.distinct id p hp heta⟩
  rw [Council.release_eq (Governor.find_eq_ok.2 hp) hexecutable (checkPresent_eq_ok.2 hpresent),
    Call.bind_of_ok (takeActions_eq hyields)]
  rfl

/-- **A proposal is released as a whole or not at all.** -/
theorem Fit.release_spec (h : c.Fit) (id : ProposalId) (now : Timestamp) :
    (∃ e, release id now c = .error e c) ∨
      ∃ p, c.governor.get? id = some p ∧ c.stateOf p now = .queued ∧
        release id now c = .ok ⟨p.eta, p.actions.map fun action => (action.hash p.eta, action)⟩
          ⟨(c.governor.put id { p with executed := true }).report (.proposalExecuted id),
            c.timelock.takeAll p.actions p.eta⟩ := by
  rcases release_cases id now c with herror | ⟨p, hfind, hexecutable, hpresent⟩
  · exact Or.inl herror
  · have hp := Governor.find_eq_ok.1 hfind
    obtain ⟨hstate, hdue⟩ := checkExecutable_eq_ok hexecutable
    exact Or.inr ⟨p, hp, hstate, h.release_eq hp hstate hdue (checkPresent_eq_ok.1 hpresent)⟩

theorem Fit.release_eq_error (h : c.Fit) {d : Council} {e : GovernanceError}
    (hcall : release id now c = .error e d) : d = c := by
  rcases h.release_spec id now with ⟨_, hspec⟩ | ⟨_, -, -, hspec⟩
  · cases hcall.symm.trans hspec
    rfl
  · cases hcall.symm.trans hspec

/-- **A proposal is canceled as a whole or not at all.** -/
theorem Fit.cancel_spec (h : c.Fit) (ledger : Ledger) (caller : Address) (id : ProposalId)
    (now : Timestamp) :
    (∃ e, cancel ledger caller id now c = .error e c) ∨
      ∃ p, c.governor.get? id = some p ∧ (c.stateOf p now).isTerminal = false ∧
        cancel ledger caller id now c = .ok ()
          ⟨(c.governor.put id { p with canceled := true }).report (.proposalCanceled id),
            if p.eta.isZero then c.timelock else c.timelock.dropAll p.actions p.eta⟩ := by
  rcases cancel_cases ledger caller id now c with herror | ⟨p, hp, hopen, -, hcall⟩
  · exact Or.inl herror
  · refine Or.inr ⟨p, hp, hopen, ?_⟩
    rw [hcall]
    cases heta : p.eta.isZero with
    | true => rfl
    | false =>
      have hloop := dropActions_eq h.admin p.actions p.eta
      exact (Call.bind_of_ok hloop).trans rfl

theorem Fit.cancel_eq_error (h : c.Fit) {ledger : Ledger} {d : Council} {e : GovernanceError}
    (hcall : cancel ledger caller id now c = .error e d) : d = c := by
  rcases h.cancel_spec ledger caller id now with ⟨_, hspec⟩ | ⟨_, -, -, hspec⟩
  · cases hcall.symm.trans hspec
    rfl
  · cases hcall.symm.trans hspec

end Council

end StakeGovernance
