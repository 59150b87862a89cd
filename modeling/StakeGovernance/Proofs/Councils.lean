import StakeGovernance.Governance.Council
import StakeGovernance.Proofs.Calls

/-!
# What calls do to governor and timelock

Making a proposal and voting on it enter one proposal into the table of the governor, and
queueing, releasing and canceling it change that one, each only if it succeeds. On the
way, the last three work on the queue of the timelock, whose delays they leave alone.

* `StakeGovernance.Governor.draft_eq_ok`, `StakeGovernance.Governor.ballot_eq_ok` – what a
  new **proposal** is, and what a new **vote** makes of one;
* `StakeGovernance.Timelock.Bounded` – the delay stays **within its bounds**;
* `StakeGovernance.Council.Aside` – nothing has changed **but the queue**;
* `StakeGovernance.Council.queue_cases`, `StakeGovernance.Council.release_cases`,
  `StakeGovernance.Council.cancel_cases` – what is **refused** before anything is touched;
* `StakeGovernance.Council.queue_eq_ok`, `StakeGovernance.Council.release_eq_ok`,
  `StakeGovernance.Council.cancel_eq_ok` – what the calls do that **succeed**.
-/

namespace StakeGovernance

variable {id : ProposalId} {now eta : Timestamp} {caller : Address}

/-! ### The timelock -/

namespace Timelock

variable {t u : Timelock} {action : ProposalAction} {hash : Digest} {e : GovernanceError}

theorem onlyAdmin_eq_ok {x : Unit} : t.onlyAdmin caller = .ok x ↔ caller = t.admin := by
  unfold onlyAdmin
  split
  · rename_i hadmin
    exact ⟨fun _ => hadmin, fun _ => rfl⟩
  · rename_i hother
    exact ⟨nofun, fun hadmin => absurd hadmin hother⟩

/-- An entry is due from its time on, until its grace period is over. -/
theorem checkDue_eq_ok {x : Unit} : t.checkDue eta now = .ok x ↔
    eta ≤ now ∧ now ≤ eta.addSat t.params.gracePeriod := by
  unfold checkDue isStale
  split
  · rename_i hearly
    exact ⟨nofun, fun h => absurd hearly (Nat.not_lt.2 h.1)⟩
  split
  · rename_i hstale
    exact ⟨nofun, fun h => absurd (of_decide_eq_true hstale) (Nat.not_lt.2 h.2)⟩
  · rename_i hdue hfresh
    exact ⟨fun _ => ⟨Nat.le_of_not_lt hdue, Nat.le_of_not_lt fun h => hfresh (decide_eq_true h)⟩,
      fun _ => rfl⟩

/-- **An action is queued** by the admin, for a time within the delays from now, and if it is not
queued already. It is found under its digest. -/
theorem queue_eq_ok : queue caller action eta now t = .ok hash u ↔
    caller = t.admin ∧ now.addSat t.params.minDelay ≤ eta ∧
      eta ≤ now.addSat t.params.maxDelay ∧ t.isQueued (action.hash eta) = false ∧
      action.hash eta = hash ∧ { t with
        queued := t.queued.insert hash ⟨action, eta, now⟩
        events := t.events ++ [.actionQueued hash action.target eta] } = u := by
  constructor
  · intro h
    obtain ⟨_, hadmin, h⟩ := Call.lift_bind_eq_ok.1 (Call.get_bind_eq_ok.1 h)
    obtain ⟨hwindow, h⟩ := Call.refuse_eq_ok.1 h
    obtain ⟨hfresh, h⟩ := Call.refuse_eq_ok.1 h
    obtain ⟨rfl, rfl⟩ := Call.set_pure_eq_ok.1 h
    exact ⟨onlyAdmin_eq_ok.1 hadmin, Nat.le_of_not_lt fun hlt => hwindow (.inl hlt),
      Nat.le_of_not_lt fun hlt => hwindow (.inr hlt), Bool.eq_false_iff.2 hfresh, rfl, rfl⟩
  · rintro ⟨hadmin, hearliest, hlatest, hfresh, rfl, rfl⟩
    have hwindow : ¬ (eta < now.addSat t.params.minDelay ∨ now.addSat t.params.maxDelay < eta) := by
      rintro (hlt | hlt)
      · exact absurd hearliest (Nat.not_le_of_lt hlt)
      · exact absurd hlatest (Nat.not_le_of_lt hlt)
    refine Call.get_bind_eq_ok.2 (Call.lift_bind_eq_ok.2 ⟨(), onlyAdmin_eq_ok.2 hadmin, ?_⟩)
    refine Call.refuse_eq_ok.2 ⟨hwindow, Call.refuse_eq_ok.2 ⟨Bool.eq_false_iff.1 hfresh, ?_⟩⟩
    exact Call.set_pure_eq_ok.2 ⟨rfl, rfl⟩

theorem queue_eq_error (h : queue caller action eta now t = .error e u) : u = t := by
  have h := Call.get_bind_eq_error.1 h
  rcases Call.lift_bind_eq_error.1 h with ⟨-, rfl⟩ | ⟨_, -, h⟩
  · rfl
  rcases Call.refuse_eq_error.1 h with ⟨-, -, rfl⟩ | ⟨-, h⟩
  · rfl
  rcases Call.refuse_eq_error.1 h with ⟨-, -, rfl⟩ | ⟨-, h⟩
  · rfl
  · exact absurd h Call.set_pure_ne_error

/-- **An action is taken out** by the admin, if it is queued and due, and is not in the queue any
more. -/
theorem execute_eq_ok : execute caller action eta now t = .ok hash u ↔
    caller = t.admin ∧ t.isQueued (action.hash eta) = true ∧ t.checkDue eta now = .ok () ∧
      action.hash eta = hash ∧ { t with queued := t.queued.erase hash } = u := by
  constructor
  · intro h
    obtain ⟨_, hadmin, h⟩ := Call.lift_bind_eq_ok.1 (Call.get_bind_eq_ok.1 h)
    obtain ⟨hpresent, h⟩ := Call.refuse_eq_ok.1 h
    obtain ⟨_, hdue, h⟩ := Call.lift_bind_eq_ok.1 h
    obtain ⟨rfl, rfl⟩ := Call.set_pure_eq_ok.1 h
    exact ⟨onlyAdmin_eq_ok.1 hadmin, by simpa using hpresent, hdue, rfl, rfl⟩
  · rintro ⟨hadmin, hpresent, hdue, rfl, rfl⟩
    have hpresent : ¬ (!t.isQueued (action.hash eta)) = true := by
      rw [hpresent]
      exact Bool.false_ne_true
    refine Call.get_bind_eq_ok.2 (Call.lift_bind_eq_ok.2 ⟨(), onlyAdmin_eq_ok.2 hadmin, ?_⟩)
    refine Call.refuse_eq_ok.2 ⟨hpresent, Call.lift_bind_eq_ok.2 ⟨(), hdue, ?_⟩⟩
    exact Call.set_pure_eq_ok.2 ⟨rfl, rfl⟩

theorem execute_eq_error (h : execute caller action eta now t = .error e u) : u = t := by
  have h := Call.get_bind_eq_error.1 h
  rcases Call.lift_bind_eq_error.1 h with ⟨-, rfl⟩ | ⟨_, -, h⟩
  · rfl
  rcases Call.refuse_eq_error.1 h with ⟨-, -, rfl⟩ | ⟨-, h⟩
  · rfl
  rcases Call.lift_bind_eq_error.1 h with ⟨-, rfl⟩ | ⟨_, -, h⟩
  · rfl
  · exact absurd h Call.set_pure_ne_error

/-- **An action is dropped** by the admin, and is not in the queue any more, if it ever was. -/
theorem cancel_eq_ok : cancel caller action eta t = .ok hash u ↔
    caller = t.admin ∧ action.hash eta = hash ∧ (if t.isQueued hash then { t with
      queued := t.queued.erase hash
      events := t.events ++ [.actionCanceled hash action.target] } else t) = u := by
  constructor
  · intro h
    obtain ⟨_, hadmin, h⟩ := Call.lift_bind_eq_ok.1 (Call.get_bind_eq_ok.1 h)
    refine ⟨onlyAdmin_eq_ok.1 hadmin, ?_⟩
    split at h
    · rename_i hqueued
      obtain ⟨rfl, rfl⟩ := Call.set_pure_eq_ok.1 h
      exact ⟨rfl, if_pos hqueued⟩
    · rename_i hqueued
      obtain ⟨rfl, rfl⟩ := Call.pure_eq_ok.1 h
      exact ⟨rfl, if_neg hqueued⟩
  · rintro ⟨hadmin, rfl, rfl⟩
    refine Call.get_bind_eq_ok.2 (Call.lift_bind_eq_ok.2 ⟨(), onlyAdmin_eq_ok.2 hadmin, ?_⟩)
    split
    · exact Call.set_pure_eq_ok.2 ⟨rfl, rfl⟩
    · rfl

theorem cancel_eq_error (h : cancel caller action eta t = .error e u) : u = t := by
  have h := Call.get_bind_eq_error.1 h
  rcases Call.lift_bind_eq_error.1 h with ⟨-, rfl⟩ | ⟨_, -, h⟩
  · rfl
  split at h
  · exact absurd h Call.set_pure_ne_error
  · exact absurd h Call.pure_ne_error

/-- **A new delay** is set by the admin, and within the bounds. -/
theorem setDelay_eq_ok {delay : Timestamp} {x : Unit} : setDelay caller delay t = .ok x u ↔
    caller = t.admin ∧ TimelockParams.validate { t.params with delay } = .ok () ∧
      { t with params := { t.params with delay } } = u := by
  constructor
  · intro h
    obtain ⟨_, hadmin, h⟩ := Call.lift_bind_eq_ok.1 (Call.get_bind_eq_ok.1 h)
    obtain ⟨_, hvalid, h⟩ := Call.lift_bind_eq_ok.1 h
    exact ⟨onlyAdmin_eq_ok.1 hadmin, hvalid, Call.set_eq_ok.1 h⟩
  · rintro ⟨hadmin, hvalid, rfl⟩
    refine Call.get_bind_eq_ok.2 (Call.lift_bind_eq_ok.2 ⟨(), onlyAdmin_eq_ok.2 hadmin, ?_⟩)
    exact Call.lift_bind_eq_ok.2 ⟨(), hvalid, rfl⟩

theorem setDelay_eq_error {delay : Timestamp} (h : setDelay caller delay t = .error e u) :
    u = t := by
  have h := Call.get_bind_eq_error.1 h
  rcases Call.lift_bind_eq_error.1 h with ⟨-, rfl⟩ | ⟨_, -, h⟩
  · rfl
  rcases Call.lift_bind_eq_error.1 h with ⟨-, rfl⟩ | ⟨_, -, h⟩
  · rfl
  · exact absurd h Call.set_ne_error

/-- A timelock of which nothing has changed but the queue. -/
def Aside (t u : Timelock) : Prop := u.admin = t.admin ∧ u.params = t.params

/-- **The delay has changed at most**, and stays within the bounds that it has. -/
structure Bounded (t u : Timelock) : Prop where
  admin : u.admin = t.admin
  minDelay : u.params.minDelay = t.params.minDelay
  maxDelay : u.params.maxDelay = t.params.maxDelay
  gracePeriod : u.params.gracePeriod = t.params.gracePeriod
  valid : t.params.validate = .ok () → u.params.validate = .ok ()

theorem Bounded.refl (t : Timelock) : Bounded t t := ⟨rfl, rfl, rfl, rfl, id⟩

theorem Bounded.trans {v : Timelock} (h : Bounded t u) (h' : Bounded u v) : Bounded t v :=
  ⟨h'.admin.trans h.admin, h'.minDelay.trans h.minDelay, h'.maxDelay.trans h.maxDelay,
    h'.gracePeriod.trans h.gracePeriod, h'.valid ∘ h.valid⟩

theorem Aside.bounded (h : Aside t u) : Bounded t u := by
  obtain ⟨hadmin, hparams⟩ := h
  refine ⟨hadmin, ?_, ?_, ?_, ?_⟩
  all_goals rw [hparams]
  exact id

theorem keeps_queue : Call.Keeps (Aside t) (queue caller action eta now) := by
  refine Call.keeps_of (fun s hash u hs h => ?_) fun s e u hs h => queue_eq_error h ▸ hs
  obtain ⟨-, -, -, -, -, rfl⟩ := queue_eq_ok.1 h
  exact hs

theorem keeps_execute : Call.Keeps (Aside t) (execute caller action eta now) := by
  refine Call.keeps_of (fun s hash u hs h => ?_) fun s e u hs h => execute_eq_error h ▸ hs
  obtain ⟨-, -, -, -, rfl⟩ := execute_eq_ok.1 h
  exact hs

theorem keeps_cancel : Call.Keeps (Aside t) (cancel caller action eta) := by
  refine Call.keeps_of (fun s hash u hs h => ?_) fun s e u hs h => cancel_eq_error h ▸ hs
  obtain ⟨-, -, rfl⟩ := cancel_eq_ok.1 h
  split
  · exact hs
  · exact hs

theorem keeps_pruneStale : Call.Keeps (Aside t) (pruneStale now) := .get_bind fun _ hs => hs

end Timelock

/-! ### The governor -/

namespace Governor

variable {g g' : Governor} {ledger : Ledger} {proposer voter : Address} {request : ProposalRequest}
  {support : VoteSupport} {p q : Proposal} {votes : Power} {e : GovernanceError}

theorem find_eq_ok : g.find id = .ok p ↔ g.get? id = some p := by
  unfold find
  cases g.get? id with
  | none =>
    constructor
    · intro h
      cases h
    · intro h
      cases h
  | some q => simp

/-- **A new proposal** has its times from the rules of the day, nothing is cast, queued, executed
or canceled yet, and its proposer had no other one open. -/
theorem draft_alone (h : g.draft ledger proposer request now = .ok p) :
    g.openProposal? proposer now = none ∧
      ∃ actions start finish, request.actions = .ok actions ∧
        start.toNat = now.toNat + g.params.votingDelay.toNat ∧
        finish.toNat = start.toNat + g.params.votingPeriod.toNat ∧
        p = .create g.nextId proposer actions request.description now (now.monus (.ofNat 1)) start
          finish g.params.quorumVotes := by
  obtain ⟨actions, hactions, h⟩ := Checked.bind_eq_ok.1 h
  obtain ⟨_, -, h⟩ := Checked.bind_eq_ok.1 h
  obtain ⟨power, -, h⟩ := Checked.bind_eq_ok.1 h
  obtain ⟨-, h⟩ := Checked.refuse_eq_ok.1 h
  extract_lets enter at h
  obtain ⟨halone, h⟩ : g.openProposal? proposer now = none ∧ enter () = .ok p := by
    split at h
    · cases h
    · rename_i halone
      exact ⟨halone, h⟩
  refine ⟨halone, ?_⟩
  unfold enter at h
  cases hstart : now.add? g.params.votingDelay with
  | none => simp [hstart] at h
  | some start =>
    simp only [hstart] at h
    cases hfinish : start.add? g.params.votingPeriod with
    | none => simp [hfinish] at h
    | some finish =>
      simp only [hfinish] at h
      exact ⟨actions, start, finish, hactions, Word.add?_eq_some_iff.1 hstart,
        Word.add?_eq_some_iff.1 hfinish, (Checked.pure_eq_ok.1 h).symm⟩

theorem draft_eq_ok (h : g.draft ledger proposer request now = .ok p) :
    ∃ actions start finish, request.actions = .ok actions ∧
      start.toNat = now.toNat + g.params.votingDelay.toNat ∧
      finish.toNat = start.toNat + g.params.votingPeriod.toNat ∧
      p = .create g.nextId proposer actions request.description now (now.monus (.ofNat 1)) start
        finish g.params.quorumVotes :=
  (draft_alone h).2

/-- **A vote** is cast on a proposal that can be voted on, by somebody who has not voted,
with some power. -/
theorem ballot_eq_ok (h : g.ballot ledger voter id support now = .ok (q, votes)) :
    ∃ p, g.get? id = some p ∧ p.state now .zero = .active ∧ p.hasVoted voter = false ∧
      ledger.powerOf voter p.snapshot = .ok votes ∧ votes.toNat ≠ 0 ∧
      p.recordVote voter support votes = .ok q := by
  obtain ⟨p, hp, h⟩ := Checked.bind_eq_ok.1 h
  obtain ⟨_, hopen, h⟩ := Checked.bind_eq_ok.1 h
  obtain ⟨hvoted, h⟩ := Checked.refuse_eq_ok.1 h
  obtain ⟨power, hpower, h⟩ := Checked.bind_eq_ok.1 h
  obtain ⟨hzero, h⟩ := Checked.refuse_eq_ok.1 h
  obtain ⟨q', hrecord, h⟩ := Checked.bind_eq_ok.1 h
  cases h
  refine ⟨p, find_eq_ok.1 hp, ?_, by simpa using hvoted, hpower, by simpa using hzero, hrecord⟩
  unfold checkVoting ProposalState.canVote at hopen
  simp only at hopen
  split at hopen
  · rename_i hactive
    exact of_decide_eq_true hactive
  · split at hopen
    · cases hopen
    · cases hopen

/-- **A proposal that was made** is drawn up and entered. -/
theorem propose_eq_ok (h : propose ledger proposer request now g = .ok id g') :
    ∃ p, g.draft ledger proposer request now = .ok p ∧ id = p.id ∧ g' = g.enter p := by
  have h := Call.get_bind_eq_ok.1 h
  obtain ⟨p, hdraft, h⟩ := Call.lift_bind_eq_ok.1 h
  obtain ⟨rfl, rfl⟩ := Call.set_pure_eq_ok.1 h
  exact ⟨p, hdraft, rfl, rfl⟩

theorem propose_eq_error (h : propose ledger proposer request now g = .error e g') : g' = g := by
  have h := Call.get_bind_eq_error.1 h
  rcases Call.lift_bind_eq_error.1 h with ⟨-, rfl⟩ | ⟨p, -, h⟩
  · rfl
  · exact absurd h Call.set_pure_ne_error

/-- **A vote that was cast** is drawn up and entered. -/
theorem castVote_eq_ok (h : castVote ledger voter id support now g = .ok votes g') :
    ∃ q, g.ballot ledger voter id support now = .ok (q, votes) ∧
      g' = (g.put id q).report (.voteCast voter id support votes) := by
  have h := Call.get_bind_eq_ok.1 h
  obtain ⟨⟨q, power⟩, hballot, h⟩ := Call.lift_bind_eq_ok.1 h
  obtain ⟨rfl, rfl⟩ := Call.set_pure_eq_ok.1 h
  exact ⟨q, hballot, rfl⟩

theorem castVote_eq_error (h : castVote ledger voter id support now g = .error e g') :
    g' = g ∧ g.ballot ledger voter id support now = .error e := by
  have h := Call.get_bind_eq_error.1 h
  rcases Call.lift_bind_eq_error.1 h with ⟨hballot, rfl⟩ | ⟨p, -, h⟩
  · exact ⟨rfl, hballot⟩
  · exact absurd h Call.set_pure_ne_error

end Governor

/-! ### The council -/

namespace Council

variable {c c' d : Council} {e : GovernanceError} {α : Type}

/-- **Nothing has changed but the queue** of the timelock. -/
structure Aside (c d : Council) : Prop where
  governor : d.governor = c.governor
  timelock : Timelock.Aside c.timelock d.timelock

theorem Aside.refl (c : Council) : Aside c c := ⟨rfl, rfl, rfl⟩

theorem keeps_onTimelock {call : Call GovernanceError Timelock α}
    (h : Call.Keeps (Timelock.Aside c.timelock) call) :
    Call.Keeps (Aside c) (onTimelock call) :=
  .part fun s hs => ⟨hs.governor, h s.timelock hs.timelock⟩

theorem onGovernor_modify_eq_ok {f : Governor → Governor} {u : Unit} :
    onGovernor (modify f) c = .ok u d ↔ d = { c with governor := f c.governor } := by
  show EStateM.Result.ok () { c with governor := f c.governor } = _ ↔ _
  simp [eq_comm]

theorem onGovernor_modify_ne_error {f : Governor → Governor} :
    ¬ onGovernor (modify f) c = .error e d := by
  show ¬ EStateM.Result.ok () { c with governor := f c.governor } = _
  simp

/-- What is made of the governor after the queue was worked on is made of it as it was. -/
theorem Aside.modify_eq_ok (h : Aside c c') {f : Governor → Governor} {u : Unit}
    (hput : onGovernor (modify f) c' = .ok u d) :
    d.governor = f c.governor ∧ Timelock.Aside c.timelock d.timelock := by
  obtain rfl := onGovernor_modify_eq_ok.1 hput
  exact ⟨congrArg f h.governor, h.timelock⟩

theorem checkQueueable_eq_ok {p : Proposal} {u : Unit} (h : c.checkQueueable id p now = .ok u) :
    c.stateOf p now = .succeeded := by
  unfold checkQueueable at h
  split at h
  · assumption
  all_goals cases h

/-! ### Queueing -/

theorem keeps_queueActions {actions : List ProposalAction} :
    Call.Keeps (Aside c) (Call.forEach actions fun action =>
      onTimelock do let _ ← Timelock.queue caller action eta now) :=
  .forEach fun _ _ => keeps_onTimelock (Timelock.keeps_queue.bind fun _ => .pure _)

/-- **A call to queue** is refused before anything is touched, or it comes down to its loop. -/
theorem queue_cases (id : ProposalId) (now : Timestamp) (c : Council) :
    (∃ e, queue id now c = .error e c) ∨
      ∃ p eta, c.governor.get? id = some p ∧ c.stateOf p now = .succeeded ∧
        now.add? c.timelock.params.delay = some eta ∧
        checkFresh c.timelock eta [] p.actions = .ok () ∧
        queue id now c = (do
          Call.forEach p.actions fun action =>
            onTimelock do let _ ← Timelock.queue c.governor.address action eta now
          onGovernor (modify fun g => (g.put id { p with eta }).report (.proposalQueued id eta))
          return eta : Call GovernanceError Council Timestamp) c := by
  unfold queue
  rw [Call.get_bind]
  -- one case for each check, in the order in which they are made
  cases hp : c.governor.find id with
  | error e => exact Or.inl ⟨e, rfl⟩
  | ok p =>
    rw [Call.lift_ok_bind]
    cases hstate : c.checkQueueable id p now with
    | error e => exact Or.inl ⟨e, rfl⟩
    | ok u =>
      rw [Call.lift_ok_bind]
      cases heta : now.add? c.timelock.params.delay with
      | none => exact Or.inl ⟨.etaOverflow, rfl⟩
      | some eta =>
        dsimp only
        cases hfresh : checkFresh c.timelock eta [] p.actions with
        | error e => exact Or.inl ⟨e, rfl⟩
        | ok u =>
          rw [Call.lift_ok_bind]
          exact Or.inr ⟨p, eta, Governor.find_eq_ok.1 hp, checkQueueable_eq_ok hstate, rfl, hfresh,
            rfl⟩

/-- **A proposal that was queued** had succeeded, and has its time of execution now; nothing
else in the table has changed. -/
theorem queue_eq_ok (h : queue id now c = .ok eta d) :
    ∃ p, c.governor.get? id = some p ∧ c.stateOf p now = .succeeded ∧
      now.add? c.timelock.params.delay = some eta ∧
      d.governor = (c.governor.put id { p with eta }).report (.proposalQueued id eta) ∧
      Timelock.Aside c.timelock d.timelock := by
  rcases queue_cases id now c with ⟨e, herror⟩ | ⟨p, eta', hp, hstate, heta, -, hcall⟩
  · cases h.symm.trans herror
  · rw [hcall] at h
    obtain ⟨_, c', hloop, h⟩ := Call.bind_eq_ok.1 h
    obtain ⟨_, c'', hput, h⟩ := Call.bind_eq_ok.1 h
    obtain ⟨rfl, rfl⟩ := Call.pure_eq_ok.1 h
    have haside : Aside c c' := keeps_queueActions.of_ok hloop (.refl c)
    exact ⟨p, hp, hstate, heta, haside.modify_eq_ok hput⟩

/-- A proposal that could not be queued is as before. -/
theorem queue_eq_error (h : queue id now c = .error e d) : Aside c d := by
  rcases queue_cases id now c with ⟨e', herror⟩ | ⟨p, eta, -, -, -, -, hcall⟩
  · cases h.symm.trans herror
    exact .refl c
  · rw [hcall] at h
    rcases Call.bind_eq_error.1 h with hloop | ⟨_, _, -, h⟩
    · exact keeps_queueActions.of_error hloop (.refl c)
    rcases Call.bind_eq_error.1 h with h | ⟨_, _, -, h⟩
    · exact absurd h onGovernor_modify_ne_error
    · exact absurd h Call.pure_ne_error

/-! ### Releasing -/

theorem checkExecutable_eq_ok {p : Proposal} {u : Unit} (h : c.checkExecutable id p now = .ok u) :
    c.stateOf p now = .queued ∧ c.timelock.checkDue p.eta now = .ok () := by
  unfold checkExecutable at h
  split at h
  · rename_i hstate
    exact ⟨hstate, h⟩
  all_goals cases h

theorem keeps_takeActions {actions : List ProposalAction} :
    Call.Keeps (Aside c) (Call.collect actions fun action => do
      let hash ← onTimelock (Timelock.execute caller action eta now)
      return (hash, action)) :=
  .collect fun _ _ => (keeps_onTimelock Timelock.keeps_execute).bind fun _ => .pure _

/-- The actions are taken out one by one, each with its digest. -/
theorem takeActions_eq_ok {actions : List ProposalAction} {taken : List (Digest × ProposalAction)}
    (h : Call.collect actions (fun action => do
      let hash ← onTimelock (Timelock.execute caller action eta now)
      return (hash, action)) c = .ok taken d) :
    taken = actions.map fun action => (action.hash eta, action) := by
  induction actions generalizing c taken with
  | nil =>
    obtain ⟨rfl, -⟩ := Call.pure_eq_ok.1 h
    rfl
  | cons action rest ih =>
    obtain ⟨first, c', hfirst, h⟩ := Call.bind_eq_ok.1 h
    obtain ⟨others, c'', hothers, h⟩ := Call.bind_eq_ok.1 h
    obtain ⟨rfl, rfl⟩ := Call.pure_eq_ok.1 h
    obtain ⟨hash, c''', hexecute, hfirst⟩ := Call.bind_eq_ok.1 hfirst
    obtain ⟨rfl, rfl⟩ := Call.pure_eq_ok.1 hfirst
    obtain ⟨t, hexecute, -⟩ := Call.part_eq_ok.1 hexecute
    obtain ⟨-, -, -, rfl, -⟩ := Timelock.execute_eq_ok.1 hexecute
    rw [ih hothers]
    rfl

/-- **A release that passes its checks** comes down to its loop. -/
theorem release_eq {p : Proposal} (hp : c.governor.find id = .ok p)
    (hstate : c.checkExecutable id p now = .ok ())
    (hpresent : checkPresent c.timelock id p.eta p.actions = .ok ()) :
    release id now c = (do
      let actions ← Call.collect p.actions fun action => do
        let hash ← onTimelock (Timelock.execute c.governor.address action p.eta now)
        return (hash, action)
      onGovernor (modify fun g =>
        (g.put id { p with executed := true }).report (.proposalExecuted id))
      return ⟨p.eta, actions⟩ : Call GovernanceError Council ReleasedActions) c := by
  unfold release
  rw [Call.get_bind, hp, Call.lift_ok_bind, hstate, Call.lift_ok_bind, hpresent, Call.lift_ok_bind]

/-- **A release** is refused before anything is touched, or it passes its checks. -/
theorem release_cases (id : ProposalId) (now : Timestamp) (c : Council) :
    (∃ e, release id now c = .error e c) ∨
      ∃ p, c.governor.find id = .ok p ∧ c.checkExecutable id p now = .ok () ∧
        checkPresent c.timelock id p.eta p.actions = .ok () := by
  unfold release
  rw [Call.get_bind]
  cases hp : c.governor.find id with
  | error e => exact Or.inl ⟨e, rfl⟩
  | ok p =>
    rw [Call.lift_ok_bind]
    cases hstate : c.checkExecutable id p now with
    | error e => exact Or.inl ⟨e, rfl⟩
    | ok u =>
      rw [Call.lift_ok_bind]
      cases hpresent : checkPresent c.timelock id p.eta p.actions with
      | error e => exact Or.inl ⟨e, rfl⟩
      | ok u => exact Or.inr ⟨p, rfl, hstate, hpresent⟩

/-- **A proposal that was released** had been queued and was due, and is executed now; its
actions are handed out with their digests. -/
theorem release_eq_ok {released : ReleasedActions} (h : release id now c = .ok released d) :
    ∃ p, c.governor.get? id = some p ∧ c.stateOf p now = .queued ∧
      c.timelock.checkDue p.eta now = .ok () ∧
      released = ⟨p.eta, p.actions.map fun action => (action.hash p.eta, action)⟩ ∧
      d.governor
        = (c.governor.put id { p with executed := true }).report (.proposalExecuted id) ∧
      Timelock.Aside c.timelock d.timelock := by
  rcases release_cases id now c with ⟨e, herror⟩ | ⟨p, hp, hstate, hpresent⟩
  · cases h.symm.trans herror
  · rw [release_eq hp hstate hpresent] at h
    obtain ⟨taken, c', hloop, h⟩ := Call.bind_eq_ok.1 h
    obtain ⟨_, c'', hput, h⟩ := Call.bind_eq_ok.1 h
    obtain ⟨rfl, rfl⟩ := Call.pure_eq_ok.1 h
    have haside : Aside c c' := keeps_takeActions.of_ok hloop (.refl c)
    obtain ⟨hqueued, hdue⟩ := checkExecutable_eq_ok hstate
    refine ⟨p, Governor.find_eq_ok.1 hp, hqueued, hdue, ?_, haside.modify_eq_ok hput⟩
    rw [takeActions_eq_ok hloop]

/-- A proposal that could not be released is as before. -/
theorem release_eq_error (h : release id now c = .error e d) : Aside c d := by
  rcases release_cases id now c with ⟨e', herror⟩ | ⟨p, hp, hstate, hpresent⟩
  · cases h.symm.trans herror
    exact .refl c
  · rw [release_eq hp hstate hpresent] at h
    rcases Call.bind_eq_error.1 h with hloop | ⟨_, _, -, h⟩
    · exact keeps_takeActions.of_error hloop (.refl c)
    rcases Call.bind_eq_error.1 h with h | ⟨_, _, -, h⟩
    · exact absurd h onGovernor_modify_ne_error
    · exact absurd h Call.pure_ne_error

/-! ### Canceling -/

theorem keeps_dropActions {actions : List ProposalAction} :
    Call.Keeps (Aside c) (Call.forEach actions fun action =>
      onTimelock do let _ ← Timelock.cancel caller action eta) :=
  .forEach fun _ _ => keeps_onTimelock (Timelock.keeps_cancel.bind fun _ => .pure _)

/-- **A call to cancel** is refused before anything is touched, or it comes down to its loop. -/
theorem cancel_cases (ledger : Ledger) (caller : Address) (id : ProposalId) (now : Timestamp)
    (c : Council) :
    (∃ e, cancel ledger caller id now c = .error e c) ∨
      ∃ p, c.governor.get? id = some p ∧ (c.stateOf p now).isTerminal = false ∧
        c.mayCancel ledger caller p now = .ok true ∧
        cancel ledger caller id now c = (do
          if !p.eta.isZero then
            Call.forEach p.actions fun action =>
              onTimelock do let _ ← Timelock.cancel c.governor.address action p.eta
          onGovernor (modify fun g =>
            (g.put id { p with canceled := true }).report (.proposalCanceled id)) :
          Call GovernanceError Council Unit) c := by
  unfold cancel
  rw [Call.get_bind]
  cases hp : c.governor.find id with
  | error e => exact Or.inl ⟨e, rfl⟩
  | ok p =>
    rw [Call.lift_ok_bind]
    dsimp only
    cases hstate : (c.stateOf p now).isTerminal with
    | true => exact Or.inl ⟨.settled id (c.stateOf p now), rfl⟩
    | false =>
      cases hallowed : c.mayCancel ledger caller p now with
      | error e => exact Or.inl ⟨e, rfl⟩
      | ok allowed =>
        cases allowed with
        | false => exact Or.inl ⟨.mayNotCancel caller id, rfl⟩
        | true => exact Or.inr ⟨p, Governor.find_eq_ok.1 hp, hstate, hallowed, rfl⟩

/-- **A proposal that was canceled** was not settled before; nothing else in the table has
changed. -/
theorem cancel_eq_ok {ledger : Ledger} {u : Unit} (h : cancel ledger caller id now c = .ok u d) :
    ∃ p, c.governor.get? id = some p ∧ (c.stateOf p now).isTerminal = false ∧
      c.mayCancel ledger caller p now = .ok true ∧
      d.governor
        = (c.governor.put id { p with canceled := true }).report (.proposalCanceled id) ∧
      Timelock.Aside c.timelock d.timelock := by
  rcases cancel_cases ledger caller id now c with ⟨e, herror⟩ | ⟨p, hp, hopen, hallowed, hcall⟩
  · cases h.symm.trans herror
  · rw [hcall] at h
    refine ⟨p, hp, hopen, hallowed, ?_⟩
    -- only a proposal that was queued has actions to take out of the queue
    dsimp only at h
    split at h
    · obtain ⟨_, c', hloop, hput⟩ := Call.bind_eq_ok.1 h
      have haside : Aside c c' := keeps_dropActions.of_ok hloop (.refl c)
      exact haside.modify_eq_ok hput
    · exact (Aside.refl c).modify_eq_ok h

/-- A proposal that could not be canceled is as before. -/
theorem cancel_eq_error {ledger : Ledger} (h : cancel ledger caller id now c = .error e d) :
    Aside c d := by
  rcases cancel_cases ledger caller id now c with ⟨e', herror⟩ | ⟨p, -, -, -, hcall⟩
  · cases h.symm.trans herror
    exact .refl c
  · rw [hcall] at h
    dsimp only at h
    split at h
    · rcases Call.bind_eq_error.1 h with hloop | ⟨_, _, -, h⟩
      · exact keeps_dropActions.of_error hloop (.refl c)
      · exact absurd h onGovernor_modify_ne_error
    · exact absurd h onGovernor_modify_ne_error

end Council

end StakeGovernance
