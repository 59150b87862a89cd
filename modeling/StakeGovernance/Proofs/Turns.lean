import StakeGovernance.Proofs.Actions
import StakeGovernance.Proofs.Waiting

/-!
# A timelock in anybody's hands

A timelock does not rely on the council that it serves. Anybody may call it, with any action and any
time of execution, and at any time, also at an earlier one than before. What it keeps to is read off
the record of the calls: an entry comes into the queue by a call of the admin and for a time within
the bounds, and leaves it once; so whatever is executed was queued since it last left the queue. The
admin and the bounds never change, only the delay does, and that is not looked at here.

* `StakeGovernance.Timelock.Move`, `StakeGovernance.Timelock.Turn` – a **call** on a timelock, and
  its record;
* `StakeGovernance.Timelock.Turn.Queues`, `StakeGovernance.Timelock.Turn.Removes` – what a turn puts
  into the queue, and **what it takes out**;
* `StakeGovernance.Timelock.Course` – the **records** of a timelock from its creation on;
* `StakeGovernance.Timelock.get?_after` – where an entry **comes from**, over one call;
* `StakeGovernance.Timelock.Course.origin` – and **over all calls**;
* `StakeGovernance.Timelock.Course.executes_what_was_queued` – what a timelock **keeps to**.
-/

namespace StakeGovernance

namespace Timelock

/-! ### Calls and their record -/

/-- **A call on a timelock** with its arguments. -/
inductive Move where
  | queue (caller : Address) (action : ProposalAction) (eta now : Timestamp)
  | execute (caller : Address) (action : ProposalAction) (eta now : Timestamp)
  | cancel (caller : Address) (action : ProposalAction) (eta : Timestamp)
  | setDelay (caller : Address) (delay : Timestamp)
  | pruneStale (now : Timestamp)

/-- **What a call answers.** -/
inductive Answer where
  | digest (hash : Digest)
  | done
  | pruned (hashes : List Digest)

namespace Move

/-- The call that is made. -/
def run : Move → Call GovernanceError Timelock Answer
  | .queue caller action eta now => do return .digest (← Timelock.queue caller action eta now)
  | .execute caller action eta now => do return .digest (← Timelock.execute caller action eta now)
  | .cancel caller action eta => do return .digest (← Timelock.cancel caller action eta)
  | .setDelay caller delay => do
    let _ ← Timelock.setDelay caller delay
    return .done
  | .pruneStale now => do return .pruned (← Timelock.pruneStale now)

/-- Who makes a call, if it is one that asks who does. -/
def caller? : Move → Option Address
  | .queue caller .. | .execute caller .. | .cancel caller .. | .setDelay caller _ => some caller
  | .pruneStale _ => none

end Move

/-- **A turn**: the timelock as it was, the call, and what it answered. -/
structure Turn where
  before : Timelock
  move : Move
  outcome : Except GovernanceError Answer

namespace Turn

/-- The turn that a call takes. -/
def take (t : Timelock) (move : Move) : Turn := ⟨t, move, (move.run.runFrom t).1⟩

/-- **A turn that has queued something** under a digest. -/
def Queues (s : Turn) (hash : Digest) : Prop :=
  ∃ caller action eta now, s.move = .queue caller action eta now ∧ s.outcome = .ok (.digest hash)

/-- **A turn that has taken out** what was under a digest: it was executed, canceled while it was in
the queue, or pruned. -/
def Removes (s : Turn) (hash : Digest) : Prop :=
  match s.move, s.outcome with
  | .execute .., .ok (.digest taken) => hash = taken
  | .cancel .., .ok (.digest dropped) => hash = dropped ∧ s.before.isQueued hash = true
  | .pruneStale _, .ok (.pruned hashes) => hash ∈ hashes
  | _, _ => False

end Turn

/-- **The courses of a timelock**: the turns that were taken on a new one, and what they have made
of it. -/
inductive Course (admin : Address) (params : TimelockParams) : List Turn → Timelock → Prop where
  | create {t : Timelock} (h : Timelock.create admin params = .ok t) : Course admin params [] t
  | turn {turns : List Turn} {t : Timelock} (h : Course admin params turns t) (move : Move) :
    Course admin params (turns ++ [.take t move]) (move.run.after t)

/-- **An entry that is in its place**: under the digest of its action at its time, which is within
the delays from when it was queued. -/
structure Placed (params : TimelockParams) (hash : Digest) (entry : QueuedAction) : Prop where
  digest : hash = entry.action.hash entry.eta
  earliest : entry.queuedAt.addSat params.minDelay ≤ entry.eta
  latest : entry.eta ≤ entry.queuedAt.addSat params.maxDelay

/-! ### One call -/

variable {t u : Timelock} {move : Move} {answer : Answer} {hash : Digest} {entry : QueuedAction}
  {e : GovernanceError} {caller : Address} {action : ProposalAction} {eta now : Timestamp}

/-- **A call that fails** leaves the timelock as it was. -/
theorem run_eq_error (h : move.run t = .error e u) : u = t := by
  cases move with
  | queue => exact queue_eq_error (Call.bind_pure_eq_error.1 h)
  | execute => exact execute_eq_error (Call.bind_pure_eq_error.1 h)
  | cancel => exact cancel_eq_error (Call.bind_pure_eq_error.1 h)
  | setDelay =>
    exact setDelay_eq_error ((Call.bind_pure_eq_error (f := fun _ => Answer.done)).1 h)
  | pruneStale => cases h

/-- Nothing that begins with asking for the admin is done for anybody else. -/
theorem refused_of_ne {α : Type} (h : caller ≠ t.admin)
    (rest : Timelock → Unit → Call GovernanceError Timelock α) :
    (do let t ← get; let x ← t.onlyAdmin caller; rest t x : Call GovernanceError Timelock α) t
      = .error (.notAdmin caller) t := by
  show (liftM (t.onlyAdmin caller) >>= rest t : Call GovernanceError Timelock α) t = _
  unfold onlyAdmin
  rw [if_neg h]
  rfl

/-- **A stranger** is refused whatever it calls. -/
theorem run_of_ne (hcaller : move.caller? = some caller) (h : caller ≠ t.admin) :
    move.run t = .error (.notAdmin caller) t := by
  cases move with
  | queue =>
    cases hcaller
    exact Call.bind_pure_eq_error.2 (refused_of_ne h _)
  | execute =>
    cases hcaller
    exact Call.bind_pure_eq_error.2 (refused_of_ne h _)
  | cancel =>
    cases hcaller
    exact Call.bind_pure_eq_error.2 (refused_of_ne h _)
  | setDelay =>
    cases hcaller
    exact (Call.bind_pure_eq_error (f := fun _ => Answer.done)).2 (refused_of_ne h _)
  | pruneStale => cases hcaller

/-- **No call changes the admin or the bounds.** -/
theorem bounded_of_ok (h : move.run t = .ok answer u) : Bounded t u := by
  have haside : Aside t t := ⟨rfl, rfl⟩
  cases move with
  | queue =>
    obtain ⟨_, hqueue, -⟩ := Call.bind_pure_eq_ok.1 h
    exact (keeps_queue.of_ok hqueue haside).bounded
  | execute =>
    obtain ⟨_, hexecute, -⟩ := Call.bind_pure_eq_ok.1 h
    exact (keeps_execute.of_ok hexecute haside).bounded
  | cancel =>
    obtain ⟨_, hcancel, -⟩ := Call.bind_pure_eq_ok.1 h
    exact (keeps_cancel.of_ok hcancel haside).bounded
  | setDelay caller delay =>
    obtain ⟨_, hdelay, -⟩ := (Call.bind_pure_eq_ok (f := fun _ => Answer.done)).1 h
    exact ((keeps_setDelay caller delay).of_ok hdelay (.refl t)).toBounded
  | pruneStale =>
    obtain ⟨_, hprune, -⟩ := Call.bind_pure_eq_ok.1 h
    exact (keeps_pruneStale.of_ok hprune haside).bounded

/-- **Where an entry comes from**: this turn has queued it, in its place, or it was there before and
this turn has not taken it out. -/
theorem get?_of_ok (h : move.run t = .ok answer u) (hentry : u.get? hash = some entry) :
    (t.get? hash = some entry ∧ ¬ Turn.Removes ⟨t, move, .ok answer⟩ hash) ∨
      Turn.Queues ⟨t, move, .ok answer⟩ hash ∧ Placed t.params hash entry := by
  cases move with
  | queue caller action eta now =>
    obtain ⟨_, hqueue, rfl⟩ := Call.bind_pure_eq_ok.1 h
    obtain ⟨-, hearliest, hlatest, -, rfl, rfl⟩ := queue_eq_ok.1 hqueue
    have hentry : (t.enter action eta now).get? hash = some entry := hentry
    rw [get?_enter] at hentry
    split at hentry
    · rename_i hsame
      cases hentry
      exact .inr ⟨⟨caller, action, eta, now, rfl, hsame ▸ rfl⟩, hsame, hearliest, hlatest⟩
    · exact .inl ⟨hentry, id⟩
  | execute caller action eta now =>
    obtain ⟨_, hexecute, rfl⟩ := Call.bind_pure_eq_ok.1 h
    obtain ⟨-, -, -, rfl, rfl⟩ := execute_eq_ok.1 hexecute
    have hentry : (t.take action eta).get? hash = some entry := hentry
    rw [get?_take] at hentry
    split at hentry
    · cases hentry
    · rename_i hother
      exact .inl ⟨hentry, hother⟩
  | cancel caller action eta =>
    obtain ⟨_, hcancel, rfl⟩ := Call.bind_pure_eq_ok.1 h
    obtain ⟨-, rfl, rfl⟩ := cancel_eq_ok.1 hcancel
    have hentry : (t.drop action eta).get? hash = some entry := hentry
    rw [get?_drop] at hentry
    split at hentry
    · cases hentry
    · rename_i hother
      exact .inl ⟨hentry, fun hremoved => hother hremoved.1⟩
  | setDelay caller delay =>
    obtain ⟨_, hdelay, rfl⟩ := (Call.bind_pure_eq_ok (f := fun _ => Answer.done)).1 h
    obtain ⟨-, -, rfl⟩ := setDelay_eq_ok.1 hdelay
    exact .inl ⟨hentry, id⟩
  | pruneStale now =>
    obtain ⟨hashes, hprune, rfl⟩ := Call.bind_pure_eq_ok.1 h
    obtain ⟨hbefore, hintime⟩ := (get?_pruneStale hprune).1 hentry
    refine .inl ⟨hbefore, fun hremoved => ?_⟩
    obtain ⟨other, hother, hlate⟩ := (mem_of_pruneStale hprune).1 hremoved
    cases hbefore.symm.trans hother
    exact absurd hintime (Nat.not_le.2 hlate)

/-- The same over any call, whether it succeeds or fails. -/
theorem get?_after (t : Timelock) (move : Move)
    (hentry : (move.run.after t).get? hash = some entry) :
    (t.get? hash = some entry ∧ ¬ (Turn.take t move).Removes hash) ∨
      (Turn.take t move).Queues hash ∧ Placed t.params hash entry := by
  cases hcall : move.run t with
  | ok answer u =>
    have hturn : Turn.take t move = ⟨t, move, .ok answer⟩ := by
      simp [Turn.take, Call.runFrom, hcall]
    rw [Call.after_of_ok hcall] at hentry
    rw [hturn]
    exact get?_of_ok hcall hentry
  | error e u =>
    have hturn : Turn.take t move = ⟨t, move, .error e⟩ := by
      simp [Turn.take, Call.runFrom, hcall]
    rw [Call.after_of_error hcall, run_eq_error hcall] at hentry
    rw [hturn]
    exact .inl ⟨hentry, by cases move <;> exact id⟩

/-! ### All calls -/

namespace Course

variable {admin : Address} {params : TimelockParams} {turns : List Turn}

/-- **The admin and the bounds** are those that the timelock was made with. -/
theorem bounded (h : Course admin params turns t) :
    t.admin = admin ∧ t.params.minDelay = params.minDelay ∧
      t.params.maxDelay = params.maxDelay ∧ t.params.gracePeriod = params.gracePeriod := by
  induction h with
  | create h =>
    obtain ⟨-, h⟩ := Checked.refuse_eq_ok.1 h
    obtain ⟨_, -, h⟩ := Checked.bind_eq_ok.1 h
    cases h
    exact ⟨rfl, rfl, rfl, rfl⟩
  | @turn turns t hcourse move ih =>
    cases hcall : move.run t with
    | ok answer u =>
      have hbounded := bounded_of_ok hcall
      rw [Call.after_of_ok hcall, hbounded.admin, hbounded.minDelay, hbounded.maxDelay,
        hbounded.gracePeriod]
      exact ih
    | error e u =>
      rw [Call.after_of_error hcall, run_eq_error hcall]
      exact ih

/-- **Where an entry comes from**: it is in its place, and a turn has queued it after which none has
taken it out. -/
theorem origin (h : Course admin params turns t) (hentry : t.get? hash = some entry) :
    Placed params hash entry ∧
      ∃ early s between, turns = early ++ s :: between ∧ s.Queues hash ∧
        ∀ r ∈ between, ¬ r.Removes hash := by
  induction h with
  | create h =>
    obtain ⟨-, h⟩ := Checked.refuse_eq_ok.1 h
    obtain ⟨_, -, h⟩ := Checked.bind_eq_ok.1 h
    cases h
    cases hentry
  | @turn turns t hcourse move ih =>
    rcases get?_after t move hentry with ⟨hbefore, hkept⟩ | ⟨hqueues, hplaced⟩
    · obtain ⟨hplaced, early, s, between, rfl, hqueues, hbetween⟩ := ih hbefore
      refine ⟨hplaced, early, s, between ++ [.take t move], by simp, hqueues, fun r hr => ?_⟩
      rcases List.mem_append.1 hr with hr | hr
      · exact hbetween r hr
      · obtain rfl := List.mem_singleton.1 hr
        exact hkept
    · obtain ⟨-, hmin, hmax, -⟩ := hcourse.bounded
      exact ⟨⟨hplaced.digest, hmin ▸ hplaced.earliest, hmax ▸ hplaced.latest⟩, turns, _, [], rfl,
        hqueues, fun r hr => by cases hr⟩

/-- **A timelock executes what was queued.** Take a timelock with sound delays and all that has been
called on it since, by anybody, with any arguments and at any times. Each of its entries is under
the digest of its action at its time, which is within the delays from when it was queued. Whatever
is executed next has been queued before and has not been executed, canceled or pruned since, its
time has come, and its grace period is not over; and so it is with all that was executed before,
because what came before that is a course as well. A call that fails leaves the timelock as it was,
and a call by anybody but the admin fails. -/
theorem executes_what_was_queued (h : Course admin params turns t) :
    (∀ hash entry, t.get? hash = some entry → Placed params hash entry) ∧
    (∀ caller action eta now hash u, execute caller action eta now t = .ok hash u →
      eta ≤ now ∧ now ≤ eta.addSat params.gracePeriod ∧
        ∃ early s between, turns = early ++ s :: between ∧ s.Queues hash ∧
          ∀ r ∈ between, ¬ r.Removes hash) ∧
    (∀ (move : Move) e u, move.run t = .error e u → u = t) ∧
    ∀ (move : Move) caller, move.caller? = some caller → caller ≠ admin →
      move.run t = .error (.notAdmin caller) t := by
  obtain ⟨hadmin, -, -, hgrace⟩ := h.bounded
  refine ⟨fun hash entry hentry => (h.origin hentry).1, ?execute,
    fun move e u hcall => run_eq_error hcall,
    fun move caller hcaller hne => run_of_ne hcaller (hadmin ▸ hne)⟩
  case execute =>
    rintro caller action eta now hash u hcall
    obtain ⟨-, hqueued, hdue, rfl, -⟩ := execute_eq_ok.1 hcall
    obtain ⟨hreached, hintime⟩ := checkDue_eq_ok.1 hdue
    obtain ⟨entry, hentry⟩ := isQueued_iff.1 hqueued
    exact ⟨hreached, hgrace ▸ hintime, (h.origin hentry).2⟩

/-- An action is canceled and queued again, at an earlier time than before and for the same time of
execution. Somebody else does not get to execute it, the admin does. -/
theorem executes_what_was_queued_of_second_attempt :
    let admin : Address := ⟨List.replicate 20 9, rfl⟩
    let bob : Address := ⟨List.replicate 20 2, rfl⟩
    let action : ProposalAction := ⟨bob, .zero, "pay()", []⟩
    let params : TimelockParams := ⟨.ofNat 100, .ofNat 100, .ofNat 200, .ofNat 50⟩
    let eta : Timestamp := .ofNat 150
    let hash := action.hash eta
    let moves : List Move := [
      .queue admin action eta (.ofNat 40),
      .cancel admin action eta,
      .setDelay admin (.ofNat 200),
      .queue admin action eta (.ofNat 10),
      .pruneStale (.ofNat 200)]
    let t := moves.foldl (fun t move => move.run.after t) ⟨admin, params, .empty, []⟩
    t.isQueued hash = true ∧
      execute bob action eta (.ofNat 200) t = .error (.notAdmin bob) t ∧
      ∃ u turns early s between, execute admin action eta (.ofNat 200) t = .ok hash u ∧
        Course admin params turns t ∧ turns = early ++ s :: between ∧ s.Queues hash ∧
        ∀ r ∈ between, ¬ r.Removes hash := by
  intro admin bob action params eta hash moves t
  have ht : Course admin params _ t :=
    (((((Course.create (by rfl)).turn _).turn _).turn _).turn _).turn _
  obtain ⟨-, hexecute, -, hstranger⟩ := ht.executes_what_was_queued
  have hadmin : admin = t.admin := by decide +kernel
  have hqueued : t.isQueued hash = true := by decide +kernel
  have hdue : t.checkDue eta (.ofNat 200) = .ok () :=
    checkDue_eq_ok.2 ⟨by decide +kernel, by decide +kernel⟩
  have hcall := execute_eq_ok.2 ⟨hadmin, hqueued, hdue, rfl, rfl⟩
  obtain ⟨-, -, early, s, between, hturns, hqueues, hbetween⟩ := hexecute _ _ _ _ _ _ hcall
  have hrefused := hstranger (.execute bob action eta (.ofNat 200)) bob rfl (by decide +kernel)
  exact ⟨hqueued, Call.bind_pure_eq_error.1 hrefused, _, _, early, s, between, hcall, ht,
    hturns, hqueues, hbetween⟩

end Course

end Timelock

end StakeGovernance
