import StakeGovernance.Proofs.Replay
import StakeGovernance.Proofs.StakeChanges

/-!
# What ledger and council report

Each call reports exactly the events that tell what it has changed: the ledger for each bucket
that it has written to and for each pointer that it has moved, the governor for each proposal,
and the timelock for each digest that has entered its queue or was dropped from it. Where both
of the council report on one call, it does not matter who is heard first, because each tells
of something else.

* `StakeGovernance.Ledger.told_of_planStake`, `StakeGovernance.Ledger.told_of_planExtend`,
  `StakeGovernance.Ledger.told_of_planWithdraw`, `StakeGovernance.Ledger.told_of_planDelegate` –
  what the **ledger** reports;
* `StakeGovernance.Timelock.Reports` – what the **timelock** reports;
* `StakeGovernance.Council.told_of_propose`, `StakeGovernance.Council.told_of_vote`,
  `StakeGovernance.Council.Fit.told_of_queue`, `StakeGovernance.Council.Fit.told_of_cancel`,
  `StakeGovernance.Council.told_of_prune` – what the **council** reports.
-/

namespace StakeGovernance

/-! ### Plans -/

namespace Plan

variable {p q : Plan} {l : Ledger} {owner d target : Address} {bucket : Timestamp}
  {amount staked : Amount} {stake : StakePoint}

/-- A move replaces the amount of one bucket. -/
theorem Puts.amount_eq (h : Puts p q l owner bucket stake) (o : Address) (b : Timestamp) :
    (q.stakeOf l o b).amount
      = if o = owner ∧ b = bucket then stake.amount else (p.stakeOf l o b).amount := by
  rw [h.stakeOf]
  split <;> rfl

/-! No move names a new delegate, apart from attributing all live stake to one. -/

theorem delegate_credit (h : p.credit l d bucket amount = .ok q) : q.delegate = p.delegate := by
  unfold credit at h
  split at h
  · cases h
    rfl
  · cases h

theorem delegate_debit (h : p.debit l d bucket amount = .ok q) : q.delegate = p.delegate := by
  unfold debit at h
  simp only at h
  split at h
  · cases h
    rfl
  · cases h

theorem delegate_add (h : p.add l owner bucket amount target = .ok (q, staked)) :
    q.delegate = p.delegate := by
  unfold add at h
  simp only at h
  split at h
  · cases h
  split at h
  · obtain ⟨r, hcredit, hr⟩ := Checked.bind_eq_ok.1 h
    cases hr
    exact show r.delegate = p.delegate from delegate_credit hcredit
  · obtain ⟨r, hdebit, hr⟩ := Checked.bind_eq_ok.1 h
    obtain ⟨r', hcredit, hr⟩ := Checked.bind_eq_ok.1 hr
    cases hr
    exact show r'.delegate = p.delegate from
      (delegate_credit hcredit).trans (delegate_debit hdebit)

theorem delegate_remove (h : p.remove l owner bucket = .ok (q, stake)) :
    q.delegate = p.delegate := by
  obtain ⟨r, hdebit, hr⟩ := Checked.bind_eq_ok.1 h
  cases hr
  exact show r.delegate = p.delegate from delegate_debit hdebit

theorem delegate_addTotal (h : p.addTotal l amount = .ok q) : q.delegate = p.delegate := by
  unfold addTotal at h
  simp only at h
  split at h
  · cases h
    rfl
  · cases h

theorem delegate_subTotal (h : p.subTotal l amount = .ok q) : q.delegate = p.delegate := by
  unfold subTotal at h
  simp only at h
  split at h
  · cases h
    rfl
  · cases h

/-- The amounts of a plan follow its stakes. -/
theorem amount_of_eq (hstakes : q.stakes = p.stakes) (o : Address) (b : Timestamp) :
    (q.stakeOf l o b).amount = (p.stakeOf l o b).amount := by
  unfold stakeOf
  rw [hstakes]

end Plan

/-! ### The ledger -/

/-- **A pointer that has moved** is the only one that has. -/
theorem Delegation.delegateOf_pointed (d : Delegation) (owner target : Address) (now : Timestamp)
    (o : Address) :
    (d.pointed owner target now).delegateOf o = if o = owner then target else d.delegateOf o := by
  unfold pointed
  split
  · rename_i hsame
    split
    · rename_i ho
      rw [ho, hsame]
    · rfl
  · -- an owner that is its own delegate has no entry
    show OrderedMap.getD (if target = owner then _ else _) o o = _
    split
    · rename_i hself
      unfold OrderedMap.getD
      rw [OrderedMap.get?_erase_eq]
      split
      · rename_i ho
        exact ho.trans hself.symm
      · rfl
    · rw [OrderedMap.getD_insert_eq]
      rfl

namespace Ledger

variable {l m : Ledger} {owner target : Address} {source bucket unlock now : Timestamp}
  {amount additional : Amount} {plan : Plan}

/-- **The amounts of a ledger** after a plan was written are those of the plan. -/
theorem amountOf_written (l : Ledger) (owner : Address) (plan : Plan) (now : Timestamp)
    (o : Address) (b : Timestamp) :
    (l.written owner plan now).amountOf o b = (plan.stakeOf l o b).amount := by
  have hstakes : (l.written owner plan now).stakes = BucketLogs.putAll now l.stakes plan.stakes :=
    rfl
  unfold amountOf Plan.stakeOf OrderedMap.getD latestStake checkpoints?
  rw [BucketLogs.bind_log rfl, BucketLogs.bind_log rfl, hstakes, BucketLogs.log_putAll]
  cases plan.stakes.get? ⟨o, b⟩ with
  | some stake =>
    dsimp only
    rw [CheckpointLog.latest?_put]
    rfl
  | none => cases (BucketLogs.log l.stakes o b).latest? <;> rfl

/-- Looking an owner up by another name. -/
theorem delegateOf_ite (l : Ledger) (owner o : Address) :
    (if o = owner then l.delegateOf owner else l.delegateOf o) = l.delegateOf o := by
  split
  · rename_i ho
    rw [ho]
  · rfl

/-- **The delegates** after a plan was written: the owner has the one that is planned. -/
theorem delegateOf_written (l : Ledger) (owner : Address) (plan : Plan) (now : Timestamp)
    (o : Address) :
    (l.written owner plan now).delegateOf o
      = if o = owner then plan.delegate.getD (l.delegateOf owner) else l.delegateOf o := by
  obtain ⟨stakes, delegated, total, delegate⟩ := plan
  cases delegate with
  | some target => exact l.delegation.delegateOf_pointed owner target now o
  | none => exact (l.delegateOf_ite owner o).symm

/-- Events that tell the amounts and the delegate of a plan tell what it changes. -/
theorem told_of_written {events : List ProtocolEvent}
    (hamount : ∀ o b, events.foldl (Replay.amount o b) (l.amountOf o b)
      = (plan.stakeOf l o b).amount)
    (hdelegate : ∀ o, events.foldl (Replay.delegate o) (l.delegateOf o)
      = if o = owner then plan.delegate.getD (l.delegateOf owner) else l.delegateOf o) :
    l.Told events (l.written owner plan now) where
  amount o b := (hamount o b).trans (l.amountOf_written owner plan now o b).symm
  delegate o := (hdelegate o).trans (l.delegateOf_written owner plan now o).symm

/-- **A stake** reports the new delegate, if there is one, and the bucket. -/
theorem told_of_planStake {planned : Planned StakeReceipt}
    (h : l.planStake owner amount unlock target now = .ok planned) :
    l.Told (planned.events.map .staking) (l.written owner planned.plan now) := by
  obtain ⟨bucket, p, p', staked, -, -, -, hp, hadd, htotal, -, hevents⟩ := planStake_eq_ok h
  rw [hevents]
  have hplan := (Plan.delegate_addTotal htotal).trans (Plan.delegate_add hadd)
  have hamount : ∀ o b, (planned.plan.stakeOf l o b).amount
      = if o = owner ∧ b = bucket then staked else (p.stakeOf l o b).amount := fun o b =>
    (Plan.amount_of_eq (Plan.addTotal_spec htotal).1 o b).trans
      ((Plan.add_spec hadd).1.amount_eq o b)
  split at hp
  · rename_i hsame
    cases hp
    refine told_of_written (fun o b => (hamount o b).symm ▸ ?_) fun o => ?_
    · rw [if_pos hsame]
      rfl
    · rw [if_pos hsame, hplan]
      exact (l.delegateOf_ite owner o).symm
  · rename_i hother
    obtain ⟨hdelegate, hsame⟩ := Plan.redelegate_amounts hp
    refine told_of_written (fun o b => (hamount o b).symm ▸ ?_) fun o => ?_
    · rw [if_neg hother, hsame]
      rfl
    · rw [if_neg hother, hplan, hdelegate]
      rfl

/-- **Where an extension leaves the amounts**: one bucket that does not end earlier holds what it
held, what was in the bucket that was left, if another one was, and what is added; and the owner
keeps its delegate. -/
theorem planExtend_amounts {planned : Planned StakeReceipt}
    (h : l.planExtend owner source unlock additional now = .ok planned) :
    ∃ bucket staked, now < source ∧ source ≤ bucket ∧ planned.plan.delegate = none ∧
      (∀ o b, (planned.plan.stakeOf l o b).amount
        = if o = owner ∧ b = bucket then staked
          else if bucket ≠ source ∧ o = owner ∧ b = source then .zero else l.amountOf o b) ∧
      staked.toNat = (l.amountOf owner bucket).toNat
        + (if bucket = source then 0 else (l.amountOf owner source).toNat) + additional.toNat ∧
      planned.events = (if bucket = source then [] else [.stakeChanged owner source .zero])
        ++ [.stakeChanged owner bucket staked] := by
  obtain ⟨bucket, p, staked, -, -, hlive, -, hlater, hextended, htotal, -, hevents⟩ :=
    planExtend_eq_ok h
  have hplan : planned.plan.stakes = p.stakes ∧ planned.plan.delegate = p.delegate := by
    split at htotal
    · cases htotal
      exact ⟨rfl, rfl⟩
    · exact ⟨(Plan.addTotal_spec htotal).1, Plan.delegate_addTotal htotal⟩
  refine ⟨bucket, staked, hlive, hlater, ?_⟩
  rw [hplan.2]
  rcases hextended with ⟨hsame, hadd⟩ | ⟨hother, p', moved, moving, hremove, hmoving, hadd⟩
  · refine ⟨Plan.delegate_add hadd, fun o b => ?_, ?_, hevents⟩
    · rw [Plan.amount_of_eq hplan.1, (Plan.add_spec hadd).1.amount_eq]
      simp only [hsame, ne_eq, not_true_eq_false, false_and, if_false]
      rfl
    · rw [if_pos hsame]
      exact (Plan.add_spec hadd).2
  · refine ⟨(Plan.delegate_add hadd).trans (Plan.delegate_remove hremove), fun o b => ?_, ?_,
      hevents⟩
    · rw [Plan.amount_of_eq hplan.1, (Plan.add_spec hadd).1.amount_eq,
        (Plan.remove_spec hremove).1.amount_eq]
      simp only [hother, ne_eq, not_false_eq_true, true_and]
      rfl
    · obtain ⟨hremoved, rfl⟩ := Plan.remove_spec hremove
      have hkept : (p'.stakeOf l owner bucket).amount = l.amountOf owner bucket :=
        (hremoved.amount_eq owner bucket).trans (if_neg fun e => hother e.2)
      have hmoving : moving.toNat = (l.amountOf owner source).toNat + additional.toNat :=
        Word.add?_eq_some_iff.1 hmoving
      rw [(Plan.add_spec hadd).2, hkept, hmoving, if_neg hother, Nat.add_assoc]

/-- **An extension** reports the bucket that was left, if another one was, and the bucket that
holds the stake now. -/
theorem told_of_planExtend {planned : Planned StakeReceipt}
    (h : l.planExtend owner source unlock additional now = .ok planned) :
    l.Told (planned.events.map .staking) (l.written owner planned.plan now) := by
  obtain ⟨bucket, staked, -, -, hdelegate, hamounts, -, hevents⟩ := planExtend_amounts h
  rw [hevents]
  refine told_of_written (fun o b => ?_) fun o => ?_
  · rw [hamounts]
    by_cases hsame : bucket = source
    · simp only [hsame, ne_eq, not_true_eq_false, false_and, if_false, if_true]
      rfl
    · simp only [hsame, ne_eq, not_false_eq_true, true_and, if_false]
      rfl
  · rw [hdelegate]
    have hnone : ∀ b : Address, (List.map ProtocolEvent.staking
        ((if bucket = source then [] else [.stakeChanged owner source .zero])
          ++ [.stakeChanged owner bucket staked])).foldl (Replay.delegate o) b = b := by
      intro b
      split <;> rfl
    rw [hnone]
    exact (l.delegateOf_ite owner o).symm

/-- **A withdrawal** reports the bucket that is empty now. -/
theorem told_of_planWithdraw {planned : Planned Amount}
    (h : l.planWithdraw owner bucket now = .ok planned) :
    l.Told (planned.events.map .staking) (l.written owner planned.plan now) := by
  obtain ⟨p, released, -, -, -, hremove, htotal, -, hevents⟩ := planWithdraw_eq_ok h
  rw [hevents]
  refine told_of_written (fun o b => ?_) fun o => ?_
  · rw [Plan.amount_of_eq (Plan.subTotal_spec htotal).1, (Plan.remove_spec hremove).1.amount_eq]
    rfl
  · rw [(Plan.delegate_subTotal htotal).trans (Plan.delegate_remove hremove)]
    exact (l.delegateOf_ite owner o).symm

/-- **A delegation** reports the new delegate. -/
theorem told_of_planDelegate {planned : Planned (Option Address)}
    (h : l.planDelegate owner target now = .ok (some planned)) :
    l.Told (planned.events.map .staking) (l.written owner planned.plan now) := by
  obtain ⟨-, -, hp, -, hevents⟩ := planDelegate_eq_ok h
  rw [hevents]
  obtain ⟨hdelegate, hsame⟩ := Plan.redelegate_amounts hp
  refine told_of_written (fun o b => ?_) fun o => ?_
  · rw [hsame]
    rfl
  · rw [hdelegate]
    rfl

/-- **What the ledger reports** of a request tells what the request has changed. -/
theorem told_of_change {request : Request} {change : StakeChange}
    (h : StakeChange.Planned l now owner request change) (hl : l.events = []) :
    l.Told ((change.reported owner now l).events.map .staking) (change.reported owner now l) := by
  have htold : l.Told (change.events.map .staking) (change.ledger owner now l) := by
    cases h with
    | stake h => exact told_of_planStake h
    | extend h => exact told_of_planExtend h
    | withdraw h => exact told_of_planWithdraw h
    | delegate h => exact told_of_planDelegate h
    | unchanged => exact .refl l
  rw [change.events_reported hl]
  exact ⟨htold.amount, htold.delegate⟩

end Ledger

/-! ### The timelock -/

namespace Timelock

variable {t u v : Timelock} {events later : List GovernanceEvent}

/-- **Events of a timelock** that tell what has entered its queue and left it, and that are
about no proposal. -/
structure Reports (t : Timelock) (events : List GovernanceEvent) (u : Timelock) : Prop where
  appended : u.events = t.events ++ events
  queued : ∀ hash, (events.map ProtocolEvent.governance).foldl (Replay.queued hash)
    (t.isQueued hash) = u.isQueued hash
  docket : ∀ id before,
    (events.map ProtocolEvent.governance).foldl (Replay.docket id) before = before

theorem Reports.refl (t : Timelock) : t.Reports [] t :=
  ⟨(List.append_nil _).symm, fun _ => rfl, fun _ _ => rfl⟩

theorem Reports.trans (h : t.Reports events u) (h' : u.Reports later v) :
    t.Reports (events ++ later) v where
  appended := by rw [h'.appended, h.appended, List.append_assoc]
  queued hash := by rw [List.map_append, List.foldl_append, h.queued, h'.queued]
  docket id before := by rw [List.map_append, List.foldl_append, h.docket, h'.docket]

/-- An entry that was put in is reported. -/
theorem reports_enter (t : Timelock) (action : ProposalAction) (eta now : Timestamp) :
    t.Reports [.actionQueued (action.hash eta) action.target eta] (t.enter action eta now) where
  appended := rfl
  queued hash := by
    unfold isQueued OrderedMap.contains enter
    dsimp only
    rw [OrderedMap.get?_insert_eq]
    show (if hash = action.hash eta then true else _) = _
    split <;> rfl
  docket _ _ := rfl

/-- An entry that was dropped is reported, and only if there was one. -/
theorem reports_drop (t : Timelock) (action : ProposalAction) (eta : Timestamp) :
    ∃ events, t.Reports events (t.drop action eta) := by
  unfold drop
  split
  · refine ⟨[.actionCanceled (action.hash eta) action.target], rfl, fun hash => ?_, fun _ _ => rfl⟩
    unfold isQueued OrderedMap.contains
    dsimp only
    rw [OrderedMap.get?_erase_eq]
    show (if hash = action.hash eta then false else _) = _
    split <;> rfl
  · exact ⟨[], .refl t⟩

/-- What is reported of a row of actions, if each of them is reported. -/
theorem reports_foldl {change : Timelock → ProposalAction → Timelock}
    (h : ∀ (t : Timelock) action, ∃ events, t.Reports events (change t action)) (t : Timelock)
    (actions : List ProposalAction) : ∃ events, t.Reports events (actions.foldl change t) := by
  induction actions generalizing t with
  | nil => exact ⟨[], .refl t⟩
  | cons action rest ih =>
    obtain ⟨first, hfirst⟩ := h t action
    obtain ⟨others, hothers⟩ := ih (change t action)
    exact ⟨first ++ others, hfirst.trans hothers⟩

/-- Whether an action waits under a digest after a row of digests has left the queue. -/
theorem foldl_expired (hash : Digest) (hashes : List Digest) (before : Bool) :
    ((hashes.map GovernanceEvent.actionExpired).map ProtocolEvent.governance).foldl
      (Replay.queued hash) before = if hash ∈ hashes then false else before := by
  induction hashes generalizing before with
  | nil => rfl
  | cons first rest ih =>
    rw [List.map_cons, List.map_cons, List.foldl_cons, ih]
    show (if hash ∈ rest then false else if hash = first then false else before) = _
    by_cases hfirst : hash = first
    · simp [hfirst]
    · simp [hfirst]

/-- Entries that were removed because their grace period was over are reported. -/
theorem reports_pruneStale {now : Timestamp} {hashes : List Digest}
    (h : pruneStale now t = .ok hashes u) : ∃ events, t.Reports events u := by
  cases h
  refine ⟨_, rfl, fun hash => ?_, fun id before => ?_⟩
  · rw [foldl_expired]
    unfold isQueued OrderedMap.contains
    have hstale : hash ∈ (t.queued.filter fun _ q => t.isStale q.eta now).keys
        ↔ ((t.queued.get? hash).filter fun q => t.isStale q.eta now).isSome = true := by
      rw [OrderedMap.mem_keys, ← OrderedMap.get?_filter t.queued fun _ q => t.isStale q.eta now]
      rfl
    dsimp only
    rw [OrderedMap.get?_filter]
    simp only [hstale]
    cases t.queued.get? hash with
    | none => rfl
    | some q => cases hq : t.isStale q.eta now <;> simp [hq, Option.filter]
  · refine foldl_eq_self fun e he before => ?_
    obtain ⟨event, hevent, rfl⟩ := List.mem_map.1 he
    obtain ⟨hash, -, rfl⟩ := List.mem_map.1 hevent
    rfl

/-- Entries that are taken out for their execution are not reported. -/
theorem events_takeAll (t : Timelock) (actions : List ProposalAction) (eta : Timestamp) :
    (t.takeAll actions eta).events = t.events := by
  unfold takeAll
  induction actions generalizing t with
  | nil => rfl
  | cons action rest ih => exact ih _

end Timelock

/-! ### The council -/

theorem Governor.docket?_put (g : Governor) (id j : ProposalId) (p : Proposal) :
    (g.put id p).docket? j = if j = id then some p.docket else g.docket? j := by
  unfold docket?
  rw [get?_put]
  split <;> rfl

/-- **A proposal that is put back** after a change has changed its own docket only. -/
theorem Governor.docket?_put_of_get? {g : Governor} {id : ProposalId} {p q : Proposal}
    {f : Docket → Docket} (hp : g.get? id = some p) (hq : q.docket = f p.docket) (j : ProposalId) :
    (g.put id q).docket? j = if j = id then (g.docket? j).map f else g.docket? j := by
  rw [docket?_put]
  split
  · rename_i hj
    unfold docket?
    rw [hj, hp, hq]
    rfl
  · rfl

namespace Council

variable {c d : Council} {events : List GovernanceEvent} {id : ProposalId} {now : Timestamp}

/-- **What the council reports**: the timelock first, and then the governor. -/
def reports (c : Council) : List GovernanceEvent := c.timelock.events ++ c.governor.events

/-- What the timelock and the governor report together. -/
theorem told_of_parts (hc : c.timelock.events = [])
    (htimelock : c.timelock.Reports events d.timelock)
    (hqueued : ∀ hash before, (d.governor.events.map ProtocolEvent.governance).foldl
      (Replay.queued hash) before = before)
    (hdocket : ∀ id, (d.governor.events.map ProtocolEvent.governance).foldl (Replay.docket id)
      (c.governor.docket? id) = d.governor.docket? id) :
    c.Told (d.reports.map .governance) d := by
  have hevents : d.timelock.events = events := by
    rw [htimelock.appended, hc, List.nil_append]
  unfold reports
  rw [hevents, List.map_append]
  refine ⟨fun id => ?_, fun hash => ?_⟩
  · rw [List.foldl_append, htimelock.docket, hdocket]
  · rw [List.foldl_append, htimelock.queued, hqueued]

/-- What is reported if only the governor has changed. -/
theorem told_of_governor {g : Governor} {event : GovernanceEvent}
    (hc : c.reports = []) (hg : g.events = c.governor.events ++ [event])
    (hqueued : ∀ hash before, Replay.queued hash before (.governance event) = before)
    (hdocket : ∀ id, Replay.docket id (c.governor.docket? id) (.governance event)
      = g.docket? id) :
    c.Told ((Council.reports ⟨g, c.timelock⟩).map .governance) ⟨g, c.timelock⟩ := by
  obtain ⟨htimelock, hgovernor⟩ := List.append_eq_nil_iff.1 hc
  have hg : g.events = [event] := by rw [hg, hgovernor, List.nil_append]
  refine told_of_parts htimelock (.refl _) (fun hash before => ?_) fun id => ?_
  · rw [hg]
    exact hqueued hash before
  · rw [hg]
    exact hdocket id

/-- **A proposal that was made** is reported. -/
theorem told_of_propose {ledger : Ledger} {proposer : Address} {request : ProposalRequest}
    {g : Governor} (hc : c.reports = [])
    (h : Governor.propose ledger proposer request now c.governor = .ok id g) :
    c.Told ((Council.reports ⟨g, c.timelock⟩).map .governance) ⟨g, c.timelock⟩ := by
  obtain ⟨p, hdraft, -, rfl⟩ := Governor.propose_eq_ok h
  refine told_of_governor hc rfl (fun _ _ => rfl) fun j => ?_
  have hput : (c.governor.enter p).docket? j
      = if j = p.id then some p.docket else c.governor.docket? j :=
    c.governor.docket?_put p.id j p
  obtain ⟨_, _, _, -, -, -, rfl⟩ := Governor.draft_eq_ok hdraft
  rw [hput, Proposal.docket_create]
  rfl

/-- **A vote that was cast** is reported. -/
theorem told_of_vote {ledger : Ledger} {voter : Address} {support : VoteSupport} {votes : Power}
    {g : Governor} (hc : c.reports = [])
    (h : Governor.castVote ledger voter id support now c.governor = .ok votes g) :
    c.Told ((Council.reports ⟨g, c.timelock⟩).map .governance) ⟨g, c.timelock⟩ := by
  obtain ⟨q, hballot, rfl⟩ := Governor.castVote_eq_ok h
  obtain ⟨p, hp, -, -, -, -, hrecord⟩ := Governor.ballot_eq_ok hballot
  refine told_of_governor hc rfl (fun _ _ => rfl) fun j => ?_
  exact (Governor.docket?_put_of_get? hp (Proposal.docket_recordVote hrecord) j).symm

/-- A proposal that is put back with its time of execution has the docket that it had. -/
theorem docket?_put_queued {p : Proposal} (hp : c.governor.get? id = some p) (eta : Timestamp)
    (j : ProposalId) : (c.governor.put id { p with eta }).docket? j = c.governor.docket? j := by
  have hsame : Proposal.docket { p with eta } = p.docket := rfl
  rw [Governor.docket?_put_of_get? (f := fun docket => docket) hp hsame, Option.map_id', ite_self]

/-- **A proposal that was queued** is reported action by action. -/
theorem Fit.told_of_queue (hfit : c.Fit) (hc : c.reports = []) {eta : Timestamp}
    (h : queue id now c = .ok eta d) : c.Told (d.reports.map .governance) d := by
  obtain ⟨htimelock, hgovernor⟩ := List.append_eq_nil_iff.1 hc
  rcases hfit.queue_spec id now with ⟨e, hspec⟩ | ⟨p, eta', hp, -, -, -, hspec⟩
  · cases h.symm.trans hspec
  · cases h.symm.trans hspec
    have henters (t : Timelock) action : ∃ events, t.Reports events (t.enter action eta now) :=
      ⟨_, t.reports_enter action eta now⟩
    obtain ⟨events, hevents⟩ := Timelock.reports_foldl henters c.timelock p.actions
    have hg : ((c.governor.put id { p with eta }).report (.proposalQueued id eta)).events
        = [.proposalQueued id eta] := congrArg (· ++ [_]) hgovernor
    refine told_of_parts htimelock hevents (fun hash before => ?_) fun j => ?_
    · rw [hg]
      rfl
    · rw [hg]
      exact (docket?_put_queued hp eta j).symm

/-- **A proposal that was canceled** is reported, with the actions that were still in the
queue. -/
theorem Fit.told_of_cancel (hfit : c.Fit) (hc : c.reports = []) {ledger : Ledger}
    {caller : Address} {u : Unit} (h : cancel ledger caller id now c = .ok u d) :
    c.Told (d.reports.map .governance) d := by
  obtain ⟨htimelock, hgovernor⟩ := List.append_eq_nil_iff.1 hc
  rcases hfit.cancel_spec ledger caller id now with ⟨e, hspec⟩ | ⟨p, hp, -, hspec⟩
  · cases h.symm.trans hspec
  · cases h.symm.trans hspec
    obtain ⟨events, hevents⟩ : ∃ events, c.timelock.Reports events
        (if p.eta.isZero then c.timelock else c.timelock.dropAll p.actions p.eta) := by
      split
      · exact ⟨[], .refl _⟩
      · exact Timelock.reports_foldl (fun t action => t.reports_drop action p.eta) _ _
    have hg : ((c.governor.put id { p with canceled := true }).report
        (.proposalCanceled id)).events = [.proposalCanceled id] := congrArg (· ++ [_]) hgovernor
    refine told_of_parts htimelock hevents (fun hash before => ?_) fun j => ?_
    · rw [hg]
      rfl
    · rw [hg]
      exact (Governor.docket?_put_of_get? hp rfl j).symm

/-- **A proposal that was released** is reported by the governor. What was taken out of the queue
for it is not reported yet. -/
theorem Fit.reports_of_release (hfit : c.Fit) {released : ReleasedActions}
    (h : release id now c = .ok released d) :
    d.reports = c.reports ++ [.proposalExecuted id] ∧
      (∀ j, d.governor.docket? j
        = Replay.docket j (c.governor.docket? j) (.governance (.proposalExecuted id))) ∧
      ∀ hash, d.timelock.isQueued hash
        = if hash ∈ released.actions.map (·.1) then false else c.timelock.isQueued hash := by
  rcases hfit.release_spec id now with ⟨e, hspec⟩ | ⟨p, hp, -, hspec⟩
  · cases h.symm.trans hspec
  · cases h.symm.trans hspec
    refine ⟨?_, fun j => Governor.docket?_put_of_get? hp rfl j, fun hash => ?_⟩
    · show Timelock.events (Timelock.takeAll _ _ _) ++ (c.governor.events ++ [_]) = _
      rw [Timelock.events_takeAll, ← List.append_assoc]
      rfl
    · have hmem : hash ∈ (p.actions.map fun action => (action.hash p.eta, action)).map (·.1)
          ↔ ∃ action ∈ p.actions, hash = action.hash p.eta := by
        simp [eq_comm]
      show ((Timelock.takeAll _ _ _).get? hash).isSome = _
      rw [Timelock.get?_takeAll]
      simp only [hmem]
      split <;> rfl

/-- **Entries that were removed** are reported. -/
theorem told_of_prune {hashes : List Digest} (hc : c.reports = [])
    (h : onTimelock (Timelock.pruneStale now) c = .ok hashes d) :
    c.Told (d.reports.map .governance) d := by
  obtain ⟨htimelock, hgovernor⟩ := List.append_eq_nil_iff.1 hc
  obtain ⟨t, ht, rfl⟩ := Call.part_eq_ok.1 h
  obtain ⟨events, hevents⟩ := Timelock.reports_pruneStale ht
  refine told_of_parts htimelock hevents (fun hash before => ?_) fun j => ?_
  · rw [hgovernor]
    rfl
  · rw [hgovernor]
    rfl

end Council

end StakeGovernance
