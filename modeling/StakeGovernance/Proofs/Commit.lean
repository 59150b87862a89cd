import StakeGovernance.Proofs.BucketLogs
import StakeGovernance.Proofs.Calls

/-!
# Writing a plan

Before anything is written, a plan is held against the newest points of all logs it is
going to touch. Once it has passed, no write can be refused any more, so that a plan is
written as a whole or not at all.

* `StakeGovernance.Ledger.written` – the ledger **after a plan was written**;
* `StakeGovernance.Ledger.commit_spec` – a plan is **written as a whole or not at all**.
-/

namespace StakeGovernance

variable {owner target : Address} {now : Timestamp}

/-! ### Pointers -/

namespace Delegation

variable {d : Delegation}

/-- The history of the pointer of an owner. -/
def historyOf (d : Delegation) (owner : Address) : CheckpointLog Address :=
  d.history.getD owner .empty

/-- The registry after the pointer of an owner has moved, if it has to. -/
def pointed (d : Delegation) (owner target : Address) (now : Timestamp) : Delegation :=
  if d.delegateOf owner = target then d
  else { d with
    history := d.history.insert owner ((d.historyOf owner).put now target)
    current := if target = owner then d.current.erase owner else d.current.insert owner target }

theorem setDelegate_eq_ok (hparties : (owner.isZero || target.isZero) = false)
    (h : (d.historyOf owner).NotAfter now) :
    ∃ previous, setDelegate owner target now d = .ok previous (d.pointed owner target now) := by
  unfold setDelegate pointed
  rw [hparties, if_neg Bool.false_ne_true]
  by_cases htarget : d.delegateOf owner = target
  · refine ⟨none, Call.bind_eq_ok.2 ⟨d, d, rfl, ?_⟩⟩
    simp only [if_pos htarget]
    rfl
  · refine ⟨some (d.delegateOf owner), Call.bind_eq_ok.2 ⟨d, d, rfl, ?_⟩⟩
    simp only [if_neg htarget]
    exact Call.bind_eq_ok.2 ⟨_, d, Call.lift_eq_ok.2 ⟨CheckpointLog.write_eq_put h, rfl⟩, rfl⟩

theorem setDelegate_eq_error (hparties : (owner.isZero || target.isZero) = true) :
    setDelegate owner target now d = .error .zeroDelegation d := by
  unfold setDelegate
  rw [hparties, if_pos rfl]
  rfl

@[simp] theorem delegated_pointed (d : Delegation) (owner target : Address) (now : Timestamp) :
    (d.pointed owner target now).delegated = d.delegated := by
  unfold pointed
  split <;> rfl

theorem historyOf_pointed (d : Delegation) (owner target : Address) (now : Timestamp)
    (o : Address) :
    (d.pointed owner target now).historyOf o = d.historyOf o ∨
      (d.pointed owner target now).historyOf o = (d.historyOf o).put now target := by
  unfold pointed
  split
  · exact Or.inl rfl
  · unfold historyOf
    rw [OrderedMap.getD_insert_eq]
    split
    · rename_i h
      exact Or.inr (h ▸ rfl)
    · exact Or.inl rfl

theorem writeDelegated_eq_ok {slot : Slot} {amount : Amount}
    (h : (BucketLogs.log d.delegated slot.account slot.bucket).NotAfter now) :
    writeDelegated slot.account slot.bucket now amount d
      = .ok () { d with delegated := BucketLogs.put now d.delegated slot amount } :=
  Call.bind_eq_ok.2 ⟨d, d, rfl,
    Call.bind_eq_ok.2 ⟨_, d, Call.lift_eq_ok.2 ⟨CheckpointLog.write_eq_put h, rfl⟩, rfl⟩⟩

end Delegation

namespace Ledger

variable {l : Ledger} {plan : Plan}

/-! ### The ledger afterwards -/

/-- **The ledger after a plan was written.** -/
def written (l : Ledger) (owner : Address) (plan : Plan) (now : Timestamp) : Ledger where
  params := l.params
  stakes := BucketLogs.putAll now l.stakes plan.stakes
  delegation := {
    (match plan.delegate with
      | some target => l.delegation.pointed owner target now
      | none => l.delegation) with
    delegated := BucketLogs.putAll now l.delegation.delegated plan.delegated }
  total := plan.totalOf l
  totalLog := match plan.total with
    | some total => l.totalLog.put now total
    | none => l.totalLog
  lastPoint := now
  events := l.events

theorem totalLog_written (l : Ledger) (owner : Address) (plan : Plan) (now : Timestamp) :
    (l.written owner plan now).totalLog
      = (plan.total.map (l.totalLog.put now)).getD l.totalLog := by
  unfold written
  cases plan.total <;> rfl

/-- None of the logs that a plan writes to, apart from that of the pointer, has a
checkpoint later than now. -/
structure Writable (plan : Plan) (now : Timestamp) (l : Ledger) : Prop where
  stakes : ∀ s ∈ plan.stakes.keys, (BucketLogs.log l.stakes s.account s.bucket).NotAfter now
  delegated : ∀ s ∈ plan.delegated.keys,
    (BucketLogs.log l.delegation.delegated s.account s.bucket).NotAfter now
  total : plan.total.isSome → l.totalLog.NotAfter now

/-- A log in which something was just written takes another write at the same point. -/
theorem notAfter_log_put {α : Type} {m : BucketLogs α} {slot s : Slot} {value : α}
    (h : (m.log s.account s.bucket).NotAfter now) :
    ((m.put now slot value).log s.account s.bucket).NotAfter now := by
  rw [BucketLogs.log_put]
  split
  · exact CheckpointLog.notAfter_put _ _ _
  · exact h

/-! ### The writes one by one -/

theorem writeStake_eq_ok {slot : Slot} {stake : StakePoint}
    (h : (BucketLogs.log l.stakes slot.account slot.bucket).NotAfter now) :
    writeStake slot stake now l
      = .ok () { l with stakes := BucketLogs.put now l.stakes slot stake } :=
  Call.bind_eq_ok.2 ⟨l, l, rfl,
    Call.bind_eq_ok.2 ⟨_, l, Call.lift_eq_ok.2 ⟨CheckpointLog.write_eq_put h, rfl⟩, rfl⟩⟩

theorem writeTotal_eq_ok {total : Amount} (h : l.totalLog.NotAfter now) :
    writeTotal total now l = .ok () { l with totalLog := l.totalLog.put now total, total } :=
  Call.bind_eq_ok.2 ⟨l, l, rfl,
    Call.bind_eq_ok.2 ⟨_, l, Call.lift_eq_ok.2 ⟨CheckpointLog.write_eq_put h, rfl⟩, rfl⟩⟩

/-- **All stakes of a plan are written**, one slot after the other. -/
theorem writeStakes_eq_ok (h : Writable plan now l) :
    Call.forEach plan.stakes.entries (fun (slot, stake) => writeStake slot stake now) l
      = .ok () { l with stakes := BucketLogs.putAll now l.stakes plan.stakes } := by
  have hloop := (Call.forEach_of_step plan.stakes.entries
    (fun (slot, stake) => writeStake slot stake now)
    (fun l => ∀ s ∈ plan.stakes.keys, (BucketLogs.log l.stakes s.account s.bucket).NotAfter now)
    (fun e l => { l with stakes := BucketLogs.put now l.stakes e.1 e.2 })
    (fun e he l hl => ⟨writeStake_eq_ok (hl e.1 (List.mem_map_of_mem he)),
      fun s hs => notAfter_log_put (hl s hs)⟩) h.stakes).1
  rw [hloop]
  exact congrArg _ (List.foldl_hom (fun stakes => { l with stakes }) fun _ _ => rfl)

/-- **All attributed amounts of a plan are written**, one slot after the other. -/
theorem writeAmounts_eq_ok (h : Writable plan now l) :
    Call.forEach plan.delegated.entries (fun (slot, amount) =>
        onDelegation (Delegation.writeDelegated slot.account slot.bucket now amount)) l
      = .ok () { l with
          delegation := { l.delegation with
            delegated := BucketLogs.putAll now l.delegation.delegated plan.delegated } } := by
  have hloop := (Call.forEach_of_step plan.delegated.entries
    (fun (slot, amount) =>
      onDelegation (Delegation.writeDelegated slot.account slot.bucket now amount))
    (fun l => ∀ s ∈ plan.delegated.keys,
      (BucketLogs.log l.delegation.delegated s.account s.bucket).NotAfter now)
    (fun e l => { l with
      delegation := { l.delegation with
        delegated := BucketLogs.put now l.delegation.delegated e.1 e.2 } })
    (fun e he l hl => ⟨Call.part_eq_ok.2 ⟨_,
        Delegation.writeDelegated_eq_ok (hl e.1 (List.mem_map_of_mem he)), rfl⟩,
      fun s hs => notAfter_log_put (hl s hs)⟩) h.delegated).1
  rw [hloop]
  exact congrArg _ (List.foldl_hom
    (fun delegated => { l with delegation := { l.delegation with delegated } }) fun _ _ => rfl)

/-- What a plan writes apart from the pointer of its owner. -/
def writeLogs (plan : Plan) (now : Timestamp) : Call StakingError Ledger Unit := do
  Call.forEach plan.stakes.entries fun (slot, stake) => writeStake slot stake now
  Call.forEach plan.delegated.entries fun (slot, amount) =>
    onDelegation (Delegation.writeDelegated slot.account slot.bucket now amount)
  match plan.total with
  | some total => writeTotal total now
  | none => pure ()
  modify fun l => { l with lastPoint := now }

theorem writeLogs_eq_ok (owner : Address) (h : Writable plan now l) :
    writeLogs plan now l = .ok () (l.written owner { plan with delegate := none } now) := by
  refine Call.bind_eq_ok.2 ⟨(), _, writeStakes_eq_ok h,
    Call.bind_eq_ok.2 ⟨(), _, writeAmounts_eq_ok ⟨?_, h.delegated, h.total⟩, ?_⟩⟩
  · -- what has been written does not stand in the way of what follows
    intro s hs
    rw [BucketLogs.log_putAll]
    split
    · exact CheckpointLog.notAfter_put _ _ _
    · exact h.stakes s hs
  · unfold written Plan.totalOf
    cases htotal : plan.total with
    | none => rfl
    | some total =>
      exact Call.bind_eq_ok.2 ⟨(), _, writeTotal_eq_ok (h.total (htotal ▸ rfl)), rfl⟩

/-! ### The check in front -/

theorem toNat_max (a b : Timestamp) : (max a b).toNat = max a.toNat b.toNat := by
  show (if a.toNat ≤ b.toNat then b else a).toNat = _
  split <;> omega

theorem le_foldl_max (points : List Timestamp) (start : Timestamp) :
    start ≤ points.foldl max start ∧ ∀ point ∈ points, point ≤ points.foldl max start := by
  induction points generalizing start with
  | nil =>
    refine ⟨Nat.le_refl _, ?_⟩
    intro point hpoint
    cases hpoint
  | cons a rest ih =>
    obtain ⟨hstart, hrest⟩ := ih (max start a)
    have hstart : (max start a).toNat ≤ (rest.foldl max (max start a)).toNat := hstart
    rw [toNat_max] at hstart
    refine ⟨show start.toNat ≤ (rest.foldl max (max start a)).toNat by omega, ?_⟩
    intro point hpoint
    rcases List.mem_cons.1 hpoint with rfl | hpoint
    · exact show point.toNat ≤ (rest.foldl max (max start point)).toNat by omega
    · exact hrest point hpoint

/-- The greatest point of a list is not exceeded by any of its members. -/
theorem le_of_max? {points : List Timestamp} {newest : Timestamp} (h : points.max? = some newest) :
    ∀ point ∈ points, point ≤ newest := by
  cases points with
  | nil => cases h
  | cons a rest =>
    cases h
    intro point hpoint
    rcases List.mem_cons.1 hpoint with rfl | hpoint
    · exact (le_foldl_max rest point).1
    · exact (le_foldl_max rest a).2 point hpoint

/-- The greatest point of a list is one of its members. -/
theorem mem_of_max? {points : List Timestamp} {newest : Timestamp}
    (h : points.max? = some newest) : newest ∈ points := by
  have hmax : Std.MaxEqOr Timestamp := ⟨fun a b => by
    show (if a ≤ b then b else a) = a ∨ (if a ≤ b then b else a) = b
    split
    · exact Or.inr rfl
    · exact Or.inl rfl⟩
  exact List.max?_mem h

/-- **The check in front of the writes** covers every log that a plan writes to. -/
theorem writable_of_newestPoints (h : ∀ point ∈ plan.newestPoints l owner, point ≤ now) :
    Writable plan now l ∧ (plan.delegate.isSome → (l.delegation.historyOf owner).NotAfter now) := by
  have hmem : ∀ {x : Option Timestamp} {point : Timestamp}, x = some point →
      x ∈ (plan.delegate.bind fun _ => l.delegation.lastChange? owner)
        :: ((plan.stakes.keys.map fun s =>
              ((l.checkpoints? s.account s.bucket).bind (·.latest?)).map (·.point))
            ++ (plan.delegated.keys.map fun s => l.delegation.lastAttribution? s.account s.bucket)
            ++ [plan.total.bind fun _ => l.totalLog.latest?.map (·.point)]) →
      point ≤ now := fun hx hm => h _ (List.mem_filterMap.2 ⟨_, hm, hx⟩)
  -- a log that is written to has its newest point among those that are looked at
  refine ⟨⟨fun s hs c hc => ?_, fun s hs c hc => ?_, fun htotal c hc => ?_⟩,
    fun hdelegate c hc => ?_⟩
  · refine hmem (x := ((l.checkpoints? s.account s.bucket).bind (·.latest?)).map (·.point)) ?_ ?_
    · unfold checkpoints?
      rw [BucketLogs.bind_log rfl, hc]
      rfl
    · exact List.mem_cons_of_mem _ (List.mem_append_left _ (List.mem_append_left _
        (List.mem_map_of_mem hs)))
  · refine hmem (x := l.delegation.lastAttribution? s.account s.bucket) ?_ ?_
    · unfold Delegation.lastAttribution? Delegation.log?
      rw [BucketLogs.bind_log rfl, hc]
      rfl
    · exact List.mem_cons_of_mem _ (List.mem_append_left _ (List.mem_append_right _
        (List.mem_map_of_mem hs)))
  · refine hmem (x := plan.total.bind fun _ => l.totalLog.latest?.map (·.point)) ?_ ?_
    · obtain ⟨total, e⟩ := Option.isSome_iff_exists.1 htotal
      rw [e, hc]
      rfl
    · exact List.mem_cons_of_mem _ (List.mem_append_right _ List.mem_cons_self)
  · refine hmem (x := plan.delegate.bind fun _ => l.delegation.lastChange? owner) ?_
      List.mem_cons_self
    obtain ⟨target, e⟩ := Option.isSome_iff_exists.1 hdelegate
    unfold Delegation.historyOf OrderedMap.getD at hc
    unfold Delegation.lastChange?
    cases hlog : l.delegation.history.get? owner with
    | none => simp [hlog, CheckpointLog.latest?, CheckpointLog.empty] at hc
    | some log =>
      rw [hlog] at hc
      simp only [e, Option.bind_some]
      exact congrArg (Option.map (·.point)) hc

/-! ### A plan as a whole -/

/-- The writes of a plan without the check in front of them. -/
def writeAll (owner : Address) (plan : Plan) (now : Timestamp) : Call StakingError Ledger Unit :=
  match plan.delegate with
  | some target => do
    let _ ← onDelegation (Delegation.setDelegate owner target now)
    writeLogs plan now
  | none => writeLogs plan now

theorem commit_eq (owner : Address) (plan : Plan) (now : Timestamp) (l : Ledger) :
    commit owner plan now l
      = match (plan.newestPoints l owner).max? with
        | some newest =>
          if now < newest then .error (.recordBehind now newest) l else writeAll owner plan now l
        | none => writeAll owner plan now l := by
  unfold commit writeAll
  show (match (plan.newestPoints l owner).max? with
    | some newest => _
    | none => _ : Call StakingError Ledger Unit) l = _
  cases hmax : (plan.newestPoints l owner).max? with
  | none => cases plan.delegate <;> rfl
  | some newest =>
    by_cases hlt : now < newest
    · simp only [if_pos hlt]
      rfl
    · simp only [if_neg hlt]
      cases plan.delegate <;> rfl

theorem written_pointed (hdelegate : plan.delegate = some target) :
    { l with delegation := l.delegation.pointed owner target now }.written owner
        { plan with delegate := none } now = l.written owner plan now := by
  unfold written Plan.totalOf
  rw [hdelegate]
  simp

/-- Without a new delegate, all writes succeed. -/
theorem writeAll_of_none (owner : Address) (h : Writable plan now l)
    (hdelegate : plan.delegate = none) :
    writeAll owner plan now l = .ok () (l.written owner plan now) := by
  have hplan : { plan with delegate := none } = plan := by rw [← hdelegate]
  have hlogs := writeLogs_eq_ok owner h
  unfold writeAll
  rw [hdelegate]
  rwa [hplan] at hlogs

/-- Nothing is written if the pointer may not be moved. -/
theorem writeAll_eq_error (hdelegate : plan.delegate = some target)
    (hparties : (owner.isZero || target.isZero) = true) :
    writeAll owner plan now l = .error .zeroDelegation l := by
  unfold writeAll
  rw [hdelegate]
  exact Call.bind_eq_error.2 (Or.inl
    (Call.part_eq_error.2 ⟨_, _, Delegation.setDelegate_eq_error hparties, rfl, rfl⟩))

/-- **All writes succeed** if the pointer may be moved. -/
theorem writeAll_eq_ok (h : Writable plan now l)
    (hhistory : plan.delegate.isSome → (l.delegation.historyOf owner).NotAfter now)
    (hparties : ∀ target, plan.delegate = some target → (owner.isZero || target.isZero) = false) :
    writeAll owner plan now l = .ok () (l.written owner plan now) := by
  cases hdelegate : plan.delegate with
  | none => exact writeAll_of_none owner h hdelegate
  | some target =>
    unfold writeAll
    rw [hdelegate]
    obtain ⟨previous, hpointed⟩ :=
      Delegation.setDelegate_eq_ok (hparties target hdelegate) (hhistory (hdelegate ▸ rfl))
    refine Call.bind_eq_ok.2 ⟨previous, _, Call.part_eq_ok.2 ⟨_, hpointed, rfl⟩, ?_⟩
    -- moving the pointer touches no other log, so the rest is written as without it
    rw [← written_pointed hdelegate]
    refine writeLogs_eq_ok owner ⟨h.stakes, fun s hs => ?_, h.total⟩
    rw [Delegation.delegated_pointed]
    exact h.delegated s hs

theorem writeAll_spec (h : Writable plan now l)
    (hhistory : plan.delegate.isSome → (l.delegation.historyOf owner).NotAfter now) :
    writeAll owner plan now l = .ok () (l.written owner plan now) ∨
      ∃ e, writeAll owner plan now l = .error e l := by
  by_cases hparties : ∃ target, plan.delegate = some target ∧ (owner.isZero || target.isZero) = true
  · obtain ⟨target, hdelegate, hzero⟩ := hparties
    exact Or.inr ⟨_, writeAll_eq_error hdelegate hzero⟩
  · refine Or.inl (writeAll_eq_ok h hhistory fun target hdelegate => ?_)
    exact Bool.eq_false_iff.2 fun hzero => hparties ⟨target, hdelegate, hzero⟩

/-- **A plan is written as a whole or not at all.** -/
theorem commit_spec (owner : Address) (plan : Plan) (now : Timestamp) (l : Ledger) :
    commit owner plan now l = .ok () (l.written owner plan now) ∨
      ∃ e, commit owner plan now l = .error e l := by
  rw [commit_eq]
  cases hmax : (plan.newestPoints l owner).max? with
  | none =>
    have hnil := List.max?_eq_none_iff.1 hmax
    have hpoints : ∀ point ∈ plan.newestPoints l owner, point ≤ now :=
      fun point hpoint => absurd (hnil ▸ hpoint) List.not_mem_nil
    obtain ⟨h, hhistory⟩ := writable_of_newestPoints hpoints
    exact writeAll_spec h hhistory
  | some newest =>
    by_cases hlt : now < newest
    · exact Or.inr ⟨.recordBehind now newest, if_pos hlt⟩
    · have hle : newest.toNat ≤ now.toNat := Nat.le_of_not_lt hlt
      have hpoints : ∀ point ∈ plan.newestPoints l owner, point ≤ now :=
        fun point hpoint => Nat.le_trans (le_of_max? hmax point hpoint) hle
      obtain ⟨h, hhistory⟩ := writable_of_newestPoints hpoints
      simp only [if_neg hlt]
      exact writeAll_spec h hhistory

/-- **What is planned is carried out as a whole or not at all.** -/
theorem carryOut_spec {α : Type} (owner : Address) (now : Timestamp) (planned : Planned α)
    (l : Ledger) :
    carryOut owner now planned l
        = .ok planned.result
            { l.written owner planned.plan now with events := l.events ++ planned.events } ∨
      ∃ e, carryOut owner now planned l = .error e l := by
  rcases commit_spec owner planned.plan now l with h | ⟨e, h⟩
  · exact Or.inl (Call.bind_eq_ok.2 ⟨(), _, h, rfl⟩)
  · exact Or.inr ⟨e, Call.bind_eq_error.2 (Or.inl h)⟩

end Ledger

end StakeGovernance
