import StakeGovernance.Proofs.Planning

/-!
# Sound ledgers

The books of a ledger agree at every point of time: what is attributed to a delegatee in a
bucket is what the stakes in that bucket come to that name the delegatee, and the total is
the sum of all stakes. A ledger starts out so, and no call changes it, because a call only
writes plans that are in balance, at a point that no log has passed.

* `StakeGovernance.Ledger.Sound` – the **books agree**, now and at every point;
* `StakeGovernance.Ledger.Advances` – a ledger **goes on** by a plan in balance, or stays;
* `StakeGovernance.Ledger.Sound.advances` – no call makes a sound ledger **unsound**;
* `StakeGovernance.Ledger.Plans`, `StakeGovernance.Ledger.Move.apply_cases` – what **any call**
  writes, and that nothing else changes the books;
* `StakeGovernance.Ledger.Reachable` – the ledgers that **calls lead to**, which are sound
  (`StakeGovernance.Ledger.Reachable.sound`).
-/

namespace StakeGovernance

/-- The amount of a stake as a number. -/
def StakePoint.size (s : StakePoint) : Nat := s.amount.toNat

namespace Ledger

variable {l m : Ledger} {owner target : Address} {now point : Timestamp} {plan : Plan}

/-- **The books of a ledger agree** at every point. -/
structure Sound (l : Ledger) : Prop where
  /-- No log has a checkpoint later than the latest point at which anything changed. -/
  stakes : BucketLogs.OrderedUpTo l.stakes l.lastPoint
  delegated : BucketLogs.OrderedUpTo l.delegation.delegated l.lastPoint
  history : ∀ o, (l.delegation.historyOf o).OrderedUpTo l.lastPoint
  totals : l.totalLog.OrderedUpTo l.lastPoint
  /-- What is attributed is what the stakes come to. -/
  attributed : ∀ d b point, BucketLogs.reading Word.toNat l.delegation.delegated d b point
    = ∑ o, BucketLogs.reading (StakePoint.share d) l.stakes o b point
  /-- The total is the sum of all stakes. -/
  counted : ∀ point, (l.totalStakedAt point).toNat
    = ∑ o, ∑ b, BucketLogs.reading StakePoint.size l.stakes o b point
  total : ∀ point, l.lastPoint ≤ point → l.totalStakedAt point = l.total

/-! ### Plans on a sound ledger -/

/-- A number that is nothing for empty stakes is read off the newest stake. -/
theorem latestStake_eq {f : StakePoint → Nat} (hf : ∀ d, f ⟨.zero, d⟩ = 0) (l : Ledger)
    (owner : Address) (bucket : Timestamp) :
    f (l.latestStake owner bucket) = BucketLogs.newest f l.stakes owner bucket := by
  unfold latestStake checkpoints? BucketLogs.newest
  rw [BucketLogs.bind_log rfl]
  cases (BucketLogs.log l.stakes owner bucket).latest? with
  | none => exact hf _
  | some c => rfl

theorem amount_eq (l : Ledger) (delegatee : Address) (bucket : Timestamp) :
    (l.delegation.amount delegatee bucket).toNat
      = BucketLogs.newest Word.toNat l.delegation.delegated delegatee bucket := by
  unfold Delegation.amount Delegation.log? BucketLogs.newest
  rw [BucketLogs.bind_log rfl]
  cases (BucketLogs.log l.delegation.delegated delegatee bucket).latest? <;> rfl

theorem stakeOf_eq {f : StakePoint → Nat} (hf : ∀ d, f ⟨.zero, d⟩ = 0) (plan : Plan) (l : Ledger)
    (owner : Address) (bucket : Timestamp) :
    f (plan.stakeOf l owner bucket) = ((plan.stakes.get? ⟨owner, bucket⟩).map f).getD
      (BucketLogs.newest f l.stakes owner bucket) := by
  unfold Plan.stakeOf OrderedMap.getD
  cases plan.stakes.get? ⟨owner, bucket⟩ with
  | none => exact latestStake_eq hf l owner bucket
  | some stake => rfl

theorem amountOf_eq (plan : Plan) (l : Ledger) (delegatee : Address) (bucket : Timestamp) :
    (plan.amountOf l delegatee bucket).toNat
      = ((plan.delegated.get? ⟨delegatee, bucket⟩).map Word.toNat).getD
        (BucketLogs.newest Word.toNat l.delegation.delegated delegatee bucket) := by
  unfold Plan.amountOf OrderedMap.getD
  cases plan.delegated.get? ⟨delegatee, bucket⟩ with
  | none => exact amount_eq l delegatee bucket
  | some amount => rfl

theorem share_zero (d e : Address) : StakePoint.share d ⟨.zero, e⟩ = 0 :=
  StakePoint.share_of_amount rfl d

theorem size_zero (e : Address) : StakePoint.size ⟨.zero, e⟩ = 0 := rfl

/-- What a number is read as on a sound ledger from its latest point on. -/
theorem Sound.reading_stakes {f : StakePoint → Nat} (hf : ∀ d, f ⟨.zero, d⟩ = 0) (h : l.Sound)
    (hle : l.lastPoint ≤ point) (owner : Address) (bucket : Timestamp) :
    BucketLogs.reading f l.stakes owner bucket point = f (l.latestStake owner bucket) := by
  rw [latestStake_eq hf, h.stakes.reading_of_le hle]

/-- **A sound ledger is in balance now.** -/
theorem Sound.balanced (h : l.Sound) : Plan.empty.Balanced l := by
  have hle : l.lastPoint ≤ l.lastPoint := Nat.le_refl _
  refine ⟨fun d b => ?_, ?_⟩
  · show (l.delegation.amount d b).toNat = ∑ o, (l.latestStake o b).share d
    rw [amount_eq, ← h.delegated.reading_of_le hle, h.attributed]
    exact Finset.sum_congr rfl fun o _ => h.reading_stakes (share_zero d) hle o b
  · show l.total.toNat = ∑ o, ∑ b, (l.latestStake o b).size
    rw [← h.total _ hle, h.counted]
    exact Finset.sum_congr rfl fun o _ => Finset.sum_congr rfl fun b _ =>
      h.reading_stakes size_zero hle o b

/-! ### Readings of a written plan -/

theorem Sound.stakes_written {f : StakePoint → Nat} (hf : ∀ d, f ⟨.zero, d⟩ = 0) (h : l.Sound)
    (hclock : l.lastPoint ≤ now) (o : Address) (b : Timestamp) :
    BucketLogs.reading f (l.written owner plan now).stakes o b point
      = if now ≤ point then f (plan.stakeOf l o b)
        else BucketLogs.reading f l.stakes o b point := by
  rw [stakeOf_eq hf]
  exact (h.stakes.mono hclock).reading_putAll plan.stakes o b point

theorem Sound.delegated_written (h : l.Sound) (hclock : l.lastPoint ≤ now) (d : Address)
    (b : Timestamp) :
    BucketLogs.reading Word.toNat (l.written owner plan now).delegation.delegated d b point
      = if now ≤ point then (plan.amountOf l d b).toNat
        else BucketLogs.reading Word.toNat l.delegation.delegated d b point := by
  rw [amountOf_eq]
  exact (h.delegated.mono hclock).reading_putAll plan.delegated d b point

theorem Sound.total_written (h : l.Sound) (hclock : l.lastPoint ≤ now) :
    (l.written owner plan now).totalStakedAt point
      = if now ≤ point then plan.totalOf l else l.totalStakedAt point := by
  unfold totalStakedAt Plan.totalOf
  rw [totalLog_written]
  cases plan.total with
  | none =>
    show l.totalStakedAt point = if now ≤ point then l.total else l.totalStakedAt point
    split
    · rename_i hle
      exact h.total point (Nat.le_trans hclock hle)
    · rfl
  | some total =>
    show ((l.totalLog.put now total).valueAt point).getD .zero = _
    rw [(h.totals.mono hclock).valueAt_put]
    split <;> rfl

theorem Sound.history_written (h : l.Sound) (hclock : l.lastPoint ≤ now) (o : Address) :
    ((l.written owner plan now).delegation.historyOf o).OrderedUpTo now := by
  have ho := (h.history o).mono hclock
  unfold written
  cases plan.delegate with
  | none => exact ho
  | some target =>
    rcases l.delegation.historyOf_pointed owner target now o with e | e
    · exact (show Delegation.historyOf _ o = _ from e) ▸ ho
    · exact (show Delegation.historyOf _ o = _ from e) ▸ ho.put target

/-- **A plan in balance keeps a ledger sound.** -/
theorem Sound.written (h : l.Sound) (hclock : l.lastPoint ≤ now) (hplan : plan.Balanced l) :
    (l.written owner plan now).Sound where
  stakes := (h.stakes.mono hclock).putAll plan.stakes
  delegated := (h.delegated.mono hclock).putAll plan.delegated
  history := h.history_written hclock
  totals := by
    show (l.written owner plan now).totalLog.OrderedUpTo now
    rw [totalLog_written]
    cases plan.total with
    | none => exact h.totals.mono hclock
    | some total => exact (h.totals.mono hclock).put total
  attributed d b point := by
    rw [h.delegated_written hclock]
    simp only [h.stakes_written (share_zero d) hclock]
    split
    · exact hplan.attributed d b
    · exact h.attributed d b point
  counted point := by
    rw [h.total_written hclock]
    simp only [h.stakes_written size_zero hclock]
    split
    · exact hplan.counted
    · exact h.counted point
  total point hle := by
    rw [h.total_written hclock]
    exact if_pos hle

/-! ### Calls -/

/-- What is not noticed yet has no part in the books. -/
theorem Sound.withEvents (h : l.Sound) (events : List StakingEvent) :
    ({ l with events } : Ledger).Sound :=
  ⟨h.stakes, h.delegated, h.history, h.totals, h.attributed, h.counted, h.total⟩

/-- **What a call at a point comes down to**: it leaves the books alone, or it writes a plan
that is in balance. -/
inductive Advances (now : Timestamp) (l : Ledger) : Ledger → Prop where
  | stay (events : List StakingEvent) : Advances now l { l with events }
  | write (owner : Address) (plan : Plan) (events : List StakingEvent)
      (hclock : l.lastPoint ≤ now) (hplan : plan.Balanced l) :
      Advances now l { l.written owner plan now with events }

/-- **No call makes a sound ledger unsound.** -/
theorem Sound.advances (h : l.Sound) (ha : Advances now l m) : m.Sound := by
  cases ha with
  | stay events => exact h.withEvents events
  | write owner plan events hclock hplan => exact (h.written hclock hplan).withEvents events

variable {amount additional released : Amount} {source bucket unlock : Timestamp}
  {receipt : StakeReceipt} {previous : Option Address} {e : StakingError}

/-- **A stake** raises the total by its amount. -/
theorem Sound.stake_eq_ok (h : l.Sound)
    (hcall : stake owner amount unlock target now l = .ok receipt m) :
    Advances now l m ∧ m.total.toNat = l.total.toNat + amount.toNat := by
  obtain ⟨planned, hplanned, -, rfl⟩ := planned_eq_ok hcall
  obtain ⟨hbalanced, hclock, htotal⟩ := planStake_spec h.balanced hplanned
  exact ⟨.write owner planned.plan _ hclock hbalanced, htotal⟩

theorem stake_eq_error (hcall : stake owner amount unlock target now l = .error e m) : m = l :=
  planned_eq_error hcall

/-- **An extension** raises the total by what is added. -/
theorem Sound.extend_eq_ok (h : l.Sound)
    (hcall : extend owner source unlock additional now l = .ok receipt m) :
    Advances now l m ∧ m.total.toNat = l.total.toNat + additional.toNat := by
  obtain ⟨planned, hplanned, -, rfl⟩ := planned_eq_ok hcall
  obtain ⟨hbalanced, hclock, htotal⟩ := planExtend_spec h.balanced hplanned
  exact ⟨.write owner planned.plan _ hclock hbalanced, htotal⟩

theorem extend_eq_error (hcall : extend owner source unlock additional now l = .error e m) :
    m = l := planned_eq_error hcall

/-- **A withdrawal** lowers the total by what is given back. -/
theorem Sound.withdraw_eq_ok (h : l.Sound)
    (hcall : withdraw owner bucket now l = .ok released m) :
    Advances now l m ∧ m.total.toNat + released.toNat = l.total.toNat := by
  obtain ⟨planned, hplanned, rfl, rfl⟩ := planned_eq_ok hcall
  obtain ⟨hbalanced, hclock, htotal⟩ := planWithdraw_spec h.balanced hplanned
  exact ⟨.write owner planned.plan _ hclock hbalanced, htotal⟩

theorem withdraw_eq_error (hcall : withdraw owner bucket now l = .error e m) : m = l :=
  planned_eq_error hcall

/-- **A delegation** leaves the total alone. -/
theorem Sound.delegate_eq_ok (h : l.Sound)
    (hcall : delegate owner target now l = .ok previous m) :
    Advances now l m ∧ m.total = l.total := by
  rcases delegate_spec owner target now l with ⟨-, h'⟩ | ⟨e, h'⟩ | ⟨planned, hplanned, h'⟩
  · cases hcall.symm.trans h'
    exact ⟨.stay l.events, rfl⟩
  · cases hcall.symm.trans h'
  · cases hcall.symm.trans h'
    obtain ⟨hbalanced, hclock, htotal⟩ := planDelegate_spec h.balanced hplanned
    exact ⟨.write owner planned.plan _ hclock hbalanced, htotal⟩

theorem delegate_eq_error (hcall : delegate owner target now l = .error e m) : m = l := by
  rcases delegate_spec owner target now l with ⟨-, h'⟩ | ⟨e, h'⟩ | ⟨planned, -, h'⟩
  · cases hcall.symm.trans h'
  · cases hcall.symm.trans h'
    rfl
  · cases hcall.symm.trans h'

/-! ### Ledgers that calls lead to -/

/-- **A call on the ledger** with its arguments. -/
inductive Move where
  | stake (owner : Address) (amount : Amount) (unlock : Timestamp) (target : Address)
      (now : Timestamp)
  | extend (owner : Address) (source unlock : Timestamp) (additional : Amount) (now : Timestamp)
  | withdraw (owner : Address) (bucket now : Timestamp)
  | delegate (owner target : Address) (now : Timestamp)
  | drainEvents

/-- The ledger that a call leaves behind, whether it succeeds or is rejected. -/
def Move.apply : Move → Ledger → Ledger
  | .stake owner amount unlock target now => (Ledger.stake owner amount unlock target now).after
  | .extend owner source unlock additional now =>
    (Ledger.extend owner source unlock additional now).after
  | .withdraw owner bucket now => (Ledger.withdraw owner bucket now).after
  | .delegate owner target now => (Ledger.delegate owner target now).after
  | .drainEvents => Ledger.drainEvents.after

/-- **The ledgers that calls lead to** from an empty ledger with sound parameters, by any
calls in any order. -/
inductive Reachable (params : StakingParams) : Ledger → Prop where
  | create {l : Ledger} (h : create params = .ok l) : Reachable params l
  | move {l : Ledger} (h : Reachable params l) (move : Move) : Reachable params (move.apply l)

theorem Reachable.moves {params : StakingParams} (h : Reachable params l) (moves : List Move) :
    Reachable params (moves.foldl (fun l move => move.apply l) l) := by
  induction moves generalizing l with
  | nil => exact h
  | cons move rest ih => exact ih (h.move move)

/-- **What one of the four calls writes**: the plan that it has made. -/
inductive Plans (l : Ledger) (owner : Address) (now : Timestamp) : Plan → Prop where
  | stake {amount : Amount} {unlock : Timestamp} {target : Address} {planned : Planned StakeReceipt}
    (h : l.planStake owner amount unlock target now = .ok planned) : Plans l owner now planned.plan
  | extend {source unlock : Timestamp} {additional : Amount} {planned : Planned StakeReceipt}
    (h : l.planExtend owner source unlock additional now = .ok planned) :
    Plans l owner now planned.plan
  | withdraw {bucket : Timestamp} {planned : Planned Amount}
    (h : l.planWithdraw owner bucket now = .ok planned) : Plans l owner now planned.plan
  | delegate {target : Address} {planned : Planned (Option Address)}
    (h : l.planDelegate owner target now = .ok (some planned)) : Plans l owner now planned.plan

/-- What a call writes it writes at a point that the ledger has not passed, and in balance. -/
theorem Plans.balanced (hplan : Plans l owner now plan) (h : l.Sound) :
    l.lastPoint ≤ now ∧ plan.Balanced l := by
  cases hplan with
  | stake hplan =>
    obtain ⟨hbalanced, hclock, -⟩ := planStake_spec h.balanced hplan
    exact ⟨hclock, hbalanced⟩
  | extend hplan =>
    obtain ⟨hbalanced, hclock, -⟩ := planExtend_spec h.balanced hplan
    exact ⟨hclock, hbalanced⟩
  | withdraw hplan =>
    obtain ⟨hbalanced, hclock, -⟩ := planWithdraw_spec h.balanced hplan
    exact ⟨hclock, hbalanced⟩
  | delegate hplan =>
    obtain ⟨hbalanced, hclock, -⟩ := planDelegate_spec h.balanced hplan
    exact ⟨hclock, hbalanced⟩

/-- A call that comes down to a plan leaves the ledger as it was, or writes the plan. -/
theorem planned_cases {α : Type} (planOf : Ledger → Except StakingError (Planned α))
    (owner : Address) (now : Timestamp) (l : Ledger)
    (hplan : ∀ planned, planOf l = .ok planned → Plans l owner now planned.plan) :
    let m := (do carryOut owner now (← planOf (← get)) : Call StakingError Ledger α).after l
    (∃ events, m = { l with events }) ∨
      ∃ owner now plan events, Plans l owner now plan ∧
        m = { l.written owner plan now with events } := by
  intro m
  rcases planned_spec planOf owner now l with ⟨planned, hplanned, hcall⟩ | ⟨e, hcall⟩
  · exact .inr ⟨owner, now, planned.plan, _, hplan planned hplanned, Call.after_of_ok hcall⟩
  · exact .inl ⟨l.events, Call.after_of_error hcall⟩

/-- **What any call comes to**: it leaves all but the reports as it was, or it writes what it has
planned. -/
theorem Move.apply_cases (move : Move) (l : Ledger) :
    (∃ events, move.apply l = { l with events }) ∨
      ∃ owner now plan events, Plans l owner now plan ∧
        move.apply l = { l.written owner plan now with events } := by
  cases move with
  | stake owner amount unlock target now =>
    exact planned_cases (·.planStake owner amount unlock target now) owner now l fun _ => .stake
  | extend owner source unlock additional now =>
    exact planned_cases (·.planExtend owner source unlock additional now) owner now l
      fun _ => .extend
  | withdraw owner bucket now =>
    exact planned_cases (·.planWithdraw owner bucket now) owner now l fun _ => .withdraw
  | delegate owner target now =>
    rcases delegate_spec owner target now l with
      ⟨-, hcall⟩ | ⟨e, hcall⟩ | ⟨planned, hplanned, hcall⟩
    · exact .inl ⟨l.events, Call.after_of_ok hcall⟩
    · exact .inl ⟨l.events, Call.after_of_error hcall⟩
    · exact .inr ⟨owner, now, planned.plan, _, .delegate hplanned, Call.after_of_ok hcall⟩
  | drainEvents => exact .inl ⟨[], rfl⟩

theorem Sound.apply (h : l.Sound) (move : Move) :
    ∃ now, Advances now l (move.apply l) := by
  rcases move.apply_cases l with ⟨events, hsame⟩ | ⟨owner, now, plan, events, hplan, hwritten⟩
  · exact ⟨l.lastPoint, hsame ▸ .stay events⟩
  · obtain ⟨hclock, hbalanced⟩ := hplan.balanced h
    exact ⟨now, hwritten ▸ .write owner plan events hclock hbalanced⟩

theorem sound_empty (params : StakingParams) : (empty params).Sound where
  stakes := .empty _
  delegated := .empty _
  history _ := .empty _
  totals := .empty _
  attributed _ _ _ := (Finset.sum_eq_zero fun _ _ => rfl).symm
  counted _ := (Finset.sum_eq_zero fun _ _ => Finset.sum_eq_zero fun _ _ => rfl).symm
  total _ _ := rfl

theorem sound_create {params : StakingParams} (h : create params = .ok l) : l.Sound := by
  obtain ⟨_, -, hl⟩ := Checked.bind_eq_ok.1 h
  cases hl
  exact sound_empty params

/-- **Ledgers that calls lead to are sound.** -/
theorem Reachable.sound {params : StakingParams} (h : Reachable params l) : l.Sound := by
  induction h with
  | create h => exact sound_create h
  | move _ move ih => exact ih.advances (ih.apply move).choose_spec

end Ledger

end StakeGovernance
