import StakeGovernance.Proofs.Alike
import StakeGovernance.Proofs.Reports

/-!
# Two plans at one point, in either order

A plan that is written at the point of the plan before it overwrites what that one has just
written, instead of adding to the logs. So what two plans of different owners leave in a log
that both of them write to is one checkpoint, in either order; and its value is the same
because the books agree in the end: the stakes, which each owner has written alone, settle
what every delegatee is attributed, and what the total is.

* `StakeGovernance.CheckpointLog.put_put` – a write that **overwrites** the one before it;
* `StakeGovernance.BucketLogs.interchange` – **two rows of writes** at one point;
* `StakeGovernance.Delegation.pointed_comm` – **two pointers** that move;
* `StakeGovernance.Ledger.sameFor_written` – what one owner writes, **another one does not
  see**;
* `StakeGovernance.Ledger.written_comm` – two plans of **different owners**, on a whole ledger.
-/

namespace StakeGovernance

variable {α : Type} {now point : Timestamp}

/-! ### Logs -/

/-- **A write at the point of the write before** takes its place. -/
theorem CheckpointLog.put_put (log : CheckpointLog α) (point : Timestamp) (v w : α) :
    (log.put point v).put point w = log.put point w := by
  have hagain : ∀ front : List (Checkpoint α),
      CheckpointLog.put ⟨front ++ [⟨point, v⟩]⟩ point w = ⟨front ++ [⟨point, w⟩]⟩ := by
    intro front
    simp [CheckpointLog.put, CheckpointLog.latest?]
  unfold CheckpointLog.put
  cases log.latest? with
  | none => exact hagain []
  | some last =>
    by_cases hpoint : point = last.point
    · simp only [if_pos hpoint]
      exact hagain log.entries.dropLast
    · simp only [if_neg hpoint]
      exact hagain log.entries

namespace BucketLogs

variable {m n : BucketLogs α} {account : Address} {bucket : Timestamp}

/-- The log of a bucket, if there is one. -/
def log? (m : BucketLogs α) (account : Address) (bucket : Timestamp) : Option (CheckpointLog α) :=
  (m.get? account).bind (·.get? bucket)

theorem log_eq (m : BucketLogs α) (account : Address) (bucket : Timestamp) :
    m.log account bucket = (m.log? account bucket).getD .empty := by
  unfold log log? OrderedMap.getD
  cases m.get? account <;> rfl

/-- **Logs are the same** if the same accounts have buckets, and these have the same logs. -/
theorem ext_log? (haccounts : ∀ a, m.contains a = true ↔ n.contains a = true)
    (hlogs : ∀ a b, m.log? a b = n.log? a b) : m = n := by
  refine OrderedMap.ext_get? fun a => ?_
  have haccount := haccounts a
  have hlog := hlogs a
  unfold OrderedMap.contains at haccount
  unfold log? at hlog
  cases hm : m.get? a with
  | none =>
    cases hn : n.get? a with
    | none => rfl
    | some buckets => simp [hm, hn] at haccount
  | some buckets =>
    cases hn : n.get? a with
    | none => simp [hm, hn] at haccount
    | some buckets' =>
      simp only [hm, hn, Option.bind_some] at hlog
      exact congrArg some (OrderedMap.ext_get? hlog)

theorem log?_put (m : BucketLogs α) (slot : Slot) (value : α) (account : Address)
    (bucket : Timestamp) :
    (m.put now slot value).log? account bucket
      = if (⟨account, bucket⟩ : Slot) = slot
        then some ((m.log slot.account slot.bucket).put now value)
        else m.log? account bucket := by
  obtain ⟨a, b⟩ := slot
  unfold put log log?
  simp only [Slot.mk.injEq]
  rw [OrderedMap.get?_insert_eq]
  by_cases ha : account = a
  · subst ha
    rw [if_pos rfl, Option.bind_some, OrderedMap.get?_insert_eq]
    by_cases hb : bucket = b
    · rw [if_pos hb, if_pos ⟨rfl, hb⟩]
    · rw [if_neg hb, if_neg fun h => hb h.2]
      unfold OrderedMap.getD
      cases m.get? account <;> rfl
  · rw [if_neg ha, if_neg fun h => ha h.1]

/-- **A row of writes** makes the logs that it writes to. -/
theorem log?_putAll (m : BucketLogs α) (writes : OrderedMap Slot α) (account : Address)
    (bucket : Timestamp) :
    (m.putAll now writes).log? account bucket
      = match writes.get? ⟨account, bucket⟩ with
        | some value => some ((m.log account bucket).put now value)
        | none => m.log? account bucket := by
  rw [log_eq]
  exact OrderedMap.foldl_view (fun (m : BucketLogs α) (s : Slot) => m.log? s.account s.bucket)
    (fun slot value m => m.put now slot value)
    (fun value log => some ((log.getD .empty).put now value))
    (fun m slot value s => by rw [m.log?_put, log_eq]) writes m ⟨account, bucket⟩

/-- **The accounts that have buckets** after a row of writes. -/
theorem contains_putAll (m : BucketLogs α) (writes : OrderedMap Slot α) (account : Address) :
    (m.putAll now writes).contains account = true ↔
      m.contains account = true ∨ ∃ s, writes.contains s = true ∧ s.account = account := by
  have hentries : (∃ s, writes.contains s = true ∧ s.account = account) ↔
      ∃ e ∈ writes.entries, e.1.account = account := by
    constructor
    · rintro ⟨s, hs, haccount⟩
      obtain ⟨value, hvalue⟩ := Option.isSome_iff_exists.1 hs
      exact ⟨(s, value), OrderedMap.get?_eq_some_iff.1 hvalue, haccount⟩
    · rintro ⟨⟨s, value⟩, he, haccount⟩
      exact ⟨s, Option.isSome_iff_exists.2 ⟨value, OrderedMap.get?_eq_some_iff.2 he⟩, haccount⟩
  rw [hentries]
  unfold putAll
  generalize writes.entries = entries
  -- the entries are written one by one, and each may be the first of its account
  induction entries generalizing m with
  | nil => simp
  | cons e rest ih =>
    have hput : (m.put now e.1 e.2).contains account = true ↔
        m.contains account = true ∨ e.1.account = account := by
      unfold put OrderedMap.contains
      simp only [OrderedMap.get?_insert_eq]
      by_cases ha : account = e.1.account
      · simp [ha]
      · have hother : ¬ e.1.account = account := fun h => ha h.symm
        simp [ha, hother]
    rw [List.foldl_cons]
    refine (ih _).trans ?_
    rw [hput]
    simp only [List.mem_cons, exists_eq_or_imp, or_assoc]

/-- A row of writes leaves other accounts alone. -/
theorem get?_putAll_of_other (m : BucketLogs α) {writes : OrderedMap Slot α}
    (h : ∀ s, writes.contains s = true → s.account ≠ account) :
    (m.putAll now writes).get? account = m.get? account := by
  have hentries : ∀ e ∈ writes.entries, e.1.account ≠ account := fun e he =>
    h e.1 (Option.isSome_iff_exists.2 ⟨e.2, OrderedMap.get?_eq_some_iff.2 he⟩)
  unfold putAll
  generalize writes.entries = entries at hentries
  induction entries generalizing m with
  | nil => rfl
  | cons e rest ih =>
    rw [List.foldl_cons, ih _ fun d hd => hentries d (List.mem_cons_of_mem _ hd)]
    unfold put
    exact (OrderedMap.get?_insert_eq ..).trans (if_neg (hentries e List.mem_cons_self).symm)

/-- What two rows of writes at one point leave: of two writes to a bucket the second one. -/
theorem log?_putAll_putAll (m : BucketLogs α) (first second : OrderedMap Slot α)
    (account : Address) (bucket : Timestamp) :
    ((m.putAll now first).putAll now second).log? account bucket
      = match (second.get? ⟨account, bucket⟩).or (first.get? ⟨account, bucket⟩) with
        | some value => some ((m.log account bucket).put now value)
        | none => m.log? account bucket := by
  rw [log?_putAll, log?_putAll, log_putAll]
  cases second.get? ⟨account, bucket⟩ with
  | none => cases first.get? ⟨account, bucket⟩ <;> rfl
  | some w =>
    cases first.get? ⟨account, bucket⟩ with
    | none => rfl
    | some v => exact congrArg some (CheckpointLog.put_put _ _ _ _)

/-- **Two rows of writes at one point**, in either order: they leave the same logs if they write
to the same buckets each time, and the last values that they write are the same. -/
theorem interchange {first first' second second' : OrderedMap Slot α}
    (hfirst : ∀ s, first'.contains s = first.contains s)
    (hsecond : ∀ s, second'.contains s = second.contains s)
    (hlast : ∀ s v w, (second'.get? s).or (first.get? s) = some v →
      (first'.get? s).or (second.get? s) = some w → v = w) (m : BucketLogs α) :
    (m.putAll now first).putAll now second' = (m.putAll now second).putAll now first' := by
  refine ext_log? (fun a => ?_) fun a b => ?_
  · simp only [contains_putAll, hfirst, hsecond]
    rw [or_assoc, or_assoc, or_comm (a := ∃ s, first.contains s = true ∧ s.account = a)]
  · rw [log?_putAll_putAll, log?_putAll_putAll]
    have hwritten : ((second'.get? ⟨a, b⟩).or (first.get? ⟨a, b⟩)).isSome
        = ((first'.get? ⟨a, b⟩).or (second.get? ⟨a, b⟩)).isSome := by
      rw [Option.isSome_or, Option.isSome_or, Bool.or_comm]
      exact congrArg₂ or (hfirst ⟨a, b⟩).symm (hsecond ⟨a, b⟩)
    have hvalues := hlast ⟨a, b⟩
    cases hv : (second'.get? ⟨a, b⟩).or (first.get? ⟨a, b⟩) with
    | none =>
      cases hw : (first'.get? ⟨a, b⟩).or (second.get? ⟨a, b⟩) with
      | none => rfl
      | some w => simp [hv, hw] at hwritten
    | some v =>
      cases hw : (first'.get? ⟨a, b⟩).or (second.get? ⟨a, b⟩) with
      | none => simp [hv, hw] at hwritten
      | some w =>
        rw [hvalues v w hv hw]

end BucketLogs

/-! ### Pointers -/

namespace Delegation

variable {a b x y : Address}

/-- The entry of a pointer, which an owner that is its own delegate does not have. -/
def repoint (current : OrderedMap Address Address) (owner target : Address) :
    OrderedMap Address Address :=
  if target = owner then current.erase owner else current.insert owner target

theorem get?_repoint (current : OrderedMap Address Address) (owner target o : Address) :
    (repoint current owner target).get? o
      = if o = owner then (if target = owner then none else some target) else current.get? o := by
  unfold repoint
  split
  · exact OrderedMap.get?_erase_eq ..
  · exact OrderedMap.get?_insert_eq ..

theorem repoint_comm (hne : a ≠ b) (current : OrderedMap Address Address) :
    repoint (repoint current a x) b y = repoint (repoint current b y) a x := by
  refine OrderedMap.ext_get? fun o => ?_
  simp only [get?_repoint]
  by_cases ha : o = a
  · rw [if_pos ha, if_pos ha, if_neg (ha ▸ hne)]
  · rw [if_neg ha, if_neg ha]

/-- A pointer that has to move. -/
theorem pointed_of_ne {d : Delegation} {owner target : Address} (h : d.delegateOf owner ≠ target) :
    d.pointed owner target now = { d with
      history := d.history.insert owner ((d.historyOf owner).put now target)
      current := repoint d.current owner target } := if_neg h

/-- **Pointers of different owners** move in either order. -/
theorem pointed_comm (hne : a ≠ b) (d : Delegation) :
    (d.pointed a x now).pointed b y now = (d.pointed b y now).pointed a x now := by
  have ha : (d.pointed b y now).delegateOf a = d.delegateOf a := by
    rw [delegateOf_pointed, if_neg hne]
  have hb : (d.pointed a x now).delegateOf b = d.delegateOf b := by
    rw [delegateOf_pointed, if_neg hne.symm]
  by_cases hx : d.delegateOf a = x
  · rw [show d.pointed a x now = d from if_pos hx,
      show (d.pointed b y now).pointed a x now = d.pointed b y now from if_pos (ha.trans hx)]
  by_cases hy : d.delegateOf b = y
  · rw [show d.pointed b y now = d from if_pos hy,
      show (d.pointed a x now).pointed b y now = d.pointed a x now from if_pos (hb.trans hy)]
  have hax : (d.pointed b y now).delegateOf a ≠ x := by
    rw [ha]
    exact hx
  have hby : (d.pointed a x now).delegateOf b ≠ y := by
    rw [hb]
    exact hy
  rw [pointed_of_ne hby, pointed_of_ne hax, pointed_of_ne hx, pointed_of_ne hy]
  have hhistory : ∀ {o o' : Address} (log : CheckpointLog Address), o' ≠ o →
      (d.history.insert o log).getD o' .empty = d.historyOf o' := fun log ho =>
    (OrderedMap.getD_insert_eq ..).trans (if_neg ho)
  unfold historyOf
  simp only [hhistory _ hne, hhistory _ hne.symm]
  rw [OrderedMap.insert_comm hne, repoint_comm hne]
  rfl

/-- The registry after the pointer of an owner has moved, if there is a new delegate. -/
def redirected (d : Delegation) (owner : Address) (delegate : Option Address) (now : Timestamp) :
    Delegation :=
  match delegate with
  | some target => d.pointed owner target now
  | none => d

theorem redirected_comm (hne : a ≠ b) (d : Delegation) (first second : Option Address) :
    (d.redirected a first now).redirected b second now
      = (d.redirected b second now).redirected a first now := by
  cases first with
  | none => rfl
  | some x =>
    cases second with
    | none => rfl
    | some y => exact pointed_comm hne d

/-- Pointers do not look at attributed amounts. -/
theorem redirected_delegated (d : Delegation) (delegated : BucketLogs Amount) (owner : Address)
    (delegate : Option Address) :
    ({ d with delegated } : Delegation).redirected owner delegate now
      = { d.redirected owner delegate now with delegated } := by
  cases delegate with
  | none => rfl
  | some target =>
    show ({ d with delegated } : Delegation).pointed owner target now
      = { d.pointed owner target now with delegated }
    by_cases hsame : d.delegateOf owner = target
    · rw [show d.pointed owner target now = d from if_pos hsame]
      exact if_pos hsame
    · rw [pointed_of_ne hsame]
      exact if_neg hsame

end Delegation

/-! ### Ledgers -/

namespace Ledger

variable {l m : Ledger} {a b : Address} {P P' Q Q' : Plan}

/-- **What one owner writes, another one does not see.** -/
theorem sameFor_written (h : P.Alike a P') (hne : a ≠ b) (l : Ledger) (now : Timestamp) :
    SameFor b l (l.written a P now) where
  params := rfl
  stakes := BucketLogs.get?_putAll_of_other l.stakes fun s hs => by
    rw [h.owned s hs]
    exact hne
  delegate := by rw [delegateOf_written, if_neg hne.symm]

/-- The stakes that two owners write are different ones. -/
theorem stakes_comm (h : P.Alike a P') (h' : Q.Alike b Q') (hne : a ≠ b) (l : Ledger)
    (now : Timestamp) :
    ((l.written a P now).written b Q' now).stakes
      = ((l.written b Q now).written a P' now).stakes := by
  refine BucketLogs.interchange (fun s => by rw [h.stakes]) (fun s => by rw [h'.stakes])
    (fun s v w hv hw => ?_) l.stakes
  rw [h'.stakes] at hv
  rw [h.stakes] at hw
  -- no slot belongs to both owners, so one of the two values is the only one
  cases hP : P.stakes.get? s with
  | none =>
    rw [hP] at hv hw
    exact Option.some.inj (hv.symm.trans ((Option.or_none).trans (Option.none_or.symm.trans hw)))
  | some x =>
    cases hQ : Q.stakes.get? s with
    | none =>
      rw [hP, hQ] at hv hw
      exact Option.some.inj (hv.symm.trans hw)
    | some y =>
      have ha := h.owned s (Option.isSome_iff_exists.2 ⟨x, hP⟩)
      have hb := h'.owned s (Option.isSome_iff_exists.2 ⟨y, hQ⟩)
      exact absurd (ha.symm.trans hb) hne

/-- **What two plans leave attributed** is the same in either order, because it is what the
stakes come to. -/
theorem delegated_comm (h : P.Alike a P') (h' : Q.Alike b Q') (hne : a ≠ b) (hl : l.Sound)
    (hclock : l.lastPoint ≤ now)
    (hPQ : ((l.written a P now).written b Q' now).Sound)
    (hQP : ((l.written b Q now).written a P' now).Sound) :
    ((l.written a P now).written b Q' now).delegation.delegated
      = ((l.written b Q now).written a P' now).delegation.delegated := by
  -- a value that was written last is read at the point of the writes
  have hread : ∀ (first second : OrderedMap Slot Amount) (s : Slot) (v : Amount),
      (second.get? s).or (first.get? s) = some v →
      BucketLogs.reading Word.toNat
        ((BucketLogs.putAll now l.delegation.delegated first).putAll now second)
        s.account s.bucket now = v.toNat := by
    intro first second s v hv
    have hlog : ((BucketLogs.putAll now l.delegation.delegated first).putAll now second).log
        s.account s.bucket
          = (BucketLogs.log l.delegation.delegated s.account s.bucket).put now v := by
      rw [BucketLogs.log_eq, BucketLogs.log?_putAll_putAll,
        show (second.get? ⟨s.account, s.bucket⟩).or (first.get? ⟨s.account, s.bucket⟩) = some v
          from hv]
      rfl
    have hnow : now ≤ now := Nat.le_refl _
    unfold BucketLogs.reading
    rw [hlog, ((hl.delegated.mono hclock) s.account s.bucket).valueAt_put, if_pos hnow]
    rfl
  refine BucketLogs.interchange h.delegated h'.delegated (fun s v w hv hw => Word.ext ?_)
    l.delegation.delegated
  calc v.toNat
      = BucketLogs.reading Word.toNat ((l.written a P now).written b Q' now).delegation.delegated
          s.account s.bucket now := (hread P.delegated Q'.delegated s v hv).symm
    _ = BucketLogs.reading Word.toNat ((l.written b Q now).written a P' now).delegation.delegated
          s.account s.bucket now := by
        rw [hPQ.attributed, hQP.attributed, stakes_comm h h' hne]
    _ = w.toNat := hread Q.delegated P'.delegated s w hw

/-- The total is what the stakes come to. -/
theorem total_comm (h : P.Alike a P') (h' : Q.Alike b Q') (hne : a ≠ b)
    (hPQ : ((l.written a P now).written b Q' now).Sound)
    (hQP : ((l.written b Q now).written a P' now).Sound) :
    ((l.written a P now).written b Q' now).total
      = ((l.written b Q now).written a P' now).total := by
  refine Word.ext ?_
  rw [← hPQ.total now (Nat.le_refl _), ← hQP.total now (Nat.le_refl _), hPQ.counted, hQP.counted,
    stakes_comm h h' hne]

/-- The history of the total after two plans: if one of them has changed the total, what it has
become is written at their point. -/
theorem totalLog_written_written (l : Ledger) (a b : Address) (P Q : Plan) (now : Timestamp) :
    ((l.written a P now).written b Q now).totalLog
      = if P.total.isSome || Q.total.isSome
        then l.totalLog.put now ((l.written a P now).written b Q now).total else l.totalLog := by
  rw [totalLog_written, totalLog_written]
  show _ = if P.total.isSome || Q.total.isSome
    then l.totalLog.put now (Q.total.getD (P.total.getD l.total)) else l.totalLog
  cases P.total with
  | none => cases Q.total <;> rfl
  | some x =>
    cases Q.total with
    | none => rfl
    | some y => exact CheckpointLog.put_put _ _ _ _

theorem totalLog_comm (h : P.Alike a P') (h' : Q.Alike b Q') (hne : a ≠ b)
    (hPQ : ((l.written a P now).written b Q' now).Sound)
    (hQP : ((l.written b Q now).written a P' now).Sound) :
    ((l.written a P now).written b Q' now).totalLog
      = ((l.written b Q now).written a P' now).totalLog := by
  rw [totalLog_written_written, totalLog_written_written, total_comm h h' hne hPQ hQP, h.total,
    h'.total, Bool.or_comm]

/-- The registry after two plans: attributed amounts are written beside the pointers. -/
theorem delegation_written_written (l : Ledger) (a b : Address) (P Q : Plan) (now : Timestamp) :
    ((l.written a P now).written b Q now).delegation
      = { (l.delegation.redirected a P.delegate now).redirected b Q.delegate now with
          delegated := ((l.written a P now).written b Q now).delegation.delegated } := by
  let moved := l.delegation.redirected a P.delegate now
  have hredirected : ({ moved with delegated := (l.written a P now).delegation.delegated }
      : Delegation).redirected b Q.delegate now = { moved.redirected b Q.delegate now with
        delegated := (l.written a P now).delegation.delegated } :=
    Delegation.redirected_delegated ..
  exact congrArg (fun d : Delegation => { d with
    delegated := ((l.written a P now).written b Q now).delegation.delegated }) hredirected

/-- **Two plans of different owners at one point** leave the same ledger in either order. What is
planned second was planned on what the first has left, so its numbers are different ones in each
order; all that is needed of them is that the books agree in the end. -/
theorem written_comm (h : P.Alike a P') (h' : Q.Alike b Q') (hne : a ≠ b) (hl : l.Sound)
    (hclock : l.lastPoint ≤ now)
    (hPQ : ((l.written a P now).written b Q' now).Sound)
    (hQP : ((l.written b Q now).written a P' now).Sound) :
    (l.written a P now).written b Q' now = (l.written b Q now).written a P' now := by
  have hdelegation : ((l.written a P now).written b Q' now).delegation
      = ((l.written b Q now).written a P' now).delegation := by
    rw [delegation_written_written l a b P Q' now, delegation_written_written l b a Q P' now,
      delegated_comm h h' hne hl hclock hPQ hQP, h.delegate, h'.delegate,
      Delegation.redirected_comm hne]
  show Ledger.mk _ ((l.written a P now).written b Q' now).stakes
      ((l.written a P now).written b Q' now).delegation
      ((l.written a P now).written b Q' now).total
      ((l.written a P now).written b Q' now).totalLog now l.events = _
  rw [stakes_comm h h' hne, hdelegation, total_comm h h' hne hPQ hQP,
    totalLog_comm h h' hne hPQ hQP]
  rfl

end Ledger

end StakeGovernance
