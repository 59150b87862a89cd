import Mathlib.Data.List.Basic
import Mathlib.Order.Bounds.Defs
import StakeGovernance.Proofs.Calls
import StakeGovernance.Proofs.Readings

/-!
# What a log recalls of its writes

Whoever writes to a log need not know what is in it. A write that comes too late is refused, and a
second write at the newest point takes the place of the first, so that a log holds less than was
ever written to it. What it reads can be said without a look at its checkpoints all the same, from
the writes that it has accepted: of those up to a point the largest point decides, and of the writes
at that point the last one.

What makes this work is that accepted writes never go back in time. The write that was accepted
last is at the largest point of all, and it is the newest checkpoint. So of the writes up to a
point, too, the last one is at the largest point, and a log reads its value.

* `StakeGovernance.CheckpointLog.enter` – a write **in place**, which may be refused;
* `StakeGovernance.CheckpointLog.enter_cases` – the two things it **can do**;
* `StakeGovernance.CheckpointLog.History` – a log and the writes it has **accepted**;
* `StakeGovernance.CheckpointLog.History.InEffect` – the accepted write that is **in effect** at a
  point;
* `StakeGovernance.CheckpointLog.History.Kept` – **the invariant** of a history;
* `StakeGovernance.CheckpointLog.recalls_accepted_writes` – what a log reads after **any row of
  attempts**.
-/

namespace StakeGovernance.CheckpointLog

variable {α : Type} {log : CheckpointLog α} {c d newest : Checkpoint α}
  {t : Timestamp}

/-! ### Writes in place -/

/-- **A write in place**: the log becomes what the write makes of it. -/
def enter (c : Checkpoint α) : Call StakingError (CheckpointLog α) Unit := do
  let log ← get
  set (← log.write c.point c.value)

/-- **What a write in place can do**: it enters the checkpoint, or it is refused because of a newer
one and leaves the log as it was. -/
theorem enter_cases (log : CheckpointLog α) (c : Checkpoint α) :
    (log.NotAfter c.point ∧ enter c log = .ok () (log.put c.point c.value)) ∨
      ∃ newest, log.latest? = some newest ∧ c.point < newest.point ∧
        enter c log = .error (.checkpointOrder c.point newest.point) log := by
  by_cases hlate : ∃ newest, log.latest? = some newest ∧ c.point < newest.point
  · obtain ⟨newest, hnewest, hlt⟩ := hlate
    have hwrite : log.write c.point c.value
        = .error (.checkpointOrder c.point newest.point) := by
      rw [write, hnewest]
      exact if_pos hlt
    exact .inr ⟨newest, hnewest, hlt, Call.lift_bind_eq_error.2 (.inl ⟨hwrite, rfl⟩)⟩
  · have hafter : log.NotAfter c.point := fun newest hnewest =>
      Nat.not_lt.1 fun hlt => hlate ⟨newest, hnewest, hlt⟩
    exact .inl ⟨hafter, Call.lift_bind_eq_ok.2 ⟨_, write_eq_put hafter, rfl⟩⟩

/-! ### Ascending checkpoints -/

/-- Where points do not descend, **none is later than the last one**. -/
theorem le_newest {items : List (Checkpoint α)} (h : items.Pairwise fun a b => a.point ≤ b.point)
    (hnewest : items.getLast? = some newest) : ∀ c ∈ items, c.point ≤ newest.point := by
  obtain ⟨front, rfl⟩ := List.getLast?_eq_some_iff.1 hnewest
  intro c hc
  rcases List.mem_append.1 hc with hfront | hend
  · exact (List.pairwise_append.1 h).2.2 c hfront newest List.mem_cons_self
  · obtain rfl : c = newest := List.mem_singleton.1 hend
    exact Nat.le_refl _

/-- So a bound of the last point, where there is one, is **a bound of them all**. -/
theorem le_of_newest_le {items : List (Checkpoint α)}
    (h : items.Pairwise fun a b => a.point ≤ b.point)
    (hle : ∀ newest, items.getLast? = some newest → newest.point ≤ t) :
    ∀ c ∈ items, c.point ≤ t := by
  intro c hc
  have hnewest := List.getLast?_eq_some_getLast (List.ne_nil_of_mem hc)
  exact Nat.le_trans (le_newest h hnewest c hc) (hle _ hnewest)

/-- **At most one point is the greatest.** -/
theorem eq_of_isGreatest {S : Set Timestamp} {p q : Timestamp} (hp : IsGreatest S p)
    (hq : IsGreatest S q) : p = q := Word.ext (Nat.le_antisymm (hq.2 hp.1) (hp.2 hq.1))

/-- Of an ordered log, only the newest checkpoint need be looked at. -/
theorem Ordered.upTo_of_notAfter (h : log.Ordered) (hafter : log.NotAfter t) :
    log.OrderedUpTo t :=
  ⟨h, le_of_newest_le (h.imp fun hlt => Nat.le_of_lt hlt) hafter⟩

/-! ### Histories -/

/-- **A log and the writes it has accepted**, the first one first. -/
structure History (α : Type) where
  log : CheckpointLog α
  accepted : List (Checkpoint α)

namespace History

variable {hist : History α}

/-- An attempt to write: what becomes of the log, and whether the write counts as accepted. -/
def attempt (hist : History α) (c : Checkpoint α) : History α :=
  match enter c hist.log with
  | .ok _ log => ⟨log, hist.accepted ++ [c]⟩
  | .error _ log => ⟨log, hist.accepted⟩

/-- **The history of a row of attempts** to write to the empty log. -/
def ofAttempts (attempts : List (Checkpoint α)) : History α := attempts.foldl attempt ⟨.empty, []⟩

/-- The points of the accepted writes. -/
def points (hist : History α) : Set Timestamp := {p | ∃ c ∈ hist.accepted, c.point = p}

/-- The accepted writes up to a point. -/
def upTo (hist : History α) (t : Timestamp) : List (Checkpoint α) :=
  hist.accepted.filter fun c => decide (c.point ≤ t)

/-- **The accepted write in effect at a point**: its point is the largest one up to there, and it is
the last of the writes at its point. -/
structure InEffect (hist : History α) (t : Timestamp) (c : Checkpoint α) : Prop where
  largest : IsGreatest {p ∈ hist.points | p ≤ t} c.point
  last : (hist.accepted.filter fun w => decide (w.point = c.point)).getLast? = some c

/-- **The invariant of a history.** The log is ordered and its newest checkpoint is the write that
was accepted last; accepted writes do not go back in time; and the log reads, at a point, the last
of them up to there. -/
structure Kept (hist : History α) : Prop where
  ordered : hist.log.Ordered
  ascending : hist.accepted.Pairwise fun a b => a.point ≤ b.point
  latest : hist.log.latest? = hist.accepted.getLast?
  reads : ∀ t, hist.log.valueAt t = (hist.upTo t).getLast?.map (·.value)

/-! ### One attempt -/

theorem kept_empty : (⟨.empty, []⟩ : History α).Kept := by
  have hordered := (OrderedUpTo.empty (α := α) .zero).ordered
  refine ⟨hordered, List.Pairwise.nil, rfl, fun t => ?_⟩
  rw [hordered.valueAt_eq]
  rfl

/-- What may still be entered is **not before any accepted write**. -/
theorem Kept.le_of_notAfter (h : hist.Kept) (hafter : hist.log.NotAfter t) :
    ∀ c ∈ hist.accepted, c.point ≤ t :=
  le_of_newest_le h.ascending fun newest hnewest => hafter newest (h.latest.trans hnewest)

/-- **An accepted write** keeps the invariant. -/
theorem Kept.accept (h : hist.Kept) (hafter : hist.log.NotAfter c.point) :
    (⟨hist.log.put c.point c.value, hist.accepted ++ [c]⟩ : History α).Kept := by
  have hupTo := h.ordered.upTo_of_notAfter hafter
  refine ⟨(hupTo.put c.value).ordered, ?_, ?_, fun t => ?_⟩
  · refine List.pairwise_append.2 ⟨h.ascending, List.pairwise_singleton _ _, fun w hw d hd => ?_⟩
    obtain rfl : d = c := List.mem_singleton.1 hd
    exact h.le_of_notAfter hafter w hw
  · rw [latest?_put, List.getLast?_concat]
  · -- from its point on, the write that was accepted last is what the log reads
    rw [hupTo.valueAt_put, upTo, List.filter_append]
    split
    · rename_i hle
      rw [List.filter_cons_of_pos (by simpa using hle), List.filter_nil, List.getLast?_concat]
      rfl
    · rename_i hle
      rw [List.filter_cons_of_neg (by simpa using hle), List.filter_nil, List.append_nil]
      exact h.reads t

/-- **Every attempt keeps the invariant**, accepted or refused. -/
theorem Kept.attempt (h : hist.Kept) (c : Checkpoint α) : (hist.attempt c).Kept := by
  rcases enter_cases hist.log c with ⟨hafter, hcall⟩ | ⟨newest, -, -, hcall⟩
  · rw [History.attempt, hcall]
    exact h.accept hafter
  · rw [History.attempt, hcall]
    exact h

/-! ### A row of attempts -/

/-- **A row of attempts** keeps the invariant. -/
theorem Kept.foldl (h : hist.Kept) (attempts : List (Checkpoint α)) :
    (attempts.foldl History.attempt hist).Kept := by
  induction attempts generalizing hist with
  | nil => exact h
  | cons c rest ih => exact ih (h.attempt c)

/-! ### What the invariant says -/

/-- The newest checkpoint is at **the largest accepted point**. -/
theorem Kept.isGreatest (h : hist.Kept) (hnewest : hist.log.latest? = some newest) :
    IsGreatest hist.points newest.point := by
  rw [h.latest] at hnewest
  refine ⟨⟨newest, List.mem_of_getLast? hnewest, rfl⟩, ?_⟩
  rintro _ ⟨c, hc, rfl⟩
  exact le_newest h.ascending hnewest c hc

/-- **A write is refused** just if there is a later accepted point, and it changes nothing. -/
theorem Kept.enter_eq_error_iff (h : hist.Kept) {e : StakingError} :
    enter c hist.log = .error e log ↔ log = hist.log ∧
      ∃ p, IsGreatest hist.points p ∧ c.point < p ∧ e = .checkpointOrder c.point p := by
  rcases enter_cases hist.log c with ⟨hafter, hcall⟩ | ⟨newest, hnewest, hlt, hcall⟩
  · rw [hcall]
    constructor
    · rintro ⟨⟩
    · rintro ⟨-, p, ⟨⟨w, hw, rfl⟩, -⟩, hlt, -⟩
      exact absurd hlt (Nat.not_lt.2 (h.le_of_notAfter hafter w hw))
  · have hgreatest := h.isGreatest hnewest
    rw [hcall]
    constructor
    · rintro ⟨⟩
      exact ⟨rfl, _, hgreatest, hlt, rfl⟩
    · rintro ⟨rfl, p, hp, -, rfl⟩
      obtain rfl : newest.point = p := eq_of_isGreatest hgreatest hp
      rfl

/-- **The last write up to a point is in effect** there, because accepted writes do not go back in
time. -/
theorem Kept.inEffect_of_last (h : hist.Kept) (hc : (hist.upTo t).getLast? = some c) :
    hist.InEffect t c := by
  have hmem := List.mem_of_getLast? hc
  rw [upTo, List.mem_filter] at hmem
  obtain ⟨haccepted, hdue⟩ := hmem
  refine ⟨⟨⟨⟨c, haccepted, rfl⟩, of_decide_eq_true hdue⟩, ?_⟩, ?_⟩
  · rintro _ ⟨⟨w, hw, rfl⟩, hle⟩
    exact le_newest (h.ascending.filter _) hc w (List.mem_filter.2 ⟨hw, decide_eq_true hle⟩)
  · -- the writes at its point are all up to `t`, so it is the last of them, too
    have hsame : hist.accepted.filter (fun w => decide (w.point = c.point))
        = (hist.upTo t).filter fun w => decide (w.point = c.point) := by
      rw [upTo, List.filter_filter]
      refine List.filter_congr fun w _ => ?_
      by_cases hpoint : w.point = c.point
      · rw [hpoint, hdue, Bool.and_true]
      · rw [decide_eq_false hpoint, Bool.false_and]
    obtain ⟨front, hfront⟩ := List.getLast?_eq_some_iff.1 hc
    rw [hsame, hfront, List.filter_append, List.filter_cons_of_pos (by simp), List.filter_nil,
      List.getLast?_concat]

/-- **At most one write is in effect** at a point. -/
theorem InEffect.unique (hc : hist.InEffect t c) (hd : hist.InEffect t d) : c = d := by
  have hpoint : c.point = d.point := eq_of_isGreatest hc.largest hd.largest
  have hlast := hc.last
  rw [hpoint, hd.last] at hlast
  exact (Option.some.inj hlast).symm

/-- Nothing was accepted up to a point if **no accepted point** is there. -/
theorem getLast?_upTo_eq_none_iff :
    (hist.upTo t).getLast? = none ↔ ¬ ∃ p ∈ hist.points, p ≤ t := by
  rw [List.getLast?_eq_none_iff, upTo, List.filter_eq_nil_iff]
  constructor
  · rintro hnone ⟨_, ⟨w, hw, rfl⟩, hle⟩
    exact hnone w hw (decide_eq_true hle)
  · intro hnone w hw hle
    exact hnone ⟨w.point, ⟨w, hw, rfl⟩, of_decide_eq_true hle⟩

/-- **The write in effect** at a point is the last one up to there. -/
theorem Kept.getLast?_upTo_eq_some_iff (h : hist.Kept) :
    (hist.upTo t).getLast? = some c ↔ hist.InEffect t c := by
  refine ⟨h.inEffect_of_last, fun hc => ?_⟩
  cases hlast : (hist.upTo t).getLast? with
  | none => exact absurd ⟨c.point, hc.largest.1⟩ (getLast?_upTo_eq_none_iff.1 hlast)
  | some d => rw [(h.inEffect_of_last hlast).unique hc]

end History

/-! ### What a log recalls -/

/-- **A log recalls the writes it has accepted**, after any row of attempts. Its checkpoints ascend
strictly. A write is refused just if it is before the largest accepted point, and then nothing
changes. At every point the log reads the value of the write in effect there, and nothing if no
accepted point is up to there; the search and the scan read the same. -/
theorem recalls_accepted_writes (attempts : List (Checkpoint α)) :
    let hist := History.ofAttempts attempts
    hist.log.Ordered ∧
    (∀ c e log, enter c hist.log = .error e log ↔ log = hist.log ∧
      ∃ p, IsGreatest hist.points p ∧ c.point < p ∧ e = .checkpointOrder c.point p) ∧
    (∀ t value, hist.log.valueAt t = some value ↔ ∃ c, hist.InEffect t c ∧ c.value = value) ∧
    (∀ t, hist.log.valueAt t = none ↔ ¬ ∃ p ∈ hist.points, p ≤ t) ∧
    ∀ t, hist.log.valueAtLinear t = hist.log.valueAt t := by
  intro hist
  have h : hist.Kept := History.kept_empty.foldl attempts
  refine ⟨h.ordered, fun c e log => h.enter_eq_error_iff, fun t value => ?_, fun t => ?_,
    fun t => (h.ordered.valueAt_eq_valueAtLinear t).symm⟩
  · rw [h.reads, Option.map_eq_some_iff]
    exact exists_congr fun c => and_congr_left' h.getLast?_upTo_eq_some_iff
  · rw [h.reads, Option.map_eq_none_iff, History.getLast?_upTo_eq_none_iff]

-- the write at 15 comes too late, and the second one at 20 takes the place of the first
example :
    let hist := History.ofAttempts [⟨.ofNat 10, 1⟩, ⟨.ofNat 20, 2⟩, ⟨.ofNat 15, 9⟩, ⟨.ofNat 20, 3⟩]
    hist.accepted.map Checkpoint.value = [1, 2, 3] ∧ hist.log.size = 2 ∧
      hist.log.valueAt (.ofNat 19) = some 1 ∧ hist.log.valueAt (.ofNat 20) = some 3 := by
  decide +kernel

end StakeGovernance.CheckpointLog
