import StakeGovernance.Proofs.Soundness

/-!
# Rejected calls

A ledger that was read from data need not be one that calls lead to: its clock may lag its
logs, its logs may be out of order, and its books may disagree. A call on such a ledger is
rejected in more ways than on a sound one, but it is still carried out as a whole or not at
all. What decides is the check in front of the writes: it looks at the very logs that a plan is
going to write to, so that no write is refused once a plan has passed it.

* `StakeGovernance.Plan.newestPoints_le_iff` – the check covers **just the logs that are
  written to**;
* `StakeGovernance.Ledger.commit_accepted_iff` – **which plans are written**, on any ledger;
* `StakeGovernance.Ledger.unchanged_of_rejected` – **a rejected call changes nothing**, on
  any ledger.
-/

namespace StakeGovernance

open Ledger

variable {l m : Ledger} {plan : Plan} {owner : Address} {now : Timestamp}

/-! ### What the check covers -/

/-- Points are looked at where there is a newest checkpoint. -/
theorem map_point_le_iff {α : Type} {log : CheckpointLog α} :
    (∀ point, log.latest?.map (·.point) = some point → point ≤ now) ↔ log.NotAfter now := by
  constructor
  · intro h c hc
    exact h c.point (by rw [hc]; rfl)
  · intro h point hpoint
    obtain ⟨c, hc, rfl⟩ := Option.map_eq_some_iff.1 hpoint
    exact h c hc

/-- **The check covers just the logs that are written to**: the newest points are not later
than now if and only if no log that the plan writes to, the history of the pointer included,
has a checkpoint later than now. -/
theorem Plan.newestPoints_le_iff :
    (∀ point ∈ plan.newestPoints l owner, point ≤ now) ↔
      Writable plan now l ∧
        (plan.delegate.isSome → (l.delegation.historyOf owner).NotAfter now) := by
  refine ⟨writable_of_newestPoints, fun ⟨h, hhistory⟩ point hpoint => ?_⟩
  obtain ⟨_, hmem, rfl⟩ := List.mem_filterMap.1 hpoint
  -- each of the points that are looked at is that of a log which is written to
  rcases List.mem_cons.1 hmem with hpointer | hmem
  · obtain ⟨target, hdelegate, hlast⟩ := Option.bind_eq_some_iff.1 hpointer.symm
    have hlog := hhistory (hdelegate ▸ rfl)
    unfold Delegation.historyOf OrderedMap.getD at hlog
    unfold Delegation.lastChange? at hlast
    obtain ⟨c, hc, rfl⟩ := Option.map_eq_some_iff.1 hlast
    obtain ⟨log, hget, hlatest⟩ := Option.bind_eq_some_iff.1 hc
    rw [hget] at hlog
    exact hlog c hlatest
  rcases List.mem_append.1 hmem with hmem | htotal
  · rcases List.mem_append.1 hmem with hstake | hamount
    · obtain ⟨s, hs, hlast⟩ := List.mem_map.1 hstake
      unfold checkpoints? at hlast
      rw [BucketLogs.bind_log rfl] at hlast
      exact map_point_le_iff.2 (h.stakes s hs) point hlast
    · obtain ⟨s, hs, hlast⟩ := List.mem_map.1 hamount
      unfold Delegation.lastAttribution? Delegation.log? at hlast
      rw [BucketLogs.bind_log rfl] at hlast
      exact map_point_le_iff.2 (h.delegated s hs) point hlast
  · obtain ⟨total, hsome, hlast⟩ := Option.bind_eq_some_iff.1 (List.mem_singleton.1 htotal).symm
    exact map_point_le_iff.2 (h.total (hsome ▸ rfl)) point hlast

namespace Ledger

/-! ### Plans -/

/-- A plan that touches a log with a later checkpoint is refused before anything is
written. -/
theorem commit_eq_behind (h : ¬ ∀ point ∈ plan.newestPoints l owner, point ≤ now) :
    ∃ newest, commit owner plan now l = .error (.recordBehind now newest) l := by
  rw [commit_eq]
  cases hmax : (plan.newestPoints l owner).max? with
  | none =>
    have hnil := List.max?_eq_none_iff.1 hmax
    exact absurd (fun point hpoint => absurd (hnil ▸ hpoint) List.not_mem_nil) h
  | some newest =>
    by_cases hlt : now < newest
    · exact ⟨newest, if_pos hlt⟩
    · have hle : newest.toNat ≤ now.toNat := Nat.le_of_not_lt hlt
      exact absurd (fun point hpoint => Nat.le_trans (le_of_max? hmax point hpoint) hle) h

/-- A plan that passes the check is handed over to the writes. -/
theorem commit_eq_writeAll (h : ∀ point ∈ plan.newestPoints l owner, point ≤ now) :
    commit owner plan now l = writeAll owner plan now l := by
  rw [commit_eq]
  cases hmax : (plan.newestPoints l owner).max? with
  | none => rfl
  | some newest => exact if_neg (Nat.not_lt_of_le (h newest (mem_of_max? hmax)))

/-- **Which plans are written**, on any ledger: those that touch no log with a checkpoint
later than now, unless they name the zero address as an owner's new delegate, or as the owner
of one. Whether a plan is written does not depend on anything else that is in the ledger. -/
theorem commit_accepted_iff :
    commit owner plan now l = .ok () (l.written owner plan now) ↔
      (Writable plan now l ∧
        (plan.delegate.isSome → (l.delegation.historyOf owner).NotAfter now)) ∧
      ∀ target, plan.delegate = some target → (owner.isZero || target.isZero) = false := by
  rw [← Plan.newestPoints_le_iff]
  constructor
  · intro h
    have hpoints : ∀ point ∈ plan.newestPoints l owner, point ≤ now := by
      by_contra hbehind
      obtain ⟨newest, hrefused⟩ := commit_eq_behind hbehind
      cases h.symm.trans hrefused
    refine ⟨hpoints, fun target hdelegate => Bool.eq_false_iff.2 fun hzero => ?_⟩
    rw [commit_eq_writeAll hpoints, writeAll_eq_error hdelegate hzero] at h
    cases h
  · rintro ⟨hpoints, hparties⟩
    obtain ⟨hlogs, hhistory⟩ := Plan.newestPoints_le_iff.1 hpoints
    rw [commit_eq_writeAll hpoints]
    exact writeAll_eq_ok hlogs hhistory hparties

/-! ### Calls -/

/-- **A rejected call changes nothing**, on any ledger: whatever its clock, its logs and its
books are like, every call that fails leaves it as it was, down to the changes that nobody has
taken notice of yet. -/
theorem unchanged_of_rejected (l : Ledger) :
    (∀ owner amount unlock target now e m,
      stake owner amount unlock target now l = .error e m → m = l) ∧
    (∀ owner source unlock additional now e m,
      extend owner source unlock additional now l = .error e m → m = l) ∧
    (∀ owner bucket now e m, withdraw owner bucket now l = .error e m → m = l) ∧
    ∀ owner target now e m, delegate owner target now l = .error e m → m = l :=
  ⟨fun _ _ _ _ _ _ _ => stake_eq_error, fun _ _ _ _ _ _ _ => extend_eq_error,
    fun _ _ _ _ _ => withdraw_eq_error, fun _ _ _ _ _ => delegate_eq_error⟩

/-- A ledger whose clock was set back behind its logs. A stake that names a new delegate passes
every check of its plan and is refused by the logs; neither the pointer nor what is waiting to
be noticed is lost or added to. -/
theorem unchanged_of_rejected_behind :
    let alice : Address := ⟨List.replicate 20 1, rfl⟩
    let bob : Address := ⟨List.replicate 20 2, rfl⟩
    let call (delegate : Address) (now : Nat) : Call StakingError Ledger StakeReceipt :=
      stake alice (Word.ofNat 100) (.ofNat year) delegate (.ofNat now)
    let l : Ledger := { (call alice 1000).after (empty .default) with lastPoint := .zero }
    ((call bob 500).runFrom l).1 = .error (.recordBehind (.ofNat 500) (.ofNat 1000)) ∧
      ¬ l.events = [] ∧ (call bob 500).after l = l := by
  intro alice bob call l
  have hrefused : ((call bob 500).runFrom l).1
      = .error (.recordBehind (.ofNat 500) (.ofNat 1000)) := by decide +kernel
  refine ⟨hrefused, by decide +kernel, ?_⟩
  cases hcall : call bob 500 l with
  | ok receipt m =>
    rw [Call.runFrom, hcall] at hrefused
    cases hrefused
  | error e m =>
    rw [Call.after_of_error hcall]
    exact l.unchanged_of_rejected.1 _ _ _ _ _ _ _ hcall

end Ledger

end StakeGovernance
