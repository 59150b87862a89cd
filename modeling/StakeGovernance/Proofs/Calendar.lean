import StakeGovernance.Proofs.Locks
import StakeGovernance.Proofs.PowerBound

/-!
# Locks end as asked

The end of a lock is rounded down to a calendar that begins at the kickoff, and both checks of a
lock, that it ends after now and that it is not too long, are made on the end so rounded. So a lock
ends no later than asked, with one exception: an end before the kickoff is rounded to the kickoff,
which is up. Whoever asks for such an end while the kickoff is still ahead is locked until the
kickoff, even if the end that was asked for has passed already.

* `StakeGovernance.StakingParams.OnCalendar` – the **points of the calendar**;
* `StakeGovernance.StakingParams.quantize_cases` – where an end is **rounded down**, and where not;
* `StakeGovernance.StakingParams.Grants` – what is **granted** to a request;
* `StakeGovernance.Ledger.Reachable.locks_as_asked` – stakes and extensions lock **as asked**;
* `StakeGovernance.Ledger.locked_past_an_end_before_kickoff` – the **exception**.
-/

namespace StakeGovernance

/-! ### The calendar -/

namespace StakingParams

variable {p : StakingParams} {unlock now bucket t : Timestamp}

/-- **The points of the calendar**: the kickoff, and every so many seconds after it. -/
def OnCalendar (p : StakingParams) (b : Timestamp) : Prop :=
  ∃ k : ℕ, b.toNat = p.kickoff.toNat + k * p.bucketInterval.toNat

/-- **Rounding leads to the calendar.** -/
theorem onCalendar_quantize (p : StakingParams) (t : Timestamp) : p.OnCalendar (p.quantize t) := by
  show ∃ k, calendarFloor _ _ _ = _
  unfold calendarFloor
  split
  · exact ⟨0, by rw [Nat.zero_mul, Nat.add_zero]⟩
  · refine ⟨(t.toNat - p.kickoff.toNat) / p.bucketInterval.toNat, ?_⟩
    have hparts := Nat.div_add_mod' (t.toNat - p.kickoff.toNat) p.bucketInterval.toNat
    omega

/-- **A point is rounded down**, or it is before the kickoff and is rounded to the kickoff. -/
theorem quantize_cases (p : StakingParams) (t : Timestamp) :
    p.quantize t ≤ t ∨ t < p.kickoff ∧ p.quantize t = p.kickoff := by
  by_cases hearly : t < p.kickoff
  · exact .inr ⟨hearly, Word.ext (if_pos (Nat.le_of_lt hearly))⟩
  · left
    have hle : (p.quantize t).toNat ≤ max t.toNat p.kickoff.toNat := calendarFloor_le_max _ _ _
    rwa [Nat.max_eq_left (Nat.not_lt.1 hearly)] at hle

/-- A point that is over is rounded to one that is, once the calendar has begun. -/
theorem quantize_le (ht : t ≤ now) (hkickoff : p.kickoff ≤ now) : p.quantize t ≤ now := by
  rcases p.quantize_cases t with hle | ⟨-, hsame⟩
  · exact Nat.le_trans hle ht
  · rwa [hsame]

/-- **What is granted to a request** for a lock until `unlock`: a bucket that ends after now, no
further off than the longest lock, and no later than asked, but for an end before the kickoff, which
is granted at the kickoff. -/
structure Grants (p : StakingParams) (unlock now bucket : Timestamp) : Prop where
  live : now < bucket
  reach : bucket.toNat ≤ now.toNat + p.curve.maxDuration.toNat
  asked : bucket ≤ unlock ∨ unlock < p.kickoff ∧ bucket = p.kickoff

end StakingParams

/-! ### Requests -/

namespace Ledger

variable {l m : Ledger} {owner o target : Address} {source bucket unlock now x : Timestamp}
  {amount additional : Amount}

theorem grants_of_lockBucket (h : l.lockBucket unlock now = .ok bucket) :
    l.params.Grants unlock now bucket := by
  obtain ⟨rfl, hlive, hreach⟩ := lockBucket_eq_ok.1 h
  exact ⟨hlive, hreach, l.params.quantize_cases unlock⟩

/-- Once the calendar has begun, nothing is granted to a request whose end is over. -/
theorem lockBucket_ne_ok (hunlock : unlock ≤ now) (hkickoff : l.params.kickoff ≤ now) :
    l.lockBucket unlock now ≠ .ok bucket := by
  intro h
  obtain ⟨rfl, hlive, -⟩ := lockBucket_eq_ok.1 h
  exact absurd (StakingParams.quantize_le hunlock hkickoff) (Nat.not_le.2 hlive)

theorem grants_planStake {planned : Planned StakeReceipt}
    (h : l.planStake owner amount unlock target now = .ok planned) :
    l.params.Grants unlock now planned.result.bucket := by
  obtain ⟨b, p, p', staked, -, hb, -, -, -, -, hresult, -⟩ := planStake_eq_ok h
  rw [hresult]
  exact grants_of_lockBucket hb

theorem grants_planExtend {planned : Planned StakeReceipt}
    (h : l.planExtend owner source unlock additional now = .ok planned) :
    l.params.Grants unlock now planned.result.bucket := by
  obtain ⟨b, p, staked, -, -, -, hb, -, -, -, hresult, -⟩ := planExtend_eq_ok h
  rw [hresult]
  exact grants_of_lockBucket hb

/-- **A stake** locks nothing beyond its bucket. -/
theorem Sound.lockedBeyond_planStake (h : l.Sound) {planned : Planned StakeReceipt}
    (hplan : l.planStake owner amount unlock target now = .ok planned) (o : Address)
    (hx : planned.result.bucket ≤ x) :
    (l.written owner planned.plan now).lockedBeyond o x = l.lockedBeyond o x := by
  obtain ⟨hbalanced, hclock, -⟩ := planStake_spec h.balanced hplan
  have hbeyond := beyond_planStake hplan o x
  have hended : ¬ (o = owner ∧ x < planned.result.bucket) := fun hlocked =>
    absurd hlocked.2 (Nat.not_lt.2 hx)
  rw [if_neg hended] at hbeyond
  rw [h.lockedBeyond_written hclock hbalanced, lockedBeyond_eq]
  exact hbeyond

/-- **An extension** locks nothing beyond its bucket, and what it takes out of the other one has not
been locked so long. -/
theorem Sound.lockedBeyond_planExtend (h : l.Sound) {planned : Planned StakeReceipt}
    (hplan : l.planExtend owner source unlock additional now = .ok planned) (o : Address)
    (hx : planned.result.bucket ≤ x) :
    (l.written owner planned.plan now).lockedBeyond o x = l.lockedBeyond o x := by
  obtain ⟨hbalanced, hclock, -⟩ := planExtend_spec h.balanced hplan
  obtain ⟨hlater, hbeyond⟩ := beyond_planExtend hplan o x
  have hleft : ¬ (o = owner ∧ x < source) := fun hlocked =>
    absurd hlocked.2 (Nat.not_lt.2 (Nat.le_trans hlater hx))
  have hended : ¬ (o = owner ∧ x < planned.result.bucket) := fun hlocked =>
    absurd hlocked.2 (Nat.not_lt.2 hx)
  rw [if_neg hleft, if_neg hended] at hbeyond
  rw [h.lockedBeyond_written hclock hbalanced, lockedBeyond_eq]
  exact hbeyond

/-- A call that comes down to a plan is rejected if there is none. -/
theorem planned_rejected {α : Type} {planOf : Ledger → Except StakingError (Planned α)}
    (owner : Address) (now : Timestamp) (hnone : ∀ planned, planOf l ≠ .ok planned) :
    ∃ e, (do carryOut owner now (← planOf (← get)) : Call StakingError Ledger α) l
      = .error e l := by
  rcases planned_spec planOf owner now l with ⟨planned, hplanned, -⟩ | ⟨e, hcall⟩
  · exact absurd hplanned (hnone planned)
  · exact ⟨e, hcall⟩

/-- **Locks end as asked.** On every ledger that calls lead to, take a stake or an extension that
asks for a lock until `unlock`. If it succeeds, its bucket ends after now, no further off than the
longest lock, and no later than asked, unless it was asked for an end before the kickoff: then it
ends at the kickoff. Nobody has more locked beyond that bucket than before. And once the calendar
has begun, a request for an end that is over is rejected, and changes nothing. -/
theorem Reachable.locks_as_asked {params : StakingParams} (h : Reachable params l)
    (owner : Address) (unlock now : Timestamp) :
    (∀ amount target receipt m, stake owner amount unlock target now l = .ok receipt m →
      params.Grants unlock now receipt.bucket ∧
        ∀ o x, receipt.bucket ≤ x → m.lockedBeyond o x = l.lockedBeyond o x) ∧
    (∀ source additional receipt m, extend owner source unlock additional now l = .ok receipt m →
      params.Grants unlock now receipt.bucket ∧
        ∀ o x, receipt.bucket ≤ x → m.lockedBeyond o x = l.lockedBeyond o x) ∧
    (unlock ≤ now → params.kickoff ≤ now →
      (∀ amount target, ∃ e, stake owner amount unlock target now l = .error e l) ∧
        ∀ source additional, ∃ e, extend owner source unlock additional now l = .error e l) := by
  obtain ⟨rfl, -⟩ := h.params_eq
  refine ⟨?stake, ?extend, fun hunlock hkickoff => ⟨?lateStake, ?lateExtend⟩⟩
  case stake =>
    rintro amount target receipt m hcall
    obtain ⟨planned, hplanned, rfl, rfl⟩ := planned_eq_ok hcall
    exact ⟨grants_planStake hplanned, fun o _ hx => h.sound.lockedBeyond_planStake hplanned o hx⟩
  case extend =>
    rintro source additional receipt m hcall
    obtain ⟨planned, hplanned, rfl, rfl⟩ := planned_eq_ok hcall
    exact ⟨grants_planExtend hplanned, fun o _ hx => h.sound.lockedBeyond_planExtend hplanned o hx⟩
  case lateStake =>
    refine fun amount target => planned_rejected owner now fun planned hplanned => ?_
    obtain ⟨b, p, p', staked, -, hb, -⟩ := planStake_eq_ok hplanned
    exact lockBucket_ne_ok hunlock hkickoff hb
  case lateExtend =>
    refine fun source additional => planned_rejected owner now fun planned hplanned => ?_
    obtain ⟨b, p, staked, -, -, -, hb, -⟩ := planExtend_eq_ok hplanned
    exact lockBucket_ne_ok hunlock hkickoff hb

/-- A lock that is asked to last until an end between two points of the calendar is moved to the
one before a later end. What is asked to end now is rejected. -/
theorem locks_as_asked_of_extension :
    let alice : Address := ⟨List.replicate 20 1, rfl⟩
    let params : StakingParams := ⟨.ofNat 1000, .ofNat 100, .default⟩
    let l := (Move.stake alice (Word.ofNat 7) (.ofNat 1250) alice (.ofNat 1010)).apply
      (empty params)
    let now : Timestamp := .ofNat 1020
    (∃ m, extend alice (.ofNat 1200) (.ofNat 1590) .zero now l
        = .ok ⟨alice, .ofNat 1500, Word.ofNat 7⟩ m ∧
      m.lockedBeyond alice (.ofNat 1500) = l.lockedBeyond alice (.ofNat 1500)) ∧
      params.Grants (.ofNat 1590) now (.ofNat 1500) ∧
      ∃ e, stake alice (Word.ofNat 7) now alice now l = .error e l := by
  intro alice params l now
  have hl : Reachable params l := (Reachable.create (by rfl)).move _
  have hcall := Call.eq_ok_of_runFrom (show ((extend alice (.ofNat 1200) (.ofNat 1590) .zero
    now).runFrom l).1 = .ok ⟨alice, .ofNat 1500, Word.ofNat 7⟩ by decide +kernel)
  obtain ⟨-, hextend, -⟩ := hl.locks_as_asked alice (.ofNat 1590) now
  obtain ⟨hgrants, hlocked⟩ := hextend _ _ _ _ hcall
  obtain ⟨-, -, hlate⟩ := hl.locks_as_asked alice now now
  exact ⟨⟨_, hcall, hlocked alice (.ofNat 1500) (Nat.le_refl _)⟩, hgrants,
    (hlate (Nat.le_refl _) (by decide +kernel)).1 _ _⟩

/-- **An end before the kickoff** is not kept: what is asked to be locked until 5, at a time when
that is over, is locked until the kickoff at 1000. -/
theorem locked_past_an_end_before_kickoff :
    let alice : Address := ⟨List.replicate 20 1, rfl⟩
    let params : StakingParams := ⟨.ofNat 1000, .ofNat 100, .default⟩
    let unlock : Timestamp := .ofNat 5
    let now : Timestamp := .ofNat 10
    Reachable params (empty params) ∧ unlock ≤ now ∧
      ∃ receipt m, stake alice (Word.ofNat 1) unlock alice now (empty params) = .ok receipt m ∧
        receipt.bucket = .ofNat 1000 ∧ ¬ receipt.bucket ≤ unlock := by
  intro alice params unlock now
  have hcall := Call.eq_ok_of_runFrom (show ((stake alice (Word.ofNat 1) unlock alice now).runFrom
    (empty params)).1 = .ok ⟨alice, .ofNat 1000, Word.ofNat 1⟩ by decide +kernel)
  exact ⟨.create (by rfl), by decide +kernel, _, _, hcall, rfl, by decide +kernel⟩

end Ledger

end StakeGovernance
