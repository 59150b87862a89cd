import StakeGovernance.Proofs.Solvency

/-!
# Stakes whose lock is over

A withdrawal takes away in four places: from what the delegatee of the bucket is attributed,
from the total, from custody, and it adds to a balance in exchange. As long as the books
agree, none of the first three can run short, whoever the stake has been delegated to in the
meantime and whoever it was delegated to when its lock ended; and no log has a checkpoint
that is later than the clock. So nothing is in the way of a stake whose lock is over, apart
from a balance that would not fit.

* `StakeGovernance.Plan.remove_of_attributed` – emptying a bucket **does not run short**;
* `StakeGovernance.Ledger.Sound.commit_eq_ok` – no log is **later than the clock**;
* `StakeGovernance.Ledger.Sound.withdraw_of_matured` – a ledger **gives back** what is not
  locked any more;
* `StakeGovernance.Run.matured_stake_is_paid_out` – so does a protocol, into **the balance of
  the owner**.
-/

namespace StakeGovernance

/-! ### Taking away on a plan -/

namespace Plan

variable {p q : Plan} {l : Ledger} {owner : Address} {bucket : Timestamp} {amount : Amount}
  {stake : StakePoint}

/-- **What is in a bucket is attributed** to the delegate that it names. -/
theorem Attributed.amount_le (h : p.Attributed l) (owner : Address) (bucket : Timestamp) :
    (p.stakeOf l owner bucket).amount
      ≤ p.amountOf l (p.stakeOf l owner bucket).delegate bucket := by
  have hshare : (p.stakeOf l owner bucket).share (p.stakeOf l owner bucket).delegate
      = (p.stakeOf l owner bucket).amount.toNat := if_pos rfl
  show (p.stakeOf l owner bucket).amount.toNat ≤ _
  rw [h, ← hshare]
  exact le_sum (f := fun o => (p.stakeOf l o bucket).share _) owner

/-- **Emptying a bucket does not run short** of what is attributed. -/
theorem remove_of_attributed (h : p.Attributed l) (owner : Address) (bucket : Timestamp) :
    ∃ q, p.remove l owner bucket = .ok (q, p.stakeOf l owner bucket) ∧
      q.delegate = p.delegate := by
  obtain ⟨rest, hrest⟩ := Word.exists_sub? (h.amount_le owner bucket)
  have hdebit : p.debit l (p.stakeOf l owner bucket).delegate bucket
      (p.stakeOf l owner bucket).amount
      = .ok (p.setAmount (p.stakeOf l owner bucket).delegate bucket rest) := by
    unfold debit
    simp only [hrest]
  exact ⟨_, Checked.bind_eq_ok.2 ⟨_, hdebit, rfl⟩, rfl⟩

/-- Taking from the total what it has succeeds. -/
theorem subTotal_of_le (h : amount ≤ p.totalOf l) :
    ∃ q, p.subTotal l amount = .ok q ∧ q.delegate = p.delegate := by
  obtain ⟨rest, hrest⟩ := Word.exists_sub? h
  refine ⟨{ p with total := some rest }, ?_, rfl⟩
  unfold subTotal
  simp only [hrest]

end Plan

/-! ### Withdrawals from a ledger -/

namespace Ledger

variable {l : Ledger} {owner : Address} {bucket now : Timestamp} {plan : Plan}

/-- The newest point of an ordered log is not later than its bound. -/
theorem latest?_le {α : Type} {log : CheckpointLog α} (h : log.OrderedUpTo now)
    {point : Timestamp} (hpoint : log.latest?.map (·.point) = some point) : point ≤ now := by
  obtain ⟨c, hc, rfl⟩ := Option.map_eq_some_iff.1 hpoint
  exact h.le c (List.mem_of_getLast? hc)

/-- **No log of a sound ledger is newer than its latest point.** -/
theorem Sound.newestPoints_le (h : l.Sound) (owner : Address) (plan : Plan) :
    ∀ point ∈ plan.newestPoints l owner, point ≤ l.lastPoint := by
  intro point hpoint
  obtain ⟨x, hx, rfl⟩ := List.mem_filterMap.1 hpoint
  rcases List.mem_cons.1 hx with hx | hx
  · obtain ⟨_, -, hlast⟩ := Option.bind_eq_some_iff.1 hx.symm
    refine latest?_le (h.history owner) (Eq.trans ?_ hlast)
    unfold Delegation.historyOf Delegation.lastChange? OrderedMap.getD
    cases l.delegation.history.get? owner <;> rfl
  rcases List.mem_append.1 hx with hx | hx
  · rcases List.mem_append.1 hx with hx | hx
    · obtain ⟨s, -, hlast⟩ := List.mem_map.1 hx
      unfold checkpoints? at hlast
      rw [BucketLogs.bind_log rfl] at hlast
      exact latest?_le (h.stakes s.account s.bucket) hlast
    · obtain ⟨s, -, hlast⟩ := List.mem_map.1 hx
      unfold Delegation.lastAttribution? Delegation.log? at hlast
      rw [BucketLogs.bind_log rfl] at hlast
      exact latest?_le (h.delegated s.account s.bucket) hlast
  · obtain ⟨_, -, hlast⟩ := Option.bind_eq_some_iff.1 (List.mem_singleton.1 hx).symm
    exact latest?_le h.totals hlast

/-- **A plan is written** on a sound ledger, at any time that it has not passed, if both parties of
a new delegation are someone. -/
theorem Sound.commit_of_parties (h : l.Sound) (hclock : l.lastPoint ≤ now)
    (hparties : ∀ target, plan.delegate = some target → (owner.isZero || target.isZero) = false) :
    commit owner plan now l = .ok () (l.written owner plan now) := by
  have hpoints : ∀ point ∈ plan.newestPoints l owner, point ≤ now :=
    fun point hpoint => Nat.le_trans (h.newestPoints_le owner plan point hpoint) hclock
  obtain ⟨hlogs, hhistory⟩ := writable_of_newestPoints hpoints
  have hall := writeAll_eq_ok hlogs hhistory hparties
  rw [commit_eq]
  cases hmax : (plan.newestPoints l owner).max? with
  | none => exact hall
  | some newest =>
    have hle : newest.toNat ≤ now.toNat := hpoints newest (mem_of_max? hmax)
    simp only [if_neg (show ¬ now < newest from Nat.not_lt.2 hle)]
    exact hall

/-- A plan that names no new delegate has no parties to look at. -/
theorem Sound.commit_eq_ok (h : l.Sound) (hclock : l.lastPoint ≤ now)
    (hdelegate : plan.delegate = none) (owner : Address) :
    commit owner plan now l = .ok () (l.written owner plan now) := by
  refine h.commit_of_parties hclock fun target htarget => ?_
  rw [hdelegate] at htarget
  cases htarget

/-- **The ledger gives back** all that is in a bucket whose lock is over. -/
theorem Sound.withdraw_of_matured (h : l.Sound) (hclock : l.lastPoint ≤ now)
    (hover : bucket ≤ now) (hamount : l.amountOf owner bucket ≠ .zero) :
    ∃ m, withdraw owner bucket now l = .ok (l.amountOf owner bucket) m := by
  obtain ⟨p, hremove, hnone⟩ := Plan.remove_of_attributed h.balanced.attributed owner bucket
  have htotal : l.amountOf owner bucket ≤ p.totalOf l := by
    have hputs := (Plan.remove_spec hremove).1
    have hvolume : _ = Plan.empty.volume l + 0 := hputs.volume
    have hcounted := h.balanced.counted
    rw [Plan.totalOf_of_none hputs.total]
    have : (Plan.empty.stakeOf l owner bucket).amount.toNat ≤ Plan.empty.volume l := by omega
    rw [← hcounted] at this
    exact this
  obtain ⟨q, hsub, hq⟩ := Plan.subTotal_of_le htotal
  have hplan : l.planWithdraw owner bucket now
      = .ok ⟨q, l.amountOf owner bucket, [.withdrawn owner bucket (l.amountOf owner bucket)]⟩ := by
    refine Checked.bind_eq_ok.2 ⟨(), checkClock_eq_ok.2 hclock, Checked.refuse_eq_ok.2
      ⟨fun hzero => hamount (Word.ext (Word.isZero_iff.1 hzero)), Checked.refuse_eq_ok.2
        ⟨Nat.not_lt.2 hover, ?_⟩⟩⟩
    exact Checked.bind_eq_ok.2 ⟨_, hremove, Checked.bind_eq_ok.2 ⟨q, hsub, rfl⟩⟩
  have hwritten := h.commit_eq_ok hclock (hq.trans hnone) owner
  exact ⟨_, Call.get_bind_eq_ok.2 (Call.lift_bind_eq_ok.2
    ⟨_, hplan, Call.bind_eq_ok.2 ⟨(), _, hwritten, rfl⟩⟩)⟩

end Ledger

/-! ### Releases from custody -/

namespace Vault

variable {v : Vault} {owner : Address} {amount : Amount}

/-- **What is in custody can be released**, if the balance can take it. -/
theorem release_of_fits (hheld : amount ≤ v.held)
    (hfits : (v.balanceOf owner).toNat + amount.toNat ≤ (Word.max : Amount).toNat) :
    ∃ w, release owner amount v = .ok () w ∧ ∀ account,
      (w.balanceOf account).toNat
        = (v.balanceOf account).toNat + if account = owner then amount.toNat else 0 := by
  obtain ⟨rest, hrest⟩ := Word.exists_sub? hheld
  have hlt : (v.balanceOf owner).toNat + amount.toNat < Word.size 96 :=
    Nat.lt_of_le_of_lt hfits (Word.max : Amount).toNat_lt
  have hplus : plus (v.balanceOf owner) amount = .ok ⟨_, hlt⟩ := plus_eq_ok.2 rfl
  refine ⟨⟨v.balances.insert owner ⟨_, hlt⟩, rest⟩, ?_, fun account => ?_⟩
  · refine Call.get_bind_eq_ok.2 ?_
    simp only [hrest]
    refine Call.bind_eq_ok.2 ⟨(), ⟨v.balances.insert owner ⟨_, hlt⟩, v.held⟩, ?_, rfl⟩
    exact Call.get_bind_eq_ok.2 (Call.lift_bind_eq_ok.2 ⟨_, hplus, rfl⟩)
  · show Word.toNat (OrderedMap.getD (OrderedMap.insert _ _ _) _ _) = _
    rw [OrderedMap.getD_insert_eq]
    split
    · rename_i h
      rw [h]
    · rfl

/-- A release that the balance cannot take is refused as an overflow. -/
theorem release_of_not_fits (hheld : amount ≤ v.held)
    (hfits : ¬ (v.balanceOf owner).toNat + amount.toNat ≤ (Word.max : Amount).toNat) :
    release owner amount v = .error (.value .amountOverflow) v := by
  obtain ⟨rest, hrest⟩ := Word.exists_sub? hheld
  have hmax : (Word.max : Amount).toNat = Word.size 96 - 1 := rfl
  have hnone : (v.balanceOf owner).add? amount = none :=
    Word.ofNat?_eq_none_iff.2 (by omega)
  have hplus : plus (v.balanceOf owner) amount = .error (.value .amountOverflow) := by
    unfold plus Amount.add
    rw [hnone]
    rfl
  refine Call.get_bind_eq_error.2 ?_
  simp only [hrest]
  refine Call.bind_eq_error.2 (Or.inl (Call.get_bind_eq_error.2 ?_))
  exact Call.lift_bind_eq_error.2 (Or.inl ⟨hplus, rfl⟩)

end Vault

/-! ### Withdrawals from a protocol -/

namespace Run

variable {config : ProtocolConfig} {vault : Vault} {steps : List (Step Vault)} {p : Protocol Vault}
  {owner : Address} {bucket now : Timestamp}

/-- **A stake whose lock is over is paid out.** In every state of a run that begins without
anything in custody, for every bucket that holds something and every time that neither its
end nor the clock is later than: the ledger gives back exactly what the bucket holds. So does
the protocol, and the owner's balance has grown by that, unless the balance would not fit
the width of an amount; this is the only thing that a withdrawal can fail for. -/
theorem matured_stake_is_paid_out (h : Run config vault steps p) (hheld : vault.held = .zero)
    (hamount : p.state.ledger.amountOf owner bucket ≠ .zero) (hclock : p.state.clock ≤ now)
    (hover : bucket ≤ now) :
    let amount := p.state.ledger.amountOf owner bucket
    (∃ l, Ledger.withdraw owner bucket now p.state.ledger = .ok amount l) ∧
      ((p.vault.balanceOf owner).toNat + amount.toNat ≤ (Word.max : Amount).toNat →
        ∃ q, Protocol.withdraw owner bucket now p = .ok amount q ∧ ∀ account,
          (q.vault.balanceOf account).toNat
            = (p.vault.balanceOf account).toNat + if account = owner then amount.toNat else 0) ∧
      ((Word.max : Amount).toNat < (p.vault.balanceOf owner).toNat + amount.toNat →
        ∃ e q, Protocol.withdraw owner bucket now p = .error e q ∧ e.kind = .overflow) := by
  intro amount
  have hsound := h.orderly.sound
  have hlast : p.state.ledger.lastPoint ≤ now := Nat.le_trans h.orderly.past hclock
  obtain ⟨l, hl⟩ := hsound.withdraw_of_matured hlast hover hamount
  -- what the vault holds is the total, of which the bucket is a part
  have hcustody : amount ≤ p.vault.held := by
    have htotal : _ + amount.toNat = p.state.ledger.total.toNat := (hsound.withdraw_eq_ok hl).2
    rw [(h.solvency hheld).1]
    exact show amount.toNat ≤ p.state.ledger.total.toNat by omega
  refine ⟨⟨l, hl⟩, fun hfits => ?_, fun hlarge => ?_⟩
  · obtain ⟨w, hw, hbalances⟩ := Vault.release_of_fits hcustody hfits
    have hmoved : Protocol.withCustody (Ledger.withdraw owner bucket now)
        (fun amount => Custody.release owner amount) p
        = .ok amount { p.withLedger l with vault := w } := by
      exact Protocol.withCustody_of_ok hl hw
    refine ⟨_, Call.bind_eq_ok.2 ⟨(), p, Protocol.checkClock_eq_ok.2 ⟨hclock, rfl⟩,
      Protocol.settled_eq_ok.2 ⟨_, hmoved, rfl⟩⟩, ?_⟩
    rw [Protocol.record_vault]
    exact hbalances
  · have hrefused := Vault.release_of_not_fits hcustody (Nat.not_le.2 hlarge)
    refine ⟨_, _, Call.bind_eq_error.2 (Or.inr ⟨(), p, Protocol.checkClock_eq_ok.2 ⟨hclock, rfl⟩,
      Protocol.settled_eq_error.2 ⟨_, Protocol.withCustody_of_refused hl hrefused, rfl⟩⟩), rfl⟩

/-- In the small run, the stake is paid out once its lock is over: the account has all its
tokens back. -/
theorem matured_stake_is_paid_out_sample :
    let p := (Run.perform Sample.start Sample.operations).2
    p.state.ledger.amountOf Sample.alice (.ofNat (98 * day)) = Word.ofNat 1000 ∧
      ∃ q, Protocol.withdraw Sample.alice (.ofNat (98 * day)) (.ofNat (98 * day)) p
          = .ok (Word.ofNat 1000) q ∧
        (q.vault.balanceOf Sample.alice).toNat = 5000 := by
  intro p
  have hamount : p.state.ledger.amountOf Sample.alice (.ofNat (98 * day)) = Word.ofNat 1000 := by
    decide +kernel
  have hbalance : (p.vault.balanceOf Sample.alice).toNat = 4000 := by decide +kernel
  have hsome : p.state.ledger.amountOf Sample.alice (.ofNat (98 * day)) ≠ .zero := by
    rw [hamount]
    decide
  have hclock : p.state.clock ≤ .ofNat (98 * day) := by decide +kernel
  obtain ⟨-, hpaid, -⟩ := matured_stake_is_paid_out Sample.run rfl hsome hclock (Nat.le_refl _)
  rw [hamount, hbalance] at hpaid
  obtain ⟨q, hq, hbalances⟩ := hpaid (by decide +kernel)
  refine ⟨hamount, q, hq, (hbalances Sample.alice).trans ?_⟩
  rw [hbalance, if_pos rfl]
  rfl

end Run

end StakeGovernance
