import StakeGovernance.Proofs.Past
import StakeGovernance.Proofs.Solvency

/-!
# Totals match positions

Three books tell how much is staked: the stakes of all owners bucket by bucket, the amounts
attributed to delegatees, and the total with its log. They are written by the same plans, so
they come to the same at every point of time, the past included, and from the latest point on
the total is what is read off its log. What one owner has locked is a part of the total, so it
fits whenever the total does, and adding it up never fails.

* `StakeGovernance.Amount.sum?_eq_some_iff` – when a **sum of amounts** fits;
* `StakeGovernance.Ledger.Sound.sum_stakes` – the stakes come to the **total at every point**;
* `StakeGovernance.Ledger.Sound.balanceOf_eq_ok` – the **balance** of an owner always comes to
  a result;
* `StakeGovernance.Ledger.Reachable.totals_match` – the three books **agree** on every ledger
  that calls lead to.
-/

namespace StakeGovernance

/-! ### Sums of amounts -/

namespace Amount

/-- Adding a list up from some amount on gives the whole sum, if it fits, and fails otherwise. -/
theorem foldlM_add?_eq_some_iff (items : List Amount) (acc total : Amount) :
    items.foldlM (fun acc a => acc.add? a) acc = some total
      ↔ total.toNat = acc.toNat + (items.map Word.toNat).sum := by
  induction items generalizing acc with
  | nil =>
    refine ⟨fun h => ?_, fun h => ?_⟩
    · cases h
      rfl
    · exact congrArg some (Word.ext h.symm)
  | cons a rest ih =>
    rw [List.foldlM_cons, List.map_cons, List.sum_cons]
    show (acc.add? a).bind (fun next => rest.foldlM (fun acc a => acc.add? a) next)
      = some total ↔ _
    rw [Option.bind_eq_some_iff]
    constructor
    · rintro ⟨next, hnext, hrest⟩
      have hnext := Word.add?_eq_some_iff.1 hnext
      have hrest := (ih next).1 hrest
      omega
    · intro h
      -- every partial sum is at most the whole one
      have hfits : acc.toNat + a.toNat < Word.size 96 := by
        have := total.toNat_lt
        omega
      refine ⟨⟨acc.toNat + a.toNat, hfits⟩, Word.add?_eq_some_iff.2 rfl, (ih _).2 ?_⟩
      simp only
      omega

/-- **A sum of amounts** is what the amounts come to, if that is an amount. -/
theorem sum?_eq_some_iff {items : List Amount} {total : Amount} :
    sum? items = some total ↔ total.toNat = (items.map Word.toNat).sum := by
  unfold sum?
  rw [foldlM_add?_eq_some_iff, Word.toNat_zero, Nat.zero_add]

end Amount

namespace Ledger

variable {l : Ledger}

/-! ### The total at a point -/

/-- **The stakes of all owners** come to the total at every point. -/
theorem Sound.sum_stakes (h : l.Sound) (point : Timestamp) :
    ∑ o, ∑ b, (l.amountAt o b point).toNat = (l.totalStakedAt point).toNat := by
  rw [h.counted]
  exact Finset.sum_congr rfl fun o _ => Finset.sum_congr rfl fun b _ => l.toNat_amountAt o b point

/-! ### Balances -/

/-- **The balance of an owner** is what its positions come to. -/
theorem balanceOf_eq_ok_iff {owner : Address} {balance : Amount} :
    l.balanceOf owner = .ok balance ↔ balance.toNat = l.lockedBy owner := by
  have hlocked : (((l.positions owner).map (·.amount)).map Word.toNat).sum = l.lockedBy owner := by
    unfold lockedBy
    rw [List.map_map]
    rfl
  rw [← hlocked, ← Amount.sum?_eq_some_iff]
  unfold balanceOf
  cases Amount.sum? ((l.positions owner).map (·.amount)) with
  | none => exact ⟨nofun, nofun⟩
  | some total => exact ⟨fun h => by cases h; rfl, fun h => by cases h; rfl⟩

/-- What one owner has locked is no more than the total. -/
theorem Sound.lockedBy_le (h : l.Sound) (owner : Address) :
    l.lockedBy owner ≤ l.totalStaked.toNat := by
  have htotal : l.totalStaked.toNat = ∑ o, ∑ b, (l.latestStake o b).size := h.balanced.counted
  rw [lockedBy_eq, htotal]
  exact le_sum (f := fun o => ∑ b, (l.latestStake o b).size) owner

/-- **Every owner has a balance**: it is a part of the total, so it fits. -/
theorem Sound.balanceOf_eq_ok (h : l.Sound) (owner : Address) :
    ∃ balance, l.balanceOf owner = .ok balance ∧
      balance.toNat = ∑ b, (l.amountOf owner b).toNat := by
  have hfits : l.lockedBy owner < Word.size 96 :=
    Nat.lt_of_le_of_lt (h.lockedBy_le owner) l.totalStaked.toNat_lt
  exact ⟨⟨l.lockedBy owner, hfits⟩, balanceOf_eq_ok_iff.2 rfl, l.lockedBy_eq owner⟩

/-! ### The three books -/

/-- **Totals match positions.** On every ledger that calls lead to, the total at any point is
the sum of what all owners have in all buckets at that point, and the sum of what all
delegatees are attributed in them. From the latest point on, the total that is kept is the one
that is read. And the balance of every owner comes to a result, the sum of its buckets. -/
theorem Reachable.totals_match {params : StakingParams} (h : Reachable params l) :
    (∀ point, (l.totalStakedAt point).toNat = ∑ o, ∑ b, (l.amountAt o b point).toNat ∧
      (l.totalStakedAt point).toNat = ∑ d, ∑ b, (l.delegation.amountAt d b point).toNat) ∧
      (∀ point, l.lastPoint ≤ point → l.totalStaked = l.totalStakedAt point) ∧
      ∀ owner, ∃ balance, l.balanceOf owner = .ok balance ∧
        balance.toNat = ∑ b, (l.amountOf owner b).toNat := by
  have hsound := h.sound
  refine ⟨fun point => ⟨(hsound.sum_stakes point).symm, (hsound.sum_amountAt point).symm⟩,
    fun point hpoint => (hsound.total point hpoint).symm, hsound.balanceOf_eq_ok⟩

/-- Two owners stake, one of them moves all it has to a later bucket without adding to it, and
both change the delegate at the same point; then the first lock is over and is given back. -/
theorem totals_match_of_moved_stake :
    let alice : Address := ⟨List.replicate 20 1, rfl⟩
    let bob : Address := ⟨List.replicate 20 2, rfl⟩
    let moves : List Move := [
      .stake alice (Word.ofNat 1000) (.ofNat (100 * day)) alice (.ofNat 10),
      .stake bob (Word.ofNat 500) (.ofNat (50 * day)) alice (.ofNat 20),
      .extend alice (.ofNat (98 * day)) (.ofNat (200 * day)) .zero (.ofNat 30),
      .delegate alice bob (.ofNat 30),
      .delegate bob bob (.ofNat 30),
      .withdraw bob (.ofNat (42 * day)) (.ofNat (50 * day))]
    let l := moves.foldl (fun l move => move.apply l) (empty .default)
    ∑ o, ∑ b, (l.amountAt o b (.ofNat 15)).toNat = 1000 ∧
      ∑ o, ∑ b, (l.amountAt o b (.ofNat 30)).toNat = 1500 ∧
      ∑ d, ∑ b, (l.delegation.amountAt d b (.ofNat 30)).toNat = 1500 ∧
      ∑ o, ∑ b, (l.amountAt o b (.ofNat (50 * day))).toNat = 1000 ∧
      l.totalStaked = Word.ofNat 1000 ∧
      ∑ b, (l.amountOf alice b).toNat = 1000 := by
  intro alice bob moves l
  have hl : Reachable .default l := (Reachable.create (by rfl)).moves moves
  obtain ⟨hpoints, htotal, hbalances⟩ := hl.totals_match
  obtain ⟨balance, hbalance, hsum⟩ := hbalances alice
  have hlast : l.totalStakedAt (.ofNat (50 * day)) = Word.ofNat 1000 := by decide +kernel
  refine ⟨?_, ?_, ?_, ?_, ?_, ?_⟩
  · exact (hpoints _).1.symm.trans (by decide +kernel)
  · exact (hpoints _).1.symm.trans (by decide +kernel)
  · exact (hpoints _).2.symm.trans (by decide +kernel)
  · exact (hpoints _).1.symm.trans (congrArg Word.toNat hlast)
  · exact (htotal (.ofNat (50 * day)) (by decide +kernel)).trans hlast
  · have hvalue : l.balanceOf alice = .ok (Word.ofNat 1000) := by decide +kernel
    cases hbalance.symm.trans hvalue
    exact hsum.symm

end Ledger

end StakeGovernance
