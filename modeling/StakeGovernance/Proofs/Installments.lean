import StakeGovernance.Proofs.NewDelegates
import StakeGovernance.Proofs.Settling

/-!
# Stakes in installments

Whoever stakes an amount in two installments, at one point and with the same end and the same
delegate, has what it would have had from one stake of the sum. The second stake comes to a
ledger that is not the one that the first came to: the delegate has been set, all live stake has
gone along, and the newest checkpoints are those that the first has written, so that the second
one overwrites them. What it leaves is read off the plan of the first stake, on which it plans
its own; and of the two amounts that were put on the plan for one bucket the second one, which
is the sum, is the one that stays. A sum of three that fits can be built up from either end,
which is why both ways are refused the same amounts.

* `StakeGovernance.Word.add?_add?_iff` – **two checked additions** as one;
* `StakeGovernance.Plan.deposited_fits_iff` – what fits **after an amount was added** is what fits
  with it;
* `StakeGovernance.Ledger.Reachable.stake_after_stake_iff` – a stake **after a stake**: what it
  comes to, and when it does;
* `StakeGovernance.Ledger.Reachable.stakes_add_up` – two stakes **come to one of the sum**, and one
  of the sum to two.
-/

namespace StakeGovernance

/-! ### Checked additions -/

namespace Word

variable {bits : ℕ} {a x y z u v : Word bits}

/-- What can be added in two steps can be added up first. -/
theorem exists_add?_of_add?_add? (hx : a.add? x = some u) (hy : u.add? y = some v) :
    ∃ z, x.add? y = some z := by
  have hfirst := add?_eq_some_iff.1 hx
  have hlast := add?_eq_some_iff.1 hy
  have hfits : x.toNat + y.toNat < size bits := by
    have := v.toNat_lt
    omega
  exact ⟨⟨x.toNat + y.toNat, hfits⟩, add?_eq_some_iff.2 rfl⟩

/-- **Two checked additions** succeed if the addition of the sum does, with the same result. -/
theorem add?_add?_iff (hz : x.add? y = some z) :
    (∃ u, a.add? x = some u ∧ u.add? y = some v) ↔ a.add? z = some v := by
  have hsum := add?_eq_some_iff.1 hz
  constructor
  · rintro ⟨u, hx, hy⟩
    have hfirst := add?_eq_some_iff.1 hx
    have hlast := add?_eq_some_iff.1 hy
    exact add?_eq_some_iff.2 (by omega)
  · intro hv
    have hlast := add?_eq_some_iff.1 hv
    have hfits : a.toNat + x.toNat < size bits := by
      have := v.toNat_lt
      omega
    refine ⟨⟨a.toNat + x.toNat, hfits⟩, add?_eq_some_iff.2 rfl, add?_eq_some_iff.2 ?_⟩
    show v.toNat = a.toNat + x.toNat + y.toNat
    omega

end Word

/-! ### Plans -/

namespace Plan

variable {p : Plan} {l : Ledger} {owner target : Address} {bucket : Timestamp}
  {x y z staked staked' attributed attributed' total total' : Amount}

/-- **Of two amounts that are put into one bucket** for a delegate the later one stays. -/
theorem deposited_deposited (p : Plan) (owner target : Address) (bucket : Timestamp)
    (staked staked' attributed attributed' total total' : Amount) :
    (p.deposited owner target bucket staked attributed total).deposited owner target bucket staked'
        attributed' total' = p.deposited owner target bucket staked' attributed' total' :=
  (Plan.mk.injEq ..).mpr
    ⟨OrderedMap.insert_insert .., OrderedMap.insert_insert .., rfl, rfl⟩

/-- **After an amount was added** the next one is added to what there is now. -/
theorem deposited_fits_iff :
    (p.deposited owner target bucket staked attributed total).Fits l owner target bucket y staked'
        attributed' total' ↔
      staked.add? y = some staked' ∧ attributed.add? y = some attributed' ∧
        total.add? y = some total' := by
  have hstake : (p.deposited owner target bucket staked attributed total).stakeOf l owner bucket
      = ⟨staked, target⟩ :=
    (stakeOf_setStake _ l owner bucket _ owner bucket).trans (if_pos ⟨rfl, rfl⟩)
  have hamount : (p.deposited owner target bucket staked attributed total).amountOf l target bucket
      = attributed :=
    (amountOf_setAmount p l target bucket attributed target bucket).trans (if_pos ⟨rfl, rfl⟩)
  constructor
  · rintro ⟨hs, ha, ht⟩
    rw [hstake] at hs
    rw [hamount] at ha
    exact ⟨hs, ha, ht⟩
  · rintro ⟨hs, ha, ht⟩
    exact ⟨hstake.symm ▸ hs, hamount.symm ▸ ha, ht⟩

/-- **Two amounts fit one after the other** if their sum does. -/
theorem fits_fits_iff (hz : x.add? y = some z) :
    (∃ staked attributed total, p.Fits l owner target bucket x staked attributed total ∧
        (p.deposited owner target bucket staked attributed total).Fits l owner target bucket y
          staked' attributed' total') ↔
      p.Fits l owner target bucket z staked' attributed' total' := by
  constructor
  · rintro ⟨staked, attributed, total, ⟨hs, ha, ht⟩, hfits⟩
    obtain ⟨hs', ha', ht'⟩ := deposited_fits_iff.1 hfits
    exact ⟨(Word.add?_add?_iff hz).1 ⟨staked, hs, hs'⟩,
      (Word.add?_add?_iff hz).1 ⟨attributed, ha, ha'⟩, (Word.add?_add?_iff hz).1 ⟨total, ht, ht'⟩⟩
  · rintro ⟨hs, ha, ht⟩
    obtain ⟨staked, hs, hs'⟩ := (Word.add?_add?_iff hz).2 hs
    obtain ⟨attributed, ha, ha'⟩ := (Word.add?_add?_iff hz).2 ha
    obtain ⟨total, ht, ht'⟩ := (Word.add?_add?_iff hz).2 ht
    exact ⟨staked, attributed, total, ⟨hs, ha, ht⟩, deposited_fits_iff.2 ⟨hs', ha', ht'⟩⟩

end Plan

/-! ### Stakes -/

namespace Ledger

variable {l m : Ledger} {owner target : Address} {bucket bucket' unlock now : Timestamp}
  {x y z staked attributed total : Amount} {p : Plan}

/-- Where one amount may be staked, any other one that is not zero may. -/
theorem MayStake.of_amount (h : l.MayStake owner target x unlock bucket now)
    (hy : y.isZero = false) : l.MayStake owner target y unlock bucket now :=
  ⟨h.parties, hy, h.clock, h.lock, h.longest⟩

/-- **What stands in front of a second stake** is passed, and its lock ends in the same bucket. -/
theorem MayStake.deposited_iff (h : l.MayStake owner target x unlock bucket now)
    (hy : y.isZero = false) (hp : l.redirecting owner target now = .ok p)
    (events : List StakingEvent) :
    (l.carriedOut owner (p.deposited owner target bucket staked attributed total) now
        events).MayStake owner target y unlock bucket' now ↔ bucket' = bucket := by
  constructor
  · intro hmay
    exact Except.ok.inj (hmay.lock.symm.trans h.lock)
  · rintro rfl
    refine ⟨h.parties, hy, Nat.le_refl _, h.lock, fun b hlive hamount => ?_⟩
    by_cases hb : b = bucket'
    · exact Nat.le_of_eq (congrArg Word.toNat hb)
    · -- another bucket holds what it held before the first stake
      refine h.longest b hlive fun hempty => hamount ?_
      rw [← hempty, ← redirecting_amounts hp b]
      refine congrArg Word.toNat ((l.amountOf_written owner _ now owner b).trans ?_)
      have hother := Plan.stakeOf_setStake (p.setAmount target bucket' attributed) l owner bucket'
        ⟨staked, target⟩ owner b
      rw [if_neg fun e => hb e.2] at hother
      exact congrArg StakePoint.amount hother

/-- **A stake after a stake** with the same end and the same delegate: what it comes to, and when it
does. -/
theorem Reachable.stake_after_stake_iff {params : StakingParams} {receipt : StakeReceipt}
    {events : List StakingEvent}
    (hmay : l.MayStake owner target x unlock bucket now)
    (hp : l.redirecting owner target now = .ok p) (hy : y.isZero = false)
    (h : Reachable params
      (l.carriedOut owner (p.deposited owner target bucket staked attributed total) now events)) :
    stake owner y unlock target now
        (l.carriedOut owner (p.deposited owner target bucket staked attributed total) now events)
        = .ok receipt m ↔
      ∃ staked' attributed' total',
        (p.deposited owner target bucket staked attributed total).Fits l owner target bucket y
          staked' attributed' total' ∧
        receipt = ⟨owner, bucket, staked'⟩ ∧
        m = l.carriedOut owner (p.deposited owner target bucket staked' attributed' total') now
          (events ++ [.stakeChanged owner bucket staked']) := by
  have hdelegate : p.delegate.getD (l.delegateOf owner) = target := redirecting_getD hp
  rw [h.stake_carriedOut_iff hdelegate]
  simp only [hmay.deposited_iff hy hp, exists_eq_left, Plan.deposited_deposited]

/-- **Stakes add up.** Take any ledger that calls lead to, and two amounts that are not zero. If a
stake of the one succeeds and then a stake of the other, at the same point, with the same end and
for the same delegate, then the sum of both is an amount, and one stake of it succeeds with the
receipt of the second stake; and it leaves the same ledger, apart from what is reported. If
the sum is an amount and a stake of it succeeds, then so do the two stakes, one after the other,
and they leave the same as well. -/
theorem Reachable.stakes_add_up {params : StakingParams} (h : Reachable params l)
    (hx : x.isZero = false) (hy : y.isZero = false) (owner : Address) (unlock : Timestamp)
    (target : Address) (now : Timestamp) :
    (∀ first k receipt m, stake owner x unlock target now l = .ok first k →
        stake owner y unlock target now k = .ok receipt m →
        ∃ z n, x.add? y = some z ∧ stake owner z unlock target now l = .ok receipt n ∧
          n.silent = m.silent) ∧
      ∀ z receipt n, x.add? y = some z → stake owner z unlock target now l = .ok receipt n →
        ∃ first k m, stake owner x unlock target now l = .ok first k ∧
          stake owner y unlock target now k = .ok receipt m ∧ m.silent = n.silent := by
  have hreach : ∀ {first k}, stake owner x unlock target now l = .ok first k → Reachable params k :=
    fun hcall => Call.after_of_ok hcall ▸ h.move (.stake owner x unlock target now)
  constructor
  · intro first k receipt m hfirst hsecond
    have hk := hreach hfirst
    obtain ⟨bucket, hmay, p, hp, staked, attributed, total, hfits, -, rfl⟩ :=
      (h.faithful.stake_eq_ok_iff h.sound).1 hfirst
    obtain ⟨staked', attributed', total', hfits', rfl, rfl⟩ :=
      (hk.stake_after_stake_iff hmay hp hy).1 hsecond
    obtain ⟨z, hz⟩ := Word.exists_add?_of_add?_add? hfits.staked
      (Plan.deposited_fits_iff.1 hfits').1
    have hsome : z.isZero = false := by
      have hsum := Word.add?_eq_some_iff.1 hz
      rw [Bool.eq_false_iff, ne_eq, Word.isZero_iff] at hx ⊢
      omega
    -- on the plan of the first stake, the sum fits where the second amount does
    have hfits := (Plan.fits_fits_iff hz).1 ⟨staked, attributed, total, hfits, hfits'⟩
    have hstake := (h.faithful.stake_eq_ok_iff h.sound).2 ⟨bucket, hmay.of_amount hsome, p, hp,
      staked', attributed', total', hfits, rfl, rfl⟩
    exact ⟨z, _, hz, hstake, rfl⟩
  · intro z receipt n hz hstake
    obtain ⟨bucket, hmay, p, hp, staked', attributed', total', hfits', rfl, rfl⟩ :=
      (h.faithful.stake_eq_ok_iff h.sound).1 hstake
    obtain ⟨staked, attributed, total, hfits, hfits'⟩ := (Plan.fits_fits_iff hz).2 hfits'
    have hfirst := (h.faithful.stake_eq_ok_iff h.sound).2 ⟨bucket, hmay.of_amount hx, p, hp, staked,
      attributed, total, hfits, rfl, rfl⟩
    have hsecond := ((hreach hfirst).stake_after_stake_iff (hmay.of_amount hx) hp hy).2
      ⟨staked', attributed', total', hfits', rfl, rfl⟩
    exact ⟨_, _, _, hfirst, hsecond, rfl⟩

/-- An owner with a bucket that another delegate has stakes into a second one for a new delegate, in
two installments. The first of them takes the other bucket along, the second one finds that done. -/
theorem stakes_add_up_of_new_delegate :
    let alice : Address := ⟨List.replicate 20 1, rfl⟩
    let bob : Address := ⟨List.replicate 20 2, rfl⟩
    let carol : Address := ⟨List.replicate 20 3, rfl⟩
    let now : Timestamp := .ofNat 30
    let l := (Move.stake alice (Word.ofNat 1000) (.ofNat (100 * day)) bob (.ofNat 10)).apply
      (empty .default)
    let k := (stake alice (Word.ofNat 300) (.ofNat (200 * day)) carol now).after l
    let m := (stake alice (Word.ofNat 200) (.ofNat (200 * day)) carol now).after k
    (Word.ofNat 300 : Amount).isZero = false ∧ (Word.ofNat 200 : Amount).isZero = false ∧
      k.delegation.amount carol (.ofNat (98 * day)) = Word.ofNat 1000 ∧
      ∃ n, stake alice (Word.ofNat 500) (.ofNat (200 * day)) carol now l
          = .ok ⟨alice, .ofNat (196 * day), Word.ofNat 500⟩ n ∧
        n.silent = m.silent := by
  intro alice bob carol now l k m
  have hl : Reachable .default l := (Reachable.create (by rfl)).move _
  have hfirst := Call.eq_ok_of_runFrom (show ((stake alice (Word.ofNat 300) (.ofNat (200 * day))
    carol now).runFrom l).1 = .ok ⟨alice, .ofNat (196 * day), Word.ofNat 300⟩ by decide +kernel)
  have hsecond := Call.eq_ok_of_runFrom (show ((stake alice (Word.ofNat 200) (.ofNat (200 * day))
    carol now).runFrom k).1 = .ok ⟨alice, .ofNat (196 * day), Word.ofNat 500⟩ by decide +kernel)
  obtain ⟨htwo, -⟩ := hl.stakes_add_up (x := Word.ofNat 300) (y := Word.ofNat 200) (by decide)
    (by decide) alice (.ofNat (200 * day)) carol now
  obtain ⟨z, n, hz, hstake, hsilent⟩ := htwo _ _ _ _ hfirst hsecond
  have hsum : z = Word.ofNat 500 := by
    refine Word.ext ?_
    rw [Word.add?_eq_some_iff.1 hz]
    rfl
  subst hsum
  exact ⟨by decide, by decide, by decide +kernel, n, hstake, hsilent⟩

end Ledger

end StakeGovernance
