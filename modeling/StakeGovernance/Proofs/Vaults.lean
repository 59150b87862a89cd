import StakeGovernance.Proofs.Calls
import StakeGovernance.Proofs.Maps
import StakeGovernance.Proofs.Sums
import StakeGovernance.Staking.Vault

/-!
# Tokens in a vault

A vault neither makes nor loses tokens by deposits, releases and transfers: what one
balance or the custody gives, another one gets. A movement that fails changes nothing,
although a transfer works on two balances one after the other.

* `StakeGovernance.Vault.circulating`, `StakeGovernance.Vault.tokens` – the tokens **in
  balances**, and the tokens **in all**;
* `StakeGovernance.Vault.Moved` – tokens of **one account** that go into custody or out of it;
* `StakeGovernance.Vault.transferred`, `StakeGovernance.Vault.transfer_comesTo` – the vault after
  **a transfer**, which changes both sides or neither;
* `StakeGovernance.Vault.deposit_eq_ok`, `StakeGovernance.Vault.release_eq_ok`,
  `StakeGovernance.Vault.transfer_eq_ok` – what **each movement** does to the tokens.
-/

namespace StakeGovernance.Vault

variable {v w : Vault} {account owner source target : Address} {amount a b c : Amount}
  {e : StakingError}

/-! ### Balances -/

/-- **The tokens in balances.** -/
def circulating (v : Vault) : Nat := (v.balances.values.map Word.toNat).sum

/-- **The tokens in all**, in balances or in custody. -/
def tokens (v : Vault) : Nat := v.circulating + v.held.toNat

theorem circulating_eq (v : Vault) : v.circulating = ∑ account, (v.balanceOf account).toNat := by
  unfold circulating OrderedMap.values
  rw [List.map_map]
  refine (v.balances.sum_entries fun _ balance => balance.toNat).trans ?_
  refine Finset.sum_congr rfl fun account _ => ?_
  unfold balanceOf OrderedMap.getD
  cases v.balances.get? account <;> rfl

theorem balanceOf_insert (v : Vault) (account : Address) (balance : Amount) (j : Address) :
    ({ v with balances := v.balances.insert account balance } : Vault).balanceOf j
      = if j = account then balance else v.balanceOf j :=
  OrderedMap.getD_insert_eq v.balances account j balance .zero

/-- **A balance that is set** changes the sum by what it changes. -/
theorem circulating_insert (v : Vault) (account : Address) (balance : Amount) :
    ({ v with balances := v.balances.insert account balance } : Vault).circulating
      + (v.balanceOf account).toNat = v.circulating + balance.toNat := by
  have hsum := sum_add_of_eq_off (i := account)
    (f := fun j => (({ v with balances := v.balances.insert account balance } : Vault).balanceOf
      j).toNat) (g := fun j => (v.balanceOf j).toNat)
    fun j hj => by rw [balanceOf_insert, if_neg hj]
  rw [circulating_eq, circulating_eq]
  rwa [balanceOf_insert, if_pos rfl] at hsum

theorem plus_eq_ok : plus a b = .ok c ↔ c.toNat = a.toNat + b.toNat := by
  unfold plus Amount.add
  rw [Checked.mapError_eq_ok, ← Word.add?_eq_some_iff]
  cases a.add? b with
  | none =>
    constructor
    · intro h
      cases h
    · intro h
      cases h
  | some d => simp

/-! ### Parts of a movement -/

theorem credit_eq_ok (h : credit account amount v = .ok () w) :
    ∃ balance : Amount, balance.toNat = (v.balanceOf account).toNat + amount.toNat ∧
      w = { v with balances := v.balances.insert account balance } := by
  obtain ⟨balance, hplus, hset⟩ := Call.lift_bind_eq_ok.1 (Call.get_bind_eq_ok.1 h)
  exact ⟨balance, plus_eq_ok.1 hplus, (Call.modify_eq_ok.1 hset).symm⟩

/-- A credit fails only if the balance would be too large. -/
theorem credit_eq_error (h : credit account amount v = .error e w) :
    w = v ∧ ∀ c, plus (v.balanceOf account) amount ≠ .ok c := by
  rcases Call.lift_bind_eq_error.1 (Call.get_bind_eq_error.1 h) with ⟨hplus, rfl⟩ | ⟨_, -, hset⟩
  · refine ⟨rfl, fun c hc => ?_⟩
    cases hplus.symm.trans hc
  · exact absurd hset Call.modify_ne_error

theorem debit_eq_ok (h : debit account amount v = .ok () w) :
    ∃ rest : Amount, (v.balanceOf account).toNat = rest.toNat + amount.toNat ∧
      w = { v with balances := v.balances.insert account rest } := by
  have h := Call.get_bind_eq_ok.1 h
  cases hsub : (v.balanceOf account).sub? amount with
  | none =>
    simp only [hsub] at h
    exact absurd h Call.throw_ne_ok
  | some rest =>
    simp only [hsub] at h
    exact ⟨rest, Word.sub?_eq_some_iff.1 hsub, (Call.modify_eq_ok.1 h).symm⟩

theorem debit_eq_error (h : debit account amount v = .error e w) : w = v := by
  have h := Call.get_bind_eq_error.1 h
  cases hsub : (v.balanceOf account).sub? amount with
  | none =>
    simp only [hsub] at h
    exact (Call.throw_eq_error.1 h).2.symm
  | some rest =>
    simp only [hsub] at h
    exact absurd h Call.modify_ne_error

theorem debit_of_none (h : (v.balanceOf account).sub? amount = none) :
    debit account amount v = .error (.balanceShort account (v.balanceOf account) amount) v := by
  unfold debit
  rw [Call.get_bind]
  simp only [h]
  rfl

theorem debit_of_some {less : Amount} (h : (v.balanceOf account).sub? amount = some less) :
    debit account amount v = .ok () { v with balances := v.balances.insert account less } := by
  unfold debit
  rw [Call.get_bind]
  simp only [h]
  rfl

theorem credit_of_plus {more : Amount} (h : plus (v.balanceOf account) amount = .ok more) :
    credit account amount v = .ok () { v with balances := v.balances.insert account more } := by
  unfold credit
  rw [Call.get_bind, h]
  rfl

/-! ### Movements -/

/-- **Tokens of one account have moved**: what was taken from its balance is in custody, and
what was given to it is not any more. No other balance has changed. -/
structure Moved (owner : Address) (taken given : Nat) (v w : Vault) : Prop where
  balance : (w.balanceOf owner).toNat + taken = (v.balanceOf owner).toNat + given
  held : w.held.toNat + given = v.held.toNat + taken
  rest : w.balances = v.balances.insert owner (w.balanceOf owner)

/-- A balance that was set, and custody that was set with it. -/
theorem Moved.of_insert {taken given : Nat} {balance held : Amount}
    (hbalance : balance.toNat + taken = (v.balanceOf owner).toNat + given)
    (hheld : held.toNat + given = v.held.toNat + taken) :
    Moved owner taken given v ⟨v.balances.insert owner balance, held⟩ := by
  have hself : Vault.balanceOf ⟨v.balances.insert owner balance, held⟩ owner = balance :=
    (balanceOf_insert v owner balance owner).trans (if_pos rfl)
  refine ⟨?_, hheld, ?_⟩
  · rw [hself]
    exact hbalance
  · rw [hself]

/-- **Other accounts have what they had.** -/
theorem Moved.balanceOf_of_ne {taken given : Nat} (h : Moved owner taken given v w)
    (hne : account ≠ owner) : w.balanceOf account = v.balanceOf account := by
  unfold balanceOf
  rw [h.rest, OrderedMap.getD_insert_eq, if_neg hne]

theorem Moved.tokens {taken given : Nat} (h : Moved owner taken given v w) :
    w.tokens = v.tokens := by
  have hsum := circulating_insert v owner (w.balanceOf owner)
  rw [← h.rest] at hsum
  have hbalance := h.balance
  have hheld := h.held
  have hcirculating : w.circulating + (v.balanceOf owner).toNat
    = v.circulating + (w.balanceOf owner).toNat := hsum
  show w.circulating + w.held.toNat = v.circulating + v.held.toNat
  omega

/-- **Tokens of different accounts** move in either order. -/
theorem Moved.comm {other : Address} {taken given taken' given' : Nat} {u x y : Vault}
    (hne : owner ≠ other) (h : Moved owner taken given v w) (hthen : Moved other taken' given' w x)
    (h' : Moved other taken' given' v u) (hthen' : Moved owner taken given u y) : x = y := by
  have howner : w.balanceOf owner = y.balanceOf owner := by
    have hsame := h'.balanceOf_of_ne hne
    have := h.balance
    have := hthen'.balance
    rw [hsame] at this
    exact Word.ext (by omega)
  have hother : x.balanceOf other = u.balanceOf other := by
    have hsame := h.balanceOf_of_ne hne.symm
    have := h'.balance
    have := hthen.balance
    rw [hsame] at this
    exact Word.ext (by omega)
  have hheld : x.held = y.held := by
    have := h.held
    have := hthen.held
    have := h'.held
    have := hthen'.held
    exact Word.ext (by omega)
  have hbalances : x.balances = y.balances := by
    rw [hthen.rest, h.rest, hthen'.rest, h'.rest, howner, hother, OrderedMap.insert_comm hne]
  obtain ⟨balances, held⟩ := x
  obtain ⟨balances', held'⟩ := y
  cases hbalances
  cases hheld
  rfl

/-- **A deposit** takes an amount from a balance into custody. -/
theorem deposit_moved (h : deposit owner amount v = .ok () w) :
    Moved owner amount.toNat 0 v w := by
  obtain ⟨held, hplus, hrest⟩ := Call.lift_bind_eq_ok.1 (Call.get_bind_eq_ok.1 h)
  obtain ⟨_, u, hdebit, hset⟩ := Call.bind_eq_ok.1 hrest
  obtain ⟨rest, hbalance, rfl⟩ := debit_eq_ok hdebit
  obtain rfl := Call.modify_eq_ok.1 hset
  exact .of_insert hbalance.symm (plus_eq_ok.1 hplus)

/-- **A release** gives an amount from custody to a balance. -/
theorem release_moved (h : release owner amount v = .ok () w) :
    Moved owner 0 amount.toNat v w := by
  have h := Call.get_bind_eq_ok.1 h
  cases hsub : v.held.sub? amount with
  | none =>
    simp only [hsub] at h
    exact absurd h Call.throw_ne_ok
  | some held =>
    simp only [hsub] at h
    obtain ⟨_, u, hcredit, hset⟩ := Call.bind_eq_ok.1 h
    obtain ⟨balance, hbalance, rfl⟩ := credit_eq_ok hcredit
    obtain rfl := Call.modify_eq_ok.1 hset
    exact .of_insert hbalance (Word.sub?_eq_some_iff.1 hsub).symm

theorem deposit_eq_ok (h : deposit owner amount v = .ok () w) :
    w.held.toNat = v.held.toNat + amount.toNat ∧ w.tokens = v.tokens :=
  ⟨(deposit_moved h).held, (deposit_moved h).tokens⟩

theorem deposit_eq_error (h : deposit owner amount v = .error e w) : w = v := by
  rcases Call.lift_bind_eq_error.1 (Call.get_bind_eq_error.1 h) with ⟨-, rfl⟩ | ⟨_, -, hrest⟩
  · rfl
  rcases Call.bind_eq_error.1 hrest with hdebit | ⟨_, _, -, hset⟩
  · exact debit_eq_error hdebit
  · exact absurd hset Call.modify_ne_error

theorem release_eq_ok (h : release owner amount v = .ok () w) :
    w.held.toNat + amount.toNat = v.held.toNat ∧ w.tokens = v.tokens :=
  ⟨(release_moved h).held, (release_moved h).tokens⟩

theorem release_eq_error (h : release owner amount v = .error e w) : w = v := by
  have h := Call.get_bind_eq_error.1 h
  cases hsub : v.held.sub? amount with
  | none =>
    simp only [hsub] at h
    exact (Call.throw_eq_error.1 h).2.symm
  | some held =>
    simp only [hsub] at h
    rcases Call.bind_eq_error.1 h with hcredit | ⟨_, _, -, hset⟩
    · exact (credit_eq_error hcredit).1
    · exact absurd hset Call.modify_ne_error

/-- **The vault after a transfer**, with both balances changed. The side that receives is checked
first. -/
def transferred (v : Vault) (source target : Address) (amount : Amount) :
    Except StakingError Vault :=
  if source = target then .ok v
  else do
    let more ← plus (v.balanceOf target) amount
    match (v.balanceOf source).sub? amount with
    | none => .error (.balanceShort source (v.balanceOf source) amount)
    | some less => .ok { v with balances := (v.balances.insert source less).insert target more }

/-- **A transfer** changes both sides, or neither. -/
theorem transfer_comesTo (source target : Address) (amount : Amount) (v : Vault) :
    Call.ComesTo id (transfer source target amount) v
      ((v.transferred source target amount).map fun w => ((), w)) := by
  unfold transferred
  by_cases hsame : source = target
  · have hrun : transfer source target amount v = .ok () v := by
      unfold transfer
      rw [if_pos hsame]
      rfl
    rw [if_pos hsame]
    exact .done hrun
  have hrun : transfer source target amount v = (do
      let _ ← plus (v.balanceOf target) amount
      debit source amount
      credit target amount : Call StakingError Vault Unit) v := by
    unfold transfer
    rw [if_neg hsame]
    rfl
  rw [if_neg hsame]
  cases hmore : plus (v.balanceOf target) amount with
  | error e =>
    rw [hmore] at hrun
    exact .refused hrun rfl
  | ok more =>
    rw [hmore, Call.lift_ok_bind] at hrun
    cases hless : (v.balanceOf source).sub? amount with
    | none => exact .refused (hrun.trans (Call.bind_eq_error.2 (.inl (debit_of_none hless)))) rfl
    | some less =>
      rw [Call.bind_of_ok (debit_of_some hless)] at hrun
      -- the debit leaves the balance of the target as it was when the sum was checked
      refine .done (hrun.trans (credit_of_plus ?_))
      rwa [balanceOf_insert, if_neg (Ne.symm hsame)]

/-- **What a transfer does to balances**: one gives and one gets, which is nothing if both are the
same. -/
theorem transferred_balances (h : v.transferred source target amount = .ok w) :
    w.held = v.held ∧ ∀ account,
      (w.balanceOf account).toNat + (if account = source then amount.toNat else 0)
        = (v.balanceOf account).toNat + if account = target then amount.toNat else 0 := by
  unfold transferred at h
  split at h
  · rename_i hsame
    cases h
    exact ⟨rfl, fun account => by rw [hsame]⟩
  rename_i hother
  obtain ⟨more, hmore, h⟩ := Checked.bind_eq_ok.1 h
  split at h
  · cases h
  rename_i less hless
  cases h
  have hmore := plus_eq_ok.1 hmore
  have hless := Word.sub?_eq_some_iff.1 hless
  refine ⟨rfl, fun account => ?_⟩
  rw [balanceOf_insert { v with balances := v.balances.insert source less }, balanceOf_insert]
  by_cases htarget : account = target
  · subst htarget
    rw [if_pos rfl, if_pos rfl, if_neg (Ne.symm hother)]
    exact hmore
  by_cases hsource : account = source
  · subst hsource
    rw [if_neg htarget, if_neg htarget, if_pos rfl, if_pos rfl]
    exact hless.symm
  · rw [if_neg htarget, if_neg htarget, if_neg hsource, if_neg hsource]

/-- **When a transfer is possible**: the source has the amount, and the target can take it. Neither
is asked for where both are the same. -/
theorem exists_transferred_iff : (∃ w, v.transferred source target amount = .ok w) ↔
    source = target ∨ amount ≤ v.balanceOf source ∧
      (v.balanceOf target).toNat + amount.toNat < Word.size 96 := by
  unfold transferred
  by_cases hsame : source = target
  · simp only [hsame, true_or, iff_true]
    exact ⟨v, rfl⟩
  simp only [hsame, false_or]
  constructor
  · rintro ⟨w, h⟩
    obtain ⟨more, hmore, h⟩ := Checked.bind_eq_ok.1 h
    split at h
    · cases h
    rename_i less hless
    have hhas : amount.toNat ≤ (v.balanceOf source).toNat := by
      rw [Word.sub?_eq_some_iff.1 hless]
      exact Nat.le_add_left _ _
    exact ⟨hhas, plus_eq_ok.1 hmore ▸ more.toNat_lt⟩
  · rintro ⟨hhas, hfits⟩
    obtain ⟨less, hless⟩ := Word.exists_sub? hhas
    have hmore : plus (v.balanceOf target) amount = .ok ⟨_, hfits⟩ := plus_eq_ok.2 rfl
    rw [hmore, hless]
    exact ⟨_, rfl⟩

/-- **A transfer** leaves custody alone. -/
theorem transfer_eq_ok (h : transfer source target amount v = .ok () w) :
    w.held = v.held ∧ w.tokens = v.tokens := by
  have hw : v.transferred source target amount = .ok w :=
    (transfer_comesTo source target amount v).eq_ok h
  obtain ⟨hheld, hbalances⟩ := transferred_balances hw
  -- what one account gives another one gets, so that the sum stays what it was
  have hsum := Finset.sum_congr rfl fun account (_ : account ∈ Finset.univ) => hbalances account
  rw [Finset.sum_add_distrib, Finset.sum_add_distrib, Finset.sum_ite_eq', Finset.sum_ite_eq',
    if_pos (Finset.mem_univ _), if_pos (Finset.mem_univ _)] at hsum
  have hcirculating : w.circulating = v.circulating := by
    rw [circulating_eq, circulating_eq]
    exact Nat.add_right_cancel hsum
  exact ⟨hheld, by rw [tokens, tokens, hcirculating, hheld]⟩

/-- **A transfer that fails** changes neither side: that the target can take the amount is
checked before the source gives it. -/
theorem transfer_eq_error (h : transfer source target amount v = .error e w) : w = v :=
  ((transfer_comesTo source target amount v).of_error h).2

end StakeGovernance.Vault
