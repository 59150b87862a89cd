import StakeGovernance.Proofs.Charters

/-!
# What treasuries pay

A treasury pays from its account in the vault: what the account gives the target gets, and nobody
else has a part in it. A payment that cannot be made leaves the vault as it was. The balance is
asked for when it is debited, and not before. So there is one payment for which it is not asked at
all: a treasury that pays itself moves nothing, and reports a transfer of any amount that its limit
allows, whether it has that much or not.

* `StakeGovernance.Treasury.paid_eq_ok` – the **checks** of a payment;
* `StakeGovernance.Treasury.payments_move_balances` – **when** a payment is made, and what it
  **moves**;
* `StakeGovernance.Treasury.pays_itself_what_it_lacks` – the payment that **nothing is asked for**.
-/

namespace StakeGovernance.Treasury

variable {t : Treasury} {v w : Vault} {target : Address} {amount : Amount} {output : ActionOutput}

theorem checkCap_eq_ok {x : Unit} :
    t.checkCap amount = .ok x ↔ ∀ cap, t.cap = some cap → amount ≤ cap := by
  unfold checkCap
  cases t.cap with
  | none => exact ⟨fun _ cap hcap => (by cases hcap), fun _ => rfl⟩
  | some cap =>
    simp only
    split
    · rename_i habove
      exact ⟨nofun, fun h => absurd habove (Nat.not_lt.2 (h cap rfl))⟩
    · rename_i hwithin
      refine ⟨fun _ other hother => ?_, fun _ => rfl⟩
      cases hother
      exact Nat.not_lt.1 hwithin

/-- **The checks of a payment**: the target is an account, the amount is within the limit, and the
transfer is possible. -/
theorem paid_eq_ok : t.paid v target amount = .ok (output, w) ↔
    target.isZero = false ∧ t.checkCap amount = .ok () ∧
      v.transferred t.account target amount = .ok w ∧
      .transferred t.account target amount = output := by
  unfold paid
  cases target.isZero with
  | true => exact ⟨nofun, nofun⟩
  | false =>
    rw [if_neg Bool.false_ne_true, Checked.bind_eq_ok]
    constructor
    · rintro ⟨_, hcap, hpaid⟩
      obtain ⟨_, hmoved, hreport⟩ := Checked.bind_eq_ok.1 hpaid
      cases hreport
      exact ⟨rfl, hcap, Checked.mapError_eq_ok.1 hmoved, rfl⟩
    · rintro ⟨-, hcap, hmoved, rfl⟩
      exact ⟨(), hcap, Checked.bind_eq_ok.2 ⟨w, Checked.mapError_eq_ok.2 hmoved, rfl⟩⟩

/-- **A payment is what it moves.** A treasury makes a payment exactly if the target is an account,
the amount is within the limit, and either the treasury pays itself or it has the amount and the
target can take it. What it has paid it reports, with the account, the target and the amount; its
own balance has fallen by the amount and that of the target has risen by it, which is nothing if
they are the same; all other balances, and what is in custody, are what they were. A payment that
is not made leaves the vault as it was. -/
theorem payments_move_balances (t : Treasury) (v : Vault) (target : Address) (amount : Amount) :
    ((∃ output w, t.handle (.treasuryTransfer target amount) v = .ok output w) ↔
      target.isZero = false ∧ (∀ cap, t.cap = some cap → amount ≤ cap) ∧
        (target = t.account ∨ amount ≤ v.balanceOf t.account ∧
          (v.balanceOf target).toNat + amount.toNat < Word.size 96)) ∧
    (∀ output w, t.handle (.treasuryTransfer target amount) v = .ok output w →
      output = .transferred t.account target amount ∧ w.held = v.held ∧
        ∀ account,
          (w.balanceOf account).toNat + (if account = t.account then amount.toNat else 0)
            = (v.balanceOf account).toNat + if account = target then amount.toNat else 0) ∧
    ∀ fault w, t.handle (.treasuryTransfer target amount) v = .error fault w → w = v := by
  have hpaid := t.handle_comesTo v (.treasuryTransfer target amount)
  have hok : ∀ output w, t.handle (.treasuryTransfer target amount) v = .ok output w ↔
      target.isZero = false ∧ t.checkCap amount = .ok () ∧
        v.transferred t.account target amount = .ok w ∧
        .transferred t.account target amount = output :=
    fun output w => hpaid.eq_ok_iff.trans paid_eq_ok
  refine ⟨?made, fun output w hcall => ?moved, fun fault w hcall => (hpaid.of_error hcall).2⟩
  case made =>
    rw [← checkCap_eq_ok, eq_comm (a := target), ← Vault.exists_transferred_iff]
    constructor
    · rintro ⟨output, w, hcall⟩
      obtain ⟨htarget, hcap, hmoved, -⟩ := (hok output w).1 hcall
      exact ⟨htarget, hcap, w, hmoved⟩
    · rintro ⟨htarget, hcap, w, hmoved⟩
      exact ⟨_, w, (hok _ w).2 ⟨htarget, hcap, hmoved, rfl⟩⟩
  case moved =>
    obtain ⟨-, -, hmoved, rfl⟩ := (hok output w).1 hcall
    exact ⟨rfl, Vault.transferred_balances hmoved⟩

/-- A treasury with a limit of fifty pays forty out of a hundred. -/
theorem payments_move_balances_of_forty :
    let treasury : Address := ⟨List.replicate 20 113, rfl⟩
    let bob : Address := ⟨List.replicate 20 2, rfl⟩
    let t : Treasury := ⟨treasury, some (Word.ofNat 50)⟩
    let v : Vault := ⟨OrderedMap.empty.insert treasury (Word.ofNat 100), Word.ofNat 7⟩
    ∃ w, t.handle (.treasuryTransfer bob (Word.ofNat 40)) v
        = .ok (.transferred treasury bob (Word.ofNat 40)) w ∧
      (w.balanceOf treasury).toNat = 60 ∧ (w.balanceOf bob).toNat = 40 ∧ w.held = Word.ofNat 7 := by
  intro treasury bob t v
  obtain ⟨hmade, hmoved, -⟩ := t.payments_move_balances v bob (Word.ofNat 40)
  have hcap : ∀ cap, t.cap = some cap → (Word.ofNat 40 : Amount) ≤ cap := by
    intro cap hcap
    cases hcap
    decide +kernel
  obtain ⟨output, w, hcall⟩ := hmade.2
    ⟨by decide +kernel, hcap, .inr ⟨by decide +kernel, by decide +kernel⟩⟩
  obtain ⟨rfl, hheld, hbalances⟩ := hmoved output w hcall
  refine ⟨w, hcall, ?_, ?_, hheld⟩
  · have hgave : (w.balanceOf treasury).toNat + 40 = 100 := hbalances treasury
    omega
  · exact hbalances bob

/-- **A treasury pays itself what it lacks**: it has forty, and reports a transfer of a hundred from
its own account to its own account. -/
theorem pays_itself_what_it_lacks :
    let treasury : Address := ⟨List.replicate 20 113, rfl⟩
    let t : Treasury := ⟨treasury, none⟩
    let v : Vault := ⟨OrderedMap.empty.insert treasury (Word.ofNat 40), .zero⟩
    t.handle (.treasuryTransfer treasury (Word.ofNat 100)) v
        = .ok (.transferred treasury treasury (Word.ofNat 100)) v ∧
      v.balanceOf treasury = Word.ofNat 40 ∧
      ¬ (Word.ofNat 100 : Amount) ≤ v.balanceOf treasury := by
  intro treasury t v
  exact ⟨rfl, by decide +kernel, by decide +kernel⟩

end StakeGovernance.Treasury
