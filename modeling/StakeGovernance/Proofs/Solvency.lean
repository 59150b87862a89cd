import StakeGovernance.Proofs.Locks
import StakeGovernance.Proofs.Orderly
import StakeGovernance.Proofs.Vaults

/-!
# Solvency

Two books are kept of staked tokens: the ledger has a total of all stakes, and the vault
has an amount in custody. Each call that moves stakes changes one after the other, and if
the vault refuses, the ledger is put back; actions of proposals move balances only. So in
every state of a run the vault holds exactly what is staked, which is what the positions of
all owners come to, and the tokens in all stay what they were.

* `StakeGovernance.Ledger.locked` – the **positions of all owners** together;
* `StakeGovernance.Ledger.Sound.total_eq_locked` – the total **is the sum of positions**;
* `StakeGovernance.Run.solvency` – **solvency**, and conservation of tokens.
-/

namespace StakeGovernance

/-! ### Positions -/

namespace Ledger

variable {l : Ledger}

/-- What the positions of an owner come to. -/
def lockedBy (l : Ledger) (owner : Address) : Nat :=
  ((l.positions owner).map (·.amount.toNat)).sum

/-- **What the positions of all owners come to.** -/
def locked (l : Ledger) : Nat := (l.owners.map l.lockedBy).sum

theorem lockedBy_eq (l : Ledger) (owner : Address) :
    l.lockedBy owner = ∑ b, (l.latestStake owner b).size :=
  sum_positions (fun _ amount => amount) (fun _ => rfl) l owner

/-- **The total of a sound ledger is the sum of all positions.** -/
theorem Sound.total_eq_locked (h : l.Sound) : l.totalStaked.toNat = l.locked := by
  have howners : l.locked = ∑ o, l.lockedBy o := by
    refine l.stakes.sum_keys fun o ho => ?_
    unfold lockedBy positions bucketsOf
    rw [ho]
    rfl
  rw [howners]
  refine h.balanced.counted.trans (Finset.sum_congr rfl fun o _ => ?_)
  exact (l.lockedBy_eq o).symm

end Ledger

/-! ### Transitions -/

namespace Protocol

variable {config : ProtocolConfig} {p q : Protocol Vault} {operation : Operation}
  {outcome : Except GovernanceError Outcome}

/-- **What is in custody is what is staked.** -/
def Solvent (p : Protocol Vault) : Prop := p.vault.held = p.state.ledger.total

theorem Solvent.of_eq (h : p.Solvent) (hledger : q.state.ledger.silent = p.state.ledger.silent)
    (hheld : q.vault.held = p.vault.held) : q.Solvent := by
  show q.vault.held = q.state.ledger.silent.total
  rw [hledger, hheld]
  exact h

/-- Tokens that follow stakes keep custody and stakes equal. -/
theorem Solvent.of_tokens (h : p.Solvent) (ht : Tokens p q) :
    q.Solvent ∧ q.vault.tokens = p.vault.tokens := by
  have h : p.vault.held.toNat = p.state.ledger.total.toNat := congrArg Word.toNat h
  cases ht with
  | rest htotal hvault =>
    refine ⟨Word.ext ?_, congrArg Vault.tokens hvault⟩
    rw [hvault, htotal, h]
  | deposit owner amount htotal hvault =>
    obtain ⟨hheld, htokens⟩ := Vault.deposit_eq_ok hvault
    exact ⟨Word.ext (by rw [hheld, htotal, h]), htokens⟩
  | release owner amount htotal hvault =>
    obtain ⟨hheld, htokens⟩ := Vault.release_eq_ok hvault
    exact ⟨Word.ext (by omega), htokens⟩

/-- Transfers keep what is in custody, and all tokens. -/
theorem keeps_transfer (source target : Address) (amount : Amount) (v : Vault) :
    Call.Keeps (fun w => w.held = v.held ∧ w.tokens = v.tokens)
      (Vault.transfer source target amount) := by
  refine Call.keeps_of (fun w u x hw h => ?_) fun w e x hw h => Vault.transfer_eq_error h ▸ hw
  obtain ⟨hheld, htokens⟩ := Vault.transfer_eq_ok h
  exact ⟨hheld.trans hw.1, htokens.trans hw.2⟩

/-- **A transition keeps custody and stakes equal**, and all tokens. -/
theorem Transition.solvent (ht : Transition p operation outcome q) (h : p.Solvent) :
    q.Solvent ∧ q.vault.tokens = p.vault.tokens := by
  -- most transitions touch neither of the two books
  have hrest : q.state.ledger.silent = p.state.ledger.silent → q.vault = p.vault →
      q.Solvent ∧ q.vault.tokens = p.vault.tokens := fun hledger hvault =>
    ⟨h.of_eq hledger (congrArg Vault.held hvault), congrArg Vault.tokens hvault⟩
  cases ht with
  | idle _ hsame hvault => exact hrest hsame.ledger hvault.vault_eq
  | staking _ _ _ _ _ htokens => exact h.of_tokens htokens
  | executing _ _ _ _ _ hledger _ _ hvault =>
    obtain ⟨hheld, htokens⟩ := hvault (fun w => w.held = p.vault.held ∧ w.tokens = p.vault.tokens)
      (fun source target amount => keeps_transfer source target amount p.vault) ⟨rfl, rfl⟩
    exact ⟨h.of_eq hledger hheld, htokens⟩
  | proposing _ henters | voting _ henters | queueing _ _ _ henters | canceling _ _ henters
  | pruning henters => exact hrest henters.ledger henters.vault

end Protocol

/-! ### Runs -/

namespace Run

variable {config : ProtocolConfig} {vault : Vault} {steps : List (Step Vault)} {p : Protocol Vault}

/-- **Solvency and conservation.** In every state of a run that begins without anything in
custody, the vault holds what is staked, what is staked is what the positions of all owners
come to, and the tokens in balances and in custody are in all as many as in the beginning,
whatever calls were made and whether they succeeded or failed. -/
theorem solvency (h : Run config vault steps p) (hheld : vault.held = .zero) :
    p.vault.held = p.state.ledger.totalStaked ∧
      p.state.ledger.totalStaked.toNat = p.state.ledger.locked ∧
      p.vault.tokens = vault.tokens := by
  have hsolvent : p.Solvent ∧ p.vault.tokens = vault.tokens := by
    refine h.invariant (P := fun _ p => p.Solvent ∧ p.vault.tokens = vault.tokens)
      (fun p hp => ?_) fun _ p operation outcome q _ _ ht ih => ?_
    · obtain ⟨rfl, -⟩ := Protocol.create_eq_ok hp
      exact ⟨hheld, rfl⟩
    · obtain ⟨hsolvent, htokens⟩ := ht.solvent ih.1
      exact ⟨hsolvent, htokens.trans ih.2⟩
  exact ⟨hsolvent.1, h.orderly.sound.total_eq_locked, hsolvent.2⟩

/-- In the small run, a fifth of the tokens is staked, and is in custody. -/
theorem solvency_sample :
    let p := (Run.perform Sample.start Sample.operations).2
    p.vault.held = Word.ofNat 1000 ∧ p.state.ledger.locked = 1000 ∧ p.vault.tokens = 5000 := by
  intro p
  have hheld : p.vault.held = Word.ofNat 1000 := by decide +kernel
  obtain ⟨hstaked, hlocked, htokens⟩ := solvency Sample.run rfl
  refine ⟨hheld, ?_, htokens.trans (by decide +kernel)⟩
  rw [← hlocked, ← hstaked, hheld]
  rfl

end Run

end StakeGovernance
