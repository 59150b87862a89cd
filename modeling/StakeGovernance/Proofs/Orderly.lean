import StakeGovernance.Proofs.Transitions

/-!
# What holds in every run

At any time of a run the ledger is sound and has not seen a later time than the clock, and
the delays of the timelock lie within the bounds of the settings, which never change. On
top of this, whatever holds of a new protocol and is kept by each transition holds at the
end of every run, together with the steps that led there.

* `StakeGovernance.Protocol.create_eq_ok` – a **new protocol**;
* `StakeGovernance.Protocol.Orderly` – a protocol **in good order**;
* `StakeGovernance.Protocol.Orderly.transition` – every transition **keeps the order**;
* `StakeGovernance.Run.orderly` – every run **ends in good order**;
* `StakeGovernance.Run.invariant` – **invariants** of runs.
-/

namespace StakeGovernance

/-! ### Ledgers without their reports -/

namespace Ledger

variable {l m : Ledger} {now : Timestamp}

theorem lastPoint_of_silent (h : m.silent = l.silent) : m.lastPoint = l.lastPoint := by
  show m.silent.lastPoint = l.silent.lastPoint
  rw [h]

theorem Sound.of_silent (hl : l.Sound) (h : m.silent = l.silent) : m.Sound :=
  (show m.silent.Sound from h ▸ hl.withEvents []).withEvents m.events

/-- A call moves the latest point up to its own time at most. -/
theorem Advances.lastPoint (h : Advances now l m) :
    m.lastPoint = l.lastPoint ∨ m.lastPoint = now := by
  cases h with
  | stay events => exact Or.inl rfl
  | write owner plan events hclock hplan => exact Or.inr rfl

end Ledger

/-! ### Good order -/

namespace Protocol

variable {ν : Type} {config : ProtocolConfig} {p q : Protocol ν}

/-- **A protocol in good order**, as it was set up. -/
structure Orderly (config : ProtocolConfig) (p : Protocol ν) : Prop where
  sound : p.state.ledger.Sound
  past : p.state.ledger.lastPoint ≤ p.state.clock
  minDelay : p.state.timelock.params.minDelay = config.timelock.minDelay
  maxDelay : p.state.timelock.params.maxDelay = config.timelock.maxDelay
  gracePeriod : p.state.timelock.params.gracePeriod = config.timelock.gracePeriod
  delays : p.state.timelock.params.validate = .ok ()

/-- Delays that pass their check lie within their bounds. -/
theorem delay_bounds {t : TimelockParams} (h : t.validate = .ok ()) :
    t.minDelay ≤ t.delay ∧ t.delay ≤ t.maxDelay := by
  unfold TimelockParams.validate at h
  split at h
  · cases h
  · split at h
    · cases h
    · rename_i hinside
      rw [not_or] at hinside
      exact ⟨Nat.le_of_not_lt hinside.1, Nat.le_of_not_lt hinside.2⟩

/-- **A new protocol**: nothing is staked and nothing is proposed. -/
theorem create_eq_ok {vault : ν} (h : create config vault = .ok p) :
    p = .ofSnapshot ⟨config.address, .empty config.staking,
        ⟨⟨config.address, config.governor, config.guardian, .empty, .empty, .ofNat 1, []⟩,
          ⟨config.address, config.timelock, .empty, []⟩⟩, .empty, .zero, .zero⟩ vault .empty ∧
      config.governor.validate = .ok () ∧ config.timelock.validate = .ok () := by
  obtain ⟨state, hstate, hp⟩ := Checked.bind_eq_ok.1 h
  obtain ⟨ledger, hledger, hrest⟩ := Checked.bind_eq_ok.1 hstate
  obtain ⟨governor, hgovernor, hrest⟩ := Checked.bind_eq_ok.1 hrest
  obtain ⟨timelock, htimelock, hs⟩ := Checked.bind_eq_ok.1 hrest
  obtain ⟨_, -, hl⟩ := Checked.bind_eq_ok.1 (Checked.mapError_eq_ok.1 hledger)
  obtain ⟨_, hrules, hg⟩ := Checked.bind_eq_ok.1 (Checked.refuse_eq_ok.1 hgovernor).2
  obtain ⟨_, hdelays, ht⟩ := Checked.bind_eq_ok.1 (Checked.refuse_eq_ok.1 htimelock).2
  obtain rfl := Checked.pure_eq_ok.1 hl
  obtain rfl := Checked.pure_eq_ok.1 hg
  obtain rfl := Checked.pure_eq_ok.1 ht
  obtain rfl := Checked.pure_eq_ok.1 hs
  exact ⟨(Checked.pure_eq_ok.1 hp).symm, hrules, hdelays⟩

/-- A new protocol is in good order. -/
theorem orderly_create {vault : ν} (h : create config vault = .ok p) : Orderly config p := by
  obtain ⟨rfl, -, hdelays⟩ := create_eq_ok h
  exact ⟨Ledger.sound_empty _, Nat.le_refl _, rfl, rfl, rfl, hdelays⟩

variable [Custody ν] {operation : Operation} {outcome : Except GovernanceError Outcome}

/-- What is changed is changed at a time that the clock reaches. -/
theorem Transition.ticks (h : Transition p operation outcome q) :
    p.state.clock ≤ q.state.clock := by
  cases h with
  | idle _ hsame _ => exact Nat.le_of_eq (congrArg Word.toNat hsame.clock.symm)
  | staking _ hticks => exact hticks.after ▸ hticks.before
  | executing _ _ _ hticks => exact hticks.after ▸ hticks.before
  | proposing _ henters | voting _ henters | queueing _ _ _ henters | canceling _ _ henters
  | pruning henters => exact henters.ticks.after ▸ henters.ticks.before

/-- **Stakes only advance**, and only when the clock does. -/
theorem Transition.ledger (h : Transition p operation outcome q) :
    q.state.ledger.silent = p.state.ledger.silent ∨
      p.state.clock ≤ q.state.clock ∧
        Ledger.Advances q.state.clock p.state.ledger.silent q.state.ledger := by
  cases h with
  | idle _ hsame _ => exact Or.inl hsame.ledger
  | staking _ hticks hledger =>
    exact Or.inr ⟨hticks.after ▸ hticks.before, hticks.after.symm ▸ hledger⟩
  | executing _ _ _ _ _ hledger => exact Or.inl hledger
  | proposing _ henters | voting _ henters | queueing _ _ _ henters | canceling _ _ henters
  | pruning henters => exact Or.inl henters.ledger

/-- **The bounds of the delay never change**, and the delay stays within them. -/
theorem Transition.delays (h : Transition p operation outcome q) :
    Timelock.Bounded p.state.timelock q.state.timelock := by
  cases h with
  | idle _ hsame _ => exact hsame.timelock.bounded
  | staking _ _ _ _ htimelock => exact htimelock.bounded
  | executing _ _ _ _ _ _ _ htimelock => exact htimelock
  | proposing _ henters | voting _ henters | queueing _ _ _ henters | canceling _ _ henters
  | pruning henters => exact henters.timelock.bounded

/-- **Every transition keeps the order.** -/
theorem Orderly.transition (h : Orderly config p) (ht : Transition p operation outcome q) :
    Orderly config q := by
  have hdelays := ht.delays
  have hledger : q.state.ledger.Sound ∧ q.state.ledger.lastPoint ≤ q.state.clock := by
    rcases ht.ledger with hsilent | ⟨hclock, hadvances⟩
    · rw [Ledger.lastPoint_of_silent hsilent]
      exact ⟨h.sound.of_silent hsilent, Nat.le_trans h.past ht.ticks⟩
    · refine ⟨(h.sound.withEvents []).advances hadvances, ?_⟩
      rcases hadvances.lastPoint with hlast | hlast
      · rw [hlast]
        exact Nat.le_trans h.past hclock
      · exact Nat.le_of_eq (congrArg Word.toNat hlast)
  exact ⟨hledger.1, hledger.2, hdelays.minDelay.trans h.minDelay,
    hdelays.maxDelay.trans h.maxDelay, hdelays.gracePeriod.trans h.gracePeriod,
    hdelays.valid h.delays⟩

end Protocol

/-! ### Runs -/

namespace Run

variable {ν : Type} [Custody ν] {config : ProtocolConfig} {vault : ν}
  {steps early late : List (Step ν)} {s : Step ν} {p : Protocol ν}

/-- **Every run ends in good order.** -/
theorem orderly (h : Run config vault steps p) : p.Orderly config := by
  -- what an operation does is only known on sound ledgers, so good order comes first of all
  induction h with
  | create h => exact Protocol.orderly_create h
  | step _ operation ih => exact ih.transition (Protocol.transition ih.sound operation)

/-- Any step of a run is a transition. -/
theorem transition_of_append (h : Run config vault (early ++ s :: late) p) :
    s.before.Transition s.operation s.outcome (s.operation.run.after s.before) := by
  obtain ⟨hrun, hs⟩ := h.of_append
  rw [show s.outcome = (s.operation.run.runFrom s.before).1 from congrArg Step.outcome hs]
  exact Protocol.transition hrun.orderly.sound s.operation

/-- **Invariants of runs**: what holds of a new protocol, without a step, and is kept by each
transition of a protocol in good order holds at the end of every run. -/
theorem invariant {P : List (Step ν) → Protocol ν → Prop}
    (hcreate : ∀ p, Protocol.create config vault = .ok p → P [] p)
    (htransition : ∀ steps p operation outcome q, Run config vault steps p → p.Orderly config →
      p.Transition operation outcome q → P steps p → P (steps ++ [⟨p, operation, outcome⟩]) q)
    (h : Run config vault steps p) : P steps p := by
  induction h with
  | create h => exact hcreate _ h
  | step h operation ih =>
    exact htransition _ _ _ _ _ h h.orderly (Protocol.transition h.orderly.sound operation) ih

end Run

end StakeGovernance
