import StakeGovernance.Proofs.Calls
import StakeGovernance.Protocol.Operations

/-!
# Settling a call

When a call is settled, what it reported passes into the journal. Apart from that and from
the clock the protocol is what the call has left behind.

* `StakeGovernance.Ledger.silent`, `StakeGovernance.Governor.silent`,
  `StakeGovernance.Timelock.silent` – the parts of a protocol **without their reports**;
* `StakeGovernance.Protocol.settled_eq_ok`, `StakeGovernance.Protocol.settled_eq_error` –
  what a call **is settled to**;
* `StakeGovernance.Protocol.withCustody_eq_ok`,
  `StakeGovernance.Protocol.withCustody_eq_error` – a call on the ledger **with a movement of
  tokens** after it.
-/

namespace StakeGovernance

/-- The ledger without its reports. -/
def Ledger.silent (l : Ledger) : Ledger := { l with events := [] }

/-- The governor without its reports. -/
def Governor.silent (g : Governor) : Governor := { g with events := [] }

/-- The timelock without its reports. -/
def Timelock.silent (t : Timelock) : Timelock := { t with events := [] }

namespace Protocol

variable {ν α : Type} {p q : Protocol ν} {now : Timestamp} {e : GovernanceError}

/-! ### The journal -/

/-- What an entry of the journal leaves alone, the whole record of a call leaves alone. -/
theorem record_frame {β : Type} {f : Protocol ν → β}
    (h : ∀ (p : Protocol ν) (event : ProtocolEvent), f (append now p event) = f p)
    (p : Protocol ν) : f (p.record now) = f p.cleared := by
  unfold record
  -- the entries are appended one by one, to whatever there is after those before
  generalize p.pending = events
  generalize p.cleared = start
  induction events generalizing start with
  | nil => rfl
  | cons event rest ih =>
    rw [List.foldl_cons, ih, h]

@[simp] theorem record_ledger (p : Protocol ν) (now : Timestamp) :
    (p.record now).state.ledger = p.state.ledger.silent :=
  record_frame (f := fun p => p.state.ledger) (fun _ _ => rfl) p

@[simp] theorem record_council (p : Protocol ν) (now : Timestamp) :
    (p.record now).state.council = ⟨p.state.governor.silent, p.state.timelock.silent⟩ :=
  record_frame (f := fun p => p.state.council) (fun _ _ => rfl) p

@[simp] theorem record_governor (p : Protocol ν) (now : Timestamp) :
    (p.record now).state.governor = p.state.governor.silent :=
  congrArg Council.governor (record_council p now)

@[simp] theorem record_timelock (p : Protocol ν) (now : Timestamp) :
    (p.record now).state.timelock = p.state.timelock.silent :=
  congrArg Council.timelock (record_council p now)

@[simp] theorem record_clock (p : Protocol ν) (now : Timestamp) :
    (p.record now).state.clock = p.state.clock :=
  record_frame (f := fun p => p.state.clock) (fun _ _ => rfl) p

@[simp] theorem record_vault (p : Protocol ν) (now : Timestamp) :
    (p.record now).vault = p.vault :=
  record_frame (f := fun p => p.vault) (fun _ _ => rfl) p

/-! ### Settled calls -/

/-- **A call that succeeds** sets the clock before its reports are recorded. -/
theorem settled_eq_ok {call : Call GovernanceError (Protocol ν) α} {a : α} :
    settled now call p = .ok a q ↔ ∃ r, call p = .ok a r ∧ q = (r.withClock now).record now := by
  unfold settled
  cases call p with
  | ok b r =>
    constructor
    · intro h
      cases h
      exact ⟨r, rfl, rfl⟩
    · rintro ⟨_, h, rfl⟩
      cases h
      rfl
  | error d r =>
    constructor
    · intro h
      cases h
    · rintro ⟨_, h, -⟩
      cases h

/-- **A call that fails** leaves the clock alone. -/
theorem settled_eq_error {call : Call GovernanceError (Protocol ν) α} :
    settled now call p = .error e q ↔ ∃ r, call p = .error e r ∧ q = r.record now := by
  unfold settled
  cases call p with
  | ok b r =>
    constructor
    · intro h
      cases h
    · rintro ⟨_, h, -⟩
      cases h
  | error d r =>
    constructor
    · intro h
      cases h
      exact ⟨r, rfl, rfl⟩
    · rintro ⟨_, h, rfl⟩
      cases h
      rfl

theorem checkClock_eq_ok {u : Unit} :
    checkClock now p = .ok u q ↔ p.state.clock ≤ now ∧ p = q := by
  unfold checkClock ProtocolState.checkClock
  rw [Call.bind_eq_ok]
  simp only [Call.get_eq_ok]
  constructor
  · rintro ⟨_, _, ⟨rfl, rfl⟩, h⟩
    rw [Call.lift_eq_ok] at h
    split at h
    · cases h.1
    · rename_i hlt
      exact ⟨Nat.le_of_not_lt hlt, h.2⟩
  · rintro ⟨hle, rfl⟩
    refine ⟨p, p, ⟨rfl, rfl⟩, Call.lift_eq_ok.2 ⟨if_neg fun hlt => ?_, rfl⟩⟩
    exact absurd hle (Nat.not_le_of_lt hlt)

theorem checkClock_eq_error (h : checkClock now p = .error e q) :
    e = .clockBehind now p.state.clock ∧ p = q := by
  unfold checkClock ProtocolState.checkClock at h
  rcases Call.bind_eq_error.1 h with h | ⟨_, _, hget, h⟩
  · cases h
  · obtain ⟨rfl, rfl⟩ := Call.get_eq_ok.1 hget
    rw [Call.lift_eq_error] at h
    split at h
    · obtain ⟨he, rfl⟩ := h
      cases he
      exact ⟨rfl, rfl⟩
    · cases h.1

/-- A call that is refused at a time, or goes on. -/
theorem timed_eq_ok {call : Call GovernanceError (Protocol ν) α} {a : α}
    (h : (checkClock now >>= fun _ => call) p = .ok a q) :
    p.state.clock ≤ now ∧ call p = .ok a q := by
  obtain ⟨_, _, hclock, h⟩ := Call.bind_eq_ok.1 h
  obtain ⟨hle, rfl⟩ := checkClock_eq_ok.1 hclock
  exact ⟨hle, h⟩

theorem timed_eq_error {call : Call GovernanceError (Protocol ν) α}
    (h : (checkClock now >>= fun _ => call) p = .error e q) :
    (e = .clockBehind now p.state.clock ∧ p = q) ∨ call p = .error e q := by
  rcases Call.bind_eq_error.1 h with h | ⟨_, _, hclock, h⟩
  · exact Or.inl (checkClock_eq_error h)
  · obtain ⟨-, rfl⟩ := checkClock_eq_ok.1 hclock
    exact Or.inr h

/-! ### Calls on parts -/

theorem onLedger_eq_ok {call : Call StakingError Ledger α} {a : α}
    (h : onLedger call p = .ok a q) : ∃ l, call p.state.ledger = .ok a l ∧ q = p.withLedger l :=
  Call.part_eq_ok.1 h

theorem onLedger_eq_error {call : Call StakingError Ledger α} (h : onLedger call p = .error e q) :
    ∃ d l, call p.state.ledger = .error d l ∧ q = p.withLedger l := by
  obtain ⟨d, l, h, -, hq⟩ := Call.part_eq_error.1 h
  exact ⟨d, l, h, hq⟩

theorem onCouncil_eq_ok {call : Call GovernanceError Council α} {a : α}
    (h : onCouncil call p = .ok a q) :
    ∃ c, call p.state.council = .ok a c ∧ q = p.withCouncil c :=
  Call.part_eq_ok.1 h

theorem onCouncil_eq_error {call : Call GovernanceError Council α}
    (h : onCouncil call p = .error e q) :
    ∃ c, call p.state.council = .error e c ∧ q = p.withCouncil c := by
  obtain ⟨_, c, h, rfl, hq⟩ := Call.part_eq_error.1 h
  exact ⟨c, h, hq⟩

theorem onGovernor_eq_ok {call : Call GovernanceError Governor α} {a : α}
    (h : onGovernor call p = .ok a q) :
    ∃ g, call p.state.governor = .ok a g ∧ q = p.withCouncil ⟨g, p.state.timelock⟩ := by
  obtain ⟨_, hcouncil, rfl⟩ := onCouncil_eq_ok h
  obtain ⟨g, hg, rfl⟩ := Call.part_eq_ok.1 hcouncil
  exact ⟨g, hg, rfl⟩

theorem onGovernor_eq_error {call : Call GovernanceError Governor α}
    (h : onGovernor call p = .error e q) :
    ∃ g, call p.state.governor = .error e g ∧ q = p.withCouncil ⟨g, p.state.timelock⟩ := by
  obtain ⟨_, hcouncil, rfl⟩ := onCouncil_eq_error h
  obtain ⟨_, g, hg, rfl, rfl⟩ := Call.part_eq_error.1 hcouncil
  exact ⟨g, hg, rfl⟩

/-! ### Stakes and tokens -/

/-- A movement of tokens that succeeds is made after the call on the ledger. -/
theorem withCustody_eq_ok {call : Call StakingError Ledger α}
    {custody : α → Call StakingError ν Unit} {a : α}
    (h : withCustody call custody p = .ok a q) :
    ∃ l v, call p.state.ledger = .ok a l ∧ custody a p.vault = .ok () v ∧
      q = { p.withLedger l with vault := v } := by
  unfold withCustody at h
  cases hcall : onLedger call p with
  | error d r =>
    rw [hcall] at h
    cases h
  | ok b r =>
    rw [hcall] at h
    obtain ⟨l, hl, rfl⟩ := onLedger_eq_ok hcall
    cases hcustody : onVault GovernanceError.staking (custody b) (p.withLedger l) with
    | error d r =>
      simp only [hcustody] at h
      cases h
    | ok u r =>
      simp only [hcustody] at h
      obtain ⟨v, hv, rfl⟩ := Call.part_eq_ok.1 hcustody
      cases h
      exact ⟨l, v, hl, hv, rfl⟩

/-- A call on the ledger that succeeds, with a movement of tokens that succeeds. -/
theorem withCustody_of_ok {call : Call StakingError Ledger α}
    {custody : α → Call StakingError ν Unit} {a : α} {l : Ledger} {v : ν}
    (hcall : call p.state.ledger = .ok a l) (hcustody : custody a p.vault = .ok () v) :
    withCustody call custody p = .ok a { p.withLedger l with vault := v } := by
  have hledger : onLedger call p = .ok a (p.withLedger l) := Call.part_eq_ok.2 ⟨l, hcall, rfl⟩
  have hvault : onVault GovernanceError.staking (custody a) (p.withLedger l)
      = .ok () { p.withLedger l with vault := v } := Call.part_eq_ok.2 ⟨v, hcustody, rfl⟩
  unfold withCustody
  simp only [hledger, hvault]

/-- A movement of tokens that is refused decides the call. -/
theorem withCustody_of_refused {call : Call StakingError Ledger α}
    {custody : α → Call StakingError ν Unit} {a : α} {l : Ledger} {v : ν} {d : StakingError}
    (hcall : call p.state.ledger = .ok a l) (hcustody : custody a p.vault = .error d v) :
    withCustody call custody p = .error (.staking d) { p with vault := v } := by
  have hledger : onLedger call p = .ok a (p.withLedger l) := Call.part_eq_ok.2 ⟨l, hcall, rfl⟩
  have hvault : onVault GovernanceError.staking (custody a) (p.withLedger l)
      = .error (.staking d) { p.withLedger l with vault := v } :=
    Call.part_eq_error.2 ⟨d, v, hcustody, rfl, rfl⟩
  unfold withCustody
  simp only [hledger, hvault]
  rfl

/-- If the movement of tokens fails, the ledger is as before. -/
theorem withCustody_eq_error {call : Call StakingError Ledger α}
    {custody : α → Call StakingError ν Unit} (h : withCustody call custody p = .error e q) :
    (∃ d l, call p.state.ledger = .error d l ∧ q = p.withLedger l) ∨
      ∃ a l d v, call p.state.ledger = .ok a l ∧ custody a p.vault = .error d v ∧
        q = { p with vault := v } := by
  unfold withCustody at h
  cases hcall : onLedger call p with
  | error d r =>
    rw [hcall] at h
    cases h
    exact Or.inl (onLedger_eq_error hcall)
  | ok b r =>
    rw [hcall] at h
    obtain ⟨l, hl, rfl⟩ := onLedger_eq_ok hcall
    cases hcustody : onVault GovernanceError.staking (custody b) (p.withLedger l) with
    | ok u r =>
      simp only [hcustody] at h
      cases h
    | error d r =>
      simp only [hcustody] at h
      obtain ⟨c, v, hv, -, rfl⟩ := Call.part_eq_error.1 hcustody
      cases h
      exact Or.inr ⟨b, l, c, v, hl, hv, rfl⟩

end Protocol

end StakeGovernance
