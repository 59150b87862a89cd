import StakeGovernance.Proofs.Interchange
import StakeGovernance.Proofs.Journal

/-!
# Requests of different owners commute

Two owners ask for something about their stakes at the same time. Whoever is served first, each
gets the same answer, and everything ends up the same but for the order of the entries in the
journal.

What the second request comes to is planned on what the first one has left behind, and the two
may write to the same books: they may have the same delegatee, and the total is everybody's. But
what an owner is answered, what is reported, which tokens move and where anything is written is
settled by what the other owner leaves alone; only the amounts attributed, and the total, are
different ones each time. These are what the stakes come to once both have been served.

* `StakeGovernance.StakeChange.Alike` – two changes that **differ in numbers only**;
* `StakeGovernance.StakeChange.Planned.alike` – a request comes to **changes that are alike** on
  ledgers that are the same for its owner;
* `StakeGovernance.StakeChange.Planned.comm` – **ledgers** after the changes of two owners;
* `StakeGovernance.Protocol.Quiet.staking_eq_ok` – **all that a request changes**;
* `StakeGovernance.Run.owners_commute` – **requests of two owners** in a run.
-/

namespace StakeGovernance

namespace StakeChange

variable {l m : Ledger} {now : Timestamp} {owner a b : Address} {request first second : Request}
  {change other c c' d d' : StakeChange} {plan : Plan}

/-! ### Changes that are alike -/

/-- **Two changes of an owner differ in numbers only**: the owner gets the same answer, the same
is reported, the same tokens move, and what is written is alike. -/
structure Alike (owner : Address) (change other : StakeChange) : Prop where
  response : other.response = change.response
  plan : Option.Rel (Plan.Alike owner) change.plan other.plan
  events : other.events = change.events
  payment : other.payment = change.payment

/-- Nothing is planned for an owner who has the delegate already. -/
theorem delegateOf_of_planDelegate {target : Address}
    (h : l.planDelegate owner target now = .ok none) : l.delegateOf owner = target := by
  obtain ⟨-, h⟩ := Checked.refuse_eq_ok.1 h
  obtain ⟨_, -, h⟩ := Checked.bind_eq_ok.1 h
  simp only at h
  split at h
  · rename_i hsame
    exact hsame
  · obtain ⟨_, -, h⟩ := Checked.bind_eq_ok.1 h
    cases h

/-- **A request comes to changes that are alike** on two ledgers that are the same for its
owner. -/
theorem Planned.alike (h : Planned l now owner request change)
    (h' : Planned m now owner request other) (hsame : Ledger.SameFor owner l m) :
    change.Alike owner other := by
  cases h with
  | stake h =>
    cases h' with
    | stake h' =>
      have halike := hsame.planStake h h'
      exact ⟨congrArg Response.staked halike.result, .some halike.plan, halike.events, rfl⟩
  | extend h =>
    cases h' with
    | extend h' =>
      have halike := hsame.planExtend h h'
      exact ⟨congrArg Response.staked halike.result, .some halike.plan, halike.events, rfl⟩
  | withdraw h =>
    cases h' with
    | withdraw h' =>
      have halike := hsame.planWithdraw h h'
      exact ⟨congrArg Response.withdrawn halike.result, .some halike.plan, halike.events,
        congrArg Payment.release halike.result⟩
  | delegate h =>
    cases h' with
    | delegate h' =>
      have halike := hsame.planDelegate h h'
      exact ⟨congrArg Response.delegated halike.result, .some halike.plan, halike.events, rfl⟩
    | unchanged h' =>
      obtain ⟨-, hother, -⟩ := Ledger.planDelegate_eq_ok h
      exact absurd ((delegateOf_of_planDelegate h').symm.trans hsame.delegate) hother
  | unchanged h =>
    cases h' with
    | delegate h' =>
      obtain ⟨-, hother, -⟩ := Ledger.planDelegate_eq_ok h'
      exact absurd ((delegateOf_of_planDelegate h).symm.trans hsame.delegate.symm) hother
    | unchanged _ => exact ⟨rfl, .none, rfl, rfl⟩

/-! ### Ledgers -/

/-- What is written keeps the books in balance, and is written at a point that no log has
passed. -/
theorem Planned.balanced (h : Planned l now owner request change) (hl : l.Sound)
    (hplan : change.plan = some plan) : l.lastPoint ≤ now ∧ plan.Balanced l := by
  cases h with
  | stake h =>
    cases hplan
    obtain ⟨hbalanced, hclock, -⟩ := Ledger.planStake_spec hl.balanced h
    exact ⟨hclock, hbalanced⟩
  | extend h =>
    cases hplan
    obtain ⟨hbalanced, hclock, -⟩ := Ledger.planExtend_spec hl.balanced h
    exact ⟨hclock, hbalanced⟩
  | withdraw h =>
    cases hplan
    obtain ⟨hbalanced, hclock, -⟩ := Ledger.planWithdraw_spec hl.balanced h
    exact ⟨hclock, hbalanced⟩
  | delegate h =>
    cases hplan
    obtain ⟨hbalanced, hclock, -⟩ := Ledger.planDelegate_spec hl.balanced h
    exact ⟨hclock, hbalanced⟩
  | unchanged => cases hplan

theorem Planned.sound (h : Planned l now owner request change) (hl : l.Sound) :
    (change.ledger owner now l).Sound := by
  unfold ledger
  cases hplan : change.plan with
  | none => exact hl
  | some plan =>
    obtain ⟨hclock, hbalanced⟩ := h.balanced hl hplan
    exact hl.written hclock hbalanced

/-- **Another owner sees nothing of a change.** -/
theorem Planned.sameFor (h : Planned l now a request change) (hne : a ≠ b) :
    Ledger.SameFor b l (change.ledger a now l) := by
  -- that a plan is alike itself says that it writes nobody's stakes but its owner's
  have hself := (h.alike h (.refl a l)).plan
  unfold ledger
  cases hplan : change.plan with
  | none => exact .refl b l
  | some plan =>
    rw [hplan] at hself
    cases hself with
    | some halike => exact Ledger.sameFor_written halike hne l now

/-- **The changes of two owners at one point** lead to the same ledger in either order. -/
theorem Planned.comm (hl : l.Sound) (hne : a ≠ b) (hc : Planned l now a first c)
    (hd' : Planned (c.ledger a now l) now b second d') (hd : Planned l now b second d)
    (hc' : Planned (d.ledger b now l) now a first c') :
    c'.ledger a now (d.ledger b now l) = d'.ledger b now (c.ledger a now l) := by
  have hplans := (hc.alike hc' (hd.sameFor hne.symm)).plan
  have hplans' := (hd.alike hd' (hc.sameFor hne)).plan
  have hsound := hd'.sound (hc.sound hl)
  have hsound' := hc'.sound (hd.sound hl)
  have hclock : ∀ plan, c.plan = some plan → l.lastPoint ≤ now := fun _ hplan =>
    (hc.balanced hl hplan).1
  obtain ⟨response, P, events, payment⟩ := c
  obtain ⟨response', P', events', payment'⟩ := c'
  obtain ⟨response₂, Q, events₂, payment₂⟩ := d
  obtain ⟨response₂', Q', events₂', payment₂'⟩ := d'
  cases hplans with
  | none =>
    -- the first owner has nothing written, so the second has the same written each time
    cases hd.unique hd'
    rfl
  | some hP =>
    cases hplans' with
    | none =>
      cases hc.unique hc'
      rfl
    | some hQ => exact (Ledger.written_comm hP hQ hne hl (hclock _ rfl) hsound hsound').symm

/-- If a ledger has nothing left to report, neither has it after a change that was noticed. -/
theorem silent_reported (change : StakeChange) (hl : l.events = []) :
    (change.reported owner now l).silent = change.ledger owner now l := by
  have hsilent : l.silent = l := by
    unfold Ledger.silent
    rw [← hl]
  unfold reported ledger
  cases change.plan with
  | none => exact hsilent
  | some plan => exact congrArg (fun l : Ledger => l.written owner plan now) hsilent

end StakeChange

/-! ### All that a request changes -/

namespace Protocol

variable {ν : Type} {p q : Protocol ν} {now : Timestamp} {owner : Address} {request : Request}
  {response : Response}

/-- **What is recorded of a change**, if nothing else is left to record. -/
theorem Quiet.record_made (h : Quiet p) {first : Nat} (hseq : p.state.nextSeq = Word.ofNat first)
    (change : StakeChange) (v : ν) :
    (p.made owner now change v).record now = { p with
      state := { p.state with
        ledger := change.ledger owner now p.state.ledger
        clock := now
        nextSeq := Word.ofNat (first + change.events.length) }
      vault := v
      journal := p.journal ++ numbered now first (change.events.map .staking) } := by
  obtain ⟨hledger, hcouncil, hown⟩ := h.silent
  have hpending : (p.made owner now change v).pending = change.events.map .staking := by
    have hevents : (p.made owner now change v).state.ledger.events = change.events :=
      change.events_reported hledger
    rw [pending_eq, hevents]
    show _ ++ List.map _ (p.state.council.reports ++ p.events) = _
    rw [hcouncil, hown, List.append_nil, List.map_nil, List.append_nil]
  have hcleared : (p.made owner now change v).cleared = { p with
      state := { p.state with ledger := change.ledger owner now p.state.ledger, clock := now }
      vault := v } := by
    rw [← change.silent_reported hledger]
    exact congrArg (fun q : Protocol ν => ({ q with
      state := { q.state with
        ledger := (change.reported owner now p.state.ledger).silent, clock := now }
      vault := v } : Protocol ν)) (show p.cleared = p from h)
  rw [record_spec (p.made owner now change v) now hseq, hpending, hcleared, List.length_map]
  rfl

/-- **All that a request about stakes changes** if it succeeds: stakes, tokens, the time, and the
journal. -/
theorem Quiet.staking_eq_ok [Custody ν] (hquiet : Quiet p) {first : Nat}
    (hseq : p.state.nextSeq = Word.ofNat first) (hstaker : request.staker? = some owner)
    (h : request.run now p = .ok response q) :
    ∃ change v, StakeChange.Planned p.state.ledger now owner request change ∧
      response = change.response ∧ change.payment.run owner p.vault = .ok () v ∧
      q = { p with
        state := { p.state with
          ledger := change.ledger owner now p.state.ledger
          clock := now
          nextSeq := Word.ofNat (first + change.events.length) }
        vault := v
        journal := p.journal ++ numbered now first (change.events.map .staking) } := by
  obtain ⟨change, v, hplanned, hresponse, -, hpaid, rfl⟩ := Protocol.staking_eq_ok hstaker h
  exact ⟨change, v, hplanned, hresponse, hpaid, hquiet.record_made hseq change v⟩

end Protocol

/-! ### Runs -/

namespace Run

variable {config : ProtocolConfig} {vault : Vault} {steps : List (Step Vault)}
  {p q₁ q₂ q₁₂ q₂₁ : Protocol Vault} {now : Timestamp}

/-- **Requests of different owners commute.** In every state of a run, let two owners make a
request each, at the same time, to stake, to extend a lock, to withdraw or to delegate. If both
succeed in both orders, then each owner gets the same answer in both orders, and the protocol
afterwards is the same: the ledger with all its logs, pointers and totals, the vault, the clock
and the number of the next journal entry, and everything else besides the journal. The journal
has entries of the same events, if not in the same order. -/
theorem owners_commute (h : Run config vault steps p) {first second : Request} {a b : Address}
    (hfirst : first.staker? = some a) (hsecond : second.staker? = some b) (hne : a ≠ b)
    {r₁ r₂ r₁' r₂' : Response}
    (h₁ : first.run now p = .ok r₁ q₁) (h₁₂ : second.run now q₁ = .ok r₂ q₁₂)
    (h₂ : second.run now p = .ok r₂' q₂) (h₂₁ : first.run now q₂ = .ok r₁' q₂₁) :
    r₁' = r₁ ∧ r₂' = r₂ ∧ q₂₁ = { q₁₂ with journal := q₂₁.journal } ∧
      (q₂₁.journal.map (·.event)).Perm (q₁₂.journal.map (·.event)) := by
  have hquiet₁ := (Protocol.keeps_request first now).of_ok h₁ h.quiet
  have hquiet₂ := (Protocol.keeps_request second now).of_ok h₂ h.quiet
  obtain ⟨start, -, hstory⟩ := h.chronicled
  -- what each request comes to, first and second
  obtain ⟨c, v, hc, rfl, hv, rfl⟩ := h.quiet.staking_eq_ok hstory.nextSeq hfirst h₁
  obtain ⟨d, u, hd, rfl, hu, rfl⟩ := h.quiet.staking_eq_ok hstory.nextSeq hsecond h₂
  obtain ⟨d', w, hd', rfl, hw, rfl⟩ := hquiet₁.staking_eq_ok rfl hsecond h₁₂
  obtain ⟨c', x, hc', rfl, hx, rfl⟩ := hquiet₂.staking_eq_ok rfl hfirst h₂₁
  have halike := hc.alike hc' (hd.sameFor hne.symm)
  have halike' := hd.alike hd' (hc.sameFor hne)
  have hledger := StakeChange.Planned.comm h.orderly.sound hne hc hd' hd hc'
  have hvault : w = x := by
    rw [halike'.payment] at hw
    rw [halike.payment] at hx
    exact Payment.run_comm hne hv hw hu hx
  refine ⟨halike.response, halike'.response.symm, ?_, ?_⟩
  · rw [hledger, hvault, halike.events, halike'.events, Nat.add_right_comm]
  · simp only [List.map_append, Protocol.events_numbered, halike.events, halike'.events,
      List.append_assoc]
    exact List.perm_append_comm.append_left _

/-- In the small run, one account has staked a thousand. It adds a hundred to its lock while another
one stakes a thousand for the same delegate. -/
theorem owners_commute_sample :
    let bob : Address := ⟨List.replicate 20 2, rfl⟩
    let start : Protocol Vault :=
      { Sample.start with vault.balances := Sample.vault.balances.insert bob (Word.ofNat 1000) }
    let p := (perform start Sample.operations).2
    let first := (Request.extend Sample.alice (.ofNat (98 * day)) (.ofNat (100 * day))
      (Word.ofNat 100)).run (.ofNat 50)
    let second := (Request.stake bob (Word.ofNat 1000) (.ofNat (100 * day)) Sample.alice).run
      (.ofNat 50)
    let q₁₂ := second.after (first.after p)
    let q₂₁ := first.after (second.after p)
    (∀ q ∈ [p, second.after p], (first.runFrom q).1
        = .ok (.staked ⟨Sample.alice, .ofNat (98 * day), Word.ofNat 1100⟩)) ∧
      (∀ q ∈ [p, first.after p], (second.runFrom q).1
        = .ok (.staked ⟨bob, .ofNat (98 * day), Word.ofNat 1000⟩)) ∧
      q₁₂.state.ledger.total = Word.ofNat 2100 ∧ q₂₁ = { q₁₂ with journal := q₂₁.journal } ∧
      (q₂₁.journal.map (·.event)).Perm (q₁₂.journal.map (·.event)) := by
  intro bob start p first second q₁₂ q₂₁
  have hrun : Run Sample.config start.vault (perform start Sample.operations).1 p :=
    (Run.create (by rfl)).perform_run Sample.operations
  have hfirst : ∀ q ∈ [p, second.after p], (first.runFrom q).1
      = .ok (.staked ⟨Sample.alice, .ofNat (98 * day), Word.ofNat 1100⟩) := by decide +kernel
  have hsecond : ∀ q ∈ [p, first.after p], (second.runFrom q).1
      = .ok (.staked ⟨bob, .ofNat (98 * day), Word.ofNat 1000⟩) := by decide +kernel
  have htotal : ∀ q ∈ [q₁₂], q.state.ledger.total = Word.ofNat 2100 := by decide +kernel
  have hne : Sample.alice ≠ bob := by decide
  have h₁₂ : second (first.after p) = .ok _ q₁₂ :=
    Call.eq_ok_of_runFrom (hsecond (first.after p) (List.mem_cons_of_mem _ List.mem_cons_self))
  have h₂₁ : first (second.after p) = .ok _ q₂₁ :=
    Call.eq_ok_of_runFrom (hfirst (second.after p) (List.mem_cons_of_mem _ List.mem_cons_self))
  obtain ⟨-, -, hsame, hjournal⟩ := owners_commute hrun rfl rfl hne
    (Call.eq_ok_of_runFrom (hfirst p List.mem_cons_self)) h₁₂
    (Call.eq_ok_of_runFrom (hsecond p List.mem_cons_self)) h₂₁
  exact ⟨hfirst, hsecond, htotal q₁₂ List.mem_cons_self, hsame, hjournal⟩

end Run

end StakeGovernance
