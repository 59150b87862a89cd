import Mathlib.Data.List.Range
import Mathlib.Data.Nat.ModEq
import StakeGovernance.Proofs.Tables

/-!
# Proposals of a run and their numbers

Proposals are numbered in the order in which they are made, from one on. The numbers are
words, and start again only after all of them have been given out. Until then, a step that
is about a proposal comes after the one step that made it.

* `StakeGovernance.Protocol.Transition.made` – the one kind of step that **makes a proposal**;
* `StakeGovernance.Numbered` – the **numbers** that have been given out;
* `StakeGovernance.Run.numbered` – a run gives them out **in order**;
* `StakeGovernance.Run.not_about_of_made` – nothing is about a proposal **before it is made**.
-/

namespace StakeGovernance

namespace Protocol

variable {ν : Type} [Custody ν] {p q : Protocol ν} {operation : Operation}
  {outcome : Except GovernanceError Outcome} {id : ProposalId}

/-- **One kind of step makes a proposal**, under the next number. No other one touches that number,
or what the governor knows of the proposers. -/
theorem Transition.made (h : Transition p operation outcome q) :
    ((Step.mk p operation outcome).proposed? = none ∧
        q.state.governor.latestByProposer = p.state.governor.latestByProposer ∧
        q.state.governor.nextId = p.state.governor.nextId) ∨
      ∃ proposer content now draft,
        (Step.mk p operation outcome).proposed? = some draft.id ∧
        p.state.governor.draft p.state.ledger proposer content now = .ok draft ∧
        draft.proposer = proposer ∧ draft.id = p.state.governor.nextId ∧
        Enters now (p.state.governor.enter draft) p q := by
  cases h with
  | idle hanswer hsame =>
    exact Or.inl ⟨Step.proposed?_of_about? (Step.about?_of_idle hanswer),
      Governor.latest_of_silent hsame.governor, Governor.nextId_of_silent hsame.governor⟩
  | staking hrequest _ _ hgovernor =>
    exact Or.inl ⟨Step.proposed?_of_about? (Step.about?_of_staking hrequest rfl),
      Governor.latest_of_silent hgovernor, Governor.nextId_of_silent hgovernor⟩
  | @proposing proposer content now draft _ hdraft henters =>
    refine Or.inr ⟨proposer, content, now, draft, rfl, hdraft, ?_⟩
    obtain ⟨_, _, _, -, -, -, rfl⟩ := Governor.draft_eq_ok hdraft
    exact ⟨rfl, rfl, henters⟩
  | voting _ henters | queueing _ _ _ henters | canceling _ _ henters | pruning henters =>
    exact Or.inl ⟨rfl, (Governor.latest_of_silent henters.governor).trans rfl,
      (Governor.nextId_of_silent henters.governor).trans rfl⟩
  | executing _ _ _ _ _ _ hgovernor =>
    exact Or.inl ⟨rfl, hgovernor.latestByProposer, hgovernor.nextId⟩

/-- **What a transition does to the numbers**: a new proposal takes the next one, and nothing
else enters the table. -/
theorem Transition.numbers (h : Transition p operation outcome q) :
    ((Step.mk p operation outcome).proposed? = none ∧
        q.state.governor.nextId = p.state.governor.nextId ∧
        ∀ j, (q.state.governor.get? j).isSome → (p.state.governor.get? j).isSome) ∨
      (Step.mk p operation outcome).proposed? = some p.state.governor.nextId ∧
        q.state.governor.nextId = p.state.governor.nextId.next ∧
        ∀ j, (q.state.governor.get? j).isSome →
          j = p.state.governor.nextId ∨ (p.state.governor.get? j).isSome := by
  -- what is new in the table was made by this step
  have htable : ∀ j, (q.state.governor.get? j).isSome → (p.state.governor.get? j).isSome ∨
      (Step.mk p operation outcome).proposed? = some j := by
    intro j hj
    obtain ⟨proposal, hfind⟩ := Option.isSome_iff_exists.1 hj
    cases h.origin hfind with
    | kept hbefore | voted hbefore | queued hbefore | canceled hbefore | executed hbefore =>
      exact Or.inl (hbefore ▸ rfl)
    | made hid => exact Or.inr (hid ▸ rfl)
  rcases h.made with ⟨hnone, -, hnextId⟩ | ⟨_, _, _, draft, hsome, -, -, hid, henters⟩
  · refine Or.inl ⟨hnone, hnextId, fun j hj => ?_⟩
    rcases htable j hj with hbefore | hmade
    · exact hbefore
    · cases hnone.symm.trans hmade
  · rw [hid] at hsome
    refine Or.inr ⟨hsome, Governor.nextId_of_silent henters.governor, fun j hj => ?_⟩
    exact (htable j hj).symm.imp_left fun hmade => Option.some.inj (hmade.symm.trans hsome)

/-- A step is about a proposal that it makes, or that is in the table already. -/
theorem Transition.about (h : Transition p operation outcome q)
    (habout : (Step.mk p operation outcome).About id) :
    (Step.mk p operation outcome).proposed? = some id ∨ (p.state.governor.get? id).isSome := by
  cases h with
  | idle hanswer _ _ => cases (Step.about?_of_idle hanswer).symm.trans habout
  | staking hrequest _ _ _ _ _ => cases (Step.about?_of_staking hrequest rfl).symm.trans habout
  | proposing hdraft henters =>
    cases habout
    exact Or.inl rfl
  | voting hballot henters => cases habout
  | queueing hfind _ _ _ | canceling hfind _ _ | executing hfind _ _ _ _ _ _ _ _ =>
    cases habout
    exact Or.inr (hfind ▸ rfl)
  | pruning henters => cases habout

end Protocol

/-! ### The numbers of a run -/

/-- The first numbers that are given out. -/
def numbers (n : Nat) : List ProposalId := (List.range n).map fun k => .ofNat (k + 1)

theorem numbers_succ (n : Nat) : numbers (n + 1) = numbers n ++ [.ofNat (n + 1)] := by
  unfold numbers
  rw [List.range_succ, List.map_append]
  rfl

theorem length_numbers (n : Nat) : (numbers n).length = n := by
  unfold numbers
  rw [List.length_map, List.length_range]

/-- No number is given out twice before all have been given out. -/
theorem nodup_numbers {n : Nat} (h : n ≤ Word.size 64) : (numbers n).Nodup := by
  refine List.Nodup.map_on (fun j hj k hk e => ?_) List.nodup_range
  have hmod : j + 1 ≡ k + 1 [MOD Word.size 64] := congrArg Word.toNat e
  exact Nat.ModEq.eq_of_lt_of_lt (Nat.ModEq.add_right_cancel' 1 hmod)
    (Nat.lt_of_lt_of_le (List.mem_range.1 hj) h) (Nat.lt_of_lt_of_le (List.mem_range.1 hk) h)

/-- Before all numbers have been given out, the first ones are those from one on. -/
theorem mem_numbers_iff {n : Nat} (h : n < Word.size 64) {id : ProposalId} :
    id ∈ numbers n ↔ 1 ≤ id.toNat ∧ id.toNat ≤ n := by
  unfold numbers
  rw [List.mem_map]
  constructor
  · rintro ⟨k, hk, rfl⟩
    have hk : k < n := List.mem_range.1 hk
    rw [Word.toNat_ofNat, Nat.mod_eq_of_lt (by omega)]
    omega
  · rintro ⟨hfirst, hlast⟩
    refine ⟨id.toNat - 1, List.mem_range.2 (by omega), Word.ext ?_⟩
    rw [Word.toNat_ofNat, Nat.mod_eq_of_lt (by omega)]
    omega

theorem previous_ofNat {n : Nat} (h : n < Word.size 64) :
    (Word.ofNat (n + 1) : ProposalId).previous.toNat = n := by
  show ((n + 1) % Word.size 64 + (Word.size 64 - 1)) % Word.size 64 = n
  rw [Nat.mod_add_mod]
  have hsum : n + 1 + (Word.size 64 - 1) = n + Word.size 64 := by omega
  rw [hsum, Nat.add_mod_right, Nat.mod_eq_of_lt h]

/-- **The first numbers have been given out** in order, the next proposal gets the number
after them, and every proposal of the table has one of them. -/
structure Numbered {ν : Type} (n : Nat) (steps : List (Step ν)) (p : Protocol ν) : Prop where
  given : steps.filterMap Step.proposed? = numbers n
  next : p.state.governor.nextId = .ofNat (n + 1)
  table : ∀ j, (p.state.governor.get? j).isSome → j ∈ numbers n

namespace Run

variable {ν : Type} [Custody ν] {config : ProtocolConfig} {vault : ν}
  {steps early late : List (Step ν)} {p : Protocol ν} {s : Step ν} {id : ProposalId}

/-- **A run has given out the first numbers in order.** -/
theorem numbered (h : Run config vault steps p) : ∃ n, Numbered n steps p := by
  refine h.invariant (P := fun steps p => ∃ n, Numbered n steps p) (fun p hp => ?_)
    fun steps p operation outcome q _ _ ht ih => ?_
  · obtain ⟨rfl, -⟩ := Protocol.create_eq_ok hp
    exact ⟨0, rfl, rfl, fun j hj => by cases hj⟩
  · obtain ⟨n, hn⟩ := ih
    rcases ht.numbers with ⟨hnone, hnextId, hkept⟩ | ⟨hsome, hnextId, hkept⟩
    · refine ⟨n, ?_, hnextId.trans hn.next, fun j hj => hn.table j (hkept j hj)⟩
      rw [List.filterMap_append, List.filterMap_cons_none hnone, hn.given]
      exact List.append_nil _
    · refine ⟨n + 1, ?_, ?_, fun j hj => ?_⟩
      · rw [List.filterMap_append, List.filterMap_cons_some hsome, hn.given, hn.next, numbers_succ]
        rfl
      · rw [hnextId, hn.next, Word.next_ofNat]
      · rw [numbers_succ, List.mem_append, List.mem_singleton, ← hn.next]
        exact (hkept j hj).symm.imp_left (hn.table j)

/-- What a step is about was made before, or by the step itself. -/
theorem mem_proposed_of_about (h : Run config vault (early ++ s :: late) p) (habout : s.About id) :
    id ∈ (early ++ [s]).filterMap Step.proposed? := by
  obtain ⟨n, hn⟩ := h.of_append.1.numbered
  rw [List.filterMap_append, hn.given, List.mem_append]
  rcases h.transition_of_append.about habout with hsome | hfound
  · refine Or.inr ?_
    rw [List.filterMap_cons_some hsome]
    exact List.mem_singleton.2 rfl
  · exact Or.inl (hn.table id hfound)

/-- **No number is given out twice**, as long as not all have been given out. -/
theorem nodup_proposed (h : Run config vault steps p)
    (hfew : (steps.filterMap Step.proposed?).length ≤ Word.size 64) :
    (steps.filterMap Step.proposed?).Nodup := by
  obtain ⟨n, hn⟩ := h.numbered
  rw [hn.given, length_numbers] at hfew
  rw [hn.given]
  exact nodup_numbers hfew

/-- **Nothing is about a proposal before it is made**, as long as not all numbers have been
given out. -/
theorem not_about_of_made (h : Run config vault (early ++ s :: late) p)
    (hmade : s.proposed? = some id)
    (hfew : ((early ++ s :: late).filterMap Step.proposed?).length ≤ Word.size 64) :
    ∀ r ∈ early, ¬ r.About id := by
  intro r hr habout
  have hnodup := h.nodup_proposed hfew
  obtain ⟨first, rest, rfl⟩ := List.append_of_mem hr
  have hmem : id ∈ (first ++ [r]).filterMap Step.proposed? := by
    rw [List.append_assoc, List.cons_append] at h
    exact h.mem_proposed_of_about habout
  -- the number would have been given out twice, by then and by the step that made it
  rw [List.filterMap_append, List.filterMap_cons_some hmade] at hnodup
  refine (List.nodup_append.1 hnodup).2.2 id ?_ id List.mem_cons_self rfl
  rw [show first ++ r :: rest = (first ++ [r]) ++ rest by simp, List.filterMap_append]
  exact List.mem_append_left _ hmem

end Run

end StakeGovernance
