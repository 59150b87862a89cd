import StakeGovernance.Proofs.Reports

/-!
# The journal is a complete record

What the parts of the protocol report of a call passes into the journal when the call is
settled, in one row and with numbers that go on where the last row ended. A call that fails
reports nothing, and taking entries out of the journal does not change what they say. So
whoever has all entries that were ever taken, and those that are still there, can read the
present state of stakes, delegates, proposals and of the queue off them.

* `StakeGovernance.Protocol.Carried` – what is reported **while actions are carried out**;
* `StakeGovernance.Protocol.request_reported` – **every request** reports what it has changed;
* `StakeGovernance.Protocol.record_numbered` – the **numbers** of a row of entries;
* `StakeGovernance.Run.entries` – **all entries** of a run;
* `StakeGovernance.Run.chronicled_step` – **one step** goes on with the story;
* `StakeGovernance.Run.journal_is_complete` – they **tell the state** that the run ends in.
-/

namespace StakeGovernance

namespace Protocol

variable {ν α : Type} {p q r : Protocol ν} {hashes : List Digest} {now : Timestamp}

/-! ### Actions -/

/-- **Actions that were carried out**, under some digests: the protocol has reported of each of
them, and of settings besides; nobody else has reported anything. -/
structure Carried (p : Protocol ν) (hashes : List Digest) (q : Protocol ν) : Prop where
  journal : q.journal = p.journal
  nextSeq : q.state.nextSeq = p.state.nextSeq
  governor : q.state.governor.events = p.state.governor.events
  timelock : q.state.timelock.events = p.state.timelock.events
  reports : ∃ events, q.events = p.events ++ events ∧
    (∀ id before, (events.map ProtocolEvent.governance).foldl (Replay.docket id) before = before) ∧
    ∀ hash before, (events.map ProtocolEvent.governance).foldl (Replay.queued hash) before
      = if hash ∈ hashes then false else before

theorem Carried.refl (p : Protocol ν) : Carried p [] p :=
  ⟨rfl, rfl, rfl, rfl, [], (List.append_nil _).symm, fun _ _ => rfl, fun _ _ => rfl⟩

/-- A setting is neither about a proposal nor about an action. -/
theorem Carried.note_setting (h : Carried p hashes q) {event : GovernanceEvent}
    (hdocket : ∀ id before, Replay.docket id before (.governance event) = before)
    (hqueued : ∀ hash before, Replay.queued hash before (.governance event) = before) :
    Carried p hashes (q.note event) := by
  obtain ⟨events, hevents, hdockets, hqueue⟩ := h.reports
  refine ⟨h.journal, h.nextSeq, h.governor, h.timelock, events ++ [event], ?_, fun id before => ?_,
    fun hash before => ?_⟩
  · show q.events ++ [event] = _
    rw [hevents, List.append_assoc]
  · rw [List.map_append, List.foldl_append, hdockets]
    exact hdocket id before
  · rw [List.map_append, List.foldl_append, hqueue]
    exact hqueued hash _

/-- **An action that was carried out** is reported under its digest, however it went. -/
theorem Carried.note_executed (h : Carried p hashes q) (hash : Digest) (target : Address)
    (success : Bool) :
    Carried p (hashes ++ [hash]) (q.note (.actionExecuted hash target success)) := by
  obtain ⟨events, hevents, hdockets, hqueue⟩ := h.reports
  refine ⟨h.journal, h.nextSeq, h.governor, h.timelock,
    events ++ [.actionExecuted hash target success], ?_, fun id before => ?_,
    fun other before => ?_⟩
  · show q.events ++ [_] = _
    rw [hevents, List.append_assoc]
  · rw [List.map_append, List.foldl_append, hdockets]
    rfl
  · rw [List.map_append, List.foldl_append, hqueue]
    show (if other = hash then false else if other ∈ hashes then false else before) = _
    by_cases hother : other = hash
    · simp [hother]
    · simp [hother]

/-- Whoever reports nothing leaves what was reported alone. -/
theorem keeps_carried_onCouncil {call : Call GovernanceError Council α}
    (h : Call.Keeps (fun c => c.governor.events = p.state.governor.events ∧
      c.timelock.events = p.state.timelock.events) call) :
    Call.Keeps (Carried p hashes) (onCouncil call) :=
  .part fun q hq => by
    obtain ⟨hgovernor, htimelock⟩ := h q.state.council ⟨hq.governor, hq.timelock⟩
    exact ⟨hq.journal, hq.nextSeq, hgovernor, htimelock, hq.reports⟩

theorem keeps_carried_adopt (rules : Governor → GovernorParams) :
    Call.Keeps (Carried p hashes) (onGovernor do Governor.adopt (rules (← get))) :=
  keeps_carried_onCouncil (.part fun c hc => by
    have hadopt : ∀ params, Call.Keeps (fun g => g.events = p.state.governor.events)
        (Governor.adopt params) := fun params => by
      refine Call.Keeps.bind (.lift _) fun _ => .modify fun g hg => ?_
      exact hg
    exact ⟨hadopt (rules c.governor) c.governor hc.1, hc.2⟩)

theorem keeps_carried_setDelay (caller : Protocol ν → Address) (delay : Timestamp) :
    Call.Keeps (Carried p hashes) (do onTimelock (Timelock.setDelay (caller (← get)) delay)) := by
  have hdelay : ∀ address, Call.Keeps (fun t => t.events = p.state.timelock.events)
      (Timelock.setDelay address delay) := fun address => by
    refine Call.Keeps.get_bind fun t ht => ?_
    refine Call.Keeps.bind (P := fun t => t.events = p.state.timelock.events) (.lift _)
      (fun _ => .bind (.lift _) fun _ => .set ?_) t ht
    exact ht
  refine .get_bind fun q hq => keeps_carried_onCouncil (.part fun c hc => ?_) q hq
  exact ⟨hc.1, hdelay (caller q) c.timelock hc.2⟩

theorem keeps_carried_change {name value : String}
    {call : Call GovernanceError (Protocol ν) Unit} (h : Call.Keeps (Carried p hashes) call) :
    Call.Keeps (Carried p hashes) (change name value call) :=
  keeps_change (fun _ hq => hq.note_setting (fun _ _ => rfl) fun _ _ => rfl) h

/-- **A command on the protocol itself** reports settings only. -/
theorem keeps_carried_applyOwn (command : Command) :
    Call.Keeps (Carried p hashes) (applyOwn command) := by
  cases command with
  | setVotingDelay delay =>
    exact keeps_carried_change (keeps_carried_adopt fun g => { g.params with votingDelay := delay })
  | setVotingPeriod period =>
    exact keeps_carried_change
      (keeps_carried_adopt fun g => { g.params with votingPeriod := period })
  | setProposalThreshold threshold =>
    exact keeps_carried_change
      (keeps_carried_adopt fun g => { g.params with proposalThreshold := threshold })
  | setQuorumVotes quorum =>
    exact keeps_carried_change
      (keeps_carried_adopt fun g => { g.params with quorumVotes := quorum })
  | setGuardian guardian =>
    exact keeps_carried_change (keeps_carried_onCouncil (.part fun c hc => hc))
  | setTimelockDelay delay =>
    exact keeps_carried_change (keeps_carried_setDelay (fun q => q.state.address) delay)
  | upgradeCapability target version =>
    refine .get_bind fun q hq => Call.Keeps.refuse (P := Carried p hashes)
      (.bind (.set ?_) fun _ => .pure _) q hq
    have hset : Carried p hashes ({ q with state := { q.state with
        capabilities := q.state.capabilities.insert target version } } : Protocol ν) :=
      ⟨hq.journal, hq.nextSeq, hq.governor, hq.timelock, hq.reports⟩
    exact hset.note_setting (fun _ _ => rfl) fun _ _ => rfl
  | treasuryTransfer target amount => exact .throw _

section Dispatch

variable [Custody ν]

theorem keeps_carried_dispatch (action : ProposalAction) :
    Call.Keeps (Carried p hashes) (dispatch action) := by
  refine .bind (.lift _) fun command => .get_bind fun q hq => ?_
  by_cases htarget : action.target = q.state.address
  · rw [if_pos htarget]
    exact keeps_carried_applyOwn command q hq
  · rw [if_neg htarget]
    refine Call.Keeps.bind (P := Carried p hashes) (.lift _) (fun handler => ?_) q hq
    exact .part fun r hr => ⟨hr.journal, hr.nextSeq, hr.governor, hr.timelock, hr.reports⟩

/-- **Every action is reported**, one after the other. -/
theorem carried_performAll (actions : List (Digest × ProposalAction)) (h : Carried p hashes q) :
    ∃ receipts r, performAll actions q = .ok receipts r ∧
      Carried p (hashes ++ actions.map (·.1)) r := by
  induction actions generalizing hashes q with
  | nil => exact ⟨[], q, rfl, by simpa using h⟩
  | cons first rest ih =>
    obtain ⟨hash, action⟩ := first
    obtain ⟨receipt, s, hs, hcarried⟩ : ∃ receipt s, perform hash action q = .ok receipt s ∧
        Carried p (hashes ++ [hash]) s := by
      unfold perform
      cases hcall : dispatch action q with
      | ok output s =>
        exact ⟨_, _, rfl, ((keeps_carried_dispatch action).of_ok hcall h).note_executed _ _ _⟩
      | error fault s =>
        exact ⟨_, _, rfl, ((keeps_carried_dispatch action).of_error hcall h).note_executed _ _ _⟩
    obtain ⟨receipts, r, hr, hrest⟩ := ih hcarried
    refine ⟨receipt :: receipts, r, ?_, by simpa using hrest⟩
    exact Call.bind_eq_ok.2 ⟨receipt, s, hs, Call.bind_eq_ok.2 ⟨receipts, r, hr, rfl⟩⟩

end Dispatch

/-! ### Requests -/

/-- **A call that has reported all that it has changed**, before anything is recorded. -/
structure Reported (p r : Protocol ν) : Prop where
  journal : r.journal = p.journal
  nextSeq : r.state.nextSeq = p.state.nextSeq
  told : p.state.Told r.pending r.state

/-- If nothing is left to record, nobody has anything left to report. -/
theorem Quiet.silent (h : Quiet p) :
    p.state.ledger.events = [] ∧ p.state.council.reports = [] ∧ p.events = [] := by
  have h : p.cleared = p := h
  rw [← h]
  exact ⟨rfl, rfl, rfl⟩

/-- All that is reported: by the ledger, by the council, and by the protocol itself. -/
theorem pending_eq (p : Protocol ν) :
    p.pending = p.state.ledger.events.map ProtocolEvent.staking
      ++ (p.state.council.reports ++ p.events).map ProtocolEvent.governance := by
  unfold pending Council.reports
  rw [List.map_append, List.map_append, List.append_assoc, List.append_assoc, List.append_assoc]
  rfl

/-- What the ledger has reported is all that is reported, if nobody else had a part. -/
theorem Quiet.reported_ledger (h : Quiet p) {l : Ledger} (v : ν)
    (htold : p.state.ledger.Told (l.events.map .staking) l) :
    Reported p ({ p.withLedger l with vault := v } : Protocol ν) := by
  obtain ⟨-, hcouncil, hown⟩ := h.silent
  have hpending := pending_eq ({ p.withLedger l with vault := v } : Protocol ν)
  have hreports : (p.withLedger l).state.council.reports ++ (p.withLedger l).events = [] :=
    List.append_eq_nil_iff.2 ⟨hcouncil, hown⟩
  rw [hreports, List.map_nil, List.append_nil] at hpending
  exact ⟨rfl, rfl, hpending ▸ ProtocolState.told_of_ledger htold⟩

/-- So it is with what the council has reported. -/
theorem Quiet.reported_council (h : Quiet p) {c : Council}
    (htold : p.state.council.Told (c.reports.map .governance) c) :
    Reported p (p.withCouncil c) := by
  obtain ⟨hledger, -, hown⟩ := h.silent
  have hpending := pending_eq (p.withCouncil c)
  have hevents : (p.withCouncil c).events = [] := hown
  have hstakes : (p.withCouncil c).state.ledger.events = [] := hledger
  rw [hstakes, hevents, List.append_nil, List.map_nil, List.nil_append] at hpending
  exact ⟨rfl, rfl, hpending ▸ ProtocolState.told_of_council htold⟩

section Settled

variable {a : α}

/-- **A call on the council that is settled** has reported what the council tells. -/
theorem Quiet.settled_council (hquiet : Quiet p) {call : Call GovernanceError Council α}
    (h : settled now (onCouncil call) p = .ok a q)
    (htold : ∀ c, call p.state.council = .ok a c →
      p.state.council.Told (c.reports.map .governance) c) :
    ∃ r, Reported p r ∧ q = (r.withClock now).record now := by
  obtain ⟨r, hcall, rfl⟩ := settled_eq_ok.1 h
  obtain ⟨c, hc, rfl⟩ := onCouncil_eq_ok hcall
  exact ⟨_, hquiet.reported_council (htold c hc), rfl⟩

theorem Quiet.settled_governor (hquiet : Quiet p) {call : Call GovernanceError Governor α}
    (h : settled now (onGovernor call) p = .ok a q)
    (htold : ∀ g, call p.state.council.governor = .ok a g →
      p.state.council.Told ((Council.reports ⟨g, p.state.council.timelock⟩).map .governance)
        ⟨g, p.state.council.timelock⟩) :
    ∃ r, Reported p r ∧ q = (r.withClock now).record now := by
  refine hquiet.settled_council h fun c hc => ?_
  obtain ⟨g, hg, rfl⟩ := Call.part_eq_ok.1 hc
  exact htold g hg

end Settled

section Custody

variable [Custody ν]

/-- **An execution** is reported by the governor, and action by action by the protocol. -/
theorem Quiet.reported_execute (hquiet : Quiet p) (hfit : p.state.council.Fit) {id : ProposalId}
    {released : ReleasedActions} {s : Protocol ν} {receipts : List ActionReceipt}
    (hrelease : onCouncil (Council.release id now) p = .ok released s)
    (hperform : performAll released.actions s = .ok receipts r) : Reported p r := by
  obtain ⟨hledger, hcouncil, hown⟩ := hquiet.silent
  obtain ⟨c, hc, rfl⟩ := onCouncil_eq_ok hrelease
  obtain ⟨hreports, hdocket, hqueued⟩ := hfit.reports_of_release hc
  obtain ⟨_, _, hcall, hcarried⟩ := carried_performAll released.actions (.refl (p.withCouncil c))
  cases hperform.symm.trans hcall
  have hconfigured : Reconfigured (p.withCouncil c) r :=
    (keeps_performAll released.actions).of_ok hperform (.refl _)
  obtain ⟨events, hevents, hdockets, hqueue⟩ := hcarried.reports
  have hpending : r.pending = ((.proposalExecuted id :: events).map ProtocolEvent.governance) := by
    have hstakes : r.state.ledger.events = [] :=
      (congrArg Ledger.events hconfigured.ledger).trans hledger
    have hcouncils : r.state.council.reports = [.proposalExecuted id] := by
      show r.state.timelock.events ++ r.state.governor.events = _
      rw [hcarried.timelock, hcarried.governor]
      exact hreports.trans (congrArg (· ++ [_]) hcouncil)
    rw [pending_eq, hstakes, hcouncils, hevents]
    show ([GovernanceEvent.proposalExecuted id] ++ (p.events ++ events)).map _ = _
    rw [hown]
    rfl
  refine ⟨hcarried.journal, hcarried.nextSeq, ?_⟩
  rw [hpending]
  refine ⟨⟨fun _ _ => ?_, fun _ => ?_⟩, ⟨fun j => ?_, fun hash => ?_⟩⟩
  · rw [Replay.amount_governance, hconfigured.ledger]
    rfl
  · rw [Replay.delegate_governance, hconfigured.ledger]
    rfl
  · -- of the proposal, only the governor reports
    have hget : r.state.council.governor.docket? j = c.governor.docket? j := by
      unfold Governor.docket? Governor.get?
      exact congrArg (fun proposals => (OrderedMap.get? proposals j).map Proposal.docket)
        hconfigured.governor.proposals
    rw [List.map_cons, List.foldl_cons, hdockets, hget, hdocket]
  · -- what was taken out of the queue is reported action by action
    have hget : r.state.council.timelock.isQueued hash = c.timelock.isQueued hash := by
      unfold Timelock.isQueued
      exact congrArg (fun queued => OrderedMap.contains queued hash) hconfigured.timelock.queued
    rw [List.map_cons, List.foldl_cons, hqueue, hget, hqueued]
    rfl

/-- **Every request that succeeds reports all that it has changed**, and what was reported is
recorded when it is settled. -/
theorem request_reported (hquiet : Quiet p) (hfit : p.state.council.Fit) {request : Request}
    {response : Response} (h : request.run now p = .ok response q) :
    ∃ r, Reported p r ∧ p.state.clock ≤ now ∧ q = (r.withClock now).record now := by
  obtain ⟨hledger, hcouncil, -⟩ := hquiet.silent
  suffices hreported : p.state.clock ≤ now ∧ ∃ r, Reported p r ∧ q = (r.withClock now).record now by
    obtain ⟨hclock, r, hr, hq⟩ := hreported
    exact ⟨r, hr, hclock, hq⟩
  cases request with
  | stake | extend | withdraw | delegate =>
    obtain ⟨change, v, hplanned, -, hclock, -, rfl⟩ := staking_eq_ok rfl h
    exact ⟨hclock, _, hquiet.reported_ledger v (Ledger.told_of_change hplanned hledger), rfl⟩
  | propose proposer content =>
    obtain ⟨_, hclock, hread, -⟩ := request_eq_ok h
    obtain ⟨_, -, hsettled⟩ := Call.lift_bind_eq_ok.1 (Call.get_bind_eq_ok.1 hread)
    exact ⟨hclock, hquiet.settled_governor hsettled fun g => Council.told_of_propose hcouncil⟩
  | vote voter id support =>
    obtain ⟨_, hclock, hread, -⟩ := request_eq_ok h
    exact ⟨hclock, hquiet.settled_governor (Call.get_bind_eq_ok.1 hread) fun g =>
      Council.told_of_vote hcouncil⟩
  | queue id =>
    obtain ⟨_, hclock, hsettled, -⟩ := request_eq_ok h
    exact ⟨hclock, hquiet.settled_council hsettled fun c => hfit.told_of_queue hcouncil⟩
  | execute id =>
    obtain ⟨_, hclock, hsettled, -⟩ := request_eq_ok h
    obtain ⟨r, hcall, rfl⟩ := settled_eq_ok.1 hsettled
    obtain ⟨released, s, hrelease, hrest⟩ := Call.bind_eq_ok.1 hcall
    obtain ⟨receipts, s', hperform, hpure⟩ := Call.bind_eq_ok.1 hrest
    obtain ⟨-, rfl⟩ := Call.pure_eq_ok.1 hpure
    exact ⟨hclock, s', hquiet.reported_execute hfit hrelease hperform, rfl⟩
  | cancel caller id =>
    obtain ⟨_, hclock, hread, -⟩ := request_eq_ok (f := fun _ => .canceled) h
    exact ⟨hclock, hquiet.settled_council (Call.get_bind_eq_ok.1 hread) fun c =>
      hfit.told_of_cancel hcouncil⟩
  | prune =>
    obtain ⟨_, hclock, hsettled, -⟩ := request_eq_ok h
    exact ⟨hclock, hquiet.settled_council hsettled fun c => Council.told_of_prune hcouncil⟩

end Custody

/-! ### Numbers -/

/-- **A row of entries**, numbered from a number on, that are all made at one time. -/
def numbered (now : Timestamp) (first : Nat) (events : List ProtocolEvent) : List JournalEntry :=
  (events.zipIdx first).map fun (event, n) => ⟨Word.ofNat n, now, event⟩

theorem events_numbered (now : Timestamp) (first : Nat) (events : List ProtocolEvent) :
    (numbered now first events).map (·.event) = events := by
  unfold numbered
  rw [List.map_map]
  exact List.zipIdx_map_fst first events

theorem seqs_numbered (now : Timestamp) (first : Nat) (events : List ProtocolEvent) :
    (numbered now first events).map (·.seq)
      = (List.range' first events.length).map Word.ofNat := by
  unfold numbered
  rw [List.map_map, ← List.zipIdx_map_snd first events, List.map_map]
  rfl

theorem length_numbered (now : Timestamp) (first : Nat) (events : List ProtocolEvent) :
    (numbered now first events).length = events.length := by simp [numbered]

theorem time_numbered {first : Nat} {events : List ProtocolEvent} {entry : JournalEntry}
    (h : entry ∈ numbered now first events) : entry.time = now := by
  obtain ⟨_, -, rfl⟩ := List.mem_map.1 h
  rfl

/-- **Entries numbered from zero on** without gaps, in the width of a number. -/
def Consecutive (entries : List JournalEntry) : Prop :=
  entries.map (·.seq) = (List.range entries.length).map Word.ofNat

/-- A row that begins where the numbers end goes on with them. -/
theorem Consecutive.append {entries : List JournalEntry} (h : Consecutive entries)
    (now : Timestamp) (events : List ProtocolEvent) :
    Consecutive (entries ++ numbered now entries.length events) := by
  unfold Consecutive
  rw [List.map_append, h, seqs_numbered, List.length_append, length_numbered, List.range_add,
    List.map_append, List.range'_eq_map_range]

/-- As long as there are numbers for all entries, they ascend. -/
theorem Consecutive.ascending {entries : List JournalEntry} (h : Consecutive entries)
    (hroom : entries.length ≤ Word.size 64) : entries.Pairwise fun a b => a.seq < b.seq := by
  have hseqs : (entries.map (·.seq)).Pairwise (· < ·) := by
    rw [h, List.pairwise_map]
    refine List.pairwise_lt_range.imp_of_mem fun {m n} hm hn hlt => ?_
    have hm := Nat.lt_of_lt_of_le (List.mem_range.1 hm) hroom
    have hn := Nat.lt_of_lt_of_le (List.mem_range.1 hn) hroom
    show m % Word.size 64 < n % Word.size 64
    rwa [Nat.mod_eq_of_lt hm, Nat.mod_eq_of_lt hn]
  exact List.pairwise_map.1 hseqs

/-- **What is recorded** goes on where the journal ended, with numbers from the next one on. -/
theorem record_numbered (p : Protocol ν) (now : Timestamp) {first : Nat}
    (h : p.state.nextSeq = Word.ofNat first) :
    (p.record now).journal = p.journal ++ numbered now first p.pending ∧
      (p.record now).state.nextSeq = Word.ofNat (first + p.pending.length) := by
  have hstart : p.cleared.journal = p.journal ∧ p.cleared.state.nextSeq = Word.ofNat first :=
    ⟨rfl, h⟩
  unfold record
  rw [← hstart.1]
  replace hstart := hstart.2
  clear h
  -- the entries are appended one by one, and each takes the next number
  generalize p.pending = events
  generalize p.cleared = start at hstart ⊢
  induction events generalizing start first with
  | nil => exact ⟨(List.append_nil _).symm, hstart⟩
  | cons event rest ih =>
    have hnext : (append now start event).state.nextSeq = Word.ofNat (first + 1) := by
      show start.state.nextSeq.next = _
      rw [hstart, Word.next_ofNat]
    obtain ⟨hjournal, hseq⟩ := ih _ hnext
    rw [List.foldl_cons, hjournal, hseq]
    refine ⟨?_, by rw [List.length_cons, Nat.add_right_comm]; rfl⟩
    show (start.journal ++ [⟨start.state.nextSeq, now, event⟩]) ++ _ = _
    rw [List.append_assoc, hstart]
    rfl

/-- **What recording does**: events leave, and entries come. -/
theorem record_spec (p : Protocol ν) (now : Timestamp) {first : Nat}
    (h : p.state.nextSeq = Word.ofNat first) :
    p.record now = { p.cleared with
      state := { p.cleared.state with nextSeq := Word.ofNat (first + p.pending.length) }
      journal := p.journal ++ numbered now first p.pending } := by
  obtain ⟨hjournal, hseq⟩ := record_numbered p now h
  let numberedOn (q : Protocol ν) : Protocol ν := { q with
    state := { q.state with nextSeq := Word.ofNat (first + p.pending.length) }
    journal := p.journal ++ numbered now first p.pending }
  -- apart from the number and the entries, an entry of the journal leaves everything alone
  calc p.record now = numberedOn (p.record now) := by simp only [numberedOn, ← hjournal, ← hseq]
    _ = numberedOn p.cleared := record_frame (fun _ _ => rfl) p

end Protocol

/-! ### Runs -/

/-- The entries that a step has taken out of the journal. -/
def Step.taken {ν : Type} (s : Step ν) : List JournalEntry :=
  match s.outcome with
  | .ok (.drained entries) => entries
  | _ => []

/-- **All entries of a run**: those that were taken out of the journal, and those that are still
in it. -/
def Run.entries {ν : Type} (steps : List (Step ν)) (p : Protocol ν) : List JournalEntry :=
  steps.flatMap Step.taken ++ p.journal

namespace Protocol

variable {ν : Type} {start p q : Protocol ν} {entries : List JournalEntry} {now : Timestamp}

/-- **Entries that tell the whole story** from one protocol to another: they are numbered
without gaps, in the order of their times, and they tell what has changed. -/
structure Chronicled (start : Protocol ν) (entries : List JournalEntry) (p : Protocol ν) :
    Prop where
  seqs : Consecutive entries
  nextSeq : p.state.nextSeq = Word.ofNat entries.length
  times : entries.Pairwise fun a b => a.time ≤ b.time
  past : ∀ entry ∈ entries, entry.time ≤ p.state.clock
  told : start.state.Told (entries.map (·.event)) p.state

/-- **The story goes on** with what a call has reported. -/
theorem Chronicled.record {r : Protocol ν} (h : Chronicled start entries p) (hr : Reported p r)
    (hclock : p.state.clock ≤ now) :
    ∃ later, ((r.withClock now).record now).journal = p.journal ++ later ∧
      Chronicled start (entries ++ later) ((r.withClock now).record now) := by
  obtain ⟨hjournal, hseq⟩ := record_numbered (r.withClock now) now (hr.nextSeq.trans h.nextSeq)
  refine ⟨_, hjournal.trans (congrArg (· ++ _) hr.journal), ?_, ?_, ?_, ?_, ?_⟩
  · exact h.seqs.append now _
  · rw [hseq, List.length_append, length_numbered]
  · refine List.pairwise_append.2 ⟨h.times, ?_, fun a ha b hb => ?_⟩
    · refine List.pairwise_of_forall_mem_list fun a ha b hb => ?_
      rw [time_numbered ha, time_numbered hb]
      exact Nat.le_refl _
    · rw [time_numbered hb]
      exact Nat.le_trans (h.past a ha) hclock
  · intro entry hentry
    rw [record_clock]
    rcases List.mem_append.1 hentry with hentry | hentry
    · exact Nat.le_trans (h.past entry hentry) hclock
    · rw [time_numbered hentry]
      exact Nat.le_refl _
  · rw [List.map_append, events_numbered]
    refine h.told.trans ⟨?_, ?_⟩
    · rw [record_ledger]
      exact ⟨hr.told.ledger.amount, hr.told.ledger.delegate⟩
    · rw [record_council]
      exact ⟨hr.told.council.docket, hr.told.council.queued⟩

end Protocol

namespace Run

variable {ν : Type} [Custody ν] {config : ProtocolConfig} {vault : ν} {steps : List (Step ν)}
  {p : Protocol ν}

/-- **One step goes on with the story**: what it has recorded is told last, and what it has taken
out of the journal is still told. -/
theorem chronicled_step (hrun : Run config vault steps p) {start : Protocol ν}
    {before : List JournalEntry} (h : start.Chronicled (before ++ p.journal) p)
    (operation : Operation) :
    start.Chronicled
      (before ++ ((Step.take p operation).taken ++ (operation.run.after p).journal))
      (operation.run.after p) := by
  cases hcall : operation.run p with
  | error e q =>
    -- what has failed has left no more than a vault, and has reported nothing
    have htaken : (Step.take p operation).taken = [] := by
      simp [Step.taken, Step.take, Call.runFrom, hcall]
    have hrest := (Protocol.refused hrun.quiet hrun.fit hcall).rest
    rw [htaken, Call.after_of_error hcall, hrest]
    exact ⟨h.seqs, h.nextSeq, h.times, h.past, h.told⟩
  | ok outcome q =>
    rw [Call.after_of_ok hcall]
    cases operation with
    | request request now =>
      obtain ⟨response, hrequest, rfl⟩ := Protocol.operation_eq_ok hcall
      have htaken : (Step.take p (.request request now)).taken = [] := by
        simp [Step.taken, Step.take, Call.runFrom, hcall]
      obtain ⟨r, hr, hclock, rfl⟩ := Protocol.request_reported hrun.quiet hrun.fit hrequest
      obtain ⟨later, hjournal, hlater⟩ := h.record hr hclock
      rw [htaken, hjournal, List.nil_append, ← List.append_assoc]
      exact hlater
    | register target version handler =>
      obtain ⟨_, _, hregister, hpure⟩ := Call.bind_eq_ok.1 hcall
      obtain ⟨rfl, rfl⟩ := Call.pure_eq_ok.1 hpure
      have htaken : (Step.take p (.register target version handler)).taken = [] := by
        simp [Step.taken, Step.take, Call.runFrom, hcall]
      obtain ⟨_, -, rfl⟩ := Protocol.registerCapability_eq_ok hregister
      rw [htaken]
      exact ⟨h.seqs, h.nextSeq, h.times, h.past, h.told.ledger, h.told.council⟩
    | drain =>
      -- what is taken out of the journal is not in it any more
      cases hcall
      have hmoved : (Step.take p .drain).taken ++ [] = p.journal := List.append_nil _
      show start.Chronicled (_ ++ ((Step.take p .drain).taken ++ [])) _
      rw [hmoved]
      exact ⟨h.seqs, h.nextSeq, h.times, h.past, h.told⟩

/-- **All entries of a run tell its story** from the new protocol on. -/
theorem chronicled (h : Run config vault steps p) :
    ∃ start, Protocol.create config vault = .ok start ∧ start.Chronicled (entries steps p) p := by
  induction h with
  | create hcreate =>
    obtain ⟨rfl, -⟩ := Protocol.create_eq_ok hcreate
    exact ⟨_, hcreate, rfl, rfl, .nil, fun _ he => absurd he List.not_mem_nil, .refl _⟩
  | @step steps p h operation ih =>
    obtain ⟨start, hcreate, hstory⟩ := ih
    refine ⟨start, hcreate, ?_⟩
    have hentries : entries (steps ++ [Step.take p operation]) (operation.run.after p)
        = steps.flatMap Step.taken
          ++ ((Step.take p operation).taken ++ (operation.run.after p).journal) := by
      unfold entries
      rw [List.flatMap_append, List.append_assoc, List.flatMap_singleton]
    rw [hentries]
    exact h.chronicled_step hstory operation

/-- **The journal is a complete record.** In every state of a run, whatever was called, whether
it succeeded or failed, and whenever entries were taken out of the journal, consider all entries
of the run. Their numbers are 0, 1, 2 and so on in the width of a number, and the next number is
how many they are; their times do not decrease, and none is later than the clock. Read one after
the other, they give the amount in every bucket, the delegate of every owner, the votes, voters
and marks of every proposal, and the digests in the queue of the timelock. -/
theorem journal_is_complete (h : Run config vault steps p) :
    let entries := entries steps p
    let events := entries.map (·.event)
    entries.map (·.seq) = (List.range entries.length).map Word.ofNat ∧
      p.state.nextSeq = Word.ofNat entries.length ∧
      entries.Pairwise (fun a b => a.time ≤ b.time) ∧
      (∀ entry ∈ entries, entry.time ≤ p.state.clock) ∧
      (∀ owner bucket, events.foldl (Replay.amount owner bucket) .zero
        = p.state.ledger.amountOf owner bucket) ∧
      (∀ owner, events.foldl (Replay.delegate owner) owner = p.state.ledger.delegateOf owner) ∧
      (∀ id, events.foldl (Replay.docket id) none
        = (p.state.governor.get? id).map Proposal.docket) ∧
      ∀ hash, events.foldl (Replay.queued hash) false = p.state.timelock.isQueued hash := by
  obtain ⟨start, hcreate, hstory⟩ := h.chronicled
  obtain ⟨rfl, -⟩ := Protocol.create_eq_ok hcreate
  exact ⟨hstory.seqs, hstory.nextSeq, hstory.times, hstory.past, hstory.told.ledger.amount,
    hstory.told.ledger.delegate, hstory.told.council.docket, hstory.told.council.queued⟩

/-- In the small run, five entries are made: of the stake, of the proposal, of the vote, and two
when the proposal is queued. The first of them tells that a thousand are staked. -/
theorem journal_is_complete_sample :
    let p := (perform Sample.start Sample.operations).2
    let entries := entries (perform Sample.start Sample.operations).1 p
    p.state.nextSeq = Word.ofNat 5 ∧ entries.length = 5 ∧
      (entries.map (·.event)).foldl (Replay.amount Sample.alice (.ofNat (98 * day))) .zero
        = Word.ofNat 1000 := by
  intro p entries
  have hlength : entries.length = 5 := by decide +kernel
  obtain ⟨-, hseq, -, -, hamount, -⟩ := journal_is_complete Sample.run
  refine ⟨hseq.trans (congrArg _ hlength), hlength, (hamount _ _).trans ?_⟩
  decide +kernel

end Run

end StakeGovernance
