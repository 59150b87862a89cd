import StakeGovernance.Proofs.Rearranged
import StakeGovernance.Proofs.Refusals
import StakeGovernance.Store.Snapshot

/-!
# Stored data is read as it was written

Whatever a store holds is written as JSON and read again. Each type of data has a writer and a
reader of its own; here each pair is shown to fit together, from the elementary parts up to the
snapshot of a whole protocol and to the entries of its journal. A record is read part by part,
and each part may have been written with its own fields in another order.

A ledger, a council and a timelock leave out what was not yet taken notice of, and the log of a
stake is refused unless its points ascend; so a state can be stored if nothing is left to take
notice of and its logs are in order.

* `StakeGovernance.CheckpointLog.ofPacked_toPacked` – **packed logs**;
* `StakeGovernance.ProtocolState.Storable` – what can be **stored of a state**;
* `StakeGovernance.Snapshot.survives`, `StakeGovernance.JournalEntry.survives` – **snapshots** and
  the journal.
-/

namespace StakeGovernance

namespace Json

/-! ### Parts of data -/

@[simp] theorem plain_bool (b : Bool) : Plain (.bool b) := .bool b

@[simp] theorem plain_string (s : String) : Plain (.string s) := .string s

@[simp] theorem plain_ofWord {bits : Nat} (w : Word bits) : Plain (ofWord w) := .int _

@[simp] theorem plain_object_nil : Plain (.object []) :=
  .object fun _ h => absurd h List.not_mem_nil

@[simp] theorem plain_object_cons {f : String × Json} {fields : List (String × Json)} :
    Plain (.object (f :: fields)) ↔ Plain f.2 ∧ Plain (.object fields) := by
  constructor
  · rintro (_ | _ | _ | _ | _ | h)
    obtain ⟨hf, hfields⟩ := List.forall_mem_cons.1 h
    exact ⟨hf, .object hfields⟩
  · rintro ⟨hf, _ | _ | _ | _ | _ | hfields⟩
    exact .object (List.forall_mem_cons.2 ⟨hf, hfields⟩)

/-- A number of 64 bits can be kept. -/
@[simp] theorem keeps_ofWord (depth : Nat) (w : Word 64) :
    keeps depth (ofWord w) = true := by
  have hlt : w.toNat < 18446744073709551616 := w.toNat_lt
  have hwide : isWide w.toNat = true := by
    simp [isWide]
    omega
  simp [ofWord, ofNat, keeps, hwide]

/-- A text can be kept. -/
@[simp] theorem keeps_string (depth : Nat) (s : String) : keeps depth (.string s) = true := by
  simp [keeps]

/-- A value that can be kept in whatever order its fields stand. -/
def AlwaysKept (depth : Nat) (v : Json) : Prop := ∀ w, v.Rearranged w → keeps depth w = true

@[simp] theorem alwaysKept_ofWord (depth : Nat) (n : Word 64) : AlwaysKept depth (ofWord n) := by
  intro w hw
  rw [hw.of_ofWord, keeps_ofWord]

@[simp] theorem alwaysKept_string (depth : Nat) (s : String) : AlwaysKept depth (.string s) := by
  intro w hw
  rw [hw.of_string, keeps_string]

theorem keepsFields_iff {depth : Nat} {fields : List (String × Json)} :
    keepsFields depth fields = true ↔ ∀ f ∈ fields, keeps depth f.2 = true := by
  induction fields with
  | nil => simp [keepsFields]
  | cons f rest ih => simp [keepsFields, ih]

end Json

open Json (Survives)

/-- A part that is read, and then the rest. -/
theorem read_part {α β : Type} {x : Option α} {a : α} {rest : α → Option β} {b : β}
    (hx : x = some a) (hrest : rest a = some b) : (x >>= rest) = some b := by
  rw [hx]
  exact hrest

/-! ### Values -/

theorem Address.survives (a : Address) : Survives toJson ofJson? a :=
  Json.survives_of_string a.ofJson?_toJson

theorem Amount.survives (a : Amount) : Survives Amount.toJson Amount.ofJson? a :=
  Json.survives_of_string a.ofJson?_toJson

theorem Digest.survives (d : Digest) : Survives toJson ofJson? d :=
  Json.survives_of_string d.ofJson?_toJson

theorem VoteSupport.survives (s : VoteSupport) : Survives toJson ofJson? s :=
  Json.survives_of_string (by cases s <;> rfl)

theorem WeightCurve.survives (c : WeightCurve) : Survives toJson ofJson? c where
  plain := by simp [toJson]
  endures _ := Json.endures_record rfl (by decide) <| by
    rintro _ (_ | ⟨hmin, _ | ⟨hmax, _ | ⟨hduration, ⟨⟩⟩⟩⟩)
    exact read_part hmin.word? <| read_part hmax.word? <| read_part hduration.word? rfl

theorem StakingParams.survives (p : StakingParams) : Survives toJson ofJson? p where
  plain := by simp [toJson, p.curve.survives.plain]
  endures _ := Json.endures_record rfl (by decide) <| by
    rintro _ (_ | ⟨hkickoff, _ | ⟨hinterval, _ | ⟨hcurve, ⟨⟩⟩⟩⟩)
    exact read_part hkickoff.word? <| read_part hinterval.word? <|
      read_part (p.curve.survives.endures _ hcurve) rfl

/-! ### Logs -/

namespace CheckpointLog

variable {α : Type} {log : CheckpointLog α}

/-- **A log survives** if its values do. -/
theorem survives {value : α → Json} {read : Json → Option α}
    (h : ∀ a, Survives value read a) (log : CheckpointLog α) :
    Survives (toJson value) (ofJson? read) log := by
  have hentry : ∀ c : Checkpoint α, Survives (checkpointToJson value) (checkpointOfJson? read) c :=
    fun c => {
      plain := by simp [checkpointToJson, (h c.value).plain]
      endures := fun _ => Json.endures_record rfl (by decide) <| by
        rintro _ (_ | ⟨hpoint, _ | ⟨hvalue, ⟨⟩⟩⟩)
        exact read_part hpoint.word? <| read_part ((h c.value).endures _ hvalue) rfl }
  have hentries := Json.survives_list fun c (_ : c ∈ log.entries) => hentry c
  constructor
  · simpa [toJson] using hentries.plain
  · intro _
    refine Json.endures_record rfl (by decide) ?_
    rintro _ (_ | ⟨hlist, ⟨⟩⟩)
    exact read_part (hentries.endures _ hlist) rfl

/-- **The check of a log** asks for points that ascend, from the previous one on. -/
theorem checkAscent_eq_ok_iff {previous : Option Timestamp}
    {entries : List (Checkpoint StakePoint)} :
    checkAscent previous entries = .ok () ↔
      (∀ p ∈ previous, ∀ c ∈ entries, p < c.point) ∧
        entries.Pairwise fun a b => a.point < b.point := by
  induction entries generalizing previous with
  | nil => cases previous <;> simp [checkAscent]
  | cons c rest ih =>
    have hhead : checkAscent previous (c :: rest) = .ok () ↔
        (∀ p ∈ previous, p < c.point) ∧ checkAscent (some c.point) rest = .ok () := by
      cases previous with
      | none => simp [checkAscent]
      | some p =>
        show (if c.point ≤ p then _ else checkAscent (some c.point) rest) = .ok () ↔ _
        by_cases hle : c.point ≤ p
        · rw [if_pos hle]
          exact iff_of_false nofun fun h => absurd hle (Nat.not_le.2 (h.1 p rfl))
        · rw [if_neg hle]
          refine (and_iff_right ?_).symm
          rintro _ ⟨⟩
          exact Nat.lt_of_not_le hle
    rw [hhead, ih, List.pairwise_cons]
    constructor
    · rintro ⟨hprevious, hc, hrest⟩
      refine ⟨fun p hp => List.forall_mem_cons.2 ⟨hprevious p hp, fun d hd => ?_⟩, hc _ rfl, hrest⟩
      exact Nat.lt_trans (hprevious p hp) (hc _ rfl d hd)
    · rintro ⟨hprevious, hc, hrest⟩
      refine ⟨fun p hp => hprevious p hp c List.mem_cons_self, ?_, hrest⟩
      rintro _ ⟨⟩
      exact hc

theorem length_toPacked (c : Checkpoint StakePoint) : c.toPacked.length = packedSize := by
  simp [Checkpoint.toPacked, Amount.toBytes, c.value.delegate.length_bytes, packedSize]

/-- **Forty bytes** are read as the checkpoint that they were written from. -/
theorem ofPacked?_toPacked (c : Checkpoint StakePoint) :
    Checkpoint.ofPacked? c.toPacked = some c := by
  have hpoint : Word.ofNat? (ofBigEndian (c.toPacked.take 8)) = some c.point := by
    have htake : c.toPacked.take 8 = bigEndian 8 c.point.toNat := by simp [Checkpoint.toPacked]
    rw [htake, ofBigEndian_bigEndian c.point.toNat_lt, Word.ofNat?_toNat]
  have hamount : Amount.ofBytes? ((c.toPacked.drop 8).take 12) = some c.value.amount := by
    have htake : (c.toPacked.drop 8).take 12 = bigEndian 12 c.value.amount.toNat := by
      simp [Checkpoint.toPacked, Amount.toBytes]
    rw [htake, Amount.ofBytes?, if_pos (by simp), ofBigEndian_bigEndian c.value.amount.toNat_lt,
      Word.ofNat?_toNat]
  have hdelegate : (Address.ofBytes (c.toPacked.drop 20)).toOption = some c.value.delegate := by
    have hdrop : c.toPacked.drop 20 = c.value.delegate.bytes :=
      List.drop_left' (by simp [Amount.toBytes])
    rw [hdrop, Address.ofBytes, dif_pos c.value.delegate.length_bytes]
    rfl
  unfold Checkpoint.ofPacked?
  rw [hpoint, hamount, hdelegate]
  rfl

theorem length_packed (log : CheckpointLog StakePoint) :
    log.toPacked.length = packedSize * log.size := by
  unfold toPacked size
  induction log.entries with
  | nil => rfl
  | cons c rest ih =>
    rw [List.flatMap_cons, List.length_append, length_toPacked, ih, List.length_cons, Nat.mul_succ,
      Nat.add_comm]

/-- **The bytes of a log** are cut into its checkpoints again, and then these are checked. -/
theorem ofPacked_eq_checkAscent (log : CheckpointLog StakePoint) :
    ofPacked log.toPacked = (do
      checkAscent none log.entries
      return log) := by
  have hrows : log.toPacked = (log.entries.map Checkpoint.toPacked).flatten := List.flatMap_def ..
  have hfull : ∀ row ∈ log.entries.map Checkpoint.toPacked, row.length = packedSize := by
    intro row hrow
    obtain ⟨c, -, rfl⟩ := List.mem_map.1 hrow
    exact length_toPacked c
  have hpieces : pieces packedSize log.toPacked = log.entries.map Checkpoint.toPacked := by
    rw [hrows, pieces_flatten (by decide) hfull]
  have hlength : log.toPacked.length % packedSize = 0 := by
    rw [length_packed, Nat.mul_mod_right]
  have hread : (log.entries.map Checkpoint.toPacked).mapM Checkpoint.ofPacked?
      = some log.entries := Json.mapM_map_self fun c _ => ofPacked?_toPacked c
  unfold ofPacked
  rw [if_pos hlength, hpieces, hread]

/-- **A packed log** is read as the log that it was written from, if its points ascend. -/
theorem ofPacked_toPacked {log : CheckpointLog StakePoint} (h : log.Ordered) :
    ofPacked log.toPacked = .ok log := by
  have hnone : ∀ p ∈ (none : Option Timestamp), ∀ c ∈ log.entries, p < c.point := nofun
  rw [ofPacked_eq_checkAscent, checkAscent_eq_ok_iff.2 ⟨hnone, h⟩]
  rfl

/-- **A packed log is read in order**, or not at all. -/
theorem ordered_of_ofPacked {bs : Bytes} {log : CheckpointLog StakePoint}
    (h : ofPacked bs = .ok log) : log.Ordered := by
  unfold ofPacked at h
  split at h
  · split at h
    · cases h
    · obtain ⟨_, hcheck, h⟩ := Checked.bind_eq_ok.1 h
      cases h
      exact (checkAscent_eq_ok_iff.1 hcheck).2
  · cases h

end CheckpointLog

theorem Ledger.packed_survives {log : CheckpointLog StakePoint} (h : log.Ordered) :
    Survives packedToJson packedOfJson? log :=
  Json.survives_of_string <| by
    have hdecode : (Hex.decode (Hex.encode log.toPacked)).toOption = some log.toPacked := by
      rw [Hex.decode_encode]
      rfl
    have hread : (CheckpointLog.ofPacked log.toPacked).toOption = some log := by
      rw [CheckpointLog.ofPacked_toPacked h]
      rfl
    exact read_part (a := Hex.encode log.toPacked) rfl <| read_part hdecode hread

theorem Delegation.survives (d : Delegation) : Survives toJson ofJson? d := by
  have hcurrent := OrderedMap.survives Address.ofKey?_toHexText (m := d.current)
    fun e _ => Address.survives e.2
  have hhistory := OrderedMap.survives Address.ofKey?_toHexText (m := d.history)
    fun e _ => CheckpointLog.survives Address.survives e.2
  have hdelegated := OrderedMap.survives Address.ofKey?_toHexText (m := d.delegated)
    fun e _ => OrderedMap.survives Json.keyWord?_toString (m := e.2)
      fun e _ => CheckpointLog.survives Amount.survives e.2
  constructor
  · simp [toJson, hcurrent.plain, hhistory.plain, hdelegated.plain]
  · intro _
    refine Json.endures_record rfl (by decide) ?_
    rintro _ (_ | ⟨hcurrent', _ | ⟨hhistory', _ | ⟨hdelegated', ⟨⟩⟩⟩⟩)
    exact read_part (hcurrent.endures _ hcurrent') <| read_part (hhistory.endures _ hhistory') <|
      read_part (hdelegated.endures _ hdelegated') rfl

/-- **What can be stored of a ledger**: all of it, if nothing is left to take notice of and the
points of its stake logs ascend. -/
structure Ledger.Storable (l : Ledger) : Prop where
  events : l.events = []
  ordered : ∀ account bucket, (BucketLogs.log l.stakes account bucket).Ordered

theorem Ledger.Storable.survives {l : Ledger} (h : l.Storable) :
    Survives Ledger.toJson Ledger.ofJson? l := by
  have hlog : ∀ e ∈ l.stakes.entries, ∀ f ∈ e.2.entries, f.2.Ordered := by
    intro e he f hf
    have hget := OrderedMap.get?_eq_some_iff.2 he
    have hget' := OrderedMap.get?_eq_some_iff.2 hf
    have hordered := h.ordered e.1 f.1
    unfold BucketLogs.log OrderedMap.getD at hordered
    rwa [hget, Option.getD_some, hget'] at hordered
  have hstakes := OrderedMap.survives Address.ofKey?_toHexText (m := l.stakes)
    fun e he => OrderedMap.survives Json.keyWord?_toString (m := e.2)
      fun f hf => Ledger.packed_survives (hlog e he f hf)
  have htotals := CheckpointLog.survives Amount.survives l.totalLog
  constructor
  · simp [toJson, l.params.survives.plain, hstakes.plain, l.delegation.survives.plain,
      (Amount.survives l.total).plain, htotals.plain]
  · intro _
    refine Json.endures_record rfl (by decide) ?_
    rintro _ (_ | ⟨hparams', _ | ⟨hstakes', _ | ⟨hdelegation', _ | ⟨htotal', _ | ⟨htotals', _ |
      ⟨hlast', ⟨⟩⟩⟩⟩⟩⟩⟩)
    refine read_part (l.params.survives.endures _ hparams') <|
      read_part (hstakes.endures _ hstakes') <|
      read_part (l.delegation.survives.endures _ hdelegation') <|
      read_part ((Amount.survives l.total).endures _ htotal') <|
      read_part (htotals.endures _ htotals') <| read_part hlast'.word? ?_
    exact h.events ▸ rfl

/-! ### Governance -/

theorem GovernorParams.survives (p : GovernorParams) : Survives toJson ofJson? p := by
  have hpower : ∀ power : Power, Survives powerToJson powerOfJson? power := fun power =>
    Json.survives_of_string <| by
      show (Word.ofText (toString power)).toOption = _
      rw [Word.ofText_toString]
      rfl
  constructor
  · simp [toJson, powerToJson]
  · intro _
    refine Json.endures_record rfl (by decide) ?_
    rintro _ (_ | ⟨hdelay, _ | ⟨hperiod, _ | ⟨hthreshold, _ | ⟨hquorum, _ | ⟨hmax, ⟨⟩⟩⟩⟩⟩⟩)
    exact read_part hdelay.word? <| read_part hperiod.word? <|
      read_part ((hpower _).endures _ hthreshold) <| read_part ((hpower _).endures _ hquorum) <|
      read_part hmax.word? rfl

theorem ProposalAction.survives (a : ProposalAction) : Survives toJson ofJson? a := by
  have hdata : Survives (fun data => .string (Hex.encodeMarked data)) bytesOfJson? a.data :=
    Json.survives_of_string <| by
      have hdecode : (Hex.decode (Hex.encode a.data)).toOption = some a.data := by
        rw [Hex.decode_encode]
        rfl
      simp only [bytesOfJson?, Json.text?, Option.bind_eq_bind, Option.bind_some,
        Hex.toList_encodeMarked]
      exact hdecode
  constructor
  · simp [toJson, a.target.survives.plain, (Amount.survives a.value).plain]
  · intro _
    refine Json.endures_record rfl (by decide) ?_
    rintro _ (_ | ⟨htarget, _ | ⟨hvalue, _ | ⟨hsignature, _ | ⟨hdata', ⟨⟩⟩⟩⟩⟩)
    exact read_part (a.target.survives.endures _ htarget) <|
      read_part ((Amount.survives a.value).endures _ hvalue) <| read_part hsignature.text? <|
      read_part (hdata.endures _ hdata') rfl

theorem Proposal.survives (p : Proposal) : Survives toJson ofJson? p := by
  have hreceipt : ∀ r : VoteReceipt, Survives receiptToJson receiptOfJson? r := fun r => {
    plain := by simp [receiptToJson, r.support.survives.plain]
    endures := fun _ => Json.endures_record rfl (by decide) <| by
      rintro _ (_ | ⟨hsupport, _ | ⟨hvotes, ⟨⟩⟩⟩)
      exact read_part (r.support.survives.endures _ hsupport) <| read_part hvotes.word? rfl }
  have hactions := Json.survives_list fun a (_ : a ∈ p.actions) => ProposalAction.survives a
  have hreceipts := OrderedMap.survives Address.ofKey?_toHexText (m := p.receipts)
    fun e _ => hreceipt e.2
  constructor
  · simp [toJson, p.proposer.survives.plain, hactions.plain, hreceipts.plain]
  · intro _
    refine Json.endures_record rfl (by decide) ?_
    rintro _ (_ | ⟨hid, _ | ⟨hproposer, _ | ⟨hactions', _ | ⟨hdescription, _ | ⟨hcreated, _ |
      ⟨hsnapshot, _ | ⟨hstart, _ | ⟨hfinish, _ | ⟨hquorum, _ | ⟨heta, _ | ⟨hfor, _ | ⟨hagainst, _ |
      ⟨habstain, _ | ⟨hreceipts', _ | ⟨hexecuted, _ | ⟨hcanceled, ⟨⟩⟩⟩⟩⟩⟩⟩⟩⟩⟩⟩⟩⟩⟩⟩⟩⟩)
    exact read_part hid.word? <| read_part (p.proposer.survives.endures _ hproposer) <|
      read_part (hactions.endures _ hactions') <| read_part hdescription.text? <|
      read_part hcreated.word? <| read_part hsnapshot.word? <| read_part hstart.word? <|
      read_part hfinish.word? <| read_part hquorum.word? <| read_part heta.word? <|
      read_part hfor.word? <| read_part hagainst.word? <| read_part habstain.word? <|
      read_part (hreceipts.endures _ hreceipts') <| read_part hexecuted.bool? <|
      read_part hcanceled.bool? rfl

theorem Governor.survives {g : Governor} (h : g.events = []) : Survives toJson ofJson? g := by
  have hproposals := OrderedMap.survives Json.keyWord?_toString (m := g.proposals)
    fun e _ => Proposal.survives e.2
  have hlatest := OrderedMap.survives Address.ofKey?_toHexText (m := g.latestByProposer)
    fun e _ => Json.survives_word e.2
  constructor
  · simp [toJson, g.address.survives.plain, g.params.survives.plain, g.guardian.survives.plain,
      hproposals.plain, hlatest.plain]
  · intro _
    refine Json.endures_record rfl (by decide) ?_
    rintro _ (_ | ⟨haddress, _ | ⟨hparams, _ | ⟨hguardian, _ | ⟨hproposals', _ | ⟨hlatest', _ |
      ⟨hnext, ⟨⟩⟩⟩⟩⟩⟩⟩)
    refine read_part (g.address.survives.endures _ haddress) <|
      read_part (g.params.survives.endures _ hparams) <|
      read_part (g.guardian.survives.endures _ hguardian) <|
      read_part (hproposals.endures _ hproposals') <| read_part (hlatest.endures _ hlatest') <|
      read_part hnext.word? ?_
    exact h ▸ rfl

theorem TimelockParams.survives (p : TimelockParams) : Survives toJson ofJson? p where
  plain := by simp [toJson]
  endures _ := Json.endures_record rfl (by decide) <| by
    rintro _ (_ | ⟨hdelay, _ | ⟨hmin, _ | ⟨hmax, _ | ⟨hgrace, ⟨⟩⟩⟩⟩⟩)
    exact read_part hdelay.word? <| read_part hmin.word? <| read_part hmax.word? <|
      read_part hgrace.word? rfl

theorem QueuedAction.survives (q : QueuedAction) : Survives toJson ofJson? q where
  plain := by simp [toJson, q.action.survives.plain]
  endures _ := Json.endures_record rfl (by decide) <| by
    rintro _ (_ | ⟨haction, _ | ⟨heta, _ | ⟨hqueued, ⟨⟩⟩⟩⟩)
    exact read_part (q.action.survives.endures _ haction) <| read_part heta.word? <|
      read_part hqueued.word? rfl

theorem Timelock.survives {t : Timelock} (h : t.events = []) : Survives toJson ofJson? t := by
  have hqueued := OrderedMap.survives Digest.ofKey?_toText (m := t.queued)
    fun e _ => QueuedAction.survives e.2
  constructor
  · simp [toJson, t.admin.survives.plain, t.params.survives.plain, hqueued.plain]
  · intro _
    refine Json.endures_record rfl (by decide) ?_
    rintro _ (_ | ⟨hadmin, _ | ⟨hparams, _ | ⟨hqueued', ⟨⟩⟩⟩⟩)
    refine read_part (t.admin.survives.endures _ hadmin) <|
      read_part (t.params.survives.endures _ hparams) <|
      read_part (hqueued.endures _ hqueued') ?_
    exact h ▸ rfl

/-! ### Snapshots -/

/-- **What can be stored of a state**: all of it, if nothing is left to take notice of and the
points of stake logs ascend. -/
structure ProtocolState.Storable (s : ProtocolState) : Prop where
  ledger : s.ledger.Storable
  governor : s.governor.events = []
  timelock : s.timelock.events = []

theorem ProtocolState.Storable.survives {s : ProtocolState} (h : s.Storable) :
    Survives ProtocolState.toJson ProtocolState.ofJson? s := by
  have hgovernor := Governor.survives h.governor
  have htimelock := Timelock.survives h.timelock
  have hcapabilities := OrderedMap.survives Address.ofKey?_toHexText (m := s.capabilities)
    fun e _ => Json.survives_word e.2
  constructor
  · simp [toJson, s.address.survives.plain, h.ledger.survives.plain, hgovernor.plain,
      htimelock.plain, hcapabilities.plain]
  · intro _
    refine Json.endures_record rfl (by decide) ?_
    rintro _ (_ | ⟨haddress, _ | ⟨hledger, _ | ⟨hgovernor', _ | ⟨htimelock', _ |
      ⟨hcapabilities', _ | ⟨hclock, _ | ⟨hnext, ⟨⟩⟩⟩⟩⟩⟩⟩⟩)
    exact read_part (s.address.survives.endures _ haddress) <|
      read_part (h.ledger.survives.endures _ hledger) <|
      read_part (hgovernor.endures _ hgovernor') <| read_part (htimelock.endures _ htimelock') <|
      read_part (hcapabilities.endures _ hcapabilities') <| read_part hclock.word? <|
      read_part hnext.word? rfl

theorem Vault.survives (v : Vault) : Survives toJson ofJson? v := by
  have hbalances := OrderedMap.survives Address.ofKey?_toHexText (m := v.balances)
    fun e _ => Amount.survives e.2
  constructor
  · simp [toJson, hbalances.plain, (Amount.survives v.held).plain]
  · intro _
    refine Json.endures_record rfl (by decide) ?_
    rintro _ (_ | ⟨hbalances', _ | ⟨hheld, ⟨⟩⟩⟩)
    exact read_part (hbalances.endures _ hbalances') <|
      read_part ((Amount.survives v.held).endures _ hheld) rfl

theorem Snapshot.survives {s : Snapshot} (h : s.state.Storable) : Survives toJson ofJson? s where
  plain := by simp [toJson, h.survives.plain, s.vault.survives.plain]
  endures _ := Json.endures_record rfl (by decide) <| by
    rintro _ (_ | ⟨hversion, _ | ⟨hstate, _ | ⟨hvault, ⟨⟩⟩⟩⟩)
    exact read_part hversion.word? <| read_part (h.survives.endures _ hstate) <|
      read_part (s.vault.survives.endures _ hvault) rfl

/-! ### The journal -/

theorem GovernanceEvent.plain_toJson (e : GovernanceEvent) : Json.Plain e.toJson := by
  cases e <;>
    simp [toJson, parts, (Address.survives _).plain, (Digest.survives _).plain,
      (VoteSupport.survives _).plain]

theorem GovernanceEvent.survives (e : GovernanceEvent) : Survives toJson ofJson? e := by
  refine ⟨e.plain_toJson, fun v hv => ?_⟩
  -- the name leads to the branch of the reader
  obtain ⟨content, hcontent, hname⟩ := hv.variant?
  refine read_part hname ?_
  cases e with
  | proposalCreated id proposer start finish actions description =>
    refine Json.endures_record rfl (by decide) ?_ hcontent
    rintro _ (_ | ⟨hid, _ | ⟨hproposer, _ | ⟨hstart, _ | ⟨hfinish, _ | ⟨hactions, _ |
      ⟨hdescription, ⟨⟩⟩⟩⟩⟩⟩⟩)
    exact read_part hid.word? <| read_part (proposer.survives.endures _ hproposer) <|
      read_part hstart.word? <| read_part hfinish.word? <| read_part hactions.word? <|
      read_part hdescription.text? rfl
  | voteCast voter id support votes =>
    refine Json.endures_record rfl (by decide) ?_ hcontent
    rintro _ (_ | ⟨hvoter, _ | ⟨hid, _ | ⟨hsupport, _ | ⟨hvotes, ⟨⟩⟩⟩⟩⟩)
    exact read_part (voter.survives.endures _ hvoter) <| read_part hid.word? <|
      read_part (support.survives.endures _ hsupport) <| read_part hvotes.word? rfl
  | proposalQueued id eta =>
    refine Json.endures_record rfl (by decide) ?_ hcontent
    rintro _ (_ | ⟨hid, _ | ⟨heta, ⟨⟩⟩⟩)
    exact read_part hid.word? <| read_part heta.word? rfl
  | proposalExecuted id | proposalCanceled id =>
    refine Json.endures_record rfl (by decide) ?_ hcontent
    rintro _ (_ | ⟨hid, ⟨⟩⟩)
    exact read_part hid.word? rfl
  | actionQueued hash target eta =>
    refine Json.endures_record rfl (by decide) ?_ hcontent
    rintro _ (_ | ⟨hhash, _ | ⟨htarget, _ | ⟨heta, ⟨⟩⟩⟩⟩)
    exact read_part (hash.survives.endures _ hhash) <|
      read_part (target.survives.endures _ htarget) <| read_part heta.word? rfl
  | actionExecuted hash target success =>
    refine Json.endures_record rfl (by decide) ?_ hcontent
    rintro _ (_ | ⟨hhash, _ | ⟨htarget, _ | ⟨hsuccess, ⟨⟩⟩⟩⟩)
    exact read_part (hash.survives.endures _ hhash) <|
      read_part (target.survives.endures _ htarget) <| read_part hsuccess.bool? rfl
  | actionCanceled hash target =>
    refine Json.endures_record rfl (by decide) ?_ hcontent
    rintro _ (_ | ⟨hhash, _ | ⟨htarget, ⟨⟩⟩⟩)
    exact read_part (hash.survives.endures _ hhash) <|
      read_part (target.survives.endures _ htarget) rfl
  | actionExpired hash =>
    refine Json.endures_record rfl (by decide) ?_ hcontent
    rintro _ (_ | ⟨hhash, ⟨⟩⟩)
    exact read_part (hash.survives.endures _ hhash) rfl
  | parameterChanged name value =>
    refine Json.endures_record rfl (by decide) ?_ hcontent
    rintro _ (_ | ⟨hname, _ | ⟨hvalue, ⟨⟩⟩⟩)
    exact read_part hname.text? <| read_part hvalue.text? rfl
  | capabilityUpgraded target version =>
    refine Json.endures_record rfl (by decide) ?_ hcontent
    rintro _ (_ | ⟨htarget, _ | ⟨hversion, ⟨⟩⟩⟩)
    exact read_part (target.survives.endures _ htarget) <| read_part hversion.word? rfl

namespace StakingEvent

variable {level : Nat} {name : String} {fields gs hs : List (String × Json)} {v : Json}

/-- **The tag comes off** wherever it stands, if no other field is a tag. -/
theorem untag?_of_perm (hkeeps : ∀ f ∈ hs, Json.keeps (Json.nestingLimit - (level + 1)) f.2 = true)
    (hfields : ∀ g ∈ gs, g.1 ≠ "type") (hperm : (("type", .string name) :: gs).Perm hs) :
    ∃ rest, gs.Perm rest ∧ untag? level (.object hs) = some (name, .object rest) := by
  have htags : hs.filter (fun f => f.1 = "type") = [("type", .string name)] := by
    have hgs : gs.filter (fun f => f.1 = "type") = [] :=
      List.filter_eq_nil_iff.2 fun g hg => by simpa using hfields g hg
    have hfilter := hperm.filter fun f => f.1 = "type"
    rw [List.filter_cons_of_pos (by simp), hgs] at hfilter
    exact (List.singleton_perm.1 hfilter).symm
  have hrest : gs.Perm (hs.filter fun f => f.1 ≠ "type") := by
    have hgs : gs.filter (fun f => f.1 ≠ "type") = gs :=
      List.filter_eq_self.2 fun g hg => by simpa using hfields g hg
    have hfilter := hperm.filter fun f => f.1 ≠ "type"
    rwa [List.filter_cons_of_neg (by simp), hgs] at hfilter
  refine ⟨_, hrest, ?_⟩
  unfold untag?
  simp only [htags, Json.keepsFields_iff.2 hkeeps, if_true]

/-- The tag comes off a rearranged value, if the other fields can be kept. -/
theorem untag?_of_rearranged
    (hkeeps : ∀ f ∈ fields, Json.AlwaysKept (Json.nestingLimit - (level + 1)) f.2)
    (hfields : ∀ f ∈ fields, f.1 ≠ "type")
    (h : (Json.object (("type", .string name) :: fields)).Rearranged v) :
    ∃ content, (Json.object fields).Rearranged content ∧ untag? level v = some (name, content) := by
  obtain ⟨_ | ⟨tag, gs⟩, hs, hnames, hvalues, hperm, rfl⟩ := h.of_object
  · cases hnames
  obtain ⟨htag, hnames'⟩ := List.cons.inj hnames
  obtain ⟨hvalue, hvalues'⟩ := List.forall₂_cons.1 hvalues
  obtain rfl : tag = ("type", .string name) := Prod.ext htag hvalue.of_string
  have hrows := Json.forall₂_fields hnames' hvalues'
  have hkept : ∀ g ∈ hs, Json.keeps (Json.nestingLimit - (level + 1)) g.2 = true := by
    intro g hg
    rcases List.mem_cons.1 (hperm.mem_iff.2 hg) with rfl | hg
    · exact Json.keeps_string ..
    · obtain ⟨f, hf, -, hfg⟩ := exists_of_forall₂_right hrows hg
      exact hkeeps f hf g.2 hfg
  have hothers : ∀ g ∈ gs, g.1 ≠ "type" := by
    intro g hg
    obtain ⟨f, hf, hname, -⟩ := exists_of_forall₂_right hrows hg
    exact hname ▸ hfields f hf
  obtain ⟨rest, hrest, hread⟩ := untag?_of_perm hkept hothers hperm
  exact ⟨_, .object hnames' hvalues' hrest, hread⟩

theorem survives (level : Nat) (e : StakingEvent) : Survives toJson (ofJsonAt? level) e := by
  constructor
  · cases e <;> simp [toJson, (Address.survives _).plain, (Amount.survives _).plain]
  intro v hv
  cases e with
  | stakeChanged owner bucket amount | withdrawn owner bucket amount =>
    obtain ⟨content, hcontent, htag⟩ := untag?_of_rearranged
      (by simp [Address.toJson, Amount.toJson]) (by simp) hv
    refine read_part htag <| Json.endures_record rfl (by decide) ?_ hcontent
    rintro _ (_ | ⟨howner, _ | ⟨hbucket, _ | ⟨hamount, ⟨⟩⟩⟩⟩)
    exact read_part (owner.survives.endures _ howner) <| read_part hbucket.word? <|
      read_part ((Amount.survives amount).endures _ hamount) rfl
  | delegateChanged owner source target =>
    obtain ⟨content, hcontent, htag⟩ := untag?_of_rearranged
      (by simp [Address.toJson]) (by simp) hv
    refine read_part htag <| Json.endures_record rfl (by decide) ?_ hcontent
    rintro _ (_ | ⟨howner, _ | ⟨hsource, _ | ⟨htarget, ⟨⟩⟩⟩⟩)
    exact read_part (owner.survives.endures _ howner) <|
      read_part (source.survives.endures _ hsource) <|
      read_part (target.survives.endures _ htarget) rfl

end StakingEvent

theorem ProtocolEvent.survives (level : Nat) (e : ProtocolEvent) :
    Survives toJson (ofJsonAt? level) e := by
  cases e with
  | staking e =>
    have he := e.survives (level + 1)
    refine ⟨by simp [toJson, he.plain], fun v hv => ?_⟩
    obtain ⟨content, hcontent, hname⟩ := hv.variant?
    exact read_part hname <| read_part (he.endures _ hcontent) rfl
  | governance e =>
    refine ⟨by simp [toJson, e.survives.plain], fun v hv => ?_⟩
    obtain ⟨content, hcontent, hname⟩ := hv.variant?
    exact read_part hname <| read_part (e.survives.endures _ hcontent) rfl

theorem JournalEntry.survives (e : JournalEntry) : Survives toJson ofJson? e where
  plain := by simp [toJson, (e.event.survives 1).plain]
  endures _ := Json.endures_record rfl (by decide) <| by
    rintro _ (_ | ⟨hseq, _ | ⟨htime, _ | ⟨hevent, ⟨⟩⟩⟩⟩)
    exact read_part hseq.word? <| read_part htime.word? <|
      read_part ((e.event.survives 1).endures _ hevent) rfl

end StakeGovernance
