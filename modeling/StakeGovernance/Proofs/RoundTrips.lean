import StakeGovernance.Proofs.Serving

/-!
# Bytes that are read as they were written

The bytes of a snapshot are the text of its JSON, and the tables of that JSON stand in the order
that their hashes happen to give. Whatever that order is, the bytes are read as the snapshot that
they were written from, and so are those of a journal entry. This asks nothing of the state but
that it has no events that were not taken notice of, as these are left out, and no stake log
whose points do not ascend, as such a log is refused.

That is no more than has to be asked, for no bytes at all are read as a state that does not meet
it. So the states that can be stored are those that some bytes are read as, and what a store has
given out it takes back.

* `StakeGovernance.StateStore.reads_what_was_written` – **bytes are read as they were written**;
* `StakeGovernance.Snapshot.storable_of_ofJson?` – what is read **can be stored**;
* `StakeGovernance.StateStore.storable_iff_exists_bytes` – the states that can be stored are
  **those that are read**.
-/

namespace StakeGovernance

/-! ### What is read can be stored -/

namespace OrderedMap

variable {κ ν : Type} [Ord κ] [Std.TransOrd κ] {entries : List (κ × ν)} {e : κ × ν}

theorem mem_foldl_insert {m : OrderedMap κ ν}
    (h : e ∈ (entries.foldl (fun n d => n.insert d.1 d.2) m).entries) :
    e ∈ m.entries ∨ e ∈ entries := by
  induction entries generalizing m with
  | nil => exact .inl h
  | cons d rest ih =>
    rcases ih h with hm | hrest
    · rcases mem_insertEntry hm with rfl | hm
      · exact .inr List.mem_cons_self
      · exact .inl hm
    · exact .inr (List.mem_cons_of_mem _ hrest)

/-- The map of a list has no other entries. -/
theorem mem_of_mem_ofList (h : e ∈ (ofList entries).entries) : e ∈ entries :=
  (mem_foldl_insert h).resolve_left List.not_mem_nil

/-- **The values of a table that is read** are read themselves. -/
theorem exists_read {readKey : String → Option κ} {read : Json → Option ν} {v : Json}
    {m : OrderedMap κ ν} (h : ofJson? readKey read v = some m) (he : e ∈ m.entries) :
    ∃ w, read w = some e.2 := by
  unfold ofJson? at h
  split at h
  · obtain ⟨entries, hentries, h⟩ := Option.bind_eq_some_iff.1 h
    cases h
    obtain ⟨f, -, hf⟩ := exists_of_forall₂_right (Json.mapM_eq_some.1 hentries)
      (mem_of_mem_ofList he)
    obtain ⟨_, -, hf⟩ := Option.bind_eq_some_iff.1 hf
    obtain ⟨value, hvalue, hf⟩ := Option.bind_eq_some_iff.1 hf
    cases hf
    exact ⟨f.2, hvalue⟩
  · cases h

end OrderedMap

/-- A log of a bucket is empty or was written. -/
theorem BucketLogs.log_cases {α : Type} (m : BucketLogs α) (account : Address)
    (bucket : Timestamp) : m.log account bucket = .empty ∨
      ∃ d ∈ m.entries, ∃ e ∈ d.2.entries, e.2 = m.log account bucket := by
  unfold log OrderedMap.getD
  cases hbuckets : m.get? account with
  | none => exact .inl rfl
  | some buckets =>
    rw [Option.getD_some]
    cases hlog : buckets.get? bucket with
    | none => exact .inl rfl
    | some log =>
      exact .inr ⟨_, OrderedMap.get?_eq_some_iff.1 hbuckets, _,
        OrderedMap.get?_eq_some_iff.1 hlog, rfl⟩

theorem Ledger.ordered_of_packedOfJson? {v : Json} {log : CheckpointLog StakePoint}
    (h : packedOfJson? v = some log) : log.Ordered := by
  obtain ⟨text, -, h⟩ := Option.bind_eq_some_iff.1 h
  obtain ⟨bytes, -, h⟩ := Option.bind_eq_some_iff.1 h
  cases hread : CheckpointLog.ofPacked bytes with
  | error _ =>
    rw [hread] at h
    cases h
  | ok _ =>
    rw [hread] at h
    cases h
    exact CheckpointLog.ordered_of_ofPacked hread

theorem Ledger.storable_of_ofJson? {v : Json} {l : Ledger} (h : ofJson? v = some l) :
    l.Storable := by
  obtain ⟨parts, -, h⟩ := Option.bind_eq_some_iff.1 h
  split at h
  · simp only [Option.bind_eq_bind, Option.bind_eq_some_iff, Option.pure_def,
      Option.some.injEq] at h
    obtain ⟨_, -, stakes, hstakes, _, -, _, -, _, -, _, -, rfl⟩ := h
    refine ⟨rfl, fun account bucket => ?_⟩
    rcases BucketLogs.log_cases stakes account bucket with hempty | ⟨d, hd, e, he, hlog⟩
    · rw [hempty]
      exact .nil
    · obtain ⟨_, hbuckets⟩ := OrderedMap.exists_read hstakes hd
      obtain ⟨_, hread⟩ := OrderedMap.exists_read hbuckets he
      exact hlog ▸ ordered_of_packedOfJson? hread
  · cases h

theorem Governor.events_of_ofJson? {v : Json} {g : Governor} (h : ofJson? v = some g) :
    g.events = [] := by
  obtain ⟨parts, -, h⟩ := Option.bind_eq_some_iff.1 h
  split at h
  · simp only [Option.bind_eq_bind, Option.bind_eq_some_iff, Option.pure_def,
      Option.some.injEq] at h
    obtain ⟨_, -, _, -, _, -, _, -, _, -, _, -, rfl⟩ := h
    rfl
  · cases h

theorem Timelock.events_of_ofJson? {v : Json} {t : Timelock} (h : ofJson? v = some t) :
    t.events = [] := by
  obtain ⟨parts, -, h⟩ := Option.bind_eq_some_iff.1 h
  split at h
  · simp only [Option.bind_eq_bind, Option.bind_eq_some_iff, Option.pure_def,
      Option.some.injEq] at h
    obtain ⟨_, -, _, -, _, -, rfl⟩ := h
    rfl
  · cases h

theorem ProtocolState.storable_of_ofJson? {v : Json} {s : ProtocolState}
    (h : ofJson? v = some s) : s.Storable := by
  obtain ⟨parts, -, h⟩ := Option.bind_eq_some_iff.1 h
  split at h
  · simp only [Option.bind_eq_bind, Option.bind_eq_some_iff, Option.pure_def,
      Option.some.injEq] at h
    obtain ⟨_, -, ledger, hledger, governor, hgovernor, timelock, htimelock, _, -, _, -, _, -,
      rfl⟩ := h
    exact ⟨Ledger.storable_of_ofJson? hledger, Governor.events_of_ofJson? hgovernor,
      Timelock.events_of_ofJson? htimelock⟩
  · cases h

/-- **What is read can be stored.** -/
theorem Snapshot.storable_of_ofJson? {v : Json} {s : Snapshot} (h : ofJson? v = some s) :
    s.state.Storable := by
  obtain ⟨parts, -, h⟩ := Option.bind_eq_some_iff.1 h
  split at h
  · simp only [Option.bind_eq_bind, Option.bind_eq_some_iff, Option.pure_def,
      Option.some.injEq] at h
    obtain ⟨_, -, state, hstate, _, -, rfl⟩ := h
    exact ProtocolState.storable_of_ofJson? hstate
  · cases h

/-! ### Bytes -/

namespace StateStore

/-- **Bytes are read as they were written**: those of a snapshot whose state can be stored, and
those of a journal entry, in whatever order the fields of their tables stand. -/
theorem reads_what_was_written :
    (∀ s : Snapshot, s.state.Storable → ∀ v, s.toJson.Rearranged v →
      decode "snapshot" Snapshot.ofText? (encode v) = .ok s) ∧
    ∀ e : JournalEntry, ∀ v, e.toJson.Rearranged v →
      decode "journal entry" entryOfText? (encode v) = .ok e := by
  constructor
  · intro s hstorable v hv
    exact decode_encode_of_rearranged (Snapshot.survives hstorable) hv "snapshot" true
  · intro e v hv
    exact decode_encode_of_rearranged e.survives hv "journal entry" false

/-- The state that a small run comes to, stored with a vault whose two balances are written in the
other order; and a vote of more than 64 bits. -/
theorem reads_what_was_written_sample :
    let bob : Address := ⟨List.replicate 20 2, rfl⟩
    let state := (Run.perform Sample.start Sample.operations).2.state
    let vault : Vault :=
      ⟨.ofList [(Sample.alice, Word.ofNat 4000), (bob, Word.ofNat 7)], Word.ofNat 1000⟩
    let balances : Json := .object [(bob.toHexText, Amount.toJson (Word.ofNat 7)),
      (Sample.alice.toHexText, Amount.toJson (Word.ofNat 4000))]
    let v : Json := .object [("version", .ofWord Snapshot.currentVersion), ("state", state.toJson),
      ("vault", .object [("balances", balances), ("held", Amount.toJson (Word.ofNat 1000))])]
    let vote : GovernanceEvent := .voteCast bob (.ofNat 1) .for (.ofNat (2 ^ 100))
    let entry : JournalEntry := ⟨.ofNat 7, .ofNat 25, .governance vote⟩
    decode "snapshot" Snapshot.ofText? (encode v) = .ok (.create state vault) ∧
      decode "journal entry" entryOfText? (encode entry.toJson) = .ok entry := by
  intro bob state vault balances v vote entry
  have hbalances : (vault.balances.toJson Address.toHexText Amount.toJson).Rearranged balances :=
    Json.rearranged_of_perm (.swap ..)
  have hvault : vault.toJson.Rearranged
      (.object [("balances", balances), ("held", Amount.toJson (Word.ofNat 1000))]) :=
    Json.rearranged_of_values rfl (.cons hbalances (.cons (.refl _) .nil))
  have hv : (Snapshot.create state vault).toJson.Rearranged v :=
    Json.rearranged_of_values rfl (.cons (.refl _) (.cons (.refl _) (.cons hvault .nil)))
  obtain ⟨hsnapshot, hentry⟩ := reads_what_was_written
  exact ⟨hsnapshot (.create state vault) Sample.run.storable v hv, hentry entry _ (.refl _)⟩

/-- **The states that can be stored** are those that some bytes are read as. -/
theorem storable_iff_exists_bytes {s : Snapshot} :
    s.state.Storable ↔ ∃ bs, decode "snapshot" Snapshot.ofText? bs = .ok s := by
  constructor
  · exact fun h => ⟨_, decode_encode (Snapshot.survives h) "snapshot" true⟩
  · rintro ⟨bs, h⟩
    unfold decode at h
    split at h
    · rename_i hread
      cases h
      obtain ⟨v, -, hv⟩ := Option.bind_eq_some_iff.1 hread
      exact Snapshot.storable_of_ofJson? hv
    · cases h

end StateStore

end StakeGovernance
