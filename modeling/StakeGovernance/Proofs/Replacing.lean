import StakeGovernance.Proofs.Founding

/-!
# Replacing a store by force

A store that is to be replaced by force is read before it is emptied, for that is how it is found
out whether it is in use. A snapshot that cannot be read therefore keeps its store from being
replaced, although nobody would look at it again. A store that is not in use is not emptied, and
what is in the way of the new snapshot there stays in the way. Any other store is replaced.

* `StakeGovernance.Contents.IsTable` – a column that **can be changed**;
* `StakeGovernance.Contents.foldlM_eq_error` – why a batch of changes **is refused**;
* `StakeGovernance.StateStore.Intact`, `StakeGovernance.StateStore.Replaceable` – a store that
  **can be read**, and one that **can be replaced**;
* `StakeGovernance.Settings.forced_set_up_cases` – what **setting up by force** does to a store,
  whatever it holds.
-/

namespace StakeGovernance

/-! ### Columns that can be changed -/

namespace Contents

variable {columns after : OrderedMap String Column} {batch : List Change} {change : Change}
  {e : StorageError}

/-- **A column that can be changed** is a table, or is not there yet. -/
def IsTable (columns : OrderedMap String Column) (name : String) : Prop :=
  ∃ entries, columns.getD name .empty = .table entries

/-- A change makes no table of what is none, and leaves the tables that there are. -/
theorem isTable_applyOne (h : applyOne columns change = .ok after) (name : String) :
    IsTable after name ↔ IsTable columns name := by
  obtain ⟨entries, hentries, rfl⟩ := applyOne_eq_ok h
  unfold IsTable OrderedMap.getD
  rw [OrderedMap.get?_insert_eq]
  split
  · rename_i hname
    exact iff_of_true ⟨_, rfl⟩ ⟨entries, hname ▸ hentries⟩
  · rfl

theorem applyOne_eq_error (h : applyOne columns change = .error e) :
    ¬ IsTable columns change.column ∧ e = .notTable change.column := by
  unfold applyOne at h
  split at h
  · rename_i hother
    cases h
    refine ⟨?_, rfl⟩
    rintro ⟨entries, hentries⟩
    cases hother.symm.trans hentries
  · cases h

/-- **A batch that is made** changes nothing but tables. -/
theorem isTable_of_foldlM (h : batch.foldlM applyOne columns = .ok after)
    (hchange : change ∈ batch) : IsTable columns change.column := by
  induction batch generalizing columns with
  | nil => cases hchange
  | cons first rest ih =>
    rw [List.foldlM_cons] at h
    obtain ⟨next, hfirst, hrest⟩ := Checked.bind_eq_ok.1 h
    rcases List.mem_cons.1 hchange with rfl | hlater
    · obtain ⟨entries, hentries, -⟩ := applyOne_eq_ok hfirst
      exact ⟨entries, hentries⟩
    · exact (isTable_applyOne hfirst _).1 (ih hrest hlater)

/-- **A batch that is refused** has a change of a column that is no table. -/
theorem foldlM_eq_error (h : batch.foldlM applyOne columns = .error e) :
    ∃ change ∈ batch, ¬ IsTable columns change.column ∧ e = .notTable change.column := by
  induction batch generalizing columns with
  | nil => cases h
  | cons first rest ih =>
    rw [List.foldlM_cons] at h
    rcases Checked.bind_eq_error.1 h with hfirst | ⟨next, hfirst, hrest⟩
    · exact ⟨first, List.mem_cons_self, applyOne_eq_error hfirst⟩
    · obtain ⟨change, hchange, hother, rfl⟩ := ih hrest
      refine ⟨change, List.mem_cons_of_mem _ hchange, ?_, rfl⟩
      rwa [← isTable_applyOne hfirst]

end Contents

/-! ### Stores that can be replaced -/

namespace StateStore

variable {store : StateStore} {d : Disk} {path : String} {c : Contents}

/-- **A store that can be read**: it has no snapshot, or else one that its checksum fits, that is
the text of a snapshot and that is of the current version. -/
def Intact (store : StateStore) : Prop :=
  store.database.get? metaColumn snapshotKey = .ok none ∨ ∃ snapshot bs,
    store.database.get? metaColumn snapshotKey = .ok (some bs) ∧
      store.database.get? metaColumn checksumKey = .ok (some (Digest.compute bs).bytes) ∧
      decode "snapshot" Snapshot.ofText? bs = .ok snapshot ∧
      snapshot.version = Snapshot.currentVersion

/-- **The snapshot is loaded** from a store that can be read, and from no other. -/
theorem exists_loadSnapshot?_iff :
    (∃ snapshot, store.loadSnapshot? = .ok snapshot) ↔ store.Intact := by
  rw [Option.exists, loadSnapshot?_eq_none_iff]
  exact or_congr_right (exists_congr fun _ => loadSnapshot?_eq_some_iff)

/-- **A store that can be replaced** can be read, and it is in use, so that it will be emptied, or
else its column for the snapshot can be changed. -/
structure Replaceable (store : StateStore) : Prop where
  intact : store.Intact
  room : store.InUse ∨ Contents.IsTable store.database.contents.columns metaColumn

/-- **A snapshot alone is committed**, where the file can be written, if and only if the column for
it can be changed. -/
theorem commit_snapshot_cases (hwritable : Database.Writable d path) (c : Contents)
    (snapshot : Snapshot) :
    (Contents.IsTable c.columns metaColumn ∧
      ∃ store d', commit ⟨path, c⟩ snapshot [] d = .ok store d') ∨
    (¬ Contents.IsTable c.columns metaColumn ∧
      commit ⟨path, c⟩ snapshot [] d = .error (.notTable metaColumn) d) := by
  have hcolumns : ∀ change ∈ commitBatch snapshot [], change.column = metaColumn := by
    simp [commitBatch]
  cases hall : (commitBatch snapshot []).foldlM Contents.applyOne c.columns with
  | ok after =>
    obtain ⟨d', hpersist⟩ := hwritable.persist (.table after)
    exact Or.inl ⟨Contents.isTable_of_foldlM hall List.mem_cons_self, _, d',
      commit_eq_ok.2 ⟨_, Contents.apply_eq_ok.2 ⟨after, hall, rfl⟩, hpersist, rfl⟩⟩
  | error e =>
    obtain ⟨change, hchange, hother, rfl⟩ := Contents.foldlM_eq_error hall
    rw [hcolumns change hchange] at hother hall
    have happly : c.apply (commitBatch snapshot []) = .error (.notTable metaColumn) :=
      congrArg (Except.map Contents.table) hall
    exact Or.inr ⟨hother, Call.bind_pure_eq_error.2
      (Database.writeBatch_eq_error.2 (Or.inl ⟨happly, rfl⟩))⟩

end StateStore

namespace Settings

variable {s : Settings} {force : Bool} {d d' d₁ : Disk} {found kept store : StateStore}
  {p : Protocol Vault} {c : StorageError}

/-! ### The protocol at its beginning -/

/-- Registering handlers records nothing. -/
theorem keeps_journal_registerCapability {ν : Type} [Custody ν] (journal : List JournalEntry)
    (target : Address) (version : Version) (handler : Treasury) :
    Call.Keeps (fun p : Protocol ν => p.journal = journal)
      (Protocol.registerCapability target version handler) := by
  refine Call.keeps_of (fun p _ q hp h => ?_) fun p _ q hp h => ?_
  · obtain ⟨_, -, rfl⟩ := Protocol.registerCapability_eq_ok h
    exact hp
  · rwa [Protocol.registerCapability_eq_error h]

/-- **A protocol begins with an empty journal.** -/
theorem journal_of_genesis (h : s.genesisProtocol = .ok p) : p.journal = [] := by
  obtain ⟨vault, -, h⟩ := Checked.bind_eq_ok.1 h
  obtain ⟨start, hcreate, h⟩ := Checked.bind_eq_ok.1 h
  have hall := outcome_eq_ok.1 (Checked.mapError_eq_ok.1 h)
  obtain ⟨rfl, -⟩ := Protocol.create_eq_ok (Checked.mapError_eq_ok.1 hcreate)
  exact (Call.Keeps.forEach fun _ _ => keeps_journal_registerCapability _ _ _ _).of_ok hall rfl

/-! ### Emptying -/

/-- A store that cannot be read is not emptied. -/
theorem vacate_of_unread (h : found.loadSnapshot? = .error c) :
    s.vacate force found d = .error (.storage c) d := by
  refine Call.lift_bind_eq_error.2 (Or.inl ⟨?_, rfl⟩)
  rw [h]
  rfl

/-- Nor is a store that is not in use. -/
theorem vacate_of_free (hintact : found.Intact) (hfree : ¬ found.InUse) :
    s.vacate force found d = .ok found d := by
  obtain ⟨snapshot, hload⟩ := StateStore.exists_loadSnapshot?_iff.2 hintact
  refine Call.lift_bind_eq_ok.2 ⟨snapshot, Checked.mapError_eq_ok.2 hload, ?_⟩
  rw [if_neg fun huse => hfree ((StateStore.inUse_iff hload).2 huse)]
  rfl

/-- A store in use is emptied by force. -/
theorem vacate_of_inUse (huse : found.InUse) (hclear : found.clear d = .ok kept d₁) :
    s.vacate true found d = .ok kept d₁ := by
  obtain ⟨snapshot, hload, -⟩ := id huse
  refine Call.lift_bind_eq_ok.2 ⟨snapshot, Checked.mapError_eq_ok.2 hload, ?_⟩
  rw [if_pos ((StateStore.inUse_iff hload).1 huse), if_pos rfl]
  exact Call.part_eq_ok.2 ⟨d₁, hclear, rfl⟩

section Site

variable (hsite : Database.Site d s.dataDir) (hstored : s.stored d = .ok found)

include hsite hstored

/-! ### Setting up -/

/-- **A store that cannot be read** is not set up. -/
theorem setUp_of_unread (hload : found.loadSnapshot? = .error c) :
    s.setUp force d = .error (.storage c) d :=
  Call.bind_eq_error.2 (Or.inr ⟨found, d, (openAt_site_eq_ok hsite).2 ⟨hstored, rfl⟩,
    Call.bind_eq_error.2 (Or.inl (vacate_of_unread hload))⟩)

/-- **What is left of a store** decides whether the new protocol can be committed there. -/
theorem setUp_of_vacated (hgenesis : s.genesisProtocol = .ok p)
    (hvacate : s.vacate force found d = .ok kept d₁) :
    s.setUp force d = onStore (kept.commit (.create p.state p.vault) p.journal) d₁ := by
  unfold setUp
  rw [Call.bind_of_ok ((openAt_site_eq_ok hsite).2 ⟨hstored, rfl⟩), Call.bind_of_ok hvacate,
    hgenesis]
  exact Call.lift_ok_bind p

/-- **A store that was set up by force** holds the protocol at its beginning. -/
theorem holds_of_forced (hgenesis : s.genesisProtocol = .ok p)
    (h : s.setUp true d = .ok store d') :
    store.loadSnapshot? = .ok (some (.create p.state p.vault)) ∧ store.Records p.journal ∧
      d'.find? (Database.filePath s.dataDir) = some (.file store.database.contents.toText) ∧
      (found.InUse → s.stored d' = .ok store) := by
  obtain ⟨q, hq, hoccupied, hpath, hholds, hfile⟩ := setUp_eq_ok hsite h
  cases hgenesis.symm.trans hq
  refine ⟨hholds.snapshot, hholds.journal ?_, hfile, fun huse => ?_⟩
  · rw [journal_of_genesis hgenesis]
    exact Nat.zero_le _
  · obtain ⟨⟨directory, contents⟩⟩ := store
    cases hpath
    exact stored_of_file (hoccupied ⟨found, hstored, huse⟩).2 hfile

/-- **A store that can be replaced** is set up by force. -/
theorem exists_forced_set_up (hgenesis : s.genesisProtocol = .ok p)
    (h : found.Replaceable) : ∃ store d', s.setUp true d = .ok store d' := by
  obtain ⟨contents, -, rfl⟩ := stored_eq_ok.1 hstored
  obtain ⟨kept, d₁, store, d', hvacate, hcommit⟩ : ∃ kept d₁ store d',
      s.vacate true ⟨s.dataDir, contents⟩ d = .ok kept d₁ ∧
        kept.commit (.create p.state p.vault) p.journal d₁ = .ok store d' := by
    by_cases huse : StateStore.InUse ⟨s.dataDir, contents⟩
    · obtain ⟨d₁, hclear, hsame, -⟩ := StateStore.exists_clear hsite.writable contents
      obtain ⟨_, d', -, -, hcommit⟩ := StateStore.exists_commit Contents.textual_empty
        (hsite.writable.congr hsame) (.create p.state p.vault) p.journal
      exact ⟨_, d₁, _, d', vacate_of_inUse huse hclear, hcommit⟩
    · rw [journal_of_genesis hgenesis]
      rcases StateStore.commit_snapshot_cases hsite.writable contents (.create p.state p.vault) with
        ⟨-, store, d', hcommit⟩ | ⟨hother, -⟩
      · exact ⟨_, d, store, d', vacate_of_free h.intact huse, hcommit⟩
      · exact absurd (h.room.resolve_left huse) hother
  refine ⟨store, d', (setUp_of_vacated hsite hstored hgenesis hvacate).trans ?_⟩
  exact Call.part_eq_ok.2 ⟨d', hcommit, rfl⟩

/-- **A store that cannot be replaced** is left as it is. -/
theorem forced_set_up_eq_error (hgenesis : s.genesisProtocol = .ok p) (h : ¬ found.Replaceable) :
    ∃ c, s.setUp true d = .error (.storage c) d ∧
      (found.loadSnapshot? = .error c ∨ c = .notTable StateStore.metaColumn) := by
  cases hload : found.loadSnapshot? with
  | error c => exact ⟨c, setUp_of_unread hsite hstored hload, Or.inl rfl⟩
  | ok snapshot =>
    obtain ⟨contents, -, rfl⟩ := stored_eq_ok.1 hstored
    have hintact := StateStore.exists_loadSnapshot?_iff.1 ⟨snapshot, hload⟩
    have hfree : ¬ StateStore.InUse ⟨s.dataDir, contents⟩ := fun huse => h ⟨hintact, Or.inl huse⟩
    rcases StateStore.commit_snapshot_cases hsite.writable contents (.create p.state p.vault) with
      ⟨htable, -⟩ | ⟨-, hcommit⟩
    · exact absurd ⟨hintact, Or.inr htable⟩ h
    · rw [← journal_of_genesis hgenesis] at hcommit
      refine ⟨_, ?_, Or.inr rfl⟩
      rw [setUp_of_vacated hsite hstored hgenesis (vacate_of_free hintact hfree)]
      exact Call.part_eq_error.2 ⟨_, d, hcommit, rfl, rfl⟩

/-- **What setting up by force does to a store.** Let a store be on a site on which no write of its
file fails, whatever it holds, and let the protocol that is to replace it have a beginning. If the
store can be replaced, then it is: its snapshot is that of the protocol at its beginning, and its
journal is what this protocol has recorded. If it cannot be replaced, then there is an error, which
comes from reading the old snapshot or is about its column, and nothing is changed. -/
theorem forced_set_up_cases (hgenesis : s.genesisProtocol = .ok p) :
    (found.Replaceable ∧ ∃ store d', s.setUp true d = .ok store d' ∧
      store.loadSnapshot? = .ok (some (.create p.state p.vault)) ∧ store.Records p.journal ∧
      d'.find? (Database.filePath s.dataDir) = some (.file store.database.contents.toText) ∧
      (found.InUse → s.stored d' = .ok store)) ∨
    (¬ found.Replaceable ∧ ∃ c, s.setUp true d = .error (.storage c) d ∧
      (found.loadSnapshot? = .error c ∨ c = .notTable StateStore.metaColumn)) := by
  by_cases h : found.Replaceable
  · obtain ⟨store, d', hsetup⟩ := exists_forced_set_up hsite hstored hgenesis h
    exact Or.inl ⟨h, store, d', hsetup, holds_of_forced hsite hstored hgenesis hsetup⟩
  · exact Or.inr ⟨h, forced_set_up_eq_error hsite hstored hgenesis h⟩

end Site

end Settings

/-! ### A store that cannot be replaced -/

namespace Sample

/-- A snapshot without its checksum. -/
def torn : Contents :=
  .table (OrderedMap.empty.insert StateStore.metaColumn (.table (OrderedMap.empty.insert
    (Hex.encode StateStore.snapshotKey) (.string (Hex.encode (utf8Bytes "{}"))))))

/-- A disk with such a store. -/
def tornDisk : Disk := disk.put ⟨["data", "data.json"]⟩ (.file torn.toText)

end Sample

namespace Settings

/-- The store of the small protocol is in use, and can be replaced by force. -/
theorem forced_set_up_cases_sample : ∃ (p : Protocol Vault) (store : StateStore) (d d' : Disk),
    Sample.settings.genesisProtocol = .ok p ∧ Sample.settings.Occupied d ∧
      Sample.settings.setUp true d = .ok store d' ∧
      store.loadSnapshot? = .ok (some (.create p.state p.vault)) ∧ store.Records p.journal ∧
      Sample.settings.stored d' = .ok store := by
  obtain ⟨p, found, d, hgenesis, hsite, hstored, hholds⟩ := Sample.exists_founded
  have hoccupied : Sample.settings.Occupied d := ⟨found, hstored, hholds.inUse⟩
  have hintact : found.Intact := StateStore.exists_loadSnapshot?_iff.1 ⟨_, hholds.snapshot⟩
  rcases forced_set_up_cases hsite hstored hgenesis with
    ⟨-, store, d', hsetup, hsnapshot, hrecords, -, hlater⟩ | ⟨hkept, -⟩
  · exact ⟨p, store, d, d', hgenesis, hoccupied, hsetup, hsnapshot, hrecords, hlater hholds.inUse⟩
  · exact absurd ⟨hintact, Or.inl hholds.inUse⟩ hkept

/-- **A store is not replaced by force** if its snapshot has lost its checksum, though the settings
are valid, the protocol has a beginning and no write fails. -/
theorem forced_set_up_keeps_torn : ∃ p, Sample.settings.validate = .ok () ∧
    Sample.settings.genesisProtocol = .ok p ∧
    Database.Site Sample.tornDisk Sample.settings.dataDir ∧
    Sample.settings.stored Sample.tornDisk = .ok ⟨"data", Sample.torn⟩ ∧
    Sample.settings.setUp true Sample.tornDisk
      = .error (.storage .noChecksum) Sample.tornDisk := by
  obtain ⟨p, hgenesis, -⟩ := Sample.genesis_eq_ok
  have hvalid : Sample.settings.validate = .ok () := by decide +kernel
  have htextual : Sample.torn.Textual := by
    intro column hcolumn
    cases List.mem_singleton.1 hcolumn
    intro cell hcell
    cases List.mem_singleton.1 hcell
    exact ⟨_, rfl⟩
  have hsame : Sample.disk.SameDirectories Sample.tornDisk :=
    Disk.sameDirectories_put (by decide +kernel) _
  have hsite : Database.Site Sample.tornDisk "data" :=
    ⟨Disk.makeDirectories_again Sample.room_empty.directories hsame,
      Sample.writable_disk.congr hsame⟩
  have hfile : Sample.tornDisk.find? (Database.filePath "data")
      = some (.file Sample.torn.toText) := by decide +kernel
  have hstored := stored_of_file (s := Sample.settings) htextual hfile
  refine ⟨p, hvalid, hgenesis, hsite, hstored, setUp_of_unread hsite hstored ?_⟩
  rfl

end Settings

end StakeGovernance
