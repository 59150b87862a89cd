import StakeGovernance.Proofs.Durability

/-!
# What was committed is returned

A commit is one batch of changes: of the snapshot, of its checksum, and of one key for each entry
of the journal. So a store is a database that is changed by batches, and what there is under a key
is what the last of all these changes has put there. The last change of the snapshot is that of the
last commit. The keys of the journal are the numbers of its entries, and so the last change of a key
is that of the last entry under its number, in whichever commit it was. The order of the keys is
that of the numbers.

* `StakeGovernance.Holdings.foldl_change` – the **last change of a key** decides;
* `StakeGovernance.StateStore.Commit`, `StakeGovernance.StateStore.Course` – what can be
  **committed**, and what can happen to a store;
* `StakeGovernance.StateStore.held_snapshot`, `StakeGovernance.StateStore.held_journal` – what
  **commits leave** in the columns;
* `StakeGovernance.StateStore.Course.returns_what_was_committed` – a store **returns** the last
  snapshot, and under each number the last entry.
-/

namespace StakeGovernance

/-! ### Batches -/

/-- Whether a change is one of a key of a column. -/
def Change.isAt (c : Change) (name : String) (key : Bytes) : Bool :=
  name = c.column ∧ key = c.key

namespace Holdings

/-- **The last change of a key decides** what there is under it. -/
theorem foldl_change (changes : List Change) (m : Holdings) (name : String) (key : Bytes) :
    changes.foldl change m name key
      = (changes.filter (·.isAt name key)).getLast?.elim (m name key) Change.value := by
  induction changes using List.reverseRecOn with
  | nil => rfl
  | append_singleton changes last ih =>
    rw [List.foldl_append, List.filter_append, List.filter_singleton, List.foldl_cons,
      List.foldl_nil, change]
    by_cases hlast : name = last.column ∧ key = last.key
    · have hat : last.isAt name key = true := decide_eq_true hlast
      rw [if_pos hlast, hat, cond_true, List.getLast?_concat]
      rfl
    · have hat : last.isAt name key = false := decide_eq_false hlast
      rw [if_neg hlast, ih, hat, cond_false, List.append_nil]

/-- A row of batches is one batch. -/
theorem after_batches (batches : List (List Change)) :
    after (batches.map .batch) = batches.flatten.foldl change nothing := by
  unfold after
  rw [List.foldl_map, List.foldl_flatten]
  rfl

end Holdings

namespace StateStore

/-! ### Commits -/

/-- **What is committed at once**: a snapshot of a state that can be stored, and entries of the
journal, with any numbers. -/
structure Commit where
  state : ProtocolState
  vault : Vault
  entries : List JournalEntry
  storable : state.Storable

namespace Commit

/-- The snapshot of a commit. -/
def snapshot (c : Commit) : Snapshot := .create c.state c.vault

/-- The changes that a commit makes. -/
def changes (c : Commit) : List Change := commitBatch c.snapshot c.entries

/-- The commit to a store. -/
def run (s : StateStore) (c : Commit) : Call StorageError Disk StateStore :=
  s.commit c.snapshot c.entries

variable {s t : StateStore} {c : Commit} {d d' : Disk}

theorem run_eq_ok : run s c d = .ok t d' ↔
    Write.run s.database (.batch c.changes) d = .ok t.database d' := by
  refine Call.bind_pure_eq_ok.trans ⟨?_, fun h => ⟨_, h, rfl⟩⟩
  rintro ⟨db, hwrite, rfl⟩
  exact hwrite

theorem run_eq_error {e : StorageError} : run s c d = .error e d' ↔
    Write.run s.database (.batch c.changes) d = .error e d' := Call.bind_pure_eq_error

end Commit

/-- **The last entry under a number.** -/
def lastUnder (entries : List JournalEntry) (seq : Word 64) : Option JournalEntry :=
  (entries.filter fun e => e.seq = seq).getLast?

theorem key_injective {a b : Word 64} (h : bigEndian 8 a.toNat = bigEndian 8 b.toNat) : a = b := by
  have ha : ofBigEndian (bigEndian 8 a.toNat) = a.toNat := ofBigEndian_bigEndian a.toNat_lt
  rw [h] at ha
  exact Word.ext (ha.symm.trans (ofBigEndian_bigEndian b.toNat_lt))

/-- The last entry under a number is the last one that is kept under its key. -/
theorem lastUnder_eq (entries : List JournalEntry) (seq : Word 64) : lastUnder entries seq
    = (entries.filter fun e => bigEndian 8 seq.toNat = bigEndian 8 e.seq.toNat).getLast? := by
  refine congrArg List.getLast? (List.filter_congr fun e _ => decide_eq_decide.2 ?_)
  exact ⟨fun h => h ▸ rfl, fun h => (key_injective h).symm⟩

theorem encode_injective {e e' : JournalEntry} (h : encode e.toJson = encode e'.toJson) :
    e = e' := by
  have he := decode_encode e.survives "journal entry" false
  rw [h] at he
  exact Except.ok.inj (he.symm.trans (decode_encode e'.survives "journal entry" false))

/-! ### What commits leave -/

/-- What a row of commits leaves of nothing. -/
def held (commits : List Commit) : Holdings :=
  .after ((commits.map Commit.changes).map .batch)

/-- **Commits that make one change of a key each**, or a row of them, leave what the last one
says. -/
theorem held_eq {α : Type} (commits : List Commit) {name : String} {key : Bytes}
    (found : Commit → List α) (write : α → Change) {value : α → Bytes}
    (hchanges : ∀ c : Commit, c.changes.filter (·.isAt name key) = (found c).map write)
    (hvalue : ∀ a, (write a).value = some (value a)) :
    held commits name key = (commits.flatMap found).getLast?.map value := by
  have hall : (commits.map Commit.changes).flatten.filter (·.isAt name key)
      = (commits.flatMap found).map write := by
    rw [← List.flatMap_def, List.filter_flatMap, List.map_flatMap]
    exact congrArg (commits.flatMap ·) (funext hchanges)
  unfold held
  rw [Holdings.after_batches, Holdings.foldl_change, hall, List.getLast?_map]
  cases (commits.flatMap found).getLast? with
  | none => rfl
  | some a => exact hvalue a

/-- A change of the journal is at the key of its entry. -/
theorem isAt_journalChange (e : JournalEntry) (key : Bytes) :
    (journalChange e).isAt journalColumn key = decide (key = bigEndian 8 e.seq.toNat) := by
  unfold Change.isAt journalChange
  simp

theorem filter_journalChange (c : Commit) (key : Bytes) :
    (c.entries.map journalChange).filter (·.isAt metaColumn key) = [] := by
  refine List.filter_eq_nil_iff.2 fun change hchange => ?_
  obtain ⟨e, -, rfl⟩ := List.mem_map.1 hchange
  intro h
  exact journalColumn_ne_metaColumn (of_decide_eq_true h).1.symm

/-- A key that every commit sets has what the last commit has set. -/
theorem held_of_one (commits : List Commit) {key : Bytes} {value : Commit → Bytes}
    (hone : ∀ c : Commit,
      c.changes.filter (·.isAt metaColumn key) = [⟨metaColumn, key, some (value c)⟩]) :
    held commits metaColumn key = commits.getLast?.map value := by
  rw [held_eq commits (fun c => [c]) (fun c => ⟨metaColumn, key, some (value c)⟩) hone fun _ => rfl,
    List.flatMap_singleton']

/-- **The snapshot that is held** is that of the last commit. -/
theorem held_snapshot (commits : List Commit) :
    held commits metaColumn snapshotKey
      = commits.getLast?.map fun c => encode c.snapshot.toJson := by
  refine held_of_one commits fun c => ?_
  unfold Commit.changes commitBatch
  rw [List.filter_cons_of_pos (by simp [Change.isAt]),
    List.filter_cons_of_neg (by simp [Change.isAt, snapshotKey_ne_checksumKey]),
    filter_journalChange]

/-- **The checksum that is held** is that of the last commit. -/
theorem held_checksum (commits : List Commit) :
    held commits metaColumn checksumKey
      = commits.getLast?.map fun c => (Digest.compute (encode c.snapshot.toJson)).bytes := by
  refine held_of_one commits fun c => ?_
  unfold Commit.changes commitBatch
  rw [List.filter_cons_of_neg (by simp [Change.isAt, snapshotKey_ne_checksumKey.symm]),
    List.filter_cons_of_pos (by simp [Change.isAt]), filter_journalChange]

/-- **The entries that are held** are the last ones under their numbers. -/
theorem held_journal (commits : List Commit) {key value : Bytes} :
    held commits journalColumn key = some value ↔
      ∃ e, lastUnder (commits.flatMap Commit.entries) e.seq = some e ∧ rowOf e = (key, value) := by
  rw [held_eq commits (fun c => c.entries.filter fun e => key = bigEndian 8 e.seq.toNat)
    journalChange (fun c => ?_) (fun _ => rfl), ← List.filter_flatMap, Option.map_eq_some_iff]
  · constructor
    · rintro ⟨e, hlast, rfl⟩
      obtain rfl : key = bigEndian 8 e.seq.toNat :=
        of_decide_eq_true (List.mem_filter.1 (List.mem_of_getLast? hlast)).2
      exact ⟨e, (lastUnder_eq _ _).trans hlast, rfl⟩
    · rintro ⟨e, hlast, hrow⟩
      obtain ⟨rfl, rfl⟩ := Prod.mk.inj hrow
      exact ⟨e, (lastUnder_eq _ _).symm.trans hlast, rfl⟩
  · unfold Commit.changes commitBatch
    have hne := journalColumn_ne_metaColumn
    rw [List.filter_cons_of_neg (by simp [Change.isAt, hne]),
      List.filter_cons_of_neg (by simp [Change.isAt, hne]), List.filter_map]
    exact congrArg (List.map journalChange) (List.filter_congr fun e _ => isAt_journalChange e key)

/-! ### Courses -/

/-- **What can happen to a store.** -/
abbrev Course (path : String) : List Commit → StateStore → Disk → Prop :=
  Disk.Course (Database.filePath path) (openAt path) Commit.run

/-- **The keys of the journal are ordered as the numbers** that they are made of. -/
theorem lt_of_compare_keys {a b : Word 64}
    (h : compare (bigEndian 8 a.toNat) (bigEndian 8 b.toNat) = .lt) : a < b := by
  have hkeys : ∀ {m n : Word 64}, m.toNat < n.toNat →
      compare (bigEndian 8 m.toNat) (bigEndian 8 n.toNat) = .lt := fun {m n} hlt => by
    refine compare_bytes_of_lt (by rw [length_bigEndian, length_bigEndian]) ?_
    rwa [ofBigEndian_bigEndian m.toNat_lt, ofBigEndian_bigEndian n.toNat_lt]
  rcases Nat.lt_trichotomy a.toNat b.toNat with hlt | heq | hgt
  · exact hlt
  · rw [heq, Std.compare_self] at h
    cases h
  · rw [Std.OrientedOrd.eq_swap, hkeys hgt] at h
    cases h

variable {path : String} {commits : List Commit} {s : StateStore} {d : Disk}

/-- **A store is a database** that is changed by batches. -/
theorem Course.database (h : Course path commits s d) :
    Database.Course path ((commits.map Commit.changes).map .batch) s.database d := by
  have hopening : ∀ {t : StateStore} {d d' : Disk}, openAt path d = .ok t d' →
      Database.openAt path d = .ok t.database d' := fun hopen => by
    obtain ⟨db, hdb, rfl⟩ := Call.bind_pure_eq_ok.1 hopen
    exact hdb
  induction h with
  | opened hopen hnone => exact .opened (hopening hopen) hnone
  | meanwhile _ hfile ih => exact .meanwhile ih hfile
  | succeeded _ hrun ih =>
    rw [List.map_append, List.map_append]
    exact .succeeded ih (Commit.run_eq_ok.1 hrun)
  | failed _ hrun ih => exact .failed ih (Commit.run_eq_error.1 hrun)
  | reopened _ hopen hnone ih => exact .reopened ih (hopening hopen) hnone

/-- **The journal that is kept** has the last entry under each number, in the order of the
numbers. -/
theorem exists_records (h : s.database.contents.Keeps (held commits)) : ∃ entries,
    s.Records entries ∧ (entries.Pairwise fun a b => a.seq < b.seq) ∧
      ∀ e, e ∈ entries ↔ lastUnder (commits.flatMap Commit.entries) e.seq = some e := by
  obtain ⟨rows, hscan, hasc, hmem, -⟩ := h.scan journalColumn
  have hrow : ∀ row, row ∈ rows ↔
      ∃ e, lastUnder (commits.flatMap Commit.entries) e.seq = some e ∧ rowOf e = row := fun row =>
    (hmem row.1 row.2).trans (held_journal commits)
  obtain ⟨entries, rfl⟩ : rows ∈ Set.range (List.map rowOf) := by
    rw [Set.range_list_map]
    intro row hin
    obtain ⟨e, -, he⟩ := (hrow row).1 hin
    exact ⟨e, he⟩
  have hinjective : Function.Injective rowOf := fun _ _ h => encode_injective (Prod.mk.inj h).2
  refine ⟨entries, records_of_rows hscan ?_, ?_, fun e => ?_⟩
  · exact List.forall₂_map_left_iff.2 (List.forall₂_map_right_iff.2
      (List.forall₂_same.2 fun e _ => row_rowOf e))
  · exact (List.pairwise_map.1 hasc).imp lt_of_compare_keys
  · rw [← List.mem_map_of_injective hinjective, hrow]
    constructor
    · rintro ⟨e', hlast, hsame⟩
      exact hinjective hsame ▸ hlast
    · exact fun hlast => ⟨e, hlast, rfl⟩

/-- **The snapshot that is kept** is loaded, if there is one. -/
theorem loadSnapshot?_of_keeps (h : s.database.contents.Keeps (held commits)) :
    s.loadSnapshot? = .ok (commits.getLast?.map Commit.snapshot) := by
  have hsnapshot := h.get? metaColumn snapshotKey
  have hchecksum := h.get? metaColumn checksumKey
  rw [held_snapshot] at hsnapshot
  rw [held_checksum] at hchecksum
  cases hlast : commits.getLast? with
  | none =>
    rw [hlast] at hsnapshot
    exact loadSnapshot?_eq_none_iff.2 hsnapshot
  | some c =>
    rw [hlast] at hsnapshot hchecksum
    exact loadSnapshot?_of_cells c.storable hsnapshot hchecksum

/-- **A store returns what was committed.** Let a store be opened in an empty directory, and let
snapshots of states that can be stored be committed to it with any entries of the journal; some of
these commits may fail, the store may be opened again at any time, and meanwhile anything may happen
on the disk that leaves its file as it is. Then the snapshot of the last commit that succeeded is
loaded, if there was one. From every number on, the journal is read in the order of the numbers,
each once, and what is read under a number is the last entry that was committed under it. On a site
where no write fails, every commit succeeds, and the store can be opened again and is the same. -/
theorem Course.returns_what_was_committed (h : Course path commits s d) :
    s.loadSnapshot? = .ok (commits.getLast?.map Commit.snapshot) ∧
    (∀ first, ∃ entries, s.journalSince first = .ok entries ∧
      (entries.Pairwise fun a b => a.seq < b.seq) ∧
      ∀ e, e ∈ entries ↔
        first ≤ e.seq ∧ lastUnder (commits.flatMap Commit.entries) e.seq = some e) ∧
    (Database.Site d path → openAt path d = .ok s d ∧
      ∀ c, ∃ s' d', Commit.run s c d = .ok s' d' ∧ Database.Site d' path) := by
  have hstands := h.database.stands
  obtain ⟨entries, hrecords, hasc, hmem⟩ := exists_records hstands.keeps
  refine ⟨loadSnapshot?_of_keeps hstands.keeps, fun first => ⟨_, hrecords first, hasc.filter _, ?_⟩,
    fun hsite => ⟨Call.bind_pure_eq_ok.2 ⟨_, hstands.openAt hsite, rfl⟩, fun c => ?_⟩⟩
  · intro e
    rw [List.mem_filter, hmem, decide_eq_true_iff]
    exact and_comm
  · obtain ⟨db, d', hrun, hsite'⟩ := hstands.exists_run hsite (.batch c.changes)
    exact ⟨⟨db⟩, d', Commit.run_eq_ok.2 hrun, hsite'⟩

/-- A commit of the small protocol with another vault, and with entries that say that proposals were
executed. -/
def Commit.sample (vault : Vault) (executed : List (Nat × Nat)) : Commit where
  state := Sample.start.state
  vault
  entries := executed.map fun (seq, id) =>
    ⟨.ofNat seq, .ofNat 10, .governance (.proposalExecuted (.ofNat id))⟩
  storable := (Run.create (by rfl) : Run Sample.config Sample.vault [] Sample.start).storable

/-- Two entries are committed, the greater number first. The store is opened again, and another
entry is committed with another vault, under a number that is taken. Then its vault is loaded, and
its entry is read in place of the first one. -/
theorem Course.returns_what_was_committed_sample : ∃ s d,
    Course "data" [.sample Sample.vault [(5, 0), (2, 1)], .sample .empty [(2, 2)]] s d ∧
      s.loadSnapshot? = .ok (some (.create Sample.start.state .empty)) ∧
      ∃ entries, s.journalSince (.ofNat 2) = .ok entries ∧ (entries.map (·.seq.toNat)).Nodup ∧
        ⟨.ofNat 2, .ofNat 10, .governance (.proposalExecuted (.ofNat 2))⟩ ∈ entries := by
  have hopened : Course "data" [] ⟨⟨"data", .empty⟩⟩ Sample.disk :=
    .opened (Call.bind_pure_eq_ok.2 ⟨_, Database.openAt_of Sample.room_empty.directories
      (Database.load_of_none Sample.room_empty.vacant), rfl⟩) Sample.room_empty.vacant
  obtain ⟨-, -, hsites⟩ := returns_what_was_committed hopened
  obtain ⟨s₁, d₁, hrun₁, hsite₁⟩ :=
    (hsites Database.site_sample).2 (.sample Sample.vault [(5, 0), (2, 1)])
  have hfirst : Course "data" [.sample Sample.vault [(5, 0), (2, 1)]] s₁ d₁ :=
    .succeeded hopened hrun₁
  obtain ⟨-, -, hsites₁⟩ := returns_what_was_committed hfirst
  obtain ⟨hopen, hcommit⟩ := hsites₁ hsite₁
  obtain ⟨s₂, d₂, hrun₂, -⟩ := hcommit (.sample .empty [(2, 2)])
  have hsecond : Course "data"
      [.sample Sample.vault [(5, 0), (2, 1)], .sample .empty [(2, 2)]] s₂ d₂ :=
    .succeeded (.reopened hfirst hopen id) hrun₂
  obtain ⟨hload, hjournal, -⟩ := returns_what_was_committed hsecond
  obtain ⟨entries, hread, hasc, hmem⟩ := hjournal (.ofNat 2)
  refine ⟨s₂, d₂, hsecond, hload, entries, hread, ?_, (hmem _).2 ⟨by decide, by decide +kernel⟩⟩
  exact List.pairwise_map.2 (hasc.imp Nat.ne_of_lt)

end StateStore

end StakeGovernance
