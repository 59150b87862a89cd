import StakeGovernance.Proofs.Cycles
import StakeGovernance.Proofs.Documents

/-!
# Setting a store up, and failing to

A store is set up in three steps. First it is emptied, if it is in use and is to be replaced. Then
the protocol at its beginning is worked out, and then that is written; the settings are written
beside it in the end. Each step can fail, and none of them is taken back. What a failed set-up
leaves therefore depends on how far it has come: it loses nothing before the first step, all there
was after it, and after the last one there is a new store, whatever becomes of the settings.

The settings themselves need not have done anything wrong for that. The checks they have to pass
look neither at the sum of the first balances, nor at the path of their file, nor at the width of
their numbers.

* `StakeGovernance.Settings.stored`, `StakeGovernance.Settings.Occupied` – the store **as it is
  found**, and one that is **in use**;
* `StakeGovernance.Database.Site` – a disk on which **no write fails**;
* `StakeGovernance.Settings.setUp_eq_ok`, `StakeGovernance.Settings.setUp_eq_error` – what **setting
  up** leaves;
* `StakeGovernance.Settings.Unwritten` – why **settings are not written**;
* `StakeGovernance.Settings.found_eq_error_cases` – what founding leaves **if it fails**;
* `StakeGovernance.Settings.found_of_genesis_error` – a store that is **lost**;
* `StakeGovernance.Settings.found_of_unwritten` – a store that is **replaced** all the same.
-/

namespace StakeGovernance

/-! ### Stores -/

namespace StateStore

variable {store : StateStore} {d : Disk} {path : String} {c : Contents}

/-- **A store in use** has a snapshot that can be read, or else entries in its journal. -/
def InUse (store : StateStore) : Prop :=
  ∃ snapshot, store.loadSnapshot? = .ok snapshot ∧
    (snapshot.isSome = true ∨ 0 < store.journalLength)

/-- The check whether a store is in use. -/
theorem inUse_iff {snapshot : Option Snapshot} (h : store.loadSnapshot? = .ok snapshot) :
    store.InUse ↔ (snapshot.isSome || decide (0 < store.journalLength)) = true := by
  rw [Bool.or_eq_true, decide_eq_true_iff]
  constructor
  · rintro ⟨other, hother, huse⟩
    cases h.symm.trans hother
    exact huse
  · intro huse
    exact ⟨snapshot, h, huse⟩

/-- **A store with nothing in it**: no snapshot, and no entry in its journal. -/
structure Blank (store : StateStore) : Prop where
  snapshot : store.loadSnapshot? = .ok none
  journal : store.Records []

theorem blank_empty (path : String) : Blank ⟨path, .empty⟩ := ⟨rfl, records_empty path⟩

/-- A store that holds a protocol is in use. -/
theorem Holds.inUse {state : ProtocolState} {vault : Vault} {entries : List JournalEntry}
    (h : store.Holds state vault entries) : store.InUse := ⟨_, h.snapshot, Or.inl rfl⟩

/-- A journal of no length has no entries. -/
theorem records_of_journalLength (h : store.journalLength = 0) : store.Records [] := by
  have hcells : Contents.cells store.database.contents.columns journalColumn = [] :=
    List.length_eq_zero_iff.1 ((Contents.count_eq _ _).symm.trans h)
  have hscan : Contents.scan store.database.contents journalColumn = .ok [] := by
    rw [Contents.scan_eq, hcells]
    exact congrArg Except.ok List.mergeSort_nil
  exact records_of_rows hscan .nil

/-- **A store that can be written is emptied.** -/
theorem exists_clear (hwritable : Database.Writable d path) (c : Contents) : ∃ d₁ : Disk,
    clear ⟨path, c⟩ d = .ok ⟨path, .empty⟩ d₁ ∧ d.SameDirectories d₁ ∧
      d₁.find? (Database.filePath path) = some (.file Contents.empty.toText) := by
  obtain ⟨d₁, hpersist⟩ := hwritable.persist .empty
  obtain ⟨hsame, hfile⟩ := Database.persist_eq_ok hpersist
  have hclear : Database.clear ⟨path, c⟩ d = .ok ⟨path, .empty⟩ d₁ :=
    Database.clear_eq_ok.2 ⟨hpersist, rfl⟩
  exact ⟨d₁, Call.bind_eq_ok.2 ⟨_, d₁, hclear, rfl⟩, hsame, hfile⟩

end StateStore

/-- **A site of a database**: its directories are there, and no write of its file will fail. -/
structure Database.Site (d : Disk) (path : String) : Prop where
  directories : Disk.makeDirectories path d = .ok () d
  writable : Writable d path

namespace Settings

variable {s : Settings} {force : Bool} {path : String} {d d' d₁ : Disk} {store kept : StateStore}
  {p : Protocol Vault} {e : SetupError}

/-- **The store as it is found** on a disk. -/
def stored (s : Settings) (d : Disk) : Except StorageError StateStore := do
  return ⟨⟨s.dataDir, ← Database.load d s.dataDir⟩⟩

theorem stored_eq_ok : s.stored d = .ok store ↔
    ∃ c, Database.load d s.dataDir = .ok c ∧ store = ⟨⟨s.dataDir, c⟩⟩ := by
  unfold stored
  rw [Checked.bind_eq_ok]
  refine exists_congr fun c => and_congr_right fun _ => ?_
  rw [Checked.pure_eq_ok]
  exact eq_comm

/-- **A disk with a store in use.** -/
def Occupied (s : Settings) (d : Disk) : Prop := ∃ store, s.stored d = .ok store ∧ store.InUse

/-- What is found depends on the file of the database only. -/
theorem stored_congr
    (h : d'.find? (Database.filePath s.dataDir) = d.find? (Database.filePath s.dataDir)) :
    s.stored d' = s.stored d := by
  unfold stored
  rw [Database.load_congr h]

theorem stored_of_file {c : Contents} (hc : c.Textual)
    (h : d.find? (Database.filePath s.dataDir) = some (.file c.toText)) :
    s.stored d = .ok ⟨s.dataDir, c⟩ := stored_eq_ok.2 ⟨c, Database.load_of_file h hc, rfl⟩

/-- Whether a disk has a store in use is decided by the store that is found there. -/
theorem occupied_iff (hstored : s.stored d = .ok store) : s.Occupied d ↔ store.InUse := by
  constructor
  · rintro ⟨found, hfound, huse⟩
    cases hstored.symm.trans hfound
    exact huse
  · intro huse
    exact ⟨store, hstored, huse⟩

/-! ### Opening and emptying -/

theorem vacate_eq_ok (h : s.vacate force store d = .ok kept d₁) :
    (¬ store.InUse ∧ store.journalLength = 0 ∧ kept = store ∧ d₁ = d) ∨
      force = true ∧ store.InUse ∧ store.clear d = .ok kept d₁ := by
  obtain ⟨snapshot, hsnapshot, h⟩ := Call.lift_bind_eq_ok.1 h
  have hiff := StateStore.inUse_iff (Checked.mapError_eq_ok.1 hsnapshot)
  split at h
  · rename_i huse
    split at h
    · rename_i hforce
      obtain ⟨_, hclear, rfl⟩ := Call.part_eq_ok.1 h
      exact Or.inr ⟨hforce, hiff.2 huse, hclear⟩
    · exact absurd h Call.throw_ne_ok
  · rename_i hfree
    obtain ⟨rfl, rfl⟩ := Call.pure_eq_ok.1 h
    refine Or.inl ⟨fun huse => hfree (hiff.1 huse), Nat.eq_zero_of_not_pos fun hlength => ?_,
      rfl, rfl⟩
    exact hfree (Bool.or_eq_true_iff.2 (Or.inr (decide_eq_true hlength)))

theorem vacate_eq_error (h : s.vacate force store d = .error e d₁) :
    (¬ (force = true ∧ store.InUse) ∧ d₁ = d) ∨
      force = true ∧ store.InUse ∧ ∃ c, store.clear d = .error c d₁ := by
  rcases Call.lift_bind_eq_error.1 h with ⟨hload, rfl⟩ | ⟨snapshot, hsnapshot, h⟩
  · refine Or.inl ⟨?_, rfl⟩
    rintro ⟨-, snapshot, hsnapshot, -⟩
    rw [hsnapshot] at hload
    cases hload
  have hiff := StateStore.inUse_iff (Checked.mapError_eq_ok.1 hsnapshot)
  split at h
  · rename_i huse
    split at h
    · rename_i hforce
      obtain ⟨c, _, hclear, -, rfl⟩ := Call.part_eq_error.1 h
      exact Or.inr ⟨hforce, hiff.2 huse, c, hclear⟩
    · rename_i hkeep
      obtain ⟨-, rfl⟩ := Call.throw_eq_error.1 h
      exact Or.inl ⟨fun hforce => hkeep hforce.1, rfl⟩
  · exact absurd h Call.pure_ne_error

section Site

variable (hsite : Database.Site d s.dataDir)

include hsite

/-- **Opening a store on its site** is to find it, and changes nothing. -/
theorem openAt_site : onStore (StateStore.openAt s.dataDir) d
    = (liftM ((s.stored d).mapError SetupError.storage) : Call SetupError Disk StateStore) d := by
  have hmake : Database.onDisk (Disk.makeDirectories s.dataDir) d = .ok () d :=
    Call.part_eq_ok.2 ⟨d, hsite.directories, rfl⟩
  unfold stored
  cases hload : Database.load d s.dataDir with
  | ok c =>
    have hopen := openAt_of hsite.directories hload
    exact Call.part_eq_ok.2 ⟨d, hopen, rfl⟩
  | error c =>
    have hopen : Database.openAt s.dataDir d = .error c d :=
      Call.bind_eq_error.2 (Or.inr ⟨(), d, hmake, Call.get_bind_eq_error.2
        (Call.lift_bind_eq_error.2 (Or.inl ⟨hload, rfl⟩))⟩)
    exact Call.part_eq_error.2 ⟨c, d, Call.bind_eq_error.2 (Or.inl hopen), rfl, rfl⟩

theorem openAt_site_eq_ok {found : StateStore} :
    onStore (StateStore.openAt s.dataDir) d = .ok found d₁ ↔ s.stored d = .ok found ∧ d = d₁ := by
  rw [openAt_site hsite, Call.lift_eq_ok, Checked.mapError_eq_ok]

/-! ### Setting up -/

/-- **What setting up leaves if it succeeds**: the file of the database has the protocol at its
beginning, and there was no store in use, or it was to be replaced and nothing is left of it. -/
theorem setUp_eq_ok (h : s.setUp force d = .ok store d₁) : ∃ p, s.genesisProtocol = .ok p ∧
    (s.Occupied d → force = true ∧ store.database.contents.Textual) ∧
      store.database.path = s.dataDir ∧ store.Holds p.state p.vault p.journal ∧
      d₁.find? (Database.filePath s.dataDir) = some (.file store.database.contents.toText) := by
  unfold setUp at h
  obtain ⟨found, d₀, hopen, hrest⟩ := Call.bind_eq_ok.1 h
  obtain ⟨hstored, rfl⟩ := (openAt_site_eq_ok hsite).1 hopen
  obtain ⟨kept, d₂, hvacate, hrest⟩ := Call.bind_eq_ok.1 hrest
  obtain ⟨p, hgenesis, hrest⟩ := Call.lift_bind_eq_ok.1 hrest
  obtain ⟨_, hcommit, rfl⟩ := Call.part_eq_ok.1 hrest
  obtain ⟨c, happly, -, rfl⟩ := StateStore.commit_eq_ok.1 hcommit
  -- either way, no entry is left in the journal before the commit
  obtain ⟨hoccupied, hrecords, hpath⟩ :
      (s.Occupied d → force = true ∧ kept.database.contents.Textual) ∧ kept.Records [] ∧
        kept.database.path = s.dataDir := by
    obtain ⟨c, hload, rfl⟩ := stored_eq_ok.1 hstored
    rcases vacate_eq_ok hvacate with ⟨hfree, hlength, rfl, rfl⟩ | ⟨hforce, -, hclear⟩
    · refine ⟨fun hoccupied => absurd ((occupied_iff hstored).1 hoccupied) hfree, ?_, rfl⟩
      exact StateStore.records_of_journalLength hlength
    · obtain ⟨_, hcleared, -⟩ := StateStore.exists_clear hsite.writable c
      cases hclear.symm.trans hcleared
      exact ⟨fun _ => ⟨hforce, Contents.textual_empty⟩, StateStore.records_empty s.dataDir, rfl⟩
  obtain ⟨hcarried, -⟩ := carried_genesis hgenesis
  obtain ⟨_, _, hrun⟩ := hcarried.run
  have hseqs : Protocol.Consecutive ([] ++ p.journal) := hcarried.seqs
  refine ⟨p, hgenesis, fun h => ?_, hpath,
    StateStore.holds_of_commit (fun _ => hrecords) hseqs hrun.storable hcommit, ?_⟩
  · obtain ⟨hforce, htextual⟩ := hoccupied h
    exact ⟨hforce, htextual.apply happly⟩
  · rw [← hpath]
    exact StateStore.file_of_commit hcommit

/-- **What setting up leaves if it fails.** The store is as it was, unless it was in use and was to
be replaced. Then it was emptied before the protocol at its beginning turned out not to exist. -/
theorem setUp_eq_error (h : s.setUp force d = .error e d₁) :
    (¬ (force = true ∧ s.Occupied d) ∧ s.stored d₁ = s.stored d) ∨
      force = true ∧ s.Occupied d ∧ s.genesisProtocol = .error e ∧
        s.stored d₁ = .ok ⟨s.dataDir, .empty⟩ := by
  unfold setUp at h
  rcases Call.bind_eq_error.1 h with hopen | ⟨found, d₀, hopen, hrest⟩
  · rw [openAt_site hsite] at hopen
    obtain ⟨hload, rfl⟩ := Call.lift_eq_error.1 hopen
    refine Or.inl ⟨?_, rfl⟩
    rintro ⟨-, store, hstored, -⟩
    rw [hstored] at hload
    cases hload
  obtain ⟨hstored, rfl⟩ := (openAt_site_eq_ok hsite).1 hopen
  obtain ⟨c, hload, rfl⟩ := stored_eq_ok.1 hstored
  obtain ⟨cleared, hcleared, hsame, hfile⟩ := StateStore.exists_clear hsite.writable c
  rcases Call.bind_eq_error.1 hrest with hvacate | ⟨kept, d₂, hvacate, hlast⟩
  · rcases vacate_eq_error hvacate with ⟨hkeep, rfl⟩ | ⟨-, -, _, hclear⟩
    · refine Or.inl ⟨?_, rfl⟩
      rw [occupied_iff hstored]
      exact hkeep
    · cases hclear.symm.trans hcleared
  rcases vacate_eq_ok hvacate with ⟨hfree, -, rfl, rfl⟩ | ⟨hforce, huse, hclear⟩
  · -- nothing was emptied, and nothing has been written
    refine Or.inl ⟨fun hboth => hfree ((occupied_iff hstored).1 hboth.2), ?_⟩
    rcases Call.lift_bind_eq_error.1 hlast with ⟨-, rfl⟩ | ⟨p, -, hwrite⟩
    · rfl
    · obtain ⟨_, _, hcommit, -, rfl⟩ := Call.part_eq_error.1 hwrite
      exact stored_congr (StateStore.commit_eq_error hcommit).2
  · -- the store was emptied, and an empty store can be written
    cases hclear.symm.trans hcleared
    refine Or.inr ⟨hforce, (occupied_iff hstored).2 huse, ?_⟩
    rcases Call.lift_bind_eq_error.1 hlast with ⟨hgenesis, rfl⟩ | ⟨p, -, hwrite⟩
    · exact ⟨hgenesis, stored_of_file Contents.textual_empty hfile⟩
    · obtain ⟨_, _, hcommit, -⟩ := Call.part_eq_error.1 hwrite
      obtain ⟨_, _, -, -, hcommitted⟩ := StateStore.exists_commit Contents.textual_empty
        (hsite.writable.congr hsame) (.create p.state p.vault) p.journal
      cases hcommit.symm.trans hcommitted

end Site

/-! ### With the settings -/

/-- **Why settings are not written**, in the order of the steps. -/
inductive Unwritten (s : Settings) (path : String) : SetupError → Prop where
  /-- The directory of their file cannot be made. -/
  | directory : Unwritten s path (.disk (.refused (Disk.parent path)))
  /-- The path of their file has two dots in it. -/
  | dots (h : hasDots path.toList = true) : Unwritten s path .traversal
  /-- One of the numbers among them takes 64 bits. -/
  | number (h : ∃ n ∈ s.counts, Word.size 63 ≤ n.toNat) : Unwritten s path .unprintable
  /-- Their file cannot be written. -/
  | file : Unwritten s path (.unwritable path)

theorem checkPath_eq_error : checkPath path = .error e ↔
    hasDots path.toList = true ∧ e = .traversal := by
  unfold checkPath
  split
  · rename_i hdots
    simp only [hdots, true_and, Except.error.injEq, eq_comm]
  · rename_i hnone
    simp only [hnone, false_and, reduceCtorEq]

/-- A file of settings that is not written leaves the disk as it is. -/
theorem write_eq_error (h : s.write path d = .error e d') : s.Unwritten path e ∧ d' = d := by
  rcases Call.lift_bind_eq_error.1 h with ⟨hpath, rfl⟩ | ⟨_, -, h⟩
  · obtain ⟨hdots, rfl⟩ := checkPath_eq_error.1 hpath
    exact ⟨.dots hdots, rfl⟩
  rcases Call.lift_bind_eq_error.1 h with ⟨htext, rfl⟩ | ⟨text, -, h⟩
  · obtain ⟨rfl, hnumber⟩ := toText_eq_error_iff.1 htext
    exact ⟨.number hnumber, rfl⟩
  · obtain ⟨_, _, hwrite, rfl, rfl⟩ := Call.part_eq_error.1 h
    exact ⟨.file, Disk.changed_eq_error (Call.get_bind_eq_error.1 hwrite)⟩

/-- Settings that are written have a path without two dots, and no number that takes 64 bits. -/
theorem write_eq_ok (h : s.write path d = .ok () d') :
    hasDots path.toList = false ∧ ∀ n ∈ s.counts, n.toNat < Word.size 63 := by
  obtain ⟨_, hpath, h⟩ := Call.lift_bind_eq_ok.1 h
  obtain ⟨text, htext, -⟩ := Call.lift_bind_eq_ok.1 h
  refine ⟨Bool.eq_false_iff.2 fun hdots => ?_, fun n hn => Nat.lt_of_not_le fun hlarge => ?_⟩
  · cases hpath.symm.trans (checkPath_eq_error.2 ⟨hdots, rfl⟩)
  · cases htext.symm.trans (toText_eq_error_iff.2 ⟨rfl, n, hn, hlarge⟩)

/-- **A store that cannot be founded** could not be set up, or else it was set up, and the settings
could not be written beside it. -/
theorem found_eq_error {e : CommandError} (h : s.found path force d = .error e d') :
    (∃ c, s.setUp force d = .error c d' ∧ e = .setup c) ∨
      ∃ store d₁ c, s.setUp force d = .ok store d₁ ∧ d₁.Extends d' ∧
        s.Unwritten path c ∧ e = .setup c := by
  unfold found at h
  rcases Call.bind_eq_error.1 h with hsetup | ⟨store, d₁, hsetup, hrest⟩
  · obtain ⟨c, _, hsetup, rfl, rfl⟩ := Call.part_eq_error.1 hsetup
    exact Or.inl ⟨c, hsetup, rfl⟩
  obtain ⟨_, hsetup, rfl⟩ := Call.part_eq_ok.1 hsetup
  refine Or.inr ⟨store, d₁, ?_⟩
  have hrest := Call.get_bind_eq_error.1 hrest
  split at hrest
  · rcases Call.bind_eq_error.1 hrest with hparents | ⟨_, d₂, hparents, hrest⟩
    · obtain ⟨_, _, hparents, rfl, rfl⟩ := Call.part_eq_error.1 hparents
      obtain ⟨_, _, hparents, rfl, rfl⟩ := Call.part_eq_error.1 hparents
      cases Disk.makeDirectories_eq_error hparents
      have hextends := (Disk.keeps_makeDirectories _).of_error hparents (.refl d₁)
      exact ⟨_, hsetup, hextends, .directory, rfl⟩
    obtain ⟨_, hparents, rfl⟩ := Call.part_eq_ok.1 hparents
    obtain ⟨_, hparents, rfl⟩ := Call.part_eq_ok.1 hparents
    rcases Call.bind_eq_error.1 hrest with hwrite | ⟨_, _, -, hpure⟩
    · obtain ⟨c, _, hwrite, rfl, rfl⟩ := Call.part_eq_error.1 hwrite
      obtain ⟨hcause, rfl⟩ := write_eq_error hwrite
      have hextends := (Disk.keeps_makeDirectories _).of_ok hparents (.refl d₁)
      exact ⟨c, hsetup, hextends, hcause, rfl⟩
    · exact absurd hpure Call.pure_ne_error
  · exact absurd hrest Call.pure_ne_error

/-- **A store that is founded by force** has its settings beside it. -/
theorem found_force_eq_ok {answer : Json} (h : s.found path true d = .ok answer d') :
    ∃ d₁, s.write path d₁ = .ok () d' := by
  obtain ⟨_, d₁, -, hrest⟩ := Call.bind_eq_ok.1 h
  obtain ⟨_, d₂, -, hrest⟩ := Call.bind_eq_ok.1 (Call.get_bind_eq_ok.1 hrest)
  obtain ⟨_, _, hwrite, hanswer⟩ := Call.bind_eq_ok.1 hrest
  obtain ⟨_, hwrite, rfl⟩ := Call.part_eq_ok.1 hwrite
  obtain ⟨-, rfl⟩ := Call.pure_eq_ok.1 hanswer
  exact ⟨d₂, hwrite⟩

section Site

variable (hsite : Database.Site d s.dataDir)

include hsite

/-- **A store is lost** when it is to be replaced by that of a protocol that has no beginning. -/
theorem found_of_genesis_error (hoccupied : s.Occupied d) (hgenesis : s.genesisProtocol = .error e)
    (path : String) : ∃ d', s.found path true d = .error (.setup e) d' ∧
      ∃ store, s.stored d' = .ok store ∧ store.Blank := by
  cases hsetup : s.setUp true d with
  | ok store d₁ =>
    obtain ⟨p, hp, -⟩ := setUp_eq_ok hsite hsetup
    cases hgenesis.symm.trans hp
  | error c d₁ =>
    rcases setUp_eq_error hsite hsetup with ⟨hkeep, -⟩ | ⟨-, -, hc, hempty⟩
    · exact absurd ⟨rfl, hoccupied⟩ hkeep
    · cases hgenesis.symm.trans hc
      refine ⟨d₁, ?_, _, hempty, StateStore.blank_empty s.dataDir⟩
      exact Call.bind_eq_error.2 (Or.inl (Call.part_eq_error.2 ⟨_, _, hsetup, rfl, rfl⟩))

/-- **A store that was set up stays**, whatever becomes of the settings. -/
theorem stored_of_setUp (hsetup : s.setUp force d = .ok store d₁) (hextends : d₁.Extends d') :
    ∃ p, s.genesisProtocol = .ok p ∧ (s.Occupied d → force = true ∧ s.stored d' = .ok store) ∧
      store.Holds p.state p.vault p.journal ∧
      d'.find? (Database.filePath s.dataDir) = some (.file store.database.contents.toText) := by
  obtain ⟨p, hgenesis, hoccupied, hpath, hholds, hfile⟩ := setUp_eq_ok hsite hsetup
  have hfile := hextends.find? hfile
  refine ⟨p, hgenesis, fun h => ?_, hholds, hfile⟩
  obtain ⟨hforce, htextual⟩ := hoccupied h
  obtain ⟨⟨directory, contents⟩⟩ := store
  cases hpath
  exact ⟨hforce, stored_of_file htextual hfile⟩

/-- **A store is replaced although this fails** if the settings cannot be written, whatever the
disk is like: if their path has two dots in it, or one of the numbers among them takes 64 bits. -/
theorem found_of_unwritten (hoccupied : s.Occupied d) (hgenesis : s.genesisProtocol = .ok p)
    (hrefused : hasDots path.toList = true ∨ ∃ n ∈ s.counts, Word.size 63 ≤ n.toNat) :
    ∃ e d' store, s.found path true d = .error (.setup e) d' ∧ s.Unwritten path e ∧
      s.stored d' = .ok store ∧ store.Holds p.state p.vault p.journal := by
  cases hfound : s.found path true d with
  | ok answer d' =>
    obtain ⟨_, hwrite⟩ := found_force_eq_ok hfound
    obtain ⟨hdots, hnumbers⟩ := write_eq_ok hwrite
    rcases hrefused with hrefused | ⟨n, hn, hlarge⟩
    · exact absurd hrefused (Bool.eq_false_iff.1 hdots)
    · exact absurd hlarge (Nat.not_le.2 (hnumbers n hn))
  | error e d' =>
    rcases found_eq_error hfound with ⟨c, hsetup, rfl⟩ |
      ⟨store, d₁, c, hsetup, hextends, hcause, rfl⟩
    · rcases setUp_eq_error hsite hsetup with ⟨hkeep, -⟩ | ⟨-, -, hnone, -⟩
      · exact absurd ⟨rfl, hoccupied⟩ hkeep
      · cases hgenesis.symm.trans hnone
    · obtain ⟨q, hq, hreplaced, hholds, -⟩ := stored_of_setUp hsite hsetup hextends
      cases hgenesis.symm.trans hq
      exact ⟨c, d', store, rfl, hcause, (hreplaced hoccupied).2, hholds⟩

/-! ### The main result -/

/-- **What a failed set-up leaves.** Let a store be on a site on which no write of its file fails,
whatever it holds, and let it be founded anew, with or without force. If this fails, then one of
three things has happened. The store was not in use, or was not to be replaced, and is as it was.
Or it was in use and was to be replaced, but the protocol that was to replace it has no beginning:
then there is nothing in the store any more. Or else the store has got the protocol at its
beginning already, in place of what it held before, and it is the settings that could not be
written, for one of four reasons; if the store was in use, this protocol is what is found there
now. -/
theorem found_eq_error_cases {e : CommandError} (h : s.found path force d = .error e d') :
    (¬ (force = true ∧ s.Occupied d) ∧ s.stored d' = s.stored d) ∨
      ((force = true ∧ s.Occupied d) ∧ (∃ c, s.genesisProtocol = .error c ∧ e = .setup c) ∧
        ∃ store, s.stored d' = .ok store ∧ store.Blank) ∨
      ∃ (p : Protocol Vault) (store : StateStore), s.genesisProtocol = .ok p ∧
        (s.Occupied d → force = true ∧ s.stored d' = .ok store) ∧
        (∃ c, s.Unwritten path c ∧ e = .setup c) ∧
        store.Holds p.state p.vault p.journal ∧
        d'.find? (Database.filePath s.dataDir) = some (.file store.database.contents.toText) := by
  rcases found_eq_error h with ⟨c, hsetup, rfl⟩ | ⟨store, d₁, c, hsetup, hextends, hcause⟩
  · refine (setUp_eq_error hsite hsetup).imp_right fun hlost => Or.inl ?_
    obtain ⟨hforce, hoccupied, hgenesis, hempty⟩ := hlost
    exact ⟨⟨hforce, hoccupied⟩, ⟨c, hgenesis, rfl⟩, _, hempty, StateStore.blank_empty s.dataDir⟩
  · obtain ⟨p, hgenesis, hreplaced, hholds, hfile⟩ := stored_of_setUp hsite hsetup hextends
    exact Or.inr (Or.inr ⟨p, store, hgenesis, hreplaced, ⟨c, hcause⟩, hholds, hfile⟩)

end Site

end Settings

/-! ### A store that is founded again -/

namespace Sample

/-- Settings that give one account more than there can be. -/
def overdrawn : Settings :=
  { settings with genesis := [⟨alice, Word.max⟩, ⟨alice, Word.ofNat 1⟩] }

/-- Settings with a number that no file of settings can hold. -/
def unending : Settings := { settings with protocol.timelock.gracePeriod := Word.max }

/-- The store of the small protocol, just set up. -/
theorem exists_founded : ∃ p store d, settings.genesisProtocol = .ok p ∧
    Database.Site d "data" ∧ settings.stored d = .ok store ∧
      store.Holds p.state p.vault p.journal := by
  obtain ⟨p, hgenesis, -⟩ := genesis_eq_ok
  obtain ⟨_, d, -, -, -, c, hkept⟩ := Settings.setUp_abreast room_empty hgenesis
  have hsite : Database.Site d "data" :=
    ⟨Disk.makeDirectories_again room_empty.directories hkept.directories,
      room_empty.writable.congr hkept.directories⟩
  exact ⟨p, _, d, hgenesis, hsite, Settings.stored_of_file hkept.textual hkept.file, hkept.stored⟩

end Sample

namespace Settings

/-- Founded again with force, and with a path for its settings that is refused, the store of the
small protocol is back at the beginning although this has failed. -/
theorem found_eq_error_cases_sample : ∃ (p : Protocol Vault) (store : StateStore) (d d' : Disk)
    (e : CommandError), Sample.settings.Occupied d ∧
    Sample.settings.found "a..toml" true d = .error e d' ∧
    Sample.settings.genesisProtocol = .ok p ∧ Sample.settings.stored d' = .ok store ∧
    store.Holds p.state p.vault p.journal := by
  obtain ⟨p, store, d, hgenesis, hsite, hstored, hholds⟩ := Sample.exists_founded
  have hoccupied : Sample.settings.Occupied d := ⟨store, hstored, hholds.inUse⟩
  cases hfound : Sample.settings.found "a..toml" true d with
  | ok answer d' =>
    -- the settings would have been written, but the path has two dots
    obtain ⟨_, hwrite⟩ := found_force_eq_ok hfound
    exact absurd (write_eq_ok hwrite).1 (by decide +kernel)
  | error e d' =>
    rcases found_eq_error_cases hsite hfound with ⟨hkeep, -⟩ | ⟨-, ⟨_, hnone, -⟩, -⟩ |
      ⟨q, later, hq, hreplaced, -, hlater, -⟩
    · exact absurd ⟨rfl, hoccupied⟩ hkeep
    · cases hgenesis.symm.trans hnone
    · exact ⟨q, later, d, d', e, hoccupied, hfound, hq, (hreplaced hoccupied).2, hlater⟩

/-- **A failed set-up can lose a store**, though no write fails and the settings are valid: the
store of the small protocol is to be replaced by one in which an account has more than there can
be. There is an error, and the snapshot is gone. -/
theorem found_forgets_store : ∃ p d e d' before after, Sample.overdrawn.validate = .ok () ∧
    Database.Site d Sample.overdrawn.dataDir ∧
    Sample.overdrawn.found "lockgov.toml" true d = .error e d' ∧
    Sample.overdrawn.stored d = .ok before ∧ before.loadSnapshot? = .ok (some p) ∧
    Sample.overdrawn.stored d' = .ok after ∧ after.loadSnapshot? = .ok none := by
  obtain ⟨p, store, d, -, hsite, hstored, hholds⟩ := Sample.exists_founded
  have hvalid : Sample.overdrawn.validate = .ok () := by decide +kernel
  obtain ⟨e, hgenesis⟩ : ∃ e, Sample.overdrawn.genesisProtocol = .error e := by
    cases hgenesis : Sample.overdrawn.genesisProtocol with
    | error e => exact ⟨e, rfl⟩
    | ok p =>
      have hfails : Sample.overdrawn.genesisProtocol.toOption.isSome = false := by decide +kernel
      rw [hgenesis] at hfails
      cases hfails
  have hoccupied : Sample.overdrawn.Occupied d := ⟨store, hstored, hholds.inUse⟩
  obtain ⟨d', hfound, after, hafter, hblank⟩ :=
    found_of_genesis_error hsite hoccupied hgenesis "lockgov.toml"
  exact ⟨_, d, _, d', store, after, hvalid, hsite, hfound, hstored, hholds.snapshot, hafter,
    hblank.snapshot⟩

/-- **A failed set-up can replace a store** as well: the grace period of the new protocol takes 64
bits, which the checks allow. There is an error, since it has no place in a file, but it is the new
protocol that is found in the store. -/
theorem found_replaces_store : ∃ p q d e d' before after, Sample.unending.validate = .ok () ∧
    Database.Site d Sample.unending.dataDir ∧
    Sample.unending.found "lockgov.toml" true d = .error (.setup e) d' ∧
    Sample.unending.Unwritten "lockgov.toml" e ∧
    Sample.unending.stored d = .ok before ∧ before.loadSnapshot? = .ok (some p) ∧
    Sample.unending.stored d' = .ok after ∧ after.loadSnapshot? = .ok (some q) ∧ p ≠ q := by
  obtain ⟨p, store, d, hgenesis, hsite, hstored, hholds⟩ := Sample.exists_founded
  have hvalid : Sample.unending.validate = .ok () := by decide +kernel
  have hparams : (Sample.settings.genesisProtocol.toOption.map (·.state.timelock.params),
      Sample.unending.genesisProtocol.toOption.map (·.state.timelock.params))
        = (some Sample.config.timelock, some Sample.unending.protocol.timelock) := by
    decide +kernel
  obtain ⟨hold, hnew⟩ := Prod.mk.inj hparams
  cases hfresh : Sample.unending.genesisProtocol with
  | error e =>
    rw [hfresh] at hnew
    cases hnew
  | ok q =>
    rw [hgenesis] at hold
    rw [hfresh] at hnew
    have hoccupied : Sample.unending.Occupied d := ⟨store, hstored, hholds.inUse⟩
    obtain ⟨e, d', after, hfound, hcause, hafter, hlater⟩ := found_of_unwritten hsite hoccupied
      hfresh (Or.inr ⟨Word.max, by decide +kernel⟩)
    refine ⟨_, _, d, e, d', store, after, hvalid, hsite, hfound, hcause, hstored, hholds.snapshot,
      hafter, hlater.snapshot, fun hsame => ?_⟩
    -- the two protocols differ in a delay of their timelocks
    have htimelocks : Sample.config.timelock = Sample.unending.protocol.timelock := calc
      Sample.config.timelock
      _ = p.state.timelock.params := (Option.some.inj hold).symm
      _ = q.state.timelock.params := congrArg (·.state.timelock.params) hsame
      _ = Sample.unending.protocol.timelock := Option.some.inj hnew
    exact absurd htimelocks (by decide +kernel)

end Settings

end StakeGovernance
