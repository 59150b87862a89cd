import Mathlib.Data.Set.List
import StakeGovernance.Proofs.Founding

/-!
# A database is a durable map

To those who use it a database is a map: there are bytes under some keys of some columns. What it
really has is a table of texts, a copy of it in a file, and a disk that may refuse a write at any
time. It is followed here from the moment when it is opened in an empty directory, through changes
that succeed and changes that do not, while anything else happens on the disk, and from one process
to the next. It has all the while what the changes that succeeded say, one after the other, and
the file says the same.

* `StakeGovernance.Holdings`, `StakeGovernance.Write` – the **map**, and what **changes** it;
* `StakeGovernance.Contents.Keeps` – contents that **hold a map**;
* `StakeGovernance.Contents.Keeps.next`, `StakeGovernance.Contents.Keeps.scan` – what changes
  **make of them**, and what is **found** there;
* `StakeGovernance.Disk.Course` – what can happen to **something that is kept in a file**;
* `StakeGovernance.Database.Course.answers_as_a_map` – a database **answers as the map** does, and
  is opened again as it was.
-/

namespace StakeGovernance

/-! ### Maps -/

/-- **What a database is to those who use it**: the bytes under a key of a column, if there are
any. -/
abbrev Holdings := String → Bytes → Option Bytes

/-- A map without any bytes. -/
def Holdings.nothing : Holdings := fun _ _ => none

/-- The map after a change of one key. -/
def Holdings.change (m : Holdings) (c : Change) : Holdings := fun name key =>
  if name = c.column ∧ key = c.key then c.value else m name key

/-- **A call that changes a database.** -/
inductive Write where
  | put (column : String) (key value : Bytes)
  | delete (column : String) (key : Bytes)
  | batch (changes : List Change)
  | clear

namespace Write

/-- The changes of a call, if it does not drop everything. -/
def changes? : Write → Option (List Change)
  | put column key value => some [⟨column, key, some value⟩]
  | delete column key => some [⟨column, key, none⟩]
  | batch changes => some changes
  | clear => none

/-- **The map after a call**: its changes are made in order. -/
def result (w : Write) (m : Holdings) : Holdings :=
  match w.changes? with
  | some changes => changes.foldl .change m
  | none => .nothing

/-- **The call** on an open database. -/
def run (db : Database) : Write → Call StorageError Disk Database
  | put column key value => db.put column key value
  | delete column key => db.delete column key
  | batch changes => db.writeBatch changes
  | clear => db.clear

/-- The contents after a call, if they are written. -/
def next (w : Write) (c : Contents) : Except StorageError Contents :=
  match w.changes? with
  | some changes => c.apply changes
  | none => .ok .empty

variable {w : Write} {db db' : Database} {d d' : Disk}

/-- **A call succeeds** if the contents after it can be written. -/
theorem run_eq_ok : Write.run db w d = .ok db' d' ↔ ∃ c, w.next db.contents = .ok c ∧
    Database.persist db.path c d = .ok () d' ∧ db' = ⟨db.path, c⟩ := by
  cases w with
  | put column key value => exact Database.writeBatch_eq_ok
  | delete column key => exact Database.writeBatch_eq_ok
  | batch changes => exact Database.writeBatch_eq_ok
  | clear =>
    refine Database.clear_eq_ok.trans ⟨fun h => ⟨_, rfl, h⟩, ?_⟩
    rintro ⟨_, hempty, h⟩
    cases hempty
    exact h

theorem run_eq_error {e : StorageError} : Write.run db w d = .error e d' ↔
    w.next db.contents = .error e ∧ d = d' ∨
      ∃ c, w.next db.contents = .ok c ∧ Database.persist db.path c d = .error e d' := by
  cases w with
  | put column key value => exact Database.writeBatch_eq_error
  | delete column key => exact Database.writeBatch_eq_error
  | batch changes => exact Database.writeBatch_eq_error
  | clear =>
    refine Database.clear_eq_error.trans ⟨fun h => .inr ⟨_, rfl, h⟩, ?_⟩
    rintro (⟨hempty, -⟩ | ⟨_, hempty, h⟩)
    · cases hempty
    · cases hempty
      exact h

end Write

/-- **What a row of calls makes of nothing.** -/
def Holdings.after (writes : List Write) : Holdings :=
  writes.foldl (fun m w => w.result m) .nothing

theorem Holdings.after_append (writes : List Write) (w : Write) :
    after (writes ++ [w]) = w.result (after writes) := by
  unfold after
  rw [List.foldl_append]
  rfl

/-! ### Contents -/

namespace Contents

variable {columns after : OrderedMap String Column} {c : Contents} {m : Holdings} {name : String}

theorem rowEntry_injective {row row' : Bytes × Bytes} (h : rowEntry row = rowEntry row') :
    row = row' := by
  obtain ⟨hkey, hvalue⟩ := Prod.mk.inj h
  exact Prod.ext (Hex.encode_injective hkey) (Hex.encode_injective (Json.string.inj hvalue))

theorem cells_insert (columns : OrderedMap String Column) (name : String)
    (entries : OrderedMap String Json) :
    cells (columns.insert name (.table entries)) name = entries.entries := by
  unfold cells
  rw [OrderedMap.get?_insert_eq, if_pos rfl]
  rfl

/-- **An entry after a change** is the one that the change sets, or was there before. -/
theorem mem_cells_applyOne {change : Change} {entry : String × Json}
    (h : applyOne columns change = .ok after) (hentry : entry ∈ cells after name) :
    entry ∈ cells columns name ∨ ∃ value, rowEntry (change.key, value) = entry := by
  by_cases hname : name = change.column
  · obtain ⟨entries, hentries, rfl⟩ := applyOne_eq_ok h
    obtain ⟨-, hcells⟩ := cell?_of_getD hentries change.key
    subst hname
    rw [hcells]
    cases hvalue : change.value with
    | some value =>
      rw [hvalue, cells_insert] at hentry
      rcases OrderedMap.mem_insertEntry hentry with rfl | hentry
      · exact .inr ⟨value, rfl⟩
      · exact .inl hentry
    | none =>
      rw [hvalue, cells_insert] at hentry
      exact .inl (List.mem_filter.1 hentry).1
  · exact .inl (cells_applyOne_of_ne h hname ▸ hentry)

/-- The keys of a column are distinct. -/
theorem nodup_cells (columns : OrderedMap String Column) (name : String) :
    ((cells columns name).map Prod.fst).Nodup := by
  unfold cells
  cases columns.get? name with
  | none => exact List.nodup_nil
  | some column =>
    cases column with
    | table entries => exact OrderedMap.nodup_keys entries
    | other value => exact List.nodup_nil

/-- **Contents that hold a map**: every entry of a column is the text of a key with the text of
its value, and they are the keys and the values of the map. -/
structure Keeps (c : Contents) (m : Holdings) : Prop where
  textual : c.Textual
  rows : ∀ name, ∀ entry ∈ cells c.columns name, ∃ row, rowEntry row = entry
  cell : ∀ name key, cell? c.columns name key
    = (m name key).map fun value => .string (Hex.encode value)

theorem keeps_empty : empty.Keeps .nothing :=
  ⟨textual_empty, fun _ _ h => absurd h List.not_mem_nil, fun _ _ => rfl⟩

/-- **A change of one key** is the same change of the map. -/
theorem Keeps.applyOne (h : Keeps (.table columns) m) (change : Change) :
    ∃ after, applyOne columns change = .ok after ∧ Keeps (.table after) (m.change change) := by
  obtain ⟨after, hafter, htextual⟩ := exists_applyOne h.textual change
  refine ⟨after, hafter, htextual, fun name entry hentry => ?_, fun name key => ?_⟩
  · rcases mem_cells_applyOne hafter hentry with hold | ⟨value, hset⟩
    · exact h.rows name entry hold
    · exact ⟨_, hset⟩
  · refine (cell?_applyOne hafter name key).trans ?_
    unfold Holdings.change
    split
    · rfl
    · exact h.cell name key

/-- **A batch of changes** is the same changes of the map, in the same order. -/
theorem Keeps.apply (h : c.Keeps m) (changes : List Change) :
    ∃ d, c.apply changes = .ok d ∧ d.Keeps (changes.foldl .change m) := by
  have htable : Keeps (.table c.columns) m := by
    cases c with
    | table columns => exact h
    | other value => exact h.textual.elim
  suffices hall : ∃ after, changes.foldlM Contents.applyOne c.columns = .ok after ∧
      Keeps (.table after) (changes.foldl .change m) by
    obtain ⟨after, hafter, hkeeps⟩ := hall
    exact ⟨.table after, apply_eq_ok.2 ⟨after, hafter, rfl⟩, hkeeps⟩
  generalize c.columns = columns at htable ⊢
  clear h
  induction changes generalizing columns m with
  | nil => exact ⟨columns, rfl, htable⟩
  | cons change rest ih =>
    obtain ⟨first, hfirst, hkeeps⟩ := htable.applyOne change
    obtain ⟨after, hafter, hrest⟩ := ih first hkeeps
    exact ⟨after, Checked.bind_eq_ok.2 ⟨first, hfirst, hafter⟩, hrest⟩

/-- **The contents after a call** can be worked out, and hold the map after it. -/
theorem Keeps.next (h : c.Keeps m) (w : Write) :
    ∃ d, w.next c = .ok d ∧ d.Keeps (w.result m) := by
  unfold Write.next Write.result
  cases w.changes? with
  | some changes => exact h.apply changes
  | none => exact ⟨_, rfl, keeps_empty⟩

/-- **What is got** is what the map has there. -/
theorem Keeps.get? (h : c.Keeps m) (name : String) (key : Bytes) :
    c.get? name key = .ok (m name key) := by
  rw [get?_eq, h.cell]
  cases m name key with
  | none => rfl
  | some value =>
    show (bytesOf (Hex.encode value)).map some = _
    rw [bytesOf_encode]
    rfl

/-- **The rows of a column** are the keys and the values of the map. -/
theorem Keeps.exists_rows (h : c.Keeps m) (name : String) : ∃ rows : List (Bytes × Bytes),
    rows.map rowEntry = cells c.columns name ∧ (rows.map Prod.fst).Nodup ∧
      ∀ key value, (key, value) ∈ rows ↔ m name key = some value := by
  obtain ⟨rows, hrows⟩ : cells c.columns name ∈ Set.range (List.map rowEntry) := by
    rw [Set.range_list_map]
    exact h.rows name
  refine ⟨rows, hrows, ?_, fun key value => ?_⟩
  · have hkeys := nodup_cells c.columns name
    rw [← hrows, List.map_map] at hkeys
    refine .of_map Hex.encode ?_
    rwa [List.map_map]
  · rw [← List.mem_map_of_injective fun _ _ => rowEntry_injective, hrows]
    refine mem_cells_iff.trans ?_
    rw [h.cell]
    cases m name key with
    | none => simp
    | some other =>
      rw [Option.map_some, Option.some.injEq, Json.string.injEq, Option.some.injEq]
      exact ⟨Hex.encode_injective, congrArg _⟩

/-- **A scan finds each key of the map once**, in ascending order, with its value. -/
theorem Keeps.scan (h : c.Keeps m) (name : String) : ∃ rows, c.scan name = .ok rows ∧
    Ascending rows ∧ (∀ key value, (key, value) ∈ rows ↔ m name key = some value) ∧
      c.count name = rows.length := by
  obtain ⟨rows, hrows, hdistinct, hmem⟩ := h.exists_rows name
  have hread : (cells c.columns name).mapM (entryOf name) = .ok rows := by
    rw [← hrows]
    exact Checked.mapM_eq_ok.2 (List.forall₂_map_left_iff.2
      (List.forall₂_same.2 fun row _ => entryOf_rowEntry name row))
  have hperm := List.mergeSort_perm rows fun a b => (compare a.1 b.1).isLE
  refine ⟨_, ?_, ascending_mergeSort hdistinct, fun key value => ?_, ?_⟩
  · rw [scan_eq, hread]
    rfl
  · exact hperm.mem_iff.trans (hmem key value)
  · rw [count_eq, ← hrows, List.length_map, hperm.length_eq]

end Contents

/-! ### Courses -/

/-- **What can happen to something that is kept in a file**: it is opened where there is no file
yet; a call on it succeeds or fails; it is opened again; and meanwhile anything happens on the disk
that leaves the file as it is, also what is left of a write that was given up. The row has the
calls that succeeded. Directories that are made when it is opened again do not bring up a file that
was not there. -/
inductive Disk.Course {σ ω : Type} (file : String) (opening : Call StorageError Disk σ)
    (run : σ → ω → Call StorageError Disk σ) : List ω → σ → Disk → Prop
  | opened {d₀ d : Disk} {s : σ} : opening d₀ = .ok s d → d.find? file = none →
      Course file opening run [] s d
  | meanwhile {calls : List ω} {s : σ} {d d' : Disk} : Course file opening run calls s d →
      d'.find? file = d.find? file → Course file opening run calls s d'
  | succeeded {calls : List ω} {s s' : σ} {d d' : Disk} {w : ω} :
      Course file opening run calls s d → run s w d = .ok s' d' →
      Course file opening run (calls ++ [w]) s' d'
  | failed {calls : List ω} {s : σ} {d d' : Disk} {w : ω} {e : StorageError} :
      Course file opening run calls s d → run s w d = .error e d' →
      Course file opening run calls s d'
  | reopened {calls : List ω} {s s' : σ} {d d' : Disk} : Course file opening run calls s d →
      opening d = .ok s' d' → (d.find? file = none → d'.find? file = none) →
      Course file opening run calls s' d'

namespace Database

variable {path : String} {writes : List Write} {db db' : Database} {d d' : Disk} {w : Write}

/-- **What can happen to a database.** -/
abbrev Course (path : String) : List Write → Database → Disk → Prop :=
  Disk.Course (filePath path) (openAt path) Write.run

/-- **A database that holds a map**, in memory as in its file. -/
structure Stands (path : String) (m : Holdings) (db : Database) (d : Disk) : Prop where
  place : db.path = path
  keeps : db.contents.Keeps m
  file : load d path = .ok db.contents

/-- **A file stays what it was** when the database is opened, if there was one. -/
theorem find?_of_openAt (h : openAt path d = .ok db d')
    (hnone : d.find? (filePath path) = none → d'.find? (filePath path) = none) :
    d'.find? (filePath path) = d.find? (filePath path) := by
  obtain ⟨hmake, -⟩ := openAt_eq_ok.1 h
  have hextends : d.Extends d' := (Disk.keeps_makeDirectories path).of_ok hmake (.refl d)
  cases hfile : d.find? (filePath path) with
  | none => exact hnone hfile
  | some entry => exact hextends.find? hfile

namespace Stands

variable {m : Holdings} (h : Stands path m db d)

include h

theorem congr (hfile : d'.find? (filePath path) = d.find? (filePath path)) :
    Stands path m db d' := ⟨h.place, h.keeps, (load_congr hfile).trans h.file⟩

/-- **A call that succeeds** changes the map, in memory and in the file. -/
theorem of_ok (hrun : Write.run db w d = .ok db' d') : Stands path (w.result m) db' d' := by
  obtain ⟨c, hnext, hpersist, rfl⟩ := Write.run_eq_ok.1 hrun
  obtain ⟨c', hnext', hkeeps⟩ := h.keeps.next w
  cases hnext.symm.trans hnext'
  rw [h.place] at hpersist ⊢
  exact ⟨rfl, hkeeps, load_of_file (persist_eq_ok hpersist).2 hkeeps.textual⟩

/-- **A call that fails** does so because of the disk, and leaves the file as it was. -/
theorem of_error {e : StorageError} (hrun : Write.run db w d = .error e d') :
    (∃ place, e = .disk place) ∧ d'.find? (filePath path) = d.find? (filePath path) := by
  rcases Write.run_eq_error.1 hrun with ⟨hnext, -⟩ | ⟨c, -, hpersist⟩
  · obtain ⟨_, hnext', -⟩ := h.keeps.next w
    cases hnext.symm.trans hnext'
  · rw [h.place] at hpersist
    exact ⟨error_of_persist hpersist, (persist_eq_error hpersist).2⟩

/-- **A database that is opened again** is what it was. -/
theorem of_openAt (hopen : openAt path d = .ok db' d')
    (hnone : d.find? (filePath path) = none → d'.find? (filePath path) = none) :
    db' = db ∧ Stands path m db d' := by
  have hfile := find?_of_openAt hopen hnone
  obtain ⟨-, c, hload, rfl⟩ := openAt_eq_ok.1 hopen
  rw [load_congr hfile, h.file] at hload
  cases hload
  refine ⟨?_, h.congr hfile⟩
  cases db
  cases h.place
  rfl

/-- Where no write fails, **every call succeeds**. -/
theorem exists_run (hsite : Site d path) (w : Write) :
    ∃ db' d', Write.run db w d = .ok db' d' ∧ Site d' path := by
  obtain ⟨c, hnext, -⟩ := h.keeps.next w
  obtain ⟨d', hpersist⟩ := hsite.writable.persist c
  have hsame := (persist_eq_ok hpersist).1
  rw [← h.place] at hpersist
  exact ⟨_, d', Write.run_eq_ok.2 ⟨c, hnext, hpersist, rfl⟩,
    Disk.makeDirectories_again hsite.directories hsame, hsite.writable.congr hsame⟩

/-- Where its directories are, a database **can be opened again**. -/
theorem openAt (hsite : Site d path) : Database.openAt path d = .ok db d := by
  refine openAt_eq_ok.2 ⟨hsite.directories, _, h.file, ?_⟩
  cases db
  cases h.place
  rfl

end Stands

/-- **In the course of things** a database holds what the calls that succeeded have written. -/
theorem Course.stands (h : Course path writes db d) : Stands path (.after writes) db d := by
  induction h with
  | opened hopen hnone =>
    obtain ⟨-, c, hload, rfl⟩ := openAt_eq_ok.1 hopen
    have hempty := hload
    rw [load_of_none hnone] at hempty
    cases hempty
    exact ⟨rfl, Contents.keeps_empty, hload⟩
  | meanwhile _ hfile ih => exact ih.congr hfile
  | succeeded _ hrun ih =>
    rw [Holdings.after_append]
    exact ih.of_ok hrun
  | failed _ hrun ih => exact ih.congr (ih.of_error hrun).2
  | reopened _ hopen hnone ih =>
    obtain ⟨rfl, hstands⟩ := ih.of_openAt hopen hnone
    exact hstands

/-- **A database is a durable map.** Let a database be opened in an empty directory, and let calls
change it, some of which fail; let it be opened again at any time, and let anything happen on the
disk meanwhile that leaves its file as it is. Then what is got under a key is what the calls that
succeeded, one after the other, have left there. A scan of a column finds each of its keys once,
in ascending order, with its value, and there are as many as are counted. No call fails but for the
disk, and then the file is as it was; on a site where no write fails, every call succeeds, and the
database can be opened. Whenever it is opened again, it is the database that it was. -/
theorem Course.answers_as_a_map (h : Course path writes db d) :
    (∀ name key, db.get? name key = .ok (Holdings.after writes name key)) ∧
    (∀ name, ∃ rows, db.scan name = .ok rows ∧ Ascending rows ∧
      (∀ key value, (key, value) ∈ rows ↔ Holdings.after writes name key = some value) ∧
      db.count name = rows.length) ∧
    (∀ w e d', Write.run db w d = .error e d' → (∃ place, e = .disk place) ∧
      d'.find? (filePath path) = d.find? (filePath path)) ∧
    (Site d path → openAt path d = .ok db d ∧
      ∀ w, ∃ db' d', Write.run db w d = .ok db' d' ∧ Site d' path) ∧
    (∀ db' d', openAt path d = .ok db' d' →
      (d.find? (filePath path) = none → d'.find? (filePath path) = none) → db' = db) := by
  have hstands := h.stands
  refine ⟨hstands.keeps.get?, hstands.keeps.scan, fun w e d' hrun => hstands.of_error hrun,
    fun hsite => ⟨hstands.openAt hsite, hstands.exists_run hsite⟩, fun db' d' hopen hnone => ?_⟩
  exact (hstands.of_openAt hopen hnone).1

/-! ### A small database -/

/-- A directory on a small disk is a site. -/
theorem site_sample : Site Sample.disk "data" :=
  ⟨Disk.makeDirectories_again Sample.room_empty.directories fun _ => rfl, Sample.writable_disk⟩

/-- A database is opened. Its directory is gone when a key is set, and so nothing is written. The
directory is back, another key is set, and the database is opened again. -/
theorem Course.exists_sample : ∃ db d,
    Course "data" [.put "a" [1] [2]] db d ∧ Site d "data" := by
  have hgone : Disk.find? .empty (filePath "data") = Sample.disk.find? (filePath "data") := by
    decide +kernel
  have hopened : Course "data" [] ⟨"data", .empty⟩ Sample.disk :=
    .opened (openAt_of Sample.room_empty.directories (load_of_none Sample.room_empty.vacant))
      Sample.room_empty.vacant
  have habsent : Course "data" [] ⟨"data", .empty⟩ .empty := .meanwhile hopened hgone
  cases hput : Write.run ⟨"data", .empty⟩ (.put "a" [9] [9]) .empty with
  | ok db d =>
    obtain ⟨c, -, hpersist, -⟩ := Write.run_eq_ok.1 hput
    exact absurd hpersist (Sample.persist_empty c)
  | error e d =>
    have hfile := (habsent.stands.of_error hput).2.trans hgone
    have hback : Course "data" [] ⟨"data", .empty⟩ Sample.disk :=
      .meanwhile (.failed habsent hput) hfile.symm
    obtain ⟨db, d', hrun, hsite'⟩ := hback.stands.exists_run site_sample (.put "a" [1] [2])
    have hset : Course "data" [.put "a" [1] [2]] db d' := .succeeded hback hrun
    exact ⟨db, d', hset.reopened (hset.stands.openAt hsite') id, hsite'⟩

/-- In the end the key that was set is there, the other one is not, and the database can be
opened. -/
theorem Course.answers_as_a_map_sample : ∃ db d, Course "data" [.put "a" [1] [2]] db d ∧
    db.get? "a" [1] = .ok (some [2]) ∧ db.get? "a" [9] = .ok none ∧ openAt "data" d = .ok db d := by
  obtain ⟨db, d, hcourse, hsite⟩ := Course.exists_sample
  obtain ⟨hget, -, -, hsites, -⟩ := answers_as_a_map hcourse
  exact ⟨db, d, hcourse, (hget "a" [1]).trans (by decide), (hget "a" [9]).trans (by decide),
    (hsites hsite).1⟩

end Database

end StakeGovernance
