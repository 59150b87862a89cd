import Mathlib.Data.List.Forall2
import StakeGovernance.Proofs.Calls
import StakeGovernance.Proofs.Codecs
import StakeGovernance.Proofs.Maps
import StakeGovernance.Store.Contents

/-!
# The columns of a database

What is found in a database after a batch of changes: each change of a key is seen under that
key and nowhere else, and rows under new keys that come after all others are found after the
rows that were there, in whatever order their texts stand in the table.

A database that only this program has written holds nothing but texts. Every change of it can be
made, and its stored text is read as the same database.

* `StakeGovernance.Contents.cell?_applyOne` – a **change of one key**;
* `StakeGovernance.Contents.foldlM_rows`, `StakeGovernance.Contents.scan_of_perm` – **new rows**
  of a column;
* `StakeGovernance.Contents.Textual` – a **database of texts**;
* `StakeGovernance.Contents.Textual.ofText_toText` – its stored text is **read as it was
  written**.
-/

namespace StakeGovernance

namespace Checked

variable {ε α β : Type}

/-- **A loop that succeeds** has got a result for each item. -/
theorem mapM_eq_ok {f : α → Except ε β} {items : List α} {results : List β} :
    items.mapM f = .ok results ↔ List.Forall₂ (fun a b => f a = .ok b) items results := by
  induction items generalizing results with
  | nil =>
    rw [List.mapM_nil, pure_eq_ok, List.forall₂_nil_left_iff]
    exact eq_comm
  | cons a rest ih =>
    rw [List.mapM_cons, bind_eq_ok, List.forall₂_cons_left_iff]
    constructor
    · rintro ⟨b, hb, h⟩
      obtain ⟨bs, hbs, h⟩ := bind_eq_ok.1 h
      exact ⟨b, bs, hb, ih.1 hbs, (pure_eq_ok.1 h).symm⟩
    · rintro ⟨b, bs, hb, hbs, rfl⟩
      exact ⟨b, hb, bind_eq_ok.2 ⟨bs, ih.2 hbs, rfl⟩⟩

end Checked

/-! ### Tables -/

namespace OrderedMap

variable {κ ν : Type} [Ord κ] [Std.TransOrd κ]

omit [Std.TransOrd κ] in
/-- A new key makes one entry more. -/
theorem perm_insertEntry {k : κ} {v : ν} {entries : List (κ × ν)}
    (h : lookupEntry k entries = none) : (insertEntry k v entries).Perm ((k, v) :: entries) := by
  induction entries with
  | nil => exact .refl _
  | cons e rest ih =>
    obtain ⟨l, w⟩ := e
    unfold lookupEntry at h
    unfold insertEntry
    cases hcompare : compare k l with
    | lt => exact .refl _
    | eq =>
      rw [hcompare] at h
      cases h
    | gt =>
      rw [hcompare] at h
      exact ((ih h).cons _).trans (.swap ..)

theorem perm_insert {m : OrderedMap κ ν} {k : κ} (h : m.get? k = none) (v : ν) :
    (m.insert k v).entries.Perm ((k, v) :: m.entries) := perm_insertEntry h

end OrderedMap

namespace Contents

variable {columns after : OrderedMap String Column} {c d : Contents} {name : String}

/-! ### Cells -/

/-- The JSON value under a key of a column, if there is one. -/
def cell? (columns : OrderedMap String Column) (name : String) (key : Bytes) : Option Json :=
  (columns.get? name).bind (·.cell? key)

/-- The entries of a column, if there is one of that name. -/
def cells (columns : OrderedMap String Column) (name : String) : List (String × Json) :=
  ((columns.get? name).map Column.cells).getD []

theorem column?_eq (c : Contents) (name : String) : c.column? name = c.columns.get? name := by
  cases c <;> rfl

/-- What is got from contents is read off a cell. -/
theorem get?_eq (c : Contents) (name : String) (key : Bytes) :
    c.get? name key = match cell? c.columns name key with
      | none => .ok none
      | some cell => (valueOf name cell).map some := by
  cases c <;> rfl

/-- What a scan finds is read off the entries of a column. -/
theorem scan_eq (c : Contents) (name : String) :
    c.scan name = do
      return (← (cells c.columns name).mapM (entryOf name)).mergeSort
        fun a b => (compare a.1 b.1).isLE := by
  unfold scan cells
  rw [column?_eq]
  cases c.columns.get? name with
  | none => exact congrArg Except.ok List.mergeSort_nil.symm
  | some column => rfl

theorem count_eq (c : Contents) (name : String) : c.count name = (cells c.columns name).length := by
  unfold count cells
  rw [column?_eq]
  cases c.columns.get? name with
  | none => rfl
  | some column => rfl

theorem applyOne_eq_ok {change : Change} (h : applyOne columns change = .ok after) :
    ∃ entries, columns.getD change.column .empty = .table entries ∧
      after = columns.insert change.column (.table (match change.value with
        | some value => entries.insert (Hex.encode change.key) (.string (Hex.encode value))
        | none => entries.erase (Hex.encode change.key))) := by
  unfold applyOne at h
  split at h
  · cases h
  · rename_i entries hentries
    cases h
    exact ⟨entries, hentries, rfl⟩

/-- **The entries of a column** are its cells. -/
theorem mem_cells_iff {key : Bytes} {cell : Json} :
    (Hex.encode key, cell) ∈ cells columns name ↔ cell? columns name key = some cell := by
  unfold cells cell?
  cases columns.get? name with
  | none => simp
  | some column =>
    cases column with
    | table entries => exact OrderedMap.get?_eq_some_iff.symm
    | other value => simp [Column.cells, Column.cell?]

/-- A column that is not there has the cells of an empty one. -/
theorem cell?_of_getD {entries : OrderedMap String Json}
    (h : columns.getD name .empty = .table entries) (key : Bytes) :
    cell? columns name key = entries.get? (Hex.encode key) ∧
      cells columns name = entries.entries := by
  unfold OrderedMap.getD at h
  unfold cell? cells
  cases hcolumn : columns.get? name with
  | none =>
    rw [hcolumn] at h
    cases h
    exact ⟨rfl, rfl⟩
  | some column =>
    rw [hcolumn] at h
    obtain rfl : column = .table entries := h
    exact ⟨rfl, rfl⟩

/-- **A change of one key** changes its cell alone. -/
theorem cell?_applyOne {change : Change} (h : applyOne columns change = .ok after)
    (name : String) (key : Bytes) :
    cell? after name key = if name = change.column ∧ key = change.key
      then change.value.map fun value => .string (Hex.encode value)
      else cell? columns name key := by
  obtain ⟨entries, hentries, rfl⟩ := applyOne_eq_ok h
  by_cases hname : name = change.column
  · subst hname
    rw [(cell?_of_getD hentries key).1]
    unfold cell?
    rw [OrderedMap.get?_insert_eq, if_pos rfl, Option.bind_some]
    have hkey : Hex.encode key = Hex.encode change.key ↔ key = change.key :=
      ⟨fun h => Hex.encode_injective h, congrArg _⟩
    cases hvalue : change.value with
    | some value =>
      refine (OrderedMap.get?_insert_eq _ _ _ _).trans ?_
      simp only [hkey, true_and, Option.map_some]
    | none =>
      refine (OrderedMap.get?_erase_eq _ _ _).trans ?_
      simp only [hkey, true_and, Option.map_none]
  · unfold cell?
    rw [OrderedMap.get?_insert_eq, if_neg hname, if_neg fun h => hname h.1]

/-- **A change of a column** changes no other one. -/
theorem cells_applyOne_of_ne {change : Change} (h : applyOne columns change = .ok after)
    (hname : name ≠ change.column) : cells after name = cells columns name := by
  obtain ⟨entries, -, rfl⟩ := applyOne_eq_ok h
  unfold cells
  rw [OrderedMap.get?_insert_eq, if_neg hname]

/-- **A value under a new key** makes one entry more. -/
theorem cells_applyOne_of_new {key value : Bytes}
    (h : applyOne columns ⟨name, key, some value⟩ = .ok after)
    (hnew : cell? columns name key = none) :
    (cells after name).Perm
      ((Hex.encode key, .string (Hex.encode value)) :: cells columns name) := by
  obtain ⟨entries, hentries, rfl⟩ := applyOne_eq_ok h
  obtain ⟨hcell, hcells⟩ := cell?_of_getD hentries key
  rw [hcells]
  unfold cells
  rw [OrderedMap.get?_insert_eq, if_pos rfl]
  exact OrderedMap.perm_insert (hcell.symm.trans hnew) _

theorem apply_eq_ok {batch : List Change} :
    c.apply batch = .ok d ↔ ∃ after, batch.foldlM applyOne c.columns = .ok after ∧
      d = .table after := by
  unfold apply
  cases batch.foldlM applyOne c.columns with
  | ok after =>
    constructor
    · intro h
      cases h
      exact ⟨after, rfl, rfl⟩
    · rintro ⟨_, h, rfl⟩
      cases h
      rfl
  | error e =>
    constructor
    · intro h
      cases h
    · rintro ⟨_, h, -⟩
      cases h

/-! ### New rows of a column -/

/-- The change that puts a value under a key of a column. -/
def rowChange (name : String) (row : Bytes × Bytes) : Change := ⟨name, row.1, some row.2⟩

/-- The entry of a column that holds a value under a key. -/
def rowEntry (row : Bytes × Bytes) : String × Json :=
  (Hex.encode row.1, .string (Hex.encode row.2))

/-- **Changes of other columns** are not seen in the cells of a column. -/
theorem cell?_foldlM_of_ne {changes : List Change}
    (h : changes.foldlM applyOne columns = .ok after)
    (hne : ∀ change ∈ changes, name ≠ change.column) (key : Bytes) :
    cell? after name key = cell? columns name key := by
  induction changes generalizing columns with
  | nil =>
    cases h
    rfl
  | cons change rest ih =>
    rw [List.foldlM_cons] at h
    obtain ⟨first, hfirst, hrest⟩ := Checked.bind_eq_ok.1 h
    rw [ih hrest fun c hc => hne c (List.mem_cons_of_mem _ hc), cell?_applyOne hfirst,
      if_neg fun hsame => hne change List.mem_cons_self hsame.1]

/-- **Rows with new keys** are added to a column. -/
theorem foldlM_rows {rows : List (Bytes × Bytes)}
    (h : (rows.map (rowChange name)).foldlM applyOne columns = .ok after)
    (hnodup : (rows.map Prod.fst).Nodup) (hnew : ∀ row ∈ rows, cell? columns name row.1 = none) :
    (cells after name).Perm (rows.map rowEntry ++ cells columns name) := by
  induction rows generalizing columns with
  | nil =>
    cases h
    exact .refl _
  | cons row rest ih =>
    rw [List.map_cons, List.foldlM_cons] at h
    obtain ⟨first, hfirst, hrest⟩ := Checked.bind_eq_ok.1 h
    rw [List.map_cons, List.nodup_cons] at hnodup
    have hcells := cells_applyOne_of_new hfirst (hnew row List.mem_cons_self)
    have hperm := ih hrest hnodup.2 fun r hr => by
      have hne : r.1 ≠ row.1 := fun hkey => hnodup.1 (hkey ▸ List.mem_map_of_mem hr)
      rw [cell?_applyOne hfirst, if_neg fun hsame => hne hsame.2]
      exact hnew r (List.mem_cons_of_mem _ hr)
    exact hperm.trans ((hcells.append_left _).trans List.perm_middle)

theorem bytesOf_encode (bs : Bytes) : bytesOf (Hex.encode bs) = .ok bs := by
  unfold bytesOf
  rw [Hex.decode_encode]
  rfl

/-- What an entry holds that was written. -/
theorem entryOf_rowEntry (name : String) (row : Bytes × Bytes) :
    entryOf name (rowEntry row) = .ok row := by
  unfold entryOf rowEntry
  simp only [bytesOf_encode]
  rfl

theorem pairwise_mergeSort (found : List (Bytes × Bytes)) :
    (found.mergeSort fun a b => (compare a.1 b.1).isLE).Pairwise
      fun a b => (compare a.1 b.1).isLE = true := by
  refine List.pairwise_mergeSort (fun _ _ _ => Std.TransCmp.isLE_trans) (fun a b => ?_) found
  have hswap : compare b.1 a.1 = (compare a.1 b.1).swap := Std.OrientedCmp.eq_swap
  rw [hswap]
  cases compare a.1 b.1 <;> rfl

/-- **Rows with distinct keys** ascend when they are sorted. -/
theorem ascending_mergeSort {found : List (Bytes × Bytes)} (h : (found.map Prod.fst).Nodup) :
    Ascending (found.mergeSort fun a b => (compare a.1 b.1).isLE) := by
  have hdistinct : (found.mergeSort fun a b => (compare a.1 b.1).isLE).Pairwise
      fun a b => a.1 ≠ b.1 :=
    List.pairwise_map.1 (((List.mergeSort_perm found _).map Prod.fst).nodup_iff.2 h)
  refine (List.pairwise_and_iff.2 ⟨pairwise_mergeSort found, hdistinct⟩).imp ?_
  rintro a b ⟨hle, hne⟩
  cases hcompare : compare a.1 b.1 with
  | lt => rfl
  | eq => exact absurd (Std.LawfulEqOrd.eq_of_compare hcompare) hne
  | gt => simp [hcompare] at hle

/-- Rows in ascending order of their keys are the only such order of them. -/
theorem mergeSort_eq {found rows : List (Bytes × Bytes)} (hperm : found.Perm rows)
    (hasc : Ascending rows) :
    found.mergeSort (fun a b => (compare a.1 b.1).isLE) = rows := by
  have hdistinct : (found.map Prod.fst).Nodup :=
    (hperm.map Prod.fst).nodup_iff.2 (OrderedMap.nodup_keys ⟨rows, hasc⟩)
  exact OrderedMap.eq_of_mem_iff (ascending_mergeSort hdistinct) hasc fun _ =>
    ((List.mergeSort_perm found _).trans hperm).mem_iff

/-- **A scan of a column with new rows** finds them after those that were there, if their keys
come after the other keys. -/
theorem scan_of_perm {found rows : List (Bytes × Bytes)} (hfound : c.scan name = .ok found)
    (hperm : (cells d.columns name).Perm (rows.map rowEntry ++ cells c.columns name))
    (hasc : Ascending (found ++ rows)) : d.scan name = .ok (found ++ rows) := by
  rw [scan_eq] at hfound ⊢
  obtain ⟨read, hread, hsorted⟩ := Checked.bind_eq_ok.1 hfound
  cases hsorted
  have hrows : List.Forall₂ (fun e row => entryOf name e = .ok row) (rows.map rowEntry) rows :=
    List.forall₂_map_left_iff.2 (List.forall₂_same.2 fun row _ => entryOf_rowEntry name row)
  obtain ⟨all, hall, hallperm⟩ :=
    List.perm_comp_forall₂ hperm (List.rel_append hrows (Checked.mapM_eq_ok.1 hread))
  refine Checked.bind_eq_ok.2 ⟨all, Checked.mapM_eq_ok.2 hall, congrArg Except.ok ?_⟩
  refine mergeSort_eq (hallperm.trans ?_) hasc
  exact List.perm_append_comm.trans ((List.mergeSort_perm read _).symm.append_right rows)

/-- **A key that is in use** is found by every scan that succeeds. -/
theorem mem_of_scan {rows : List (Bytes × Bytes)} (h : c.scan name = .ok rows) {key : Bytes}
    {cell : Json} (hcell : cell? c.columns name key = some cell) : ∃ row ∈ rows, row.1 = key := by
  rw [scan_eq] at h
  obtain ⟨read, hread, hsorted⟩ := Checked.bind_eq_ok.1 h
  cases hsorted
  obtain ⟨row, hrow, hentry⟩ :=
    exists_of_forall₂ (Checked.mapM_eq_ok.1 hread) (mem_cells_iff.2 hcell)
  refine ⟨row, (List.mergeSort_perm read _).mem_iff.2 hrow, ?_⟩
  unfold entryOf at hentry
  split at hentry
  · rename_i hpair
    cases hpair
    obtain ⟨bytes, hbytes, hrest⟩ := Checked.bind_eq_ok.1 hentry
    obtain ⟨_, -, hpure⟩ := Checked.bind_eq_ok.1 hrest
    cases hpure
    exact Except.ok.inj (hbytes.symm.trans (bytesOf_encode key))
  · cases hentry

end Contents

/-! ### The stored text -/

theorem Json.tidy_string (s : String) : tidy (.string s) = .string s := by simp [tidy]

/-- **A column that holds texts** and nothing else. -/
def Column.Textual : Column → Prop
  | .table entries => ∀ e ∈ entries.entries, ∃ text, e.2 = .string text
  | .other _ => False

/-- **A database whose columns hold texts** and nothing else, as all do that were only ever
written by this program. -/
def Contents.Textual : Contents → Prop
  | .table columns => ∀ e ∈ columns.entries, e.2.Textual
  | .other _ => False

namespace Column.Textual

variable {column : Column}

theorem plain (h : column.Textual) : Json.Plain column.toJson := by
  cases column with
  | table entries =>
    refine .object fun e he => ?_
    obtain ⟨text, htext⟩ := h e he
    rw [htext]
    exact .string text
  | other value => exact h.elim

/-- Texts are tidy. -/
theorem ofJson_toJson (h : column.Textual) : Column.ofJson column.toJson = column := by
  cases column with
  | table entries =>
    have htidy : (entries.entries.map fun e => (e.1, e.2.tidy)) = entries.entries.map id :=
      List.map_congr_left fun e he => by
        obtain ⟨text, htext⟩ := h e he
        rw [htext, Json.tidy_string, ← htext]
        rfl
    show Column.table (.ofList (entries.entries.map fun e => (e.1, e.2.tidy))) = _
    rw [htidy, List.map_id, OrderedMap.ofList_entries]
  | other value => exact h.elim

/-- Texts can be kept. -/
theorem keeps (h : column.Textual) (depth : Nat) :
    Json.keeps (depth + 1) column.toJson = true := by
  cases column with
  | table entries =>
    have hall : ∀ fields : List (String × Json), (∀ e ∈ fields, ∃ text, e.2 = .string text) →
        Json.keepsFields depth fields = true := by
      intro fields hfields
      induction fields with
      | nil => rfl
      | cons e rest ih =>
        obtain ⟨text, htext⟩ := hfields e List.mem_cons_self
        rw [Json.keepsFields, htext, Json.keeps_string, Bool.true_and]
        exact ih fun f hf => hfields f (List.mem_cons_of_mem _ hf)
    show Json.keeps (depth + 1) (.object entries.entries) = true
    rw [Json.keeps]
    simpa using hall _ h
  | other value => exact h.elim

end Column.Textual

namespace Contents

variable {c d : Contents}

/-- **The stored text of a database** of texts is read as that database. -/
theorem Textual.ofText_toText (h : c.Textual) : ofText c.toText = .ok c := by
  cases c with
  | table columns =>
    have hplain : Json.Plain (toJson (.table columns)) := .object fun f hf => by
      obtain ⟨e, he, rfl⟩ := List.mem_map.1 hf
      exact (h e he).plain
    have hall : ∀ entries : List (String × Column), (∀ e ∈ entries, e.2.Textual) →
        Json.keepsFields 126 (entries.map fun e => (e.1, e.2.toJson)) = true := by
      intro entries hentries
      induction entries with
      | nil => rfl
      | cons e rest ih =>
        rw [List.map_cons, Json.keepsFields, (hentries e List.mem_cons_self).keeps 125,
          Bool.true_and]
        exact ih fun f hf => hentries f (List.mem_cons_of_mem _ hf)
    have hkept : (toJson (.table columns)).isKept = true := by
      show Json.keeps 127 (.object _) = true
      rw [Json.keeps]
      simpa using hall _ h
    have hcolumns : (columns.entries.map fun e => (e.1, e.2.toJson)).map
        (fun f => (f.1, Column.ofJson f.2)) = columns.entries.map id := by
      rw [List.map_map]
      exact List.map_congr_left fun e he => Prod.ext rfl (h e he).ofJson_toJson
    unfold ofText toText
    rw [hplain.parse?_pretty]
    simp only
    rw [if_pos hkept]
    show Except.ok (Contents.table (.ofList ((columns.entries.map fun e => (e.1, e.2.toJson)).map
      fun f => (f.1, Column.ofJson f.2)))) = _
    rw [hcolumns, List.map_id, OrderedMap.ofList_entries]
  | other value => exact h.elim

theorem textual_empty : empty.Textual := fun _ he => absurd he List.not_mem_nil

/-- **A column of texts can be changed**, and holds texts then. -/
theorem exists_applyOne {columns : OrderedMap String Column}
    (h : ∀ e ∈ columns.entries, e.2.Textual) (change : Change) :
    ∃ after, applyOne columns change = .ok after ∧ ∀ e ∈ after.entries, e.2.Textual := by
  obtain ⟨entries, hentries, htexts⟩ : ∃ entries,
      columns.getD change.column .empty = .table entries ∧ (Column.table entries).Textual := by
    unfold OrderedMap.getD
    cases hcolumn : columns.get? change.column with
    | none => exact ⟨.empty, rfl, fun e he => absurd he List.not_mem_nil⟩
    | some column =>
      have htextual := h _ (OrderedMap.get?_eq_some_iff.1 hcolumn)
      cases column with
      | table entries => exact ⟨entries, rfl, htextual⟩
      | other value => exact htextual.elim
  unfold applyOne
  rw [hentries]
  refine ⟨_, rfl, fun e he => ?_⟩
  rcases OrderedMap.mem_insertEntry he with rfl | he
  · cases change.value with
    | some value =>
      intro f hf
      rcases OrderedMap.mem_insertEntry hf with rfl | hf
      · exact ⟨_, rfl⟩
      · exact htexts f hf
    | none => exact fun f hf => htexts f (List.mem_filter.1 hf).1
  · exact h e he

/-- **A database of texts can be changed**, and holds texts then. -/
theorem Textual.exists_apply (h : c.Textual) (batch : List Change) :
    ∃ d, c.apply batch = .ok d ∧ d.Textual := by
  have hcolumns : ∀ e ∈ c.columns.entries, e.2.Textual := by
    cases c with
    | table columns => exact h
    | other value => exact h.elim
  suffices hall : ∃ after, batch.foldlM applyOne c.columns = .ok after ∧
      ∀ e ∈ after.entries, e.2.Textual by
    obtain ⟨after, hafter, htexts⟩ := hall
    exact ⟨.table after, apply_eq_ok.2 ⟨after, hafter, rfl⟩, htexts⟩
  clear h
  generalize c.columns = columns at hcolumns ⊢
  induction batch generalizing columns with
  | nil => exact ⟨columns, rfl, hcolumns⟩
  | cons change rest ih =>
    obtain ⟨first, hfirst, htexts⟩ := exists_applyOne hcolumns change
    obtain ⟨after, hafter, hrest⟩ := ih first htexts
    exact ⟨after, Checked.bind_eq_ok.2 ⟨first, hfirst, hafter⟩, hrest⟩

theorem Textual.apply (h : c.Textual) {batch : List Change} (happly : c.apply batch = .ok d) :
    d.Textual := by
  obtain ⟨d', hd', htextual⟩ := h.exists_apply batch
  cases hd'.symm.trans happly
  exact htextual

end Contents

end StakeGovernance
