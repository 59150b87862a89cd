import Mathlib.Tactic.Ring
import StakeGovernance.Proofs.Columns
import StakeGovernance.Store.Snapshot

/-!
# What a store holds

The keys of the journal are numbers with the most significant byte first, so that the order of
the keys is the order of the numbers. A journal is read from any number on; a store whose
journal reads as some entries from every number on has a row for each of them, under its own
number. So a commit puts its entries behind those that were there, and replaces the snapshot
together with its checksum.

* `StakeGovernance.compare_bytes_of_lt` – the **order of keys**;
* `StakeGovernance.StateStore.Records` – a journal that **holds entries**;
* `StakeGovernance.StateStore.Records.exists_rows` – the **rows** of a journal;
* `StakeGovernance.StateStore.loadSnapshot?_of_commit`,
  `StakeGovernance.StateStore.Records.commit` – what a **commit** leaves.
-/

namespace StakeGovernance

/-! ### Rows of bytes -/

theorem ofLittleEndian_append (bs cs : Bytes) :
    ofLittleEndian (bs ++ cs) = ofLittleEndian bs + 256 ^ bs.length * ofLittleEndian cs := by
  induction bs with
  | nil => simp [ofLittleEndian]
  | cons b bs ih =>
    rw [List.cons_append, ofLittleEndian, ofLittleEndian, ih, List.length_cons]
    ring

theorem ofBigEndian_cons (b : UInt8) (bs : Bytes) :
    ofBigEndian (b :: bs) = ofBigEndian bs + 256 ^ bs.length * b.toNat := by
  unfold ofBigEndian
  rw [List.reverse_cons, ofLittleEndian_append, List.length_reverse]
  simp [ofLittleEndian]

theorem size_eq_pow (width : Nat) : Word.size (8 * width) = 256 ^ width := by
  show 2 ^ (8 * width) = _
  rw [Nat.pow_mul]

/-- The greater first byte decides, whatever the others are. -/
theorem ofBigEndian_lt_of_head {b c : UInt8} {bs cs : Bytes} (hlength : bs.length = cs.length)
    (h : b < c) : ofBigEndian (b :: bs) < ofBigEndian (c :: cs) := by
  have hbs := ofBigEndian_lt bs
  have hbc : b.toNat + 1 ≤ c.toNat := h
  have hmul := Nat.mul_le_mul_left (256 ^ bs.length) hbc
  rw [size_eq_pow] at hbs
  rw [Nat.mul_add, Nat.mul_one] at hmul
  rw [ofBigEndian_cons, ofBigEndian_cons, ← hlength]
  omega

/-- **Rows of bytes are ordered as the numbers** that they stand for with the most significant
byte first, if they are of one length. -/
theorem compare_bytes_of_lt {bs cs : Bytes} (hlength : bs.length = cs.length)
    (h : ofBigEndian bs < ofBigEndian cs) : compare bs cs = .lt := by
  induction bs generalizing cs with
  | nil =>
    cases List.length_eq_zero_iff.1 hlength.symm
    cases h
  | cons b bs ih =>
    cases cs with
    | nil => cases hlength
    | cons c cs =>
      have htail : bs.length = cs.length := Nat.succ.inj hlength
      rw [List.compare_cons_cons]
      cases hcompare : compare b c with
      | lt => rfl
      | eq =>
        obtain rfl : b = c := Std.LawfulEqOrd.eq_of_compare hcompare
        rw [ofBigEndian_cons, ofBigEndian_cons, htail] at h
        exact ih htail (Nat.lt_of_add_lt_add_right h)
      | gt =>
        have hgt : c < b := Std.compare_eq_gt.1 hcompare
        exact absurd h (Nat.lt_asymm (ofBigEndian_lt_of_head htail.symm hgt))

namespace StateStore

variable {s : StateStore} {state : ProtocolState} {vault : Vault}
  {entries later : List JournalEntry}

/-- **A journal that holds entries**: from every number on, it is read as those of them that have
no lower number. -/
def Records (s : StateStore) (entries : List JournalEntry) : Prop :=
  ∀ first, s.journalSince first = .ok (entries.filter fun e => first ≤ e.seq)

/-! ### Texts in bytes -/

theorem textOfBytes_utf8Bytes (text : String) : textOfBytes (utf8Bytes text) = text := by
  unfold textOfBytes
  rw [utf8Text?_utf8Bytes]
  rfl

section Texts

variable {α : Type} {write : α → Json} {read : Json → Option α} {a : α}

/-- **What survives as JSON** survives as the bytes of its text, in whatever order its fields are
written. -/
theorem decode_encode_of_rearranged (h : Json.Survives write read a) {v : Json}
    (hv : (write a).Rearranged v) (what : String) (tables : Bool) :
    decode what (fun text => (Json.parseText? tables text).bind read) (encode v) = .ok a := by
  unfold decode encode
  rw [textOfBytes_utf8Bytes]
  simp only
  rw [h.parseText?_compact hv tables]

theorem decode_encode (h : Json.Survives write read a) (what : String) (tables : Bool) :
    decode what (fun text => (Json.parseText? tables text).bind read) (encode (write a))
      = .ok a := decode_encode_of_rearranged h (.refl _) what tables

end Texts

/-! ### Rows of the journal -/

/-- **A row that holds an entry** under a number. -/
def Row (row : Bytes × Bytes) (numbered : Word 64 × JournalEntry) : Prop :=
  seqOfKey row.1 = .ok numbered.1 ∧ decode "journal entry" entryOfText? row.2 = .ok numbered.2

/-- An entry under its own number. -/
def ownNumber (e : JournalEntry) : Word 64 × JournalEntry := (e.seq, e)

/-- The row that an entry is written as. -/
def rowOf (e : JournalEntry) : Bytes × Bytes := (bigEndian 8 e.seq.toNat, encode e.toJson)

theorem seqOfKey_eq_ok {key : Bytes} {seq : Word 64} (h : seqOfKey key = .ok seq) :
    key.length = 8 ∧ ofBigEndian key = seq.toNat := by
  unfold seqOfKey at h
  split at h
  · rename_i hlength
    cases h
    exact ⟨hlength, rfl⟩
  · cases h

theorem row_rowOf (e : JournalEntry) : Row (rowOf e) (ownNumber e) := by
  constructor
  · unfold seqOfKey rowOf
    rw [dif_pos (length_bigEndian 8 _)]
    exact congrArg Except.ok (Word.ext (ofBigEndian_bigEndian e.seq.toNat_lt))
  · exact decode_encode e.survives "journal entry" false

variable {rows : List (Bytes × Bytes)} {numbered : List (Word 64 × JournalEntry)}

/-- **Rows that hold entries** are read as these entries, without those of lower numbers. -/
theorem entriesSince_of_rows (h : List.Forall₂ Row rows numbered) (first : Word 64) :
    entriesSince first rows = .ok ((numbered.filter fun n => first ≤ n.1).map Prod.snd) := by
  induction h with
  | nil => rfl
  | @cons row n rows numbered hrow _ ih =>
    obtain ⟨key, value⟩ := row
    obtain ⟨hseq, hentry⟩ := hrow
    rw [entriesSince, hseq, List.filter_cons]
    show (if n.1 < first then _ else _) = _
    by_cases hfirst : n.1 < first
    · have hpassed : ¬ decide (first ≤ n.1) = true := fun h =>
        Nat.not_le.2 hfirst (of_decide_eq_true h)
      rw [if_pos hfirst, ih, if_neg hpassed]
    · have hkept : decide (first ≤ n.1) = true := decide_eq_true (Nat.not_lt.1 hfirst)
      rw [if_neg hfirst, hentry, ih, if_pos hkept]
      rfl

/-- Rows that can be read hold entries. -/
theorem exists_rows (h : entriesSince .zero rows = .ok entries) :
    ∃ numbered : List (Word 64 × JournalEntry), List.Forall₂ Row rows numbered ∧
      numbered.map Prod.snd = entries := by
  induction rows generalizing entries with
  | nil =>
    cases h
    exact ⟨[], .nil, rfl⟩
  | cons row rest ih =>
    obtain ⟨key, value⟩ := row
    obtain ⟨seq, hseq, h⟩ := Checked.bind_eq_ok.1 h
    have hzero : ¬ seq < .zero := Nat.not_lt_zero _
    rw [if_neg hzero] at h
    obtain ⟨entry, hentry, h⟩ := Checked.bind_eq_ok.1 h
    obtain ⟨others, hothers, h⟩ := Checked.bind_eq_ok.1 h
    cases h
    obtain ⟨numbered, hrows, rfl⟩ := ih hothers
    exact ⟨(seq, entry) :: numbered, .cons ⟨hseq, hentry⟩ hrows, rfl⟩

/-- **Entries that are told from each other** stand under their own numbers if the numbers that
they stand under and their own select the same of them. -/
theorem ownNumber_of_filter {numbered : List (Word 64 × JournalEntry)}
    (hnodup : (numbered.map Prod.snd).Nodup)
    (hsame : ∀ first, (numbered.filter fun n => first ≤ n.1).map Prod.snd
      = (numbered.map Prod.snd).filter fun e => first ≤ e.seq) :
    ∀ n ∈ numbered, ownNumber n.2 = n := by
  intro n hn
  refine Prod.ext (Word.ext (Nat.le_antisymm ?_ ?_)) rfl
  · -- read from its own number on, the entry is there
    have hmem : n.2 ∈ (numbered.map Prod.snd).filter fun e => n.2.seq ≤ e.seq :=
      List.mem_filter.2 ⟨List.mem_map_of_mem hn, decide_eq_true (Nat.le_refl _)⟩
    rw [← hsame] at hmem
    obtain ⟨m, hm, hentry⟩ := List.mem_map.1 hmem
    obtain ⟨hm, hle⟩ := List.mem_filter.1 hm
    cases List.inj_on_of_nodup_map hnodup hm hn hentry
    exact of_decide_eq_true hle
  · -- so it is read from the number that it stands under
    have hmem : n.2 ∈ (numbered.filter fun m => n.1 ≤ m.1).map Prod.snd :=
      List.mem_map_of_mem (List.mem_filter.2 ⟨hn, decide_eq_true (Nat.le_refl _)⟩)
    rw [hsame] at hmem
    exact of_decide_eq_true (List.mem_filter.1 hmem).2

/-- **The rows of a journal** that holds distinct entries hold them under their own numbers. -/
theorem Records.exists_rows (h : s.Records entries) (hnodup : entries.Nodup) :
    ∃ rows, s.database.scan journalColumn = .ok rows ∧
      List.Forall₂ Row rows (entries.map ownNumber) := by
  have hread : ∀ first, ∃ rows, s.database.scan journalColumn = .ok rows ∧
      entriesSince first rows = .ok (entries.filter fun e => first ≤ e.seq) := fun first =>
    Checked.bind_eq_ok.1 (h first)
  obtain ⟨rows, hscan, hall⟩ := hread .zero
  have hzero : (entries.filter fun e => (.zero : Word 64) ≤ e.seq) = entries :=
    List.filter_eq_self.2 fun _ _ => decide_eq_true (Nat.zero_le _)
  rw [hzero] at hall
  obtain ⟨numbered, hrows, rfl⟩ := StateStore.exists_rows hall
  have hown : ∀ n ∈ numbered, ownNumber n.2 = n := by
    refine ownNumber_of_filter hnodup fun first => ?_
    obtain ⟨_, hscan', hfirst⟩ := hread first
    cases hscan.symm.trans hscan'
    exact Except.ok.inj ((entriesSince_of_rows hrows first).symm.trans hfirst)
  refine ⟨rows, hscan, ?_⟩
  have hnumbered : (numbered.map Prod.snd).map ownNumber = numbered.map id := by
    rw [List.map_map]
    exact List.map_congr_left hown
  rwa [hnumbered, List.map_id]

/-- **Rows that hold entries in the order of their numbers** are in the order of their keys. -/
theorem ascending_of_rows (h : List.Forall₂ Row rows numbered)
    (hasc : numbered.Pairwise fun m n => m.1 < n.1) : Ascending rows := by
  induction h with
  | nil => exact .nil
  | @cons row n rows numbered hrow hrows ih =>
    obtain ⟨hhead, htail⟩ := List.pairwise_cons.1 hasc
    refine List.pairwise_cons.2 ⟨fun other hother => ?_, ih htail⟩
    obtain ⟨m, hm, hmother⟩ := exists_of_forall₂ hrows hother
    obtain ⟨hlength, hnumber⟩ := seqOfKey_eq_ok hrow.1
    obtain ⟨hlength', hnumber'⟩ := seqOfKey_eq_ok hmother.1
    refine compare_bytes_of_lt (hlength.trans hlength'.symm) ?_
    rw [hnumber, hnumber']
    exact hhead m hm

/-- **A store whose column holds rows** records their entries. -/
theorem records_of_rows (hscan : s.database.scan journalColumn = .ok rows)
    (hrows : List.Forall₂ Row rows (entries.map ownNumber)) : s.Records entries := by
  intro first
  refine Checked.bind_eq_ok.2 ⟨rows, hscan, ?_⟩
  rw [entriesSince_of_rows hrows, List.filter_map, List.map_map]
  exact congrArg Except.ok (List.map_id _)

/-- Without any content there are no entries. -/
theorem records_empty (path : String) : Records ⟨path, .empty⟩ [] :=
  records_of_rows rfl .nil

/-! ### Loading -/

/-- A checksum fits if it is there, and is the digest of the bytes. -/
theorem checkSum_eq_ok {bs : Bytes} {u : Unit} : s.checkSum bs = .ok u ↔
    s.database.get? metaColumn checksumKey = .ok (some (Digest.compute bs).bytes) := by
  unfold checkSum
  rw [Checked.bind_eq_ok]
  constructor
  · rintro ⟨found, hfound, h⟩
    cases found with
    | none => cases h
    | some expected =>
      simp only at h
      split at h
      · cases h
      · rename_i hfits
        rw [hfound, of_not_not hfits]
  · intro h
    refine ⟨_, h, ?_⟩
    simp only
    rw [if_neg (not_not_intro rfl)]
    rfl

/-- **No snapshot is loaded** if there are no bytes of one. -/
theorem loadSnapshot?_eq_none_iff :
    s.loadSnapshot? = .ok none ↔ s.database.get? metaColumn snapshotKey = .ok none := by
  unfold loadSnapshot?
  rw [Checked.bind_eq_ok]
  constructor
  · rintro ⟨found, hfound, h⟩
    cases found with
    | none => exact hfound
    | some bs =>
      obtain ⟨_, -, h⟩ := Checked.bind_eq_ok.1 h
      obtain ⟨_, -, h⟩ := Checked.bind_eq_ok.1 h
      obtain ⟨-, hpure⟩ := Checked.refuse_eq_ok.1 h
      cases hpure
  · intro h
    exact ⟨none, h, rfl⟩

/-- **A snapshot is loaded** if its checksum fits its bytes, they are the text of a snapshot, and it
is of the current version. -/
theorem loadSnapshot?_eq_some_iff {snapshot : Snapshot} :
    s.loadSnapshot? = .ok (some snapshot) ↔ ∃ bs,
      s.database.get? metaColumn snapshotKey = .ok (some bs) ∧
      s.database.get? metaColumn checksumKey = .ok (some (Digest.compute bs).bytes) ∧
      decode "snapshot" Snapshot.ofText? bs = .ok snapshot ∧
      snapshot.version = Snapshot.currentVersion := by
  unfold loadSnapshot?
  rw [Checked.bind_eq_ok]
  constructor
  · rintro ⟨found, hfound, h⟩
    cases found with
    | none => cases h
    | some bs =>
      obtain ⟨_, hsum, h⟩ := Checked.bind_eq_ok.1 h
      obtain ⟨_, hdecode, h⟩ := Checked.bind_eq_ok.1 h
      obtain ⟨hversion, hpure⟩ := Checked.refuse_eq_ok.1 h
      cases hpure
      exact ⟨bs, hfound, checkSum_eq_ok.1 hsum, hdecode, of_not_not hversion⟩
  · rintro ⟨bs, hfound, hsum, hdecode, hversion⟩
    refine ⟨some bs, hfound, Checked.bind_eq_ok.2 ⟨(), checkSum_eq_ok.2 hsum, ?_⟩⟩
    refine Checked.bind_eq_ok.2 ⟨snapshot, hdecode, ?_⟩
    exact Checked.refuse_eq_ok.2 ⟨not_not_intro hversion, rfl⟩

/-! ### Commits -/

theorem snapshotKey_ne_checksumKey : snapshotKey ≠ checksumKey := by decide +kernel

theorem journalColumn_ne_metaColumn : journalColumn ≠ metaColumn := by decide

/-- **A snapshot that stands with its checksum** is read as it was written. -/
theorem loadSnapshot?_of_cells (hstorable : state.Storable)
    (hsnapshot : s.database.get? metaColumn snapshotKey
      = .ok (some (encode (Snapshot.create state vault).toJson)))
    (hchecksum : s.database.get? metaColumn checksumKey
      = .ok (some (Digest.compute (encode (Snapshot.create state vault).toJson)).bytes)) :
    s.loadSnapshot? = .ok (some (.create state vault)) := by
  have hsurvives : Json.Survives Snapshot.toJson Snapshot.ofJson? (.create state vault) :=
    Snapshot.survives hstorable
  have hdecode : decode "snapshot" Snapshot.ofText? (encode (Snapshot.create state vault).toJson)
      = .ok (.create state vault) := decode_encode hsurvives "snapshot" true
  exact loadSnapshot?_eq_some_iff.2 ⟨_, hsnapshot, hchecksum, hdecode, rfl⟩

/-- The text in a cell is the bytes that are got. -/
theorem get?_of_cell {c : Contents} {name : String} {key bs : Bytes}
    (h : Contents.cell? c.columns name key = some (.string (Hex.encode bs))) :
    c.get? name key = .ok (some bs) := by
  rw [Contents.get?_eq, h]
  show (Contents.bytesOf (Hex.encode bs)).map some = _
  rw [Contents.bytesOf_encode]
  rfl

variable {c d : Contents} {path : String}

/-- The changes of a commit: one of the snapshot, one of its checksum, and those of the journal. -/
theorem commitBatch_eq_ok {snapshot : Snapshot}
    (h : c.apply (commitBatch snapshot later) = .ok d) : ∃ first second,
      Contents.applyOne c.columns ⟨metaColumn, snapshotKey, some (encode snapshot.toJson)⟩
        = .ok first ∧
      Contents.applyOne first ⟨metaColumn, checksumKey,
        some (Digest.compute (encode snapshot.toJson)).bytes⟩ = .ok second ∧
      (later.map journalChange).foldlM Contents.applyOne second = .ok d.columns := by
  obtain ⟨after, hafter, rfl⟩ := Contents.apply_eq_ok.1 h
  obtain ⟨first, hfirst, hrest⟩ := Checked.bind_eq_ok.1 hafter
  obtain ⟨second, hsecond, hjournal⟩ := Checked.bind_eq_ok.1 hrest
  exact ⟨first, second, hfirst, hsecond, hjournal⟩

/-- **A commit replaces the snapshot.** -/
theorem loadSnapshot?_of_commit (hstorable : state.Storable)
    (h : c.apply (commitBatch (.create state vault) later) = .ok d) :
    loadSnapshot? ⟨path, d⟩ = .ok (some (.create state vault)) := by
  obtain ⟨first, second, hfirst, hsecond, hjournal⟩ := commitBatch_eq_ok h
  have hmeta : ∀ key, Contents.cell? d.columns metaColumn key
      = Contents.cell? second metaColumn key :=
    Contents.cell?_foldlM_of_ne hjournal fun change hchange => by
      obtain ⟨_, -, rfl⟩ := List.mem_map.1 hchange
      exact journalColumn_ne_metaColumn.symm
  refine loadSnapshot?_of_cells hstorable (get?_of_cell ?_) (get?_of_cell ?_)
  · refine (hmeta snapshotKey).trans ?_
    rw [Contents.cell?_applyOne hsecond, if_neg fun h => snapshotKey_ne_checksumKey h.2,
      Contents.cell?_applyOne hfirst, if_pos ⟨rfl, rfl⟩]
    rfl
  · refine (hmeta checksumKey).trans ?_
    rw [Contents.cell?_applyOne hsecond, if_pos ⟨rfl, rfl⟩]
    rfl

/-- **What a commit does to the journal** is to put a row for each entry: the snapshot and its
checksum are not kept there. -/
theorem journal_of_commit {snapshot : Snapshot}
    (h : c.apply (commitBatch snapshot later) = .ok d) : ∃ before,
      Contents.cells before journalColumn = Contents.cells c.columns journalColumn ∧
      (∀ key, Contents.cell? before journalColumn key
        = Contents.cell? c.columns journalColumn key) ∧
      ((later.map rowOf).map (Contents.rowChange journalColumn)).foldlM Contents.applyOne before
        = .ok d.columns := by
  obtain ⟨first, second, hfirst, hsecond, hjournal⟩ := commitBatch_eq_ok h
  have hne := journalColumn_ne_metaColumn
  have hchanges : later.map journalChange
      = (later.map rowOf).map (Contents.rowChange journalColumn) := by
    rw [List.map_map]
    rfl
  refine ⟨second, ?_, fun key => ?_, hchanges ▸ hjournal⟩
  · exact (Contents.cells_applyOne_of_ne hsecond hne).trans
      (Contents.cells_applyOne_of_ne hfirst hne)
  · rw [Contents.cell?_applyOne hsecond, if_neg fun h => hne h.1, Contents.cell?_applyOne hfirst,
      if_neg fun h => hne h.1]

/-- **A commit puts its entries behind those that were there**, if their numbers go on
ascending. -/
theorem Records.commit {snapshot : Snapshot} (hrecords : Records ⟨path, c⟩ entries)
    (hseqs : (entries ++ later).Pairwise fun a b => a.seq < b.seq)
    (h : c.apply (commitBatch snapshot later) = .ok d) :
    Records ⟨path, d⟩ (entries ++ later) := by
  obtain ⟨before, hcells, hcell, hjournal⟩ := journal_of_commit h
  -- the rows that were there, and the new ones
  have hnodup : entries.Nodup := (List.pairwise_append.1 hseqs).1.imp fun hlt heq => by
    cases heq
    exact Nat.lt_irrefl _ hlt
  obtain ⟨rows, hscan, hrows⟩ := hrecords.exists_rows hnodup
  have hlater : List.Forall₂ Row (later.map rowOf) (later.map ownNumber) :=
    List.forall₂_map_left_iff.2 (List.forall₂_map_right_iff.2
      (List.forall₂_same.2 fun e _ => row_rowOf e))
  have hall : List.Forall₂ Row (rows ++ later.map rowOf) ((entries ++ later).map ownNumber) := by
    rw [List.map_append]
    exact List.rel_append hrows hlater
  have hasc : Ascending (rows ++ later.map rowOf) :=
    ascending_of_rows hall (List.pairwise_map.2 hseqs)
  -- the keys of the new rows are new
  have hkeys : ((rows ++ later.map rowOf).map Prod.fst).Nodup :=
    OrderedMap.nodup_keys ⟨_, hasc⟩
  rw [List.map_append] at hkeys
  obtain ⟨-, hdistinct, hapart⟩ := List.nodup_append.1 hkeys
  have hfresh : ∀ row ∈ later.map rowOf,
      Contents.cell? before journalColumn row.1 = none := fun row hrow => by
    rw [hcell]
    refine Option.eq_none_iff_forall_ne_some.2 fun cell hkey => ?_
    obtain ⟨old, hold, hsame⟩ := Contents.mem_of_scan hscan hkey
    exact hapart _ (List.mem_map_of_mem hold) _ (List.mem_map_of_mem hrow) hsame
  have hperm := Contents.foldlM_rows hjournal hdistinct hfresh
  refine records_of_rows (Contents.scan_of_perm hscan ?_ hasc) hall
  rw [← hcells]
  exact hperm

end StateStore

end StakeGovernance
