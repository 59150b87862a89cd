import StakeGovernance.Proofs.Codecs

/-!
# Packed logs, byte by byte

A packed log is a row of records of forty bytes, and every forty bytes are a record: all values of a
point, of an amount and of an address occur. So bytes that are cut into whole records are the bytes
of a log, and of one only. All that is left to refuse is the order of the points. It can be seen in
the bytes themselves, in the first eight of each record, and it is checked between neighbours only.

* `StakeGovernance.Checkpoint.exists_toPacked` – **forty bytes** are a checkpoint;
* `StakeGovernance.CheckpointLog.exists_toPacked` – whole records are **a log**, in order or not;
* `StakeGovernance.CheckpointLog.Packed` – bytes whose **records ascend**;
* `StakeGovernance.CheckpointLog.packing_is_one_to_one` – these are **the bytes that are read**, and
  each log is read from its own.
-/

namespace StakeGovernance

/-! ### Records -/

/-- Bytes of a width are a number with its most significant byte first. -/
theorem exists_bigEndian {width : Nat} {bs : Bytes} (h : bs.length = width) :
    ∃ w : Word (8 * width), bigEndian width w.toNat = bs := by
  subst h
  exact ⟨⟨ofBigEndian bs, ofBigEndian_lt bs⟩, bigEndian_ofBigEndian bs⟩

/-- **Forty bytes are a checkpoint.** -/
theorem Checkpoint.exists_toPacked {bs : Bytes} (h : bs.length = packedSize) :
    ∃ c : Checkpoint StakePoint, c.toPacked = bs := by
  have hsize : bs.length = 40 := h
  have hfront : (bs.take 8).length = 8 := List.length_take_of_le (by omega)
  have hmiddle : ((bs.drop 8).take 12).length = 12 :=
    List.length_take_of_le (by rw [List.length_drop]; omega)
  have hlast : (bs.drop 20).length = 20 := by rw [List.length_drop, hsize]
  obtain ⟨point, hpoint⟩ := exists_bigEndian hfront
  obtain ⟨amount, hamount⟩ := exists_bigEndian hmiddle
  have hrest : (bs.drop 8).take 12 ++ bs.drop 20 = bs.drop 8 := by
    have hdrop := List.take_append_drop 12 (bs.drop 8)
    rwa [List.drop_drop] at hdrop
  refine ⟨⟨point, ⟨amount, ⟨bs.drop 20, hlast⟩⟩⟩, ?_⟩
  show bigEndian 8 point.toNat ++ bigEndian 12 amount.toNat ++ bs.drop 20 = bs
  rw [hpoint, hamount, List.append_assoc, hrest, List.take_append_drop]

/-- The point of a checkpoint stands in its first eight bytes. -/
theorem Checkpoint.ofBigEndian_take_toPacked (c : Checkpoint StakePoint) (rest : Bytes) :
    ofBigEndian ((c.toPacked ++ rest).take 8) = c.point.toNat := by
  unfold toPacked
  rw [List.append_assoc, List.append_assoc, List.take_left' (length_bigEndian 8 _),
    ofBigEndian_bigEndian c.point.toNat_lt]

namespace CheckpointLog

variable {log : CheckpointLog StakePoint} {bs : Bytes}

/-! ### Logs -/

/-- **Whole records are a log**, whether their points ascend or not. -/
theorem exists_toPacked {n : Nat} (h : bs.length = packedSize * n) :
    ∃ log : CheckpointLog StakePoint, log.toPacked = bs := by
  induction n generalizing bs with
  | zero => exact ⟨.empty, (List.length_eq_zero_iff.1 h).symm⟩
  | succ n ih =>
    rw [Nat.mul_succ] at h
    have hfirst : (bs.take packedSize).length = packedSize := List.length_take_of_le (by omega)
    have hothers : (bs.drop packedSize).length = packedSize * n := by
      rw [List.length_drop]
      omega
    obtain ⟨c, hc⟩ := Checkpoint.exists_toPacked hfirst
    obtain ⟨rest, hrest⟩ := ih hothers
    refine ⟨⟨c :: rest.entries⟩, ?_⟩
    show c.toPacked ++ rest.toPacked = bs
    rw [hc, hrest, List.take_append_drop]

/-- A row of checkpoints is read from the record that it begins with. -/
theorem drop_flatMap_toPacked (entries : List (Checkpoint StakePoint)) (i : Nat) :
    (entries.flatMap Checkpoint.toPacked).drop (packedSize * i)
      = (entries.drop i).flatMap Checkpoint.toPacked := by
  induction i generalizing entries with
  | zero => rfl
  | succ i ih =>
    cases entries with
    | nil => exact List.drop_nil
    | cons c rest =>
      rw [List.flatMap_cons, Nat.mul_succ, Nat.add_comm, ← List.drop_drop,
        List.drop_left' (length_toPacked c), ih, List.drop_succ_cons]

/-- **The number in the first eight bytes of a record** of packed bytes. -/
def packedPoint (bs : Bytes) (i : Nat) : Nat := ofBigEndian ((bs.drop (packedSize * i)).take 8)

theorem packedPoint_toPacked {i : Nat} (hi : i < log.entries.length) :
    packedPoint log.toPacked i = log.entries[i].point.toNat := by
  unfold packedPoint toPacked
  rw [drop_flatMap_toPacked, List.drop_eq_getElem_cons hi, List.flatMap_cons,
    Checkpoint.ofBigEndian_take_toPacked]

/-- **Packed bytes**: whole records, whose points ascend strictly from each record to the next
one. -/
structure Packed (bs : Bytes) : Prop where
  whole : bs.length % packedSize = 0
  ascending : ∀ i, packedSize * (i + 2) ≤ bs.length → packedPoint bs i < packedPoint bs (i + 1)

/-- **The order of a log** is that of neighbours, and can be seen in its bytes. -/
theorem packed_toPacked_iff : Packed log.toPacked ↔ log.Ordered := by
  have htrans : IsTrans (Checkpoint StakePoint) fun a b => a.point < b.point :=
    ⟨fun _ _ _ => Nat.lt_trans⟩
  unfold Ordered
  rw [← List.isChain_iff_pairwise, List.isChain_iff_getElem]
  have hfits : ∀ i, packedSize * (i + 2) ≤ log.toPacked.length ↔ i + 1 < log.entries.length := by
    intro i
    rw [length_packed]
    exact Nat.mul_le_mul_left_iff (by decide)
  constructor
  · intro h i hi
    have hlt := h.ascending i ((hfits i).2 hi)
    rwa [packedPoint_toPacked (Nat.lt_of_succ_lt hi), packedPoint_toPacked hi] at hlt
  · intro h
    refine ⟨by rw [length_packed, Nat.mul_mod_right], fun i hi => ?_⟩
    have hi := (hfits i).1 hi
    rw [packedPoint_toPacked (Nat.lt_of_succ_lt hi), packedPoint_toPacked hi]
    exact h i hi

/-- **Bytes that are read** are those of the log that is read. -/
theorem toPacked_of_ofPacked (h : ofPacked bs = .ok log) : log.toPacked = bs := by
  obtain ⟨n, hn⟩ : packedSize ∣ bs.length := by
    refine Nat.dvd_of_mod_eq_zero ?_
    unfold ofPacked at h
    split at h
    · assumption
    · cases h
  obtain ⟨own, rfl⟩ := exists_toPacked hn
  rw [ofPacked_eq_checkAscent] at h
  obtain ⟨_, -, hpure⟩ := Checked.bind_eq_ok.1 h
  cases hpure
  rfl

/-- **Packing is one to one.** Bytes are read exactly if they are whole records of forty bytes, and
the numbers in the first eight bytes of the records ascend strictly from each record to the next
one. And they are read as a log exactly if the points of the log ascend and they are its bytes: what
is read is packed into the same bytes again, and every such log is read from the bytes that it is
packed into. -/
theorem packing_is_one_to_one (bs : Bytes) :
    ((∃ log, ofPacked bs = .ok log) ↔ Packed bs) ∧
      ∀ log, ofPacked bs = .ok log ↔ log.Ordered ∧ log.toPacked = bs := by
  have hread : ∀ log, ofPacked bs = .ok log ↔ log.Ordered ∧ log.toPacked = bs := by
    intro log
    constructor
    · exact fun h => ⟨ordered_of_ofPacked h, toPacked_of_ofPacked h⟩
    · rintro ⟨hordered, rfl⟩
      exact ofPacked_toPacked hordered
  refine ⟨?_, hread⟩
  constructor
  · rintro ⟨log, h⟩
    obtain ⟨hordered, rfl⟩ := (hread log).1 h
    exact packed_toPacked_iff.2 hordered
  · intro hpacked
    obtain ⟨n, hn⟩ := Nat.dvd_of_mod_eq_zero hpacked.whole
    obtain ⟨log, rfl⟩ := exists_toPacked hn
    exact ⟨log, (hread log).2 ⟨packed_toPacked_iff.1 hpacked, rfl⟩⟩

end CheckpointLog

end StakeGovernance
