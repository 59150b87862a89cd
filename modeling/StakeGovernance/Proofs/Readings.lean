import StakeGovernance.Checkpoint.Log

/-!
# What a log reads at a point

A log whose points ascend reads, at a point, the value of its last checkpoint up to that
point; binary search and the scan agree on it. A write at a point at or after the newest
one decides what is read from there on and nothing before.

* `StakeGovernance.CheckpointLog.put` – the log **after a write** that is not refused;
* `StakeGovernance.CheckpointLog.OrderedUpTo` – points ascend and **none is later** than
  a given one;
* `StakeGovernance.CheckpointLog.valueAt_eq_valueAtLinear` – **search and scan agree**;
* `StakeGovernance.CheckpointLog.valueAt_put` – what a write does to **every reading**.
-/

namespace StakeGovernance.CheckpointLog

variable {α : Type}

/-! ### Binary search -/

section Search

variable {test : α → Bool} {items : List α} {n : Nat}

/-- The range that is searched never loses the border between the items that pass and
those that do not: the item in front passes, unless it is the first of all, and no item
behind the range passes. -/
theorem narrow_spec (hn : ∀ i x, items[i]? = some x → (test x = true ↔ i < n)) (base size : Nat)
    (hbase : base = 0 ∨ base < n) (hsize : n ≤ base + size) (hlen : base + size ≤ items.length) :
    (narrow test items base size = 0 ∨ narrow test items base size < n) ∧
      n ≤ narrow test items base size + 1 := by
  fun_induction narrow test items base size with
  | case1 base size h half middle above ih =>
    have hhalf : half = size / 2 := rfl
    have hplace : middle = base + half := rfl
    have hmiddle : middle < items.length := by omega
    have habove : above = true ↔ middle < n := by
      have hx : items[middle]? = some items[middle] := List.getElem?_eq_getElem hmiddle
      have := hn middle _ hx
      simpa [above, hx] using this
    clear_value above middle half
    -- the item in the middle becomes the one in front of the range, or falls behind it
    by_cases hpass : above = true
    · have := habove.1 hpass
      simp only [dif_pos hpass, if_pos hpass] at ih ⊢
      exact ih (by omega) (by omega) (by omega)
    · have : ¬ middle < n := fun hlt => hpass (habove.2 hlt)
      simp only [dif_neg hpass, if_neg hpass] at ih ⊢
      exact ih (by omega) (by omega) (by omega)
  | case2 base size h => exact ⟨hbase, by omega⟩

/-- Where the items that pass come first, their number tells which they are. -/
theorem passes_iff (h : items.Pairwise fun a b => test b = true → test a = true) (i : Nat) (x : α)
    (hx : items[i]? = some x) : test x = true ↔ i < (items.filter test).length := by
  induction items generalizing i with
  | nil => simp at hx
  | cons a rest ih =>
    obtain ⟨ha, hrest⟩ := List.pairwise_cons.1 h
    by_cases hpass : test a = true
    · rw [List.filter_cons_of_pos hpass, List.length_cons]
      cases i with
      | zero =>
        cases hx
        simp [hpass]
      | succ i =>
        rw [ih hrest i (by simpa using hx)]
        omega
    · -- if the first item does not pass, none does
      have hnone : rest.filter test = [] :=
        List.filter_eq_nil_iff.2 fun b hb hpb => hpass (ha b hb hpb)
      rw [List.filter_cons_of_neg hpass, hnone]
      constructor
      · intro hpx
        refine absurd ?_ hpass
        cases i with
        | zero =>
          cases hx
          exact hpx
        | succ i => exact ha x (List.mem_of_getElem? (by simpa using hx)) hpx
      · intro hi
        exact absurd hi (Nat.not_lt_zero i)

/-- Where the items that pass come first, the others need not be looked at. -/
theorem takeWhile_eq_filter (h : items.Pairwise fun a b => test b = true → test a = true) :
    items.takeWhile test = items.filter test := by
  induction items with
  | nil => rfl
  | cons a rest ih =>
    obtain ⟨ha, hrest⟩ := List.pairwise_cons.1 h
    by_cases hpass : test a = true
    · rw [List.takeWhile_cons_of_pos hpass, List.filter_cons_of_pos hpass, ih hrest]
    · rw [List.takeWhile_cons_of_neg hpass, List.filter_cons_of_neg hpass]
      exact (List.filter_eq_nil_iff.2 fun b hb hpb => hpass (ha b hb hpb)).symm

/-- **Binary search counts the items that pass.** -/
theorem partitionPoint_eq (h : items.Pairwise fun a b => test b = true → test a = true) :
    partitionPoint test items = (items.filter test).length := by
  have hpass := passes_iff h
  have hle : (items.filter test).length ≤ items.length := List.length_filter_le _ _
  obtain ⟨hbase, hn⟩ := narrow_spec hpass 0 items.length (Or.inl rfl) (by omega) (by omega)
  unfold partitionPoint
  generalize narrow test items 0 items.length = base at hbase hn ⊢
  simp only
  cases hx : items[base]? with
  | none =>
    have := List.getElem?_eq_none_iff.1 hx
    show 0 = _
    omega
  | some x =>
    have hiff := hpass base x hx
    show (if test x = true then base + 1 else base) = _
    split
    · rename_i hp
      have := hiff.1 hp
      omega
    · rename_i hp
      have : ¬ base < (items.filter test).length := fun hlt => hp (hiff.2 hlt)
      omega

end Search

/-! ### Readings -/

variable {log : CheckpointLog α} {point t : Timestamp} {value : α}

/-- The checkpoints of a log up to a point. -/
def upTo (log : CheckpointLog α) (point : Timestamp) : List (Checkpoint α) :=
  log.entries.filter fun c => decide (c.point ≤ point)

theorem Ordered.passes_first (h : log.Ordered) (point : Timestamp) :
    log.entries.Pairwise fun a b =>
      decide (b.point ≤ point) = true → decide (a.point ≤ point) = true := by
  refine h.imp fun {a b} hab hb => ?_
  have hb : b.point.toNat ≤ point.toNat := of_decide_eq_true hb
  have hab : a.point.toNat < b.point.toNat := hab
  exact decide_eq_true (show a.point.toNat ≤ point.toNat by omega)

/-- **An ordered log reads the last checkpoint up to a point.** -/
theorem Ordered.valueAt_eq (h : log.Ordered) (point : Timestamp) :
    log.valueAt point = ((log.upTo point).getLast?).map (·.value) := by
  have hpass := h.passes_first point
  have hprefix : log.upTo point <+: log.entries := by
    rw [upTo, ← takeWhile_eq_filter hpass]
    exact List.takeWhile_prefix _
  have hcount : partitionPoint (fun c => decide (c.point ≤ point)) log.entries
      = (log.upTo point).length := partitionPoint_eq hpass
  unfold valueAt
  rw [hcount]
  cases hn : (log.upTo point).length with
  | zero => simp [List.eq_nil_of_length_eq_zero hn]
  | succ i =>
    have hi : i < (log.upTo point).length := by omega
    have hi' : i < log.entries.length := Nat.lt_of_lt_of_le hi hprefix.length_le
    show log.entries[i]?.map _ = _
    rw [List.getLast?_eq_getElem?, hn, Nat.add_sub_cancel, List.getElem?_eq_getElem hi,
      List.getElem?_eq_getElem hi', hprefix.getElem hi]

/-- **Search and scan agree** on an ordered log. -/
theorem Ordered.valueAt_eq_valueAtLinear (h : log.Ordered) (point : Timestamp) :
    log.valueAt point = log.valueAtLinear point := by
  rw [h.valueAt_eq, upTo, ← takeWhile_eq_filter (h.passes_first point)]
  rfl

/-! ### Writes -/

/-- **The log after a write** that is not refused: the newest checkpoint is replaced if it
stands at the same point. -/
def put (log : CheckpointLog α) (point : Timestamp) (value : α) : CheckpointLog α :=
  match log.latest? with
  | none => ⟨[⟨point, value⟩]⟩
  | some last =>
    if point = last.point then ⟨log.entries.dropLast ++ [⟨point, value⟩]⟩
    else ⟨log.entries ++ [⟨point, value⟩]⟩

/-- No checkpoint of the log is newer than a point. -/
def NotAfter (log : CheckpointLog α) (t : Timestamp) : Prop :=
  ∀ c, log.latest? = some c → c.point ≤ t

theorem write_eq_put (h : log.NotAfter point) :
    log.write point value = .ok (log.put point value) := by
  unfold write put
  cases hl : log.latest? with
  | none => rfl
  | some last =>
    have hle : last.point.toNat ≤ point.toNat := h last hl
    have hnot : ¬ point < last.point := fun hlt => by
      have hlt : point.toNat < last.point.toNat := hlt
      omega
    simp only [if_neg hnot]
    split <;> rfl

/-- What is left of a log in front of a checkpoint that is written at its end. -/
theorem entries_put (log : CheckpointLog α) (point : Timestamp) (value : α) :
    ∃ front, (log.put point value).entries = front ++ [⟨point, value⟩] ∧
      ((log.entries = front ∧ ∀ c, log.latest? = some c → c.point ≠ point) ∨
        ∃ last, log.entries = front ++ [last] ∧ last.point = point) := by
  unfold put
  cases hl : log.latest? with
  | none =>
    have hnil : log.entries = [] := List.getLast?_eq_none_iff.1 hl
    exact ⟨[], rfl, Or.inl ⟨hnil, fun _ hc => by cases hc⟩⟩
  | some last =>
    by_cases hp : point = last.point
    · refine ⟨log.entries.dropLast, by simp [hp], Or.inr ⟨last, ?_, hp.symm⟩⟩
      obtain ⟨front, hf⟩ := List.getLast?_eq_some_iff.1 hl
      rw [hf, List.dropLast_concat]
    · refine ⟨log.entries, by simp [hp], Or.inl ⟨rfl, fun c hc => ?_⟩⟩
      cases hc
      exact fun e => hp e.symm

@[simp] theorem latest?_put (log : CheckpointLog α) (point : Timestamp) (value : α) :
    (log.put point value).latest? = some ⟨point, value⟩ := by
  obtain ⟨front, hput, -⟩ := log.entries_put point value
  rw [latest?, hput, List.getLast?_concat]

theorem notAfter_put (log : CheckpointLog α) (point : Timestamp) (value : α) :
    (log.put point value).NotAfter point := by
  intro c hc
  rw [latest?_put] at hc
  cases hc
  exact Nat.le_refl _

/-! ### Ordered logs -/

/-- **Points ascend and none is later than `t`.** -/
structure OrderedUpTo (log : CheckpointLog α) (t : Timestamp) : Prop where
  ordered : log.Ordered
  le : ∀ c ∈ log.entries, c.point ≤ t

namespace OrderedUpTo

theorem empty (t : Timestamp) : (CheckpointLog.empty : CheckpointLog α).OrderedUpTo t :=
  ⟨List.Pairwise.nil, fun _ hc => absurd hc List.not_mem_nil⟩

theorem mono (h : log.OrderedUpTo point) (hle : point ≤ t) : log.OrderedUpTo t :=
  ⟨h.ordered, fun c hc => Nat.le_trans (h.le c hc) hle⟩

/-- At a point that no checkpoint is later than, the newest value is read. -/
theorem valueAt_of_le (h : log.OrderedUpTo point) (hle : point ≤ t) :
    log.valueAt t = log.latest?.map fun c => c.value := by
  have hall : log.upTo t = log.entries :=
    List.filter_eq_self.2 fun c hc => decide_eq_true (Nat.le_trans (h.le c hc) hle)
  rw [h.ordered.valueAt_eq, hall]
  rfl

/-- The checkpoints in front of one that is written at the end are older than it. -/
theorem lt_of_front {front : List (Checkpoint α)} (h : log.OrderedUpTo point)
    (hfront : (log.entries = front ∧ ∀ c, log.latest? = some c → c.point ≠ point) ∨
      ∃ last, log.entries = front ++ [last] ∧ last.point = point) :
    ∀ c ∈ front, c.point < point := by
  intro c hc
  rcases hfront with ⟨e, hne⟩ | ⟨last, e, rfl⟩
  · -- nothing was replaced: the newest checkpoint is older, and so are those before it
    have hle : c.point.toNat ≤ point.toNat := h.le c (e ▸ hc)
    rcases List.eq_nil_or_concat front with rfl | ⟨init, last, hinit⟩
    · cases hc
    · obtain rfl : front = init ++ [last] := by rw [hinit, List.concat_eq_append]
      have hlast : last.point ≠ point := hne last (by rw [latest?, e, List.getLast?_concat])
      have hord := h.ordered
      unfold Ordered at hord
      rw [e, List.pairwise_append] at hord
      rcases List.mem_append.1 hc with hc | hc
      · have hlt : c.point.toNat < last.point.toNat := hord.2.2 c hc last List.mem_cons_self
        have hle : last.point.toNat ≤ point.toNat := h.le last (e ▸ List.mem_concat_self)
        exact show c.point.toNat < point.toNat by omega
      · obtain rfl : c = last := by simpa using hc
        have hne : c.point.toNat ≠ point.toNat := fun h => hlast (Word.ext h)
        exact show c.point.toNat < point.toNat by omega
  · -- the newest checkpoint stood at this point and was replaced
    have hord := h.ordered
    unfold Ordered at hord
    rw [e, List.pairwise_append] at hord
    exact hord.2.2 c hc last List.mem_cons_self

theorem put (h : log.OrderedUpTo point) (value : α) : (log.put point value).OrderedUpTo point := by
  obtain ⟨front, hput, hfront⟩ := log.entries_put point value
  have hlt := h.lt_of_front hfront
  have hsub : front.Sublist log.entries := by
    rcases hfront with ⟨e, -⟩ | ⟨last, e, -⟩
    · exact e ▸ List.Sublist.refl _
    · rw [e]
      exact List.sublist_append_left _ _
  refine ⟨?_, fun c hc => ?_⟩
  · unfold Ordered
    rw [hput, List.pairwise_append]
    refine ⟨h.ordered.sublist hsub, List.pairwise_singleton _ _, fun c hc d hd => ?_⟩
    obtain rfl : d = ⟨point, value⟩ := by simpa using hd
    exact hlt c hc
  · rw [hput] at hc
    rcases List.mem_append.1 hc with hc | hc
    · exact h.le c (hsub.subset hc)
    · obtain rfl : c = ⟨point, value⟩ := by simpa using hc
      exact Nat.le_refl _

/-- **What a write does to every reading**: from its point on the new value is read, and
before it what was read before. -/
theorem valueAt_put (h : log.OrderedUpTo point) (value : α) (t : Timestamp) :
    (log.put point value).valueAt t = if point ≤ t then some value else log.valueAt t := by
  have hput := h.put value
  split
  · rename_i hle
    rw [hput.valueAt_of_le hle, latest?_put]
    rfl
  · rename_i hle
    -- up to an earlier point, only what stands in front of the new checkpoint counts
    obtain ⟨front, hentries, hfront⟩ := log.entries_put point value
    have hcut : (log.put point value).upTo t = front.filter fun c => decide (c.point ≤ t) := by
      rw [upTo, hentries, List.filter_append, List.filter_cons_of_neg (by simpa using hle)]
      simp
    have hcut' : log.upTo t = front.filter fun c => decide (c.point ≤ t) := by
      rcases hfront with ⟨e, -⟩ | ⟨last, e, rfl⟩
      · rw [upTo, e]
      · rw [upTo, e, List.filter_append, List.filter_cons_of_neg (by simpa using hle)]
        simp
    rw [hput.ordered.valueAt_eq, h.ordered.valueAt_eq, hcut, hcut']

end OrderedUpTo

end StakeGovernance.CheckpointLog
