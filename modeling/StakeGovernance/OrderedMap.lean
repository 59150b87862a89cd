/-!
# Ordered maps

A finite map as the list of its entries in strictly ascending order of their keys. The
order is part of the type, so two maps with the same lookups are the same map, and a
map has one written form.

* `StakeGovernance.OrderedMap` – an **ordered map**;
* `StakeGovernance.OrderedMap.get?`, `StakeGovernance.OrderedMap.insert`,
  `StakeGovernance.OrderedMap.erase` – lookup, update and removal;
* `StakeGovernance.OrderedMap.get?_insert`, `StakeGovernance.OrderedMap.get?_erase` –
  what they do to the lookups;
* `StakeGovernance.OrderedMap.ext_get?` – a map is determined by its lookups.
-/

namespace StakeGovernance

/-- Entries in strictly ascending order of their keys. -/
def Ascending {κ ν : Type} [Ord κ] (entries : List (κ × ν)) : Prop :=
  entries.Pairwise fun a b => compare a.1 b.1 = .lt

/-- **An ordered map** from `κ` to `ν`. -/
structure OrderedMap (κ ν : Type) [Ord κ] where
  /-- The entries, ascending. -/
  entries : List (κ × ν)
  /-- The order of the entries. -/
  ascending : Ascending entries

namespace OrderedMap

variable {κ ν : Type} [Ord κ]

theorem ext {m n : OrderedMap κ ν} (h : m.entries = n.entries) : m = n := by
  cases m; cases n; cases h; rfl

instance [DecidableEq κ] [DecidableEq ν] : DecidableEq (OrderedMap κ ν) := fun m n =>
  if h : m.entries = n.entries then isTrue (ext h) else isFalse fun e => h (congrArg entries e)

/-! ### Operations on the list of entries -/

/-- The value under a key. -/
def lookupEntry (k : κ) : List (κ × ν) → Option ν
  | [] => none
  | (l, v) :: rest =>
    match compare k l with
    | .eq => some v
    | _ => lookupEntry k rest

/-- The entries with the value under a key set. -/
def insertEntry (k : κ) (v : ν) : List (κ × ν) → List (κ × ν)
  | [] => [(k, v)]
  | (l, w) :: rest =>
    match compare k l with
    | .lt => (k, v) :: (l, w) :: rest
    | .eq => (k, v) :: rest
    | .gt => (l, w) :: insertEntry k v rest

/-- The entries without a key. -/
def eraseEntry (k : κ) (entries : List (κ × ν)) : List (κ × ν) :=
  entries.filter fun e => compare k e.1 != .eq

theorem mem_insertEntry {k : κ} {v : ν} {e : κ × ν} {entries : List (κ × ν)}
    (h : e ∈ insertEntry k v entries) : e = (k, v) ∨ e ∈ entries := by
  induction entries with
  | nil => simpa [insertEntry] using h
  | cons d rest ih =>
    obtain ⟨l, w⟩ := d
    unfold insertEntry at h
    split at h
    · simpa using h
    · rcases List.mem_cons.1 h with h | h
      · exact .inl h
      · exact .inr (List.mem_cons_of_mem _ h)
    · rcases List.mem_cons.1 h with h | h
      · exact .inr (h ▸ List.mem_cons_self)
      · exact (ih h).imp id (List.mem_cons_of_mem _)

theorem ascending_insertEntry [Std.TransOrd κ] {k : κ} {v : ν} {entries : List (κ × ν)}
    (h : Ascending entries) : Ascending (insertEntry k v entries) := by
  induction entries with
  | nil => exact List.pairwise_singleton _ _
  | cons d rest ih =>
    obtain ⟨l, w⟩ := d
    obtain ⟨hl, hrest⟩ := List.pairwise_cons.1 h
    unfold insertEntry
    split
    · rename_i hk
      refine List.pairwise_cons.2 ⟨fun e he => ?_, h⟩
      rcases List.mem_cons.1 he with rfl | he
      · exact hk
      · exact Std.TransCmp.lt_trans hk (hl e he)
    · rename_i hk
      exact List.pairwise_cons.2 ⟨fun e he => Std.TransCmp.lt_of_eq_of_lt hk (hl e he), hrest⟩
    · rename_i hk
      refine List.pairwise_cons.2 ⟨fun e he => ?_, ih hrest⟩
      rcases mem_insertEntry he with rfl | he
      · exact Std.OrientedCmp.lt_of_gt hk
      · exact hl e he

theorem ascending_filter {p : κ × ν → Bool} {entries : List (κ × ν)} (h : Ascending entries) :
    Ascending (entries.filter p) := List.Pairwise.filter p h

/-! ### Maps -/

/-- The empty map. -/
def empty : OrderedMap κ ν := ⟨[], List.Pairwise.nil⟩

instance : EmptyCollection (OrderedMap κ ν) := ⟨empty⟩
instance : Inhabited (OrderedMap κ ν) := ⟨empty⟩

/-- **The value under a key**, if there is one. -/
def get? (m : OrderedMap κ ν) (k : κ) : Option ν := lookupEntry k m.entries

/-- The value under a key, or a default. -/
def getD (m : OrderedMap κ ν) (k : κ) (default : ν) : ν := (m.get? k).getD default

/-- Whether a key has a value. -/
def contains (m : OrderedMap κ ν) (k : κ) : Bool := (m.get? k).isSome

/-- **The map with the value under a key set.** -/
def insert [Std.TransOrd κ] (m : OrderedMap κ ν) (k : κ) (v : ν) : OrderedMap κ ν :=
  ⟨insertEntry k v m.entries, ascending_insertEntry m.ascending⟩

/-- **The map without a key.** -/
def erase (m : OrderedMap κ ν) (k : κ) : OrderedMap κ ν :=
  ⟨eraseEntry k m.entries, ascending_filter m.ascending⟩

/-- The map of the entries that a test passes. -/
def filter (m : OrderedMap κ ν) (p : κ → ν → Bool) : OrderedMap κ ν :=
  ⟨m.entries.filter fun e => p e.1 e.2, ascending_filter m.ascending⟩

/-- The map of a list of entries; the last value under a key counts. -/
def ofList [Std.TransOrd κ] (entries : List (κ × ν)) : OrderedMap κ ν :=
  entries.foldl (fun m e => m.insert e.1 e.2) empty

/-- The keys, ascending. -/
def keys (m : OrderedMap κ ν) : List κ := m.entries.map (·.1)

/-- The values, in the order of their keys. -/
def values (m : OrderedMap κ ν) : List ν := m.entries.map (·.2)

/-- The number of entries. -/
def size (m : OrderedMap κ ν) : Nat := m.entries.length

/-- Whether there is no entry. -/
def isEmpty (m : OrderedMap κ ν) : Bool := m.entries.isEmpty

/-! ### Lookups -/

@[simp] theorem get?_empty (k : κ) : (empty : OrderedMap κ ν).get? k = none := rfl

theorem lookupEntry_eq_none [Std.TransOrd κ] {k : κ} {entries : List (κ × ν)}
    (h : ∀ e ∈ entries, compare k e.1 = .lt) : lookupEntry k entries = none := by
  induction entries with
  | nil => rfl
  | cons d rest ih =>
    obtain ⟨l, w⟩ := d
    have hl : compare k l = .lt := h (l, w) List.mem_cons_self
    simp only [lookupEntry, hl]
    exact ih fun e he => h e (List.mem_cons_of_mem _ he)

theorem lookupEntry_insertEntry [Std.TransOrd κ] {k j : κ} {v : ν} {entries : List (κ × ν)} :
    lookupEntry j (insertEntry k v entries)
      = if compare j k = .eq then some v else lookupEntry j entries := by
  induction entries with
  | nil =>
    simp only [insertEntry, lookupEntry]
    split <;> simp_all
  | cons d rest ih =>
    obtain ⟨l, w⟩ := d
    -- one case for each place of the new key: in front, at the first key, or further back
    unfold insertEntry
    cases hkl : compare k l with
    | lt =>
      by_cases hjk : compare j k = .eq
      · simp [lookupEntry, hjk]
      · rw [if_neg hjk]
        cases h : compare j k <;> simp_all [lookupEntry]
    | eq =>
      by_cases hjk : compare j k = .eq
      · simp [lookupEntry, hjk]
      · have hjl : compare j l ≠ .eq := fun e =>
          hjk (Std.TransCmp.eq_trans e (Std.OrientedCmp.eq_symm hkl))
        rw [if_neg hjk]
        cases h : compare j k <;> cases h' : compare j l <;> simp_all [lookupEntry]
    | gt =>
      by_cases hjl : compare j l = .eq
      · have hjk : compare j k ≠ .eq := fun e => by
          have := Std.TransCmp.eq_trans (Std.OrientedCmp.eq_symm e) hjl
          simp [this] at hkl
        rw [if_neg hjk]
        simp [lookupEntry, hjl]
      · cases h : compare j l <;> simp_all [lookupEntry]

/-- Setting a value changes the lookup of its key alone. -/
theorem get?_insert [Std.TransOrd κ] (m : OrderedMap κ ν) (k j : κ) (v : ν) :
    (m.insert k v).get? j = if compare j k = .eq then some v else m.get? j :=
  lookupEntry_insertEntry

theorem lookupEntry_eraseEntry [Std.TransOrd κ] {k j : κ} {entries : List (κ × ν)} :
    lookupEntry j (eraseEntry k entries)
      = if compare j k = .eq then none else lookupEntry j entries := by
  induction entries with
  | nil => simp [eraseEntry, lookupEntry]
  | cons d rest ih =>
    obtain ⟨l, w⟩ := d
    unfold eraseEntry at ih ⊢
    by_cases hkl : compare k l = .eq
    · -- the first entry is removed
      rw [List.filter_cons_of_neg (by simp [hkl]), ih]
      by_cases hjk : compare j k = .eq
      · simp [hjk]
      · have hjl : compare j l ≠ .eq := fun e =>
          hjk (Std.TransCmp.eq_trans e (Std.OrientedCmp.eq_symm hkl))
        rw [if_neg hjk, if_neg hjk]
        cases h : compare j l <;> simp_all [lookupEntry]
    · rw [List.filter_cons_of_pos (by simpa using hkl)]
      by_cases hjl : compare j l = .eq
      · have hjk : compare j k ≠ .eq := fun e =>
          hkl (Std.TransCmp.eq_trans (Std.OrientedCmp.eq_symm e) hjl)
        simp [lookupEntry, hjl, hjk]
      · cases h : compare j l <;> simp_all [lookupEntry]

/-- Removing a key changes the lookup of that key alone. -/
theorem get?_erase [Std.TransOrd κ] (m : OrderedMap κ ν) (k j : κ) :
    (m.erase k).get? j = if compare j k = .eq then none else m.get? j :=
  lookupEntry_eraseEntry

/-! ### Maps and their lookups -/

theorem lookupEntry_eq_some_iff [Std.TransOrd κ] [Std.LawfulEqOrd κ] {k : κ} {v : ν}
    {entries : List (κ × ν)} (h : Ascending entries) :
    lookupEntry k entries = some v ↔ (k, v) ∈ entries := by
  induction entries with
  | nil => simp [lookupEntry]
  | cons d rest ih =>
    obtain ⟨l, w⟩ := d
    obtain ⟨hl, hrest⟩ := List.pairwise_cons.1 h
    unfold lookupEntry
    split
    · rename_i hk
      have hkl : k = l := Std.LawfulEqOrd.eq_of_compare hk
      subst hkl
      have hnot : (k, v) ∉ rest := fun he => by
        have := hl _ he
        simp [Std.ReflOrd.compare_self] at this
      simp only [List.mem_cons, Prod.mk.injEq, true_and, hnot, or_false, Option.some.injEq]
      exact eq_comm
    · rename_i hk
      have hkl : k ≠ l := fun e => hk (by rw [e]; exact Std.ReflOrd.compare_self)
      simp only [List.mem_cons, Prod.mk.injEq, hkl, false_and, false_or]
      exact ih hrest

theorem get?_eq_some_iff [Std.TransOrd κ] [Std.LawfulEqOrd κ] {m : OrderedMap κ ν} {k : κ} {v : ν} :
    m.get? k = some v ↔ (k, v) ∈ m.entries := lookupEntry_eq_some_iff m.ascending

/-- Two ascending lists with the same members are the same list. -/
theorem eq_of_mem_iff [Std.TransOrd κ] {xs ys : List (κ × ν)} (hx : Ascending xs)
    (hy : Ascending ys) (h : ∀ e, e ∈ xs ↔ e ∈ ys) : xs = ys := by
  induction xs generalizing ys with
  | nil =>
    cases ys with
    | nil => rfl
    | cons y ys => exact absurd ((h y).2 List.mem_cons_self) (by simp)
  | cons x xs ih =>
    cases ys with
    | nil => exact absurd ((h x).1 List.mem_cons_self) (by simp)
    | cons y ys =>
      obtain ⟨hx0, hxs⟩ := List.pairwise_cons.1 hx
      obtain ⟨hy0, hys⟩ := List.pairwise_cons.1 hy
      -- the first members are the least ones of the same list, hence equal
      have irrefl : ∀ e : κ × ν, compare e.1 e.1 ≠ .lt := fun e he => by
        simp [Std.ReflOrd.compare_self] at he
      have hxy : x = y := by
        rcases List.mem_cons.1 ((h x).1 List.mem_cons_self) with e | hxm
        · exact e
        · rcases List.mem_cons.1 ((h y).2 List.mem_cons_self) with e | hym
          · exact e.symm
          · exact absurd (Std.TransCmp.lt_trans (hx0 y hym) (hy0 x hxm)) (irrefl x)
      subst hxy
      refine congrArg _ (ih hxs hys fun e => ?_)
      constructor
      · intro he
        rcases List.mem_cons.1 ((h e).1 (List.mem_cons_of_mem _ he)) with rfl | hm
        · exact absurd (hx0 _ he) (irrefl _)
        · exact hm
      · intro he
        rcases List.mem_cons.1 ((h e).2 (List.mem_cons_of_mem _ he)) with rfl | hm
        · exact absurd (hy0 _ he) (irrefl _)
        · exact hm

/-- **A map is determined by its lookups.** -/
theorem ext_get? [Std.TransOrd κ] [Std.LawfulEqOrd κ] {m n : OrderedMap κ ν}
    (h : ∀ k, m.get? k = n.get? k) : m = n :=
  ext (eq_of_mem_iff m.ascending n.ascending fun ⟨k, v⟩ => by
    rw [← get?_eq_some_iff, ← get?_eq_some_iff, h k])

end OrderedMap

end StakeGovernance
