import StakeGovernance.OrderedMap

/-!
# Lookups in ordered maps

Where the order of the keys decides equality, what an update does to a lookup is said
by comparing keys for equality, and updates at different keys do not disturb each other.

* `StakeGovernance.OrderedMap.get?_insert_eq`, `StakeGovernance.OrderedMap.get?_filter` –
  **lookups** after an update;
* `StakeGovernance.OrderedMap.foldl_view` – a **row of updates**, one for each entry of
  a map.
-/

namespace StakeGovernance.OrderedMap

variable {κ ν : Type} [Ord κ] [Std.TransOrd κ] [Std.LawfulEqOrd κ] [DecidableEq κ]

omit [Std.TransOrd κ] [DecidableEq κ] in
theorem compare_eq_iff {j k : κ} : compare j k = .eq ↔ j = k :=
  Std.LawfulEqCmp.compare_eq_iff_eq

theorem get?_insert_eq (m : OrderedMap κ ν) (k j : κ) (v : ν) :
    (m.insert k v).get? j = if j = k then some v else m.get? j := by
  rw [get?_insert]
  by_cases h : j = k
  · rw [if_pos h, if_pos (compare_eq_iff.2 h)]
  · rw [if_neg h, if_neg fun e => h (compare_eq_iff.1 e)]

theorem getD_insert_eq (m : OrderedMap κ ν) (k j : κ) (v d : ν) :
    (m.insert k v).getD j d = if j = k then v else m.getD j d := by
  unfold getD
  rw [get?_insert_eq]
  split <;> rfl

theorem get?_erase_eq (m : OrderedMap κ ν) (k j : κ) :
    (m.erase k).get? j = if j = k then none else m.get? j := by
  rw [get?_erase]
  by_cases h : j = k
  · rw [if_pos h, if_pos (compare_eq_iff.2 h)]
  · rw [if_neg h, if_neg fun e => h (compare_eq_iff.1 e)]

omit [DecidableEq κ] in
theorem get?_filter (m : OrderedMap κ ν) (p : κ → ν → Bool) (k : κ) :
    (m.filter p).get? k = (m.get? k).filter (p k) := by
  refine Option.ext fun v => ?_
  rw [get?_eq_some_iff, Option.filter_eq_some_iff, get?_eq_some_iff]
  exact List.mem_filter

omit [DecidableEq κ] in
theorem mem_keys {m : OrderedMap κ ν} {k : κ} : k ∈ m.keys ↔ m.contains k = true := by
  unfold contains keys
  rw [List.mem_map, Option.isSome_iff_exists]
  constructor
  · rintro ⟨⟨_, v⟩, he, rfl⟩
    exact ⟨v, get?_eq_some_iff.2 he⟩
  · rintro ⟨v, hv⟩
    exact ⟨(k, v), get?_eq_some_iff.1 hv, rfl⟩

omit [Std.TransOrd κ] [DecidableEq κ] in
theorem nodup_keys (m : OrderedMap κ ν) : m.keys.Nodup := by
  refine List.pairwise_map.2 (m.ascending.imp fun {a b} hab e => ?_)
  rw [e, Std.ReflOrd.compare_self] at hab
  cases hab

/-- Values under different keys can be set in either order. -/
theorem insert_comm {j k : κ} (h : j ≠ k) (m : OrderedMap κ ν) (v w : ν) :
    (m.insert j v).insert k w = (m.insert k w).insert j v := by
  refine ext_get? fun i => ?_
  simp only [get?_insert_eq]
  by_cases hj : i = j
  · rw [if_pos hj, if_pos hj, if_neg (hj ▸ h)]
  · rw [if_neg hj, if_neg hj]

/-- Of two values under one key the later one stays. -/
theorem insert_insert (m : OrderedMap κ ν) (k : κ) (v w : ν) :
    (m.insert k v).insert k w = m.insert k w := by
  refine ext_get? fun i => ?_
  simp only [get?_insert_eq]
  by_cases hi : i = k
  · rw [if_pos hi, if_pos hi]
  · rw [if_neg hi, if_neg hi, if_neg hi]

/-! ### A row of updates -/

variable {σ α : Type}

/-- **A row of updates**, one for each entry of a map: what is seen at a key has been
updated by the entry of that key, if there is one, and is as before otherwise. The keys of
a map are distinct, so that no update meets what another one has left. -/
theorem foldl_view (view : σ → κ → α) (write : κ → ν → σ → σ) (put : ν → α → α)
    (h : ∀ s k v j, view (write k v s) j = if j = k then put v (view s k) else view s j)
    (m : OrderedMap κ ν) (s : σ) (j : κ) :
    view (m.entries.foldl (fun s e => write e.1 e.2 s) s) j
      = match m.get? j with
        | some v => put v (view s j)
        | none => view s j := by
  obtain ⟨entries, hasc⟩ := m
  show view (entries.foldl _ s) j = match lookupEntry j entries with
    | some v => put v (view s j)
    | none => view s j
  induction entries generalizing s with
  | nil => rfl
  | cons e rest ih =>
    obtain ⟨k, v⟩ := e
    obtain ⟨hk, hrest⟩ := List.pairwise_cons.1 hasc
    rw [List.foldl_cons, ih _ hrest, h]
    by_cases hjk : j = k
    · subst hjk
      -- the key of the first entry does not occur again
      rw [lookupEntry_eq_none hk, if_pos rfl]
      simp [lookupEntry, Std.ReflOrd.compare_self]
    · have hcmp : compare j k ≠ .eq := fun e => hjk (compare_eq_iff.1 e)
      rw [if_neg hjk]
      cases hc : compare j k <;> simp_all [lookupEntry]

end StakeGovernance.OrderedMap
