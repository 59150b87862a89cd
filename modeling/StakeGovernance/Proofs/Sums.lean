import Mathlib.Algebra.BigOperators.Ring.Finset
import Mathlib.Algebra.Order.BigOperators.Group.Finset
import Mathlib.Data.Fintype.BigOperators
import Mathlib.Data.Fintype.EquivFin
import StakeGovernance.Proofs.Maps
import StakeGovernance.Value.Address

/-!
# Sums over accounts and buckets

The books of the ledger are compared by sums over *all* accounts and *all* points of
time. Both are finite types, so such a sum needs no list of who takes part: whoever has
nothing contributes zero. A sum over the entries of a map is the sum over all keys.

* `StakeGovernance.sum_add_of_eq_off` – what a sum becomes when **one term changes**;
* `StakeGovernance.OrderedMap.sum_entries` – the entries of a map **as a sum over all
  keys**.
-/

namespace StakeGovernance

/-! ### Finite types -/

instance {bits : Nat} : Finite (Word bits) := by
  refine Finite.of_injective
    (fun w : Word bits => (⟨w.toNat, w.toNat_lt⟩ : Fin (Word.size bits))) ?_
  intro a b h
  exact Word.ext (congrArg Fin.val h)

instance : Finite Address := by
  refine Finite.of_injective
    (fun (a : Address) (i : Fin 20) => (a.bytes.get (i.cast a.length_bytes.symm)).toFin) ?_
  intro a b h
  refine Address.ext (List.ext_getElem (by rw [a.length_bytes, b.length_bytes]) fun i ha _ => ?_)
  have hi : i < 20 := by rw [← a.length_bytes]; exact ha
  exact UInt8.toFin_inj.1 (congrFun h ⟨i, hi⟩)

noncomputable instance {bits : Nat} : Fintype (Word bits) := Fintype.ofFinite _

noncomputable instance : Fintype Address := Fintype.ofFinite _

/-! ### One term changes -/

section OneTerm

variable {ι : Type} [Fintype ι] {f g : ι → ℕ} {i : ι}

/-- **Two sums that differ in one term** differ by what that term differs by. -/
theorem sum_add_of_eq_off (h : ∀ j, j ≠ i → f j = g j) : ∑ j, f j + g i = ∑ j, g j + f i := by
  classical
  have hoff : ∑ j ∈ Finset.univ.erase i, f j = ∑ j ∈ Finset.univ.erase i, g j :=
    Finset.sum_congr rfl fun j hj => h j (Finset.ne_of_mem_erase hj)
  rw [← Finset.add_sum_erase _ f (Finset.mem_univ i),
    ← Finset.add_sum_erase _ g (Finset.mem_univ i), hoff]
  omega

theorem le_sum (i : ι) : f i ≤ ∑ j, f j :=
  Finset.single_le_sum (fun _ _ => Nat.zero_le _) (Finset.mem_univ i)

end OneTerm

/-! ### Lists -/

section Lists

variable {α β : Type}

theorem sum_map_flatMap (items : List α) (f : α → List β) (g : β → ℕ) :
    ((items.flatMap f).map g).sum = (items.map fun x => ((f x).map g).sum).sum := by
  induction items with
  | nil => rfl
  | cons x xs ih => simp [ih]

/-- Items that are left out of a list count nothing in its sum. -/
theorem sum_map_filterMap_filter (items : List α) (p : α → Bool) (f : α → Option β) (g : β → ℕ) :
    (((items.filter p).filterMap f).map g).sum
      = (items.map fun x => if p x then ((f x).map g).getD 0 else 0).sum := by
  induction items with
  | nil => rfl
  | cons x xs ih =>
    rw [List.map_cons, List.sum_cons, ← ih]
    cases hp : p x with
    | false => simp [hp]
    | true => cases hf : f x <;> simp [hp, hf]

end Lists

/-! ### The entries of a map -/

namespace OrderedMap

variable {κ ν : Type} [Ord κ] [Std.TransOrd κ] [Std.LawfulEqOrd κ]

/-- A sum over the keys of a map is a sum over all keys, if those without a value count
nothing. -/
theorem sum_keys [Fintype κ] (m : OrderedMap κ ν) {f : κ → ℕ} (h : ∀ k, m.get? k = none → f k = 0) :
    (m.keys.map f).sum = ∑ k, f k := by
  classical
  -- the keys are distinct, so the list is a sum over the finite set of them
  rw [← List.sum_toFinset _ m.nodup_keys]
  refine Finset.sum_subset (Finset.subset_univ _) fun k _ hk => h k ?_
  rw [List.mem_toFinset, mem_keys] at hk
  exact Option.not_isSome_iff_eq_none.1 hk

/-- **The sum over the entries of a map** is the sum over all keys, where a key without a
value counts nothing. -/
theorem sum_entries [Fintype κ] (m : OrderedMap κ ν) (f : κ → ν → ℕ) :
    (m.entries.map fun e => f e.1 e.2).sum = ∑ k, ((m.get? k).map (f k)).getD 0 := by
  have hentry : ∀ e ∈ m.entries, f e.1 e.2 = ((m.get? e.1).map (f e.1)).getD 0 := by
    intro e he
    rw [get?_eq_some_iff.2 he]
    rfl
  have hkeys : (m.entries.map fun e => f e.1 e.2).sum
      = (m.keys.map fun k => ((m.get? k).map (f k)).getD 0).sum := by
    unfold keys
    rw [List.map_map]
    exact congrArg List.sum (List.map_congr_left hentry)
  rw [hkeys, m.sum_keys fun k hk => by rw [hk]; rfl]

end OrderedMap

end StakeGovernance
