/-!
# Cutting a list into pieces

* `StakeGovernance.pieces` – the consecutive pieces of a given size, of which only
  the last may be shorter;
* `StakeGovernance.flatten_pieces` – nothing is lost or moved;
* `StakeGovernance.pieces_flatten` – a row of full pieces is cut back into itself.
-/

namespace StakeGovernance

variable {α : Type}

/-- At most `fuel` pieces of `size` elements from the front of a list. -/
def piecesFrom (size : Nat) : Nat → List α → List (List α)
  | 0, _ => []
  | _ + 1, [] => []
  | fuel + 1, x :: xs => (x :: xs).take size :: piecesFrom size fuel ((x :: xs).drop size)

/-- **The pieces** of `size` elements of a list, the last one possibly shorter; the
empty list has no piece. -/
def pieces (size : Nat) (xs : List α) : List (List α) := piecesFrom size xs.length xs

theorem flatten_piecesFrom {size : Nat} (pos : 0 < size) {fuel : Nat} {xs : List α}
    (enough : xs.length ≤ fuel) : (piecesFrom size fuel xs).flatten = xs := by
  induction fuel generalizing xs with
  | zero => simp at enough; simp [piecesFrom, enough]
  | succ fuel ih =>
    cases xs with
    | nil => rfl
    | cons x xs =>
      have h : ((x :: xs).drop size).length ≤ fuel := by
        simp only [List.length_drop, List.length_cons] at *
        omega
      simp only [piecesFrom, List.flatten_cons, ih h, List.take_append_drop]

theorem flatten_pieces {size : Nat} (pos : 0 < size) (xs : List α) :
    (pieces size xs).flatten = xs := flatten_piecesFrom pos (Nat.le_refl _)

theorem piecesFrom_flatten {size : Nat} (pos : 0 < size) {rows : List (List α)}
    (full : ∀ row ∈ rows, row.length = size) {fuel : Nat} (enough : rows.flatten.length ≤ fuel) :
    piecesFrom size fuel rows.flatten = rows := by
  induction rows generalizing fuel with
  | nil => cases fuel <;> rfl
  | cons row rows ih =>
    have hrow : row.length = size := full row List.mem_cons_self
    cases row with
    | nil => simp at hrow; omega
    | cons x xs =>
      cases fuel with
      | zero => simp at enough
      | succ fuel =>
        have hrest : rows.flatten.length ≤ fuel := by
          simp only [List.flatten_cons, List.length_append, List.length_cons] at enough
          omega
        have hflat : (((x :: xs) :: rows).flatten : List α) = x :: (xs ++ rows.flatten) := rfl
        rw [hflat, piecesFrom, ← List.cons_append]
        rw [List.take_left' hrow, List.drop_left' hrow,
          ih (fun r hr => full r (List.mem_cons_of_mem _ hr)) hrest]

theorem pieces_flatten {size : Nat} (pos : 0 < size) {rows : List (List α)}
    (full : ∀ row ∈ rows, row.length = size) : pieces size rows.flatten = rows :=
  piecesFrom_flatten pos full (Nat.le_refl _)

end StakeGovernance
