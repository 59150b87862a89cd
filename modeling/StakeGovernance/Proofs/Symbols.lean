import Mathlib.Data.Nat.Bitwise
import Mathlib.Tactic.Ring
import StakeGovernance.Text.Bech32

/-!
# Bytes in symbols of five bits

Bytes are cut into bits, the bits are put together in groups of five, and the last group is filled
up with zeros. What the zeros fill is less than a group, so that they never make a byte: cut into
groups of eight again, the bits give the bytes that there were, however many.

* `StakeGovernance.pieces_append`, `StakeGovernance.pieces_of_short` – the **pieces of a row**,
  the first one apart;
* `StakeGovernance.Bech32.ofBits_bitsOf`, `StakeGovernance.Bech32.bitsOf_ofBits` – **numbers and
  their bits**;
* `StakeGovernance.Bech32.exists_bits_regroup` – the **bits of the symbols** are those of the bytes,
  and zeros;
* `StakeGovernance.Bech32.ungroup_eq_iff` – which **symbols are read as some bytes**;
* `StakeGovernance.Bech32.ungroup_regroup` – symbols are read as the **bytes that they were made
  of**.
-/

namespace StakeGovernance

/-! ### Pieces -/

section Pieces

variable {α : Type} {size : Nat}

/-- Fuel for all elements of a row is as good as any more. -/
theorem piecesFrom_eq (pos : 0 < size) {fuel : Nat} {xs : List α} (enough : xs.length ≤ fuel) :
    piecesFrom size fuel xs = pieces size xs := by
  unfold pieces
  induction fuel using Nat.strongRecOn generalizing xs with
  | ind fuel ih =>
    cases xs with
    | nil => cases fuel <;> rfl
    | cons x rest =>
      cases fuel with
      | zero => exact absurd enough (Nat.not_succ_le_zero _)
      | succ fuel =>
        have hfuel : rest.length ≤ fuel := Nat.le_of_succ_le_succ enough
        have hdrop : ((x :: rest).drop size).length ≤ rest.length := by
          rw [List.length_drop, List.length_cons]
          omega
        rw [List.length_cons, piecesFrom, piecesFrom, ih fuel (Nat.lt_succ_self _) (by omega)]
        rcases Nat.lt_or_ge rest.length (fuel + 1) with hlt | hge
        · exact congrArg _ (ih rest.length hlt hdrop).symm
        · omega

/-- **The first piece** of a row that begins with a full one. -/
theorem pieces_append (pos : 0 < size) {row : List α} (full : row.length = size) (xs : List α) :
    pieces size (row ++ xs) = row :: pieces size xs := by
  cases row with
  | nil => exact absurd full (Nat.ne_of_lt pos)
  | cons x rest =>
    have hlength : xs.length ≤ (rest ++ xs).length := by
      rw [List.length_append]
      exact Nat.le_add_left _ _
    rw [List.cons_append, pieces, List.length_cons, piecesFrom, ← List.cons_append,
      List.take_left' full, List.drop_left' full, piecesFrom_eq pos hlength]

/-- A row that is not longer than a piece **is its only piece**. -/
theorem pieces_of_short {xs : List α} (hne : xs ≠ []) (short : xs.length ≤ size) :
    pieces size xs = [xs] := by
  cases xs with
  | nil => exact absurd rfl hne
  | cons x rest =>
    show (x :: rest).take size :: piecesFrom size _ ((x :: rest).drop size) = _
    rw [List.take_of_length_le short, List.drop_of_length_le short]
    cases rest.length <;> rfl

/-- **A row of full pieces** with some more behind them. -/
theorem pieces_flatten_append (pos : 0 < size) {rows : List (List α)}
    (full : ∀ row ∈ rows, row.length = size) (xs : List α) :
    pieces size (rows.flatten ++ xs) = rows ++ pieces size xs := by
  induction rows with
  | nil => rfl
  | cons row rows ih =>
    rw [List.flatten_cons, List.append_assoc, pieces_append pos (full row List.mem_cons_self),
      ih fun r hr => full r (List.mem_cons_of_mem _ hr), List.cons_append]

/-- **Pieces that are filled up** to their full size make the row, with less than a piece behind
it. -/
theorem exists_flatten_filled (pos : 0 < size) (z : α) (xs : List α) :
    ∃ missing < size, (∀ row ∈ pieces size xs, row.length ≤ size) ∧
      ((pieces size xs).map fun row => row ++ List.replicate (size - row.length) z).flatten
        = xs ++ List.replicate missing z := by
  induction h : xs.length using Nat.strongRecOn generalizing xs with
  | ind n ih =>
    by_cases hshort : xs.length ≤ size
    · by_cases hne : xs = []
      · subst hne
        exact ⟨0, pos, fun _ hrow => absurd hrow List.not_mem_nil, rfl⟩
      · have hpos : 0 < xs.length := List.length_pos_iff.2 hne
        rw [pieces_of_short hne hshort]
        refine ⟨size - xs.length, by omega, fun row hrow => ?_, List.append_nil _⟩
        rwa [List.mem_singleton.1 hrow]
    · -- the first piece is full
      have hfull : (xs.take size).length = size := by
        rw [List.length_take]
        omega
      have hless : (xs.drop size).length < n := by
        rw [List.length_drop]
        omega
      obtain ⟨missing, hmissing, hrows, hflat⟩ := ih _ hless (xs.drop size) rfl
      have hcut : pieces size xs = xs.take size :: pieces size (xs.drop size) := by
        conv => lhs; rw [← List.take_append_drop size xs]
        exact pieces_append pos hfull _
      refine ⟨missing, hmissing, fun row hrow => ?_, ?_⟩
      · rw [hcut] at hrow
        rcases List.mem_cons.1 hrow with rfl | hrow
        · exact Nat.le_of_eq hfull
        · exact hrows row hrow
      · rw [hcut, List.map_cons, List.flatten_cons, hflat, hfull, Nat.sub_self,
          List.replicate_zero, List.append_nil, ← List.append_assoc, List.take_append_drop]

/-- **Full pieces** and less than a piece behind them make any row. -/
theorem exists_full_pieces (pos : 0 < size) (xs : List α) :
    ∃ (rows : List (List α)) (rest : List α),
    (∀ row ∈ rows, row.length = size) ∧ rest.length < size ∧ xs = rows.flatten ++ rest := by
  induction h : xs.length using Nat.strongRecOn generalizing xs with
  | ind n ih =>
    by_cases hshort : xs.length < size
    · exact ⟨[], xs, fun _ hrow => absurd hrow List.not_mem_nil, hshort, rfl⟩
    · -- the first piece is full
      have hfull : (xs.take size).length = size := by
        rw [List.length_take]
        omega
      have hless : (xs.drop size).length < n := by
        rw [List.length_drop]
        omega
      obtain ⟨rows, rest, hrows, hrest, hdrop⟩ := ih _ hless (xs.drop size) rfl
      refine ⟨xs.take size :: rows, rest, List.forall_mem_cons.2 ⟨hfull, hrows⟩, hrest, ?_⟩
      rw [List.flatten_cons, List.append_assoc, ← hdrop, List.take_append_drop]

end Pieces

namespace Bech32

/-! ### Numbers and their bits -/

@[simp] theorem length_bitsOf (width n : Nat) : (bitsOf width n).length = width := by
  induction width with
  | zero => rfl
  | succ width ih => rw [bitsOf, List.length_cons, ih]

theorem foldl_bits (n : Nat) (bits : List Bool) :
    bits.foldl (fun n b => 2 * n + b.toNat) n = 2 ^ bits.length * n + ofBits bits := by
  unfold ofBits
  induction bits generalizing n with
  | nil => simp
  | cons b rest ih =>
    rw [List.foldl_cons, List.foldl_cons, ih, ih (2 * 0 + b.toNat), List.length_cons, Nat.pow_succ]
    ring

/-- **The highest bit** of a number counts for what the others can count. -/
theorem ofBits_cons (b : Bool) (bits : List Bool) :
    ofBits (b :: bits) = 2 ^ bits.length * b.toNat + ofBits bits := by
  rw [ofBits, List.foldl_cons, foldl_bits, Nat.mul_zero, Nat.zero_add]

theorem ofBits_lt (bits : List Bool) : ofBits bits < 2 ^ bits.length := by
  induction bits with
  | nil => exact Nat.one_pos
  | cons b rest ih =>
    have hb : b.toNat ≤ 1 := b.toNat_le
    have hmul := Nat.mul_le_mul_left (2 ^ rest.length) hb
    rw [ofBits_cons, List.length_cons, Nat.pow_succ]
    omega

/-- Bits that are higher than all of a width do not count there. -/
theorem bitsOf_mul_add (width k m n : Nat) (h : width ≤ k) :
    bitsOf width (2 ^ k * m + n % 2 ^ k) = bitsOf width n := by
  induction width with
  | zero => rfl
  | succ width ih =>
    have hlt : n % 2 ^ k < 2 ^ k := Nat.mod_lt _ (Nat.two_pow_pos k)
    rw [bitsOf, bitsOf, ih (by omega), Nat.testBit_two_pow_mul_add _ hlt, if_pos (by omega),
      Nat.testBit_mod_two_pow]
    simp [show width < k by omega]

/-- **The bits of the number of some bits** are these bits. -/
theorem bitsOf_ofBits (bits : List Bool) : bitsOf bits.length (ofBits bits) = bits := by
  induction bits with
  | nil => rfl
  | cons b rest ih =>
    have hlt := ofBits_lt rest
    have hlow := bitsOf_mul_add rest.length rest.length b.toNat (ofBits rest) (Nat.le_refl _)
    rw [Nat.mod_eq_of_lt hlt] at hlow
    rw [List.length_cons, bitsOf, ofBits_cons, hlow, ih, Nat.testBit_two_pow_mul_add _ hlt,
      if_neg (Nat.lt_irrefl _), Nat.sub_self]
    cases b <;> rfl

/-- **The number of the bits of a number** is this number. -/
theorem ofBits_bitsOf {width n : Nat} (h : n < 2 ^ width) : ofBits (bitsOf width n) = n := by
  induction width generalizing n with
  | zero =>
    have hzero : n = 0 := by
      rw [Nat.pow_zero] at h
      omega
    rw [hzero]
    rfl
  | succ width ih =>
    have hdiv := Nat.div_add_mod n (2 ^ width)
    have hmod : n % 2 ^ width < 2 ^ width := Nat.mod_lt _ (Nat.two_pow_pos width)
    have hlow : bitsOf width n = bitsOf width (n % 2 ^ width) := by
      have h := bitsOf_mul_add width width 0 n (Nat.le_refl _)
      rw [Nat.mul_zero, Nat.zero_add] at h
      exact h.symm
    have hhigh : (n.testBit width).toNat = n / 2 ^ width := by
      have hless : n / 2 ^ width < 2 := Nat.div_lt_of_lt_mul (Nat.pow_succ 2 width ▸ h)
      rw [Nat.toNat_testBit, Nat.mod_eq_of_lt hless]
    rw [bitsOf, ofBits_cons, length_bitsOf, hlow, ih hmod, hhigh, hdiv]

/-! ### Regrouping -/

theorem length_bits_symbols (symbols : List Symbol) :
    (symbols.flatMap fun s => bitsOf 5 s.val).length = 5 * symbols.length := by
  simp [List.length_flatMap, List.map_const', Nat.mul_comm]

theorem length_bits_bytes (bs : Bytes) :
    (bs.flatMap fun b => bitsOf 8 b.toNat).length = 8 * bs.length := by
  simp [List.length_flatMap, List.map_const', Nat.mul_comm]

/-- **The bits of the symbols of some bytes** are those of the bytes, and zeros that do not make a
symbol. -/
theorem exists_bits_regroup (bs : Bytes) : ∃ missing < 5,
    (regroup bs).flatMap (fun s => bitsOf 5 s.val)
      = bs.flatMap (fun b => bitsOf 8 b.toNat) ++ List.replicate missing false := by
  obtain ⟨missing, hmissing, hrows, hflat⟩ :=
    exists_flatten_filled (show 0 < 5 by decide) false (bs.flatMap fun b => bitsOf 8 b.toNat)
  refine ⟨missing, hmissing, ?_⟩
  unfold regroup
  rw [List.flatMap_map, ← hflat, List.flatMap_def]
  refine congrArg List.flatten (List.map_congr_left fun row hrow => ?_)
  have hlength : (row ++ List.replicate (5 - row.length) false).length = 5 := by
    have := hrows row hrow
    rw [List.length_append, List.length_replicate]
    omega
  have hlt := ofBits_lt (row ++ List.replicate (5 - row.length) false)
  have hbits := bitsOf_ofBits (row ++ List.replicate (5 - row.length) false)
  rw [hlength] at hlt hbits
  show bitsOf 5 (ofBits _ % 32) = _
  rw [Nat.mod_eq_of_lt (show _ < 32 from hlt), hbits]

/-- What is left over makes no byte. -/
theorem filter_pieces_of_short {rest : List Bool} (short : rest.length < 8) :
    (pieces 8 rest).filter (fun row => row.length = 8) = [] := by
  rcases eq_or_ne rest [] with rfl | hne
  · rfl
  · rw [pieces_of_short hne (Nat.le_of_lt short)]
    simp [Nat.ne_of_lt short]

/-- The bits of some bytes, with less than a byte behind them, are **read as these bytes**. -/
theorem ungroup_of_bits {symbols : List Symbol} {bs : Bytes} {rest : List Bool}
    (short : rest.length < 8) (hbits : symbols.flatMap (fun s => bitsOf 5 s.val)
      = bs.flatMap (fun b => bitsOf 8 b.toNat) ++ rest) : ungroup symbols = bs := by
  have hfull : ∀ row ∈ bs.map fun b => bitsOf 8 b.toNat, row.length = 8 := by
    intro row hrow
    obtain ⟨b, -, rfl⟩ := List.mem_map.1 hrow
    exact length_bitsOf 8 _
  unfold ungroup
  rw [hbits, List.flatMap_def, pieces_flatten_append (by decide) hfull, List.filter_append,
    filter_pieces_of_short short, List.append_nil,
    List.filter_eq_self.2 fun row hrow => decide_eq_true (hfull row hrow), List.map_map]
  refine (List.map_congr_left fun b _ => ?_).trans (List.map_id bs)
  have hb : b.toNat < 2 ^ 8 := b.toNat_lt
  show UInt8.ofNat (ofBits (bitsOf 8 b.toNat)) = b
  rw [ofBits_bitsOf hb, UInt8.ofNat_toNat]

/-- **Symbols are read as the bytes that they were made of.** -/
theorem ungroup_regroup (bs : Bytes) : ungroup (regroup bs) = bs := by
  obtain ⟨missing, hmissing, hbits⟩ := exists_bits_regroup bs
  refine ungroup_of_bits ?_ hbits
  rw [List.length_replicate]
  omega

/-- **The bits of any symbols** are those of the bytes that they are read as, with less than a byte
behind them. -/
theorem exists_bits_ungroup (symbols : List Symbol) : ∃ rest : List Bool, rest.length < 8 ∧
    symbols.flatMap (fun s => bitsOf 5 s.val)
      = (ungroup symbols).flatMap (fun b => bitsOf 8 b.toNat) ++ rest := by
  obtain ⟨rows, rest, hfull, short, hbits⟩ := exists_full_pieces (show 0 < 8 by decide)
    (symbols.flatMap fun s => bitsOf 5 s.val)
  have hrows : (rows.map fun row => UInt8.ofNat (ofBits row)).flatMap (fun b => bitsOf 8 b.toNat)
      = rows.flatten := by
    rw [List.flatMap_map, List.flatMap_def]
    refine congrArg List.flatten ((List.map_congr_left fun row hrow => ?_).trans (List.map_id rows))
    have hlength := hfull row hrow
    have hlt := ofBits_lt row
    have hrow := bitsOf_ofBits row
    rw [hlength] at hlt hrow
    rw [UInt8.toNat_ofNat', Nat.mod_eq_of_lt hlt, hrow]
    rfl
  refine ⟨rest, short, ?_⟩
  rw [ungroup_of_bits short (hbits.trans (congrArg (· ++ rest) hrows.symm)), hrows, hbits]

/-- **The bits of symbols** tell them apart, also from what follows them. -/
theorem eq_append_of_bits {symbols start : List Symbol} {rest : List Bool}
    (hbits : symbols.flatMap (fun s => bitsOf 5 s.val)
      = start.flatMap (fun s => bitsOf 5 s.val) ++ rest) : ∃ more, symbols = start ++ more := by
  have hfull : ∀ (row : List Symbol), ∀ bits ∈ row.map fun s => bitsOf 5 s.val,
      bits.length = 5 := by
    intro row bits hmem
    obtain ⟨s, -, rfl⟩ := List.mem_map.1 hmem
    exact length_bitsOf 5 _
  have hinjective : ∀ s t : Symbol, bitsOf 5 s.val = bitsOf 5 t.val → s = t := fun s t h => by
    have hs : s.val < 2 ^ 5 := s.isLt
    have ht : t.val < 2 ^ 5 := t.isLt
    have h := congrArg ofBits h
    rw [ofBits_bitsOf hs, ofBits_bitsOf ht] at h
    exact Fin.ext h
  have hpieces := congrArg (pieces 5) hbits
  rw [List.flatMap_def, List.flatMap_def, pieces_flatten (by decide) (hfull symbols),
    pieces_flatten_append (by decide) (hfull start)] at hpieces
  obtain ⟨front, more, rfl, hfront, -⟩ := List.map_eq_append_iff.1 hpieces
  exact ⟨more, congrArg (· ++ more) ((List.map_inj_right hinjective).1 hfront)⟩

/-- **What is read as some bytes**, when these fill up their last symbol: their own symbols, and
behind them at most one more, of any value. -/
theorem ungroup_eq_iff {symbols : List Symbol} {bs : Bytes} (hfills : 5 ∣ bs.length) :
    ungroup symbols = bs ↔ ∃ spare, spare.length ≤ 1 ∧ symbols = regroup bs ++ spare := by
  obtain ⟨missing, hmissing, hown⟩ := exists_bits_regroup bs
  -- no zeros fill up the last symbol
  have hcount := congrArg List.length hown
  rw [length_bits_symbols, List.length_append, length_bits_bytes, List.length_replicate] at hcount
  obtain rfl : missing = 0 := by omega
  rw [List.replicate_zero, List.append_nil] at hown
  constructor
  · rintro rfl
    obtain ⟨rest, short, hbits⟩ := exists_bits_ungroup symbols
    rw [← hown] at hbits
    obtain ⟨spare, hspare⟩ := eq_append_of_bits hbits
    refine ⟨spare, ?_, hspare⟩
    have hlength := congrArg List.length hbits
    rw [List.length_append, length_bits_symbols, length_bits_symbols, congrArg List.length hspare,
      List.length_append] at hlength
    omega
  · rintro ⟨spare, hspare, rfl⟩
    have hshort : (spare.flatMap fun s => bitsOf 5 s.val).length < 8 := by
      rw [length_bits_symbols]
      omega
    exact ungroup_of_bits hshort (by rw [List.flatMap_append, hown])

end Bech32

end StakeGovernance
