/-!
# Words: naturals of a fixed width

Timestamps, amounts, voting power, basis points and identifiers are all natural
numbers with a fixed upper limit. A word carries the limit in its type, so that
every value that can be written down is one that every other part of the program
can store, print and read back. Sums and differences never wrap: an operation whose
result might not fit has an option as its result, or stops at the end of the range.

* `StakeGovernance.Word` – a **word** of a given number of bits, one of
  `StakeGovernance.Word.size` many;
* `StakeGovernance.Word.ofNat?` – the word of a natural, if it fits;
* `StakeGovernance.Word.add?`, `StakeGovernance.Word.sub?` – checked arithmetic;
* `StakeGovernance.Word.addSat` – addition that stops at the largest word;
* `StakeGovernance.Timestamp`, `StakeGovernance.Power`,
  `StakeGovernance.BasisPoints` – the widths the protocol uses.
-/

namespace StakeGovernance

/-- The number of words of `bits` bits, two to the power of `bits`. -/
def Word.size (bits : Nat) : Nat := Nat.pow 2 bits

/-- **A word** of `bits` bits: a natural number that they can hold. -/
structure Word (bits : Nat) where
  /-- The number itself. -/
  toNat : Nat
  /-- It fits the width. -/
  toNat_lt : toNat < Word.size bits
deriving DecidableEq

namespace Word

variable {bits : Nat}

theorem ext {a b : Word bits} (h : a.toNat = b.toNat) : a = b := by
  cases a; cases b; cases h; rfl

theorem toNat_inj {a b : Word bits} : a.toNat = b.toNat ↔ a = b :=
  ⟨ext, congrArg toNat⟩

/-! ### Widths -/

theorem size_pos (bits : Nat) : 0 < size bits := Nat.two_pow_pos bits

theorem size_add (m n : Nat) : size (m + n) = size m * size n := Nat.pow_add 2 m n

/-! ### Construction -/

/-- The word of a natural, of which the bits that do not fit are dropped. It is meant for
numbers that stand in a definition and are known to fit. -/
def ofNat (n : Nat) : Word bits := ⟨n % size bits, Nat.mod_lt n (size_pos bits)⟩

@[simp] theorem toNat_ofNat (n : Nat) : (ofNat n : Word bits).toNat = n % size bits := rfl

/-- The word of a natural, if it fits. -/
def ofNat? (n : Nat) : Option (Word bits) :=
  if h : n < size bits then some ⟨n, h⟩ else none

theorem ofNat?_eq_some_iff {n : Nat} {w : Word bits} : ofNat? n = some w ↔ w.toNat = n := by
  unfold ofNat?
  split
  · exact ⟨fun h => by cases h; rfl, fun h => congrArg some (ext h.symm)⟩
  · rename_i h
    exact ⟨fun h => by simp at h, fun e => absurd (e ▸ w.toNat_lt) h⟩

theorem ofNat?_eq_none_iff {n : Nat} : (ofNat? n : Option (Word bits)) = none ↔ size bits ≤ n := by
  unfold ofNat?
  split <;> simp <;> omega

@[simp] theorem ofNat?_toNat (w : Word bits) : ofNat? w.toNat = some w :=
  ofNat?_eq_some_iff.2 rfl

/-- Zero fits every width. -/
def zero : Word bits := ⟨0, size_pos bits⟩

instance : Inhabited (Word bits) := ⟨zero⟩

/-- The largest word. -/
def max : Word bits := ⟨size bits - 1, Nat.sub_lt (size_pos bits) Nat.one_pos⟩

/-- Whether a word is zero. -/
def isZero (w : Word bits) : Bool := w.toNat == 0

@[simp] theorem toNat_zero : (zero : Word bits).toNat = 0 := rfl

@[simp] theorem isZero_iff {w : Word bits} : w.isZero = true ↔ w.toNat = 0 := by
  simp [isZero]

/-! ### Order -/

instance : LE (Word bits) := ⟨fun a b => a.toNat ≤ b.toNat⟩
instance : LT (Word bits) := ⟨fun a b => a.toNat < b.toNat⟩
instance : DecidableLE (Word bits) := fun a b => inferInstanceAs (Decidable (a.toNat ≤ b.toNat))
instance : DecidableLT (Word bits) := fun a b => inferInstanceAs (Decidable (a.toNat < b.toNat))
instance : Ord (Word bits) := ⟨fun a b => compare a.toNat b.toNat⟩

instance : Max (Word bits) := ⟨fun a b => if a ≤ b then b else a⟩

theorem le_def {a b : Word bits} : a ≤ b ↔ a.toNat ≤ b.toNat := Iff.rfl
theorem lt_def {a b : Word bits} : a < b ↔ a.toNat < b.toNat := Iff.rfl
theorem compare_def {a b : Word bits} : compare a b = compare a.toNat b.toNat := rfl

instance : Std.OrientedOrd (Word bits) where
  eq_swap {a b} := @Std.OrientedCmp.eq_swap Nat compare _ a.toNat b.toNat

instance : Std.TransOrd (Word bits) where
  isLE_trans {a b c} := @Std.TransCmp.isLE_trans Nat compare _ a.toNat b.toNat c.toNat

instance : Std.LawfulEqOrd (Word bits) where
  eq_of_compare {a b} h := ext (@Std.LawfulEqCmp.eq_of_compare Nat compare _ a.toNat b.toNat h)

/-! ### Arithmetic -/

/-- The sum, if it fits. -/
def add? (a b : Word bits) : Option (Word bits) := ofNat? (a.toNat + b.toNat)

/-- The difference, if it is not negative. -/
def sub? (a b : Word bits) : Option (Word bits) :=
  if b ≤ a then some ⟨a.toNat - b.toNat, Nat.lt_of_le_of_lt (Nat.sub_le ..) a.toNat_lt⟩ else none

/-- A number as a word, or the largest word if the number does not fit. -/
def clamp (n : Nat) : Word bits := (ofNat? n).getD max

/-- The sum, or the largest word if the sum does not fit. -/
def addSat (a b : Word bits) : Word bits := (add? a b).getD max

/-- The difference, or zero if it is negative. -/
def monus (a b : Word bits) : Word bits :=
  ⟨a.toNat - b.toNat, Nat.lt_of_le_of_lt (Nat.sub_le ..) a.toNat_lt⟩

/-- The next word; the largest is followed by zero. -/
def next (w : Word bits) : Word bits :=
  ⟨(w.toNat + 1) % size bits, Nat.mod_lt _ (size_pos bits)⟩

theorem next_ofNat (n : Nat) : (ofNat n : Word bits).next = ofNat (n + 1) :=
  ext (Nat.mod_add_mod n (size bits) 1)

/-- The word before; the largest comes before zero. -/
def previous (w : Word bits) : Word bits :=
  ⟨(w.toNat + (size bits - 1)) % size bits, Nat.mod_lt _ (size_pos bits)⟩

theorem add?_eq_some_iff {a b c : Word bits} :
    a.add? b = some c ↔ c.toNat = a.toNat + b.toNat := ofNat?_eq_some_iff

theorem sub?_eq_some_iff {a b c : Word bits} :
    a.sub? b = some c ↔ a.toNat = c.toNat + b.toNat := by
  unfold sub?
  split
  · rename_i h
    have h : b.toNat ≤ a.toNat := h
    constructor
    · intro e
      cases e
      show a.toNat = a.toNat - b.toNat + b.toNat
      omega
    · intro e
      refine congrArg some (ext ?_)
      show a.toNat - b.toNat = c.toNat
      omega
  · rename_i h
    have h : ¬ b.toNat ≤ a.toNat := h
    constructor
    · intro e; simp at e
    · intro e; omega

theorem exists_sub? {a b : Word bits} (h : b ≤ a) : ∃ c, a.sub? b = some c := by
  unfold sub?
  rw [if_pos h]
  exact ⟨_, rfl⟩

theorem toNat_addSat (a b : Word bits) :
    (a.addSat b).toNat = min (a.toNat + b.toNat) (size bits - 1) := by
  unfold addSat add? ofNat?
  have := size_pos bits
  split
  · simp only [Option.getD_some]
    omega
  · simp only [Option.getD_none, max]
    omega

/-! ### Text -/

instance : ToString (Word bits) := ⟨fun w => toString w.toNat⟩

end Word

/-! ### The widths of the protocol -/

/-- **A point on the protocol's logical clock**, in seconds. Checkpoints, lock
buckets, voting windows and execution times are all measured on it. -/
abbrev Timestamp := Word 64

/-- **Voting power**: an amount weighted by the time it remains locked. -/
abbrev Power := Word 128

/-- **Basis points**: 10000 of them are the factor one. -/
abbrev BasisPoints := Word 32

/-- The number of a proposal. -/
abbrev ProposalId := Word 64

/-- The number of a version of a capability. -/
abbrev Version := Word 32

/-! ### Words as keys

The order laws at the two widths that occur as keys of maps. -/

instance : Std.OrientedOrd Timestamp := inferInstance
instance : Std.TransOrd Timestamp := inferInstance
instance : Std.LawfulEqOrd Timestamp := inferInstance

instance : Std.OrientedOrd Version := inferInstance
instance : Std.TransOrd Version := inferInstance
instance : Std.LawfulEqOrd Version := inferInstance

end StakeGovernance
