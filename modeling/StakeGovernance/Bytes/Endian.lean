import StakeGovernance.Word

/-!
# Fixed-width integers as bytes

A word of `8 * width` bits is written in `width` bytes, either least
significant byte first or most significant byte first. The second form sorts:
for one width, comparing the bytes left to right compares the numbers.

* `StakeGovernance.Bytes` – a **string of bytes**;
* `StakeGovernance.littleEndian`, `StakeGovernance.ofLittleEndian` – least
  significant byte first;
* `StakeGovernance.bigEndian`, `StakeGovernance.ofBigEndian` – most significant
  byte first.
-/

namespace StakeGovernance

/-- **A string of bytes.** -/
abbrev Bytes := List UInt8

/-- The `width` bytes of a number, least significant first. Higher bits are
dropped. -/
def littleEndian : Nat → Nat → Bytes
  | 0, _ => []
  | width + 1, n => UInt8.ofNat (n % 256) :: littleEndian width (n / 256)

/-- The number with the given bytes, least significant first. -/
def ofLittleEndian : Bytes → Nat
  | [] => 0
  | b :: bs => b.toNat + 256 * ofLittleEndian bs

/-- The `width` bytes of a number, most significant first. -/
def bigEndian (width n : Nat) : Bytes := (littleEndian width n).reverse

/-- The number with the given bytes, most significant first. -/
def ofBigEndian (bs : Bytes) : Nat := ofLittleEndian bs.reverse

/-! ### Reading undoes writing -/

@[simp] theorem length_littleEndian (width n : Nat) : (littleEndian width n).length = width := by
  induction width generalizing n with
  | zero => rfl
  | succ width ih => simp [littleEndian, ih]

@[simp] theorem length_bigEndian (width n : Nat) : (bigEndian width n).length = width := by
  simp [bigEndian]

/-- One byte more makes 256 times as many words. -/
theorem size_mul_succ (width : Nat) : Word.size (8 * (width + 1)) = 256 * Word.size (8 * width) := by
  rw [Nat.mul_succ, Nat.add_comm, Word.size_add]
  rfl

theorem ofLittleEndian_lt (bs : Bytes) : ofLittleEndian bs < Word.size (8 * bs.length) := by
  induction bs with
  | nil => exact Word.size_pos 0
  | cons b bs ih =>
    have hb : b.toNat < 256 := b.toNat_lt
    rw [List.length_cons, size_mul_succ]
    simp only [ofLittleEndian]
    omega

theorem ofBigEndian_lt (bs : Bytes) : ofBigEndian bs < Word.size (8 * bs.length) := by
  simpa [ofBigEndian] using ofLittleEndian_lt bs.reverse

theorem ofLittleEndian_littleEndian {width n : Nat} (h : n < Word.size (8 * width)) :
    ofLittleEndian (littleEndian width n) = n := by
  induction width generalizing n with
  | zero =>
    have h : n < 1 := h
    simp only [littleEndian, ofLittleEndian]
    omega
  | succ width ih =>
    have hdiv : n / 256 < Word.size (8 * width) := by
      rw [size_mul_succ] at h
      omega
    have hmod : n % 256 % 2 ^ 8 = n % 256 := by omega
    simp only [littleEndian, ofLittleEndian, ih hdiv, UInt8.toNat_ofNat', hmod]
    omega

theorem littleEndian_ofLittleEndian (bs : Bytes) :
    littleEndian bs.length (ofLittleEndian bs) = bs := by
  induction bs with
  | nil => rfl
  | cons b bs ih =>
    have hb : b.toNat < 256 := b.toNat_lt
    have hmod : (b.toNat + 256 * ofLittleEndian bs) % 256 = b.toNat := by omega
    have hdiv : (b.toNat + 256 * ofLittleEndian bs) / 256 = ofLittleEndian bs := by omega
    simp only [List.length_cons, ofLittleEndian, littleEndian, hmod, hdiv, ih, UInt8.ofNat_toNat]

theorem ofBigEndian_bigEndian {width n : Nat} (h : n < Word.size (8 * width)) :
    ofBigEndian (bigEndian width n) = n := by
  simp [ofBigEndian, bigEndian, ofLittleEndian_littleEndian h]

theorem bigEndian_ofBigEndian (bs : Bytes) : bigEndian bs.length (ofBigEndian bs) = bs := by
  have h := littleEndian_ofLittleEndian bs.reverse
  simp only [List.length_reverse] at h
  simp [bigEndian, ofBigEndian, h]

end StakeGovernance
