import MessageIndex.Bytes

/-!
# Big-endian numbers

A number is written into a fixed count of bytes, the most significant first, so that byte order on
equally wide numbers is numeric order. Both directions go through `Nat` and recurse on the width;
a number too large for its width keeps its low bytes only.
-/

namespace MessageIndex.Bytes

/-- How many numbers can be told apart in `width` bytes. -/
def capacity : (width : Nat) → Nat
  | 0 => 1
  | width + 1 => capacity width * 256

/-- The `width` low bytes of `n`, the most significant first. -/
def bigEndian : (width : Nat) → (n : Nat) → Bytes
  | 0, _ => []
  | width + 1, n => UInt8.ofNat (n / capacity width) :: bigEndian width n

/-- The number whose big-endian digits are the given bytes. -/
def toNat : Bytes → Nat
  | [] => 0
  | b :: bs => b.toNat * capacity bs.length + toNat bs

/-! ## Capacities -/

theorem capacity_pos (width : Nat) : 0 < capacity width := by
  induction width with
  | zero => exact Nat.one_pos
  | succ width ih => exact Nat.mul_pos ih (by omega)

theorem capacity_add (a b : Nat) : capacity (a + b) = capacity a * capacity b := by
  induction b with
  | zero => exact (Nat.mul_one _).symm
  | succ b ih =>
    change capacity (a + b) * 256 = capacity a * (capacity b * 256)
    rw [ih, Nat.mul_assoc]

/-! ## Writing and reading back -/

@[simp] theorem length_bigEndian (width n : Nat) : (bigEndian width n).length = width := by
  induction width with
  | zero => rfl
  | succ width ih => simp [bigEndian, ih]

theorem toNat_lt (bs : Bytes) : toNat bs < capacity bs.length := by
  induction bs with
  | nil => exact Nat.one_pos
  | cons b bs ih =>
    have hb : b.toNat ≤ 255 := Nat.le_of_lt_succ b.toNat_lt
    have := Nat.mul_le_mul_right (capacity bs.length) hb
    simp only [toNat, List.length_cons, capacity]
    omega

/-- Reading back what was written gives the number modulo the width. -/
theorem toNat_bigEndian (width n : Nat) : toNat (bigEndian width n) = n % capacity width := by
  induction width with
  | zero => simp [toNat, bigEndian, capacity, Nat.mod_one]
  | succ width ih =>
    have hsplit : n % (capacity width * 256) =
        n % capacity width + capacity width * (n / capacity width % 256) := Nat.mod_mul
    have hbyte : (UInt8.ofNat (n / capacity width)).toNat = n / capacity width % 256 := rfl
    simp only [toNat, bigEndian, length_bigEndian, ih, hbyte, capacity]
    rw [hsplit, Nat.mul_comm, Nat.add_comm]

/-- Only the digits within the width are written. -/
theorem bigEndian_mod {width bound : Nat} (h : width ≤ bound) (n : Nat) :
    bigEndian width (n % capacity bound) = bigEndian width n := by
  induction width with
  | zero => rfl
  | succ width ih =>
    obtain ⟨d, rfl⟩ := Nat.exists_eq_add_of_le h
    have hdigit : n % capacity (width + 1 + d) / capacity width % 256 =
        n / capacity width % 256 := by
      have hcap : capacity (width + 1 + d) = capacity width * (256 * capacity d) := by
        rw [capacity_add, capacity, Nat.mul_assoc]
      rw [hcap, Nat.mod_mul_right_div_self, Nat.mod_mod_of_dvd _ (Nat.dvd_mul_right 256 _)]
    have hhead : UInt8.ofNat (n % capacity (width + 1 + d) / capacity width) =
        UInt8.ofNat (n / capacity width) := UInt8.toNat_inj.mp hdigit
    simp only [bigEndian, hhead]
    rw [ih (by omega)]

/-- Bytes are determined by their count and the number they spell. -/
theorem bigEndian_toNat (bs : Bytes) : bigEndian bs.length (toNat bs) = bs := by
  induction bs with
  | nil => rfl
  | cons b bs ih =>
    have hlt := toNat_lt bs
    have hpos := capacity_pos bs.length
    have hhead : (b.toNat * capacity bs.length + toNat bs) / capacity bs.length = b.toNat := by
      rw [Nat.mul_comm, Nat.mul_add_div hpos, Nat.div_eq_of_lt hlt, Nat.add_zero]
    have htail : (b.toNat * capacity bs.length + toNat bs) % capacity bs.length = toNat bs := by
      rw [Nat.mul_comm, Nat.mul_add_mod, Nat.mod_eq_of_lt hlt]
    simp only [toNat, List.length_cons, bigEndian, hhead, UInt8.ofNat_toNat]
    rw [← bigEndian_mod (Nat.le_refl _), htail, ih]

end MessageIndex.Bytes
