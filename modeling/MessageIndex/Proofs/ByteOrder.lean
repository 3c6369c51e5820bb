import MessageIndex.Bytes.BigEndian

/-!
# Proofs: byte order of concatenations and of numbers

Fronts of the same length are compared first and the rest decides between equal ones
(`compare_append`), and on equally long byte strings byte order is the order of the numbers they
spell (`compare_eq_compare_toNat`). The range between two strings
that differ in their last byte only consists of the strings that continue their common front with a
byte in between (`inRange_append_singleton`).
-/

namespace MessageIndex.Bytes

/-- Fronts of the same length decide, unless they are equal. -/
theorem compare_append {a b : Bytes} (h : a.length = b.length) (x y : Bytes) :
    compare (a ++ x) (b ++ y) = (compare a b).then (compare x y) := by
  induction a generalizing b with
  | nil =>
    rw [List.length_eq_zero_iff.mp h.symm]
    rfl
  | cons c cs ih =>
    cases b with
    | nil => simp at h
    | cons d ds =>
      rw [List.cons_append, List.cons_append, compare_cons_cons, compare_cons_cons]
      by_cases hlt : c < d
      · rw [if_pos hlt, if_pos hlt]
        rfl
      · by_cases hgt : d < c
        · rw [if_neg hlt, if_neg hlt, if_pos hgt, if_pos hgt]
          rfl
        · rw [if_neg hlt, if_neg hlt, if_neg hgt, if_neg hgt]
          exact ih (Nat.succ.inj h)

/-- A common front decides nothing. -/
theorem compare_append_left (front a b : Bytes) :
    compare (front ++ a) (front ++ b) = compare a b := by
  rw [compare_append rfl, compare_self]
  rfl

theorem before_append_left {front a b : Bytes} :
    Before (front ++ a) (front ++ b) ↔ Before a b := by
  unfold Before
  rw [compare_append_left]

/-! ## Numbers -/

/-- A greater first digit outweighs all further digits. -/
theorem toNat_cons_lt {x y : UInt8} {xs ys : Bytes} (hlen : xs.length = ys.length) (h : x < y) :
    toNat (x :: xs) < toNat (y :: ys) := by
  have hxs := toNat_lt xs
  have hxy : x.toNat + 1 ≤ y.toNat := UInt8.lt_iff_toNat_lt.mp h
  have hmul := Nat.mul_le_mul_right (capacity xs.length) hxy
  rw [Nat.add_mul] at hmul
  show x.toNat * capacity xs.length + toNat xs < y.toNat * capacity ys.length + toNat ys
  rw [← hlen]
  omega

/-- Byte order of equally long strings is the order of the numbers they spell. -/
theorem compare_eq_compare_toNat {a b : Bytes} (h : a.length = b.length) :
    compare a b = Ord.compare (toNat a) (toNat b) := by
  induction a generalizing b with
  | nil =>
    rw [List.length_eq_zero_iff.mp h.symm]
    rfl
  | cons x xs ih =>
    cases b with
    | nil => simp at h
    | cons y ys =>
      have hlen : xs.length = ys.length := Nat.succ.inj h
      rcases compare_cons_cases x y xs ys with ⟨hlt, e⟩ | ⟨hlt, e⟩ | ⟨rfl, e⟩
      · rw [e, Nat.compare_eq_lt.mpr (toNat_cons_lt hlen hlt)]
      · rw [e, Nat.compare_eq_gt.mpr (toNat_cons_lt hlen.symm hlt)]
      · rw [e, ih hlen]
        show _ = Ord.compare (x.toNat * capacity xs.length + toNat xs)
          (x.toNat * capacity ys.length + toNat ys)
        rw [hlen, Nat.compare_eq_ite_lt, Nat.compare_eq_ite_lt]
        simp only [Nat.add_lt_add_iff_left]

theorem capacity_four : capacity 4 = UInt32.size := by decide

theorem capacity_eight : capacity 8 = UInt64.size := by decide

theorem toNat_lt_capacity_four (x : UInt32) : x.toNat < capacity 4 := by
  rw [capacity_four]
  exact x.toNat_lt

theorem toNat_lt_capacity_eight (x : UInt64) : x.toNat < capacity 8 := by
  rw [capacity_eight]
  exact x.toNat_lt

theorem toNat_lt_of_length_four {bytes : Bytes} (h : bytes.length = 4) : toNat bytes < UInt32.size := by
  have hlt := toNat_lt bytes
  rwa [h, capacity_four] at hlt

theorem toNat_lt_of_length_eight {bytes : Bytes} (h : bytes.length = 8) : toNat bytes < UInt64.size := by
  have hlt := toNat_lt bytes
  rwa [h, capacity_eight] at hlt

theorem toNat_bigEndian_of_lt {width n : Nat} (h : n < capacity width) :
    toNat (bigEndian width n) = n := by
  rw [toNat_bigEndian, Nat.mod_eq_of_lt h]

/-- Numbers that fit a width are written differently unless they are equal. -/
theorem bigEndian_inj {width m n : Nat} (hm : m < capacity width) (hn : n < capacity width)
    (h : bigEndian width m = bigEndian width n) : m = n := by
  rw [← toNat_bigEndian_of_lt hm, ← toNat_bigEndian_of_lt hn, h]

theorem length_bigEndian_eq (width m n : Nat) :
    (bigEndian width m).length = (bigEndian width n).length := by
  rw [length_bigEndian, length_bigEndian]

/-- Written to one width, numbers keep their order. -/
theorem compare_bigEndian {width m n : Nat} (hm : m < capacity width) (hn : n < capacity width) :
    compare (bigEndian width m) (bigEndian width n) = Ord.compare m n := by
  rw [compare_eq_compare_toNat (length_bigEndian_eq width m n), toNat_bigEndian_of_lt hm,
    toNat_bigEndian_of_lt hn]

/-- The order of half words is the order of their numbers. -/
theorem compare_toNat_half_word (a b : UInt32) :
    Ord.compare a.toNat b.toNat = Ord.compare a b := by
  simp only [Ord.compare, compareOfLessAndEq, UInt32.lt_iff_toNat_lt, UInt32.toNat_inj]

/-- The order of words is the order of their numbers. -/
theorem compare_toNat_word (a b : UInt64) : Ord.compare a.toNat b.toNat = Ord.compare a b := by
  simp only [Ord.compare, compareOfLessAndEq, UInt64.lt_iff_toNat_lt, UInt64.toNat_inj]

/-! ## The range between two sentinels -/

theorem before_singleton_iff {c d : UInt8} {rest : Bytes} : Before (c :: rest) [d] ↔ c < d := by
  unfold Before
  rcases compare_cons_cases c d rest [] with ⟨hlt, e⟩ | ⟨hlt, e⟩ | ⟨rfl, e⟩
  · exact iff_of_true e hlt
  · exact iff_of_false (by rw [e]; decide) (UInt8.lt_asymm hlt)
  · refine iff_of_false ?_ (UInt8.lt_irrefl c)
    rw [e]
    cases rest <;> simp

/-- Between a front with a low and the same front with a high sentinel lie the continuations of the
front by a byte from the low one up to but without the high one, whatever follows, and nothing
else. -/
theorem inRange_append_singleton {front k : Bytes} {low high : UInt8} :
    InRange (front ++ [low]) (front ++ [high]) k ↔
      ∃ c rest, k = front ++ c :: rest ∧ low ≤ c ∧ c < high := by
  constructor
  · intro hk
    induction front generalizing k with
    | nil =>
      obtain ⟨hlow, hhigh⟩ := hk
      cases k with
      | nil => exact absurd rfl hlow
      | cons c rest =>
        rw [List.nil_append, before_singleton_iff] at hlow hhigh
        exact ⟨c, rest, rfl, UInt8.not_lt.mp hlow, hhigh⟩
    | cons x xs ih =>
      obtain ⟨hlow, hhigh⟩ := hk
      cases k with
      | nil => exact absurd rfl hlow
      | cons y ys =>
        rw [List.cons_append] at hlow hhigh
        unfold Before at hlow hhigh
        rcases compare_cons_cases y x ys (xs ++ [low]) with ⟨_, e⟩ | ⟨hlt, _⟩ | ⟨rfl, _⟩
        · exact absurd e hlow
        · rw [compare_cons_cons, if_neg (UInt8.lt_asymm hlt), if_pos hlt] at hhigh
          exact absurd hhigh (by decide)
        · rw [compare_cons_self] at hlow hhigh
          obtain ⟨c, rest, rfl, hc⟩ := ih ⟨hlow, hhigh⟩
          exact ⟨c, rest, rfl, hc⟩
  · rintro ⟨c, rest, rfl, hlow, hhigh⟩
    constructor
    · rw [before_append_left, before_singleton_iff]
      exact UInt8.not_lt.mpr hlow
    · rw [before_append_left, before_singleton_iff]
      exact hhigh

end MessageIndex.Bytes
