/-!
# Byte strings

Keys and values of a store are plain byte strings. They are ordered by unsigned bytes: the first
byte that differs decides, and a proper prefix comes before what it begins. The order is a
`compare` into `Ordering`, so that one theorem can speak of less, equal and greater at once;
`Before` is read off it, and it is a linear order.
-/

namespace MessageIndex

/-- A finite string of bytes. -/
abbrev Bytes := List UInt8

namespace Bytes

/-- Unsigned byte order: the first byte that differs decides, a proper prefix comes first. -/
def compare : Bytes → Bytes → Ordering
  | [], [] => .eq
  | [], _ :: _ => .lt
  | _ :: _, [] => .gt
  | a :: as, b :: bs => if a < b then .lt else if b < a then .gt else compare as bs

/-- `a` comes strictly before `b`. -/
def Before (a b : Bytes) : Prop := compare a b = .lt

instance (a b : Bytes) : Decidable (Before a b) := inferInstanceAs (Decidable (_ = _))

/-- `k` lies in the half-open range from `start` to `stop`. -/
def InRange (start stop k : Bytes) : Prop := ¬ Before k start ∧ Before k stop

instance (start stop k : Bytes) : Decidable (InRange start stop k) :=
  inferInstanceAs (Decidable (_ ∧ _))

/-- The bytes of a text in UTF-8. -/
def ofText (text : String) : Bytes := text.toUTF8.data.toList

/-- The positions of the given byte strings from the least to the greatest; equal ones keep their
places relative to each other. -/
def sortedPositions (items : List Bytes) : List Nat :=
  (items.zipIdx.mergeSort fun a b => compare a.1 b.1 != .gt).map (·.2)

/-! ## The order is linear -/

@[simp] theorem compare_nil_nil : compare [] [] = .eq := rfl

@[simp] theorem compare_nil_cons (b : UInt8) (bs : Bytes) : compare [] (b :: bs) = .lt := rfl

@[simp] theorem compare_cons_nil (a : UInt8) (as : Bytes) : compare (a :: as) [] = .gt := rfl

theorem compare_cons_cons (a b : UInt8) (as bs : Bytes) :
    compare (a :: as) (b :: bs) =
      if a < b then .lt else if b < a then .gt else compare as bs := rfl

/-- Equal first bytes leave the decision to the rest. -/
@[simp] theorem compare_cons_self (a : UInt8) (as bs : Bytes) :
    compare (a :: as) (a :: bs) = compare as bs := by simp [compare_cons_cons]

/-- Bytes of which neither is below the other are equal. -/
theorem eq_of_not_lt {a b : UInt8} (h : ¬ a < b) (h' : ¬ b < a) : a = b := by
  simp only [UInt8.lt_iff_toNat_lt, Nat.not_lt] at h h'
  exact UInt8.toNat_inj.mp (Nat.le_antisymm h' h)

/-- To compare, either two first bytes decide or they are equal. -/
theorem compare_cons_cases (a b : UInt8) (as bs : Bytes) :
    (a < b ∧ compare (a :: as) (b :: bs) = .lt) ∨
    (b < a ∧ compare (a :: as) (b :: bs) = .gt) ∨
    (a = b ∧ compare (a :: as) (b :: bs) = compare as bs) := by
  by_cases h : a < b
  · exact .inl ⟨h, by simp [compare_cons_cons, h]⟩
  · by_cases h' : b < a
    · exact .inr (.inl ⟨h', by simp [compare_cons_cons, h, h']⟩)
    · exact .inr (.inr ⟨eq_of_not_lt h h', by simp [compare_cons_cons, h, h']⟩)

@[simp] theorem compare_self (a : Bytes) : compare a a = .eq := by
  induction a with
  | nil => rfl
  | cons x xs ih => simpa using ih

@[simp] theorem compare_eq_iff {a b : Bytes} : compare a b = .eq ↔ a = b := by
  refine ⟨fun h => ?_, fun h => h ▸ compare_self a⟩
  induction a generalizing b with
  | nil =>
    cases b with
    | nil => rfl
    | cons y ys => simp at h
  | cons x xs ih =>
    cases b with
    | nil => simp at h
    | cons y ys =>
      obtain ⟨_, e⟩ | ⟨_, e⟩ | ⟨rfl, e⟩ := compare_cons_cases x y xs ys
      · simp [e] at h
      · simp [e] at h
      · rw [e] at h
        rw [ih h]

theorem swap_compare (a b : Bytes) : (compare a b).swap = compare b a := by
  induction a generalizing b with
  | nil => cases b <;> rfl
  | cons x xs ih =>
    cases b with
    | nil => rfl
    | cons y ys =>
      obtain ⟨h, e⟩ | ⟨h, e⟩ | ⟨rfl, e⟩ := compare_cons_cases x y xs ys
      · have : ¬ y < x := UInt8.lt_asymm h
        simp [e, compare_cons_cons, h, this]
      · simp [e, compare_cons_cons, h]
      · simpa using ih ys

theorem compare_eq_gt_iff {a b : Bytes} : compare a b = .gt ↔ Before b a := by
  unfold Before
  rw [← swap_compare b a]
  cases compare b a <;> simp

theorem not_before_self (a : Bytes) : ¬ Before a a := by simp [Before]

theorem Before.trans {a b c : Bytes} (hab : Before a b) (hbc : Before b c) : Before a c := by
  unfold Before at *
  induction a generalizing b c with
  | nil =>
    cases c with
    | nil => cases b <;> simp at hab hbc
    | cons z zs => rfl
  | cons x xs ih =>
    cases b with
    | nil => simp at hab
    | cons y ys =>
      cases c with
      | nil => simp at hbc
      | cons z zs =>
        obtain ⟨h₁, _⟩ | ⟨_, e₁⟩ | ⟨rfl, e₁⟩ := compare_cons_cases x y xs ys
        · obtain ⟨h₂, _⟩ | ⟨_, e₂⟩ | ⟨rfl, _⟩ := compare_cons_cases y z ys zs
          · simp [compare_cons_cons, UInt8.lt_trans h₁ h₂]
          · simp [e₂] at hbc
          · simp [compare_cons_cons, h₁]
        · simp [e₁] at hab
        · obtain ⟨h₂, _⟩ | ⟨_, e₂⟩ | ⟨rfl, e₂⟩ := compare_cons_cases x z ys zs
          · simp [compare_cons_cons, h₂]
          · simp [e₂] at hbc
          · rw [e₁] at hab
            rw [e₂] at hbc
            simpa using ih hab hbc

theorem Before.ne {a b : Bytes} (h : Before a b) : a ≠ b := by
  rintro rfl
  exact not_before_self a h

theorem Before.asymm {a b : Bytes} (h : Before a b) : ¬ Before b a :=
  fun h' => not_before_self a (h.trans h')

end Bytes

end MessageIndex
