import MessageIndex.Json.Text

/-!
# Numbers of a document

A number without fraction and exponent that fits sixty-four bits is an integer; every other one is a
double. Its digits are taken into a 64-bit number as long as they fit: further digits before the
point count as powers of ten, further ones after it are dropped. The double is then the product (or
quotient) of two doubles, the one nearest to those digits and the one nearest to the power of ten. A
number too large for a double is refused.

A number can also be passed over. Then it may be of any size, and a number that breaks off is
malformed rather than ended.
-/

namespace MessageIndex.Json

/-- A number as it was read. -/
inductive Number where
  /-- An integer of 64 bits without a sign. -/
  | natural (n : UInt64)
  /-- A negative integer, down to the least one of 64 bits. -/
  | negative (n : Int)
  /-- Any other number: with a point or a power, too large for 64 bits, or minus zero. -/
  | float (x : Float)

/-- The number as something met. -/
def Number.seen : Number → Seen
  | natural n => .integer n.toNat
  | negative n => .integer n
  | float x => .float x

/-- The ten ASCII digits. -/
def isDigit (c : Char) : Bool := '0' ≤ c && c ≤ '9'

/-- Appends digits to a number as long as it fits 64 bits, and answers the digits left. -/
def takeDigits : Nat → List Char → Nat × List Char
  | n, [] => (n, [])
  | n, c :: cs =>
    let next := n * 10 + (c.toNat - '0'.toNat)
    if next < UInt64.size then takeDigits next cs else (n, c :: cs)

/-- The failure where a digit is wanted and none is left or something else stands. -/
def digitFailure : List Char → Failure
  | [] => .ended
  | _ :: _ => .malformed

/-- Multiplies a double by a power of ten; nothing if it grows too large. Powers beyond those of a
double are taken in steps. -/
def scale (x : Float) (exponent : Int) : Option Float :=
  if exponent.natAbs ≤ 308 then
    let power := Float.ofScientific 1 false exponent.natAbs
    if exponent < 0 then some (x / power)
    else if (x * power).isInf then none else some (x * power)
  else if x == 0 then some x
  else if 0 ≤ exponent then none
  else scale (x / 1e308) (exponent + 308)
termination_by exponent.natAbs
decreasing_by omega

/-- Reads the power of ten at the end of a number, if there is one, and adds it to `exponent`. -/
def readPower (exponent : Int) (s : List Char) : Except Failure (Int × List Char) :=
  match s with
  | [] => .ok (exponent, s)
  | c :: r =>
    if c = 'e' ∨ c = 'E' then
      let (sign, r) : Int × List Char := match r with
        | '+' :: r => (1, r)
        | '-' :: r => (-1, r)
        | _ => (1, r)
      let digits := r.takeWhile isDigit
      if digits.isEmpty then .error (digitFailure r)
      else
        let power := digits.foldl (fun n c => n * 10 + (c.toNat - '0'.toNat)) 0
        .ok (exponent + sign * power, r.dropWhile isDigit)
    else .ok (exponent, s)

/-- The double with the given digits and power of ten. -/
def finish (negative : Bool) (digits : Nat) (p : Int × List Char) :
    Except Failure (Number × List Char) :=
  match scale digits.toUInt64.toFloat p.1 with
  | none => .error .malformed
  | some x => .ok (.float (if negative then -x else x), p.2)

/-- The integer with the given digits; zero with a sign, and a negative number below the least one
of 64 bits, are doubles. -/
def integer (negative : Bool) (digits : Nat) : Number :=
  if ¬ negative then .natural digits.toUInt64
  else if 0 < digits ∧ digits ≤ 0x8000000000000000 then .negative (-digits)
  else .float (-digits.toUInt64.toFloat)

/-- Reads a number, behind its sign. -/
def readNumber (negative : Bool) (s : List Char) : Except Failure (Number × List Char) :=
  match s with
  | [] => .error .ended
  | c :: s =>
    let more := s.takeWhile isDigit
    let rest := s.dropWhile isDigit
    if ¬ isDigit c ∨ (c = '0' ∧ ¬ more.isEmpty) then .error .malformed
    else
      let (digits, left) := takeDigits 0 (c :: more)
      match rest with
      | '.' :: r =>
        let places := r.takeWhile isDigit
        if places.isEmpty then .error (digitFailure r)
        else
          let (digits, dropped) := takeDigits digits places
          let exponent : Int := left.length - (places.length - dropped.length)
          (readPower exponent (r.dropWhile isDigit)).bind (finish negative digits)
      | _ =>
        if left.isEmpty ∧ rest.head? ≠ some 'e' ∧ rest.head? ≠ some 'E' then
          .ok (integer negative digits, rest)
        else (readPower left.length rest).bind (finish negative digits)

/-- Passes the power of ten at the end of a number over, if there is one. -/
def skipPower (s : List Char) : Except Failure (List Char) :=
  match s with
  | [] => .ok s
  | c :: r =>
    if c = 'e' ∨ c = 'E' then
      let r := match r with
        | '+' :: r => r
        | '-' :: r => r
        | _ => r
      if (r.takeWhile isDigit).isEmpty then .error .malformed else .ok (r.dropWhile isDigit)
    else .ok s

/-- Passes a number over, behind its sign. -/
def skipNumber (s : List Char) : Except Failure (List Char) :=
  match s with
  | [] => .error .malformed
  | c :: s =>
    let rest := s.dropWhile isDigit
    if ¬ isDigit c ∨ (c = '0' ∧ ¬ (s.takeWhile isDigit).isEmpty) then .error .malformed
    else
      match rest with
      | '.' :: r =>
        if (r.takeWhile isDigit).isEmpty then .error .malformed
        else skipPower (r.dropWhile isDigit)
      | _ => skipPower rest

/-! ## What is left is shorter -/

theorem length_dropWhile_le (p : Char → Bool) (s : List Char) : (s.dropWhile p).length ≤ s.length :=
  (List.dropWhile_sublist p).length_le

theorem length_readPower_le {exponent power : Int} {s r : List Char}
    (h : readPower exponent s = .ok (power, r)) : r.length ≤ s.length := by
  unfold readPower at h
  split at h
  · obtain ⟨_, rfl⟩ := Prod.mk.inj (Except.ok.inj h)
    exact Nat.le_refl _
  · rename_i c r'
    split at h
    · simp only at h
      split at h <;> (split at h; · simp at h)
      all_goals
        obtain ⟨_, rfl⟩ := Prod.mk.inj (Except.ok.inj h)
        refine Nat.le_trans (length_dropWhile_le _ _) ?_
        simp only [List.length_cons]
        omega
    · obtain ⟨_, rfl⟩ := Prod.mk.inj (Except.ok.inj h)
      exact Nat.le_refl _

theorem length_finish {negative : Bool} {digits : Nat} {p : Except Failure (Int × List Char)}
    {n : Number} {r : List Char} (h : p.bind (finish negative digits) = .ok (n, r)) :
    ∃ power, p = .ok (power, r) := by
  obtain ⟨⟨power, r'⟩, hp, hfinish⟩ := bind_eq_ok h
  simp only [finish] at hfinish
  split at hfinish
  · simp at hfinish
  · obtain ⟨_, rfl⟩ := Prod.mk.inj (Except.ok.inj hfinish)
    exact ⟨power, hp⟩

theorem length_readNumber_lt {negative : Bool} {s r : List Char} {n : Number}
    (h : readNumber negative s = .ok (n, r)) : r.length < s.length := by
  unfold readNumber at h
  split at h
  · simp at h
  · rename_i c s
    have hrest := length_dropWhile_le isDigit s
    simp only at h
    split at h
    · simp at h
    · split at h
      · rename_i r' hr
        rw [hr] at hrest
        split at h
        · simp at h
        · obtain ⟨power, hp⟩ := length_finish h
          have := length_readPower_le hp
          have := length_dropWhile_le isDigit r'
          simp only [List.length_cons] at hrest ⊢
          omega
      · split at h
        · obtain ⟨_, rfl⟩ := Prod.mk.inj (Except.ok.inj h)
          exact Nat.lt_succ_of_le hrest
        · obtain ⟨power, hp⟩ := length_finish h
          exact Nat.lt_succ_of_le (Nat.le_trans (length_readPower_le hp) hrest)

theorem length_skipPower_le {s r : List Char} (h : skipPower s = .ok r) : r.length ≤ s.length := by
  unfold skipPower at h
  split at h
  · obtain rfl := Except.ok.inj h
    exact Nat.le_refl _
  · split at h
    · simp only at h
      split at h <;> (split at h; · simp at h)
      all_goals
        obtain rfl := Except.ok.inj h
        refine Nat.le_trans (length_dropWhile_le _ _) ?_
        simp only [List.length_cons]
        omega
    · obtain rfl := Except.ok.inj h
      exact Nat.le_refl _

theorem length_skipNumber_lt {s r : List Char} (h : skipNumber s = .ok r) :
    r.length < s.length := by
  unfold skipNumber at h
  split at h
  · simp at h
  · rename_i c s
    have hrest := length_dropWhile_le isDigit s
    simp only at h
    split at h
    · simp at h
    · split at h
      · rename_i r' hr
        rw [hr] at hrest
        split at h
        · simp at h
        · have := length_skipPower_le h
          have := length_dropWhile_le isDigit r'
          simp only [List.length_cons] at hrest ⊢
          omega
      · exact Nat.lt_succ_of_le (Nat.le_trans (length_skipPower_le h) hrest)

end MessageIndex.Json
