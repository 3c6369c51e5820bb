import MessageIndex.Json.Failure

/-!
# Blanks, words and texts of a document

The smallest parts of a JSON document. Every function takes what is left of the document and answers
what is left behind the part; a text can be read, which demands that it spells characters, or only
passed over, which demands less: halves of surrogate pairs may then stand alone.
-/

namespace MessageIndex.Json

/-- The four characters that may stand between the parts of a document. -/
def isBlank (c : Char) : Bool := c = ' ' || c = '\n' || c = '\t' || c = '\r'

/-- Passes blanks over. -/
def skipBlank (s : List Char) : List Char := s.dropWhile isBlank

theorem length_skipBlank_le (s : List Char) : (skipBlank s).length ≤ s.length :=
  (List.dropWhile_sublist _).length_le

/-- Passes the characters of a word over. -/
def word : (letters s : List Char) → Except Failure (List Char)
  | [], s => .ok s
  | _ :: _, [] => .error .ended
  | c :: letters, d :: s => if c = d then word letters s else .error .malformed

theorem length_word_le {letters s r : List Char} (h : word letters s = .ok r) :
    r.length ≤ s.length := by
  induction letters generalizing s with
  | nil =>
    obtain rfl := Except.ok.inj h
    exact Nat.le_refl _
  | cons c letters ih =>
    cases s with
    | nil => simp [word] at h
    | cons d s =>
      rw [word] at h
      split at h
      · exact Nat.le_succ_of_le (ih h)
      · simp at h

/-! ## Escapes -/

/-- The value of a hexadecimal digit, of either case. -/
def hexValue? (c : Char) : Option Nat :=
  if '0' ≤ c ∧ c ≤ '9' then some (c.toNat - '0'.toNat)
  else if 'a' ≤ c ∧ c ≤ 'f' then some (c.toNat - 'a'.toNat + 10)
  else if 'A' ≤ c ∧ c ≤ 'F' then some (c.toNat - 'A'.toNat + 10)
  else none

/-- The failure where four hexadecimal digits are wanted: the document ends early if fewer than four
bytes are left. -/
def hexFailure (s : List Char) : Failure :=
  if (String.ofList s).utf8ByteSize < 4 then .ended else .malformed

/-- Reads four hexadecimal digits. -/
def hexUnit (s : List Char) : Except Failure (Nat × List Char) :=
  match s with
  | a :: b :: c :: d :: r =>
    match hexValue? a, hexValue? b, hexValue? c, hexValue? d with
    | some a, some b, some c, some d => .ok (((a * 16 + b) * 16 + c) * 16 + d, r)
    | _, _, _, _ => .error (hexFailure s)
  | _ => .error (hexFailure s)

theorem length_hexUnit_lt {s r : List Char} {n : Nat} (h : hexUnit s = .ok (n, r)) :
    r.length < s.length := by
  unfold hexUnit at h
  split at h
  · split at h
    · obtain ⟨_, rfl⟩ := Prod.mk.inj (Except.ok.inj h)
      simp only [List.length_cons]
      omega
    · simp at h
  · simp at h

/-- The character that a one-letter escape stands for. -/
def shortEscape? : Char → Option Char
  | '"' => some '"'
  | '\\' => some '\\'
  | '/' => some '/'
  | 'b' => some '\x08'
  | 'f' => some '\x0c'
  | 'n' => some '\n'
  | 'r' => some '\r'
  | 't' => some '\t'
  | _ => none

/-- A leading half of a surrogate pair. -/
def isLeading (n : Nat) : Bool := 0xD800 ≤ n && n ≤ 0xDBFF

/-- A trailing half of a surrogate pair. -/
def isTrailing (n : Nat) : Bool := 0xDC00 ≤ n && n ≤ 0xDFFF

/-- Reads the trailing half that must follow a leading one, and joins the two. -/
def pairEscape (leading : Nat) : List Char → Except Failure (Char × List Char)
  | [] | ['\\'] => .error .ended
  | '\\' :: 'u' :: s =>
    match hexUnit s with
    | .error e => .error e
    | .ok (n, r) =>
      if isTrailing n then .ok (Char.ofNat (0x10000 + (leading - 0xD800) * 0x400 + (n - 0xDC00)), r)
      else .error .malformed
  | _ => .error .malformed

/-- Reads the rest of an escape by number. A trailing half must not come first. -/
def numberEscape (s : List Char) : Except Failure (Char × List Char) :=
  match hexUnit s with
  | .error e => .error e
  | .ok (n, r) =>
    if isTrailing n then .error .malformed
    else if isLeading n then pairEscape n r
    else .ok (Char.ofNat n, r)

/-- Reads the rest of an escape, behind the backslash. -/
def escape : List Char → Except Failure (Char × List Char)
  | [] => .error .ended
  | 'u' :: s => numberEscape s
  | c :: s =>
    match shortEscape? c with
    | some d => .ok (d, s)
    | none => .error .malformed

/-- Passes the rest of an escape over; which number it gives does not matter. -/
def skipEscape : List Char → Except Failure (List Char)
  | [] => .error .ended
  | 'u' :: s => (hexUnit s).map (·.2)
  | c :: s => if (shortEscape? c).isSome then .ok s else .error .malformed

theorem length_pairEscape_lt {leading : Nat} {s r : List Char} {c : Char}
    (h : pairEscape leading s = .ok (c, r)) : r.length < s.length := by
  unfold pairEscape at h
  split at h
  · simp at h
  · simp at h
  · split at h
    · simp at h
    · rename_i hn
      split at h
      · obtain ⟨_, rfl⟩ := Prod.mk.inj (Except.ok.inj h)
        have := length_hexUnit_lt hn
        simp only [List.length_cons]
        omega
      · simp at h
  · simp at h

theorem length_numberEscape_lt {s r : List Char} {c : Char} (h : numberEscape s = .ok (c, r)) :
    r.length < s.length := by
  unfold numberEscape at h
  split at h
  · simp at h
  · rename_i hn
    have hlt := length_hexUnit_lt hn
    split at h
    · simp at h
    · split at h
      · exact Nat.lt_trans (length_pairEscape_lt h) hlt
      · obtain ⟨_, rfl⟩ := Prod.mk.inj (Except.ok.inj h)
        exact hlt

theorem length_escape_lt {s r : List Char} {c : Char} (h : escape s = .ok (c, r)) :
    r.length < s.length := by
  unfold escape at h
  split at h
  · simp at h
  · exact Nat.lt_succ_of_lt (length_numberEscape_lt h)
  · split at h
    · obtain ⟨_, rfl⟩ := Prod.mk.inj (Except.ok.inj h)
      exact Nat.lt_succ_self _
    · simp at h

theorem length_skipEscape_lt {s r : List Char} (h : skipEscape s = .ok r) :
    r.length < s.length := by
  unfold skipEscape at h
  split at h
  · simp at h
  · rename_i s
    cases hn : hexUnit s with
    | error e => simp [hn, Except.map] at h
    | ok p =>
      obtain ⟨n, s'⟩ := p
      simp only [hn, Except.map, Except.ok.injEq] at h
      subst h
      exact Nat.lt_succ_of_lt (length_hexUnit_lt hn)
  · split at h
    · obtain rfl := Except.ok.inj h
      exact Nat.lt_succ_self _
    · simp at h

/-! ## Texts -/

/-- Control characters may not stand in a text as themselves. -/
def isControl (c : Char) : Bool := c.toNat < 0x20

/-- Reads the rest of a text, behind its opening quote and through its closing one. -/
def textRest (s : List Char) : Except Failure (List Char × List Char) :=
  match s with
  | [] => .error .ended
  | '"' :: s => .ok ([], s)
  | '\\' :: s =>
    match h : escape s with
    | .error e => .error e
    | .ok (c, s') =>
      have := length_escape_lt h
      (textRest s').map fun (cs, r) => (c :: cs, r)
  | c :: s =>
    if isControl c then .error .malformed
    else (textRest s).map fun (cs, r) => (c :: cs, r)
termination_by s.length
decreasing_by all_goals simp_all <;> omega

/-- Passes the rest of a text over, behind its opening quote and through its closing one. -/
def skipText (s : List Char) : Except Failure (List Char) :=
  match s with
  | [] => .error .ended
  | '"' :: s => .ok s
  | '\\' :: s =>
    match h : skipEscape s with
    | .error e => .error e
    | .ok s' =>
      have := length_skipEscape_lt h
      skipText s'
  | c :: s => if isControl c then .error .malformed else skipText s
termination_by s.length
decreasing_by all_goals simp_all <;> omega

theorem length_textRest_lt {s r cs : List Char} (h : textRest s = .ok (cs, r)) :
    r.length < s.length := by
  fun_induction textRest s generalizing cs with
  | case1 => simp at h
  | case2 s =>
    obtain ⟨_, rfl⟩ := Prod.mk.inj (Except.ok.inj h)
    exact Nat.lt_succ_self _
  | case3 => simp at h
  | case4 s c s' he hlt ih =>
    cases ht : textRest s' with
    | error e => simp [ht, Except.map] at h
    | ok p =>
      simp only [ht, Except.map, Except.ok.injEq, Prod.mk.injEq] at h
      have := @ih p.1 (by rw [ht, ← h.2])
      simp only [List.length_cons]
      omega
  | case5 => simp at h
  | case6 c s _ _ _ ih =>
    cases ht : textRest s with
    | error e => simp [ht, Except.map] at h
    | ok p =>
      simp only [ht, Except.map, Except.ok.injEq, Prod.mk.injEq] at h
      have := @ih p.1 (by rw [ht, ← h.2])
      simp only [List.length_cons]
      omega

theorem length_skipText_lt {s r : List Char} (h : skipText s = .ok r) : r.length < s.length := by
  fun_induction skipText s with
  | case1 => simp at h
  | case2 s =>
    obtain rfl := Except.ok.inj h
    exact Nat.lt_succ_self _
  | case3 => simp at h
  | case4 s s' he hlt ih =>
    have := ih h
    simp only [List.length_cons]
    omega
  | case5 => simp at h
  | case6 c s _ _ _ ih => exact Nat.lt_succ_of_lt (ih h)

end MessageIndex.Json
