import MessageIndex.Json.Number

/-!
# Passing values over

A value that no field asks for is passed over, however deep it is nested, but it must be well formed.
What encloses the point that was reached is kept as a list of frames, the innermost first: where a
value ends, the innermost frame says what may follow.

Each turn takes something off the front of the document and goes on with the rest (`skipFrom_turn`,
`skipAfter_turn`). So a value that has been passed over leaves less than there was
(`length_skipValue_lt`).
-/

namespace MessageIndex.Json

/-- What a value may be enclosed in. -/
inductive Frame where
  /-- Values, with commas between them. -/
  | array
  /-- Values behind their names, with commas between them. -/
  | object
  deriving DecidableEq, Repr

/-- The character that begins an array or an object. -/
def Frame.opening : Frame → Char
  | array => '['
  | object => '{'

/-- The character that ends an array or an object. -/
def Frame.close : Frame → Char
  | array => ']'
  | object => '}'

/-- Passes over a value that encloses no other one, given its first character. -/
def skipScalar (c : Char) (s : List Char) : Except Failure (List Char) :=
  if c = 'n' then word "ull".toList s
  else if c = 't' then word "rue".toList s
  else if c = 'f' then word "alse".toList s
  else if c = '"' then skipText s
  else if c = '-' then skipNumber s
  else if isDigit c then skipNumber (c :: s)
  else .error .malformed

/-- Passes over a colon. -/
def skipColon (s : List Char) : Except Failure (List Char) :=
  match skipBlank s with
  | [] => .error .ended
  | c :: r => if c = ':' then .ok r else .error .malformed

/-- Passes over the name of an entry and its colon. -/
def skipName (s : List Char) : Except Failure (List Char) :=
  match skipBlank s with
  | [] => .error .ended
  | c :: r => if c = '"' then (skipText r).bind skipColon else .error .malformed

/-- Passes over what stands in front of a value within a frame. -/
def skipLead : Frame → List Char → Except Failure (List Char)
  | .array, s => .ok s
  | .object, s => skipName s

/-! ## What was passed over -/

theorem skipScalar_cases {c : Char} {s r : List Char} (h : skipScalar c s = .ok r) :
    (c = 'n' ∧ word "ull".toList s = .ok r) ∨ (c = 't' ∧ word "rue".toList s = .ok r) ∨
      (c = 'f' ∧ word "alse".toList s = .ok r) ∨ (c = '"' ∧ skipText s = .ok r) ∨
      (c = '-' ∧ skipNumber s = .ok r) ∨ (isDigit c = true ∧ skipNumber (c :: s) = .ok r) := by
  unfold skipScalar at h
  repeat' split at h
  · exact .inl ⟨‹_›, h⟩
  · exact .inr (.inl ⟨‹_›, h⟩)
  · exact .inr (.inr (.inl ⟨‹_›, h⟩))
  · exact .inr (.inr (.inr (.inl ⟨‹_›, h⟩)))
  · exact .inr (.inr (.inr (.inr (.inl ⟨‹_›, h⟩))))
  · exact .inr (.inr (.inr (.inr (.inr ⟨‹_›, h⟩))))
  · simp at h

theorem skipBlank_of_skipColon {s r : List Char} (h : skipColon s = .ok r) :
    skipBlank s = ':' :: r := by
  unfold skipColon at h
  split at h
  · simp at h
  · rename_i hs
    split at h
    · rename_i hc
      rw [hs, hc, Except.ok.inj h]
    · simp at h

theorem exists_of_skipName {s r : List Char} (h : skipName s = .ok r) :
    ∃ k t, skipBlank s = '"' :: k ∧ skipText k = .ok t ∧ skipColon t = .ok r := by
  unfold skipName at h
  split at h
  · simp at h
  · rename_i c k hs
    split at h
    · rename_i hc
      obtain ⟨t, htext, hcolon⟩ := bind_eq_ok h
      exact ⟨k, t, by rw [hs, hc], htext, hcolon⟩
    · simp at h

theorem length_skipScalar_le {c : Char} {s r : List Char} (h : skipScalar c s = .ok r) :
    r.length ≤ s.length := by
  obtain ⟨-, h⟩ | ⟨-, h⟩ | ⟨-, h⟩ | ⟨-, h⟩ | ⟨-, h⟩ | ⟨-, h⟩ := skipScalar_cases h
  · exact length_word_le h
  · exact length_word_le h
  · exact length_word_le h
  · exact Nat.le_of_lt (length_skipText_lt h)
  · exact Nat.le_of_lt (length_skipNumber_lt h)
  · exact Nat.le_of_lt_succ (length_skipNumber_lt h)

theorem length_of_skipBlank_eq_cons {s r : List Char} {c : Char} (h : skipBlank s = c :: r) :
    r.length < s.length := by
  have := length_skipBlank_le s
  rw [h] at this
  exact this

theorem length_skipColon_lt {s r : List Char} (h : skipColon s = .ok r) : r.length < s.length :=
  length_of_skipBlank_eq_cons (skipBlank_of_skipColon h)

theorem length_skipName_lt {s r : List Char} (h : skipName s = .ok r) : r.length < s.length := by
  obtain ⟨k, t, hblank, htext, hcolon⟩ := exists_of_skipName h
  calc
    r.length < t.length := length_skipColon_lt hcolon
    _ < k.length := length_skipText_lt htext
    _ < s.length := length_of_skipBlank_eq_cons hblank

theorem length_skipLead_le {f : Frame} {s r : List Char} (h : skipLead f s = .ok r) :
    r.length ≤ s.length := by
  cases f with
  | array => exact Nat.le_of_eq (congrArg List.length (Except.ok.inj h).symm)
  | object => exact Nat.le_of_lt (length_skipName_lt h)

/-! ## Nested values -/

mutual

/-- Passes over a value and what follows it within its frames. -/
def skipFrom (frames : List Frame) (s : List Char) : Except Failure (List Char) :=
  match hs : skipBlank s with
  | [] => .error .ended
  | c :: r =>
    have := length_of_skipBlank_eq_cons hs
    if c = '[' then
      match hr' : skipBlank r with
      | [] => .error .ended
      | d :: r' =>
        have := length_of_skipBlank_eq_cons hr'
        if d = ']' then skipAfter frames r' else skipFrom (.array :: frames) r
    else if c = '{' then
      match hr' : skipBlank r with
      | [] => .error .ended
      | d :: r' =>
        have := length_of_skipBlank_eq_cons hr'
        if d = '}' then skipAfter frames r'
        else
          match hn : skipName r with
          | .error e => .error e
          | .ok r'' =>
            have := length_skipName_lt hn
            skipFrom (.object :: frames) r''
    else
      match hc : skipScalar c r with
      | .error e => .error e
      | .ok r' =>
        have := length_skipScalar_le hc
        skipAfter frames r'
termination_by s.length

/-- Passes over what follows a value within its frames. -/
def skipAfter (frames : List Frame) (s : List Char) : Except Failure (List Char) :=
  match frames with
  | [] => .ok s
  | frame :: outer =>
    match hs : skipBlank s with
    | [] => .error .ended
    | c :: r =>
      have := length_of_skipBlank_eq_cons hs
      if c = frame.close then skipAfter outer r
      else if c = ',' then
        match frame with
        | .array => skipFrom (.array :: outer) r
        | .object =>
          match hn : skipName r with
          | .error e => .error e
          | .ok r' =>
            have := length_skipName_lt hn
            skipFrom (.object :: outer) r'
      else .error .malformed
termination_by s.length

end

/-- Passes over one value. -/
def skipValue (s : List Char) : Except Failure (List Char) := skipFrom [] s

/-! ## One turn -/

variable {frames : List Frame} {f : Frame} {c : Char} {s r : List Char}

theorem skipFrom_of_blank (hs : skipBlank s = []) : skipFrom frames s = .error .ended := by
  rw [skipFrom]
  split <;> rename_i hs' <;> cases hs.symm.trans hs'
  rfl

theorem skipFrom_of_opening (hs : skipBlank s = f.opening :: r) :
    skipFrom frames s =
      match skipBlank r with
      | [] => .error .ended
      | d :: r' =>
        if d = f.close then skipAfter frames r' else (skipLead f r).bind (skipFrom (f :: frames)) := by
  rw [skipFrom]
  split <;> rename_i hs' <;> cases hs.symm.trans hs'
  cases f with
  | array =>
    simp only [Frame.opening, if_true]
    split <;> rename_i hr <;> rw [hr]
    rfl
  | object =>
    simp only [Frame.opening, Char.reduceEq, if_false, if_true]
    split <;> rename_i hr <;> rw [hr]
    rename_i d _
    by_cases hd : d = '}'
    · simp only [hd, Frame.close, if_true]
    · simp only [hd, Frame.close, if_false, skipLead]
      split <;> rename_i hn <;> rw [hn] <;> rfl

theorem skipFrom_of_scalar (hs : skipBlank s = c :: r) (hc : ∀ f : Frame, c ≠ f.opening) :
    skipFrom frames s = (skipScalar c r).bind (skipAfter frames) := by
  rw [skipFrom]
  split <;> rename_i hs' <;> cases hs.symm.trans hs'
  have harray : ¬ c = '[' := hc .array
  have hobject : ¬ c = '{' := hc .object
  simp only [harray, hobject, if_false]
  split <;> rename_i h <;> rw [h] <;> rfl

theorem skipAfter_eq (f : Frame) (frames : List Frame) (s : List Char) :
    skipAfter (f :: frames) s =
      match skipBlank s with
      | [] => .error .ended
      | c :: r =>
        if c = f.close then skipAfter frames r
        else if c = ',' then (skipLead f r).bind (skipFrom (f :: frames))
        else .error .malformed := by
  rw [skipAfter]
  split
  · rename_i hs
    rw [hs]
  · rename_i hs
    simp only [hs]
    cases f with
    | array => rfl
    | object =>
      simp only [skipLead]
      split
      · rfl
      · split
        · split <;> rename_i hn <;> rw [hn] <;> rfl
        · rfl

/-- Passing over a value either ends it or goes one frame deeper. -/
theorem skipFrom_turn (h : skipFrom frames s = .ok r) :
    ∃ s', s'.length < s.length ∧
      (skipAfter frames s' = .ok r ∨ ∃ f, skipFrom (f :: frames) s' = .ok r) := by
  cases hs : skipBlank s with
  | nil => simp [skipFrom_of_blank hs] at h
  | cons c rest =>
    have hlt := length_of_skipBlank_eq_cons hs
    by_cases hc : ∃ f : Frame, c = f.opening
    · obtain ⟨f, rfl⟩ := hc
      rw [skipFrom_of_opening hs] at h
      split at h
      · simp at h
      · rename_i hrest
        split at h
        · exact ⟨_, Nat.lt_trans (length_of_skipBlank_eq_cons hrest) hlt, .inl h⟩
        · obtain ⟨s', hlead, hfrom⟩ := bind_eq_ok h
          exact ⟨s', Nat.lt_of_le_of_lt (length_skipLead_le hlead) hlt, .inr ⟨f, hfrom⟩⟩
    · rw [skipFrom_of_scalar hs (not_exists.mp hc)] at h
      obtain ⟨s', hscalar, hafter⟩ := bind_eq_ok h
      exact ⟨s', Nat.lt_of_le_of_lt (length_skipScalar_le hscalar) hlt, .inl hafter⟩

/-- Behind a value, a frame either ends or holds one more value. -/
theorem skipAfter_turn (h : skipAfter (f :: frames) s = .ok r) :
    ∃ s', s'.length < s.length ∧
      (skipAfter frames s' = .ok r ∨ skipFrom (f :: frames) s' = .ok r) := by
  rw [skipAfter_eq] at h
  split at h
  · simp at h
  · rename_i hs
    have hlt := length_of_skipBlank_eq_cons hs
    split at h
    · exact ⟨_, hlt, .inl h⟩
    · split at h
      · obtain ⟨s', hlead, hfrom⟩ := bind_eq_ok h
        exact ⟨s', Nat.lt_of_le_of_lt (length_skipLead_le hlead) hlt, .inr hfrom⟩
      · simp at h

/-! ## What is left -/

mutual

/-- A value takes something off the front. -/
theorem length_skipFrom_lt {frames : List Frame} {s r : List Char}
    (h : skipFrom frames s = .ok r) : r.length < s.length := by
  -- Whichever function the turn goes on with is given a shorter text; both statements recur on it.
  obtain ⟨s', hlt, hafter | ⟨f, hfrom⟩⟩ := skipFrom_turn h
  · exact Nat.lt_of_le_of_lt (length_skipAfter_le hafter) hlt
  · exact Nat.lt_trans (length_skipFrom_lt hfrom) hlt
termination_by s.length

/-- What follows a value may be nothing. -/
theorem length_skipAfter_le {frames : List Frame} {s r : List Char}
    (h : skipAfter frames s = .ok r) : r.length ≤ s.length := by
  cases frames with
  | nil =>
    rw [skipAfter] at h
    obtain rfl := Except.ok.inj h
    exact Nat.le_refl _
  | cons f outer =>
    obtain ⟨s', hlt, hafter | hfrom⟩ := skipAfter_turn h
    · exact Nat.le_of_lt (Nat.lt_of_le_of_lt (length_skipAfter_le hafter) hlt)
    · exact Nat.le_of_lt (Nat.lt_trans (length_skipFrom_lt hfrom) hlt)
termination_by s.length

end

theorem length_skipValue_lt (h : skipValue s = .ok r) : r.length < s.length :=
  length_skipFrom_lt h

end MessageIndex.Json
