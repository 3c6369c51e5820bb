import MessageIndex.Proofs.ValueGrammar

/-!
# Proofs: values that are passed over

Passing a value over takes a value of the grammar and nothing else: a value is passed over to its end,
whatever follows it (`skipValue_append`), and what is passed over is a value (`exists_value`).

The skipper keeps the frames that enclose the point it has reached, and goes on through what follows a
value within them. Both directions are about one value in any frames: behind it, the skipper is where
it would be had the value not been there.
-/

namespace MessageIndex.Json

/-! ## Grammar -/

theorem Frame.opening_not_blank (f : Frame) : isBlank f.opening = false := by cases f <;> rfl

theorem Frame.close_not_blank (f : Frame) : isBlank f.close = false := by cases f <;> rfl

/-- What stands in front of a value within a frame: in an object, a name and a colon. -/
inductive Lead : Frame → List Char → Prop where
  /-- In an array nothing stands in front of a value. -/
  | array : Lead .array []
  /-- In an object a name and a colon do, with blanks before each. -/
  | object {b k b' : List Char} (hb : Blank b) (hk : Inside k) (hb' : Blank b') :
      Lead .object (b ++ '"' :: (k ++ '"' :: (b' ++ [':'])))

/-- A part of a document. -/
inductive Part where
  /-- One value. -/
  | value
  /-- What a frame holds, with the character that closes it. -/
  | items (frame : Frame)

/-- A text that may stand for a part of a document. Blanks may be in front of it, none behind it. -/
inductive Spelled : Part → List Char → Prop where
  /-- A blank in front of a value. -/
  | blank {c : Char} {t : List Char} (hc : isBlank c = true) (ht : Spelled .value t) :
      Spelled .value (c :: t)
  /-- The word for no value. -/
  | null : Spelled .value ['n', 'u', 'l', 'l']
  /-- The word for true. -/
  | true : Spelled .value ['t', 'r', 'u', 'e']
  /-- The word for false. -/
  | false : Spelled .value ['f', 'a', 'l', 's', 'e']
  /-- A number without a sign. -/
  | positive {t : List Char} (ht : Unsigned t) : Spelled .value t
  /-- A number behind a minus. -/
  | negative {t : List Char} (ht : Unsigned t) : Spelled .value ('-' :: t)
  /-- A text between quotes. -/
  | text {t : List Char} (ht : Inside t) : Spelled .value ('"' :: (t ++ ['"']))
  /-- An array or object that holds nothing. -/
  | empty (f : Frame) {b : List Char} (hb : Blank b) :
      Spelled .value (f.opening :: (b ++ [f.close]))
  /-- An array or object that holds something. -/
  | nested {f : Frame} {t : List Char} (ht : Spelled (.items f) t) : Spelled .value (f.opening :: t)
  /-- The last value in a frame, with the character that closes the frame. -/
  | last {f : Frame} {k t b : List Char} (hk : Lead f k) (ht : Spelled .value t) (hb : Blank b) :
      Spelled (.items f) (k ++ (t ++ (b ++ [f.close])))
  /-- A value in a frame, a comma, and what else the frame holds. -/
  | more {f : Frame} {k t b u : List Char} (hk : Lead f k) (ht : Spelled .value t) (hb : Blank b)
      (hu : Spelled (.items f) u) : Spelled (.items f) (k ++ (t ++ (b ++ ',' :: u)))

/-- A text that may stand for a value. -/
abbrev Value (t : List Char) : Prop := Spelled .value t

/-! ## The ways the skipper goes on -/

/-- Passes over a part of a document and what follows it within its frames. -/
def Part.skip : Part → List Frame → List Char → Except Failure (List Char)
  | value, frames, s => skipFrom frames s
  | items f, frames, s => (skipLead f s).bind (skipFrom (f :: frames))

variable {frames : List Frame} {f : Frame} {p : Part} {c d : Char} {s t b k r r' : List Char}

/-- Blanks in front of a value make no difference. -/
theorem skipFrom_congr (h : skipBlank s = skipBlank r) : skipFrom frames s = skipFrom frames r := by
  cases hs : skipBlank s with
  | nil => rw [skipFrom_of_blank hs, skipFrom_of_blank (h.symm.trans hs)]
  | cons c t =>
    have hr := h.symm.trans hs
    by_cases hc : ∃ f : Frame, c = f.opening
    · obtain ⟨f, rfl⟩ := hc
      rw [skipFrom_of_opening hs, skipFrom_of_opening hr]
    · rw [skipFrom_of_scalar hs (not_exists.mp hc), skipFrom_of_scalar hr (not_exists.mp hc)]

/-! ## Values are passed over -/

theorem skipColon_append (hb : Blank b) (s : List Char) : skipColon (b ++ ':' :: s) = .ok s := by
  rw [skipColon, skipBlank_append_cons hb rfl]
  rfl

theorem skipLead_append (hk : Lead f k) (s : List Char) : skipLead f (k ++ s) = .ok s := by
  cases hk with
  | array => rfl
  | object hb hk hb' =>
    simp only [List.append_assoc, List.cons_append, List.nil_append]
    rw [skipLead, skipName, skipBlank_append_cons hb rfl]
    simp only [if_true]
    rw [skipText_append hk]
    exact skipColon_append hb' s

theorem endsNumber_append (hb : Blank b) (hs : EndsNumber s) : EndsNumber (b ++ s) := by
  cases b with
  | nil => exact hs
  | cons c b =>
    rintro d ⟨⟩
    have hc : c = ' ' ∨ c = '\n' ∨ c = '\t' ∨ c = '\r' := by
      simpa [isBlank, or_assoc] using hb c List.mem_cons_self
    rcases hc with rfl | rfl | rfl | rfl <;> decide

theorem endsNumber_close (f : Frame) (s : List Char) : EndsNumber (f.close :: s) := by
  rintro c ⟨⟩
  cases f <;> decide

theorem endsNumber_comma (s : List Char) : EndsNumber (',' :: s) := by
  rintro c ⟨⟩
  decide

theorem ne_of_isDigit (hc : isDigit c = true) (hd : isDigit d = false) : c ≠ d := by
  rintro rfl
  exact Bool.false_ne_true (hd.symm.trans hc)

theorem skipScalar_of_digit (hc : isDigit c = true) (s : List Char) :
    skipScalar c s = skipNumber (c :: s) := by
  rw [skipScalar, if_neg (ne_of_isDigit hc rfl), if_neg (ne_of_isDigit hc rfl),
    if_neg (ne_of_isDigit hc rfl), if_neg (ne_of_isDigit hc rfl), if_neg (ne_of_isDigit hc rfl),
    if_pos hc]

theorem Unsigned.exists_digit (h : Unsigned t) : ∃ c r, t = c :: r ∧ isDigit c = true := by
  obtain ⟨⟨hc, -, -⟩, -, -⟩ := h
  exact ⟨_, _, rfl, hc⟩

/-- The first character of a part that is no blank does not close a frame. -/
theorem Spelled.exists_front (h : Spelled p t) :
    ∃ c r, (∀ s, skipBlank (t ++ s) = c :: (r ++ s)) ∧ ∀ f : Frame, c ≠ f.close := by
  have hlead {f : Frame} {k t : List Char} (hk : Lead f k)
      (ht : ∃ c r, (∀ s, skipBlank (t ++ s) = c :: (r ++ s)) ∧ ∀ f : Frame, c ≠ f.close)
      (u : List Char) :
      ∃ c r, (∀ s, skipBlank (k ++ (t ++ u) ++ s) = c :: (r ++ s)) ∧ ∀ f : Frame, c ≠ f.close := by
    cases hk with
    | array =>
      obtain ⟨c, r, hfront, hc⟩ := ht
      refine ⟨c, r ++ u, fun s => ?_, hc⟩
      rw [List.nil_append, List.append_assoc, hfront, List.append_assoc]
    | @object b k b' hb =>
      refine ⟨'"', k ++ '"' :: (b' ++ ':' :: (t ++ u)), fun s => ?_, by rintro (_ | _) <;> decide⟩
      simp only [List.append_assoc, List.cons_append, List.nil_append]
      exact skipBlank_append_cons hb rfl
  induction h with
  | blank hc _ ih =>
    obtain ⟨c, r, hfront, hne⟩ := ih
    refine ⟨c, r, fun s => ?_, hne⟩
    rw [List.cons_append, skipBlank, List.dropWhile_cons_of_pos hc]
    exact hfront s
  | null | true | false | text =>
    exact ⟨_, _, fun s => skipBlank_cons rfl, by rintro (_ | _) <;> decide⟩
  | positive ht =>
    obtain ⟨c, r, rfl, hc⟩ := ht.exists_digit
    refine ⟨c, r, fun s => skipBlank_cons (not_blank_of_digit hc), fun f => ne_of_isDigit hc ?_⟩
    cases f <;> rfl
  | negative => exact ⟨_, _, fun s => skipBlank_cons rfl, by rintro (_ | _) <;> decide⟩
  | empty f | @nested f =>
    refine ⟨f.opening, _, fun s => skipBlank_cons f.opening_not_blank, ?_⟩
    cases f <;> rintro (_ | _) <;> decide
  | last hk _ _ ih => exact hlead hk ih _
  | more hk _ _ _ ih => exact hlead hk ih _

theorem skip_scalar (hblank : isBlank c = false) (hc : ∀ f : Frame, c ≠ f.opening)
    (h : skipScalar c (t ++ s) = .ok s) (frames : List Frame) :
    Part.value.skip frames (c :: t ++ s) = skipAfter frames s := by
  rw [List.cons_append, Part.skip, skipFrom_of_scalar (skipBlank_cons hblank) hc, h]
  rfl

/-- Behind a part, the skipper is where it would be had the part not been there. -/
theorem skip_append (h : Spelled p t) :
    ∀ frames s, EndsNumber s → p.skip frames (t ++ s) = skipAfter frames s := by
  induction h with
  | @blank c t hc ht ih =>
    intro frames s hs
    have hblank : skipBlank (c :: t ++ s) = skipBlank (t ++ s) := by
      rw [List.cons_append, skipBlank, List.dropWhile_cons_of_pos hc]
      rfl
    rw [← ih frames s hs]
    exact skipFrom_congr hblank
  | null | true | false =>
    intro frames s _
    exact skip_scalar rfl (by rintro (_ | _) <;> decide) rfl frames
  | positive ht =>
    intro frames s hs
    obtain ⟨c, r, rfl, hc⟩ := ht.exists_digit
    refine skip_scalar (not_blank_of_digit hc) (fun f => ne_of_isDigit hc ?_) ?_ frames
    · cases f <;> rfl
    · rw [skipScalar_of_digit hc]
      exact skipNumber_append ht hs
  | @negative t ht =>
    intro frames s hs
    have hscalar : skipScalar '-' (t ++ s) = .ok s := skipNumber_append ht hs
    exact skip_scalar rfl (by rintro (_ | _) <;> decide) hscalar frames
  | text ht =>
    intro frames s _
    refine skip_scalar rfl (by rintro (_ | _) <;> decide) ?_ frames
    rw [List.append_assoc]
    exact skipText_append ht s
  | empty f hb =>
    intro frames s _
    rw [List.cons_append, List.append_assoc, Part.skip,
      skipFrom_of_opening (skipBlank_cons f.opening_not_blank), List.cons_append,
      skipBlank_append_cons hb f.close_not_blank]
    simp only [if_true, List.nil_append]
  | @nested f t ht ih =>
    intro frames s hs
    obtain ⟨c, r, hfront, hc⟩ := ht.exists_front
    rw [List.cons_append, Part.skip, skipFrom_of_opening (skipBlank_cons f.opening_not_blank), hfront]
    simp only [if_neg (hc f)]
    exact ih frames s hs
  | @last f k t b hk ht hb ih =>
    intro frames s _
    have hvalue := ih (f :: frames) (b ++ f.close :: s) (endsNumber_append hb (endsNumber_close f s))
    rw [List.append_assoc, List.append_assoc, List.append_assoc, Part.skip, skipLead_append hk]
    refine hvalue.trans ?_
    rw [skipAfter_eq, skipBlank_append_cons hb f.close_not_blank]
    simp only [if_true]
  | @more f k t b u hk ht hb hu ih ihu =>
    intro frames s hs
    have hvalue := ih (f :: frames) (b ++ ',' :: (u ++ s)) (endsNumber_append hb (endsNumber_comma _))
    have hclose : ',' ≠ f.close := by cases f <;> decide
    rw [List.append_assoc, List.append_assoc, List.append_assoc, Part.skip, skipLead_append hk]
    refine hvalue.trans ?_
    rw [skipAfter_eq, skipBlank_append_cons hb rfl]
    simp only [if_neg hclose, if_true]
    exact ihu frames s hs

/-- A value is passed over to its end, whatever follows. -/
theorem skipValue_append (h : Value t) (hs : EndsNumber s) : skipValue (t ++ s) = .ok s :=
  (skip_append h [] s hs).trans (by rw [skipAfter])

/-! ## What is passed over is a value -/

theorem exists_colon (h : skipColon s = .ok r) : ∃ b, Blank b ∧ s = b ++ ':' :: r :=
  exists_blank (skipBlank_of_skipColon h)

theorem exists_lead (h : skipLead f s = .ok r) : ∃ k, Lead f k ∧ s = k ++ r := by
  cases f with
  | array => exact ⟨[], .array, Except.ok.inj h⟩
  | object =>
    obtain ⟨k, t, hblank, htext, hcolon⟩ := exists_of_skipName h
    obtain ⟨b, hb, rfl⟩ := exists_blank hblank
    obtain ⟨k, hk, rfl⟩ := exists_inside htext
    obtain ⟨b', hb', rfl⟩ := exists_colon hcolon
    exact ⟨_, .object hb hk hb', by simp⟩

theorem exists_scalar (h : skipScalar c s = .ok r) : ∃ t, Value (c :: t) ∧ s = t ++ r := by
  obtain ⟨rfl, h⟩ | ⟨rfl, h⟩ | ⟨rfl, h⟩ | ⟨rfl, h⟩ | ⟨rfl, h⟩ | ⟨-, h⟩ := skipScalar_cases h
  · exact ⟨_, .null, eq_append_of_word h⟩
  · exact ⟨_, .true, eq_append_of_word h⟩
  · exact ⟨_, .false, eq_append_of_word h⟩
  · obtain ⟨t, ht, rfl⟩ := exists_inside h
    exact ⟨t ++ ['"'], .text ht, by rw [List.append_assoc]; rfl⟩
  · obtain ⟨t, ht, rfl⟩ := exists_unsigned h
    exact ⟨t, .negative ht, rfl⟩
  · obtain ⟨t, ht, heq⟩ := exists_unsigned h
    obtain ⟨d, t, rfl, -⟩ := ht.exists_digit
    obtain ⟨rfl, rfl⟩ := List.cons.inj heq
    exact ⟨t, .positive ht, rfl⟩

theorem Spelled.append_blank (hb : Blank b) (ht : Value t) : Value (b ++ t) := by
  induction b with
  | nil => exact ht
  | cons c b ih =>
    obtain ⟨hc, hb⟩ := List.forall_mem_cons.mp hb
    exact .blank hc (ih hb)

/-- A part of the grammar is in front of a text, and what follows it is passed over. -/
def Part.InFront (p : Part) (frames : List Frame) (s r : List Char) : Prop :=
  ∃ t u, Spelled p t ∧ s = t ++ u ∧ skipAfter frames u = .ok r

theorem value_inFront
    (hitems : ∀ f s', s'.length < s.length → (Part.items f).skip frames s' = .ok r →
      (Part.items f).InFront frames s' r)
    (h : skipFrom frames s = .ok r) : Part.value.InFront frames s r := by
  cases hs : skipBlank s with
  | nil => simp [skipFrom_of_blank hs] at h
  | cons c rest =>
    obtain ⟨b, hb, rfl⟩ := exists_blank hs
    by_cases hc : ∃ f : Frame, c = f.opening
    · obtain ⟨f, rfl⟩ := hc
      rw [skipFrom_of_opening hs] at h
      split at h
      · simp at h
      · rename_i hrest
        obtain ⟨b', hb', rfl⟩ := exists_blank hrest
        split at h
        · rename_i hclose
          refine ⟨_, _, .append_blank hb (.empty f hb'), ?_, h⟩
          rw [hclose]
          simp
        · obtain ⟨t, u, ht, heq, hafter⟩ := hitems f _ (by simp; omega) h
          refine ⟨_, u, .append_blank hb (.nested ht), ?_, hafter⟩
          rw [heq]
          simp
    · rw [skipFrom_of_scalar hs (not_exists.mp hc)] at h
      obtain ⟨u, hscalar, hafter⟩ := bind_eq_ok h
      obtain ⟨t, ht, rfl⟩ := exists_scalar hscalar
      exact ⟨_, u, .append_blank hb ht, by simp, hafter⟩

theorem items_inFront
    (hvalue : ∀ s', s'.length ≤ s.length → skipFrom (f :: frames) s' = .ok r →
      Part.value.InFront (f :: frames) s' r)
    (hitems : ∀ s', s'.length < s.length → (Part.items f).skip frames s' = .ok r →
      (Part.items f).InFront frames s' r)
    (h : (Part.items f).skip frames s = .ok r) : (Part.items f).InFront frames s r := by
  obtain ⟨s', hlead, hfrom⟩ := bind_eq_ok h
  obtain ⟨k, hk, rfl⟩ := exists_lead hlead
  obtain ⟨t, u, ht, rfl, hafter⟩ := hvalue s' (by simp) hfrom
  rw [skipAfter_eq] at hafter
  split at hafter
  · simp at hafter
  · rename_i hu
    obtain ⟨b, hb, rfl⟩ := exists_blank hu
    split at hafter
    · rename_i hclose
      refine ⟨_, _, .last hk ht hb, ?_, hafter⟩
      rw [hclose]
      simp
    · split at hafter
      · rename_i hcomma
        obtain ⟨t', u', ht', heq, hafter'⟩ := hitems _ (by simp; omega) hafter
        refine ⟨_, u', .more hk ht hb ht', ?_, hafter'⟩
        rw [heq, hcomma]
        simp
      · simp at hafter

/-- What is passed over is a part of the grammar, and then what follows it is passed over. -/
theorem exists_spelled (n : Nat) :
    ∀ p frames s, s.length < n → Part.skip p frames s = .ok r → p.InFront frames s r := by
  induction n with
  | zero => exact fun p frames s hs => absurd hs (Nat.not_lt_zero _)
  | succ n ih =>
    -- The first value in a frame may be as long as all that the frame holds, so values come first.
    have hvalue : ∀ frames s, s.length < n + 1 → skipFrom frames s = .ok r →
        Part.value.InFront frames s r := by
      intro frames s hs
      exact value_inFront fun f s' hlt => ih (.items f) frames s' (by omega)
    intro p frames s hs h
    cases p with
    | value => exact hvalue frames s hs h
    | items f =>
      refine items_inFront (fun s' hle => ?_) (fun s' hlt => ?_) h
      · exact hvalue (f :: frames) s' (by omega)
      · exact ih (.items f) frames s' (by omega)

/-- What is passed over is a value. -/
theorem exists_value (h : skipValue s = .ok r) : ∃ t, Value t ∧ s = t ++ r := by
  obtain ⟨t, u, ht, rfl, hafter⟩ := exists_spelled (s.length + 1) .value [] s (Nat.lt_succ_self _) h
  rw [skipAfter] at hafter
  obtain rfl := Except.ok.inj hafter
  exact ⟨t, ht, rfl⟩

end MessageIndex.Json
