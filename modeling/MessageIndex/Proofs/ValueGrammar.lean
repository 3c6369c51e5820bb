import MessageIndex.Json.Skip
import MessageIndex.Proofs.WrittenValues

/-!
# Proofs: the grammar of values

The grammar of documents after RFC 8259, as texts that may stand for a value. Every part is met by the
functions that pass it over: they take a text of the grammar, all of it and nothing of what follows
(`skipText_append`, `skipNumber_append`), and what they take is such a text (`exists_inside`,
`exists_numeral`).

The grammar lets any four hexadecimal digits stand in a text, also half of a surrogate pair. Only some texts
spell characters (`Spells`); these are the ones that can be read.
-/

namespace MessageIndex.Json

/-- Nothing but blanks. -/
def Blank (b : List Char) : Prop := ∀ c ∈ b, isBlank c = true

theorem blank_nil : Blank [] := List.forall_mem_nil _

theorem skipBlank_append {b : List Char} (hb : Blank b) (s : List Char) :
    skipBlank (b ++ s) = skipBlank s :=
  List.dropWhile_append_of_pos hb

theorem skipBlank_append_cons {b s : List Char} {c : Char} (hb : Blank b) (hc : isBlank c = false) :
    skipBlank (b ++ c :: s) = c :: s := by
  rw [skipBlank_append hb, skipBlank_cons hc]

/-- What is passed over as blank is blank. -/
theorem exists_blank {s r : List Char} {c : Char} (h : skipBlank s = c :: r) :
    ∃ b, Blank b ∧ s = b ++ c :: r := by
  refine ⟨s.takeWhile isBlank, List.all_eq_true.mp List.all_takeWhile, ?_⟩
  rw [← h]
  exact List.takeWhile_append_dropWhile.symm

/-! ## Words -/

theorem word_append (letters s : List Char) : word letters (letters ++ s) = .ok s := by
  induction letters with
  | nil => rfl
  | cons c letters ih => rw [List.cons_append, word, if_pos rfl, ih]

theorem eq_append_of_word {letters s r : List Char} (h : word letters s = .ok r) : s = letters ++ r := by
  induction letters generalizing s with
  | nil => exact Except.ok.inj h
  | cons c letters ih =>
    cases s with
    | nil => simp [word] at h
    | cons d s =>
      rw [word] at h
      split at h
      · rename_i heq
        rw [ih h, heq, List.cons_append]
      · simp at h

/-! ## Texts -/

/-- Four hexadecimal digits and their number. -/
inductive Hex : List Char → Nat → Prop where
  /-- Four digits in upper or lower case, the one that counts most first. -/
  | digits {a b c d : Char} {i j k l : Nat} (ha : hexValue? a = some i) (hb : hexValue? b = some j)
      (hc : hexValue? c = some k) (hd : hexValue? d = some l) :
      Hex [a, b, c, d] (((i * 16 + j) * 16 + k) * 16 + l)

/-- What may stand between the quotes of a text. -/
inductive Inside : List Char → Prop where
  /-- An empty text. -/
  | nil : Inside []
  /-- A character that needs no escape. -/
  | plain {c : Char} {t : List Char} (hquote : c ≠ '"') (hbackslash : c ≠ '\\')
      (hcontrol : isControl c = false) (ht : Inside t) : Inside (c :: t)
  /-- An escape of one letter. -/
  | letter {c d : Char} {t : List Char} (hc : shortEscape? c = some d) (ht : Inside t) :
      Inside ('\\' :: c :: t)
  /-- An escape by number, which may be one half of a surrogate pair. -/
  | number {u t : List Char} {n : Nat} (hu : Hex u n) (ht : Inside t) : Inside ('\\' :: 'u' :: (u ++ t))

/-- The character that an escape stands for, behind its backslash. -/
inductive Escape : List Char → Char → Prop where
  /-- One letter or sign. -/
  | letter {c d : Char} (hc : shortEscape? c = some d) : Escape [c] d
  /-- A number that is no half of a surrogate pair. -/
  | number {u : List Char} {n : Nat} (hu : Hex u n) (htrailing : isTrailing n = false)
      (hleading : isLeading n = false) : Escape ('u' :: u) (Char.ofNat n)
  /-- Both halves of a surrogate pair, one behind the other. -/
  | pair {u u' : List Char} {n n' : Nat} (hu : Hex u n) (htrailing : isTrailing n = false)
      (hleading : isLeading n = true) (hu' : Hex u' n') (htrailing' : isTrailing n' = true) :
      Escape ('u' :: (u ++ '\\' :: 'u' :: u'))
        (Char.ofNat (0x10000 + (n - 0xD800) * 0x400 + (n' - 0xDC00)))

/-- The characters that are spelled between the quotes of a text. -/
inductive Spells : List Char → List Char → Prop where
  /-- An empty text spells no characters. -/
  | nil : Spells [] []
  /-- A character that needs no escape spells itself. -/
  | plain {c : Char} {t cs : List Char} (hquote : c ≠ '"') (hbackslash : c ≠ '\\')
      (hcontrol : isControl c = false) (ht : Spells t cs) : Spells (c :: t) (c :: cs)
  /-- An escape spells the character that it stands for. -/
  | escape {e t cs : List Char} {c : Char} (he : Escape e c) (ht : Spells t cs) :
      Spells ('\\' :: (e ++ t)) (c :: cs)

theorem Spells.inside {t cs : List Char} (h : Spells t cs) : Inside t := by
  induction h with
  | nil => exact .nil
  | plain hquote hbackslash hcontrol _ ih => exact .plain hquote hbackslash hcontrol ih
  | escape he _ ih =>
    cases he with
    | letter hc => exact .letter hc ih
    | number hu => exact .number hu ih
    | pair hu _ _ hu' =>
      rw [List.cons_append, List.append_assoc]
      exact .number hu (.number hu' ih)

theorem hexUnit_append {u : List Char} {n : Nat} (h : Hex u n) (s : List Char) :
    hexUnit (u ++ s) = .ok (n, s) := by
  obtain ⟨ha, hb, hc, hd⟩ := h
  simp only [List.cons_append, List.nil_append, hexUnit, ha, hb, hc, hd]

theorem exists_hex {s r : List Char} {n : Nat} (h : hexUnit s = .ok (n, r)) :
    ∃ u, Hex u n ∧ s = u ++ r := by
  unfold hexUnit at h
  split at h
  · split at h
    · rename_i ha hb hc hd
      obtain ⟨rfl, rfl⟩ := Prod.mk.inj (Except.ok.inj h)
      exact ⟨_, .digits ha hb hc hd, rfl⟩
    · simp at h
  · simp at h

theorem escape_append {e : List Char} {c : Char} (h : Escape e c) (s : List Char) :
    escape (e ++ s) = .ok (c, s) := by
  cases h with
  | letter hc =>
    rw [List.cons_append, List.nil_append, escape]
    · rw [hc]
    · rintro rfl
      simp [shortEscape?] at hc
  | number hu htrailing hleading =>
    rw [List.cons_append, escape, numberEscape, hexUnit_append hu]
    simp only [htrailing, hleading, Bool.false_eq_true, if_false]
  | pair hu htrailing hleading hu' htrailing' =>
    rw [List.cons_append, List.append_assoc, escape, numberEscape, hexUnit_append hu]
    simp only [htrailing, hleading, Bool.false_eq_true, if_false, if_true, List.cons_append,
      pairEscape, hexUnit_append hu', htrailing']

theorem exists_trailing {leading : Nat} {s r : List Char} {c : Char}
    (h : pairEscape leading s = .ok (c, r)) :
    ∃ u n, Hex u n ∧ isTrailing n = true ∧ s = '\\' :: 'u' :: (u ++ r) ∧
      c = Char.ofNat (0x10000 + (leading - 0xD800) * 0x400 + (n - 0xDC00)) := by
  unfold pairEscape at h
  split at h
  · simp at h
  · simp at h
  · split at h
    · simp at h
    · rename_i hn
      obtain ⟨u, hu, rfl⟩ := exists_hex hn
      split at h
      · rename_i htrailing
        obtain ⟨heq, rfl⟩ := Prod.mk.inj (Except.ok.inj h)
        exact ⟨u, _, hu, htrailing, rfl, heq.symm⟩
      · simp at h
  · simp at h

theorem exists_numberEscape {s r : List Char} {c : Char} (h : numberEscape s = .ok (c, r)) :
    ∃ e, Escape ('u' :: e) c ∧ s = e ++ r := by
  unfold numberEscape at h
  split at h
  · simp at h
  · rename_i hn
    obtain ⟨u, hu, rfl⟩ := exists_hex hn
    split at h
    · simp at h
    · rename_i htrailing
      have htrailing := eq_false_of_ne_true htrailing
      split at h
      · rename_i hleading
        obtain ⟨u', n', hu', htrailing', hr, hc⟩ := exists_trailing h
        rw [hr, hc]
        exact ⟨_, .pair hu htrailing hleading hu' htrailing', by simp⟩
      · rename_i hleading
        obtain ⟨rfl, rfl⟩ := Prod.mk.inj (Except.ok.inj h)
        exact ⟨u, .number hu htrailing (eq_false_of_ne_true hleading), rfl⟩

theorem exists_escape {s r : List Char} {c : Char} (h : escape s = .ok (c, r)) :
    ∃ e, Escape e c ∧ s = e ++ r := by
  unfold escape at h
  split at h
  · simp at h
  · obtain ⟨e, he, rfl⟩ := exists_numberEscape h
    exact ⟨_, he, rfl⟩
  · split at h
    · rename_i hc
      obtain ⟨rfl, rfl⟩ := Prod.mk.inj (Except.ok.inj h)
      exact ⟨[_], .letter hc, rfl⟩
    · simp at h

/-- A text that spells characters is read as these, up to its closing quote. -/
theorem textRest_append {t cs : List Char} (h : Spells t cs) (s : List Char) :
    textRest (t ++ '"' :: s) = .ok (cs, s) := by
  induction h with
  | nil => rw [List.nil_append, textRest]
  | plain hquote hbackslash hcontrol _ ih =>
    rw [List.cons_append, textRest_of_plain hquote hbackslash hcontrol, ih]
    rfl
  | escape he _ ih =>
    rw [List.cons_append, List.append_assoc, textRest_of_escape (escape_append he _), ih]
    rfl

theorem exists_spells {s cs r : List Char} (h : textRest s = .ok (cs, r)) :
    ∃ t, Spells t cs ∧ s = t ++ '"' :: r := by
  fun_induction textRest s generalizing cs with
  | case1 => simp at h
  | case2 s =>
    obtain ⟨rfl, rfl⟩ := Prod.mk.inj (Except.ok.inj h)
    exact ⟨[], .nil, rfl⟩
  | case3 => simp at h
  | case4 s c s' he _ ih =>
    obtain ⟨⟨cs', r'⟩, hrest, heq⟩ := map_eq_ok h
    obtain ⟨rfl, rfl⟩ := Prod.mk.inj heq
    obtain ⟨e, hescape, rfl⟩ := exists_escape he
    obtain ⟨t, ht, rfl⟩ := ih hrest
    exact ⟨_, .escape hescape ht, by simp⟩
  | case5 => simp at h
  | case6 c s hquote hbackslash hcontrol ih =>
    obtain ⟨⟨cs', r'⟩, hrest, heq⟩ := map_eq_ok h
    obtain ⟨rfl, rfl⟩ := Prod.mk.inj heq
    obtain ⟨t, ht, rfl⟩ := ih hrest
    exact ⟨_, .plain hquote hbackslash (eq_false_of_ne_true hcontrol) ht, rfl⟩

theorem skipText_of_escape {s r : List Char} (h : skipEscape s = .ok r) :
    skipText ('\\' :: s) = skipText r := by
  rw [skipText]
  split <;> rename_i he <;> cases h.symm.trans he
  rfl

theorem skipText_append {t : List Char} (h : Inside t) (s : List Char) :
    skipText (t ++ '"' :: s) = .ok s := by
  induction h with
  | nil => rw [List.nil_append, skipText]
  | plain hquote hbackslash hcontrol _ ih =>
    rw [List.cons_append, skipText, hcontrol]
    · exact ih
    · exact hquote
    · exact hbackslash
  | @letter c d t hc _ ih =>
    have hskip : skipEscape (c :: (t ++ '"' :: s)) = .ok (t ++ '"' :: s) := by
      rw [skipEscape]
      · rw [hc]
        rfl
      · rintro rfl
        simp [shortEscape?] at hc
    exact (skipText_of_escape hskip).trans ih
  | @number u t n hu _ ih =>
    have hskip : skipEscape ('u' :: (u ++ (t ++ '"' :: s))) = .ok (t ++ '"' :: s) := by
      rw [skipEscape, hexUnit_append hu]
      rfl
    rw [List.cons_append, List.cons_append, List.append_assoc]
    exact (skipText_of_escape hskip).trans ih

theorem exists_inside {s r : List Char} (h : skipText s = .ok r) : ∃ t, Inside t ∧ s = t ++ '"' :: r := by
  fun_induction skipText s with
  | case1 => simp at h
  | case2 s =>
    obtain rfl := Except.ok.inj h
    exact ⟨[], .nil, rfl⟩
  | case3 => simp at h
  | case4 s s' he _ ih =>
    obtain ⟨t, ht, rfl⟩ := ih h
    unfold skipEscape at he
    split at he
    · simp at he
    · obtain ⟨⟨n, r'⟩, hn, rfl⟩ := map_eq_ok he
      obtain ⟨u, hu, rfl⟩ := exists_hex hn
      exact ⟨_, .number hu ht, by simp⟩
    · split at he
      · rename_i hc
        obtain rfl := Except.ok.inj he
        obtain ⟨d, hd⟩ := Option.isSome_iff_exists.mp hc
        exact ⟨_, .letter hd ht, rfl⟩
      · simp at he
  | case5 => simp at h
  | case6 c s hquote hbackslash hcontrol ih =>
    obtain ⟨t, ht, rfl⟩ := ih h
    exact ⟨_, .plain hquote hbackslash (eq_false_of_ne_true hcontrol) ht, rfl⟩

/-- A text that is read spells what it is read as. -/
theorem spells_of_textRest {t s cs r : List Char} (ht : Inside t)
    (h : textRest (t ++ '"' :: s) = .ok (cs, r)) : r = s ∧ Spells t cs := by
  obtain ⟨t', ht', heq⟩ := exists_spells h
  have hskip := skipText_append ht s
  rw [heq, skipText_append ht'.inside] at hskip
  obtain rfl := Except.ok.inj hskip
  obtain rfl := List.append_cancel_right heq
  exact ⟨rfl, ht'⟩

/-! ## Numbers -/

/-- One digit or more. -/
def Digits (t : List Char) : Prop := t ≠ [] ∧ ∀ c ∈ t, isDigit c = true

/-- The digits before the point: a zero stands alone. -/
inductive Whole : List Char → Prop where
  /-- One digit or more; a zero in front is the only one. -/
  | digits {c : Char} {t : List Char} (hc : isDigit c = true) (ht : ∀ d ∈ t, isDigit d = true)
      (hzero : c = '0' → t = []) : Whole (c :: t)

/-- The places behind the point, with the point. -/
inductive Fraction : List Char → Prop where
  /-- There may be none. -/
  | none : Fraction []
  /-- A point and at least one digit. -/
  | places {t : List Char} (ht : Digits t) : Fraction ('.' :: t)

/-- The power of ten at the end of a number. -/
inductive Power : List Char → Prop where
  /-- There may be none. -/
  | none : Power []
  /-- The letter, perhaps a sign, and at least one digit. -/
  | digits {e : Char} {sign t : List Char} (he : e = 'e' ∨ e = 'E')
      (hsign : sign = [] ∨ sign = ['+'] ∨ sign = ['-']) (ht : Digits t) : Power (e :: (sign ++ t))

/-- A number behind its sign. -/
inductive Unsigned : List Char → Prop where
  /-- Whole digits, places and power, one behind the other. -/
  | parts {w f p : List Char} (hw : Whole w) (hf : Fraction f) (hp : Power p) : Unsigned (w ++ (f ++ p))

theorem Power.not_digit {p s : List Char} (h : Power p) (hs : EndsNumber s) :
    ∀ c ∈ (p ++ s).head?, isDigit c = false ∧ c ≠ '.' := by
  cases h with
  | none => exact fun c hc => ⟨(hs c hc).1, (hs c hc).2.1⟩
  | digits he =>
    rintro c hc
    obtain rfl := Option.some.inj hc
    rcases he with rfl | rfl
    · decide
    · decide

/-- Passes a sign over. -/
def dropSign : List Char → List Char
  | '+' :: r => r
  | '-' :: r => r
  | r => r

theorem skipPower_of_exponent {e : Char} (he : e = 'e' ∨ e = 'E') (r : List Char) :
    skipPower (e :: r) =
      if ((dropSign r).takeWhile isDigit).isEmpty then .error .malformed
      else .ok ((dropSign r).dropWhile isDigit) := by
  unfold skipPower
  simp only [if_pos he]
  split
  · rfl
  · rfl
  · rename_i hplus hminus
    rw [dropSign]
    · exact hplus
    · exact hminus

theorem skipPower_of_other {s : List Char} (h : ∀ c ∈ s.head?, c ≠ 'e' ∧ c ≠ 'E') :
    skipPower s = .ok s := by
  unfold skipPower
  cases s with
  | nil => rfl
  | cons c s => exact if_neg fun he => he.elim (h c rfl).1 (h c rfl).2

theorem dropSign_append {sign t : List Char} (hsign : sign = [] ∨ sign = ['+'] ∨ sign = ['-'])
    (ht : Digits t) (s : List Char) : dropSign (sign ++ (t ++ s)) = t ++ s := by
  obtain ⟨hne, hdigits⟩ := ht
  rcases hsign with rfl | rfl | rfl
  · -- A digit is none of the two signs, so it is not mistaken for one.
    rw [List.nil_append]
    cases t with
    | nil => exact absurd rfl hne
    | cons d t =>
      have hd := hdigits d List.mem_cons_self
      unfold dropSign
      split
      · rename_i heq
        obtain ⟨rfl, -⟩ := List.cons.inj heq
        cases hd
      · rename_i heq
        obtain ⟨rfl, -⟩ := List.cons.inj heq
        cases hd
      · rfl
  · rfl
  · rfl

theorem exists_sign (r : List Char) :
    ∃ sign, (sign = [] ∨ sign = ['+'] ∨ sign = ['-']) ∧ r = sign ++ dropSign r := by
  unfold dropSign
  split
  · exact ⟨['+'], .inr (.inl rfl), rfl⟩
  · exact ⟨['-'], .inr (.inr rfl), rfl⟩
  · exact ⟨[], .inl rfl, rfl⟩

theorem skipPower_append {p s : List Char} (h : Power p) (hs : EndsNumber s) :
    skipPower (p ++ s) = .ok s := by
  cases h with
  | none => exact skipPower_of_other fun c hc => (hs c hc).2.2
  | @digits e sign t he hsign ht =>
    rw [List.cons_append, List.append_assoc, skipPower_of_exponent he, dropSign_append hsign ht,
      takeWhile_isDigit ht.2 hs.not_digit, dropWhile_isDigit ht.2 hs.not_digit, if_neg]
    exact fun hempty => ht.1 (List.isEmpty_iff.mp hempty)

/-- Digits in front are followed by something that is none. -/
theorem exists_digits (s : List Char) :
    ∃ t, (∀ c ∈ t, isDigit c = true) ∧ s.takeWhile isDigit = t ∧ s = t ++ s.dropWhile isDigit :=
  ⟨_, List.all_eq_true.mp List.all_takeWhile, rfl, List.takeWhile_append_dropWhile.symm⟩

theorem exists_power {s r : List Char} (h : skipPower s = .ok r) : ∃ p, Power p ∧ s = p ++ r := by
  cases s with
  | nil =>
    obtain rfl := Except.ok.inj h
    exact ⟨[], .none, rfl⟩
  | cons e s =>
    by_cases he : e = 'e' ∨ e = 'E'
    · rw [skipPower_of_exponent he] at h
      obtain ⟨sign, hsign, hs⟩ := exists_sign s
      obtain ⟨t, ht, htake, hrest⟩ := exists_digits (dropSign s)
      rw [htake] at h
      split at h
      · simp at h
      · rename_i hne
        have hdigits : Digits t := ⟨fun hnil => hne (List.isEmpty_iff.mpr hnil), ht⟩
        rw [Except.ok.inj h] at hrest
        exact ⟨_, .digits he hsign hdigits, by rw [hs, hrest]; simp⟩
    · have hother : ∀ c ∈ (e :: s).head?, c ≠ 'e' ∧ c ≠ 'E' := by
        rintro c ⟨⟩
        exact not_or.mp he
      rw [skipPower_of_other hother] at h
      obtain rfl := Except.ok.inj h
      exact ⟨[], .none, rfl⟩

/-- What no function refuses before it looks behind the digits. -/
theorem Whole.of_accepted {c : Char} {t : List Char}
    (h : ¬ (¬ isDigit c = true ∨ c = '0' ∧ ¬ t.isEmpty = true)) (ht : ∀ d ∈ t, isDigit d = true) :
    Whole (c :: t) := by
  obtain ⟨hc, hzero⟩ := not_or.mp h
  refine .digits (Decidable.not_not.mp hc) ht fun h0 => ?_
  cases t with
  | nil => rfl
  | cons d t => exact absurd ⟨h0, Bool.false_ne_true⟩ hzero

/-- Passes over what follows the digits before the point. -/
def skipPlaces : List Char → Except Failure (List Char)
  | '.' :: r =>
    if (r.takeWhile isDigit).isEmpty then .error .malformed else skipPower (r.dropWhile isDigit)
  | s => skipPower s

theorem skipNumber_cons (c : Char) (s : List Char) :
    skipNumber (c :: s) =
      if ¬ isDigit c ∨ (c = '0' ∧ ¬ (s.takeWhile isDigit).isEmpty) then .error .malformed
      else skipPlaces (s.dropWhile isDigit) := by
  rw [skipNumber]
  split
  · rfl
  · split
    · rename_i hpoint
      rw [hpoint, skipPlaces]
    · rename_i hother
      rw [skipPlaces]
      exact hother

theorem skipNumber_whole {w s : List Char} (hw : Whole w) (hs : ∀ c ∈ s.head?, isDigit c = false) :
    skipNumber (w ++ s) = skipPlaces s := by
  obtain @⟨c, t, hc, ht, hzero⟩ := hw
  have hfirst : ¬ (¬ isDigit c = true ∨ c = '0' ∧ ¬ t.isEmpty = true) := by
    rintro (hno | ⟨h0, hne⟩)
    · exact hno hc
    · exact hne (by rw [hzero h0]; rfl)
  rw [List.cons_append, skipNumber_cons, takeWhile_isDigit ht hs, dropWhile_isDigit ht hs,
    if_neg hfirst]

theorem skipPlaces_append {f p s : List Char} (hf : Fraction f) (hp : Power p) (hs : EndsNumber s) :
    skipPlaces (f ++ (p ++ s)) = .ok s := by
  have hend := hp.not_digit hs
  cases hf with
  | none =>
    rw [List.nil_append]
    unfold skipPlaces
    split
    · rename_i heq
      exact absurd rfl (hend '.' (by rw [heq]; rfl)).2
    · exact skipPower_append hp hs
  | @places places hplaces =>
    have hdigit := fun c hc => (hend c hc).1
    rw [List.cons_append, skipPlaces, takeWhile_isDigit hplaces.2 hdigit,
      dropWhile_isDigit hplaces.2 hdigit, if_neg, skipPower_append hp hs]
    exact fun hempty => hplaces.1 (List.isEmpty_iff.mp hempty)

theorem Fraction.not_digit {f s : List Char} (h : Fraction f)
    (hs : ∀ c ∈ s.head?, isDigit c = false) : ∀ c ∈ (f ++ s).head?, isDigit c = false := by
  cases h with
  | none => exact hs
  | places =>
    rintro c ⟨⟩
    rfl

theorem skipNumber_append {t s : List Char} (h : Unsigned t) (hs : EndsNumber s) :
    skipNumber (t ++ s) = .ok s := by
  obtain ⟨hw, hf, hp⟩ := h
  have hend := hf.not_digit fun c hc => (hp.not_digit hs c hc).1
  rw [List.append_assoc, List.append_assoc, skipNumber_whole hw hend, skipPlaces_append hf hp hs]

theorem exists_places {s r : List Char} (h : skipPlaces s = .ok r) :
    ∃ f p, Fraction f ∧ Power p ∧ s = f ++ (p ++ r) := by
  unfold skipPlaces at h
  split at h
  · rename_i s
    obtain ⟨t, ht, htake, hs⟩ := exists_digits s
    rw [htake] at h
    split at h
    · simp at h
    · rename_i hne
      obtain ⟨p, hp, hpower⟩ := exists_power h
      rw [hpower] at hs
      have hdigits : Digits t := ⟨fun hnil => hne (List.isEmpty_iff.mpr hnil), ht⟩
      exact ⟨_, p, .places hdigits, hp, by rw [hs, List.cons_append]⟩
  · obtain ⟨p, hp, hpower⟩ := exists_power h
    exact ⟨[], p, .none, hp, hpower⟩

/-- What is passed over as a number is one. -/
theorem exists_unsigned {s r : List Char} (h : skipNumber s = .ok r) :
    ∃ t, Unsigned t ∧ s = t ++ r := by
  cases s with
  | nil => simp [skipNumber] at h
  | cons c s =>
    obtain ⟨t, ht, htake, hs⟩ := exists_digits s
    rw [skipNumber_cons, htake] at h
    split at h
    · simp at h
    · rename_i hfirst
      obtain ⟨f, p, hf, hp, hplaces⟩ := exists_places h
      refine ⟨_, .parts (.of_accepted hfirst ht) hf hp, ?_⟩
      rw [hs, hplaces]
      simp

end MessageIndex.Json
