import Mathlib.Data.List.DropRight
import MessageIndex.Proofs.SkippedValues

/-!
# Proofs: what readers take

A reader takes a value where the skipper would, and takes it for the same whatever follows it
(`Reader.Faithful`). So a value that stands somewhere in a document can be read there just as well as
anywhere else, and the reader stops where the value ends (`Reader.Faithful.reads_value`).
-/

namespace MessageIndex.Json

variable {α β : Type} {s t r : List Char} {c : Char}

theorem skipValue_of_scalar (hs : skipBlank s = c :: t) (hc : ∀ f : Frame, c ≠ f.opening) :
    skipValue s = skipScalar c t := by
  rw [skipValue, skipFrom_of_scalar hs hc]
  cases skipScalar c t with
  | error e => rfl
  | ok r => exact skipAfter.eq_1 r

/-! ## Numbers -/

theorem finish_ne_natural {negative : Bool} {digits : Nat} {n : UInt64}
    {p : Except Failure (Int × List Char)} : p.bind (finish negative digits) ≠ .ok (.natural n, r) := by
  intro h
  obtain ⟨p, -, hfinish⟩ := bind_eq_ok h
  unfold finish at hfinish
  split at hfinish
  · simp at hfinish
  · obtain ⟨hnumber, -⟩ := Prod.mk.inj (Except.ok.inj hfinish)
    cases hnumber

theorem natural_of_integer {negative : Bool} {digits : Nat} {n : UInt64}
    (h : integer negative digits = .natural n) : negative = false ∧ n = digits.toUInt64 := by
  unfold integer at h
  split at h
  · rename_i hsign
    exact ⟨eq_false_of_ne_true hsign, (Number.natural.inj h).symm⟩
  · split at h <;> cases h

/-- Behind the digits of an integer, no number goes on. -/
theorem endsNumber_dropWhile (hpoint : ∀ r, s.dropWhile isDigit = '.' :: r → False)
    (he : (s.dropWhile isDigit).head? ≠ some 'e') (hE : (s.dropWhile isDigit).head? ≠ some 'E') :
    EndsNumber (s.dropWhile isDigit) := by
  intro d hd
  refine ⟨?_, ?_, ?_, ?_⟩
  · have hne := List.head?_dropWhile_not isDigit s
    rw [hd] at hne
    exact eq_false_of_ne_true (by simpa using hne)
  · rintro rfl
    obtain ⟨r, hr⟩ := List.head?_eq_some_iff.mp hd
    exact hpoint r hr
  · rintro rfl
    exact he hd
  · rintro rfl
    exact hE hd

/-- A natural number is its digits, and these end where it ends. -/
theorem exists_digits_of_readNumber {negative : Bool} {n : UInt64}
    (h : readNumber negative s = .ok (.natural n, r)) :
    negative = false ∧ EndsNumber r ∧
      ∃ w m, Whole w ∧ s = w ++ r ∧ takeDigits 0 w = (m, []) ∧ n = m.toUInt64 := by
  cases s with
  | nil => simp [readNumber] at h
  | cons c s =>
    obtain ⟨t, ht, htake, hs⟩ := exists_digits s
    rw [readNumber] at h
    simp only [htake] at h
    split at h
    · simp at h
    · rename_i hfirst
      split at h
      · split at h
        · simp at h
        · exact absurd h finish_ne_natural
      · rename_i hpoint
        split at h
        · rename_i hwhole
          obtain ⟨hleft, he, hE⟩ := hwhole
          obtain ⟨hnumber, rfl⟩ := Prod.mk.inj (Except.ok.inj h)
          obtain ⟨rfl, rfl⟩ := natural_of_integer hnumber
          have hfits : takeDigits 0 (c :: t) = ((takeDigits 0 (c :: t)).1, []) :=
            Prod.ext rfl (List.isEmpty_iff.mp hleft)
          exact ⟨rfl, endsNumber_dropWhile hpoint he hE, c :: t, _, .of_accepted hfirst ht,
            by rw [List.cons_append, ← hs], hfits, rfl⟩
        · exact absurd h finish_ne_natural

namespace Reader

/-- What a reader takes is a value that it takes for the same whatever follows it. -/
structure Faithful (reader : Reader α) : Prop where
  /-- Blanks in front of a value make no difference. -/
  blank : ∀ {s s'}, skipBlank s = skipBlank s' → reader.run s = reader.run s'
  /-- What is read can be passed over, and then the same is left. -/
  skips : ∀ {s r a}, reader.run s = .ok (a, r) → skipValue s = .ok r
  /-- What is read stands in front, and is read for the same value before any other rest. -/
  reads : ∀ {s r a}, reader.run s = .ok (a, r) → ∃ t, s = t ++ r ∧ reader.Reads t a

variable {reader : Reader α}

theorem Reads.append_blank {b : List Char} {a : α} (hr : reader.Faithful) (hb : Blank b)
    (h : reader.Reads t a) : reader.Reads (b ++ t) a := by
  intro s hs
  rw [← h s hs, List.append_assoc]
  exact hr.blank (skipBlank_append hb _)

/-- A reader that is given a value and what follows it leaves just that. -/
theorem Faithful.reads_value {a : α} (hr : reader.Faithful) (ht : Value t) (hs : EndsNumber s)
    (h : reader.run (t ++ s) = .ok (a, r)) : r = s ∧ reader.Reads t a := by
  have hskip := hr.skips h
  rw [skipValue_append ht hs] at hskip
  obtain rfl := Except.ok.inj hskip
  obtain ⟨t', heq, hreads⟩ := hr.reads h
  obtain rfl := List.append_cancel_right heq
  exact ⟨rfl, hreads⟩

theorem Faithful.value {a : α} (hr : reader.Faithful) (h : reader.Reads t a) : Value t := by
  obtain ⟨t', ht, heq⟩ := exists_value (hr.skips (h [] endsNumber_nil))
  rwa [List.append_cancel_right heq]

theorem Faithful.mapM {f : α → Except Misfit β} (hr : reader.Faithful) :
    (reader.mapM f).Faithful := by
  have hrun {s r : List Char} {b : β} (h : (reader.mapM f).run s = .ok (b, r)) :
      ∃ a, reader.run s = .ok (a, r) ∧ f a = .ok b := by
    simp only [Reader.mapM] at h
    split at h
    · simp at h
    · rename_i a r' hrun
      split at h
      · simp at h
      · rename_i hf
        obtain ⟨rfl, rfl⟩ := Prod.mk.inj (Except.ok.inj h)
        exact ⟨a, hrun, hf⟩
  refine ⟨fun hs => ?_, fun h => ?_, fun h => ?_⟩
  · simp only [Reader.mapM, hr.blank hs]
  · obtain ⟨a, h, -⟩ := hrun h
    exact hr.skips h
  · obtain ⟨a, h, hf⟩ := hrun h
    obtain ⟨t, heq, hreads⟩ := hr.reads h
    exact ⟨t, heq, hreads.mapM hf⟩

/-- For readers that take only values without others in them. -/
theorem Faithful.of_scalar
    (hblank : ∀ {s s'}, skipBlank s = skipBlank s' → reader.run s = reader.run s')
    (hscalar : ∀ {s r a}, reader.run s = .ok (a, r) →
      ∃ c u, skipBlank s = c :: (u ++ r) ∧ (∀ f : Frame, c ≠ f.opening) ∧
        skipScalar c (u ++ r) = .ok r ∧ reader.Reads (c :: u) a) :
    reader.Faithful := by
  refine ⟨hblank, fun h => ?_, fun h => ?_⟩
  · obtain ⟨c, u, hs, hc, hskip, -⟩ := hscalar h
    rw [skipValue_of_scalar hs hc, hskip]
  · obtain ⟨c, u, hs, -, -, hreads⟩ := hscalar h
    obtain ⟨b, hb, rfl⟩ := exists_blank hs
    refine ⟨b ++ c :: u, by simp, fun s hs => ?_⟩
    rw [← hreads s hs, List.append_assoc]
    exact hblank (skipBlank_append hb _)

theorem eq_append_of_readWord {letters : String} {a b : α} (h : readWord letters a s = .ok (b, r)) :
    a = b ∧ s = letters.toList ++ r := by
  obtain ⟨_, hword, heq⟩ := map_eq_ok h
  obtain ⟨rfl, rfl⟩ := Prod.mk.inj heq
  exact ⟨rfl, eq_append_of_word hword⟩

theorem faithful_boolean : boolean.Faithful := by
  have hrun {s : List Char} : boolean.run s = readBoolean s := rfl
  refine .of_scalar (fun {s s'} hs => ?_) fun {s r b} h => ?_
  · rw [hrun, hrun, readBoolean, readBoolean, hs]
  · rw [hrun, readBoolean] at h
    split at h
    · simp at h
    · rename_i hs
      split at h
      · rename_i hc
        obtain ⟨rfl, rfl⟩ := eq_append_of_readWord h
        have hskip : skipScalar 't' ("rue".toList ++ r) = .ok r := word_append _ r
        have hreads : boolean.Reads ('t' :: "rue".toList) true := reads_boolean true
        exact ⟨_, _, hc ▸ hs, by rintro (_ | _) <;> decide, hskip, hreads⟩
      · split at h
        · rename_i hc
          obtain ⟨rfl, rfl⟩ := eq_append_of_readWord h
          have hskip : skipScalar 'f' ("alse".toList ++ r) = .ok r := word_append _ r
          have hreads : boolean.Reads ('f' :: "alse".toList) false := reads_boolean false
          exact ⟨_, _, hc ▸ hs, by rintro (_ | _) <;> decide, hskip, hreads⟩
        · simp at h

theorem readNumber_of_countRest {negative : Bool} {n : UInt64} (h : countRest negative s = .ok (n, r)) :
    readNumber negative s = .ok (.natural n, r) := by
  unfold countRest at h
  split at h
  · simp at h
  · rename_i x r' hread
    obtain ⟨n', hn, heq⟩ := map_eq_ok h
    obtain ⟨rfl, rfl⟩ := Prod.mk.inj heq
    cases x with
    | natural m => rw [hread, Except.ok.inj hn]
    | negative m => simp [asCount] at hn
    | float x => simp [asCount] at hn

theorem faithful_count : count.Faithful := by
  have hrun {s : List Char} : count.run s = readCount s := rfl
  refine .of_scalar (fun {s s'} hs => ?_) fun {s r n} h => ?_
  · rw [hrun, hrun, readCount, readCount, hs]
  · rw [hrun, readCount] at h
    split at h
    · simp at h
    · rename_i c _ hs
      split at h
      · obtain ⟨hsign, -⟩ := exists_digits_of_readNumber (readNumber_of_countRest h)
        cases hsign
      · split at h
        · obtain ⟨-, hr, w, m, hw, heq, htake, rfl⟩ :=
            exists_digits_of_readNumber (readNumber_of_countRest h)
          have hskip : skipNumber (w ++ [] ++ r) = .ok r :=
            skipNumber_append (.parts hw .none .none) hr
          rw [List.append_nil] at hskip
          obtain @⟨d, t, hd, ht, hzero⟩ := hw
          obtain ⟨rfl, rfl⟩ := List.cons.inj heq
          refine ⟨c, t, hs, fun f => ne_of_isDigit hd ?_, ?_, reads_digits hd ht hzero htake⟩
          · cases f <;> rfl
          · rw [skipScalar_of_digit hd]
            exact hskip
        · simp at h

/-- A text is read as the characters that it spells. -/
theorem reads_spelled {cs : List Char} (h : Spells t cs) :
    text.Reads ('"' :: (t ++ ['"'])) (String.ofList cs) := by
  intro s _
  show readText ('"' :: (t ++ ['"'] ++ s)) = _
  rw [readText, skipBlank_cons rfl, List.append_assoc]
  simp only [if_true, List.cons_append, List.nil_append, textRest_append h]
  rfl

theorem reads_spelled_optional {cs : List Char} (h : Spells t cs) :
    optionalText.Reads ('"' :: (t ++ ['"'])) (some (String.ofList cs)) := by
  intro s hs
  have htext : readText ('"' :: (t ++ ['"'] ++ s)) = .ok (String.ofList cs, s) := reads_spelled h s hs
  show readOptionalText ('"' :: (t ++ ['"'] ++ s)) = _
  rw [readOptionalText, skipBlank_cons rfl]
  simp only [htext]
  rfl

theorem exists_quoted {x : String} (h : readText s = .ok (x, r)) :
    ∃ u cs, skipBlank s = '"' :: (u ++ ['"'] ++ r) ∧ skipScalar '"' (u ++ ['"'] ++ r) = .ok r ∧
      Spells u cs ∧ x = String.ofList cs := by
  rw [readText] at h
  split at h
  · simp at h
  · rename_i hs
    split at h
    · rename_i hc
      obtain ⟨⟨cs, r'⟩, htext, heq⟩ := map_eq_ok h
      obtain ⟨rfl, rfl⟩ := Prod.mk.inj heq
      obtain ⟨u, hu, rfl⟩ := exists_spells htext
      refine ⟨u, cs, ?_, ?_, hu, rfl⟩
      · rw [hs, hc, List.append_assoc]
        rfl
      · rw [List.append_assoc]
        exact skipText_append hu.inside r'
    · simp at h

theorem faithful_text : text.Faithful := by
  have hrun {s : List Char} : text.run s = readText s := rfl
  refine .of_scalar (fun {s s'} hs => ?_) fun {s r x} h => ?_
  · rw [hrun, hrun, readText, readText, hs]
  · obtain ⟨u, cs, hs, hskip, hu, rfl⟩ := exists_quoted h
    exact ⟨_, _, hs, by rintro (_ | _) <;> decide, hskip, reads_spelled hu⟩

theorem faithful_optionalText : optionalText.Faithful := by
  have hrun {s : List Char} : optionalText.run s = readOptionalText s := rfl
  refine .of_scalar (fun {s s'} hs => ?_) fun {s r x} h => ?_
  · rw [hrun, hrun, readOptionalText, readOptionalText, hs]
  · rw [hrun, readOptionalText] at h
    split at h
    · simp at h
    · rename_i c t hs
      split at h
      · rename_i hc
        obtain ⟨rfl, rfl⟩ := eq_append_of_readWord h
        have hskip : skipScalar 'n' ("ull".toList ++ r) = .ok r := word_append _ r
        have hreads : optionalText.Reads ('n' :: "ull".toList) none := reads_optionalText none
        exact ⟨_, _, hc ▸ hs, by rintro (_ | _) <;> decide, hskip, hreads⟩
      · obtain ⟨⟨x', r'⟩, htext, heq⟩ := map_eq_ok h
        obtain ⟨rfl, rfl⟩ := Prod.mk.inj heq
        obtain ⟨u, cs, hs', hskip, hu, rfl⟩ := exists_quoted htext
        have hfront : skipBlank (c :: t) = skipBlank s := by
          rw [← hs]
          exact List.dropWhile_idempotent _ _
        exact ⟨_, _, hfront ▸ hs', by rintro (_ | _) <;> decide, hskip, reads_spelled_optional hu⟩

end Reader

end MessageIndex.Json
