import MessageIndex.Json.Reader
import MessageIndex.Json.Writer

/-!
# Proofs: single values read back

Each reader takes what the writer of its type wrote, all of it and nothing of what follows
(`Reader.Reads`). What follows a value matters only for numbers, which it must not go on with.

In a text, a character that is escaped is the one that its escape stands for, and every other one stands
for itself. The digits of a count never run over 64 bits, as no front of them is larger than the count,
and they begin with a zero only for zero itself.
-/

namespace MessageIndex.Json

/-! ## Escapes -/

theorem hexValue_digitChar : ∀ n < 16, hexValue? (Nat.digitChar n) = some n := by decide

/-- The number of a control character has two digits that count, behind two zeros. -/
theorem numberEscape_control {c : Char} (h : c.toNat < 0x20) (s : List Char) :
    numberEscape ('0' :: '0' :: Nat.digitChar (c.toNat / 16) :: Nat.digitChar (c.toNat % 16) :: s) =
      .ok (c, s) := by
  have hzero : hexValue? '0' = some 0 := by decide
  have hhigh := hexValue_digitChar (c.toNat / 16) (by omega)
  have hlow := hexValue_digitChar (c.toNat % 16) (by omega)
  have hsum : ((0 * 16 + 0) * 16 + c.toNat / 16) * 16 + c.toNat % 16 = c.toNat := by omega
  have htrailing : isTrailing c.toNat = false := by
    rw [isTrailing, decide_eq_false (by omega), Bool.false_and]
  have hleading : isLeading c.toNat = false := by
    rw [isLeading, decide_eq_false (by omega), Bool.false_and]
  unfold numberEscape hexUnit
  simp only [hzero, hhigh, hlow, hsum, htrailing, hleading, Char.ofNat_toNat]
  rfl

/-- How a character is written: by an escape that stands for it, or else as itself. -/
theorem writeChar_cases (c : Char) :
    (∃ e, writeChar c = '\\' :: e ∧ ∀ s, escape (e ++ s) = .ok (c, s)) ∨
      writeChar c = [c] ∧ c ≠ '"' ∧ c ≠ '\\' ∧ isControl c = false := by
  unfold writeChar
  split
  case h_8 c hquote hbackslash hbackspace htab hnewline hfeed hreturn =>
    split
    · rename_i hcontrol
      exact .inl ⟨_, rfl, fun s => numberEscape_control hcontrol s⟩
    · rename_i hplain
      exact .inr ⟨rfl, hquote, hbackslash, decide_eq_false hplain⟩
  all_goals exact .inl ⟨_, rfl, fun _ => rfl⟩

/-! ## Texts -/

theorem textRest_of_escape {s r : List Char} {c : Char} (h : escape s = .ok (c, r)) :
    textRest ('\\' :: s) = (textRest r).map fun (cs, r) => (c :: cs, r) := by
  rw [textRest]
  split
  · rename_i hfail
    rw [h] at hfail
    cases hfail
  · rename_i hok
    rw [h] at hok
    obtain ⟨rfl, rfl⟩ := Prod.mk.inj (Except.ok.inj hok)
    rfl

theorem textRest_of_plain {s : List Char} {c : Char} (hquote : c ≠ '"') (hbackslash : c ≠ '\\')
    (hcontrol : isControl c = false) :
    textRest (c :: s) = (textRest s).map fun (cs, r) => (c :: cs, r) := by
  rw [textRest, hcontrol]
  · rfl
  · exact hquote
  · exact hbackslash

theorem textRest_writeChar (c : Char) (s : List Char) :
    textRest (writeChar c ++ s) = (textRest s).map fun (cs, r) => (c :: cs, r) := by
  obtain ⟨e, hwrite, hescape⟩ | ⟨hwrite, hquote, hbackslash, hcontrol⟩ := writeChar_cases c
  · rw [hwrite]
    exact textRest_of_escape (hescape s)
  · rw [hwrite]
    exact textRest_of_plain hquote hbackslash hcontrol

theorem textRest_flatMap_writeChar (cs r : List Char) :
    textRest (cs.flatMap writeChar ++ '"' :: r) = .ok (cs, r) := by
  induction cs with
  | nil => rw [List.flatMap_nil, List.nil_append, textRest]
  | cons c cs ih =>
    rw [List.flatMap_cons, List.append_assoc, textRest_writeChar, ih]
    rfl

theorem writeText_append (t : String) (s : List Char) :
    writeText t ++ s = '"' :: (t.toList.flatMap writeChar ++ '"' :: s) := by
  rw [writeText, List.append_assoc]
  rfl

/-! ## Digits -/

theorem isDigit_of_mem_toDigits {n : Nat} {c : Char} (h : c ∈ Nat.toDigits 10 n) : isDigit c = true :=
  Nat.isDigit_of_mem_toDigits (by decide) (by decide) h

theorem le_ofDigitChars (n : Nat) (cs : List Char) : n ≤ Nat.ofDigitChars 10 cs n := by
  induction cs generalizing n with
  | nil => exact Nat.le_of_eq Nat.ofDigitChars_nil.symm
  | cons c cs ih =>
    rw [Nat.ofDigitChars_cons]
    exact Nat.le_trans (by omega) (ih _)

/-- Digits are taken to the end if the whole number fits. -/
theorem takeDigits_of_lt {n : Nat} {cs : List Char} (h : Nat.ofDigitChars 10 cs n < UInt64.size) :
    takeDigits n cs = (Nat.ofDigitChars 10 cs n, []) := by
  induction cs generalizing n with
  | nil => rw [takeDigits, Nat.ofDigitChars_nil]
  | cons c cs ih =>
    rw [Nat.ofDigitChars_cons, Nat.mul_comm] at h ⊢
    have hnext := Nat.lt_of_le_of_lt (le_ofDigitChars _ cs) h
    rw [takeDigits, if_pos hnext, ih h]

/-- Only zero is written with a zero in front. -/
theorem eq_zero_of_head_toDigits {n : Nat} {cs : List Char} (h : Nat.toDigits 10 n = '0' :: cs) :
    n = 0 := by
  induction n using Nat.strongRecOn generalizing cs with
  | ind n ih =>
    by_cases hsmall : n < 10
    · rw [Nat.toDigits_of_lt_base hsmall] at h
      exact Nat.digitChar_eq_zero.mp (List.cons.inj h).1
    · rw [Nat.toDigits_of_base_le (by decide) (by omega)] at h
      cases hfront : Nat.toDigits 10 (n / 10) with
      | nil => exact absurd hfront Nat.toDigits_ne_nil
      | cons c front =>
        rw [hfront, List.cons_append] at h
        obtain ⟨rfl, -⟩ := List.cons.inj h
        -- The number without its last digit would be zero, so there would be no digit before that one.
        have hzero := ih (n / 10) (by omega) hfront
        omega

/-! ## Counts -/

/-- What follows does not go on with a number. -/
def EndsNumber (s : List Char) : Prop :=
  ∀ c ∈ s.head?, isDigit c = false ∧ c ≠ '.' ∧ c ≠ 'e' ∧ c ≠ 'E'

theorem endsNumber_nil : EndsNumber [] := fun _ h => nomatch h

theorem EndsNumber.not_digit {s : List Char} (h : EndsNumber s) : ∀ c ∈ s.head?, isDigit c = false :=
  fun c hc => (h c hc).1

theorem takeWhile_isDigit {cs s : List Char} (hcs : ∀ c ∈ cs, isDigit c = true)
    (hs : ∀ c ∈ s.head?, isDigit c = false) : (cs ++ s).takeWhile isDigit = cs := by
  rw [List.takeWhile_append_of_pos hcs]
  cases s with
  | nil => rw [List.takeWhile_nil, List.append_nil]
  | cons c s => rw [List.takeWhile_cons, hs c rfl, if_neg Bool.false_ne_true, List.append_nil]

theorem dropWhile_isDigit {cs s : List Char} (hcs : ∀ c ∈ cs, isDigit c = true)
    (hs : ∀ c ∈ s.head?, isDigit c = false) : (cs ++ s).dropWhile isDigit = s := by
  rw [List.dropWhile_append_of_pos hcs]
  cases s with
  | nil => rfl
  | cons c s => rw [List.dropWhile_cons, hs c rfl, if_neg Bool.false_ne_true]

/-- Digits without a zero in front are read to the end if their number fits. -/
theorem readNumber_digits {n : Nat} {c : Char} {cs s : List Char} (hc : isDigit c = true)
    (hcs : ∀ d ∈ cs, isDigit d = true) (hzero : c = '0' → cs = [])
    (htake : takeDigits 0 (c :: cs) = (n, [])) (hs : EndsNumber s) :
    readNumber false (c :: (cs ++ s)) = .ok (.natural n.toUInt64, s) := by
  have hfirst : ¬ (c = '0' ∧ ¬ cs.isEmpty) := by
    rintro ⟨h0, hne⟩
    exact hne (by rw [hzero h0]; rfl)
  rw [readNumber]
  simp only [takeWhile_isDigit hcs hs.not_digit, dropWhile_isDigit hcs hs.not_digit, hc, hfirst, htake,
    not_true_eq_false, or_self, if_false]
  split
  · exact absurd rfl (hs '.' rfl).2.1
  · have hpower : s.head? ≠ some 'e' ∧ s.head? ≠ some 'E' :=
      ⟨fun he => (hs 'e' he).2.2.1 rfl, fun hE => (hs 'E' hE).2.2.2 rfl⟩
    rw [if_pos ⟨rfl, hpower⟩]
    rfl

/-! ## Readers -/

theorem skipBlank_cons {c : Char} {s : List Char} (h : isBlank c = false) :
    skipBlank (c :: s) = c :: s := by
  rw [skipBlank, List.dropWhile_cons, h, if_neg Bool.false_ne_true]

theorem not_blank_of_digit {c : Char} (h : isDigit c = true) : isBlank c = false := by
  have hne {d : Char} (hd : isDigit d = false) : c ≠ d := by
    rintro rfl
    exact Bool.false_ne_true (hd.symm.trans h)
  simp [isBlank, hne (d := ' ') rfl, hne (d := '\n') rfl, hne (d := '\t') rfl, hne (d := '\r') rfl]

namespace Reader

variable {α β : Type}

/-- The reader takes a text for a value, whatever follows it. -/
def Reads (reader : Reader α) (text : List Char) (a : α) : Prop :=
  ∀ s, EndsNumber s → reader.run (text ++ s) = .ok (a, s)

theorem Reads.mapM {reader : Reader α} {text : List Char} {a : α} {b : β} {f : α → Except Misfit β}
    (h : reader.Reads text a) (hf : f a = .ok b) : (reader.mapM f).Reads text b := by
  intro s hs
  simp only [Reader.mapM, h s hs, hf]

theorem reads_boolean (b : Bool) : boolean.Reads (writeBoolean b) b := by
  intro s _
  cases b <;> rfl

/-- Digits without a zero in front are read as their number if it fits. -/
theorem reads_digits {n : Nat} {c : Char} {cs : List Char} (hc : isDigit c = true)
    (hcs : ∀ d ∈ cs, isDigit d = true) (hzero : c = '0' → cs = [])
    (htake : takeDigits 0 (c :: cs) = (n, [])) : count.Reads (c :: cs) n.toUInt64 := by
  intro s hs
  have hsign : c ≠ '-' := by
    rintro rfl
    cases hc
  show readCount (c :: (cs ++ s)) = _
  rw [readCount, skipBlank_cons (not_blank_of_digit hc)]
  simp only [if_neg hsign, if_pos hc, countRest, readNumber_digits hc hcs hzero htake hs, asCount]
  rfl

theorem reads_count (n : UInt64) : count.Reads (writeCount n) n := by
  have hdigits : ∀ c ∈ Nat.toDigits 10 n.toNat, isDigit c = true := fun c => isDigit_of_mem_toDigits
  have htake : takeDigits 0 (Nat.toDigits 10 n.toNat) = (n.toNat, []) := by
    have hvalue := Nat.ofDigitChars_ten_toDigits (n := n.toNat)
    rw [takeDigits_of_lt (by rw [hvalue]; exact n.toNat_lt), hvalue]
  show count.Reads (Nat.toDigits 10 n.toNat) n
  cases hwritten : Nat.toDigits 10 n.toNat with
  | nil => exact absurd hwritten Nat.toDigits_ne_nil
  | cons c cs =>
    rw [hwritten] at hdigits htake
    obtain ⟨hc, hcs⟩ := List.forall_mem_cons.mp hdigits
    have hzero : c = '0' → cs = [] := by
      rintro rfl
      rw [eq_zero_of_head_toDigits hwritten] at hwritten
      exact (List.cons.inj hwritten).2.symm
    have hreads := reads_digits hc hcs hzero htake
    rwa [Nat.toUInt64_eq, UInt64.ofNat_toNat] at hreads

theorem reads_text (t : String) : text.Reads (writeText t) t := by
  intro s _
  show readText (writeText t ++ s) = _
  rw [writeText_append, readText, skipBlank_cons rfl]
  simp only [if_true, textRest_flatMap_writeChar]
  rw [Except.map, String.ofList_toList]

theorem reads_optionalText (t : Option String) : optionalText.Reads (writeOptionalText t) t := by
  intro s hs
  cases t with
  | none => rfl
  | some t =>
    have htext : readText (writeText t ++ s) = .ok (t, s) := reads_text t s hs
    show readOptionalText (writeText t ++ s) = _
    rw [writeText_append] at htext ⊢
    rw [readOptionalText, skipBlank_cons rfl]
    simp only [htext]
    rfl

end Reader

end MessageIndex.Json
