import MessageIndex.Json.Skip

/-!
# Readers of typed values

A `Reader` takes a value of one type off the front of a document. It never leaves as much as it was
given, which is part of its type, so that loops over readers end. What stands in place of the value
expected is looked at only as far as it takes to say what it is: an array or an object by its first
character, a number or a text in full.
-/

namespace MessageIndex.Json

/-- Takes a value off the front of a document. -/
structure Reader (α : Type) where
  /-- The value and what is left behind it. -/
  run : List Char → Except Failure (α × List Char)
  /-- Something was taken. -/
  shorter : ∀ {s r : List Char} {a : α}, run s = .ok (a, r) → r.length < s.length

/-- What stands at the front of a document. -/
def seenAt : List Char → Except Failure Seen
  | [] => .error .ended
  | c :: s =>
    if c = 'n' then (word "ull".toList s).map fun _ => .null
    else if c = 't' then (word "rue".toList s).map fun _ => .boolean true
    else if c = 'f' then (word "alse".toList s).map fun _ => .boolean false
    else if c = '-' then (readNumber true s).map (·.1.seen)
    else if isDigit c then (readNumber false (c :: s)).map (·.1.seen)
    else if c = '"' then (textRest s).map fun (cs, _) => .text (String.ofList cs)
    else if c = '[' then .ok .array
    else if c = '{' then .ok .object
    else .error .malformed

/-- The failure where something else is expected than what stands at the front of a document. -/
def unexpected (expected : String) (s : List Char) : Failure :=
  match seenAt s with
  | .error e => e
  | .ok seen => .unfit (.wrongType seen expected)

/-! ## Single values -/

/-- Reads a word that stands for a value, behind its first letter. -/
def readWord {α : Type} (letters : String) (a : α) (s : List Char) : Except Failure (α × List Char) :=
  (word letters.toList s).map fun r => (a, r)

/-- Reads a truth value. -/
def readBoolean (s : List Char) : Except Failure (Bool × List Char) :=
  match skipBlank s with
  | [] => .error .ended
  | c :: r =>
    if c = 't' then readWord "rue" true r
    else if c = 'f' then readWord "alse" false r
    else .error (unexpected "a boolean" (c :: r))

/-- A number as a count: a negative one is out of range, a double has the wrong type. -/
def asCount : Number → Except Failure UInt64
  | .natural n => .ok n
  | .negative n => .error (.unfit (.wrongValue (.integer n) "usize"))
  | .float x => .error (.unfit (.wrongType (.float x) "usize"))

/-- Reads a number as a count, behind its sign. -/
def countRest (negative : Bool) (s : List Char) : Except Failure (UInt64 × List Char) :=
  match readNumber negative s with
  | .error e => .error e
  | .ok (n, r) => (asCount n).map fun n => (n, r)

/-- Reads a count. -/
def readCount (s : List Char) : Except Failure (UInt64 × List Char) :=
  match skipBlank s with
  | [] => .error .ended
  | c :: r =>
    if c = '-' then countRest true r
    else if isDigit c then countRest false (c :: r)
    else .error (unexpected "usize" (c :: r))

/-- Reads a text. -/
def readText (s : List Char) : Except Failure (String × List Char) :=
  match skipBlank s with
  | [] => .error .ended
  | c :: r =>
    if c = '"' then (textRest r).map fun (cs, r) => (String.ofList cs, r)
    else .error (unexpected "a string" (c :: r))

/-- Reads a text or null. -/
def readOptionalText (s : List Char) : Except Failure (Option String × List Char) :=
  match skipBlank s with
  | [] => .error .ended
  | c :: r =>
    if c = 'n' then readWord "ull" none r
    else (readText (c :: r)).map fun (t, r) => (some t, r)

/-! ## Something is taken -/

theorem length_readWord_le {α : Type} {letters : String} {a b : α} {s r : List Char}
    (h : readWord letters a s = .ok (b, r)) : r.length ≤ s.length := by
  obtain ⟨r', hr, he⟩ := map_eq_ok h
  obtain ⟨_, rfl⟩ := Prod.mk.inj he
  exact length_word_le hr

theorem length_readBoolean_lt {s r : List Char} {b : Bool} (h : readBoolean s = .ok (b, r)) :
    r.length < s.length := by
  unfold readBoolean at h
  split at h
  · simp at h
  · rename_i hs
    have hlt := length_of_skipBlank_eq_cons hs
    split at h
    · exact Nat.lt_of_le_of_lt (length_readWord_le h) hlt
    · split at h
      · exact Nat.lt_of_le_of_lt (length_readWord_le h) hlt
      · simp at h

theorem length_countRest_lt {negative : Bool} {s r : List Char} {n : UInt64}
    (h : countRest negative s = .ok (n, r)) : r.length < s.length := by
  unfold countRest at h
  split at h
  · simp at h
  · rename_i hn
    obtain ⟨_, _, he⟩ := map_eq_ok h
    obtain ⟨_, rfl⟩ := Prod.mk.inj he
    exact length_readNumber_lt hn

theorem length_readCount_lt {s r : List Char} {n : UInt64} (h : readCount s = .ok (n, r)) :
    r.length < s.length := by
  unfold readCount at h
  split at h
  · simp at h
  · rename_i hs
    have hlt := length_of_skipBlank_eq_cons hs
    split at h
    · exact Nat.lt_trans (length_countRest_lt h) hlt
    · split at h
      · have := length_countRest_lt h
        simp only [List.length_cons] at this
        omega
      · simp at h

theorem length_readText_lt {t : String} {s r : List Char}
    (h : readText s = .ok (t, r)) : r.length < s.length := by
  unfold readText at h
  split at h
  · simp at h
  · rename_i hs
    have hlt := length_of_skipBlank_eq_cons hs
    split at h
    · obtain ⟨_, ht, he⟩ := map_eq_ok h
      obtain ⟨_, rfl⟩ := Prod.mk.inj he
      exact Nat.lt_trans (length_textRest_lt ht) hlt
    · simp at h

theorem length_readOptionalText_lt {s r : List Char} {t : Option String}
    (h : readOptionalText s = .ok (t, r)) : r.length < s.length := by
  unfold readOptionalText at h
  split at h
  · simp at h
  · rename_i hs
    have hlt := length_of_skipBlank_eq_cons hs
    split at h
    · exact Nat.lt_of_le_of_lt (length_readWord_le h) hlt
    · obtain ⟨_, ht, he⟩ := map_eq_ok h
      obtain ⟨_, rfl⟩ := Prod.mk.inj he
      have := length_readText_lt ht
      simp only [List.length_cons] at this
      omega

namespace Reader

/-- Reads a truth value. -/
def boolean : Reader Bool := ⟨readBoolean, length_readBoolean_lt⟩

/-- Reads a count. -/
def count : Reader UInt64 := ⟨readCount, length_readCount_lt⟩

/-- Reads a text. -/
def text : Reader String := ⟨readText, length_readText_lt⟩

/-- Reads a text or null. -/
def optionalText : Reader (Option String) := ⟨readOptionalText, length_readOptionalText_lt⟩

/-- Makes something of what is read, or finds that it does not fit. -/
def mapM {α β : Type} (reader : Reader α) (f : α → Except Misfit β) : Reader β where
  run s :=
    match reader.run s with
    | .error e => .error e
    | .ok (a, r) =>
      match f a with
      | .error cause => .error (.unfit cause)
      | .ok b => .ok (b, r)
  shorter := by
    intro s r b h
    split at h
    · simp at h
    · rename_i hrun
      split at h
      · simp at h
      · obtain ⟨_, rfl⟩ := Prod.mk.inj (Except.ok.inj h)
        exact reader.shorter hrun

end Reader

end MessageIndex.Json
