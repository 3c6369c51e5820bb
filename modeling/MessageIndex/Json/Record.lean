import MessageIndex.Json.Reader

/-!
# Reading records

A record is read from an object that names some of its fields, in any order, or from an array that
gives them in the order in which they are declared. Fields that are not given keep the value that the
record starts with. An object may hold entries that are no fields: they are passed over. A field
that is given twice is refused as soon as its name is met again.

A document is read from front to back, and the first thing wrong with it is what is reported.
-/

namespace MessageIndex.Json

/-- A field of a record: how it is called, and how it is read into the record. -/
structure Field (ρ : Type) where
  /-- The name it has in an object. -/
  name : String
  /-- Reads its value; the result sets the field. -/
  reader : Reader (ρ → ρ)

namespace Field

/-- The field that is read by `reader` and set by `update`. -/
def of {ρ α : Type} (name : String) (reader : Reader α) (update : α → ρ → ρ) : Field ρ :=
  ⟨name, reader.mapM fun a => .ok (update a)⟩

end Field

variable {ρ : Type}

/-! ## Arrays -/

/-- Reads the fields off an array, behind its opening bracket and through its closing one. -/
def readElements : (fields : List (Field ρ)) → (first : Bool) → ρ → List Char →
    Except Failure (ρ × List Char)
  | [], _, v, s =>
    match skipBlank s with
    | [] => .error .ended
    | c :: r => if c = ']' then .ok (v, r) else .error .malformed
  | f :: fields, first, v, s =>
    let readOn (s : List Char) : Except Failure (ρ × List Char) :=
      match f.reader.run s with
      | .error e => .error e
      | .ok (update, r) => readElements fields false (update v) r
    match skipBlank s with
    | [] => .error .ended
    | c :: r =>
      if c = ']' then .ok (v, r)
      else if first then readOn (c :: r)
      else if c = ',' then
        match skipBlank r with
        | [] => .error .ended
        | d :: r => if d = ']' then .error .malformed else readOn (d :: r)
      else .error .malformed

/-! ## Objects -/

/-- Reads a name, behind its opening quote. -/
def nameRest (s : List Char) : Except Failure (Option String × List Char) :=
  (textRest s).map fun (cs, r) => (some (String.ofList cs), r)

/-- Reads the name of the next entry of an object, or nothing with its closing brace. -/
def nextName (first : Bool) (s : List Char) : Except Failure (Option String × List Char) :=
  match skipBlank s with
  | [] => .error .ended
  | c :: r =>
    if c = '}' then .ok (none, r)
    else if first then
      if c = '"' then nameRest r else .error .malformed
    else if c = ',' then
      match skipBlank r with
      | [] => .error .ended
      | d :: r => if d = '"' then nameRest r else .error .malformed
    else .error .malformed

/-- Reads the rest of an entry, behind its name: the names of the fields met so far, the record, and
what is left. -/
def entryRest (fields : List (Field ρ)) (met : List String) (v : ρ) (name : String)
    (s : List Char) : Except Failure ((List String × ρ) × List Char) :=
  match fields.find? fun f => f.name = name with
  | none => ((skipColon s).bind skipValue).map fun r => ((met, v), r)
  | some f =>
    if name ∈ met then .error (.unfit (.duplicateField name))
    else
      match (skipColon s).bind f.reader.run with
      | .error e => .error e
      | .ok (update, r) => .ok ((name :: met, update v), r)

theorem length_nextName_lt {first : Bool} {s r : List Char} {name : Option String}
    (h : nextName first s = .ok (name, r)) : r.length < s.length := by
  have hname {s r : List Char} {name : Option String} (h : nameRest s = .ok (name, r)) :
      r.length < s.length := by
    obtain ⟨_, ht, he⟩ := map_eq_ok h
    obtain ⟨_, rfl⟩ := Prod.mk.inj he
    exact length_textRest_lt ht
  unfold nextName at h
  split at h
  · simp at h
  · rename_i hs
    have hlt := length_of_skipBlank_eq_cons hs
    split at h
    · obtain ⟨_, rfl⟩ := Prod.mk.inj (Except.ok.inj h)
      exact hlt
    · split at h
      · split at h
        · exact Nat.lt_trans (hname h) hlt
        · simp at h
      · split at h
        · split at h
          · simp at h
          · rename_i hs'
            have hlt' := length_of_skipBlank_eq_cons hs'
            split at h
            · exact Nat.lt_trans (hname h) (Nat.lt_trans hlt' hlt)
            · simp at h
        · simp at h

theorem length_colon_bind_lt {α : Type} {f : List Char → Except Failure α} (rest : α → List Char)
    (hf : ∀ {s a}, f s = .ok a → (rest a).length < s.length) {s : List Char} {a : α}
    (h : (skipColon s).bind f = .ok a) : (rest a).length < s.length := by
  obtain ⟨r, hcolon, hrest⟩ := bind_eq_ok h
  exact Nat.lt_trans (hf hrest) (length_skipColon_lt hcolon)

theorem length_entryRest_lt {fields : List (Field ρ)} {met : List String} {v : ρ} {name : String}
    {s r : List Char} {result : List String × ρ}
    (h : entryRest fields met v name s = .ok (result, r)) : r.length < s.length := by
  unfold entryRest at h
  split at h
  · obtain ⟨_, ht, he⟩ := map_eq_ok h
    obtain ⟨_, rfl⟩ := Prod.mk.inj he
    exact length_colon_bind_lt id length_skipValue_lt ht
  · rename_i f _
    split at h
    · simp at h
    · split at h
      · simp at h
      · rename_i hrun
        obtain ⟨_, rfl⟩ := Prod.mk.inj (Except.ok.inj h)
        exact length_colon_bind_lt (·.2) (fun {_ p} hp => f.reader.shorter (a := p.1) hp) hrun

/-- Reads the entries of an object, behind its opening brace and through its closing one. -/
def readEntries (fields : List (Field ρ)) (first : Bool) (met : List String) (v : ρ)
    (s : List Char) : Except Failure (ρ × List Char) :=
  match hn : nextName first s with
  | .error e => .error e
  | .ok (none, r) => .ok (v, r)
  | .ok (some name, r) =>
    match he : entryRest fields met v name r with
    | .error e => .error e
    | .ok ((met, v), r) =>
      have := Nat.lt_trans (length_entryRest_lt he) (length_nextName_lt hn)
      readEntries fields false met v r
termination_by s.length

/-! ## Documents -/

/-- Reads a record that starts as `v`; `typeName` is how messages call it. -/
def readRecord (typeName : String) (fields : List (Field ρ)) (v : ρ) (s : List Char) :
    Except Failure (ρ × List Char) :=
  match skipBlank s with
  | [] => .error .ended
  | c :: r =>
    if c = '[' then readElements fields true v r
    else if c = '{' then readEntries fields true [] v r
    else .error (unexpected typeName (c :: r))

/-- Reads a whole document: only blanks may follow the value. -/
def readAll {α : Type} (read : List Char → Except Failure (α × List Char)) (text : String) :
    Except Failure α :=
  match read text.toList with
  | .error e => .error e
  | .ok (a, r) => if (skipBlank r).isEmpty then .ok a else .error .malformed

end MessageIndex.Json
