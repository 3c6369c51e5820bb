import MessageIndex.Bytes
import MessageIndex.Level

/-!
# Log filters

A filter is a list of directives. A directive speaks of all callsites whose target begins with its
own target (plain text, not segment by segment) and, where it names fields, of the events that have
them all; it says down to which level they pass. Of the directives that speak of a callsite only the
most specific one counts, and a callsite that none speaks of does not pass.

The text of a filter separates directives by commas. A directive is a target and a level with an
equals sign between them, the target perhaps with fields in square and curly brackets behind it;
without an equals sign it is a level, or else a target that passes everything.
-/

namespace MessageIndex.Logging

/-- One rule of a filter. -/
structure Directive where
  /-- The beginning of the targets it speaks of; none speaks of all. -/
  target : Option String
  /-- The fields an event must have. -/
  fields : List String
  /-- What passes. -/
  threshold : Threshold
  deriving DecidableEq, Repr

/-- Directives in the order in which they were given. -/
abbrev Filter := List Directive

/-- What a filter knows of an event or a span. -/
structure Callsite where
  /-- Where it comes from. -/
  target : String
  /-- How severe it is. -/
  level : Level
  /-- The fields an event has; none for a span, of which no fields are asked. -/
  fields : Option (List String)
  deriving DecidableEq, Repr

namespace Directive

/-- Whether a directive speaks of a callsite. -/
def applies (d : Directive) (c : Callsite) : Bool :=
  (d.target.all fun t => t.toList.isPrefixOf c.target.toList) &&
    (c.fields.all fun fields => d.fields.all fun f => f ∈ fields)

/-- Compares lists of texts, by their bytes. -/
def compareFields : List String → List String → Ordering
  | [], [] => .eq
  | [], _ :: _ => .lt
  | _ :: _, [] => .gt
  | a :: as, b :: bs => (Bytes.compare (Bytes.ofText a) (Bytes.ofText b)).then (compareFields as bs)

/-- How long the target is in bytes, and one more; zero if there is none. -/
def targetWeight (d : Directive) : Nat := d.target.elim 0 fun t => t.utf8ByteSize + 1

/-- Compares how specific two directives are that speak of the same callsite: by the length of their
targets, an empty one above none; then by the number of fields; then by the fields. -/
def compareSpecificity (a b : Directive) : Ordering :=
  (compare a.targetWeight b.targetWeight).then
    ((compare a.fields.length b.fields.length).then (compareFields a.fields b.fields))

end Directive

namespace Filter

/-- The directive that counts for a callsite: the most specific one that speaks of it, and the last
of equally specific ones. -/
def deciding (f : Filter) (c : Callsite) : Option Directive :=
  (f.filter fun d => d.applies c).foldl (fun best d =>
    match best with
    | none => some d
    | some b => if d.compareSpecificity b = .lt then some b else some d) none

/-- Whether a callsite passes. -/
def admits (f : Filter) (c : Callsite) : Bool :=
  (f.deciding c).any fun d => d.threshold.admits c.level

end Filter

/-! ## Reading filters -/

/-- Why a text is no filter. -/
inductive FilterError where
  /-- More than one equals sign in a directive. -/
  | severalEquals
  /-- More than one opening of a list of fields. -/
  | severalFieldLists
  /-- A list of fields without its end. -/
  | openFieldList
  /-- What follows the equals sign is no level. -/
  | noLevel
  deriving DecidableEq, Repr

/-- The pieces of a text between separators, empty ones included. -/
def pieces (separator : Char) : List Char → List (List Char)
  | [] => [[]]
  | c :: s =>
    if c = separator then [] :: pieces separator s
    else
      match pieces separator s with
      | [] => [[c]]
      | piece :: rest => (c :: piece) :: rest

/-- The pieces of a text between openings of a list of fields, empty ones included. -/
def piecesAtOpenings : List Char → List (List Char)
  | [] => [[]]
  | '[' :: '\x7b' :: s => [] :: piecesAtOpenings s
  | c :: s =>
    match piecesAtOpenings s with
    | [] => [[c]]
    | piece :: rest => (c :: piece) :: rest

/-- Drops the ends of a list of fields from a text that is given backwards. -/
def dropEnds : List Char → List Char
  | ']' :: '\x7d' :: s => dropEnds s
  | s => s

/-- The levels by name; the empty name is that of the most severe. -/
def thresholdOfName? (name : String) : Option Threshold :=
  match name with
  | "" | "error" => some (some .error)
  | "warn" => some (some .warn)
  | "info" => some (some .info)
  | "debug" => some (some .debug)
  | "trace" => some (some .trace)
  | "off" => some none
  | _ => none

/-- The levels by number. -/
def thresholdOfRank? : Nat → Option Threshold
  | 0 => some none
  | 1 => some (some .error)
  | 2 => some (some .warn)
  | 3 => some (some .info)
  | 4 => some (some .debug)
  | 5 => some (some .trace)
  | _ => none

/-- A number in decimal digits, of which there is at least one. -/
def decimal? (digits : List Char) : Option Nat :=
  if digits.isEmpty ∨ ¬ digits.all Char.isDigit then none
  else some (digits.foldl (fun n c => n * 10 + (c.toNat - '0'.toNat)) 0)

/-- Reads a level: a number, perhaps behind a plus sign, or a name in letters of either case. -/
def parseThreshold (s : List Char) : Option Threshold :=
  let digits := match s with
    | '+' :: rest => rest
    | _ => s
  ((decimal? digits).bind thresholdOfRank?).or
    (thresholdOfName? (String.ofList (s.map Char.toLower)))

namespace Directive

/-- Reads the target of a directive with what may follow it in brackets. -/
def parseTarget (s : List Char) : Except FilterError (String × List String) :=
  match piecesAtOpenings s with
  | [target, fields] =>
    match fields.reverse with
    | ']' :: '\x7d' :: rest =>
      let names := (pieces ',' (dropEnds rest).reverse).filter fun name => ¬ name.isEmpty
      .ok (String.ofList target, names.map String.ofList)
    | _ => .error .openFieldList
  | [target] => .ok (String.ofList target, [])
  | _ => .error .severalFieldLists

/-- Reads a directive. -/
def parse (s : List Char) : Except FilterError Directive :=
  match pieces '=' s with
  | [target, level] => do
    let (target, fields) ← parseTarget target
    match parseThreshold level with
    | some threshold => return ⟨some target, fields, threshold⟩
    | none => throw .noLevel
  | [all] =>
    match parseThreshold all with
    | some threshold => .ok ⟨none, [], threshold⟩
    | none => .ok ⟨some (String.ofList all), [], some .trace⟩
  | _ => .error .severalEquals

end Directive

/-- Reads a filter. -/
def Filter.parse (text : String) : Except FilterError Filter :=
  (pieces ',' text.toList).mapM Directive.parse

end MessageIndex.Logging
