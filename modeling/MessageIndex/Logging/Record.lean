import MessageIndex.FieldValue
import MessageIndex.Logging.Filter
import MessageIndex.Logging.Options

/-!
# Log records and their lines

A record is an event of the process itself, an event that another logging interface hands over, or
the notice that test logging starts with. It is written as one line, in plain text or as an object.
An event may happen inside a request; the request is shown with it as its span, wherever the span
passes too.

In plain text the characters that begin or steer terminal sequences are shown by number, so that a
message cannot reach the terminal. Objects need no such care.

The clock is left out. A line is given without its time stamp, which a plain line begins with and an
object holds as one more member.
-/

namespace MessageIndex.Logging

/-- Where a record comes from. -/
inductive Origin where
  /-- An event with a number, perhaps inside the span of a request. -/
  | event (n : Int) (request : Option Int)
  /-- A record of another logging interface. -/
  | bridged
  /-- The notice that test logging starts with. -/
  | notice
  deriving DecidableEq, Repr

/-- Something that is logged. -/
structure Record where
  /-- How severe it is. -/
  level : Level
  /-- What it belongs to. -/
  target : String
  /-- Its text. -/
  message : String
  /-- Where it comes from. -/
  origin : Origin
  deriving DecidableEq, Repr

namespace Record

/-- The fields that a filter finds on a record. -/
def fieldNames (r : Record) : List String :=
  match r.origin with
  | .event .. => ["message", "n"]
  | .bridged => ["message", "log.target", "log.module_path", "log.file", "log.line"]
  | .notice => ["message"]

/-- The fields that a line shows. -/
def fields (r : Record) : List (String × FieldValue) :=
  match r.origin with
  | .event n _ => [("message", .text r.message), ("n", .integer n)]
  | .bridged => [("message", .text r.message), ("log.target", .text r.target)]
  | .notice => [("message", .text r.message)]

/-- The number of the request that a record belongs to. -/
def request (r : Record) : Option Int :=
  match r.origin with
  | .event _ request => request
  | _ => none

/-- What a filter knows of a record. -/
def callsite (r : Record) : Callsite := ⟨r.target, r.level, some r.fieldNames⟩

/-- What a filter knows of the span of a request. -/
def requestCallsite : Callsite := ⟨"app", .info, none⟩

end Record

/-- A line as an object. -/
structure LineObject where
  /-- The level of the record. -/
  level : Level
  /-- The target of the record. -/
  target : String
  /-- The fields that are shown. -/
  fields : List (String × FieldValue)
  /-- The request, if its span is shown. -/
  request : Option Int
  deriving DecidableEq, Repr

/-- A written line. -/
inductive Line where
  /-- In plain text. -/
  | text (s : String)
  /-- As an object. -/
  | object (o : LineObject)
  deriving DecidableEq, Repr

namespace Line

/-- A character of a message in plain text. -/
def plainChar (c : Char) : List Char :=
  if c = '\x1b' ∨ c = '\x07' ∨ c = '\x08' ∨ c = '\x0c' ∨ c = '\x7f' then
    ['\\', 'x', Nat.digitChar (c.toNat / 16), Nat.digitChar (c.toNat % 16)]
  else if 0x80 ≤ c.toNat ∧ c.toNat ≤ 0x9f then
    ['\\', 'u', '\x7b'] ++ Nat.toDigits 16 c.toNat ++ ['\x7d']
  else [c]

/-- A level, with a blank in front of the shorter names. -/
def paddedLevel (l : Level) : String :=
  String.ofList (List.replicate (5 - l.name.length) ' ') ++ l.name

/-- A line in plain text; `request` is the request to be shown. -/
def plain (r : Record) (request : Option Int) : String :=
  let span := match request with
    | some id => "request\x7bid=" ++ toString id ++ "\x7d: "
    | none => ""
  let number := match r.origin with
    | .event n _ => " n=" ++ toString n
    | _ => ""
  paddedLevel r.level ++ " " ++ span ++ r.target ++ ": " ++
    String.ofList (r.message.toList.flatMap plainChar) ++ number

/-- The line of a record in a format; `request` is the request to be shown. -/
def render (f : Format) (r : Record) (request : Option Int) : Line :=
  match f with
  | .text => .text (plain r request)
  | .json => .object ⟨r.level, r.target, r.fields, request⟩

end Line

end MessageIndex.Logging
