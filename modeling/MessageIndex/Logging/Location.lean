/-!
# Where log files lie

A path is walked name by name, from the working directory on. Regular files cannot be walked through.
What lies outside of the working directory is not looked at any more: it can be used, but it is not
among the files of the process.

A file system bounds names and paths by their size in bytes, and it has no name for the character
with number zero. The name under which a log file is stored is longer than the one it is known by: it
ends with the hour in which the file was begun.
-/

namespace MessageIndex.Logging

/-- A place in the file system. -/
inductive Location where
  /-- Below the working directory, by the names on the way. -/
  | inside (names : List String)
  /-- Elsewhere. -/
  | outside
  deriving DecidableEq, Repr

namespace Location

/-- The largest size of a name. -/
def maxNameSize : Nat := 255

/-- The largest size of a path. -/
def maxPathSize : Nat := 4095

/-- The size of what ends the stored name of a log file: a point and year, month, day and hour, with
dashes between them. -/
def stampSize : Nat := 14

/-- The place that a name leads to; none if the name is too long or a regular file stands there. -/
def enter (regularFiles : List (List String)) (l : Location) (name : String) : Option Location :=
  if maxNameSize < name.utf8ByteSize then none
  else
    match l with
    | outside => some outside
    | inside names =>
      if name = "" ∨ name = "." then some (inside names)
      else if name = ".." then
        if names.isEmpty then some outside else some (inside names.dropLast)
      else
        let names := names ++ [name]
        if names ∈ regularFiles then none else some (inside names)

/-- The path of `file` as seen from the directory `dir`. An absolute path is the same from
everywhere. -/
def join (dir file : String) : String :=
  if file.startsWith "/" then file
  else if dir.endsWith "/" then dir ++ file
  else dir ++ "/" ++ file

/-- The place of a log file with a known name in a known directory. -/
def place (directory : Location) (name : String) : Location :=
  match directory with
  | outside => outside
  | inside way => inside (way ++ [name])

/-- The place of the log file `file` seen from the directory `dir`; none if it cannot be opened
there. -/
def ofFile (regularFiles : List (List String)) (dir file : String) : Option Location :=
  let path := join dir file
  let names := (path.toList.splitOn '/').map String.ofList
  let name := names.getLastD ""
  if '\x00' ∈ path.toList ∨ maxPathSize < path.utf8ByteSize + stampSize ∨
      maxNameSize < name.utf8ByteSize + stampSize then none
  else
    let start := if path.startsWith "/" then outside else inside []
    (names.dropLast.foldlM (enter regularFiles) start).map (place · name)

/-- The path of a place from the working directory on, if it is inside. -/
def path? : Location → Option String
  | inside names => some ("/".intercalate names)
  | outside => none

end Location

end MessageIndex.Logging
