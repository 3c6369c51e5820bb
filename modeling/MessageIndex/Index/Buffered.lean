import MessageIndex.Index
import MessageIndex.Scratch

/-!
# Searching through one key buffer

A search asks for many keys of one queue, so it can encode all of them in one buffer and report as it
goes. Its probe then keeps something from one question to the next, the buffer with the last key and the
events so far, and the bisection passes that on.
-/

namespace MessageIndex

namespace Search

/-- A probe that keeps something from one question to the next. -/
abbrev KeepingProbe (σ ε : Type) := σ → UInt64 → Except ε (Option UInt64) × σ

/-- Bisection through a probe that keeps something, with what is kept in the end. -/
def bisectKeeping {σ ε : Type} (rule : Rule) (probe : KeepingProbe σ ε) (kept : σ) (low high : UInt64)
    (found : Option Found) : Run ε × σ :=
  if _ : low ≤ high then
    let mid := midpoint low high
    match probe kept mid with
    | (.error e, kept) => (⟨.error e, [mid]⟩, kept)
    | (.ok answer, kept) =>
      let found := remember rule mid found answer
      match _ : narrow low high mid (judge rule answer).descend with
      | none => (⟨.ok found, [mid]⟩, kept)
      | some (low', high') =>
        let (rest, kept) := bisectKeeping rule probe kept low' high' found
        ({ rest with probes := mid :: rest.probes }, kept)
  else (⟨.ok found, []⟩, kept)
termination_by high.toNat + 1 - low.toNat
decreasing_by exact narrow_shrinks ‹low ≤ high› ‹_›

end Search

/-- What a search has in hand. -/
structure Searching where
  /-- The key last asked for. -/
  buffer : Bytes := []
  /-- What was reported so far. -/
  events : List Event := []

namespace Index

/-- Asks for the physical position at an offset, with the key encoded in the buffer at hand. -/
def probeBuffered (ix : Index) (q : Queue) (kept : Searching) (offset : UInt64) :
    Except IndexError (Option UInt64) × Searching :=
  match (q.key offset).encodeInto kept.buffer with
  | (.error cause, buffer) => (.error cause, { kept with buffer })
  | (.ok key, buffer) =>
    match ix.view.get key with
    | .error cause => (.error cause, { kept with buffer })
    | .ok value =>
      let reported := if ix.settings.enableSearchLog then [.probed q offset value.isSome] else []
      (value.mapM fun bytes => Entry.readField bytes .physicalOffset,
        { buffer, events := kept.events ++ reported })

/-- Searches the offsets from `low` to `high` of a queue for a physical position, with all keys encoded
in one buffer. -/
def searchBuffered (ix : Index) (buffer : Bytes) (q : Queue) (mode : Search.Mode)
    (target low high : UInt64) : Reply (Option Found) :=
  let (run, kept) := Search.bisectKeeping (mode.rule target) (ix.probeBuffered q) { buffer } low high none
  ⟨run.result, kept.events⟩

end Index

end MessageIndex
