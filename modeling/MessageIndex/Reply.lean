import MessageIndex.Event

/-!
# Replies

Calls that can report something answer a `Reply`: the result, which may be a failure, and the events
that were reported on the way.
-/

namespace MessageIndex

/-- The outcome of a call with what it reports. -/
structure Reply (α : Type) where
  /-- The answer, or why there is none. -/
  result : Except IndexError α
  /-- The events reported, the first one first. -/
  events : List Event := []

end MessageIndex
