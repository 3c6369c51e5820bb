import MessageIndex.Error
import MessageIndex.Store

/-!
# Reading a store

An index reads its store through a `StoreView`: two questions, to which nothing is promised about the
answers. A store that works answers what is filed under the keys; `Faults` bend the answers of any
view, to say what an index does when its store does not keep its contract.
-/

namespace MessageIndex

/-- The reads that a store answers. -/
structure StoreView where
  /-- The value under a key. -/
  get : Bytes → Except IndexError (Option Bytes)
  /-- The values under several keys, one slot for each key. -/
  multiGet : List Bytes → Except IndexError (List (Option Bytes))

/-- A store that works. -/
def Store.view (s : Store) : StoreView where
  get key := .ok (s.get key)
  multiGet keys := .ok (keys.map s.get)

/-- Ways in which a store misbehaves. -/
structure Faults where
  /-- Single reads fail, for this reason. -/
  get : Option String := none
  /-- Batched reads fail, for this reason. -/
  multiGet : Option String := none
  /-- Commits fail, for this reason. -/
  commit : Option String := none
  /-- How many slots are lost at the end of a batched read. -/
  drop : Nat := 0
  /-- How many empty slots then follow. -/
  pad : Nat := 0
  deriving DecidableEq, Repr

namespace Faults

/-- Fails with the reason given, if one is given. -/
def check (op : String) : Option String → Except IndexError Unit
  | none => .ok ()
  | some source => .error (.storeUnavailable op source)

/-- The view with its answers bent. A failure comes before the store is asked anything. -/
def bend (f : Faults) (view : StoreView) : StoreView where
  get key := do
    check "get" f.get
    view.get key
  multiGet keys := do
    check "multi_get" f.multiGet
    let slots ← view.multiGet keys
    return slots.take (slots.length - f.drop) ++ List.replicate f.pad none

/-- Without faults, a view answers as it would. -/
@[simp] theorem bend_none (view : StoreView) : bend {} view = view := by
  cases view
  simp only [bend, check, StoreView.mk.injEq]
  refine ⟨rfl, funext fun keys => ?_⟩
  rename_i get multiGet
  cases multiGet keys <;> simp [bind, Except.bind, pure, Except.pure]

end Faults

end MessageIndex
