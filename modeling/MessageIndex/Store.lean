import Std.Data.ExtTreeMap
import MessageIndex.Bytes

/-!
# Ordered stores and batches

A `Store` maps keys to values and lists its keys in byte order. It is an ordered map that is
determined by its look-ups: stores with the same value under every key are equal. Writes are staged
in a `Batch` and take effect together, in the order in which they were staged.
-/

namespace MessageIndex

namespace Bytes

theorem isLE_compare_iff {a b : Bytes} : (compare a b).isLE ↔ Before a b ∨ a = b := by
  unfold Before
  rw [← compare_eq_iff]
  cases compare a b <;> simp

instance : Std.TransCmp compare where
  eq_swap {a b} := (swap_compare b a).symm
  isLE_trans {a b c} hab hbc := by
    rw [isLE_compare_iff] at *
    obtain hab | rfl := hab
    · obtain hbc | rfl := hbc
      · exact .inl (hab.trans hbc)
      · exact .inl hab
    · exact hbc

instance : Std.LawfulEqCmp compare where
  eq_of_compare h := compare_eq_iff.mp h

end Bytes

/-- One write to a store. -/
inductive BatchOp where
  /-- Files `value` under `key`, in place of what was there. -/
  | put (key value : Bytes)
  /-- Removes every key from `start` up to but without `stop`. -/
  | deleteRange (start stop : Bytes)
  deriving DecidableEq, Repr

/-- Staged writes, the first one first. -/
structure Batch where
  /-- The writes in the order in which they were staged. -/
  ops : List BatchOp := []
  deriving DecidableEq, Repr

namespace Batch

/-- The batch with one more write at its end. -/
def push (b : Batch) (op : BatchOp) : Batch := ⟨b.ops ++ [op]⟩

/-- The number of staged writes. -/
def size (b : Batch) : Nat := b.ops.length

/-- Whether nothing is staged. -/
def isEmpty (b : Batch) : Bool := b.ops.isEmpty

@[simp] theorem size_push (b : Batch) (op : BatchOp) : (b.push op).size = b.size + 1 := by
  simp [push, size]

end Batch

/-- A map from keys to values, in key order. -/
structure Store where
  /-- Keys with their values. -/
  entries : Std.ExtTreeMap Bytes Bytes Bytes.compare := ∅

namespace Store

/-- The value filed under `key`. -/
def get (s : Store) (key : Bytes) : Option Bytes := s.entries[key]?

/-- The keys in order. -/
def keys (s : Store) : List Bytes := s.entries.keys

/-- The number of keys. -/
def size (s : Store) : Nat := s.entries.size

/-- Whether there is no key. -/
def isEmpty (s : Store) : Bool := s.entries.isEmpty

/-- Files `value` under `key`. -/
def put (s : Store) (key value : Bytes) : Store := ⟨s.entries.insert key value⟩

/-- Removes every key from `start` up to but without `stop`; none if `stop` is not after `start`. -/
def deleteRange (s : Store) (start stop : Bytes) : Store :=
  ⟨s.entries.filter fun key _ => ¬ Bytes.InRange start stop key⟩

/-- The effect of one write. -/
def apply (s : Store) : BatchOp → Store
  | .put key value => s.put key value
  | .deleteRange start stop => s.deleteRange start stop

/-- The effect of a batch: its writes in order. -/
def commit (s : Store) (b : Batch) : Store := b.ops.foldl apply s

/-! ## Look-ups -/

/-- A store is determined by its look-ups. -/
theorem ext_get {s t : Store} (h : ∀ key, s.get key = t.get key) : s = t := by
  cases s
  cases t
  exact congrArg mk (Std.ExtTreeMap.ext_getElem? h)

@[simp] theorem get_empty (key : Bytes) : get {} key = none := Std.ExtTreeMap.getElem?_empty

@[simp] theorem get_put (s : Store) (key value other : Bytes) :
    (s.put key value).get other = if key = other then some value else s.get other := by
  simp [get, put, Std.ExtTreeMap.getElem?_insert]

@[simp] theorem get_deleteRange (s : Store) (start stop key : Bytes) :
    (s.deleteRange start stop).get key =
      if Bytes.InRange start stop key then none else s.get key := by
  rw [get, deleteRange, Std.ExtTreeMap.getElem?_filter', ← get]
  cases s.get key <;> by_cases h : Bytes.InRange start stop key <;> simp [h]

end Store

end MessageIndex
