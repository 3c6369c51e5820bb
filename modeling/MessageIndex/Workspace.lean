import MessageIndex.Index
import MessageIndex.Staging

/-!
# Working with a store

A `Workspace` is what a client of an index has in hand: one store, the settings of the index over it,
and numbered slots for batches and for reused buffers. A slot that was never used holds an empty
batch, or fresh buffers. Each `Command` answers and leaves a new workspace; only `commit` changes the
store, and it uses its batch up even when it fails.
-/

namespace MessageIndex

/-- What a client can do. Batches and buffers are named by their slots. -/
inductive Command where
  /-- Stages an entry. -/
  | append (batch : Nat) (p : Partition) (e : Entry)
  /-- Stages several entries in order. -/
  | appendAll (batch : Nat) (p : Partition) (entries : List Entry)
  /-- Stages an entry through reused buffers. -/
  | appendScratch (batch scratch : Nat) (p : Partition) (e : Entry)
  /-- Stages the entry of a dispatched message through reused buffers. -/
  | dispatch (batch scratch : Nat) (r : DispatchRequest)
  /-- Puts fresh buffers into a slot. -/
  | freshScratch (scratch : Nat)
  /-- Stages a plain write. -/
  | put (batch : Nat) (key value : Bytes)
  /-- Stages a plain removal. -/
  | deleteRange (batch : Nat) (start stop : Bytes)
  /-- Stages the removal of a partition. -/
  | deletePartition (batch : Nat) (q : Queue)
  /-- Asks how much is staged. -/
  | inspect (batch : Nat)
  /-- Copies a batch to another slot. -/
  | copy (source target : Nat)
  /-- Takes a batch out of its slot and makes its writes take effect. -/
  | commit (batch : Nat)
  /-- Reads the entry at one offset of a queue. -/
  | pointGet (q : Queue) (offset : UInt64)
  /-- Reads entries of a queue from one offset on, up to a count. -/
  | rangeGet (q : Queue) (start count : UInt64)
  /-- Searches the offsets from `low` to `high` of a queue for a physical position. -/
  | search (q : Queue) (mode : Search.Mode) (target low high : UInt64)
  /-- Reads the store itself. -/
  | get (key : Bytes)
  /-- Reads several keys of the store itself. -/
  | multiGet (keys : List Bytes)
  /-- Asks for all keys of the store. -/
  | keys
  /-- Asks how many keys the store has. -/
  | size
  /-- Sets how the store misbehaves from now on. -/
  | setFaults (f : Faults)
  /-- Makes a new index over the same store. -/
  | rebuild (changes : List SettingsChange)

/-- What a command answers. -/
inductive Answer where
  /-- The command took effect and has nothing to tell. -/
  | done
  /-- A number of staged writes or of keys. -/
  | count (n : Nat)
  /-- A number of staged writes or of keys, and whether there are none. -/
  | countEmpty (n : Nat) (empty : Bool)
  /-- The entry at an offset, if there is one. -/
  | entry (e : Option Entry)
  /-- The entries that were read, in order. -/
  | entries (es : List Entry)
  /-- What a search found, if anything. -/
  | found (f : Option Found)
  /-- The value of a key, if it has one. -/
  | value (v : Option Bytes)
  /-- The values of several keys. -/
  | values (vs : List (Option Bytes))
  /-- The keys of the store. -/
  | keys (ks : List Bytes)
  /-- The settings that are now in force. -/
  | settings (s : Settings)
  deriving DecidableEq

/-- What a client of an index has in hand. -/
structure Workspace where
  /-- The committed contents. -/
  store : Store := {}
  /-- The settings of the index. -/
  settings : Settings := {}
  /-- The staged writes by slot. -/
  batches : Nat → Batch := fun _ => {}
  /-- The reused buffers by slot. -/
  scratches : Nat → Scratch := fun _ => {}
  /-- How the store misbehaves. -/
  faults : Faults := {}

namespace Workspace

/-- The store as the index sees it. -/
def view (w : Workspace) : StoreView := w.faults.bend w.store.view

/-- The index over the store. -/
def index (w : Workspace) : Index := ⟨w.settings, w.view⟩

/-- The workspace with another batch in a slot. -/
def setBatch (w : Workspace) (slot : Nat) (b : Batch) : Workspace :=
  { w with batches := fun i => if i = slot then b else w.batches i }

/-- The workspace with other buffers in a slot. -/
def setScratch (w : Workspace) (slot : Nat) (s : Scratch) : Workspace :=
  { w with scratches := fun i => if i = slot then s else w.scratches i }

/-- Puts a newly staged batch into its slot and answers its size; a failure changes nothing. -/
def stage (w : Workspace) (slot : Nat) (staged : Reply Batch) : Reply Answer × Workspace :=
  match staged.result with
  | .ok b => (⟨.ok (.count b.size), staged.events⟩, w.setBatch slot b)
  | .error cause => (⟨.error cause, staged.events⟩, w)

/-- The workspace after a commit, with the outcome: the batch is gone from its slot in any case. -/
def commit (w : Workspace) (slot : Nat) : Except IndexError Unit × Workspace :=
  let taken := w.setBatch slot {}
  match Faults.check "commit" w.faults.commit with
  | .error cause => (.error cause, taken)
  | .ok () => (.ok (), { taken with store := w.store.commit (w.batches slot) })

/-- Carries out a command. -/
def run (w : Workspace) : Command → Reply Answer × Workspace
  | .append batch p e => w.stage batch ⟨(w.batches batch).append p e, []⟩
  | .appendAll batch p entries =>
    let staged := (w.batches batch).appendAll p entries
    w.stage batch ⟨staged, []⟩
  | .appendScratch batch scratch p e =>
    let (staged, s) := (w.batches batch).appendScratch (w.scratches scratch) p e
    (w.setScratch scratch s).stage batch ⟨staged, []⟩
  | .dispatch batch scratch r =>
    let (staged, s) := (w.batches batch).appendDispatch (w.scratches scratch) r
    (w.setScratch scratch s).stage batch ⟨staged, []⟩
  | .freshScratch scratch => (⟨.ok .done, []⟩, w.setScratch scratch {})
  | .put batch key value => w.stage batch ⟨.ok ((w.batches batch).push (.put key value)), []⟩
  | .deleteRange batch start stop =>
    w.stage batch ⟨.ok ((w.batches batch).push (.deleteRange start stop)), []⟩
  | .deletePartition batch q => w.stage batch ((w.batches batch).deletePartition q)
  | .inspect batch =>
    let b := w.batches batch
    (⟨.ok (.countEmpty b.size b.isEmpty), []⟩, w)
  | .copy source target =>
    let b := w.batches source
    (⟨.ok (.count b.size), []⟩, w.setBatch target b)
  | .commit batch =>
    let (outcome, w) := w.commit batch
    (⟨outcome.map fun _ => .count w.store.size, []⟩, w)
  | .pointGet q offset => (⟨(w.index.pointGet q offset).map .entry, []⟩, w)
  | .rangeGet q start count =>
    let reply := w.index.rangeGet q start count
    (⟨reply.result.map .entries, reply.events⟩, w)
  | .search q mode target low high =>
    let reply := w.index.search q mode target low high
    (⟨reply.result.map .found, reply.events⟩, w)
  | .get key => (⟨(w.view.get key).map .value, []⟩, w)
  | .multiGet keys => (⟨(w.view.multiGet keys).map .values, []⟩, w)
  | .keys => (⟨.ok (.keys w.store.keys), []⟩, w)
  | .size => (⟨.ok (.countEmpty w.store.size w.store.isEmpty), []⟩, w)
  | .setFaults f => (⟨.ok .done, []⟩, { w with faults := f })
  | .rebuild changes =>
    let settings := Settings.build changes
    (⟨.ok (.settings settings), []⟩, { w with settings })

/-- Carries out commands in order, with what each answers. -/
def runAll (w : Workspace) : List Command → List (Reply Answer) × Workspace
  | [] => ([], w)
  | c :: rest =>
    let (reply, w) := w.run c
    let (replies, w) := w.runAll rest
    (reply :: replies, w)

end Workspace

end MessageIndex
