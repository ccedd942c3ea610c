import UnionVoyager.Vm.Queue
import UnionVoyager.Lib.Result

/-!
# The in-memory queue

`lib/voyager-vm/src/in_memory.rs`.

* A `BTreeMap` by item id is the list of its entries in the order of the ids; the optimizer queue is
  one such list with the tag beside the id, as no map of it is ever empty.
* The counter of ids is an `AtomicU32`: where it wraps, an item may take the place of another one.
* `optimize` answers `none` where an index is out of range: that panic poisons the locks.
-/

namespace UnionVoyager.Vm.InMemory

open Lib

structure Item (T : QueueMessage) where
  parents : List Nat
  op : Op T

variable {T : QueueMessage}

structure InMemoryQueue (T : QueueMessage) where
  idx : Nat
  ready : List (Nat × Item T)
  done : List (Nat × Item T)
  optimizerQueue : List (String × Nat × Item T)

/-- `BTreeMap::insert`. -/
def mapInsert (id : Nat) (item : Item T) : List (Nat × Item T) → List (Nat × Item T)
  | [] => [(id, item)]
  | (k, v) :: rest =>
    if id < k then (id, item) :: (k, v) :: rest
    else if id = k then (id, item) :: rest
    else (k, v) :: mapInsert id item rest

/-- The same in the map of the tag. -/
def tagInsert (tag : String) (id : Nat) (item : Item T) : List (String × Nat × Item T) →
      List (String × Nat × Item T)
  | [] => [(tag, id, item)]
  | (t, k, v) :: rest =>
    if t = tag ∧ id < k then (tag, id, item) :: (t, k, v) :: rest
    else if t = tag ∧ id = k then (tag, id, item) :: rest
    else (t, k, v) :: tagInsert tag id item rest

namespace InMemoryQueue

def new : InMemoryQueue T := ⟨0, [], [], []⟩

/-- `ready.insert(idx.fetch_add(1), item)`. -/
def insertReady (q : InMemoryQueue T) (item : Item T) : InMemoryQueue T :=
  { q with idx := (q.idx + 1) % 2 ^ 32, ready := mapInsert q.idx item q.ready }

/-- `optimizer_queue.entry(tag).or_default().insert(idx.fetch_add(1), item)`. -/
def insertTagged (q : InMemoryQueue T) (tag : String) (item : Item T) : InMemoryQueue T :=
  { q with idx := (q.idx + 1) % 2 ^ 32, optimizerQueue := tagInsert tag q.idx item q.optimizerQueue }

/-- The body of the loops of `enqueue` and `process`. -/
def insertOp (filter : InterestFilter T) (q : InMemoryQueue T) (op : Op T) : InMemoryQueue T :=
  match filter op with
  | .interest ⟨tags, remove⟩ =>
    let q := tags.foldl (fun q tag => q.insertTagged tag ⟨[], op⟩) q
    if remove then q else q.insertReady ⟨[], op⟩
  | .noInterest => q.insertReady ⟨[], op⟩

def enqueue (q : InMemoryQueue T) (filter : InterestFilter T) (op : Op T) : InMemoryQueue T :=
  op.normalize.foldl (insertOp filter) q

/-- The closure answers with its result `R` and the new ops. -/
def process {R : Type} (q : InMemoryQueue T) (filter : InterestFilter T)
    (f : Op T → Nat → R × Except QueueError (List (Op T))) : InMemoryQueue T × Option R :=
  match q.ready with
  | [] => (q, none)
  | (id, item) :: ready =>
    let q := { q with ready, done := mapInsert id item q.done }
    match f item.op id with
    | (r, .ok ops) => ((ops.flatMap Op.normalize).foldl (insertOp filter) q, some r)
    | (_, .error (.retry _)) => ({ q with ready := mapInsert id item q.ready }, none)
    | (_, .error _) => (q, none)

/-- `optimizer_queue.get(tag)`. -/
def tagged (q : InMemoryQueue T) (tag : String) : List (Nat × Item T) :=
  (q.optimizerQueue.filter (·.1 = tag)).map Prod.snd

def removeTag (q : InMemoryQueue T) (tag : String) : InMemoryQueue T :=
  { q with optimizerQueue := q.optimizerQueue.filter (·.1 ≠ tag) }

/-- `parents_idxs.iter().map(|&i| &ids[i]).copied().collect()`. -/
def parentIds (ids : List Nat) (parentsIdxs : List Nat) : Option (List Nat) := parentsIdxs.mapM (ids[·]?)

/-- `for tag in tags`, with the parents looked up for each of them. -/
def insertTags (ids parentsIdxs : List Nat) (op : Op T) : List String → InMemoryQueue T →
      Option (InMemoryQueue T)
  | [], q => some q
  | tag :: tags, q => do
    let parents ← parentIds ids parentsIdxs
    insertTags ids parentsIdxs op tags (q.insertTagged tag ⟨parents, op⟩)

/-- `'block: for op in normalized_ops`. -/
def insertBlock (filter : InterestFilter T) (ids parentsIdxs : List Nat) :
    List (Op T) → InMemoryQueue T → Option (InMemoryQueue T)
  | [], q => some q
  | op :: ops, q =>
    match filter op with
    | .interest ⟨tags, remove⟩ => do
      let q ← insertTags ids parentsIdxs op tags q
      if remove then
        some q
      else
        let parents ← parentIds ids parentsIdxs
        insertBlock filter ids parentsIdxs ops (q.insertReady ⟨parents, op⟩)
    | .noInterest => do
      let parents ← parentIds ids parentsIdxs
      insertBlock filter ids parentsIdxs ops (q.insertReady ⟨parents, op⟩)

def optimize {ε : Type} (q : InMemoryQueue T) (tag : String) (filter : InterestFilter T)
    (optimizer : Pass T ε) : Option (InMemoryQueue T × Except ε Unit) :=
  match q.tagged tag with
  | [] => some (q, .ok ())
  | entry :: entries =>
    let q := q.removeTag tag
    let ids := (entry :: entries).map Prod.fst
    match optimizer ((entry :: entries).map fun e => e.2.op) with
    | .error e => some (q, .error e)
    | .ok res => do
      let q := { q with done := (entry :: entries).foldl (fun done e => mapInsert e.1 e.2 done) q.done }
      let q ← res.ready.foldlM (fun q entry => insertBlock filter ids entry.1 entry.2.normalize q) q
      let q ← res.optimizeFurther.foldlM (fun q entry => insertTags ids entry.1 entry.2.1 [entry.2.2] q) q
      return (q, .ok ())

def contents (q : InMemoryQueue T) : Multiset (Place × Op T) :=
  ↑(q.ready.map fun e => ((none, e.2.op) : Place × Op T)) +
    ↑(q.optimizerQueue.map fun e => (some e.1, e.2.2.op))

/-- Every id is below the next one. -/
structure Fresh (q : InMemoryQueue T) : Prop where
  ready : ∀ e ∈ q.ready, e.1 < q.idx
  done : ∀ e ∈ q.done, e.1 < q.idx
  optimizerQueue : ∀ e ∈ q.optimizerQueue, e.2.1 < q.idx

/-- The counter does not wrap while these are inserted. -/
def Room (q : InMemoryQueue T) (added : Multiset (Place × Op T)) : Prop := q.idx + added.card < 2 ^ 32

instance (q : InMemoryQueue T) (added : Multiset (Place × Op T)) : Decidable (q.Room added) :=
  inferInstanceAs (Decidable (_ < _))

end InMemoryQueue

end UnionVoyager.Vm.InMemory
