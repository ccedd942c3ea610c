import UnionVoyager.Vm.Queue
import UnionVoyager.Lib.Result
import Mathlib.Data.List.Sort

/-!
# The postgres queue

`lib/pg-queue/src/lib.rs`.  What a transaction writes is a list of statements that each insert one
row; `UNNEST` of two arrays pairs them by position and pads the shorter one with `NULL`.

* `enqueue`, `processItem`, `optimize` — what each transaction does from its first statement to its commit; a
  transaction that fails is dropped, which rolls it back.
-/

namespace UnionVoyager.Vm.PgQueue

open Lib

variable {T : QueueMessage}

structure QueueRow (T : QueueMessage) where
  id : Nat
  item : Op T
  parents : List Nat
  createdAt : Nat
  handleAt : Nat
  attempt : Nat

structure OptimizeRow (T : QueueMessage) where
  id : Nat
  item : Op T
  tag : String
  parents : List Nat
  createdAt : Nat

structure DoneRow (T : QueueMessage) where
  id : Nat
  item : Op T
  parents : List Nat
  createdAt : Nat

structure FailedRow (T : QueueMessage) where
  id : Nat
  item : Op T
  parents : List Nat
  message : String
  createdAt : Nat

/-- The tables of `PgQueue::new`. -/
structure Db (T : QueueMessage) where
  queue : List (QueueRow T)
  optimize : List (OptimizeRow T)
  done : List (DoneRow T)
  failed : List (FailedRow T)

/-- One inserted row; the first two draw their id from the sequence. -/
inductive Stmt (T : QueueMessage) where
  | queue (item : Op T) (parents : List Nat)
  | optimize (item : Op T) (parents : List Nat) (tag : String)
  | retry (row : QueueRow T)
  | done (row : DoneRow T)
  | failed (row : FailedRow T)

inductive SqlError where
  | uniqueViolation
  | notNullViolation

namespace Stmt

/-- `nextval('queue_id_seq')` is called. -/
def drawsId : Stmt T → Bool
  | .queue .. | .optimize .. => true
  | _ => false

/-- The primary key is there already; `id` is the one drawn. -/
def conflicts (id : Nat) (db : Db T) : Stmt T → Bool
  | .queue .. => db.queue.any (·.id = id)
  | .optimize .. => db.optimize.any (·.id = id)
  | .retry row => db.queue.any (·.id = row.id)
  | .done row => db.done.any fun r => r.id = row.id ∧ r.createdAt = row.createdAt
  | .failed row => db.failed.any (·.id = row.id)

/-- The table with the row; `now` is the time of the transaction. -/
def insert (now id : Nat) (db : Db T) : Stmt T → Db T
  | .queue item parents => { db with queue := db.queue ++ [⟨id, item, parents, now, now, 0⟩] }
  | .optimize item parents tag => { db with optimize := db.optimize ++ [⟨id, item, tag, parents, now⟩] }
  | .retry row => { db with queue := db.queue ++ [row] }
  | .done row => { db with done := db.done ++ [row] }
  | .failed row => { db with failed := db.failed ++ [row] }

/-- The next value of the sequence afterwards. -/
def nextId (id : Nat) (stmt : Stmt T) : Nat := if stmt.drawsId then id + 1 else id

/-- One statement, on the tables and the next id. -/
def exec (now : Nat) (s : Db T × Nat) (stmt : Stmt T) : Except SqlError (Db T × Nat) := do
  ensure (¬ stmt.conflicts s.2 s.1) .uniqueViolation
  return (stmt.insert now s.2 s.1, stmt.nextId s.2)

end Stmt

/-! ## Enqueue -/

/-- `SELECT * FROM UNNEST($1, $2)`. -/
def unnest {α β : Type} : List α → List β → List (Option α × Option β) := List.zipWithAll Prod.mk

/-- The columns `item` and `tag` of `optimize` are `NOT NULL`. -/
def notNull {α β : Type} : Option α × Option β → Except SqlError (α × β)
  | (some a, some b) => .ok (a, b)
  | _ => .error .notNullViolation

/-- `partition_map` over `check_interest`: the ops with interest, and the others. -/
def interested (filter : InterestFilter T) (ops : List (Op T)) : List (Op T × Interest) :=
  ops.filterMap fun op => match filter op with
    | .interest i => some (op, i)
    | .noInterest => none

def uninterested (filter : InterestFilter T) (ops : List (Op T)) : List (Op T) :=
  ops.filter fun op => filter op = .noInterest

/-- One item for each op, and all tags of all ops. -/
def enqueueStmts (filter : InterestFilter T) (op : Op T) : Except SqlError (List (Stmt T)) := do
  let optimize := interested filter op.normalize
  let ready := uninterested filter op.normalize
  let rows ← (unnest (optimize.map Prod.fst) (optimize.flatMap fun x => x.2.tags)).mapM notNull
  return ready.map (.queue · []) ++ rows.map fun row => .optimize row.1 [] row.2

def enqueue (filter : InterestFilter T) (op : Op T) (now : Nat) (s : Db T × Nat) :
    Except SqlError (Db T × Nat) := do
  let stmts ← enqueueStmts filter op
  stmts.foldlM (Stmt.exec now) s

/-! ## Process -/

/-- `saturating_add` of `i64`. -/
def nextAttempt (attempt : Nat) : Nat := min (attempt + 1) (2 ^ 63 - 1)

section

variable (filter : InterestFilter T) (backoff : Nat → Nat) (now : Nat) (record : QueueRow T)

/-- What `process_item` and `insert_error` insert for a record that was deleted from `queue`;
    `backoff` is the wait after an attempt. -/
def processStmts : Except QueueError (List (Op T)) → Except SqlError (List (Stmt T))
  | .error (.fatal error) | .error (.unprocessable error) =>
    .ok [.failed ⟨record.id, record.item, record.parents, error, record.createdAt⟩]
  | .error (.retry _) =>
    .ok [.retry { record with
      attempt := nextAttempt record.attempt
      handleAt := now + backoff record.attempt }]
  | .ok ops => do
    let done := .done ⟨record.id, record.item, record.parents, record.createdAt⟩
    if ops.isEmpty then
      return [done]
    else
      let normalized := ops.flatMap Op.normalize
      let optimize := interested filter normalized
      let ready := uninterested filter normalized
      let rows ← (unnest (optimize.flatMap fun x => x.2.tags.map fun _ => x.1)
        (optimize.flatMap fun x => x.2.tags)).mapM notNull
      return done :: ready.map (.queue · [record.id]) ++ rows.map fun row => .optimize row.1 [record.id] row.2

/-- `record` was deleted from the tables. -/
def processItem (res : Except QueueError (List (Op T))) (s : Db T × Nat) :
    Except SqlError (Db T × Nat) := do
  let stmts ← processStmts filter backoff now record res
  stmts.foldlM (Stmt.exec now) s

end

/-! ## Optimize -/

/-- The ids of the deleted rows at the given indices; an index out of range is ignored. -/
def parentIds (ids parentIdxs : List Nat) : List Nat :=
  (ids.zipIdx.filter fun e => parentIdxs.contains e.2).map Prod.fst

/-- `'block: for op in normalized_ops`: the rows of `optimize`, and the ops for `queue`. -/
def block (filter : InterestFilter T) (parents : List Nat) : List (Op T) → List (Stmt T) × List (Op T)
  | [] => ([], [])
  | op :: ops =>
    match filter op with
    | .interest ⟨tags, remove⟩ =>
      let tagged : List (Stmt T) := tags.map (.optimize op parents ·)
      if remove then
        (tagged, [])
      else
        let rest := block filter parents ops
        (tagged ++ rest.1, op :: rest.2)
    | .noInterest =>
      let rest := block filter parents ops
      (rest.1, op :: rest.2)

/-- What `optimize` inserts for the result of the pass; the ready ops come last. -/
def optimizeStmts (filter : InterestFilter T) (ids : List Nat) (res : PassResult T) : List (Stmt T) :=
  let further := res.optimizeFurther.map fun e => Stmt.optimize e.2.1 (parentIds ids e.1) e.2.2
  let tagged := res.ready.flatMap fun e => (block filter (parentIds ids e.1) e.2.normalize).1
  let ready := res.ready.flatMap fun e =>
    (block filter (parentIds ids e.1) e.2.normalize).2.map (Stmt.queue · (parentIds ids e.1))
  further ++ tagged ++ ready

/-- `SELECT id FROM optimize WHERE tag = $1 ORDER BY id ASC LIMIT $2`, with nothing locked. -/
def selectTag (db : Db T) (tag : String) (limit : Option Nat) : List (OptimizeRow T) :=
  let rows := (db.optimize.filter (·.tag = tag)).mergeSort (·.id ≤ ·.id)
  match limit with
  | some n => rows.take n
  | none => rows

/-- `DELETE FROM optimize WHERE id = ANY(..)`. -/
def deleteOptimize (db : Db T) (ids : List Nat) : Db T :=
    { db with optimize := db.optimize.filter fun r => r.id ∉ ids }

/-- The error of `optimize`: of the database, or of the pass. -/
abbrev OptimizeError (ε : Type) := SqlError ⊕ ε

/-- The transaction of `optimize`, up to its commit. -/
def optimizeTx {ε : Type} (limit : Option Nat) (tag : String) (filter : InterestFilter T)
    (optimizer : Pass T ε) (now : Nat) (s : Db T × Nat) : Except (OptimizeError ε) (Db T × Nat) :=
  match selectTag s.1 tag limit with
  | [] => .ok s
  | row :: rows => do
    let ids := (row :: rows).map OptimizeRow.id
    let res ← (optimizer ((row :: rows).map OptimizeRow.item)).mapError .inr
    ((optimizeStmts filter ids res).foldlM (Stmt.exec now) (deleteOptimize s.1 ids, s.2)).mapError .inl

/-- A transaction that fails is rolled back when it is dropped; what it drew from the sequence stays
    drawn, and no table shows that. -/
def transact {ε : Type} (tx : Db T × Nat → Except ε (Db T × Nat)) (s : Db T × Nat) :
    (Db T × Nat) × Except ε Unit :=
  match tx s with
  | .ok s' => (s', .ok ())
  | .error e => (s, .error e)

def optimize {ε : Type} (limit : Option Nat) (tag : String) (filter : InterestFilter T) (optimizer : Pass T ε)
    (now : Nat) : Db T × Nat → (Db T × Nat) × Except (OptimizeError ε) Unit :=
  transact (optimizeTx limit tag filter optimizer now)

end UnionVoyager.Vm.PgQueue
