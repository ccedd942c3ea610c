import UnionVoyager.Vm.Optimize
import UnionVoyager.Vm.Routing
import UnionVoyager.Lib.Machine
import Mathlib.Data.Multiset.OrderedMonoid
import Mathlib.Tactic.Abel

/-!
# Bookkeeping of the postgres queue

Any number of workers run `enqueue`, `process` and `optimize`, each in a transaction of its own.  A
transaction locks the rows it deletes, writes row by row, and commits all of it or nothing; the
sequence of the ids is shared, and what was drawn from it is never given back.

* `World`, `step` — the committed tables and the open transactions, statement by statement.
* `Inv` — every id is in one row; an open transaction inserts an id that it drew itself, or that of
  a row it deleted.
* `step_inv` — every step keeps it, and no insertion meets its primary key.
-/

namespace UnionVoyager.Vm.PgQueue

open Lib Multiset

variable {T : QueueMessage}

/-- What a transaction waits for or has left to write. -/
inductive Stage (T : QueueMessage) where
  | processing (record : QueueRow T)
  | optimizing (rows : List (OptimizeRow T))
  | writing (todo : List (Stmt T))

/-- An open transaction: the rows it deleted and holds the locks of, and the rows it inserted. -/
structure Tx (T : QueueMessage) where
  now : Nat
  taken : List Nat
  inserted : Db T
  stage : Stage T

/-- The committed tables, the next value of the sequence, and the open transactions. -/
structure World (T : QueueMessage) where
  db : Db T
  next : Nat
  txs : List (Tx T)

def Db.empty : Db T := ⟨[], [], [], []⟩

def World.init : World T := ⟨.empty, 1, []⟩

inductive Input (T : QueueMessage) where
  /-- `enqueue` begins. -/
  | enqueue (now : Nat) (filter : InterestFilter T) (op : Op T)
  /-- `process` begins and finds the row with the id. -/
  | process (now : Nat) (id : Nat)
  /-- The closure of `process` answers. -/
  | processed (w : Nat) (now : Nat) (filter : InterestFilter T) (backoff : Nat → Nat)
    (res : Except QueueError (List (Op T)))
  /-- `optimize` begins and finds the given ones among the rows with the tag. -/
  | optimize (now : Nat) (tag : String) (ids : List Nat)
  /-- The pass of `optimize` answers. -/
  | optimized (w : Nat) (filter : InterestFilter T) (res : PassResult T)
  /-- The next statement. -/
  | exec (w : Nat)
  | commit (w : Nat)
  /-- An error or a crash drops the transaction; it may have drawn some ids in vain. -/
  | rollback (w : Nat) (drawn : Nat)

/-- A primary key is violated. -/
inductive Event (T : QueueMessage) where
  | uniqueViolation (stmt : Stmt T)

/-- Rows of `queue` and `optimize` are deleted. -/
def Db.remove (db : Db T) (ids : List Nat) : Db T :=
  { db with
    queue := db.queue.filter fun r => r.id ∉ ids
    optimize := db.optimize.filter fun r => r.id ∉ ids }

def Db.append (db db' : Db T) : Db T :=
  ⟨db.queue ++ db'.queue, db.optimize ++ db'.optimize, db.done ++ db'.done, db.failed ++ db'.failed⟩

/-- Some open transaction holds the lock of the row. -/
def World.locked (s : World T) (id : Nat) : Bool := s.txs.any fun tx => id ∈ tx.taken

/-- The rows whose keys the transaction could meet: the committed ones that it did not delete, and
    all uncommitted ones. -/
def World.seen (s : World T) (tx : Tx T) : Db T :=
    s.txs.foldl (fun db tx' => db.append tx'.inserted) (s.db.remove tx.taken)

def World.begin (s : World T) (tx : Tx T) : World T := { s with txs := s.txs ++ [tx] }

def World.update (s : World T) (w : Nat) (tx : Tx T) : World T := { s with txs := s.txs.set w tx }

def World.drop (s : World T) (w : Nat) : World T := { s with txs := s.txs.eraseIdx w }

/-- The next statement of the transaction. -/
def World.exec (s : World T) (w : Nat) (tx : Tx T) (stmt : Stmt T) (todo : List (Stmt T)) :
    World T × List (Event T) :=
  if stmt.conflicts s.next (s.seen tx) then
    (s.drop w, [.uniqueViolation stmt])
  else
    ({ s.update w { tx with inserted := stmt.insert tx.now s.next tx.inserted, stage := .writing todo } with
        next := stmt.nextId s.next }, [])

def World.step (s : World T) : Input T → World T × List (Event T)
  | .enqueue now filter op =>
    match enqueueStmts filter op with
    | .ok stmts => (s.begin ⟨now, [], .empty, .writing stmts⟩, [])
    | .error _ => (s, [])
  | .process now id =>
    match s.db.queue.find? fun r => decide (r.id = id ∧ r.handleAt < now) && !s.locked r.id with
    | some record => (s.begin ⟨now, [record.id], .empty, .processing record⟩, [])
    | none => (s, [])
  | .processed w now filter backoff res =>
    match s.txs[w]? with
    | some ⟨now', taken, inserted, .processing record⟩ =>
      match processStmts filter backoff now record res with
      | .ok stmts => (s.update w ⟨now', taken, inserted, .writing stmts⟩, [])
      | .error _ => (s.drop w, [])
    | _ => (s, [])
  | .optimize now tag ids =>
    let rows := s.db.optimize.filter fun r => decide (r.tag = tag ∧ r.id ∈ ids) && !s.locked r.id
    if rows.isEmpty then (s, []) else (s.begin ⟨now, rows.map OptimizeRow.id, .empty, .optimizing rows⟩, [])
  | .optimized w filter res =>
    match s.txs[w]? with
    | some ⟨now, taken, inserted, .optimizing rows⟩ =>
      (s.update w ⟨now, taken, inserted, .writing (optimizeStmts filter (rows.map OptimizeRow.id) res)⟩, [])
    | _ => (s, [])
  | .exec w =>
    match s.txs[w]? with
    | some ⟨now, taken, inserted, .writing (stmt :: todo)⟩ =>
      s.exec w ⟨now, taken, inserted, .writing (stmt :: todo)⟩ stmt todo
    | _ => (s, [])
  | .commit w =>
    match s.txs[w]? with
    | some ⟨_, taken, inserted, .writing []⟩ =>
      ({ s.drop w with db := (s.db.remove taken).append inserted }, [])
    | _ => (s, [])
  | .rollback w drawn => ({ s.drop w with next := s.next + drawn }, [])

/-! ## Ids -/

/-- The ids that are still to be handled. -/
def openIds (db : Db T) : Multiset Nat := ↑(db.queue.map QueueRow.id) + ↑(db.optimize.map OptimizeRow.id)

/-- The ids that were handled. -/
def settledIds (db : Db T) : Multiset Nat := ↑(db.done.map DoneRow.id) + ↑(db.failed.map FailedRow.id)

/-- The ids of all rows of the four tables. -/
def ids (db : Db T) : Multiset Nat := openIds db + settledIds db

@[simp] theorem ids_empty : ids (Db.empty : Db T) = 0 := rfl

theorem ids_append (db db' : Db T) : ids (db.append db') = ids db + ids db' := by
  simp only [ids, openIds, settledIds, Db.append, List.map_append, ← coe_add]
  abel

/-- The id of the inserted row. -/
def Stmt.key (next : Nat) : Stmt T → Nat
  | .queue .. | .optimize .. => next
  | .retry row => row.id
  | .done row => row.id
  | .failed row => row.id

/-- The id that the statement does not draw. -/
def Stmt.explicitId : Stmt T → Option Nat
  | .queue .. | .optimize .. => none
  | .retry row => some row.id
  | .done row => some row.id
  | .failed row => some row.id

theorem ids_insert (now next : Nat) (db : Db T) (stmt : Stmt T) :
    ids (stmt.insert now next db) = ids db + {stmt.key next} := by
  cases stmt <;>
    simp only [ids, openIds, settledIds, Stmt.insert, Stmt.key, List.map_append, ← coe_add, List.map_cons,
      List.map_nil, coe_singleton] <;> abel

variable {stmt : Stmt T}

theorem key_mem_of_conflicts {next : Nat} {db : Db T} (h : stmt.conflicts next db) :
    stmt.key next ∈ ids db := by
  simp only [ids, openIds, settledIds, mem_add, mem_coe, List.mem_map]
  cases stmt <;> simp only [Stmt.conflicts, List.any_eq_true, decide_eq_true_eq] at h
  case queue | retry =>
    obtain ⟨r, hr, hid⟩ := h
    exact .inl (.inl ⟨r, hr, hid⟩)
  case optimize =>
    obtain ⟨r, hr, hid⟩ := h
    exact .inl (.inr ⟨r, hr, hid⟩)
  case done =>
    obtain ⟨r, hr, hid, -⟩ := h
    exact .inr (.inl ⟨r, hr, hid⟩)
  case failed =>
    obtain ⟨r, hr, hid⟩ := h
    exact .inr (.inr ⟨r, hr, hid⟩)

theorem settledIds_remove (db : Db T) (taken : List Nat) : settledIds (db.remove taken) = settledIds db := rfl

variable {taken : List Nat} {id w now : Nat}

theorem mem_openIds_remove {db : Db T} : id ∈ openIds (db.remove taken) ↔ id ∈ openIds db ∧ id ∉ taken := by
  simp only [openIds, Db.remove, mem_add, mem_coe, List.mem_map, List.mem_filter, decide_eq_true_eq]
  constructor
  · rintro (⟨r, ⟨hr, htaken⟩, rfl⟩ | ⟨r, ⟨hr, htaken⟩, rfl⟩)
    · exact ⟨.inl ⟨r, hr, rfl⟩, htaken⟩
    · exact ⟨.inr ⟨r, hr, rfl⟩, htaken⟩
  · rintro ⟨⟨r, hr, rfl⟩ | ⟨r, hr, rfl⟩, htaken⟩
    · exact .inl ⟨r, ⟨hr, htaken⟩, rfl⟩
    · exact .inr ⟨r, ⟨hr, htaken⟩, rfl⟩

theorem ids_remove_le (db : Db T) (taken : List Nat) : ids (db.remove taken) ≤ ids db := by
  have hqueue : ((db.queue.filter fun r => r.id ∉ taken).map QueueRow.id : Multiset Nat) ≤
      ↑(db.queue.map QueueRow.id) :=
    Multiset.coe_le.mpr (List.filter_sublist.map _).subperm
  have hoptimize : ((db.optimize.filter fun r => r.id ∉ taken).map OptimizeRow.id : Multiset Nat) ≤
      ↑(db.optimize.map OptimizeRow.id) :=
    Multiset.coe_le.mpr (List.filter_sublist.map _).subperm
  exact add_le_add_left (add_le_add hqueue hoptimize) _

theorem mem_ids_remove {db : Db T} (hdb : (ids db).Nodup) (htaken : ∀ id ∈ taken, id ∈ openIds db) :
    id ∈ ids (db.remove taken) ↔ id ∈ ids db ∧ id ∉ taken := by
  have hdisjoint := (Multiset.nodup_add.mp hdb).2.2
  rw [ids, ids, mem_add, mem_add, mem_openIds_remove, settledIds_remove]
  constructor
  · rintro (⟨hopen, hid⟩ | hsettled)
    · exact ⟨.inl hopen, hid⟩
    · exact ⟨.inr hsettled, fun hid => Multiset.disjoint_left.mp hdisjoint (htaken id hid) hsettled⟩
  · rintro ⟨hopen | hsettled, hid⟩
    · exact .inl ⟨hopen, hid⟩
    · exact .inr hsettled

theorem mem_ids_seen (s : World T) (tx : Tx T) :
    id ∈ ids (s.seen tx) ↔ id ∈ ids (s.db.remove tx.taken) ∨ ∃ tx' ∈ s.txs, id ∈ ids tx'.inserted := by
  unfold World.seen
  generalize s.db.remove tx.taken = db
  induction s.txs generalizing db with
  | nil => simp
  | cons tx' txs ih =>
    rw [List.foldl_cons, ih, ids_append, mem_add, or_assoc]
    simp

/-- The ids that a transaction still has to insert without drawing them. -/
def Stage.explicitIds : Stage T → List Nat
  | .processing record => [record.id]
  | .optimizing _ => []
  | .writing todo => todo.filterMap Stmt.explicitId

/-- What an open transaction inserts: ids that it drew itself, and once each id of a row that it deleted. -/
structure TxInv (db : Db T) (next : Nat) (tx : Tx T) : Prop where
  below : ∀ id ∈ ids tx.inserted, id < next
  taken : ∀ id ∈ tx.taken, id ∈ openIds db
  own : ∀ id ∈ ids tx.inserted, id ∈ tx.taken ∨ id ∉ ids db
  nodup : (ids tx.inserted + ↑tx.stage.explicitIds).Nodup
  explicit : ∀ id ∈ tx.stage.explicitIds, id ∈ tx.taken

/-- Two transactions share no lock and insert no common id. -/
def Apart (tx tx' : Tx T) : Prop := List.Disjoint tx.taken tx'.taken ∧ Disjoint (ids tx.inserted)
    (ids tx'.inserted)

structure Inv (db : Db T) (next : Nat) (txs : List (Tx T)) : Prop where
  nodup : (ids db).Nodup
  below : ∀ id ∈ ids db, id < next
  each : ∀ tx ∈ txs, TxInv db next tx
  apart : txs.Pairwise Apart

variable {db : Db T} {next : Nat} {txs txs' : List (Tx T)} {tx tx' : Tx T}

theorem Apart.symm (h : Apart tx tx') : Apart tx' tx := ⟨h.1.symm, h.2.symm⟩

theorem Inv.perm (h : Inv db next txs) (hperm : txs.Perm txs') : Inv db next txs' :=
  ⟨h.nodup, h.below, fun tx htx => h.each tx (hperm.mem_iff.mpr htx),
    (hperm.pairwise_iff Apart.symm).mp h.apart⟩

theorem inv_cons : Inv db next (tx :: txs) ↔ Inv db next txs ∧ TxInv db next tx ∧
      ∀ tx' ∈ txs, Apart tx tx' := by
  constructor
  · intro h
    obtain ⟨hapart, hrest⟩ := List.pairwise_cons.mp h.apart
    obtain ⟨htx, htxs⟩ := List.forall_mem_cons.mp h.each
    exact ⟨⟨h.nodup, h.below, htxs, hrest⟩, htx, hapart⟩
  · rintro ⟨h, htx, hapart⟩
    exact ⟨h.nodup, h.below, List.forall_mem_cons.mpr ⟨htx, h.each⟩, List.pairwise_cons.mpr ⟨hapart, h.apart⟩⟩

theorem TxInv.mono {next' : Nat} (h : TxInv db next tx) (hle : next ≤ next') : TxInv db next' tx :=
  ⟨fun id hid => Nat.lt_of_lt_of_le (h.below id hid) hle, h.taken, h.own, h.nodup, h.explicit⟩

theorem Inv.mono {next' : Nat} (h : Inv db next txs) (hle : next ≤ next') : Inv db next' txs :=
  ⟨h.nodup, fun id hid => Nat.lt_of_lt_of_le (h.below id hid) hle, fun tx htx =>
    (h.each tx htx).mono hle, h.apart⟩

theorem perm_of_getElem? (hw : txs[w]? = some tx) : txs.Perm (tx :: txs.eraseIdx w) := by
  obtain ⟨hlt, rfl⟩ := List.getElem?_eq_some_iff.mp hw
  exact (List.getElem_cons_eraseIdx_perm hlt).symm

theorem set_perm (hw : txs[w]? = some tx) (tx' : Tx T) : (txs.set w tx').Perm (tx' :: txs.eraseIdx w) :=
  List.set_perm_cons_eraseIdx (List.getElem?_eq_some_iff.mp hw).1 tx'

theorem init_inv : Inv (Db.empty : Db T) 1 [] :=
  ⟨nodup_zero, fun id hid => (notMem_zero id hid).elim, fun _ htx => (List.not_mem_nil htx).elim,
    .nil⟩

theorem txInv_begin {stage : Stage T} (htaken : ∀ id ∈ taken, id ∈ openIds db)
    (hnodup : stage.explicitIds.Nodup)
    (hexplicit : ∀ id ∈ stage.explicitIds, id ∈ taken) : TxInv db next ⟨now, taken, .empty, stage⟩ := by
  refine ⟨fun id hid => (notMem_zero id hid).elim, htaken, fun id hid => (notMem_zero id hid).elim,
    ?_, hexplicit⟩
  show (0 + (stage.explicitIds : Multiset Nat)).Nodup
  rw [zero_add, coe_nodup]
  exact hnodup

theorem begin_inv (h : Inv db next txs) (htx : TxInv db next tx) (hempty : tx.inserted = .empty)
    (hfree : ∀ tx' ∈ txs, List.Disjoint tx.taken tx'.taken) : Inv db next (txs ++ [tx]) := by
  have hcons : Inv db next (tx :: txs) := by
    refine inv_cons.mpr ⟨h, htx, fun tx' htx' => ⟨hfree tx' htx', ?_⟩⟩
    rw [hempty, ids_empty, disjoint_left]
    exact fun hid => (notMem_zero _ hid).elim
  exact hcons.perm (List.perm_append_singleton tx txs).symm

theorem drop_inv (h : Inv db next txs) (w : Nat) : Inv db next (txs.eraseIdx w) :=
  ⟨h.nodup, h.below, fun tx htx => h.each tx (List.mem_of_mem_eraseIdx htx),
    h.apart.sublist (List.eraseIdx_sublist ..)⟩

theorem stage_inv {inserted : Db T} {stage stage' : Stage T} (h : Inv db next txs)
    (hw : txs[w]? = some ⟨now, taken, inserted, stage⟩) (hsame : stage'.explicitIds = stage.explicitIds) :
    Inv db next (txs.set w ⟨now, taken, inserted, stage'⟩) := by
  obtain ⟨hrest, htx, hapart⟩ := inv_cons.mp (h.perm (perm_of_getElem? hw))
  have htx' : TxInv db next ⟨now, taken, inserted, stage'⟩ := by
    refine ⟨htx.below, htx.taken, htx.own, ?_, ?_⟩
    · rw [hsame]
      exact htx.nodup
    · rw [hsame]
      exact htx.explicit
  exact (inv_cons.mpr ⟨hrest, htx', hapart⟩).perm (set_perm hw _).symm

theorem key_eq_of_explicitId (h : stmt.explicitId = some id) : stmt.key next = id := by
  cases stmt <;> cases h <;> rfl

theorem key_eq_next (h : stmt.explicitId = none) : stmt.key next = next ∧ stmt.nextId next = next + 1 := by
  cases stmt with
  | queue | optimize => exact ⟨rfl, rfl⟩
  | retry | done | failed => cases h

theorem le_nextId (stmt : Stmt T) : next ≤ stmt.nextId next := by
  unfold Stmt.nextId
  split <;> omega

variable {s : World T} {todo : List (Stmt T)}

theorem key_fresh (h : Inv s.db s.next s.txs) (hw : s.txs[w]? = some tx)
    (hstage : tx.stage = .writing (stmt :: todo)) :
    stmt.key s.next ∉ ids (s.seen tx) ∧ (stmt.key s.next ∈ tx.taken ∨ stmt.key s.next ∉ ids s.db) := by
  obtain ⟨hrest, htx, hapart⟩ := inv_cons.mp (h.perm (perm_of_getElem? hw))
  rw [mem_ids_seen, mem_ids_remove h.nodup htx.taken]
  cases hid : stmt.explicitId with
  | none =>
    -- the id was drawn just now
    rw [(key_eq_next hid).1]
    have hdb : s.next ∉ ids s.db := fun hmem => Nat.lt_irrefl _ (h.below _ hmem)
    refine ⟨?_, .inr hdb⟩
    rintro (⟨hmem, -⟩ | ⟨tx', htx', hmem⟩)
    · exact hdb hmem
    · exact Nat.lt_irrefl _ ((h.each tx' htx').below _ hmem)
  | some id =>
    rw [key_eq_of_explicitId hid]
    have hexplicit : tx.stage.explicitIds = id :: todo.filterMap Stmt.explicitId := by
      rw [hstage, Stage.explicitIds, List.filterMap_cons, hid]
    have htaken : id ∈ tx.taken := htx.explicit id (hexplicit ▸ List.mem_cons_self ..)
    have hdb : id ∈ ids s.db := Multiset.mem_add.mpr (.inl (htx.taken id htaken))
    refine ⟨?_, .inl htaken⟩
    rintro (⟨-, hmem⟩ | ⟨tx', htx', hmem⟩)
    · exact hmem htaken
    · rcases List.mem_cons.mp ((perm_of_getElem? hw).mem_iff.mp htx') with rfl | htx'
      · have hdisjoint := (Multiset.nodup_add.mp htx.nodup).2.2
        exact Multiset.disjoint_left.mp hdisjoint hmem (by simp [hexplicit])
      · rcases (hrest.each tx' htx').own id hmem with htaken' | hnone
        · exact (hapart tx' htx').1 htaken htaken'
        · exact hnone hdb

theorem exec_nodup (h : Inv db next txs) (htx : TxInv db next tx)
    (hstage : tx.stage = .writing (stmt :: todo)) (hkey : stmt.key next ∉ ids tx.inserted) :
    (ids (stmt.insert tx.now next tx.inserted) + ↑(Stage.writing todo).explicitIds).Nodup := by
  have hnodup := htx.nodup
  have hexplicit := htx.explicit
  rw [hstage, Stage.explicitIds, List.filterMap_cons] at hnodup hexplicit
  rw [ids_insert, add_assoc]
  cases hid : stmt.explicitId with
  | some id =>
    rw [hid, ← cons_coe, ← singleton_add] at hnodup
    rw [key_eq_of_explicitId hid]
    exact hnodup
  | none =>
    rw [hid] at hnodup hexplicit
    have hnew : stmt.key next ∉ todo.filterMap Stmt.explicitId := by
      intro hmem
      rw [(key_eq_next hid).1] at hmem
      have hdb := h.below _ (Multiset.mem_add.mpr (.inl (htx.taken _ (hexplicit _ hmem))))
      exact Nat.lt_irrefl _ hdb
    rw [add_left_comm, singleton_add, nodup_cons, mem_add]
    exact ⟨fun hmem => hmem.elim hkey hnew, hnodup⟩

theorem exec_inv (h : Inv s.db s.next s.txs) (hw : s.txs[w]? = some tx)
    (hstage : tx.stage = .writing (stmt :: todo)) : (s.exec w tx stmt todo).2 = [] ∧
      Inv (s.exec w tx stmt todo).1.db (s.exec w tx stmt todo).1.next (s.exec w tx stmt todo).1.txs := by
  obtain ⟨hseen, howned⟩ := key_fresh h hw hstage
  have hconfl : ¬ stmt.conflicts s.next (s.seen tx) := fun hc => hseen (key_mem_of_conflicts hc)
  unfold World.exec
  rw [if_neg hconfl]
  refine ⟨rfl, ?_⟩
  obtain ⟨hrest, htx, hapart⟩ := inv_cons.mp (h.perm (perm_of_getElem? hw))
  have hothers : ∀ tx' ∈ s.txs, stmt.key s.next ∉ ids tx'.inserted := by
    intro tx' htx' hmem
    exact hseen ((mem_ids_seen s tx).mpr (.inr ⟨tx', htx', hmem⟩))
  have hkey : stmt.key s.next < stmt.nextId s.next := by
    cases hid : stmt.explicitId with
    | none =>
      rw [(key_eq_next hid).1, (key_eq_next hid).2]
      exact Nat.lt_succ_self _
    | some id =>
      have htaken : stmt.key s.next ∈ tx.taken := by
        rw [key_eq_of_explicitId hid]
        exact htx.explicit id
          (by rw [hstage, Stage.explicitIds, List.filterMap_cons, hid]; exact List.mem_cons_self ..)
      have hdb := h.below _ (Multiset.mem_add.mpr (.inl (htx.taken _ htaken)))
      exact Nat.lt_of_lt_of_le hdb (le_nextId stmt)
  have htx' : TxInv s.db (stmt.nextId s.next)
      { tx with inserted := stmt.insert tx.now s.next tx.inserted, stage := .writing todo } := by
    refine ⟨?_, htx.taken, ?_, ?_, ?_⟩
    · intro id hid
      rcases Multiset.mem_add.mp (ids_insert tx.now s.next tx.inserted stmt ▸ hid) with hid | hid
      · exact Nat.lt_of_lt_of_le (htx.below id hid) (le_nextId stmt)
      · rw [Multiset.mem_singleton.mp hid]
        exact hkey
    · intro id hid
      rcases Multiset.mem_add.mp (ids_insert tx.now s.next tx.inserted stmt ▸ hid) with hid | hid
      · exact htx.own id hid
      · rw [Multiset.mem_singleton.mp hid]
        exact howned
    · exact exec_nodup h htx hstage (hothers tx (List.mem_of_getElem? hw))
    · intro id hid
      refine htx.explicit id ?_
      rw [hstage]
      exact List.mem_filterMap.mpr (by
        obtain ⟨stmt', hstmt', heq⟩ := List.mem_filterMap.mp hid
        exact ⟨stmt', List.mem_cons_of_mem _ hstmt', heq⟩)
  refine ((inv_cons.mpr ⟨hrest.mono (le_nextId stmt), htx', fun tx' hmem => ⟨(hapart tx' hmem).1, ?_⟩⟩).perm
    (set_perm hw _).symm)
  have hmem' : tx' ∈ s.txs := List.mem_of_mem_eraseIdx hmem
  show Disjoint (ids (stmt.insert tx.now s.next tx.inserted)) (ids tx'.inserted)
  rw [ids_insert, disjoint_add_left]
  exact ⟨(hapart tx' hmem).2, Multiset.singleton_disjoint.mpr (hothers tx' hmem')⟩

theorem commit_inv {inserted : Db T} (h : Inv db next txs)
    (hw : txs[w]? = some ⟨now, taken, inserted, .writing []⟩) :
    Inv ((db.remove taken).append inserted) next (txs.eraseIdx w) := by
  obtain ⟨hrest, htx, hapart⟩ := inv_cons.mp (h.perm (perm_of_getElem? hw))
  have hremove : ∀ {id}, id ∈ ids (db.remove taken) ↔ id ∈ ids db ∧ id ∉ taken :=
    mem_ids_remove h.nodup htx.taken
  refine ⟨?_, ?_, ?_, hrest.apart⟩
  · rw [ids_append, nodup_add]
    refine ⟨nodup_of_le (ids_remove_le db taken) h.nodup, (Multiset.nodup_add.mp htx.nodup).1, ?_⟩
    rw [disjoint_left]
    intro id hid hinserted
    obtain ⟨hdb, hfree⟩ := hremove.mp hid
    exact (htx.own id hinserted).elim hfree fun hnone => hnone hdb
  · intro id hid
    rcases Multiset.mem_add.mp (ids_append _ inserted ▸ hid) with hid | hid
    · exact h.below id (hremove.mp hid).1
    · exact htx.below id hid
  · intro tx' htx'
    have hinv := hrest.each tx' htx'
    refine ⟨hinv.below, fun id hid => ?_, fun id hid => ?_, hinv.nodup, hinv.explicit⟩
    · have hopen : id ∈ openIds (db.remove taken) :=
        mem_openIds_remove.mpr ⟨hinv.taken id hid, fun hmine => (hapart tx' htx').1 hmine hid⟩
      simp only [openIds, Db.append, List.map_append, ← coe_add, mem_add] at hopen ⊢
      exact hopen.imp .inl .inl
    · refine (hinv.own id hid).imp_right fun hnone hmem => ?_
      rcases Multiset.mem_add.mp (ids_append _ inserted ▸ hmem) with hmem | hmem
      · exact hnone (hremove.mp hmem).1
      · exact Multiset.disjoint_left.mp (hapart tx' htx').2 hmem hid

theorem explicitIds_of_drawsId {stmts : List (Stmt T)} (h : ∀ stmt ∈ stmts, stmt.drawsId) :
    stmts.filterMap Stmt.explicitId = [] := by
  rw [List.filterMap_eq_nil_iff]
  intro stmt hstmt
  have hdraws := h stmt hstmt
  cases stmt with
  | queue | optimize => rfl
  | retry | done | failed => cases hdraws

theorem processStmts_explicitIds {filter : InterestFilter T} {backoff : Nat → Nat} {record : QueueRow T}
    {res : Except QueueError (List (Op T))} {stmts : List (Stmt T)}
    (h : processStmts filter backoff now record res = .ok stmts) :
      stmts.filterMap Stmt.explicitId = [record.id] := by
  match res with
  | .error (.fatal _) | .error (.unprocessable _) | .error (.retry _) =>
    cases h
    rfl
  | .ok ops =>
    rw [processStmts_ok, Except.ok.injEq] at h
    subst h
    exact congrArg (record.id :: ·) (explicitIds_of_drawsId (stmts_drawsId filter _ _ _))

theorem locked_eq_false : s.locked id = false ↔ ∀ tx ∈ s.txs, id ∉ tx.taken := by
  simp [World.locked]

theorem step_inv (s : World T) (i : Input T) (h : Inv s.db s.next s.txs) :
    (s.step i).2 = [] ∧ Inv (s.step i).1.db (s.step i).1.next (s.step i).1.txs := by
  cases i with
  | enqueue now filter op =>
    simp only [World.step]
    split
    · rename_i stmts hstmts
      simp only [enqueueStmts, bind_eq_ok, pure_eq_ok] at hstmts
      obtain ⟨rows, -, rfl⟩ := hstmts
      have hexplicit := explicitIds_of_drawsId (stmts_drawsId filter op.normalize [] rows)
      refine ⟨rfl, begin_inv h (txInv_begin (fun id hid => (List.not_mem_nil hid).elim) ?_ ?_) rfl
        fun tx' _ => List.disjoint_nil_left _⟩
      · rw [Stage.explicitIds, hexplicit]
        exact List.nodup_nil
      · rw [Stage.explicitIds, hexplicit]
        exact fun id hid => (List.not_mem_nil hid).elim
    · exact ⟨rfl, h⟩
  | process now id =>
    simp only [World.step]
    split
    · rename_i record hrecord
      have hmem := List.mem_of_find?_eq_some hrecord
      have hfound := List.find?_some hrecord
      simp only [Bool.and_eq_true, Bool.not_eq_true', locked_eq_false] at hfound
      refine ⟨rfl, begin_inv h (txInv_begin ?_ (List.nodup_singleton _) fun id hid => hid) rfl ?_⟩
      · intro id hid
        rw [List.mem_singleton.mp hid]
        exact Multiset.mem_add.mpr (.inl (List.mem_map.mpr ⟨record, hmem, rfl⟩))
      · intro tx' htx'
        exact List.singleton_disjoint.mpr (hfound.2 tx' htx')
    · exact ⟨rfl, h⟩
  | processed w now filter backoff res =>
    simp only [World.step]
    split
    · rename_i now' taken inserted record hw
      split
      · rename_i stmts hstmts
        exact ⟨rfl, stage_inv h hw (processStmts_explicitIds hstmts)⟩
      · exact ⟨rfl, drop_inv h w⟩
    · exact ⟨rfl, h⟩
  | optimize now tag ids =>
    simp only [World.step]
    split
    · exact ⟨rfl, h⟩
    · refine ⟨rfl, begin_inv h (txInv_begin ?_ List.nodup_nil fun id hid =>
        (List.not_mem_nil hid).elim) rfl ?_⟩
      · intro id hid
        obtain ⟨r, hr, rfl⟩ := List.mem_map.mp hid
        exact Multiset.mem_add.mpr (.inr (List.mem_map.mpr ⟨r, List.mem_of_mem_filter hr, rfl⟩))
      · intro tx' htx' id hid hid'
        obtain ⟨r, hr, rfl⟩ := List.mem_map.mp hid
        have hfree := (List.mem_filter.mp hr).2
        simp only [Bool.and_eq_true, Bool.not_eq_true', locked_eq_false] at hfree
        exact hfree.2 tx' htx' hid'
  | optimized w filter res =>
    simp only [World.step]
    split
    · rename_i now taken inserted rows hw
      exact ⟨rfl, stage_inv h hw (explicitIds_of_drawsId (optimizeStmts_drawsId filter _ res))⟩
    · exact ⟨rfl, h⟩
  | exec w =>
    simp only [World.step]
    split
    · rename_i now taken inserted stmt todo hw
      exact exec_inv h hw rfl
    · exact ⟨rfl, h⟩
  | commit w =>
    simp only [World.step]
    split
    · rename_i now taken inserted hw
      exact ⟨rfl, commit_inv h hw⟩
    · exact ⟨rfl, h⟩
  | rollback w drawn => exact ⟨rfl, (drop_inv h w).mono (Nat.le_add_right _ _)⟩

theorem mem_settledIds_step (s : World T) (i : Input T) (hid : id ∈ settledIds s.db) :
    id ∈ settledIds (s.step i).1.db := by
  have hexec : ∀ w (tx : Tx T) stmt todo, (s.exec w tx stmt todo).1.db = s.db := by
    intro w tx stmt todo
    unfold World.exec
    split <;> rfl
  cases i with
  | commit w =>
    simp only [World.step]
    split
    · simp only [settledIds, Db.append, Db.remove, List.map_append, ← coe_add, mem_add] at hid ⊢
      exact hid.imp .inl .inl
    · exact hid
  | exec w =>
    simp only [World.step]
    split
    · rw [hexec]
      exact hid
    · exact hid
  | processed w =>
    simp only [World.step]
    split
    · split <;> exact hid
    · exact hid
  | enqueue | process | optimize | optimized =>
    simp only [World.step]
    split <;> exact hid
  | rollback w drawn => exact hid

abbrev run (is : List (Input T)) : World T := Machine.run World.step World.init is

theorem run_inv (is : List (Input T)) : Inv (run is).db (run is).next (run is).txs :=
  Machine.state_invariant (I := fun s : World T => Inv s.db s.next s.txs)
    (fun s i h => (step_inv s i h).2) init_inv is

/-- **The bookkeeping of the queue**: over every interleaving, every id is in at most one row of the
    four tables; an id that is done or failed is never queued again; and no insertion violates a
    primary key. -/
theorem bookkeeping (is : List (Input T)) : (ids (run is).db).Nodup ∧
      (∀ js, ∀ id ∈ settledIds (run is).db, id ∉ openIds (run (is ++ js)).db) ∧
      Machine.trace World.step World.init is = [] := by
  refine ⟨(run_inv is).nodup, fun js id hid hopen => ?_, ?_⟩
  · have hsettled : id ∈ settledIds (run (is ++ js)).db := by
      rw [run, Machine.run_append]
      exact Machine.state_invariant (I := fun s : World T => id ∈ settledIds s.db)
        (fun s i h => mem_settledIds_step s i h) hid js
    exact Multiset.disjoint_left.mp (Multiset.nodup_add.mp (run_inv (is ++ js)).nodup).2.2 hopen hsettled
  · rw [List.eq_nil_iff_forall_not_mem]
    intro e he
    obtain ⟨past, i, rest, rfl, hmem⟩ := (Machine.mem_trace is World.init).mp he
    rw [(step_inv _ i (run_inv past)).1] at hmem
    exact (List.not_mem_nil hmem).elim

end UnionVoyager.Vm.PgQueue
