import UnionVoyager.Vm.InMemory
import UnionVoyager.Vm.PgQueue

/-!
# What the operations of the queues add

The contents of a queue are a multiset of ops with their places, so that the two queues can be compared.

* `Stmt.placed`, `exec_all` — what statements add to the tables; with fresh ids none of them fails.
* `block_placed` — the rows that `PgQueue::optimize` makes of one entry.
-/

namespace UnionVoyager.Vm

open Lib List
open Multiset (card_add coe_add)

variable {T : QueueMessage} {filter : InterestFilter T}

/-! ## In memory -/

namespace InMemory

theorem mapInsert_of_lt {id : Nat} {item : Item T} : ∀ {entries : List (Nat × Item T)},
    (∀ e ∈ entries, e.1 < id) → mapInsert id item entries = entries ++ [(id, item)]
  | [], _ => rfl
  | (k, v) :: rest, h => by
    obtain ⟨hk, hrest⟩ := List.forall_mem_cons.mp h
    have hk : k < id := hk
    rw [mapInsert, if_neg (by omega), if_neg (by omega), mapInsert_of_lt hrest]
    rfl

theorem tagInsert_of_lt {tag : String} {id : Nat} {item : Item T} :
    ∀ {entries : List (String × Nat × Item T)},
    (∀ e ∈ entries, e.2.1 < id) → tagInsert tag id item entries = entries ++ [(tag, id, item)]
  | [], _ => rfl
  | (t, k, v) :: rest, h => by
    obtain ⟨hk, hrest⟩ := List.forall_mem_cons.mp h
    have hk : k < id := hk
    rw [tagInsert, if_neg (by omega), if_neg (by omega), tagInsert_of_lt hrest]
    rfl

theorem mem_mapInsert {id : Nat} {item : Item T} {e : Nat × Item T} : ∀ {entries : List (Nat × Item T)},
    e ∈ mapInsert id item entries → e = (id, item) ∨ e ∈ entries
  | [], he => .inl (List.mem_singleton.mp he)
  | (k, v) :: rest, he => by
    unfold mapInsert at he
    split at he
    · exact List.mem_cons.mp he
    · split at he
      · rcases List.mem_cons.mp he with he | he
        · exact .inl he
        · exact .inr (mem_cons_of_mem _ he)
      · rcases List.mem_cons.mp he with he | he
        · exact .inr (he ▸ mem_cons_self ..)
        · exact (mem_mapInsert he).imp_right (mem_cons_of_mem _)

namespace InMemoryQueue

variable {q q' q'' : InMemoryQueue T} {added added' : Multiset (Place × Op T)}

/-- `q'` is `q` with more items. -/
structure Grown (q q' : InMemoryQueue T) (added : Multiset (Place × Op T)) : Prop where
  idx : q.Room added → q'.idx = q.idx + added.card
  fresh : q.Fresh → q.Room added → q'.Fresh
  contents : q.Fresh → q.Room added → q'.contents = q.contents + added

theorem Grown.refl (q : InMemoryQueue T) : Grown q q 0 :=
    ⟨fun _ => rfl, fun hq _ => hq, fun _ _ => (add_zero _).symm⟩

theorem Room.left (h : q.Room (added + added')) : q.Room added := by
  rw [Room, card_add] at h
  exact Nat.lt_of_le_of_lt (by omega) h

theorem Room.right (h : q.Room (added + added')) (hgrown : Grown q q' added) : q'.Room added' := by
  rw [Room, hgrown.idx h.left]
  rw [Room, card_add] at h
  omega

theorem Grown.trans (h : Grown q q' added) (h' : Grown q' q'' added') : Grown q q'' (added + added') := by
  refine ⟨fun hroom => ?_, fun hq hroom => ?_, fun hq hroom => ?_⟩
  · rw [h'.idx (hroom.right h), h.idx hroom.left, card_add, Nat.add_assoc]
  · exact h'.fresh (h.fresh hq hroom.left) (hroom.right h)
  · rw [h'.contents (h.fresh hq hroom.left) (hroom.right h), h.contents hq hroom.left, add_assoc]

/-- The next id where the counter does not wrap. -/
theorem Room.next {x : Place × Op T} (h : q.Room {x}) : (q.idx + 1) % 2 ^ 32 = q.idx + 1 := Nat.mod_eq_of_lt h

theorem insertReady_grown (q : InMemoryQueue T) (item : Item T) : Grown q (q.insertReady item)
    {(none, item.op)} := by
  refine ⟨fun hroom => hroom.next, fun hq hroom => ?_, fun hq _ => ?_⟩
  · have hidx : (q.insertReady item).idx = q.idx + 1 := hroom.next
    refine ⟨?_, ?_, ?_⟩ <;> rw [hidx] <;> intro e he
    · rw [insertReady, mapInsert_of_lt hq.ready, mem_append, mem_singleton] at he
      rcases he with he | rfl
      · exact Nat.lt_succ_of_lt (hq.ready e he)
      · exact Nat.lt_succ_self _
    · exact Nat.lt_succ_of_lt (hq.done e he)
    · exact Nat.lt_succ_of_lt (hq.optimizerQueue e he)
  · unfold contents insertReady
    rw [mapInsert_of_lt hq.ready, map_append, ← coe_add, add_right_comm]
    rfl

theorem insertTagged_grown (q : InMemoryQueue T) (tag : String) (item : Item T) :
    Grown q (q.insertTagged tag item) {(some tag, item.op)} := by
  refine ⟨fun hroom => hroom.next, fun hq hroom => ?_, fun hq _ => ?_⟩
  · have hidx : (q.insertTagged tag item).idx = q.idx + 1 := hroom.next
    refine ⟨?_, ?_, ?_⟩ <;> rw [hidx] <;> intro e he
    · exact Nat.lt_succ_of_lt (hq.ready e he)
    · exact Nat.lt_succ_of_lt (hq.done e he)
    · rw [insertTagged, tagInsert_of_lt hq.optimizerQueue, mem_append, mem_singleton] at he
      rcases he with he | rfl
      · exact Nat.lt_succ_of_lt (hq.optimizerQueue e he)
      · exact Nat.lt_succ_self _
  · unfold contents insertTagged
    rw [tagInsert_of_lt hq.optimizerQueue, map_append, ← coe_add, ← add_assoc]
    rfl

theorem foldl_insertTagged_grown (item : Item T) : ∀ (tags : List String) (q : InMemoryQueue T),
    Grown q (tags.foldl (fun q tag => q.insertTagged tag item) q)
      ↑(tags.map fun tag => ((some tag, item.op) : Place × Op T))
  | [], q => Grown.refl q
  | tag :: tags, q => (insertTagged_grown q tag item).trans (foldl_insertTagged_grown item tags _)

theorem insertOp_grown (filter : InterestFilter T) (q : InMemoryQueue T) (op : Op T) :
    Grown q (insertOp filter q op) ↑(routed filter op) := by
  have hcopies := fun tags => foldl_insertTagged_grown ⟨[], op⟩ tags q
  rcases filter_cases filter op with hf | ⟨tags, hf⟩ | ⟨tags, hf⟩
  · rw [routed_of_noInterest hf]
    simp only [insertOp, hf]
    exact insertReady_grown q _
  · rw [routed_of_copy hf, ← coe_add]
    simp only [insertOp, hf]
    exact (hcopies tags).trans (insertReady_grown _ ⟨[], op⟩)
  · rw [routed_of_take hf]
    simp only [insertOp, hf]
    exact hcopies tags

theorem foldl_insertOp_grown (filter : InterestFilter T) : ∀ (ops : List (Op T)) (q : InMemoryQueue T),
    Grown q (ops.foldl (insertOp filter) q) (routedAll filter ops)
  | [], q => Grown.refl q
  | op :: ops, q => by
    rw [routedAll_cons]
    exact (insertOp_grown filter q op).trans (foldl_insertOp_grown filter ops _)

/-! The loops of `optimize` -/

variable {ids parentsIdxs : List Nat}

theorem insertTags_of_some {ps : List Nat} (hp : parentIds ids parentsIdxs = some ps) (op : Op T) :
    ∀ (tags : List String) (q : InMemoryQueue T),
      insertTags ids parentsIdxs op tags q = some (tags.foldl (fun q tag => q.insertTagged tag ⟨ps, op⟩) q)
  | [], _ => rfl
  | tag :: tags, q => by
    rw [insertTags, hp]
    exact insertTags_of_some hp op tags _

theorem insertTags_of_none (hp : parentIds ids parentsIdxs = none) (op : Op T) (tags : List String)
    (q : InMemoryQueue T) : insertTags ids parentsIdxs op tags q = if tags = [] then some q else none := by
  cases tags with
  | nil => rfl
  | cons tag tags =>
    rw [insertTags, hp]
    rfl

theorem insertBlock_of_some (filter : InterestFilter T) {ps : List Nat}
    (hp : parentIds ids parentsIdxs = some ps) (ops : List (Op T)) :
    ∀ q : InMemoryQueue T, ∃ q', insertBlock filter ids parentsIdxs ops q = some q' ∧
      Grown q q' (routedAll filter (blockOps filter ops)) := by
  induction ops with
  | nil =>
    intro q
    exact ⟨q, rfl, Grown.refl q⟩
  | cons op ops ih =>
    intro q
    have hcopies := fun tags => foldl_insertTagged_grown ⟨ps, op⟩ tags q
    rcases filter_cases filter op with hf | ⟨tags, hf⟩ | ⟨tags, hf⟩
    · obtain ⟨q', hq', hgrown⟩ := ih (q.insertReady ⟨ps, op⟩)
      refine ⟨q', by simpa [insertBlock, hf, hp] using hq', ?_⟩
      simp only [blockOps, taken, hf, Bool.false_eq_true, if_false, routedAll_cons, routed_of_noInterest hf]
      exact (insertReady_grown q ⟨ps, op⟩).trans hgrown
    · obtain ⟨q', hq', hgrown⟩ :=
      ih ((tags.foldl (fun q tag => q.insertTagged tag ⟨ps, op⟩) q).insertReady ⟨ps, op⟩)
      refine ⟨q', by simpa [insertBlock, hf, insertTags_of_some hp, hp] using hq', ?_⟩
      simp only [blockOps, taken, hf, Bool.false_eq_true, if_false, routedAll_cons, routed_of_copy hf]
      exact ((hcopies tags).trans (insertReady_grown _ ⟨ps, op⟩)).trans hgrown
    · refine ⟨_, by simp [insertBlock, hf, insertTags_of_some hp]; rfl, ?_⟩
      simp only [blockOps, taken, hf, if_true, routedAll_cons, routed_of_take hf, routedAll_nil, add_zero]
      exact hcopies tags

theorem insertBlock_of_none (hp : parentIds ids parentsIdxs = none) (ops : List (Op T)) :
    insertBlock filter ids parentsIdxs ops q = some q' ↔
      routedAll filter (blockOps filter ops) = 0 ∧ q = q' := by
  rw [routedAll_eq_zero]
  cases ops with
  | nil => simp [insertBlock, blockOps]
  | cons op ops =>
    rcases filter_cases filter op with hf | ⟨tags, hf⟩ | ⟨tags, hf⟩
    · simp [insertBlock, hf, hp, blockOps, taken, routed_of_noInterest hf]
    · simp [insertBlock, hf, hp, insertTags_of_none hp, blockOps, taken, routed_of_copy hf]
    · by_cases htags : tags = []
      · simp [insertBlock, hf, insertTags_of_none hp, blockOps, taken, routed_of_take hf, htags]
      · simp [insertBlock, hf, insertTags_of_none hp, blockOps, taken, routed_of_take hf, htags]

end InMemoryQueue

end InMemory

/-! ## Postgres -/

namespace PgQueue

/-- What the tables hold, with its places. -/
def contents (db : Db T) : Multiset (Place × Op T) :=
  ↑(db.queue.map fun r => ((none, r.item) : Place × Op T)) + ↑(db.optimize.map fun r => (some r.tag, r.item))

/-- What a statement adds. -/
def Stmt.placed : Stmt T → List (Place × Op T)
  | .queue item _ => [(none, item)]
  | .optimize item _ tag => [(some tag, item)]
  | .retry row => [(none, row.item)]
  | .done _ | .failed _ => []

/-- Every id that was drawn is below the next one. -/
structure Fresh (s : Db T × Nat) : Prop where
  queue : ∀ r ∈ s.1.queue, r.id < s.2
  optimize : ∀ r ∈ s.1.optimize, r.id < s.2

theorem contents_insert (now id : Nat) (db : Db T) (stmt : Stmt T) :
    contents (stmt.insert now id db) = contents db + ↑stmt.placed := by
  cases stmt with
  | queue | retry =>
    simp only [contents, Stmt.insert, Stmt.placed, map_append, ← coe_add]
    exact add_right_comm _ _ _
  | optimize item parents tag =>
    simp only [contents, Stmt.insert, Stmt.placed, map_append, ← coe_add, add_assoc]
    rfl
  | done row | failed row => exact (add_zero _).symm

theorem exec_fresh (now : Nat) {s : Db T × Nat} (hs : Fresh s) {stmt : Stmt T} (hdraws : stmt.drawsId) :
    Stmt.exec now s stmt = .ok (stmt.insert now s.2 s.1, s.2 + 1) ∧
      Fresh (stmt.insert now s.2 s.1, s.2 + 1) := by
  have hqueue : s.1.queue.any (·.id = s.2) = false := by
    simp only [any_eq_false, decide_eq_true_eq]
    intro r hr
    exact (hs.queue r hr).ne
  have hoptimize : s.1.optimize.any (·.id = s.2) = false := by
    simp only [any_eq_false, decide_eq_true_eq]
    intro r hr
    exact (hs.optimize r hr).ne
  cases stmt with
  | queue item parents =>
    refine ⟨by simp [Stmt.exec, Stmt.conflicts, hqueue, Stmt.nextId, Stmt.drawsId], ⟨?_, ?_⟩⟩
    · intro r hr
      rcases List.mem_append.mp hr with hr | hr
      · exact Nat.lt_succ_of_lt (hs.queue r hr)
      · rw [List.mem_singleton.mp hr]
        exact Nat.lt_succ_self _
    · intro r hr
      exact Nat.lt_succ_of_lt (hs.optimize r hr)
  | optimize item parents tag =>
    refine ⟨by simp [Stmt.exec, Stmt.conflicts, hoptimize, Stmt.nextId, Stmt.drawsId], ⟨?_, ?_⟩⟩
    · intro r hr
      exact Nat.lt_succ_of_lt (hs.queue r hr)
    · intro r hr
      rcases List.mem_append.mp hr with hr | hr
      · exact Nat.lt_succ_of_lt (hs.optimize r hr)
      · rw [List.mem_singleton.mp hr]
        exact Nat.lt_succ_self _
  | retry | done | failed => cases hdraws

theorem exec_all (now : Nat) : ∀ (stmts : List (Stmt T)) (s : Db T × Nat), Fresh s →
    (∀ stmt ∈ stmts, stmt.drawsId) → ∃ s', stmts.foldlM (Stmt.exec now) s = .ok s' ∧ Fresh s' ∧
      contents s'.1 = contents s.1 + ↑(stmts.flatMap Stmt.placed)
  | [], s, hs, _ => ⟨s, rfl, hs, (add_zero _).symm⟩
  | stmt :: stmts, s, hs, hdraws => by
    obtain ⟨hstmt, hrest⟩ := List.forall_mem_cons.mp hdraws
    obtain ⟨hexec, hfresh⟩ := exec_fresh now hs hstmt
    obtain ⟨s', hs', hfresh', hcontents⟩ := exec_all now stmts _ hfresh hrest
    refine ⟨s', by rw [foldlM_cons, hexec]; exact hs', hfresh', ?_⟩
    rw [hcontents, contents_insert, add_assoc, flatMap_cons, ← coe_add]

theorem placed_tags (op : Op T) (parents : List Nat) (tags : List String) :
    (tags.map (Stmt.optimize op parents ·)).flatMap Stmt.placed = tags.map fun tag => (some tag, op) := by
  induction tags with
  | nil => rfl
  | cons tag tags ih => rw [map_cons, flatMap_cons, ih]; rfl

theorem placed_queue (ops : List (Op T)) (parents : List Nat) :
    (ops.map (Stmt.queue · parents)).flatMap Stmt.placed = ops.map fun op => (none, op) := by
  rw [flatMap_map, map_eq_flatMap]
  rfl

theorem block_placed (filter : InterestFilter T) (parents : List Nat) (ops : List (Op T)) :
    ↑((block filter parents ops).1.flatMap Stmt.placed) +
        ↑((block filter parents ops).2.map fun op => ((none, op) : Place × Op T)) =
      routedAll filter (blockOps filter ops) := by
  induction ops with
  | nil => rfl
  | cons op ops ih =>
    have hready : ∀ l : List (Place × Op T), (Multiset.ofList ((none, op) :: l)) =
        ↑[((none, op) : Place × Op T)] + ↑l :=
      fun _ => rfl
    rcases filter_cases filter op with hf | ⟨tags, hf⟩ | ⟨tags, hf⟩
    · simp only [block, blockOps, taken, hf, Bool.false_eq_true, if_false, routedAll_cons,
        routed_of_noInterest hf, ← ih]
      rw [map_cons, hready]
      exact add_left_comm _ _ _
    · simp only [block, blockOps, taken, hf, Bool.false_eq_true, if_false, routedAll_cons, routed_of_copy hf,
        flatMap_append, placed_tags, ← coe_add, ← ih]
      rw [map_cons, hready]
      exact add_add_add_comm _ _ _ _
    · simp [block, blockOps, taken, hf, routed_of_take hf, placed_tags]

end PgQueue

end UnionVoyager.Vm
