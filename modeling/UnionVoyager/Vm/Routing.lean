import UnionVoyager.Vm.Grown

/-!
# The two queues route alike

`enqueue`, and what each queue does with the ops of a processed item.

* `unnest_notNull` — pairing two arrays by position succeeds iff they have the same length.
* `enqueue_alike_iff` — `PgQueue::enqueue` binds one item for each op beside all of its tags, and it
  asks no interest whether the op is to be removed; `process_alike_iff` — `process_item` binds one
  item for each tag.
-/

namespace UnionVoyager.Vm

open Lib PgQueue Multiset InMemory

variable {T : QueueMessage} {filter : InterestFilter T} {ops : List (Op T)}

/-- An op with interest is taken, with one tag. -/
def Exclusive (filter : InterestFilter T) (op : Op T) : Prop :=
  ∀ i, filter op = .interest i → i.remove = true ∧ i.tags.length = 1

def Removed (filter : InterestFilter T) (op : Op T) : Prop := ∀ i, filter op = .interest i → i.remove = true

theorem unnest_notNull {α β : Type} : ∀ {as : List α} {bs : List β} {rows : List (α × β)},
    (unnest as bs).mapM notNull = .ok rows ↔ as.length = bs.length ∧ rows = as.zip bs
  | [], [], rows => by
    show (Except.ok [] : Except SqlError (List (α × β))) = .ok rows ↔ _
    simp [eq_comm]
  | a :: as, [], rows => by
    simp [unnest, notNull]
  | [], b :: bs, rows => by
    simp [unnest, notNull]
  | a :: as, b :: bs, rows => by
    have ih := @unnest_notNull _ _ as bs
    unfold unnest at ih ⊢
    simp only [List.zipWithAll_cons_cons, List.mapM_cons, notNull, ok_bind, bind_eq_ok, pure_eq_ok, ih]
    constructor
    · rintro ⟨rows', ⟨hlen, rfl⟩, rfl⟩
      exact ⟨congrArg (· + 1) hlen, rfl⟩
    · rintro ⟨hlen, rfl⟩
      exact ⟨_, ⟨Nat.succ_injective hlen, rfl⟩, rfl⟩

/-! ## The rows of both tables -/

/-- The ops of the rows of `queue` and `optimize`, with their places. -/
def rowsPlaced (filter : InterestFilter T) (ops : List (Op T)) (rows : List (Op T × String)) :
    Multiset (Place × Op T) :=
  ↑((uninterested filter ops).map fun op => ((none, op) : Place × Op T)) +
    ↑(rows.map fun r => (some r.2, r.1))

/-- A row for every tag of every op. -/
def copies (interested : List (Op T × Interest)) : List (Op T × String) :=
  interested.flatMap fun x => x.2.tags.map fun tag => (x.1, tag)

theorem zip_copies (l : List (Op T × Interest)) :
    (l.flatMap fun x => x.2.tags.map fun _ => x.1).zip (l.flatMap fun x => x.2.tags) = copies l := by
  unfold copies
  induction l with
  | nil => rfl
  | cons x l ih =>
    have hself : ∀ tags : List String, (tags.map fun _ => x.1).zip tags = tags.map fun tag => (x.1, tag) := by
      intro tags
      induction tags with
      | nil => rfl
      | cons tag tags ih => rw [List.map_cons, List.zip_cons_cons, ih, List.map_cons]
    simp only [List.flatMap_cons]
    rw [List.zip_append (by rw [List.length_map]), ih, hself]

theorem length_copies (l : List (Op T × Interest)) :
    (l.flatMap fun x => x.2.tags.map fun _ => x.1).length = (l.flatMap fun x => x.2.tags).length := by
  simp [List.length_flatMap]

theorem map_fst_eq_copies {l : List (Op T × Interest)} (h : ∀ x ∈ l, x.2.tags.length = 1) :
    l.map Prod.fst = l.flatMap fun x => x.2.tags.map fun _ => x.1 := by
  induction l with
  | nil => rfl
  | cons x l ih =>
    obtain ⟨hx, hl⟩ := List.forall_mem_cons.mp h
    obtain ⟨tag, htag⟩ := List.length_eq_one_iff.mp hx
    rw [List.map_cons, List.flatMap_cons, htag, ih hl]
    rfl

theorem mem_interested {x : Op T × Interest} : x ∈ interested filter ops ↔ x.1 ∈ ops ∧
      filter x.1 = .interest x.2 := by
  unfold interested
  rw [List.mem_filterMap]
  constructor
  · rintro ⟨op, hop, h⟩
    split at h
    · rename_i i hi
      cases h
      exact ⟨hop, hi⟩
    · cases h
  · rintro ⟨hop, hi⟩
    exact ⟨x.1, hop, by rw [hi]⟩

theorem rowsPlaced_copies (h : ∀ op ∈ ops, Removed filter op) :
    rowsPlaced filter ops (copies (interested filter ops)) = routedAll filter ops := by
  unfold rowsPlaced
  induction ops with
  | nil => rfl
  | cons op ops ih =>
    obtain ⟨hop, hops⟩ := List.forall_mem_cons.mp h
    rw [routedAll_cons, ← ih hops]
    rcases filter_cases filter op with hf | ⟨tags, hf⟩ | ⟨tags, hf⟩
    · have hready : uninterested filter (op :: ops) = op :: uninterested filter ops :=
      by simp [uninterested, hf]
      have hcopies : interested filter (op :: ops) = interested filter ops := by simp [interested, hf]
      rw [hready, hcopies, routed_of_noInterest hf, ← add_assoc]
      rfl
    · exact absurd (hop _ hf) Bool.false_ne_true
    · have hready : uninterested filter (op :: ops) = uninterested filter ops := by simp [uninterested, hf]
      have hcopies : interested filter (op :: ops) = (op, ⟨tags, true⟩) :: interested filter ops := by
        simp [interested, hf]
      rw [hready, hcopies, routed_of_take hf, copies, List.flatMap_cons, List.map_append, ← coe_add,
        List.map_map, add_left_comm]
      rfl

theorem removed_of_rowsPlaced {rows : List (Op T × String)}
    (h : rowsPlaced filter ops rows = routedAll filter ops) : ∀ op ∈ ops, Removed filter op := by
  rintro op hop ⟨tags, remove⟩ hi
  by_contra hcopy
  have hcopy : remove = false := by simpa using hcopy
  subst hcopy
  have hmem : ((none, op) : Place × Op T) ∈ rowsPlaced filter ops rows := by
    rw [h, routedAll, mem_coe, List.mem_flatMap]
    exact ⟨op, hop, by rw [routed_of_copy hi]; simp⟩
  rcases Multiset.mem_add.mp hmem with hready | htagged
  · obtain ⟨op', hop', heq⟩ := List.mem_map.mp hready
    cases heq
    have hnone := of_decide_eq_true (List.mem_filter.mp hop').2
    rw [hi] at hnone
    cases hnone
  · obtain ⟨r, -, heq⟩ := List.mem_map.mp htagged
    cases heq

theorem routed_snd {op : Op T} {x : Place × Op T} (hx : x ∈ routed filter op) : x.2 = op := by
  rcases filter_cases filter op with hf | ⟨tags, hf⟩ | ⟨tags, hf⟩
  · rw [routed_of_noInterest hf, List.mem_singleton] at hx
    rw [hx]
  · rw [routed_of_copy hf, List.mem_append, List.mem_map, List.mem_singleton] at hx
    rcases hx with ⟨_, -, rfl⟩ | rfl <;> rfl
  · rw [routed_of_take hf, List.mem_map] at hx
    obtain ⟨_, -, rfl⟩ := hx
    rfl

/-! One row for each op can only do for ops with one tag. -/

section Count

open Classical

/-- How often an op is in the optimizer queue, under any tag. -/
noncomputable def taggedCount (op : Op T) (items : Multiset (Place × Op T)) : Nat :=
  items.countP fun x => x.1.isSome ∧ x.2 = op

theorem taggedCount_rowsPlaced (op : Op T) (rows : List (Op T × String)) :
    taggedCount op (rowsPlaced filter ops rows) = (rows.map Prod.fst).count op := by
  unfold taggedCount rowsPlaced
  rw [countP_add, coe_countP, coe_countP, List.countP_map, List.countP_map, List.count,
    List.countP_map]
  have hready : (uninterested filter ops).countP
      ((fun x : Place × Op T => decide (x.1.isSome = true ∧ x.2 = op)) ∘ fun op => (none, op)) = 0 := by
    rw [List.countP_eq_zero]
    simp
  rw [hready, zero_add]
  congr 1
  funext r
  simp [beq_eq_decide]

theorem taggedCount_routedAll {op : Op T} {tags : List String} {remove : Bool}
    (hi : filter op = .interest ⟨tags, remove⟩) :
    taggedCount op (routedAll filter ops) = ((interested filter ops).map Prod.fst).count op *
      tags.length := by
  unfold taggedCount
  induction ops with
  | nil => simp [interested]
  | cons op' ops ih =>
    rw [routedAll_cons, countP_add, ih, coe_countP]
    by_cases hsame : op' = op
    · subst hsame
      have hhead : (routed filter op').countP (fun x => decide (x.1.isSome = true ∧ x.2 = op')) =
          tags.length := by
        rw [routed, hi]
        cases remove <;> simp [List.countP_append, List.countP_map]
      have hinterested : interested filter (op' :: ops) = (op', ⟨tags, remove⟩) :: interested filter ops := by
        simp [interested, hi]
      rw [hhead, hinterested, List.map_cons, List.count_cons_self, Nat.succ_mul, Nat.add_comm]
    · have hhead : (routed filter op').countP (fun x => decide (x.1.isSome = true ∧ x.2 = op)) = 0 := by
        rw [List.countP_eq_zero]
        intro x hx
        have hop : x.2 = op' := routed_snd hx
        simp [hop, hsame]
      have hinterested : ((interested filter (op' :: ops)).map Prod.fst).count op =
          ((interested filter ops).map Prod.fst).count op := by
        cases hf : filter op' with
        | noInterest => simp [interested, hf]
        | interest i => simp [interested, hf, hsame]
      rw [hhead, hinterested, Nat.zero_add]

theorem exclusive_of_rowsPlaced {rows : List (Op T × String)}
    (hrows : rows.map Prod.fst = (interested filter ops).map Prod.fst)
    (h : rowsPlaced filter ops rows = routedAll filter ops) : ∀ op ∈ ops, Exclusive filter op := by
  rintro op hop ⟨tags, remove⟩ hi
  refine ⟨removed_of_rowsPlaced h op hop _ hi, ?_⟩
  have hcount := congrArg (taggedCount op) h
  rw [taggedCount_rowsPlaced, taggedCount_routedAll hi, hrows] at hcount
  have hmem : op ∈ (interested filter ops).map Prod.fst :=
    List.mem_map.mpr ⟨(op, ⟨tags, remove⟩), mem_interested.mpr ⟨hop, hi⟩, rfl⟩
  have hpos : 0 < ((interested filter ops).map Prod.fst).count op := List.count_pos_iff.mpr hmem
  exact (Nat.eq_of_mul_eq_mul_left hpos (by rw [Nat.mul_one]; exact hcount)).symm

end Count

/-! ## Both operations -/

theorem stmts_placed (parents : List Nat) (rows : List (Op T × String)) :
    ↑((((uninterested filter ops).map (Stmt.queue · parents)) ++
      rows.map fun row => Stmt.optimize row.1 parents row.2).flatMap Stmt.placed) =
        rowsPlaced filter ops rows := by
  have htagged : (rows.map fun row => Stmt.optimize row.1 parents row.2).flatMap Stmt.placed =
      rows.map fun r => (some r.2, r.1) := by
    rw [List.flatMap_map, List.map_eq_flatMap]
    rfl
  rw [List.flatMap_append, placed_queue, htagged, ← coe_add]
  rfl

theorem stmts_drawsId (filter : InterestFilter T) (ops : List (Op T)) (parents : List Nat)
    (rows : List (Op T × String)) :
    ∀ stmt ∈ ((uninterested filter ops).map (Stmt.queue · parents)) ++
      rows.map fun row => Stmt.optimize row.1 parents row.2, stmt.drawsId := by
  intro stmt hstmt
  simp only [List.mem_append, List.mem_map] at hstmt
  rcases hstmt with ⟨_, -, rfl⟩ | ⟨_, -, rfl⟩ <;> rfl

variable {q : InMemoryQueue T} {s : Db T × Nat} {rest : List (Nat × Item T)}

theorem enqueue_alike_iff (hq : q.Fresh) (hs : Fresh s) (op : Op T)
    (hroom : q.Room (routedAll filter op.normalize)) (now : Nat) :
    (∃ s', enqueue filter op now s = .ok s' ∧ ∃ added, contents s'.1 = contents s.1 + added ∧
        (q.enqueue filter op).contents = q.contents + added) ↔
      ∀ o ∈ op.normalize, Exclusive filter o := by
  have hmemory := (InMemoryQueue.foldl_insertOp_grown filter op.normalize q).contents hq hroom
  unfold enqueue enqueueStmts
  simp only [bind_eq_ok, unnest_notNull, pure_eq_ok]
  constructor
  · rintro ⟨s', ⟨stmts, ⟨rows, ⟨hlen, rfl⟩, rfl⟩, hexec⟩, added, hadded, hadded'⟩
    obtain ⟨s'', hexec', -, hcont⟩ := exec_all now _ s hs (stmts_drawsId filter _ [] _)
    rw [hexec', Except.ok.injEq] at hexec
    subst hexec
    rw [stmts_placed, hadded] at hcont
    have hplaced := (add_left_cancel hcont).symm.trans (add_left_cancel (hadded'.symm.trans hmemory))
    exact exclusive_of_rowsPlaced (List.map_fst_zip (Nat.le_of_eq hlen)) hplaced
  · intro h
    have hitems := map_fst_eq_copies (l := interested filter op.normalize)
      fun x hx => (h x.1 (mem_interested.mp hx).1 _ (mem_interested.mp hx).2).2
    obtain ⟨s', hexec, -, hcont⟩ := exec_all now _ s hs
      (stmts_drawsId filter op.normalize [] (copies (interested filter op.normalize)))
    rw [stmts_placed, rowsPlaced_copies fun o ho i hi => (h o ho i hi).1] at hcont
    refine ⟨s', ⟨_, ⟨_, ⟨?_, rfl⟩, rfl⟩, ?_⟩, _, hcont, hmemory⟩
    · rw [hitems, length_copies]
    · rw [hitems, zip_copies]
      exact hexec

theorem processStmts_ok (backoff : Nat → Nat) (now : Nat) (record : QueueRow T) (ops : List (Op T)) :
    processStmts filter backoff now record (.ok ops) =
      .ok (.done ⟨record.id, record.item, record.parents, record.createdAt⟩ ::
        (((uninterested filter (ops.flatMap Op.normalize)).map (Stmt.queue · [record.id])) ++
          (copies (interested filter (ops.flatMap Op.normalize))).map fun row =>
            .optimize row.1 [record.id] row.2)) := by
  cases ops with
  | nil => rfl
  | cons op ops =>
    have hrows := unnest_notNull.mpr
      ⟨length_copies (interested filter ((op :: ops).flatMap Op.normalize)), rfl⟩
    rw [zip_copies] at hrows
    simp only [processStmts, List.isEmpty_cons, Bool.false_eq_true, if_false, hrows, ok_bind]
    rfl

theorem exec_done (now : Nat) (s : Db T × Nat) {row : DoneRow T} (h : ∀ r ∈ s.1.done, r.id ≠ row.id) :
    Stmt.exec now s (.done row) = .ok ({ s.1 with done := s.1.done ++ [row] }, s.2) := by
  simp only [Stmt.exec, Stmt.conflicts, Stmt.insert, Stmt.nextId, Stmt.drawsId, Bool.false_eq_true, if_false,
    bind_eq_ok, ensure_eq_ok, pure_eq_ok, List.any_eq_true, decide_eq_true_eq, not_exists, not_and,
      exists_const,
    and_true]
  exact fun r hr hsame => absurd hsame (h r hr)

theorem process_contents {R : Type} (filter : InterestFilter T) (hq : q.Fresh)
    (hroom : q.Room (routedAll filter (ops.flatMap Op.normalize))) {id : Nat} {item : Item T}
    (hready : q.ready = (id, item) :: rest) {f : Op T → Nat → R × Except QueueError (List (Op T))} {r : R}
    (hf : f item.op id = (r, .ok ops)) :
    (q.process filter f).1.contents + {(none, item.op)} = q.contents +
      routedAll filter (ops.flatMap Op.normalize) := by
  let popped : InMemoryQueue T := { q with ready := rest, done := mapInsert id item q.done }
  have hid : id < q.idx := hq.ready (id, item) (hready ▸ List.mem_cons_self ..)
  have hpopped : popped.Fresh := by
    refine ⟨fun e he => hq.ready e (hready ▸ List.mem_cons_of_mem _ he), fun e he => ?_, hq.optimizerQueue⟩
    rcases mem_mapInsert he with rfl | he
    · exact hid
    · exact hq.done e he
  have hprocess : (q.process filter f).1 =
      (ops.flatMap Op.normalize).foldl (InMemoryQueue.insertOp filter) popped := by
    unfold InMemoryQueue.process
    split
    · rename_i hnil
      rw [hready] at hnil
      cases hnil
    · rename_i id' item' rest' hcons
      rw [hready] at hcons
      cases hcons
      simp only [hf]
      rfl
  have hcont : q.contents = popped.contents + {(none, item.op)} := by
    unfold InMemoryQueue.contents
    rw [hready, List.map_cons, add_right_comm]
    rw [← cons_coe, ← singleton_add, add_comm {_}]
  rw [hprocess, (InMemoryQueue.foldl_insertOp_grown filter _ popped).contents hpopped hroom, hcont]
  exact add_right_comm _ _ _

theorem process_alike_iff {R : Type} (hq : q.Fresh) (hs : Fresh s)
    (hroom : q.Room (routedAll filter (ops.flatMap Op.normalize))) {id : Nat} {item : Item T}
    (hready : q.ready = (id, item) :: rest)
    {f : Op T → Nat → R × Except QueueError (List (Op T))} {r : R} (hf : f item.op id = (r, .ok ops))
    {record : QueueRow T} (hdone : ∀ r ∈ s.1.done, r.id ≠ record.id) (backoff : Nat → Nat) (now : Nat) :
    (∃ s', processItem filter backoff now record (.ok ops) s = .ok s' ∧
        ∃ added, contents s'.1 = contents s.1 + added ∧
        (q.process filter f).1.contents + {(none, item.op)} = q.contents + added) ↔
      ∀ o ∈ ops.flatMap Op.normalize, Removed filter o := by
  have hmemory := process_contents filter hq hroom hready hf
  obtain ⟨s', hexec, -, hcont⟩ := exec_all now _
    ({ s.1 with done := s.1.done ++ [⟨record.id, record.item, record.parents, record.createdAt⟩] }, s.2)
    ⟨hs.queue, hs.optimize⟩ (stmts_drawsId filter (ops.flatMap Op.normalize) [record.id]
      (copies (interested filter (ops.flatMap Op.normalize))))
  have hprocess : processItem filter backoff now record (.ok ops) s = .ok s' := by
    rw [processItem, processStmts_ok, ok_bind, List.foldlM_cons, exec_done now s hdone]
    exact hexec
  rw [stmts_placed] at hcont
  rw [hprocess]
  constructor
  · rintro ⟨s'', heq, added, hadded, hadded'⟩
    cases heq
    have hplaced : rowsPlaced filter (ops.flatMap Op.normalize)
        (copies (interested filter (ops.flatMap Op.normalize))) =
        routedAll filter (ops.flatMap Op.normalize) :=
      (add_left_cancel (hcont.symm.trans hadded)).trans (add_left_cancel (hadded'.symm.trans hmemory))
    exact removed_of_rowsPlaced hplaced
  · intro h
    rw [rowsPlaced_copies h] at hcont
    exact ⟨s', rfl, _, hcont, hmemory⟩

/-- **The two queues route alike iff every op with interest is taken, and on `enqueue` by one
    plugin**: postgres asks no interest whether to remove the op, and `enqueue` pairs the ops with
    all tags of all ops.  The counter of ids in memory must not wrap meanwhile. -/
theorem routes_alike_iff {R : Type} (filter : InterestFilter T) (q : InMemoryQueue T)
    (s : Db T × Nat) (hq : q.Fresh) (hs : Fresh s) (now : Nat) :
    (∀ op, q.Room (routedAll filter op.normalize) →
        ((∃ s', enqueue filter op now s = .ok s' ∧ ∃ added, contents s'.1 = contents s.1 + added ∧
        (q.enqueue filter op).contents = q.contents + added) ↔
      ∀ o ∈ op.normalize, Exclusive filter o)) ∧
    ∀ id item rest (f : Op T → Nat → R × Except QueueError (List (Op T))) r ops (record : QueueRow T) backoff,
      q.Room (routedAll filter (ops.flatMap Op.normalize)) → q.ready = (id, item) :: rest →
      f item.op id = (r, .ok ops) → (∀ r ∈ s.1.done, r.id ≠ record.id) →
      ((∃ s', processItem filter backoff now record (.ok ops) s = .ok s' ∧
          ∃ added, contents s'.1 = contents s.1 + added ∧
            (q.process filter f).1.contents + {(none, item.op)} = q.contents + added) ↔
        ∀ o ∈ ops.flatMap Op.normalize, Removed filter o) := by
  refine ⟨fun op hroom => enqueue_alike_iff hq hs op hroom now, ?_⟩
  intro id item rest f r ops record backoff hroom hready hf hdone
  exact process_alike_iff hq hs hroom hready hf hdone backoff now

namespace Sample

/-- Two plugins want the call `1`; one wants a copy of the call `2`. -/
def interests : InterestFilter Msg
  | .call 1 => .interest ⟨["first", "second"], true⟩
  | .call 2 => .interest ⟨["first"], false⟩
  | .call 3 => .interest ⟨["first"], true⟩
  | _ => .noInterest

def emptyDb : Db Msg × Nat := (⟨[], [], [], []⟩, 1)

theorem emptyDb_fresh : Fresh emptyDb := by
  refine ⟨?_, ?_⟩ <;> exact fun r hr => (List.not_mem_nil hr).elim

theorem newQueue_fresh : (.new : InMemoryQueue Msg).Fresh := by
  refine ⟨?_, ?_, ?_⟩ <;> exact fun e he => (List.not_mem_nil he).elim

end Sample

open Sample in
/-- The theorem at a call that one plugin takes and at one that it wants a copy of. -/
theorem routes_alike_sample :
    (∃ s', enqueue interests (.call 3) 0 emptyDb = .ok s' ∧
      ∃ added, contents s'.1 = contents emptyDb.1 + added ∧
      (InMemoryQueue.new.enqueue interests (.call 3)).contents =
        InMemoryQueue.new.contents + added) ∧
    ¬ ∃ s', enqueue interests (.call 2) 0 emptyDb = .ok s' ∧
      ∃ added, contents s'.1 = contents emptyDb.1 + added ∧
      (InMemoryQueue.new.enqueue interests (.call 2)).contents =
        InMemoryQueue.new.contents + added := by
  have halike := (routes_alike_iff (R := Unit) interests .new emptyDb newQueue_fresh emptyDb_fresh 0).1
  refine ⟨(halike _ (by decide)).mpr ?_, fun h => ?_⟩
  · intro o ho i hi
    rw [List.mem_singleton.mp ho] at hi
    cases hi
    exact ⟨rfl, rfl⟩
  · have hcopy := ((halike _ (by decide)).mp h (.call 2) (List.mem_singleton.mpr rfl) _ rfl).1
    cases hcopy

open Sample in
/-- **A call that two plugins want**: the array of the ops is shorter than the array of the tags,
    and the `NULL` that fills it up is refused; in memory there are two items. -/
theorem two_tags_refused : enqueue interests (.call 1) 0 emptyDb = .error .notNullViolation ∧
      (InMemoryQueue.new.enqueue interests (.call 1)).contents =
        ↑[((some "first", .call 1) : Place × Op Msg), (some "second", .call 1)] ∧
      ¬ ∀ (filter : InterestFilter Msg) (op : Op Msg), ∃ s', enqueue filter op 0 emptyDb = .ok s' ∧
        ∃ added, contents s'.1 = contents emptyDb.1 + added ∧
          (InMemoryQueue.new.enqueue filter op).contents =
            InMemoryQueue.new.contents + added := by
  refine ⟨rfl, rfl, fun h => ?_⟩
  obtain ⟨s', hs', -⟩ := h interests (.call 1)
  cases hs'

end UnionVoyager.Vm
