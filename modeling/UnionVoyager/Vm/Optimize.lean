import UnionVoyager.Vm.Grown

/-!
# What an optimizer pass loses

`optimize` takes the items of a tag out of the optimizer queue, runs the pass on them and routes
what the pass returns.

* `InMemory.keeps_iff`, `PgQueue.keeps_iff` — the loop over a list of ops is left behind its first
  taken op; what stands there is lost, in both queues.  In memory, an index of a parent that is out
  of range is a panic.
-/

namespace UnionVoyager.Vm

open Lib List

variable {T : QueueMessage} {filter : InterestFilter T} {res : PassResult T} {ε : Type}

/-- What the pass wants optimized further. -/
def further (res : PassResult T) : Multiset (Place × Op T) :=
  ↑(res.optimizeFurther.map fun e => ((some e.2.2, e.2.1) : Place × Op T))

/-- The contents before, and every op of the result where it belongs. -/
def Kept (filter : InterestFilter T) (res : PassResult T) (before after : Multiset (Place × Op T)) : Prop :=
  after = before + routedAll filter (res.ready.flatMap fun e => e.2.normalize) + further res

/-- Behind the first taken op of an entry stands none that belongs anywhere. -/
def NothingBehind (filter : InterestFilter T) (res : PassResult T) : Prop :=
  ∀ e ∈ res.ready, routedAll filter (behindTaken filter e.2.normalize) = 0

/-- The parents of everything that is inserted are among `n` items. -/
structure ParentsFound (n : Nat) (filter : InterestFilter T) (res : PassResult T) : Prop where
  ready : ∀ e ∈ res.ready, (∀ i ∈ e.1, i < n) ∨ routedAll filter e.2.normalize = 0
  further : ∀ e ∈ res.optimizeFurther, ∀ i ∈ e.1, i < n

/-- What the loops route of the ready entries. -/
def routedBlocks (filter : InterestFilter T) (entries : List (List Nat × Op T)) : Multiset (Place × Op T) :=
  routedAll filter (entries.flatMap fun e => blockOps filter e.2.normalize)

theorem routedAll_eq_blocks (filter : InterestFilter T) (entries : List (List Nat × Op T)) :
    routedAll filter (entries.flatMap fun e => e.2.normalize) =
      routedBlocks filter entries + routedAll filter
        (entries.flatMap fun e => behindTaken filter e.2.normalize) := by
  unfold routedBlocks
  induction entries with
  | nil => rfl
  | cons e entries ih =>
    simp only [flatMap_cons, routedAll_append]
    rw [ih, add_add_add_comm, ← routedAll_append filter (blockOps filter _), blockOps_append_behindTaken]

theorem nothingBehind_iff :
    NothingBehind filter res ↔ routedAll filter
      (res.ready.flatMap fun e => behindTaken filter e.2.normalize) = 0 := by
  unfold NothingBehind
  simp only [routedAll_eq_zero, mem_flatMap]
  constructor
  · rintro h op ⟨e, he, hop⟩
    exact h e he op hop
  · intro h e he op hop
    exact h op ⟨e, he, hop⟩

theorem kept_blocks_iff (before : Multiset (Place × Op T)) :
    Kept filter res before (before + routedBlocks filter res.ready + further res) ↔
      NothingBehind filter res := by
  rw [nothingBehind_iff, Kept, routedAll_eq_blocks, ← add_assoc]
  constructor
  · intro h
    have h := add_right_cancel h
    exact (left_eq_add.mp h)
  · intro h
    rw [h, add_zero]

/-! ## In memory -/

variable {tag : String} {optimizer : Pass T ε}

namespace InMemory

open InMemoryQueue

variable {q q' : InMemoryQueue T} {ids : List Nat}

theorem new_fresh : (new : InMemoryQueue T).Fresh := by
  refine ⟨?_, ?_, ?_⟩ <;> exact fun e he => (not_mem_nil he).elim

theorem parentIds_eq_some (ids parentsIdxs : List Nat) :
    (∃ ps, parentIds ids parentsIdxs = some ps) ↔ ∀ i ∈ parentsIdxs, i < ids.length := by
  unfold parentIds
  induction parentsIdxs with
  | nil => simp
  | cons i is ih =>
    rw [forall_mem_cons, ← ih]
    by_cases hi : i < ids.length
    · cases hm : is.mapM (ids[·]?) with
      | none | some => simp [hi, hm]
    · simp [hi]

theorem insertBlock_eq_some {parentsIdxs : List Nat} {ops : List (Op T)}
    (h : insertBlock filter ids parentsIdxs ops q = some q') :
    ((∀ i ∈ parentsIdxs, i < ids.length) ∨ routedAll filter (blockOps filter ops) = 0) ∧
      Grown q q' (routedAll filter (blockOps filter ops)) := by
  rw [← parentIds_eq_some]
  cases hp : parentIds ids parentsIdxs with
  | some ps =>
    obtain ⟨q'', hq'', hgrown⟩ := insertBlock_of_some filter hp ops q
    rw [h, Option.some.injEq] at hq''
    subst hq''
    exact ⟨.inl ⟨ps, rfl⟩, hgrown⟩
  | none =>
    obtain ⟨hzero, rfl⟩ := (insertBlock_of_none hp ops).mp h
    rw [hzero]
    exact ⟨.inr rfl, Grown.refl q⟩

theorem insertBlock_isSome {parentsIdxs : List Nat} {ops : List (Op T)}
    (h : (∀ i ∈ parentsIdxs, i < ids.length) ∨ routedAll filter (blockOps filter ops) = 0)
    (q : InMemoryQueue T) : ∃ q', insertBlock filter ids parentsIdxs ops q = some q' := by
  rw [← parentIds_eq_some] at h
  cases hp : parentIds ids parentsIdxs with
  | some ps =>
    obtain ⟨q', hq', -⟩ := insertBlock_of_some filter hp ops q
    exact ⟨q', hq'⟩
  | none =>
    rcases h with ⟨ps, hps⟩ | hzero
    · rw [hp] at hps
      cases hps
    · exact ⟨q, (insertBlock_of_none hp ops).mpr ⟨hzero, rfl⟩⟩

theorem insertReadyEntries_eq_some : ∀ {entries : List (List Nat × Op T)} {q : InMemoryQueue T},
    entries.foldlM (fun q e => insertBlock filter ids e.1 e.2.normalize q) q = some q' →
      (∀ e ∈ entries, (∀ i ∈ e.1, i < ids.length) ∨ routedAll filter (blockOps filter e.2.normalize) = 0) ∧
        Grown q q' (routedBlocks filter entries)
  | [], q, h => by
    cases h
    exact ⟨fun e he => (not_mem_nil he).elim, Grown.refl q'⟩
  | e :: entries, q, h => by
    rw [foldlM_cons, Option.bind_eq_bind, Option.bind_eq_some_iff] at h
    obtain ⟨q₁, hone, hrest⟩ := h
    obtain ⟨hfound, hgrown⟩ := insertBlock_eq_some hone
    obtain ⟨hfounds, hgrowns⟩ := insertReadyEntries_eq_some hrest
    refine ⟨List.forall_mem_cons.mpr ⟨hfound, hfounds⟩, ?_⟩
    rw [routedBlocks, flatMap_cons, routedAll_append]
    exact hgrown.trans hgrowns

theorem insertReadyEntries_isSome : ∀ {entries : List (List Nat × Op T)} (q : InMemoryQueue T),
    (∀ e ∈ entries, (∀ i ∈ e.1, i < ids.length) ∨ routedAll filter (blockOps filter e.2.normalize) = 0) →
      ∃ q', entries.foldlM (fun q e => insertBlock filter ids e.1 e.2.normalize q) q = some q'
  | [], q, _ => ⟨q, rfl⟩
  | e :: entries, q, h => by
    obtain ⟨he, hentries⟩ := List.forall_mem_cons.mp h
    obtain ⟨q₁, hone⟩ := insertBlock_isSome he q
    obtain ⟨q', hrest⟩ := insertReadyEntries_isSome q₁ hentries
    exact ⟨q', by rw [foldlM_cons, hone]; exact hrest⟩

theorem insertFurther_eq_some : ∀ {entries : List (List Nat × Op T × String)} {q : InMemoryQueue T},
    entries.foldlM (fun q e => insertTags ids e.1 e.2.1 [e.2.2] q) q = some q' →
      (∀ e ∈ entries, ∀ i ∈ e.1, i < ids.length) ∧
        Grown q q' ↑(entries.map fun e => ((some e.2.2, e.2.1) : Place × Op T))
  | [], q, h => by
    cases h
    exact ⟨fun e he => (not_mem_nil he).elim, Grown.refl q'⟩
  | e :: entries, q, h => by
    rw [foldlM_cons, Option.bind_eq_bind, Option.bind_eq_some_iff] at h
    obtain ⟨q₁, hone, hrest⟩ := h
    cases hp : parentIds ids e.1 with
    | none => simp [insertTags_of_none hp] at hone
    | some ps =>
      rw [insertTags_of_some hp, Option.some.injEq] at hone
      subst hone
      obtain ⟨hfounds, hgrowns⟩ := insertFurther_eq_some hrest
      refine ⟨List.forall_mem_cons.mpr ⟨(parentIds_eq_some ..).mp ⟨ps, hp⟩, hfounds⟩, ?_⟩
      exact (insertTagged_grown q e.2.2 ⟨ps, e.2.1⟩).trans hgrowns

theorem insertFurther_isSome : ∀ {entries : List (List Nat × Op T × String)} (q : InMemoryQueue T),
    (∀ e ∈ entries, ∀ i ∈ e.1, i < ids.length) →
      ∃ q', entries.foldlM (fun q e => insertTags ids e.1 e.2.1 [e.2.2] q) q = some q'
  | [], q, _ => ⟨q, rfl⟩
  | e :: entries, q, h => by
    obtain ⟨he, hentries⟩ := List.forall_mem_cons.mp h
    obtain ⟨ps, hp⟩ := (parentIds_eq_some ..).mpr he
    obtain ⟨q', hrest⟩ := insertFurther_isSome (q.insertTagged e.2.2 ⟨ps, e.2.1⟩) hentries
    exact ⟨q', by rw [foldlM_cons, insertTags_of_some hp]; exact hrest⟩

theorem removeTag_fresh (hq : q.Fresh) (tag : String) : (q.removeTag tag).Fresh :=
  ⟨hq.ready, hq.done, fun e he => hq.optimizerQueue e (mem_of_mem_filter he)⟩

theorem done_fresh {entries : List (Nat × Item T)} (hentries : ∀ e ∈ entries, e.1 < q.idx) : ∀ done,
    (∀ e ∈ done, e.1 < q.idx) → ∀ e ∈ entries.foldl (fun done e => mapInsert e.1 e.2 done) done,
      e.1 < q.idx := by
  induction entries with
  | nil => exact fun done hdone => hdone
  | cons e entries ih =>
    obtain ⟨he, hrest⟩ := List.forall_mem_cons.mp hentries
    intro done hdone
    refine ih hrest _ (fun e' he' => ?_)
    rcases mem_mapInsert he' with rfl | he'
    · exact he
    · exact hdone e' he'

theorem tagged_lt (hq : q.Fresh) : ∀ e ∈ q.tagged tag, e.1 < q.idx := by
  intro e he
  obtain ⟨e', he', rfl⟩ := List.mem_map.mp he
  exact hq.optimizerQueue e' (mem_of_mem_filter he')

/-- The items of the tag are moved to `done`. -/
def moveToDone (q : InMemoryQueue T) (tag : String) : InMemoryQueue T :=
  { q.removeTag tag with done := (q.tagged tag).foldl (fun done e => mapInsert e.1 e.2 done) q.done }

theorem moveToDone_fresh (hq : q.Fresh) (tag : String) : (moveToDone q tag).Fresh :=
  ⟨hq.ready, done_fresh (tagged_lt hq) _ hq.done, (removeTag_fresh hq tag).optimizerQueue⟩

theorem optimize_eq (htag : q.tagged tag ≠ [])
    (hres : optimizer ((q.tagged tag).map fun e => e.2.op) = .ok res) :
    q.optimize tag filter optimizer =
      (res.ready.foldlM (fun q' e => insertBlock filter ((q.tagged tag).map Prod.fst) e.1 e.2.normalize q')
        (moveToDone q tag)).bind fun q₁ =>
      (res.optimizeFurther.foldlM (fun q' e => insertTags ((q.tagged tag).map Prod.fst) e.1 e.2.1 [e.2.2] q')
        q₁).bind fun q₂ => some (q₂, .ok ()) := by
  unfold optimize moveToDone
  cases htagged : q.tagged tag with
  | nil => exact absurd htagged htag
  | cons entry entries =>
    rw [htagged] at hres
    simp only [hres]
    rfl

theorem keeps_iff (hq : q.Fresh) (hroom : q.Room (routedBlocks filter res.ready + further res))
    (htag : q.tagged tag ≠ []) (hres : optimizer ((q.tagged tag).map fun e => e.2.op) = .ok res) :
    (∃ q', q.optimize tag filter optimizer = some (q', .ok ()) ∧
        Kept filter res (q.removeTag tag).contents q'.contents) ↔
      NothingBehind filter res ∧ ParentsFound (q.tagged tag).length filter res := by
  have hlen : ((q.tagged tag).map Prod.fst).length = (q.tagged tag).length := length_map ..
  have hfresh := moveToDone_fresh hq tag
  rw [optimize_eq htag hres]
  simp only [Option.bind_eq_some_iff, Option.some.injEq, Prod.mk.injEq, and_true]
  constructor
  · rintro ⟨q', ⟨q₁, hready, q₂, hfurther, rfl⟩, hkept⟩
    obtain ⟨hfound, hgrown⟩ := insertReadyEntries_eq_some hready
    obtain ⟨hfound', hgrown'⟩ := insertFurther_eq_some hfurther
    have hcont := (hgrown.trans hgrown').contents hfresh hroom
    rw [← add_assoc] at hcont
    have hbehind : NothingBehind filter res := (kept_blocks_iff _).mp (hcont ▸ hkept)
    rw [hlen] at hfound hfound'
    refine ⟨hbehind, ⟨fun e he => (hfound e he).imp_right fun hzero => ?_, hfound'⟩⟩
    rw [← blockOps_append_behindTaken filter e.2.normalize, routedAll_append, hzero, hbehind e he, add_zero]
  · rintro ⟨hbehind, hparents⟩
    have hready : ∀ e ∈ res.ready, (∀ i ∈ e.1, i < ((q.tagged tag).map Prod.fst).length) ∨
        routedAll filter (blockOps filter e.2.normalize) = 0 := by
      intro e he
      rw [hlen]
      refine (hparents.ready e he).imp_right fun hzero => ?_
      rw [← blockOps_append_behindTaken filter e.2.normalize, routedAll_eq_zero] at hzero
      exact routedAll_eq_zero.mpr fun op hop => hzero op (mem_append_left _ hop)
    obtain ⟨q₁, hq₁⟩ := insertReadyEntries_isSome (moveToDone q tag) hready
    obtain ⟨q₂, hq₂⟩ := insertFurther_isSome q₁ (hlen.symm ▸ hparents.further)
    refine ⟨q₂, ⟨q₁, hq₁, q₂, hq₂, rfl⟩, ?_⟩
    have hcont := ((insertReadyEntries_eq_some hq₁).2.trans (insertFurther_eq_some hq₂).2).contents
      hfresh hroom
    rw [← add_assoc] at hcont
    rw [hcont]
    exact (kept_blocks_iff _).mpr hbehind

end InMemory

/-! ## Postgres -/

namespace PgQueue

theorem optimizeStmts_drawsId (filter : InterestFilter T) (ids : List Nat) (res : PassResult T) :
    ∀ stmt ∈ optimizeStmts filter ids res, stmt.drawsId := by
  have hblock : ∀ (parents : List Nat) (ops : List (Op T)), ∀ stmt ∈ (block filter parents ops).1,
      stmt.drawsId := by
    intro parents ops
    induction ops with
    | nil => exact fun stmt hstmt => (not_mem_nil hstmt).elim
    | cons op ops ih =>
      intro stmt hstmt
      have htags : ∀ tags : List String, stmt ∈ tags.map (Stmt.optimize op parents ·) → stmt.drawsId := by
        intro tags h
        obtain ⟨tag, -, rfl⟩ := List.mem_map.mp h
        rfl
      rcases filter_cases filter op with hf | ⟨tags, hf⟩ | ⟨tags, hf⟩
      · simp only [block, hf] at hstmt
        exact ih stmt hstmt
      · simp only [block, hf, Bool.false_eq_true, if_false, mem_append] at hstmt
        exact hstmt.elim (htags tags) (ih stmt)
      · simp only [block, hf, if_true] at hstmt
        exact htags tags hstmt
  intro stmt hstmt
  simp only [optimizeStmts, mem_append, mem_map, mem_flatMap] at hstmt
  rcases hstmt with (⟨e, -, rfl⟩ | ⟨e, -, hstmt⟩) | ⟨e, -, op, -, rfl⟩
  · rfl
  · exact hblock _ _ stmt hstmt
  · rfl

theorem entries_placed (filter : InterestFilter T) (ids : List Nat) (entries : List (List Nat × Op T)) :
    ↑((entries.flatMap fun e => (block filter (parentIds ids e.1) e.2.normalize).1).flatMap Stmt.placed) +
        ↑((entries.flatMap fun e => (block filter (parentIds ids e.1) e.2.normalize).2.map
          (Stmt.queue · (parentIds ids e.1))).flatMap Stmt.placed) =
      routedBlocks filter entries := by
  induction entries with
  | nil => rfl
  | cons e entries ih =>
    rw [routedBlocks] at ih ⊢
    simp only [flatMap_cons, flatMap_append, routedAll_append, ← Multiset.coe_add, ← ih]
    rw [placed_queue, ← block_placed filter (parentIds ids e.1)]
    exact add_add_add_comm _ _ _ _

theorem optimizeStmts_placed (filter : InterestFilter T) (ids : List Nat) (res : PassResult T) :
    ↑((optimizeStmts filter ids res).flatMap Stmt.placed) = routedBlocks filter res.ready + further res := by
  have hfurther : (res.optimizeFurther.map fun e =>
      Stmt.optimize e.2.1 (parentIds ids e.1) e.2.2).flatMap Stmt.placed =
      res.optimizeFurther.map fun e => (some e.2.2, e.2.1) := by
    rw [flatMap_map, map_eq_flatMap]
    rfl
  unfold optimizeStmts
  rw [flatMap_append, flatMap_append, hfurther, ← Multiset.coe_add, ← Multiset.coe_add, add_assoc,
    entries_placed, add_comm]
  rfl

theorem deleteOptimize_fresh {s : Db T × Nat} (hs : Fresh s) (ids : List Nat) :
    Fresh (deleteOptimize s.1 ids, s.2) :=
  ⟨hs.queue, fun r hr => hs.optimize r (mem_of_mem_filter hr)⟩

theorem keeps_iff {s : Db T × Nat} (hs : Fresh s) {limit : Option Nat} {rows : List (OptimizeRow T)}
    (hrows : selectTag s.1 tag limit = rows) (hne : rows ≠ []) {now : Nat}
    (hres : optimizer (rows.map OptimizeRow.item) = .ok res) :
    (∃ s', optimize limit tag filter optimizer now s = (s', .ok ()) ∧
        Kept filter res (contents (deleteOptimize s.1 (rows.map OptimizeRow.id))) (contents s'.1)) ↔
      NothingBehind filter res := by
  obtain ⟨s', hexec, -, hcont⟩ := exec_all now
    (optimizeStmts filter (rows.map OptimizeRow.id) res) _ (deleteOptimize_fresh hs (rows.map OptimizeRow.id))
    (optimizeStmts_drawsId filter _ res)
  rw [optimizeStmts_placed, ← add_assoc] at hcont
  have hoptimize : optimize limit tag filter optimizer now s = (s', .ok ()) := by
    unfold optimize transact optimizeTx
    cases rows with
    | nil => exact absurd rfl hne
    | cons row rows =>
      rw [hrows]
      simp only [hres, Except.mapError, ok_bind, hexec]
  rw [← kept_blocks_iff (contents (deleteOptimize s.1 (rows.map OptimizeRow.id))), ← hcont, hoptimize]
  constructor
  · rintro ⟨s'', heq, hkept⟩
    cases heq
    exact hkept
  · intro hkept
    exact ⟨s', rfl, hkept⟩

end PgQueue

/-! ## Both queues -/

/-- **Everything a pass returns is kept iff no op that belongs anywhere stands behind a taken one**:
    `break 'block` ends the loop, where it should go on with the next op.  In memory the parents
    have to be in range too, and the counter of ids must not wrap. -/
theorem optimize_keeps_iff (filter : InterestFilter T) (res : PassResult T) (tag : String) :
    (∀ (q : InMemory.InMemoryQueue T) (optimizer : Pass T ε), q.Fresh →
      q.Room (routedBlocks filter res.ready + further res) → q.tagged tag ≠ [] →
      optimizer ((q.tagged tag).map fun e => e.2.op) = .ok res →
      ((∃ q', q.optimize tag filter optimizer = some (q', .ok ()) ∧
          Kept filter res (q.removeTag tag).contents q'.contents) ↔
        NothingBehind filter res ∧ ParentsFound (q.tagged tag).length filter res)) ∧
    ∀ (s : PgQueue.Db T × Nat) (limit : Option Nat) (optimizer : Pass T ε) (now : Nat), PgQueue.Fresh s →
      PgQueue.selectTag s.1 tag limit ≠ [] →
      optimizer ((PgQueue.selectTag s.1 tag limit).map PgQueue.OptimizeRow.item) = .ok res →
      ((∃ s', PgQueue.optimize limit tag filter optimizer now s = (s', .ok ()) ∧
          Kept filter res
            (PgQueue.contents (PgQueue.deleteOptimize s.1
              ((PgQueue.selectTag s.1 tag limit).map PgQueue.OptimizeRow.id)))
            (PgQueue.contents s'.1)) ↔
        NothingBehind filter res) := by
  refine ⟨fun q optimizer hq hroom htag hres => ?_, fun s limit optimizer now hs hne hres => ?_⟩
  · exact InMemory.keeps_iff hq hroom htag hres
  · exact PgQueue.keeps_iff hs rfl hne hres

namespace Sample

/-- A plugin that takes the call `1`. -/
def takesOne : InterestFilter Msg
  | .call 1 => .interest ⟨["plugin"], true⟩
  | _ => .noInterest

def pending : InMemory.InMemoryQueue Msg := .insertTagged .new "plugin" ⟨[], .call 1⟩

theorem pending_fresh : pending.Fresh :=
  (InMemory.InMemoryQueue.insertTagged_grown (T := Msg) .new "plugin" ⟨[], .call 1⟩).fresh InMemory.new_fresh
    (by decide)

/-- The pass returns the given ops as one batch. -/
def batched (ops : List (Op Msg)) : PassResult Msg := ⟨[], [([0], .conc ops)]⟩

end Sample

open Sample in
/-- The theorem at a batch whose taken call comes last: nothing is lost. -/
theorem optimize_keeps_sample : ∃ q', pending.optimize "plugin" takesOne
    (fun _ => (.ok (batched [.call 2, .call 1]) : Except Unit _)) = some (q', .ok ()) ∧
    Kept takesOne (batched [.call 2, .call 1]) (pending.removeTag "plugin").contents q'.contents := by
  refine ((optimize_keeps_iff takesOne (batched [.call 2, .call 1]) "plugin").1 pending _ pending_fresh
    (by decide) (by decide) rfl).mpr ⟨?_, ?_, ?_⟩
  · intro e he
    rw [List.mem_singleton.mp he]
    rfl
  · intro e he
    rw [List.mem_singleton.mp he]
    exact .inl (by decide)
  · intro e he
    exact (not_mem_nil he).elim

open Sample in
/-- **A batch of two calls, the first of which is taken**: the second one is lost. -/
theorem remainder_lost :
    ¬ ∀ (q : InMemory.InMemoryQueue Msg) (tag : String) (filter : InterestFilter Msg)
      (res : PassResult Msg), q.Fresh →
      q.tagged tag ≠ [] → ∃ q', q.optimize tag filter (fun _ => (.ok res : Except Unit _)) =
        some (q', .ok ()) ∧ Kept filter res (q.removeTag tag).contents q'.contents := by
  intro h
  have hkept := h pending "plugin" takesOne (batched [.call 1, .call 2]) pending_fresh (by decide)
  have hbehind := ((InMemory.keeps_iff pending_fresh (by decide) (by decide) rfl).mp hkept).1
    ([0], .conc [.call 1, .call 2]) (List.mem_singleton.mpr rfl)
  exact absurd (routedAll_eq_zero.mp hbehind (.call 2) (List.mem_singleton.mpr rfl)) (by decide)

/-! ## A pass that fails -/

/-- **A failed pass leaves the queue as it was iff there was nothing to run it on**, in memory: the
    items of the tag are gone.  In postgres the transaction is rolled back. -/
theorem failed_pass_iff (filter : InterestFilter T) (tag : String) (optimizer : Pass T ε) (e : ε) :
    (∀ q : InMemory.InMemoryQueue T, optimizer ((q.tagged tag).map fun e => e.2.op) = .error e →
      ((∀ q', q.optimize tag filter optimizer = some (q', .error e) →
          q'.ready = q.ready ∧ q'.optimizerQueue = q.optimizerQueue ∧ q'.done = q.done) ↔
        q.tagged tag = [])) ∧
    ∀ (s s' : PgQueue.Db T × Nat) (limit : Option Nat) (now : Nat) (e : PgQueue.OptimizeError ε),
      PgQueue.optimize limit tag filter optimizer now s = (s', .error e) → s' = s := by
  refine ⟨fun q hres => ?_, fun s s' limit now e h => ?_⟩
  · cases htagged : q.tagged tag with
    | nil =>
      refine ⟨fun _ => rfl, fun _ q' h => ?_⟩
      simp [InMemory.InMemoryQueue.optimize, htagged] at h
    | cons entry entries =>
      have hgone : q.optimize tag filter optimizer = some (q.removeTag tag, .error e) := by
        rw [htagged] at hres
        simp only [InMemory.InMemoryQueue.optimize, htagged, hres]
      refine ⟨fun h => ?_, fun h => absurd h (cons_ne_nil _ _)⟩
      -- what was filtered out was there
      have hall : q.optimizerQueue.filter (·.1 ≠ tag) = q.optimizerQueue := (h _ hgone).2.1
      rw [InMemory.InMemoryQueue.tagged, ← hall, filter_filter] at htagged
      simp at htagged
  · unfold PgQueue.optimize PgQueue.transact at h
    split at h
    · cases h
    · cases h
      rfl

open Sample in
/-- The theorem at a tag with one item. -/
theorem failed_pass_sample : ∃ q', pending.optimize "plugin" takesOne (fun _ => .error ()) = some
    (q', .error ()) ∧
    ¬ (q'.ready = pending.ready ∧ q'.optimizerQueue = pending.optimizerQueue ∧ q'.done = pending.done) := by
  by_contra h
  refine absurd (((failed_pass_iff takesOne "plugin" (fun _ => .error ()) ()).1 pending rfl).mp ?_)
    (by decide)
  intro q' hq'
  by_contra hlost
  exact h ⟨q', hq', hlost⟩

open Sample in
/-- **A failing pass over one item**: the item is gone from every place of the queue. -/
theorem failed_pass_loses :
    ¬ ∀ (q q' : InMemory.InMemoryQueue Msg) (tag : String) (optimizer : Pass Msg Unit)
      (filter : InterestFilter Msg), q.optimize tag filter optimizer = some (q', .error ()) →
        q'.ready = q.ready ∧ q'.optimizerQueue = q.optimizerQueue ∧ q'.done = q.done := by
  intro h
  have hlost := (h pending _ "plugin" (fun _ => .error ()) takesOne rfl).2.1
  exact absurd (congrArg length hlost) (by decide)

end UnionVoyager.Vm
