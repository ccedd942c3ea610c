import UnionVoyager.Vm.Ordered

/-!
# Sequencing over whole runs

In `Seq [a, b, ...]` at any place of an op, whatever stems from a later element waits for all that
stems from the earlier ones.
-/

namespace UnionVoyager.Vm

open Lib List

variable {T : QueueMessage} {L : Type}

open Op in
/-- The items of a labelled run: each is ordered, and no two are early and late. -/
structure Sequenced (items : List (Op.Staged T)) : Prop where
  elems : ∀ op ∈ items, Ordered op
  apart : items.Pairwise Apart

namespace Sequenced

open Op

variable {items : List (Op.Staged T)}

theorem leave (h : Sequenced items) {n : Nat} {op : Op.Staged T} (hop : items[n]? = some op)
    {res : Except QueueError (Option (Op.Staged T))}
    (hres : ∀ r, res = .ok (some r) → Ordered r ∧ r.labels ⊆ op.labels) :
    Sequenced (leave items n res) ∧ ∀ x ∈ Vm.leave items n res, ∃ y ∈ items, x.labels ⊆ y.labels := by
  have hmem : op ∈ items := mem_of_getElem? hop
  have hrest : items.eraseIdx n ⊆ items := (eraseIdx_sublist items n).subset
  have herase : Sequenced (items.eraseIdx n) ∧ ∀ x ∈ items.eraseIdx n, ∃ y ∈ items, x.labels ⊆ y.labels :=
    ⟨⟨fun x hx => h.elems x (hrest hx), h.apart.sublist (eraseIdx_sublist items n)⟩,
      fun x hx => ⟨x, hrest hx, List.Subset.refl _⟩⟩
  have hop_apart : ∀ x ∈ items.eraseIdx n, Apart op x := by
    have hperm := h.apart.perm (perm_cons_eraseIdx hop) Apart.symm
    exact (List.pairwise_cons.mp hperm).1
  rcases res with (_ | _ | _) | _ | r
  · exact herase
  · exact herase
  · exact ⟨h, fun x hx => ⟨x, hx, List.Subset.refl _⟩⟩
  · rw [Vm.leave, requeue, Option.toList_none, flatMap_nil, append_nil]
    exact herase
  · obtain ⟨hordered, hlabels⟩ := hres r rfl
    obtain ⟨helems, hapart⟩ := normalize_ordered hordered
    have hsub : ∀ x ∈ r.normalize, x.labels ⊆ op.labels :=
      fun x hx => List.Subset.trans (labels_subset (leaves_normalize r) hx) hlabels
    rw [Vm.leave, requeue, Option.toList_some, flatMap_singleton]
    refine ⟨⟨?_, List.pairwise_append.mpr ⟨herase.1.apart, hapart, ?_⟩⟩, ?_⟩
    · intro x hx
      rcases List.mem_append.mp hx with hx | hx
      · exact herase.1.elems x hx
      · exact helems x hx
    · intro x hx y hy
      exact (hop_apart x hx).symm.mono (List.Subset.refl _) (hsub y hy)
    · intro x hx
      rcases List.mem_append.mp hx with hx | hx
      · exact herase.2 x hx
      · exact ⟨op, hmem, hsub x hx⟩

theorem step (h : Sequenced items) (i : Input T) :
    Sequenced (step items i.labelled).1 ∧ ∀ x ∈ (Vm.step items i.labelled).1, ∃ y ∈ items,
      x.labels ⊆ y.labels := by
  unfold Vm.step
  split
  · exact ⟨h, fun x hx => ⟨x, hx, List.Subset.refl _⟩⟩
  · rename_i op hop
    exact h.leave hop (process_stepOf i.handler i.now (h.elems op (mem_of_getElem? hop))).result

theorem step_actions (h : Sequenced items) (i : Input T) {a : Action (T.labelled Label)}
    (ha : a ∈ (Vm.step items i.labelled).2) :
    (∀ l, a.label = some l → ∃ op ∈ items, l ∈ op.labels) ∧
      (a.label = some .late → ∀ op ∈ items, Label.early ∉ op.labels) := by
  unfold Vm.step at ha
  split at ha
  · cases ha
  · rename_i op hop
    have hmem : op ∈ items := mem_of_getElem? hop
    have hstep := process_stepOf i.handler i.now (h.elems op hmem)
    refine ⟨fun l hl => ⟨op, hmem, hstep.label_mem a ha l hl⟩, ?_⟩
    intro hlate x hx hearly
    have hperm := h.apart.perm (perm_cons_eraseIdx hop) Apart.symm
    rcases List.mem_cons.mp ((perm_cons_eraseIdx hop).subset hx) with rfl | hx
    · exact hstep.late a ha hlate hearly
    · exact ((List.pairwise_cons.mp hperm).1 x hx).1 (hstep.label_mem a ha _ hlate) hearly

theorem run (h : Sequenced items) (is : List (Input T)) : Sequenced (run items (is.map Input.labelled)) := by
  induction is generalizing items with
  | nil => exact h
  | cons i is ih => exact ih (h.step i).1

theorem trace_label (h : Sequenced items) (is : List (Input T)) {a : Action (T.labelled Label)}
    (ha : a ∈ trace items (is.map Input.labelled)) {l : Label} (hl : a.label = some l) :
    ∃ op ∈ items, l ∈ op.labels := by
  induction is generalizing items with
  | nil => cases ha
  | cons i is ih =>
    rcases List.mem_append.mp ha with ha | ha
    · exact (h.step_actions i ha).1 l hl
    · obtain ⟨hnext, hlabels⟩ := h.step i
      obtain ⟨x, hx, hlx⟩ := ih hnext ha
      obtain ⟨y, hy, hxy⟩ := hlabels x hx
      exact ⟨y, hy, hxy hlx⟩

theorem trace_pairwise (h : Sequenced items) (is : List (Input T)) :
    (trace items (is.map Input.labelled)).Pairwise fun a b => a.label = some .late →
      b.label ≠ some .early := by
  induction is generalizing items with
  | nil => exact .nil
  | cons i is ih =>
    obtain ⟨hnext, hlabels⟩ := h.step i
    refine List.pairwise_append.mpr ⟨?_, ih hnext, ?_⟩
    · refine pairwise_of_forall_mem_list fun a ha b hb hlate hearly => ?_
      obtain ⟨op, hop, hl⟩ := (h.step_actions i hb).1 _ hearly
      exact (h.step_actions i ha).2 hlate op hop hl
    · intro a ha b hb hlate hearly
      obtain ⟨x, hx, hlx⟩ := hnext.trace_label is hb hearly
      obtain ⟨y, hy, hxy⟩ := hlabels x hx
      exact (h.step_actions i ha).2 hlate y hy (hxy hlx)

end Sequenced

/-! ## Waiting for a deadline -/

/-- What is late is in an item with a deferral that is early. -/
def Waiting (mark : T.Mark) (deadline : Nat) (items : List (Op.Staged T)) : Prop :=
  ∀ op ∈ items, Label.late ∈ op.labels → .defer (mark, .early) deadline ∈ op.leaves

namespace Waiting

open Op

variable {mark : T.Mark} {deadline : Nat} {items : List (Op.Staged T)}

theorem normalize {op : Op.Staged T} (hop : Ordered op)
    (hmem : .defer (mark, .early) deadline ∈ op.leaves) : Waiting mark deadline op.normalize := by
  intro x hx hlate
  rw [← leaves_normalize] at hmem
  obtain ⟨y, hy, hmem⟩ := List.mem_flatMap.mp hmem
  have hearly : Label.early ∈ y.labels := mem_map_of_mem hmem
  have heq : x = y := by
    by_contra hne
    have hapart : Apart x y := (normalize_ordered hop).2.forall hx hy hne
    exact hapart.1 hlate hearly
  rwa [heq]

theorem step (h : Waiting mark deadline items) (hitems : Sequenced items) {i : Input T}
    (hnow : i.now < deadline) : Waiting mark deadline (step items i.labelled).1 := by
  unfold Vm.step
  split
  · exact h
  · rename_i op hop
    have hmem : op ∈ items := mem_of_getElem? hop
    have hstep := process_stepOf i.handler i.now (hitems.elems op hmem)
    have herase : Waiting mark deadline (items.eraseIdx i.item) :=
      fun x hx => h x ((eraseIdx_sublist items _).subset hx)
    show Waiting mark deadline (leave items i.item (op.process i.handler.labelled i.now).1)
    cases hres : (op.process i.handler.labelled i.now).1 with
    | error e => 
      cases e with
      | retry e => exact h
      | fatal e | unprocessable e => exact herase
    | ok r =>
      intro x hx hlate
      rcases List.mem_append.mp hx with hx | hx
      · exact herase x hx hlate
      · cases r with
        | none => cases hx
        | some r =>
          rw [requeue, Option.toList_some, flatMap_singleton] at hx
          obtain ⟨hordered, hlabels⟩ := hstep.result r hres
          have hop_late : Label.late ∈ op.labels := hlabels (labels_subset (leaves_normalize r) hx hlate)
          obtain ⟨r', hr', hkept⟩ := process_keeps_defer i.handler.labelled hnow (h op hmem hop_late) hres
          obtain rfl := Option.some.inj hr'
          exact Waiting.normalize hordered hkept x hx hlate

theorem trace (h : Waiting mark deadline items) (hitems : Sequenced items) {is : List (Input T)}
    (hnow : ∀ i ∈ is, i.now < deadline) :
    ∀ a ∈ trace items (is.map Input.labelled), a.label ≠ some .late := by
  induction is generalizing items with
  | nil => exact fun a ha => nomatch ha
  | cons i is ih =>
    intro a ha hlate
    obtain ⟨hi, his⟩ := List.forall_mem_cons.mp hnow
    rcases List.mem_append.mp ha with ha | ha
    · obtain ⟨hmem, hnone⟩ := hitems.step_actions i ha
      obtain ⟨op, hop, hl⟩ := hmem _ hlate
      exact hnone hlate op hop (mem_map_of_mem (h op hop hl))
    · exact ih (h.step hitems hi) (hitems.step i).1 his a ha hlate

end Waiting

/-! ## Where a `Seq` stands -/

namespace Ctx

open Op in
theorem apart_other (op : Op T) (x : Op.Staged T) : Apart (op.label .other) x := by
  constructor
  · intro hlate
    cases mem_labels_label hlate
  · intro _ hearly
    cases mem_labels_label hearly

open Op in
theorem elems_around (left right : List (Op T)) {x : Op.Staged T} (hx : Ordered x) :
    (∀ op ∈ left.map (Op.label Label.other) ++ x :: right.map (Op.label Label.other), Ordered op) ∧
      (left.map (Op.label Label.other) ++ x :: right.map (Op.label Label.other)).Pairwise Apart := by
  have hother : ∀ ops : List (Op T), ∀ op ∈ ops.map (Op.label Label.other), ∀ y, Apart op y := by
    intro ops op hop y
    obtain ⟨op, -, rfl⟩ := List.mem_map.mp hop
    exact apart_other op y
  have hordered : ∀ ops : List (Op T), ∀ op ∈ ops.map (Op.label Label.other), Ordered op :=
    fun ops op hop => ordered_of_not_mixed (hother ops op hop op).1
  constructor
  · intro op hop
    rcases List.mem_append.mp hop with hop | hop
    · exact hordered left op hop
    · rcases List.mem_cons.mp hop with rfl | hop
      · exact hx
      · exact hordered right op hop
  · refine List.pairwise_append.mpr ⟨?_, List.pairwise_cons.mpr ⟨?_, ?_⟩, ?_⟩
    · exact pairwise_of_forall_mem_list fun op hop y _ => hother left op hop y
    · exact fun op hop => (hother right op hop x).symm
    · exact pairwise_of_forall_mem_list fun op hop y _ => hother right op hop y
    · exact fun op hop y _ => hother left op hop y

open Op in
theorem fill_ordered (c : Ctx T) {x : Op.Staged T} (hx : Ordered x) :
    Ordered ((c.label Label.other).fill x) := by
  induction c with
  | hole => exact hx
  | seq left c right ih =>
    exact .seq (elems_around left right ih).1 ((elems_around left right ih).2.imp And.left)
  | conc left c right ih => exact .conc (elems_around left right ih).1 (elems_around left right ih).2
  | promise left c right ds k ih =>
    refine .promise _ (elems_around left right ih).1 (elems_around left right ih).2 ?_
    intro op _ _ hother
    cases hother
  | void c ih => exact .void ih

end Ctx

/-- The `Seq` of `before` and `after`, with a label each. -/
def Op.stagedSeq (before after : List (Op T)) : Op.Staged T :=
  .seq (before.map (Op.label .early) ++ after.map (Op.label .late))

/-- The queue `others` with an op around the `Seq`, enqueued. -/
def staged (others : List (Op T)) (c : Ctx T) (before after : List (Op T)) : List (Op.Staged T) :=
  others.map (Op.label .other) ++ ((c.label Label.other).fill (Op.stagedSeq before after)).normalize

theorem erase_staged (others : List (Op T)) (c : Ctx T) (before after : List (Op T)) :
    (staged others c before after).map Op.erase = others ++ (c.fill (.seq (before ++ after))).normalize := by
  have hseq : (Op.stagedSeq before after).erase = .seq (before ++ after) := by
    rw [Op.stagedSeq, Op.erase, Op.eraseList_eq, map_append, Ctx.map_erase_label, Ctx.map_erase_label]
  rw [staged, map_append, Ctx.map_erase_label, ← Op.normalize_erase, Ctx.erase_fill, hseq]

open Op in
theorem stagedSeq_ordered (before after : List (Op T)) : Ordered (stagedSeq before after) := by
  have hlabel : ∀ (l : Label) (ops : List (Op T)), ∀ op ∈ ops.map (Op.label l), ∀ l' ∈ op.labels, l' = l := by
    intro l ops op hop l' hl'
    obtain ⟨op, -, rfl⟩ := List.mem_map.mp hop
    exact mem_labels_label hl'
  have hearly : ∀ op ∈ before.map (Op.label Label.early), Label.late ∉ op.labels :=
    fun op hop hl => nomatch hlabel .early before op hop _ hl
  have hlate : ∀ op ∈ after.map (Op.label Label.late), Label.early ∉ op.labels :=
    fun op hop hl => nomatch hlabel .late after op hop _ hl
  refine .seq ?_ (List.pairwise_append.mpr ⟨?_, ?_, ?_⟩)
  · intro op hop
    rcases List.mem_append.mp hop with hop | hop
    · exact ordered_of_not_mixed fun hl => (hearly op hop hl).elim
    · exact ordered_of_not_mixed fun _ => hlate op hop
  · exact pairwise_of_forall_mem_list fun x hx y _ hl => (hearly x hx hl).elim
  · exact pairwise_of_forall_mem_list fun x _ y hy _ => hlate y hy
  · exact fun x hx y _ hl => (hearly x hx hl).elim

open Op in
theorem staged_sequenced (others : List (Op T)) (c : Ctx T) (before after : List (Op T)) :
    Sequenced (staged others c before after) := by
  obtain ⟨helems, hapart⟩ := normalize_ordered (c.fill_ordered (stagedSeq_ordered before after))
  refine ⟨?_, List.pairwise_append.mpr ⟨?_, hapart, ?_⟩⟩
  · intro op hop
    rcases List.mem_append.mp hop with hop | hop
    · obtain ⟨op, -, rfl⟩ := List.mem_map.mp hop
      exact ordered_of_not_mixed (Ctx.apart_other op _).1
    · exact helems op hop
  · refine pairwise_of_forall_mem_list fun x hx y _ => ?_
    obtain ⟨x, -, rfl⟩ := List.mem_map.mp hx
    exact Ctx.apart_other x y
  · intro x hx y _
    obtain ⟨x, -, rfl⟩ := List.mem_map.mp hx
    exact Ctx.apart_other x y

open Op in
theorem staged_waiting (others : List (Op T)) (c : Ctx T) (mark : T.Mark) (deadline : Nat)
    (after : List (Op T)) :
    Waiting mark deadline (staged others c [.defer mark deadline] after) := by
  intro op hop hlate
  rcases List.mem_append.mp hop with hop | hop
  · obtain ⟨op, -, rfl⟩ := List.mem_map.mp hop
    cases mem_labels_label hlate
  · refine Waiting.normalize (c.fill_ordered (stagedSeq_ordered _ after)) (Ctx.leaves_fill _ ?_) op hop hlate
    exact mem_cons_self

/-- **Sequencing is respected.**  Split a `Seq` at any place of an op anywhere, and label what stems
    from its first part `early` and from its second `late`: what is late is done only in states
    without anything early, and while a `Defer` at its front waits, nothing of the rest is. -/
theorem seq_respected (others : List (Op T)) (c : Ctx T) (before after : List (Op T)) (is : List (Input T)) :
    let items := staged others c before after
    let js := is.map Input.labelled
    (trace (others ++ (c.fill (.seq (before ++ after))).normalize) is = (trace items js).map Action.erase ∧
      run (others ++ (c.fill (.seq (before ++ after))).normalize) is = (run items js).map Op.erase) ∧
    (∀ past i rest, is = past ++ i :: rest → ∀ a ∈ (step (run items (past.map Input.labelled)) i.labelled).2,
      a.label = some .late → ∀ op ∈ run items (past.map Input.labelled), Label.early ∉ op.labels) ∧
    (trace items js).Pairwise (fun a b => a.label = some .late → b.label ≠ some .early) ∧
    (∀ mark deadline, before = [.defer mark deadline] → (∀ i ∈ is, i.now < deadline) →
      ∀ a ∈ trace items js, a.label ≠ some .late) := by
  intro items js
  have hitems : Sequenced items := staged_sequenced others c before after
  have herase := run_erase Op.erase_label items is
  rw [erase_staged] at herase
  refine ⟨⟨herase.2, herase.1⟩, ?_, hitems.trace_pairwise is, ?_⟩
  · intro past i rest _ a ha
    exact ((hitems.run past).step_actions i ha).2
  · rintro mark deadline rfl hnow
    exact (staged_waiting others c mark deadline after).trace hitems hnow

example : ((trace (staged (T := Sample.Msg) [] .hole [.call 0] [.call 1])
    ([⟨0, 0, Sample.echo⟩, ⟨1, 0, Sample.echo⟩].map Input.labelled)).map Action.label) =
      [some .early, some .late] := rfl

end UnionVoyager.Vm
