import UnionVoyager.Vm.Engine
import Mathlib.Data.List.TakeWhile

/-!
# What an op asks for

* `leaves` — the calls, callbacks and deferrals of an op, at any depth; `labels` — their labels.
* `leaves_go`, `leaves_normalize` — normalizing keeps them, in their order.
* `process_keeps_defer` — a step before the deadline of a deferral leaves it in place.
* `process_labels` — what a step leaves and does has labels as before.
-/

namespace UnionVoyager.Vm

open List (flatMap_append map_append map_cons mem_append mem_cons_self nil_append)

variable {T : QueueMessage} {L : Type}

/-! ## What an op asks for -/

/-- A call, a callback or a deferral of an op, at any depth. -/
inductive Leaf (T : QueueMessage) where
  | call (call : T.Call)
  | callback (receiver : T.Callback)
  | defer (mark : T.Mark) (deadline : Nat)
  | deferRelative (mark : T.Mark) (secs : Nat)

def Leaf.label : Leaf (T.labelled L) → L
  | .call c => c.2
  | .callback k => k.2
  | .defer mark _ => mark.2
  | .deferRelative mark _ => mark.2

/-- The label of what was called, called back or checked. -/
def Action.label : Action (T.labelled L) → Option L
  | .call c _ => some c.2
  | .callback k _ _ => some k.2
  | .defer mark _ => some mark.2
  | .deferRelative mark _ => some mark.2
  | .drop _ => none

variable {op : Op T}

namespace Op

mutual
def leaves : Op T → List (Leaf T)
  | .data _ => []
  | .call c => [.call c]
  | .defer mark deadline => [.defer mark deadline]
  | .deferRelative mark secs => [.deferRelative mark secs]
  | .seq queue => leavesList queue
  | .conc queue => leavesList queue
  | .promise queue _ receiver => leavesList queue ++ [.callback receiver]
  | .void op => leaves op
  | .noop => []
def leavesList : List (Op T) → List (Leaf T)
  | [] => []
  | op :: queue => leaves op ++ leavesList queue
end

attribute [local grind =] leaves

theorem leavesList_eq (queue : List (Op T)) : leavesList queue = queue.flatMap leaves := by
  induction queue with
  | nil => rfl
  | cons op queue ih => rw [leavesList, ih, List.flatMap_cons]

theorem leaves_of_isData (h : op.isData = true) : op.leaves = [] := by
  cases op with
  | data d => rfl
  | _ => cases h

theorem leaves_seqElems (op : Op T) : op.seqElems.flatMap leaves = op.leaves := by
  cases op <;> simp [seqElems, leaves, leavesList_eq]

theorem leaves_concElems (op : Op T) : op.concElems.flatMap leaves = op.leaves := by
  cases op <;> simp [concElems, leaves, leavesList_eq]

theorem leaves_flatMap {f : Op T → List (Op T)} (ops : List (Op T))
    (h : ∀ op ∈ ops, (f op).flatMap leaves = op.leaves) :
      (ops.flatMap f).flatMap leaves = ops.flatMap leaves := by
  rw [List.flatMap_assoc]
  exact List.flatMap_congr h

theorem leaves_data {ops : List (Op T)} (h : ∀ op ∈ ops, op.isData = true) : ops.flatMap leaves = [] :=
  List.flatMap_eq_nil_iff.mpr fun op hop => leaves_of_isData (h op hop)

theorem leaves_filter (ops : List (Op T)) : (ops.filter (!isData ·)).flatMap leaves = ops.flatMap leaves := by
  induction ops with
  | nil => rfl
  | cons op ops ih =>
    rw [List.filter_cons]
    cases hop : op.isData with
    | true => simpa [leaves_of_isData hop] using ih
    | false => simpa using ih

theorem isData_of_mem_takeWhile {ops : List (Op T)} (h : op ∈ ops.takeWhile isData) : op.isData = true :=
  List.mem_takeWhile_imp h

theorem leaves_normalizeSeq (ops : List (Op T)) : (normalizeSeq ops).flatMap leaves = ops.flatMap leaves := by
  have hsplit : (ops.dropWhile isData).flatMap leaves = ops.flatMap leaves := by
    conv_rhs => rw [← List.takeWhile_append_dropWhile (p := isData) (l := ops)]
    rw [flatMap_append, leaves_data fun op => isData_of_mem_takeWhile, nil_append]
  rcases ops with _ | ⟨a, _ | ⟨b, rest⟩⟩
  · rfl
  · rfl
  · simp only [normalizeSeq]
    split
    · rename_i hempty
      rw [List.isEmpty_iff.mp hempty] at hsplit
      rw [← hsplit, leaves_data fun op => isData_of_mem_takeWhile]
      rfl
    · rw [flatMap_append, leaves_data fun op => isData_of_mem_takeWhile, nil_append,
        List.flatMap_singleton,
        leaves, leavesList_eq, leaves_flatMap _ fun op _ => leaves_seqElems op, hsplit]

theorem leaves_packConc (ops : List (Op T)) : (packConc ops).flatMap leaves = ops.flatMap leaves := by
  rcases ops with _ | ⟨a, _ | ⟨b, rest⟩⟩
  · rfl
  · rfl
  · rw [packConc, List.flatMap_singleton, leaves, leavesList_eq]
    · exact fun h => by cases h
    · exact fun _ h => by cases h

theorem leaves_normalizeConc (ops : List (Op T)) :
    (normalizeConc ops).flatMap leaves = ops.flatMap leaves := by
  have hdata : ((ops.flatMap concElems).filter isData).flatMap leaves = [] :=
    leaves_data fun op hop => (List.mem_filter.mp hop).2
  rw [normalizeConc, flatMap_append, hdata, nil_append, leaves_packConc, leaves_filter,
    leaves_flatMap _ fun op _ => leaves_concElems op]

theorem leaves_go (op : Op T) : (go op).flatMap leaves = op.leaves := by
  induction op using Op.elemInduct with
  | seq q ih => rw [go, leaves_normalizeSeq, goList_eq, leaves, leavesList_eq, leaves_flatMap q ih]
  | conc q ih => rw [go, leaves_normalizeConc, goList_eq, leaves, leavesList_eq, leaves_flatMap q ih]
  | promise q ds k ih =>
    rw [go, List.flatMap_singleton, leaves, leaves, leavesList_eq, leavesList_eq, goList_eq,
      leaves_flatMap q ih]
  | noop => rfl
  | data | call | defer | deferRelative | void => exact List.flatMap_singleton ..

theorem leaves_collect (queue : List (Op T)) (ds : List T.Data) (receiver : T.Callback) (r : Option (Op T)) :
    (collect queue ds receiver r).leaves = leavesList queue ++ r.toList.flatMap leaves ++
      [.callback receiver] := by
  rcases r with _ | r
  · simp [collect, leaves]
  · cases r <;> simp [collect, leaves, leavesList_eq]

theorem leaves_voidOf (op : Op T) : (voidOf op).leaves = op.leaves := by
  cases op <;> rfl

theorem process_keeps_defer (h : Handler T) {now deadline : Nat} {mark : T.Mark} (hnow : now < deadline)
    (hmem : .defer mark deadline ∈ op.leaves) {r : Option (Op T)} (hok : (op.process h now).1 = .ok r) :
    ∃ r', r = some r' ∧ .defer mark deadline ∈ r'.leaves := by
  induction op using Op.frontInduct generalizing r with
  | data d | noop | seqNil | concNil => cases hmem
  | call c | deferRelative m s | promiseNil ds k => exact nomatch List.mem_singleton.mp hmem
  | defer m t =>
    obtain ⟨rfl, rfl⟩ := Leaf.defer.inj (List.mem_singleton.mp hmem)
    refine ⟨.defer mark deadline, ?_, List.mem_singleton_self _⟩
    simpa only [process, if_pos hnow, Except.ok.injEq] using hok.symm
  | seqCons op q ih =>
    obtain ⟨r', hr', rfl⟩ := Outcome.within_eq_ok hok
    refine ⟨_, rfl, ?_⟩
    rw [leaves, leavesList, mem_append] at hmem
    rw [leaves, leavesList_eq, flatMap_append, mem_append]
    rcases hmem with hmem | hmem
    · obtain ⟨r'', rfl, hmem⟩ := ih hmem hr'
      exact .inl (by simpa using hmem)
    · exact .inr (leavesList_eq q ▸ hmem)
  | concCons op q ih =>
    obtain ⟨r', hr', rfl⟩ := Outcome.within_eq_ok hok
    refine ⟨_, rfl, ?_⟩
    rw [leaves, leavesList, mem_append] at hmem
    rw [leaves, leavesList_eq, flatMap_append, mem_append]
    rcases hmem with hmem | hmem
    · obtain ⟨r'', rfl, hmem⟩ := ih hmem hr'
      exact .inr (by simpa using hmem)
    · exact .inl (leavesList_eq q ▸ hmem)
  | promiseData d q ds k =>
    obtain rfl := Except.ok.inj hok
    exact ⟨_, rfl, hmem⟩
  | promiseCons op q ds k hdata ih =>
    rw [process_promise_cons h now hdata] at hok
    obtain ⟨r', hr', rfl⟩ := Outcome.within_eq_ok hok
    refine ⟨_, rfl, ?_⟩
    rw [leaves, leavesList, mem_append, mem_append] at hmem
    rw [leaves_collect, mem_append, mem_append]
    rcases hmem with (hmem | hmem) | hmem
    · obtain ⟨r'', rfl, hmem⟩ := ih hmem hr'
      exact .inl (.inr (by simpa using hmem))
    · exact .inl (.inl hmem)
    · exact .inr hmem
  | void op ih =>
    obtain ⟨r', hr', rfl⟩ := void_eq_ok hok
    obtain ⟨r'', rfl, hmem⟩ := ih hmem hr'
    exact ⟨voidOf r'', rfl, (leaves_voidOf r'').symm ▸ hmem⟩

theorem leaves_normalize (op : Op T) : op.normalize.flatMap leaves = op.leaves := by
  rw [normalize, leaves_flatMap _ fun op _ => leaves_concElems op, leaves_go]

/-! ## Labels of an op -/

def labels (op : Op (T.labelled L)) : List L := op.leaves.map Leaf.label

variable {queue : List (Op (T.labelled L))} {l : L}

theorem mem_labels_list : l ∈ (leavesList queue).map Leaf.label ↔ ∃ op ∈ queue, l ∈ op.labels := by
  simp only [leavesList_eq, labels, List.mem_map, List.mem_flatMap]
  constructor
  · rintro ⟨leaf, ⟨op, hop, hleaf⟩, rfl⟩
    exact ⟨op, hop, leaf, hleaf, rfl⟩
  · rintro ⟨op, hop, leaf, hleaf, rfl⟩
    exact ⟨leaf, ⟨op, hop, hleaf⟩, rfl⟩

@[simp] theorem mem_labels_seq : l ∈ (seq queue).labels ↔ ∃ op ∈ queue, l ∈ op.labels := mem_labels_list

@[simp] theorem mem_labels_conc : l ∈ (conc queue).labels ↔ ∃ op ∈ queue, l ∈ op.labels := mem_labels_list

@[simp] theorem mem_labels_promise {ds : List T.Data} {k : T.Callback × L} :
    l ∈ (promise queue ds k).labels ↔ (∃ op ∈ queue, l ∈ op.labels) ∨ l = k.2 := by
  rw [← mem_labels_list, labels, leaves, map_append, mem_append]
  exact or_congr Iff.rfl List.mem_singleton

theorem mem_labels_collect {ds : List T.Data} {k : T.Callback × L} {r : Option (Op (T.labelled L))} :
    l ∈ (collect queue ds k r).labels ↔ (∃ op ∈ queue ++ r.toList, l ∈ op.labels) ∨ l = k.2 := by
  rw [← mem_labels_list, leavesList_eq, flatMap_append, ←
    leavesList_eq, labels, leaves_collect, map_append, mem_append]
  exact or_congr Iff.rfl List.mem_singleton

theorem labels_of_isData {op : Op (T.labelled L)} (h : op.isData = true) : op.labels = [] := by
  rw [labels, leaves_of_isData h]
  rfl

theorem labels_subset {op : Op (T.labelled L)} {ops : List (Op (T.labelled L))}
    (h : ops.flatMap leaves = op.leaves) {x : Op (T.labelled L)} (hx : x ∈ ops) : x.labels ⊆ op.labels := by
  intro l hl
  obtain ⟨leaf, hleaf, rfl⟩ := List.mem_map.mp hl
  exact List.mem_map_of_mem (h ▸ List.mem_flatMap.mpr ⟨x, hx, hleaf⟩)

theorem mem_labels_label {l' : L} (h : l' ∈ (op.label l).labels) : l' = l := by
  induction op using Op.elemInduct with
  | data d | noop => cases h
  | call c | defer m t | deferRelative m s => exact List.mem_singleton.mp h
  | seq q ih =>
    rw [label, mem_labels_seq, labelList_eq] at h
    obtain ⟨op, hop, hl⟩ := h
    obtain ⟨op', hop', rfl⟩ := List.mem_map.mp hop
    exact ih op' hop' hl
  | conc q ih =>
    rw [label, mem_labels_conc, labelList_eq] at h
    obtain ⟨op, hop, hl⟩ := h
    obtain ⟨op', hop', rfl⟩ := List.mem_map.mp hop
    exact ih op' hop' hl
  | promise q ds k ih =>
    rw [label, mem_labels_promise, labelList_eq] at h
    rcases h with ⟨op, hop, hl⟩ | hk
    · obtain ⟨op', hop', rfl⟩ := List.mem_map.mp hop
      exact ih op' hop' hl
    · exact hk
  | void op ih => exact ih h

theorem process_labels {mark : L → Op T → Op (T.labelled L)} {P : L → Prop}
    (hmark : ∀ l, P l → ∀ op, ∀ l' ∈ (mark l op).labels, P l') (h : Handler T) (now : Nat)
    {op : Op (T.labelled L)} (hop : ∀ l ∈ op.labels, P l) :
    (∀ r, (op.process (h.marked mark) now).1 = .ok (some r) → ∀ l ∈ r.labels, P l) ∧
      ∀ a ∈ (op.process (h.marked mark) now).2, ∀ l, a.label = some l → P l := by
  have hans : ∀ (l : L) (res : Except QueueError (Op T)), P l → ∀ r,
      (res.map (mark l)).map some = .ok (some r) → ∀ l' ∈ r.labels, P l' := by
    intro l res hl r hr
    cases res with
    | error e => cases hr
    | ok op =>
      rw [← Option.some.inj (Except.ok.inj hr)]
      exact hmark l hl op
  induction op using Op.frontInduct with
  | data d => exact ⟨fun r hr => (by cases hr), List.forall_mem_singleton.mpr fun l hl => (by cases hl)⟩
  | seqNil | concNil | noop => exact ⟨fun r hr => (by cases hr), fun a ha => (by cases ha)⟩
  | call c =>
    have hc := List.forall_mem_singleton.mp hop
    exact ⟨hans c.2 (h.call c.1) hc, List.forall_mem_singleton.mpr fun l hl => Option.some.inj hl ▸ hc⟩
  | promiseNil ds k =>
    have hk := List.forall_mem_singleton.mp hop
    exact ⟨hans k.2 (h.callback k.1 ds) hk, List.forall_mem_singleton.mpr fun l hl => Option.some.inj hl ▸ hk⟩
  | defer m t =>
    have hm := List.forall_mem_singleton.mp hop
    refine ⟨?_, List.forall_mem_singleton.mpr fun l hl => Option.some.inj hl ▸ hm⟩
    intro r hr
    rw [process] at hr
    split at hr
    · obtain rfl := Option.some.inj (Except.ok.inj hr)
      exact hop
    · cases Except.ok.inj hr
  | deferRelative m s =>
    have hm := List.forall_mem_singleton.mp hop
    refine ⟨?_, List.forall_mem_singleton.mpr fun l hl => Option.some.inj hl ▸ hm⟩
    intro r hr
    obtain rfl := Option.some.inj (Except.ok.inj hr)
    exact hop
  | seqCons op q ih =>
    obtain ⟨hres, hact⟩ := ih fun l hl => hop l (mem_labels_seq.mpr ⟨op, mem_cons_self, hl⟩)
    refine ⟨?_, hact⟩
    intro r hr l hl
    obtain ⟨r', hr', heq⟩ := Outcome.within_eq_ok hr
    rw [Option.some.inj heq] at hl
    obtain ⟨x, hx, hl⟩ := mem_labels_seq.mp hl
    rcases List.mem_append.mp hx with hx | hx
    · exact hres x (Option.mem_toList.mp hx ▸ hr') l hl
    · exact hop l (mem_labels_seq.mpr ⟨x, List.mem_cons_of_mem op hx, hl⟩)
  | concCons op q ih =>
    obtain ⟨hres, hact⟩ := ih fun l hl => hop l (mem_labels_conc.mpr ⟨op, mem_cons_self, hl⟩)
    refine ⟨?_, hact⟩
    intro r hr l hl
    obtain ⟨r', hr', heq⟩ := Outcome.within_eq_ok hr
    rw [Option.some.inj heq] at hl
    obtain ⟨x, hx, hl⟩ := mem_labels_conc.mp hl
    rcases List.mem_append.mp hx with hx | hx
    · exact hop l (mem_labels_conc.mpr ⟨x, List.mem_cons_of_mem op hx, hl⟩)
    · exact hres x (Option.mem_toList.mp hx ▸ hr') l hl
  | promiseData d q ds k =>
    refine ⟨?_, fun a ha => (by cases ha)⟩
    intro r hr
    obtain rfl := Option.some.inj (Except.ok.inj hr)
    exact hop
  | promiseCons op q ds k hdata ih =>
    obtain ⟨hres, hact⟩ := ih fun l hl => hop l (mem_labels_promise.mpr (.inl ⟨op, mem_cons_self, hl⟩))
    rw [process_promise_cons _ now hdata]
    refine ⟨?_, hact⟩
    intro r hr l hl
    obtain ⟨r', hr', heq⟩ := Outcome.within_eq_ok hr
    rw [Option.some.inj heq] at hl
    rcases mem_labels_collect.mp hl with ⟨x, hx, hl⟩ | hl
    · rcases List.mem_append.mp hx with hx | hx
      · exact hop l (mem_labels_promise.mpr (.inl ⟨x, List.mem_cons_of_mem op hx, hl⟩))
      · exact hres x (Option.mem_toList.mp hx ▸ hr') l hl
    · exact hop l (mem_labels_promise.mpr (.inr hl))
  | void op ih =>
    obtain ⟨hres, hact⟩ := ih hop
    refine ⟨?_, hact⟩
    intro r hr l hl
    obtain ⟨r', hr', heq⟩ := void_eq_ok hr
    obtain ⟨r'', rfl, rfl⟩ := Option.map_eq_some_iff.mp heq.symm
    rw [labels, leaves_voidOf] at hl
    exact hres r'' hr' l hl

end Op

/-! ## The places of an op -/

/-- An op with a hole. -/
inductive Ctx (T : QueueMessage) where
  | hole
  | seq (left : List (Op T)) (ctx : Ctx T) (right : List (Op T))
  | conc (left : List (Op T)) (ctx : Ctx T) (right : List (Op T))
  | promise (left : List (Op T)) (ctx : Ctx T) (right : List (Op T)) (data : List T.Data)
      (receiver : T.Callback)
  | void (ctx : Ctx T)

namespace Ctx

def fill : Ctx T → Op T → Op T
  | hole, op => op
  | seq left ctx right, op => .seq (left ++ ctx.fill op :: right)
  | conc left ctx right, op => .conc (left ++ ctx.fill op :: right)
  | promise left ctx right ds receiver, op => .promise (left ++ ctx.fill op :: right) ds receiver
  | void ctx, op => .void (ctx.fill op)

def label (l : L) : Ctx T → Ctx (T.labelled L)
  | hole => .hole
  | seq left ctx right => .seq (left.map (Op.label l)) (ctx.label l) (right.map (Op.label l))
  | conc left ctx right => .conc (left.map (Op.label l)) (ctx.label l) (right.map (Op.label l))
  | promise left ctx right ds receiver =>
    .promise (left.map (Op.label l)) (ctx.label l) (right.map (Op.label l)) ds (receiver, l)
  | void ctx => .void (ctx.label l)

theorem map_erase_label (l : L) (ops : List (Op T)) : (ops.map (Op.label l)).map Op.erase = ops := by
  rw [List.map_map]
  exact (List.map_congr_left fun op _ => Op.erase_label l op).trans (List.map_id ops)

theorem erase_fill (l : L) (c : Ctx T) (op : Op (T.labelled L)) :
    ((c.label l).fill op).erase = c.fill op.erase := by
  induction c with
  | hole => rfl
  | seq left c right ih =>
    simp only [label, fill, Op.erase, Op.eraseList_eq, map_append, map_cons, map_erase_label, ih]
  | conc left c right ih =>
    simp only [label, fill, Op.erase, Op.eraseList_eq, map_append, map_cons, map_erase_label, ih]
  | promise left c right ds k ih =>
    simp only [label, fill, Op.erase, Op.eraseList_eq, map_append, map_cons, map_erase_label, ih]
  | void c ih => exact congrArg Op.void ih

open Op in
theorem leaves_fill (c : Ctx T) {leaf : Leaf T} (h : leaf ∈ op.leaves) : leaf ∈ (c.fill op).leaves := by
  have hqueue : ∀ (left right : List (Op T)) (x : Op T), leaf ∈ x.leaves →
      leaf ∈ leavesList (left ++ x :: right) := by
    intro left right x hx
    rw [leavesList_eq]
    exact List.mem_flatMap.mpr ⟨x, List.mem_append_right _ mem_cons_self, hx⟩
  induction c with
  | hole => exact h
  | seq left c right ih => exact hqueue left right _ ih
  | conc left c right ih => exact hqueue left right _ ih
  | promise left c right ds k ih => exact List.mem_append_left _ (hqueue left right _ ih)
  | void c ih => exact ih

end Ctx

end UnionVoyager.Vm
