import UnionVoyager.Vm.Labels
import UnionVoyager.Vm.Normal
import UnionVoyager.Vm.Precedence
import Mathlib.Data.Multiset.OrderedMonoid

/-!
# The data of a promise

One promise is watched through a run: its callback is labelled `callback`, and `queue` is the label
of the calls and callbacks that run for its queue.

* `dataOf` — the data of an op at any nesting of `Seq` and `Conc`; `dataOfList_go`: normalizing keeps it.
* `normalize_holds` — normalizing keeps what the promise holds.
-/

namespace UnionVoyager.Vm

open Lib List

variable {T : QueueMessage} {L : Type}

/-! ## Data -/

namespace Op

mutual
def dataOf : Op T → Multiset T.Data
  | .data d => {d}
  | .call _ => 0
  | .defer _ _ => 0
  | .deferRelative _ _ => 0
  | .seq queue => dataOfList queue
  | .conc queue => dataOfList queue
  | .promise _ _ _ => 0
  | .void _ => 0
  | .noop => 0
def dataOfList : List (Op T) → Multiset T.Data
  | [] => 0
  | op :: queue => dataOf op + dataOfList queue
end

attribute [local grind =] dataOfList

theorem dataOfList_eq (ops : List (Op T)) : dataOfList ops = (ops.map dataOf).sum := by
  induction ops with
  | nil => rfl
  | cons op ops ih => rw [dataOfList, ih, map_cons, sum_cons]

theorem dataOfList_append (ops ops' : List (Op T)) :
    dataOfList (ops ++ ops') = dataOfList ops + dataOfList ops' := by
  simp only [dataOfList_eq, map_append, sum_append]

theorem dataOfList_flatMap {f : Op T → List (Op T)} (ops : List (Op T))
    (h : ∀ op ∈ ops, dataOfList (f op) = dataOf op) : dataOfList (ops.flatMap f) = dataOfList ops := by
  induction ops with
  | nil => rfl
  | cons op ops ih =>
    obtain ⟨hop, hops⟩ := List.forall_mem_cons.mp h
    rw [flatMap_cons, dataOfList_append, hop, ih hops, dataOfList]

theorem dataOfList_singleton (op : Op T) : dataOfList [op] = op.dataOf := add_zero _

theorem dataOfList_leafOps {f : Op T → Op T} (hf : ∀ op, dataOf (f op) = dataOf op) (op : Op T) :
    dataOfList (leafOps f op) = op.dataOf := by
  induction op using Op.elemInduct with
  | seq q ih | conc q ih => rw [leafOps, leafOpsList_eq, dataOf, dataOfList_flatMap q ih]
  | noop => rfl
  | data | call | defer | deferRelative | promise | void => exact (dataOfList_singleton _).trans (hf _)

theorem dataOfList_go (op : Op T) : dataOfList (go op) = op.dataOf := by
  have hid : dataOfList (leafOpsList id (go op)) = dataOfList (go op) := by
    rw [leafOpsList_eq, dataOfList_flatMap _ fun op _ => dataOfList_leafOps (f := id) (fun _ => rfl) op]
  have hperm := ((leafOps_go op).map dataOf).sum_eq
  rw [← hid, dataOfList_eq, hperm, ← dataOfList_eq]
  exact dataOfList_leafOps (fun op => by cases op with | _ => rfl) op

end Op

/-! ## The watched promise -/

/-- What something is to the watched promise. -/
inductive Role where
  | callback
  | queue
  | other
  deriving DecidableEq

namespace Op

/-! The roles in an op whose data goes to the promise: a nested promise collects the data of its own
    queue, and only its callback returns data to the promise that is watched; a `Void` returns none.
    -/

mutual
def forQueue : Op T → Op (T.labelled Role)
  | .data d => .data d
  | .call c => .call (c, .queue)
  | .defer mark deadline => .defer (mark, .other) deadline
  | .deferRelative mark secs => .deferRelative (mark, .other) secs
  | .seq queue => .seq (forQueueList queue)
  | .conc queue => .conc (forQueueList queue)
  | .promise queue ds receiver => .promise (queue.map (label .other)) ds (receiver, .queue)
  | .void op => .void (label .other op)
  | .noop => .noop
def forQueueList : List (Op T) → List (Op (T.labelled Role))
  | [] => []
  | op :: queue => forQueue op :: forQueueList queue
end

theorem forQueueList_eq (queue : List (Op T)) : forQueueList queue = queue.map forQueue := by
  induction queue with
  | nil => rfl
  | cons op queue ih => rw [forQueueList, ih, map_cons]

theorem erase_forQueueList (queue : List (Op T)) (h : ∀ op ∈ queue, op.forQueue.erase = op) :
    eraseList (forQueueList queue) = queue := by
  rw [forQueueList_eq, eraseList_eq, map_map]
  exact (map_congr_left h).trans (map_id queue)

theorem erase_forQueue (op : Op T) : op.forQueue.erase = op := by
  induction op using Op.elemInduct with
  | seq q ih => exact congrArg Op.seq (erase_forQueueList q ih)
  | conc q ih => exact congrArg Op.conc (erase_forQueueList q ih)
  | promise q ds k ih =>
    rw [forQueue, erase, eraseList_eq, Ctx.map_erase_label]
  | void op ih => exact congrArg Op.void (erase_label Role.other op)
  | data | call | defer | deferRelative | noop => rfl

/-- Nothing in the op has to do with the promise. -/
def Clean (op : Op (T.labelled Role)) : Prop := ∀ l ∈ op.labels, l = .other

/-- An op whose data goes to the promise. -/
inductive Nest : Op (T.labelled Role) → Prop
  | data (d : T.Data) : Nest (.data d)
  | call (c : T.Call) : Nest (.call (c, .queue))
  | defer (mark : T.Mark) (deadline : Nat) : Nest (.defer (mark, .other) deadline)
  | deferRelative (mark : T.Mark) (secs : Nat) : Nest (.deferRelative (mark, .other) secs)
  | seq {queue : List (Op (T.labelled Role))} (elems : ∀ op ∈ queue, Nest op) : Nest (.seq queue)
  | conc {queue : List (Op (T.labelled Role))} (elems : ∀ op ∈ queue, Nest op) : Nest (.conc queue)
  | promise {queue : List (Op (T.labelled Role))} (clean : ∀ op ∈ queue, Clean op) (ds : List T.Data)
      (receiver : T.Callback) : Nest (.promise queue ds (receiver, .queue))
  | void {op : Op (T.labelled Role)} (clean : Clean op) : Nest (.void op)
  | noop : Nest .noop

mutual
/-- The op has the promise in it, once, and its callback will get the data `m` if nothing is dropped. -/
def Holds (m : Multiset T.Data) : Op (T.labelled Role) → Prop
  | .data _ => False
  | .call _ => False
  | .defer _ _ => False
  | .deferRelative _ _ => False
  | .seq queue => HoldsOne m queue
  | .conc queue => HoldsOne m queue
  | .promise queue ds receiver =>
    (receiver.2 = .callback ∧ (∀ op ∈ queue, Nest op) ∧ (ds : Multiset T.Data) + dataOfList queue = m) ∨
      (receiver.2 = .other ∧ HoldsOne m queue)
  | .void op => Holds m op
  | .noop => False
def HoldsOne (m : Multiset T.Data) : List (Op (T.labelled Role)) → Prop
  | [] => False
  | op :: queue => (Holds m op ∧ ∀ x ∈ queue, Clean x) ∨ (Clean op ∧ HoldsOne m queue)
end

attribute [local grind =] HoldsOne

/-- The data that the next step of an op drops, in a queue whose data is collected. -/
def dropped : Op T → Multiset T.Data
  | .data d => {d}
  | .seq (op :: _) => dropped op
  | .conc (op :: _) => dropped op
  | _ => 0

theorem dropped_of_normal {op : Op T} (h : Normal op) (hdata : op.isData = false) : op.dropped = 0 := by
  induction op using Op.frontInduct with
  | data d => cases hdata
  | seqCons op q ih =>
    cases h with
    | seq front elems => exact ih (elems op mem_cons_self) front
  | concCons op q ih =>
    cases h with
    | conc noData elems => exact ih (elems op mem_cons_self) (noData op mem_cons_self)
  | call | defer | deferRelative | seqNil | concNil | promiseNil | promiseData | promiseCons | void
      | noop => rfl

/-- The data that the next step of an op drops out of the queue of the promise: only data at the
    front of the queue itself is collected. -/
def lost : Op (T.labelled Role) → Multiset T.Data
  | .seq (op :: _) => lost op
  | .conc (op :: _) => lost op
  | .promise (op :: _) _ receiver =>
    if receiver.2 = .callback then (if op.isData then 0 else dropped (T := T.labelled Role) op) else lost op
  | .void op => lost op
  | _ => 0

end Op

/-- The role of what a handler returns. -/
def Role.mark : Role → Op T → Op (T.labelled Role)
  | .queue => Op.forQueue
  | _ => Op.label .other

theorem erase_mark (l : Role) (op : Op T) : (l.mark op).erase = op := by
  cases l with
  | queue => exact Op.erase_forQueue op
  | callback | other => exact Op.erase_label Role.other op

def dataOfAnswer : Except QueueError (Op T) → Multiset T.Data
  | .ok op => op.dataOf
  | .error _ => 0

/-- The data that a call or a callback of the queue returned. -/
def Action.gained : Action (T.labelled Role) → Multiset T.Data
  | .call (_, .queue) res => dataOfAnswer (T := T.labelled Role) res
  | .callback (_, .queue) _ res => dataOfAnswer (T := T.labelled Role) res
  | _ => 0

def gained : List (Action (T.labelled Role)) → Multiset T.Data
  | [] => 0
  | a :: actions => a.gained + gained actions

/-! ## Queues that hold the promise -/

namespace Op

variable {op x : Op (T.labelled Role)} {queue : List (Op (T.labelled Role))}

theorem clean_of_mem_go (h : Clean op) (hx : x ∈ go op) : Clean x :=
  fun l hl => h l (labels_subset (leaves_go op) hx hl)

theorem clean_of_isData (h : op.isData = true) : Clean op := by
  intro l hl
  rw [labels_of_isData h] at hl
  cases hl

theorem clean_seq (h : ∀ op ∈ queue, Clean op) : Clean (.seq queue) := by
  intro l hl
  obtain ⟨op, hop, hl⟩ := mem_labels_seq.mp hl
  exact h op hop l hl

theorem clean_conc (h : ∀ op ∈ queue, Clean op) : Clean (.conc queue) := by
  intro l hl
  obtain ⟨op, hop, hl⟩ := mem_labels_conc.mp hl
  exact h op hop l hl

theorem clean_label (op : Op T) : Clean (op.label Role.other) := fun _ hl => mem_labels_label hl

variable {m : Multiset T.Data}

theorem Holds.not_isData (h : Holds m op) : op.isData = false := by
  cases op with
  | data d => exact h.elim
  | _ => rfl

variable {ops ops' : List (Op (T.labelled Role))}

theorem holdsOne_append : HoldsOne m (ops ++ ops') ↔
      (HoldsOne m ops ∧ ∀ x ∈ ops', Clean x) ∨ ((∀ x ∈ ops, Clean x) ∧ HoldsOne m ops') := by
  induction ops with
  | nil => simp [HoldsOne]
  | cons op ops ih =>
    rw [cons_append, HoldsOne, HoldsOne, ih, forall_mem_append, forall_mem_cons]
    tauto

theorem holdsOne_singleton : HoldsOne m [op] ↔ Holds m op := by
  simp [HoldsOne]

theorem HoldsOne.perm (hperm : ops.Perm ops') : HoldsOne m ops ↔ HoldsOne m ops' := by
  induction hperm with
  | nil => exact Iff.rfl
  | cons op hperm ih => rw [HoldsOne, HoldsOne, ih, forall_congr' fun x => imp_congr_left hperm.mem_iff]
  | swap a b ops =>
    simp only [HoldsOne, forall_mem_cons]
    tauto
  | trans h h' ih ih' => exact ih.trans ih'

theorem HoldsOne.flatMap {f : Op (T.labelled Role) → List (Op (T.labelled Role))}
    (h : HoldsOne m ops) (hf : ∀ op ∈ ops, Holds m op → HoldsOne m (f op))
    (hclean : ∀ op ∈ ops, Clean op → ∀ x ∈ f op, Clean x) : HoldsOne m (ops.flatMap f) := by
  induction ops with
  | nil => exact h.elim
  | cons op ops ih =>
    obtain ⟨hfop, hfops⟩ := List.forall_mem_cons.mp hf
    obtain ⟨hcop, hcops⟩ := List.forall_mem_cons.mp hclean
    rw [flatMap_cons]
    rcases h with ⟨hop, hops⟩ | ⟨hop, hops⟩
    · refine holdsOne_append.mpr (.inl ⟨hfop hop, ?_⟩)
      intro x hx
      obtain ⟨y, hy, hx⟩ := List.mem_flatMap.mp hx
      exact hcops y hy (hops y hy) x hx
    · exact holdsOne_append.mpr (.inr ⟨hcop hop, ih hops hfops hcops⟩)

theorem HoldsOne.not_data (h : HoldsOne m ops) : ¬ ∀ op ∈ ops, op.isData = true := by
  intro hdata
  induction ops with
  | nil => exact h
  | cons op ops ih =>
    obtain ⟨hop, hops⟩ := List.forall_mem_cons.mp hdata
    rcases h with ⟨h, -⟩ | ⟨-, h⟩
    · exact Bool.noConfusion (hop.symm.trans h.not_isData)
    · exact ih h hops

theorem HoldsOne.drop_data (h : HoldsOne m (ops ++ ops')) (hdata : ∀ op ∈ ops, op.isData = true) :
    HoldsOne m ops' := by
  rcases holdsOne_append.mp h with ⟨h, -⟩ | ⟨-, h⟩
  · exact (h.not_data hdata).elim
  · exact h

theorem HoldsOne.data_append (hdata : ∀ op ∈ ops, op.isData = true) (h : HoldsOne m ops') :
    HoldsOne m (ops ++ ops') :=
  holdsOne_append.mpr (.inr ⟨fun op hop => clean_of_isData (hdata op hop), h⟩)

/-! Normalizing. -/

theorem clean_of_mem_seqElems (h : Clean op) (hx : x ∈ op.seqElems) : Clean x :=
  fun l hl => h l (labels_subset (leaves_seqElems op) hx hl)

theorem clean_of_mem_concElems (h : Clean op) (hx : x ∈ op.concElems) : Clean x :=
  fun l hl => h l (labels_subset (leaves_concElems op) hx hl)

theorem Holds.seqElems (h : Holds m op) : HoldsOne m op.seqElems := by
  cases op with
  | seq q => exact h
  | _ => exact holdsOne_singleton.mpr h

theorem Holds.concElems (h : Holds m op) : HoldsOne m op.concElems := by
  cases op with
  | conc q => exact h
  | _ => exact holdsOne_singleton.mpr h

theorem HoldsOne.normalizeSeq (h : HoldsOne m ops) : HoldsOne m (normalizeSeq ops) := by
  rcases ops with _ | ⟨a, _ | ⟨b, rest⟩⟩
  · exact h
  · exact h
  · have hdata : ∀ op ∈ (a :: b :: rest).takeWhile isData, op.isData = true :=
      fun op => isData_of_mem_takeWhile
    have hrest : HoldsOne m ((a :: b :: rest).dropWhile isData) := by
      refine HoldsOne.drop_data ?_ hdata
      rwa [takeWhile_append_dropWhile]
    simp only [Op.normalizeSeq]
    split
    · rename_i hempty
      rw [List.isEmpty_iff.mp hempty] at hrest
      exact hrest.elim
    · refine HoldsOne.data_append hdata (holdsOne_singleton.mpr ?_)
      exact hrest.flatMap (fun op _ => Holds.seqElems) fun op _ hop x => clean_of_mem_seqElems hop

theorem HoldsOne.packConc (h : HoldsOne m ops) : HoldsOne m (packConc ops) := by
  rcases ops with _ | ⟨a, _ | ⟨b, rest⟩⟩
  · exact h
  · exact h
  · exact holdsOne_singleton.mpr h

theorem HoldsOne.normalizeConc (h : HoldsOne m ops) : HoldsOne m (normalizeConc ops) := by
  have helems : HoldsOne m (ops.flatMap Op.concElems) :=
    h.flatMap (fun op _ => Holds.concElems) fun op _ hop x => clean_of_mem_concElems hop
  have hdata : ∀ op ∈ (ops.flatMap Op.concElems).filter isData, op.isData = true :=
    fun op hop => (List.mem_filter.mp hop).2
  refine HoldsOne.data_append hdata (HoldsOne.packConc ?_)
  have hperm : ((ops.flatMap Op.concElems).filter isData ++ (ops.flatMap Op.concElems).filter
      (!isData ·)).Perm (ops.flatMap Op.concElems) := filter_append_perm isData _
  exact HoldsOne.drop_data ((HoldsOne.perm hperm).mpr helems) hdata

theorem Nest.mem_seqElems (h : Nest op) (hx : x ∈ op.seqElems) : Nest x := by
  cases op with
  | seq q =>
    cases h with
    | seq elems => exact elems x hx
  | _ => exact List.mem_singleton.mp hx ▸ h

theorem Nest.mem_concElems (h : Nest op) (hx : x ∈ op.concElems) : Nest x := by
  cases op with
  | conc q =>
    cases h with
    | conc elems => exact elems x hx
  | _ => exact List.mem_singleton.mp hx ▸ h

theorem normalizeSeq_nest (h : ∀ op ∈ ops, Nest op) : ∀ op ∈ normalizeSeq ops, Nest op := by
  rcases ops with _ | ⟨a, _ | ⟨b, rest⟩⟩
  · exact h
  · exact h
  · have hdata : ∀ op ∈ (a :: b :: rest).takeWhile isData, Nest op :=
      fun op hop => h op ((takeWhile_sublist _).subset hop)
    simp only [normalizeSeq]
    split
    · exact hdata
    · intro op hop
      rcases List.mem_append.mp hop with hop | hop
      · exact hdata op hop
      · rw [List.mem_singleton.mp hop]
        refine .seq fun x hx => ?_
        obtain ⟨y, hy, hx⟩ := List.mem_flatMap.mp hx
        exact (h y ((dropWhile_sublist _).subset hy)).mem_seqElems hx

theorem packConc_nest (h : ∀ op ∈ ops, Nest op) : ∀ op ∈ packConc ops, Nest op := by
  rcases ops with _ | ⟨a, _ | ⟨b, rest⟩⟩
  · exact h
  · exact h
  · exact List.forall_mem_singleton.mpr (.conc h)

theorem normalizeConc_nest (h : ∀ op ∈ ops, Nest op) : ∀ op ∈ normalizeConc ops, Nest op := by
  have helems : ∀ op ∈ ops.flatMap concElems, Nest op := by
    intro op hop
    obtain ⟨x, hx, hop⟩ := List.mem_flatMap.mp hop
    exact (h x hx).mem_concElems hop
  intro op hop
  rcases List.mem_append.mp hop with hop | hop
  · exact helems op (List.mem_filter.mp hop).1
  · exact packConc_nest (fun x hx => helems x (List.mem_filter.mp hx).1) op hop

theorem go_nest (h : Nest op) : ∀ x ∈ go op, Nest x := by
  induction h with
  | data d => exact List.forall_mem_singleton.mpr (.data _)
  | call c => exact List.forall_mem_singleton.mpr (.call c)
  | defer m t => exact List.forall_mem_singleton.mpr (.defer m t)
  | deferRelative m s => exact List.forall_mem_singleton.mpr (.deferRelative m s)
  | promise clean ds k =>
    rw [go, goList_eq]
    refine List.forall_mem_singleton.mpr (.promise ?_ _ k)
    exact fun x hx => (List.mem_flatMap.mp hx).elim fun op hop => clean_of_mem_go (clean op hop.1) hop.2
  | void clean => exact List.forall_mem_singleton.mpr (.void clean)
  | noop => exact fun x hx => nomatch hx
  | seq elems ih =>
    rw [go, goList_eq]
    exact normalizeSeq_nest fun x hx => (List.mem_flatMap.mp hx).elim fun op hop => ih op hop.1 x hop.2
  | conc elems ih =>
    rw [go, goList_eq]
    exact normalizeConc_nest fun x hx => (List.mem_flatMap.mp hx).elim fun op hop => ih op hop.1 x hop.2

theorem go_holds (h : Holds m op) : HoldsOne m (go op) := by
  induction op using Op.elemInduct with
  | data | call | defer | deferRelative | noop => exact h.elim
  | seq q ih =>
    rw [go, goList_eq]
    exact (HoldsOne.flatMap h ih fun op _ hop x => clean_of_mem_go hop).normalizeSeq
  | conc q ih =>
    rw [go, goList_eq]
    exact (HoldsOne.flatMap h ih fun op _ hop x => clean_of_mem_go hop).normalizeConc
  | promise q ds k ih =>
    rw [go, goList_eq]
    refine holdsOne_singleton.mpr ?_
    rcases h with ⟨hk, hnest, hm⟩ | ⟨hk, h⟩
    · refine .inl ⟨hk, ?_, ?_⟩
      · exact fun x hx => (List.mem_flatMap.mp hx).elim fun op hop => go_nest (hnest op hop.1) x hop.2
      · rw [dataOfList_flatMap q fun op _ => dataOfList_go op]
        exact hm
    · exact .inr ⟨hk, HoldsOne.flatMap h ih fun op _ hop x => clean_of_mem_go hop⟩
  | void op => exact holdsOne_singleton.mpr h

theorem normalize_holds (h : Holds m op) : HoldsOne m op.normalize :=
  (go_holds h).flatMap (fun _ _ => Holds.concElems) fun _ _ hop _ => clean_of_mem_concElems hop

theorem normalize_clean (h : Clean op) : ∀ x ∈ op.normalize, Clean x :=
  fun _ hx l hl => h l (labels_subset (leaves_normalize op) hx hl)

end Op

end UnionVoyager.Vm
