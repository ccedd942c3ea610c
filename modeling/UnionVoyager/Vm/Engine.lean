import UnionVoyager.Vm.Op
import UnionVoyager.Lib.Machine
import Mathlib.Data.List.Perm.Basic

/-!
# The engine, and labelled runs

`Engine::step` of `lib/voyager-vm/src/engine.rs` over a queue without interest: some worker takes an
item, processes it and puts the normalized result back.

* `step` — one item; every order of the items is a run.
* `run_erase` — **without the labels, a labelled run is the run**: labels only say what stems from what.
-/

namespace UnionVoyager.Vm

open Lib List

variable {T : QueueMessage}

/-! ## The engine -/

/-- Which item is processed, at what time and by which handler. -/
structure Input (T : QueueMessage) where
  item : Nat
  now : Nat
  handler : Handler T

/-- `Op::normalize` of what a step leaves. -/
def requeue (res : Option (Op T)) : List (Op T) := res.toList.flatMap Op.normalize

/-- The items after one of them was processed: it is replaced by what is left of it; with a
    retryable error it stays, with another one it is dropped. -/
def leave (items : List (Op T)) (n : Nat) : Except QueueError (Option (Op T)) → List (Op T)
  | .ok res => items.eraseIdx n ++ requeue res
  | .error (.retry _) => items
  | .error _ => items.eraseIdx n

attribute [local grind =] leave

def step (items : List (Op T)) (i : Input T) : List (Op T) × List (Action T) :=
  match items[i.item]? with
  | none => (items, [])
  | some op =>
    let out := op.process i.handler i.now
    (leave items i.item out.1, out.2)

attribute [local grind =] step

abbrev run (items : List (Op T)) (is : List (Input T)) : List (Op T) := Machine.run step items is

/-- What the handler does in a run. -/
abbrev trace (items : List (Op T)) (is : List (Input T)) : List (Action T) := Machine.trace step items is

theorem perm_cons_eraseIdx {items : List (Op T)} {n : Nat} {op : Op T} (h : items[n]? = some op) :
    items.Perm (op :: items.eraseIdx n) := by
  obtain ⟨hlt, rfl⟩ := List.getElem?_eq_some_iff.mp h
  exact (getElem_cons_eraseIdx_perm hlt).symm

theorem step_cases (items : List (Op T)) (i : Input T) :
    (step items i = (items, []) ∧ items[i.item]? = none) ∨
    ∃ op, items[i.item]? = some op ∧ (step items i).2 = (op.process i.handler i.now).2 ∧
      ((∃ r, (op.process i.handler i.now).1 = .ok r ∧ (step items i).1 = items.eraseIdx i.item ++ requeue r) ∨
        (∃ e, (op.process i.handler i.now).1 = .error e ∧
          ((step items i).1 = items ∨ (step items i).1 = items.eraseIdx i.item))) := by
  unfold step
  split
  · rename_i hnone
    exact .inl ⟨rfl, hnone⟩
  · rename_i op hop
    refine .inr ⟨op, hop, rfl, ?_⟩
    cases hres : (op.process i.handler i.now).1 with
    | ok r => exact .inl ⟨r, rfl, congrArg (leave items i.item) hres⟩
    | error e =>
      refine .inr ⟨e, rfl, ?_⟩
      cases e with
      | retry e => exact .inl (congrArg (leave items i.item) hres)
      | fatal e | unprocessable e => exact .inr (congrArg (leave items i.item) hres)

theorem Outcome.within_eq_ok {out : Outcome T} {f : Option (Op T) → Op T} {r : Option (Op T)}
    (h : (out.within f).1 = .ok r) : ∃ r', out.1 = .ok r' ∧ r = some (f r') := by
  rcases out with ⟨_ | r', actions⟩
  · cases h
  · exact ⟨r', rfl, (Except.ok.inj h).symm⟩

theorem Outcome.within_eq_error {out : Outcome T} {f : Option (Op T) → Op T} {e : QueueError}
    (h : (out.within f).1 = .error e) : out.1 = .error e := by
  rcases out with ⟨_ | r', actions⟩
  · exact congrArg Except.error (Except.error.inj h)
  · cases h

theorem Op.void_eq_ok {h : Handler T} {now : Nat} {op : Op T} {r : Option (Op T)}
    (hok : ((void op).process h now).1 = .ok r) : ∃ r', (op.process h now).1 = .ok r' ∧
      r = r'.map voidOf := by
  rw [process] at hok
  cases hres : (op.process h now).1 with
  | error e =>
    rw [hres] at hok
    cases hok
  | ok r' =>
    rw [hres] at hok
    exact ⟨r', rfl, (Except.ok.inj hok).symm⟩

/-- A handler that answers every call with the number called. -/
def Sample.echo : Handler Sample.Msg := ⟨fun c => .ok (.data c), fun _ _ => .ok .noop⟩

/-! ## Labels -/

/-- Calls, callbacks and deferrals carry a label. -/
abbrev QueueMessage.labelled (T : QueueMessage) (L : Type) : QueueMessage :=
  ⟨T.Data, T.Call × L, T.Callback × L, T.Mark × L⟩

namespace Op

variable {L : Type}

/-! The label of everything in an op, and the op without its labels. -/

mutual
def label (l : L) : Op T → Op (T.labelled L)
  | .data d => .data d
  | .call c => .call (c, l)
  | .defer mark deadline => .defer (mark, l) deadline
  | .deferRelative mark secs => .deferRelative (mark, l) secs
  | .seq queue => .seq (labelList l queue)
  | .conc queue => .conc (labelList l queue)
  | .promise queue ds receiver => .promise (labelList l queue) ds (receiver, l)
  | .void op => .void (label l op)
  | .noop => .noop
def labelList (l : L) : List (Op T) → List (Op (T.labelled L))
  | [] => []
  | op :: queue => label l op :: labelList l queue
end

attribute [local grind =] labelList

mutual
def erase : Op (T.labelled L) → Op T
  | .data d => .data d
  | .call c => .call c.1
  | .defer mark deadline => .defer mark.1 deadline
  | .deferRelative mark secs => .deferRelative mark.1 secs
  | .seq queue => .seq (eraseList queue)
  | .conc queue => .conc (eraseList queue)
  | .promise queue ds receiver => .promise (eraseList queue) ds receiver.1
  | .void op => .void (erase op)
  | .noop => .noop
def eraseList : List (Op (T.labelled L)) → List (Op T)
  | [] => []
  | op :: queue => erase op :: eraseList queue
end

attribute [local grind =] erase eraseList

theorem labelList_eq (l : L) (queue : List (Op T)) : labelList l queue = queue.map (label l) := by
  induction queue with
  | nil => rfl
  | cons op queue ih => rw [labelList, ih, map_cons]

theorem eraseList_eq (queue : List (Op (T.labelled L))) : eraseList queue = queue.map erase := by
  induction queue with
  | nil => rfl
  | cons op queue ih => rw [eraseList, ih, map_cons]

theorem map_erase_labelList (l : L) (queue : List (Op T))
    (h : ∀ op ∈ queue, (op.label l).erase = op) : eraseList (labelList l queue) = queue := by
  rw [labelList_eq, eraseList_eq, map_map]
  exact (map_congr_left h).trans (map_id queue)

theorem erase_label (l : L) (op : Op T) : (op.label l).erase = op := by
  induction op using Op.elemInduct with
  | seq q ih => exact congrArg Op.seq (map_erase_labelList l q ih)
  | conc q ih => exact congrArg Op.conc (map_erase_labelList l q ih)
  | promise q ds k ih => exact congrArg (Op.promise · ds k) (map_erase_labelList l q ih)
  | void op ih => exact congrArg Op.void ih
  | data | call | defer | deferRelative | noop => rfl

theorem isData_erase (op : Op (T.labelled L)) : op.erase.isData = op.isData := by
  cases op <;> rfl

theorem isData_comp_erase : isData ∘ (erase : Op (T.labelled L) → Op T) = isData := funext isData_erase

theorem seqElems_erase (op : Op (T.labelled L)) : op.erase.seqElems = op.seqElems.map erase := by
  cases op <;> simp [erase, seqElems, eraseList_eq]

theorem concElems_erase (op : Op (T.labelled L)) : op.erase.concElems = op.concElems.map erase := by
  cases op <;> simp [erase, concElems, eraseList_eq]

theorem flatMap_seqElems_erase (ops : List (Op (T.labelled L))) :
    (ops.map erase).flatMap seqElems = (ops.flatMap seqElems).map erase := by
  rw [flatMap_map, map_flatMap]
  exact flatMap_congr fun op _ => seqElems_erase op

theorem flatMap_concElems_erase (ops : List (Op (T.labelled L))) :
    (ops.map erase).flatMap concElems = (ops.flatMap concElems).map erase := by
  rw [flatMap_map, map_flatMap]
  exact flatMap_congr fun op _ => concElems_erase op

/-! Normalizing looks at no label. -/

theorem normalizeSeq_erase (ops : List (Op (T.labelled L))) :
    normalizeSeq (ops.map erase) = (normalizeSeq ops).map erase := by
  rcases ops with _ | ⟨a, _ | ⟨b, rest⟩⟩
  · rfl
  · rfl
  · have htake : (erase a :: erase b :: rest.map erase).takeWhile isData =
        ((a :: b :: rest).takeWhile isData).map erase := by
      rw [← map_cons, ← map_cons, takeWhile_map, isData_comp_erase]
    have hdrop : (erase a :: erase b :: rest.map erase).dropWhile isData =
        ((a :: b :: rest).dropWhile isData).map erase := by
      rw [← map_cons, ← map_cons, dropWhile_map, isData_comp_erase]
    simp only [map_cons, normalizeSeq, htake, hdrop, isEmpty_map]
    split
    · rfl
    · rw [map_append, flatMap_seqElems_erase]
      simp only [map_cons, map_nil, erase, eraseList_eq]

theorem packConc_erase (ops : List (Op (T.labelled L))) :
    packConc (ops.map erase) = (packConc ops).map erase := by
  rcases ops with _ | ⟨a, _ | ⟨b, rest⟩⟩
  · rfl
  · rfl
  · simp only [map_cons, map_nil, packConc, erase, eraseList_eq]

theorem normalizeConc_erase (ops : List (Op (T.labelled L))) :
    normalizeConc (ops.map erase) = (normalizeConc ops).map erase := by
  have hdata : (isData ∘ erase : Op (T.labelled L) → Bool) = isData := isData_comp_erase
  have hrest : ((fun op => !isData op) ∘ erase : Op (T.labelled L) → Bool) = (!isData ·) :=
    funext fun op => congrArg (!·) (isData_erase op)
  simp only [normalizeConc, flatMap_concElems_erase, filter_map, hdata, hrest, packConc_erase, map_append]

theorem goList_erase (queue : List (Op (T.labelled L))) (h : ∀ op ∈ queue, go op.erase = (go op).map erase) :
    goList (eraseList queue) = (goList queue).map erase := by
  rw [goList_eq, goList_eq, eraseList_eq, flatMap_map, map_flatMap]
  exact flatMap_congr h

theorem go_erase (op : Op (T.labelled L)) : go op.erase = (go op).map erase := by
  induction op using Op.elemInduct with
  | seq q ih =>
    rw [erase, go, go, goList_erase q ih, normalizeSeq_erase]
  | conc q ih =>
    rw [erase, go, go, goList_erase q ih, normalizeConc_erase]
  | promise q ds k ih =>
    simp only [erase, go, goList_erase q ih, map_cons, map_nil]
    rw [eraseList_eq]
  | data | call | defer | deferRelative | void | noop => rfl

theorem normalize_erase (op : Op (T.labelled L)) : op.erase.normalize = op.normalize.map erase := by
  rw [normalize, normalize, go_erase, flatMap_concElems_erase]

end Op

variable {L : Type}

/-- What a handler returns is marked by the label of what it was asked. -/
def Handler.marked (mark : L → Op T → Op (T.labelled L)) (h : Handler T) : Handler (T.labelled L) where
  call c := (h.call c.1).map (mark c.2)
  callback k ds := (h.callback k.1 ds).map (mark k.2)

/-- What a handler returns has the label of what it was asked. -/
abbrev Handler.labelled (h : Handler T) : Handler (T.labelled L) := h.marked Op.label

def Action.erase : Action (T.labelled L) → Action T
  | .call c res => .call c.1 (res.map Op.erase)
  | .callback k ds res => .callback k.1 ds (res.map Op.erase)
  | .defer mark deadline => .defer mark.1 deadline
  | .deferRelative mark secs => .deferRelative mark.1 secs
  | .drop d => .drop d

def Outcome.erase (out : Outcome (T.labelled L)) : Outcome T :=
  (out.1.map (Option.map Op.erase), out.2.map Action.erase)

section Marked

variable {mark : L → Op T → Op (T.labelled L)} (hmark : ∀ l op, (mark l op).erase = op)

include hmark in
theorem erase_marked (res : Except QueueError (Op T)) (l : L) : (res.map (mark l)).map Op.erase = res := by
  cases res with
  | error e => rfl
  | ok op => exact congrArg Except.ok (hmark l op)

include hmark in
theorem Outcome.answer_erase (res : Except QueueError (Op T)) (l : L)
    (actions : List (Action (T.labelled L))) :
    Outcome.erase (((res.map (mark l)).map some, actions) : Outcome (T.labelled L)) =
      (res.map some, actions.map Action.erase) := by
  cases res with
  | error e => rfl
  | ok op => exact congrArg (fun op => (Except.ok (some op), actions.map Action.erase)) (hmark l op)

theorem Outcome.within_erase (out : Outcome (T.labelled L))
    (f : Option (Op (T.labelled L)) → Op (T.labelled L)) (g : Option (Op T) → Op T)
    (h : ∀ r, (f r).erase = g (r.map Op.erase)) : (out.within f).erase = out.erase.within g := by
  rcases out with ⟨_ | r, actions⟩
  · rfl
  · exact congrArg (fun op =>
      ((.ok (some op) : Except QueueError (Option (Op T))), actions.map Action.erase)) (h r)

namespace Op

theorem collect_erase (queue : List (Op (T.labelled L))) (ds : List T.Data) (k : T.Callback × L)
    (r : Option (Op (T.labelled L))) :
    (collect queue ds k r).erase = collect (queue.map erase) ds k.1 (r.map erase) := by
  rcases r with _ | r
  · simp only [collect, erase, eraseList_eq, Option.map_none]
  · cases r with
    | data d => exact congrArg (Op.promise · (ds ++ [d]) k.1) (eraseList_eq queue)
    | _ => simp only [collect, erase, eraseList_eq, Option.map_some, map_append, map_cons, map_nil]

theorem voidOf_erase (op : Op (T.labelled L)) : (voidOf op).erase = voidOf op.erase := by
  cases op <;> rfl

include hmark in
theorem process_erase (h : Handler T) (now : Nat) (op : Op (T.labelled L)) :
    op.erase.process h now = (op.process (h.marked mark) now).erase := by
  induction op using Op.frontInduct with
  | data | deferRelative | seqNil | concNil | promiseData | noop => rfl
  | call c =>
    refine .trans ?_ (Outcome.answer_erase hmark (h.call c.1) c.2 _).symm
    simp only [erase, process, Action.erase, Handler.marked, map_cons, map_nil, erase_marked hmark]
  | defer m t =>
    simp only [erase, process, Outcome.erase]
    split <;> rfl
  | seqCons op q ih =>
    simp only [erase, eraseList, process, ih]
    refine (Outcome.within_erase _ _ _ fun r => ?_).symm
    cases r <;> simp only [erase, eraseList_eq, Option.map, Option.toList, nil_append, map_append,
      map_cons, map_nil]
  | concCons op q ih =>
    simp only [erase, eraseList, process, ih]
    refine (Outcome.within_erase _ _ _ fun r => ?_).symm
    cases r <;> simp only [erase, eraseList_eq, Option.map, Option.toList, append_nil, map_append,
      map_cons, map_nil]
  | promiseNil ds k =>
    refine .trans ?_ (Outcome.answer_erase hmark (h.callback k.1 ds) k.2 _).symm
    simp only [erase, eraseList, process, Action.erase, Handler.marked, map_cons, map_nil, erase_marked hmark]
  | promiseCons op q ds k hdata ih =>
    have herased : ∀ d, op.erase ≠ .data d := by
      intro d
      cases op with
      | data d => exact (hdata d rfl).elim
      | _ => exact fun h => nomatch h
    simp only [erase, eraseList]
    rw [process_promise_cons h now herased, process_promise_cons _ now hdata, ih, eraseList_eq]
    exact (Outcome.within_erase _ _ _ (collect_erase q ds k)).symm
  | void op ih =>
    simp only [erase, process, ih, Outcome.erase]
    rcases op.process (h.marked mark) now with ⟨_ | _ | r, actions⟩
    · rfl
    · rfl
    · exact congrArg (fun op => (Except.ok (some op), _)) (voidOf_erase r).symm

end Op

/-! ## A labelled run -/

def Input.marked (mark : L → Op T → Op (T.labelled L)) (i : Input T) : Input (T.labelled L) :=
  ⟨i.item, i.now, i.handler.marked mark⟩

abbrev Input.labelled (i : Input T) : Input (T.labelled L) := i.marked Op.label

theorem requeue_erase (res : Option (Op (T.labelled L))) :
    requeue (res.map Op.erase) = (requeue res).map Op.erase := by
  cases res with
  | none => rfl
  | some op =>
    simp only [requeue, Option.map_some, Option.toList_some, flatMap_singleton]
    exact Op.normalize_erase op

theorem leave_erase (items : List (Op (T.labelled L))) (n : Nat) (out : Outcome (T.labelled L)) :
    leave (items.map Op.erase) n out.erase.1 = (leave items n out.1).map Op.erase := by
  have herase : (items.map Op.erase).eraseIdx n = (items.eraseIdx n).map Op.erase := by rw [eraseIdx_map]
  rcases out with ⟨(_ | _ | _) | res, actions⟩
  · exact herase
  · exact herase
  · rfl
  · exact (congrArg₂ (· ++ ·) herase (requeue_erase res)).trans List.map_append.symm

include hmark in
theorem step_erase (items : List (Op (T.labelled L))) (i : Input T) : step (items.map Op.erase) i =
      ((step items (i.marked mark)).1.map Op.erase, (step items (i.marked mark)).2.map Action.erase) := by
  have hget : (items.map Op.erase)[i.item]? = (items[i.item]?).map Op.erase := getElem?_map
  unfold step
  rw [hget, show (i.marked mark).item = i.item from rfl]
  cases items[i.item]? with
  | none => rfl
  | some op =>
    simp only [Option.map_some, Op.process_erase hmark, leave_erase]
    rfl

include hmark in
theorem run_erase (items : List (Op (T.labelled L))) (is : List (Input T)) :
    run (items.map Op.erase) is = (run items (is.map (Input.marked mark))).map Op.erase ∧
      trace (items.map Op.erase) is = (trace items (is.map (Input.marked mark))).map Action.erase := by
  induction is generalizing items with
  | nil => exact ⟨rfl, rfl⟩
  | cons i is ih =>
    obtain ⟨hrun, htrace⟩ := ih (step items (i.marked mark)).1
    constructor
    · simp only [run, Machine.run, map_cons, step_erase hmark] at hrun ⊢
      exact hrun
    · simp only [trace, Machine.trace, map_cons, step_erase hmark, map_append] at htrace ⊢
      rw [htrace]

end Marked

end UnionVoyager.Vm
