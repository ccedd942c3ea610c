import UnionVoyager.Vm.Engine
import Mathlib.Data.List.TakeWhile

/-!
# Normal ops

What `Op::normalize` makes of an op without `Void`: the front of a `Seq`, and everything in a
`Conc`, is no data.

* `normalize_normal` — normalizing such an op leaves normal items.
-/

namespace UnionVoyager.Vm

variable {T : QueueMessage} {L : Type}

variable {op : Op T} {ops queue : List (Op T)}

namespace Op

inductive VoidFree : Op T → Prop
  | data (d : T.Data) : VoidFree (.data d)
  | call (c : T.Call) : VoidFree (.call c)
  | defer (mark : T.Mark) (deadline : Nat) : VoidFree (.defer mark deadline)
  | deferRelative (mark : T.Mark) (secs : Nat) : VoidFree (.deferRelative mark secs)
  | seq {queue : List (Op T)} (elems : ∀ op ∈ queue, VoidFree op) : VoidFree (.seq queue)
  | conc {queue : List (Op T)} (elems : ∀ op ∈ queue, VoidFree op) : VoidFree (.conc queue)
  | promise {queue : List (Op T)} (elems : ∀ op ∈ queue, VoidFree op) (ds : List T.Data)
      (receiver : T.Callback) : VoidFree (.promise queue ds receiver)
  | noop : VoidFree .noop

inductive Normal : Op T → Prop
  | data (d : T.Data) : Normal (.data d)
  | call (c : T.Call) : Normal (.call c)
  | defer (mark : T.Mark) (deadline : Nat) : Normal (.defer mark deadline)
  | deferRelative (mark : T.Mark) (secs : Nat) : Normal (.deferRelative mark secs)
  | seq {op : Op T} {queue : List (Op T)} (front : op.isData = false) (elems : ∀ x ∈ op :: queue, Normal x) :
      Normal (.seq (op :: queue))
  | conc {queue : List (Op T)} (noData : ∀ op ∈ queue, op.isData = false) (elems : ∀ op ∈ queue, Normal op) :
      Normal (.conc queue)
  | promise {queue : List (Op T)} (elems : ∀ op ∈ queue, Normal op) (ds : List T.Data)
      (receiver : T.Callback) : Normal (.promise queue ds receiver)

theorem Normal.voidFree (h : Normal op) : VoidFree op := by
  induction h with
  | data d => exact .data d
  | call c => exact .call c
  | defer m t => exact .defer m t
  | deferRelative m s => exact .deferRelative m s
  | seq front elems ih => exact .seq ih
  | conc noData elems ih => exact .conc ih
  | promise elems ds k ih => exact .promise ih ds k

theorem VoidFree.of_erase {op : Op (T.labelled L)} (h : VoidFree op.erase) : VoidFree op := by
  induction op using Op.elemInduct with
  | data d => exact .data _
  | call c => exact .call _
  | defer m t => exact .defer _ _
  | deferRelative m s => exact .deferRelative _ _
  | seq q ih =>
    rw [erase, eraseList_eq] at h
    cases h with
    | seq elems => exact .seq fun op hop => ih op hop (elems _ (List.mem_map_of_mem hop))
  | conc q ih =>
    rw [erase, eraseList_eq] at h
    cases h with
    | conc elems => exact .conc fun op hop => ih op hop (elems _ (List.mem_map_of_mem hop))
  | promise q ds k ih =>
    rw [erase, eraseList_eq] at h
    cases h with
    | promise elems => exact .promise (fun op hop => ih op hop (elems _ (List.mem_map_of_mem hop))) _ _
  | void op ih => cases h
  | noop => exact .noop

/-! ## Normalizing -/

theorem Normal.seqElems (h : Normal op) (hdata : op.isData = false) :
    ∃ x xs, op.seqElems = x :: xs ∧ x.isData = false ∧ ∀ y ∈ x :: xs, Normal y := by
  cases h with
  | seq front elems => exact ⟨_, _, rfl, front, elems⟩
  | data d => cases hdata
  | call c => exact ⟨_, _, rfl, rfl, List.forall_mem_singleton.mpr (.call c)⟩
  | defer m t => exact ⟨_, _, rfl, rfl, List.forall_mem_singleton.mpr (.defer m t)⟩
  | deferRelative m s => exact ⟨_, _, rfl, rfl, List.forall_mem_singleton.mpr (.deferRelative m s)⟩
  | conc noData elems => exact ⟨_, _, rfl, rfl, List.forall_mem_singleton.mpr (.conc noData elems)⟩
  | promise elems ds k => exact ⟨_, _, rfl, rfl, List.forall_mem_singleton.mpr (.promise elems ds k)⟩

theorem Normal.mem_seqElems {x : Op T} (h : Normal op) (hx : x ∈ op.seqElems) : Normal x := by
  cases hdata : op.isData with
  | true =>
    cases op with
    | data d => exact List.mem_singleton.mp hx ▸ h
    | _ => cases hdata
  | false =>
    obtain ⟨y, ys, heq, -, hall⟩ := h.seqElems hdata
    exact hall x (heq ▸ hx)

theorem Normal.mem_concElems {x : Op T} (h : Normal op) (hx : x ∈ op.concElems) : Normal x := by
  cases op with
  | conc q =>
    cases h with
    | conc noData elems => exact elems x hx
  | _ => exact List.mem_singleton.mp hx ▸ h

theorem normalizeSeq_normal (h : ∀ op ∈ ops, Normal op) : ∀ op ∈ normalizeSeq ops, Normal op := by
  rcases ops with _ | ⟨a, _ | ⟨b, rest⟩⟩
  · exact h
  · exact h
  · have hdata : ∀ op ∈ (a :: b :: rest).takeWhile isData, Normal op :=
      fun op hop => h op ((List.takeWhile_sublist _).subset hop)
    have hrest : ∀ op ∈ (a :: b :: rest).dropWhile isData, Normal op :=
      fun op hop => h op ((List.dropWhile_sublist _).subset hop)
    simp only [normalizeSeq]
    cases hnon : (a :: b :: rest).dropWhile isData with
    | nil => exact hdata
    | cons x xs =>
      have hx : x.isData = false := by
        have hhead := List.head_dropWhile_not isData (l := a :: b :: rest)
        simp only [hnon] at hhead
        simpa using hhead (List.cons_ne_nil x xs)
      rw [hnon] at hrest
      obtain ⟨y, ys, heq, hy, -⟩ := (hrest x List.mem_cons_self).seqElems hx
      have hseq : Normal (.seq ((x :: xs).flatMap Op.seqElems)) := by
        have hall : ∀ z ∈ (x :: xs).flatMap Op.seqElems, Normal z := by
          intro z hz
          obtain ⟨w, hw, hz⟩ := List.mem_flatMap.mp hz
          exact (hrest w hw).mem_seqElems hz
        rw [List.flatMap_cons, heq, List.cons_append] at hall ⊢
        exact .seq hy hall
      intro op hop
      rcases List.mem_append.mp hop with hop | hop
      · exact hdata op hop
      · exact List.mem_singleton.mp hop ▸ hseq

theorem packConc_normal (hdata : ∀ op ∈ ops, op.isData = false) (h : ∀ op ∈ ops, Normal op) :
    ∀ op ∈ packConc ops, Normal op := by
  rcases ops with _ | ⟨a, _ | ⟨b, rest⟩⟩
  · exact h
  · exact h
  · exact List.forall_mem_singleton.mpr (.conc hdata h)

theorem normalizeConc_normal (h : ∀ op ∈ ops, Normal op) : ∀ op ∈ normalizeConc ops, Normal op := by
  have helems : ∀ op ∈ ops.flatMap concElems, Normal op := by
    intro op hop
    obtain ⟨x, hx, hop⟩ := List.mem_flatMap.mp hop
    exact (h x hx).mem_concElems hop
  intro op hop
  rcases List.mem_append.mp hop with hop | hop
  · exact helems op (List.mem_filter.mp hop).1
  · refine packConc_normal ?_ (fun x hx => helems x (List.mem_filter.mp hx).1) op hop
    intro x hx
    simpa using (List.mem_filter.mp hx).2

theorem go_normal (h : VoidFree op) : ∀ x ∈ go op, Normal x := by
  induction h with
  | data d => exact List.forall_mem_singleton.mpr (.data d)
  | call c => exact List.forall_mem_singleton.mpr (.call c)
  | defer m t => exact List.forall_mem_singleton.mpr (.defer m t)
  | deferRelative m s => exact List.forall_mem_singleton.mpr (.deferRelative m s)
  | seq elems ih =>
    rw [go, goList_eq]
    exact normalizeSeq_normal fun x hx => (List.mem_flatMap.mp hx).elim fun op hop => ih op hop.1 x hop.2
  | conc elems ih =>
    rw [go, goList_eq]
    exact normalizeConc_normal fun x hx => (List.mem_flatMap.mp hx).elim fun op hop => ih op hop.1 x hop.2
  | promise elems ds k ih =>
    rw [go, goList_eq]
    refine List.forall_mem_singleton.mpr (.promise ?_ ds k)
    exact fun x hx => (List.mem_flatMap.mp hx).elim fun op hop => ih op hop.1 x hop.2
  | noop => exact fun x hx => by cases hx

theorem normalize_normal (h : VoidFree op) : ∀ x ∈ op.normalize, Normal x := by
  intro x hx
  obtain ⟨y, hy, hx⟩ := List.mem_flatMap.mp hx
  exact (go_normal h y hy).mem_concElems hx

end Op

/-- A handler that returns no `Void`. -/
structure Handler.VoidFree (h : Handler T) : Prop where
  call : ∀ c op, h.call c = .ok op → op.VoidFree
  callback : ∀ k ds op, h.callback k ds = .ok op → op.VoidFree

theorem Handler.VoidFree.marked {h : Handler T} (hh : h.VoidFree) {mark : L → Op T → Op (T.labelled L)}
    (hmark : ∀ l op, (mark l op).erase = op) : (h.marked mark).VoidFree := by
  have hans : ∀ (l : L) (res : Except QueueError (Op T)), (∀ op, res = .ok op → op.VoidFree) →
      ∀ op, res.map (mark l) = .ok op → op.VoidFree := by
    intro l res hres op hop
    cases res with
    | error e => cases hop
    | ok op' =>
      obtain rfl := Except.ok.inj hop
      exact .of_erase ((hmark l op').symm ▸ hres op' rfl)
  constructor
  · exact fun c op hop => hans c.2 (h.call c.1) (hh.call c.1) op hop
  · exact fun k ds op hop => hans k.2 (h.callback k.1 ds) (hh.callback k.1 ds) op hop

namespace Op

theorem VoidFree.elems_seq (h : VoidFree (.seq queue)) : ∀ op ∈ queue, VoidFree op := by
  cases h
  assumption

theorem VoidFree.elems_conc (h : VoidFree (.conc queue)) : ∀ op ∈ queue, VoidFree op := by
  cases h
  assumption

theorem VoidFree.elems_promise {ds : List T.Data} {receiver : T.Callback}
    (h : VoidFree (.promise queue ds receiver)) : ∀ op ∈ queue, VoidFree op := by
  cases h
  assumption

theorem process_voidFree {h : Handler T} (hh : h.VoidFree) (now : Nat) (hop : op.VoidFree)
    {r : Op T} (hr : (op.process h now).1 = .ok (some r)) : r.VoidFree := by
  have hans : ∀ res : Except QueueError (Op T), (∀ op, res = .ok op → op.VoidFree) →
      ∀ r, res.map some = .ok (some r) → r.VoidFree := by
    intro res hres r hr
    cases res with
    | error e => cases hr
    | ok op' => exact hres r (congrArg Except.ok (Option.some.inj (Except.ok.inj hr)))
  induction op using Op.frontInduct generalizing r with
  | data d | seqNil | concNil | noop => cases hr
  | call c => exact hans (h.call c) (hh.call c) r hr
  | promiseNil ds k => exact hans (h.callback k ds) (hh.callback k ds) r hr
  | defer m t =>
    rw [process] at hr
    split at hr
    · obtain rfl := Option.some.inj (Except.ok.inj hr)
      exact hop
    · cases Except.ok.inj hr
  | deferRelative m s =>
    obtain rfl := Option.some.inj (Except.ok.inj hr)
    exact .defer m _
  | seqCons op q ih =>
    obtain ⟨hfront, hq⟩ := List.forall_mem_cons.mp hop.elems_seq
    obtain ⟨r', hr', heq⟩ := Outcome.within_eq_ok hr
    rw [Option.some.inj heq]
    refine .seq fun x hx => ?_
    rcases List.mem_append.mp hx with hx | hx
    · exact ih hfront (Option.mem_toList.mp hx ▸ hr')
    · exact hq x hx
  | concCons op q ih =>
    obtain ⟨hfront, hq⟩ := List.forall_mem_cons.mp hop.elems_conc
    obtain ⟨r', hr', heq⟩ := Outcome.within_eq_ok hr
    rw [Option.some.inj heq]
    refine .conc fun x hx => ?_
    rcases List.mem_append.mp hx with hx | hx
    · exact hq x hx
    · exact ih hfront (Option.mem_toList.mp hx ▸ hr')
  | promiseData d q ds k =>
    obtain rfl := Option.some.inj (Except.ok.inj hr)
    exact .promise (List.forall_mem_cons.mp hop.elems_promise).2 _ k
  | promiseCons op q ds k hdata ih =>
    obtain ⟨hfront, hq⟩ := List.forall_mem_cons.mp hop.elems_promise
    rw [process_promise_cons h now hdata] at hr
    obtain ⟨r', hr', heq⟩ := Outcome.within_eq_ok hr
    rw [Option.some.inj heq]
    cases r' with
    | none => exact .promise hq ds k
    | some x =>
      have hx : VoidFree x := ih hfront hr'
      have hqueue : ∀ y ∈ q ++ [x], VoidFree y := by
        intro y hy
        rcases List.mem_append.mp hy with hy | hy
        · exact hq y hy
        · exact List.mem_singleton.mp hy ▸ hx
      cases x with
      | data d => exact .promise hq _ k
      | _ => exact .promise hqueue ds k
  | void op ih => cases hop

end Op

end UnionVoyager.Vm
