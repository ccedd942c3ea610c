import UnionVoyager.Vm.Promises

/-!
# What the callback of a promise gets

* `process_nest` — a step of an op in the promise's queue keeps its data but for what it drops.
* `process_holds` — what the promise holds, and what a step drops, is what it held and what the step gained.
* `run_holds` — the same over a run.
-/

namespace UnionVoyager.Vm

open Lib List Role

variable {T : QueueMessage} {L : Type}

variable {op x : Op (T.labelled Role)}

namespace Op

theorem forQueue_nest (op : Op T) : Nest op.forQueue := by
  induction op using Op.elemInduct with
  | data d => exact .data d
  | call c => exact .call c
  | defer m t => exact .defer m t
  | deferRelative m s => exact .deferRelative m s
  | seq q ih =>
    rw [forQueue, forQueueList_eq]
    exact .seq (List.forall_mem_map.mpr ih)
  | conc q ih =>
    rw [forQueue, forQueueList_eq]
    exact .conc (List.forall_mem_map.mpr ih)
  | promise q ds k => exact .promise (List.forall_mem_map.mpr fun op _ => clean_label op) ds k
  | void op => exact .void (clean_label op)
  | noop => exact .noop

theorem dataOf_forQueue (op : Op T) : op.forQueue.dataOf = op.dataOf := by
  have hlist : ∀ q : List (Op T), (∀ op ∈ q, op.forQueue.dataOf = op.dataOf) →
      dataOfList (forQueueList q) = dataOfList q := by
    intro q hq
    induction q with
    | nil => rfl
    | cons op q ih =>
      obtain ⟨hop, hq⟩ := List.forall_mem_cons.mp hq
      rw [forQueueList, dataOfList, dataOfList, hop, ih hq]
  induction op using Op.elemInduct with
  | seq q ih => exact hlist q ih
  | conc q ih => exact hlist q ih
  | data | call | defer | deferRelative | promise | void | noop => rfl

theorem mark_clean (l : Role) (hl : l = .other) (op : Op T) : ∀ l' ∈ (l.mark op).labels, l' = .other := by
  subst hl
  exact clean_label op

theorem process_clean (h : Handler T) (now : Nat) (hop : Clean op) :
    (∀ r, (op.process (h.marked mark) now).1 = .ok (some r) → Clean r) ∧
      ∀ a ∈ (op.process (h.marked mark) now).2, ∀ l, a.label = some l → l = .other :=
  process_labels mark_clean h now hop

end Op

theorem gained_of_other {actions : List (Action (T.labelled Role))}
    (h : ∀ a ∈ actions, ∀ l, a.label = some l → l = .other) : gained actions = 0 := by
  induction actions with
  | nil => rfl
  | cons a actions ih =>
    obtain ⟨ha, hactions⟩ := List.forall_mem_cons.mp h
    have hzero : a.gained = 0 := by
      cases a with
      | call c res =>
        obtain ⟨c, l⟩ := c
        obtain rfl : l = .other := ha l rfl
        rfl
      | callback k ds res =>
        obtain ⟨k, l⟩ := k
        obtain rfl : l = .other := ha l rfl
        rfl
      | defer | deferRelative | drop => rfl
    rw [gained, hzero, ih hactions, add_zero]

variable {ds : List T.Data}

namespace Op

/-- What a step of an op in the promise's queue does: its data is kept but for what is dropped, what
    it gains is added, and the promise itself is not called back. -/
structure NestStep (op : Op (T.labelled Role)) (out : Outcome (T.labelled Role)) : Prop where
  nest : ∀ r, out.1 = .ok r → ∀ r' ∈ r.toList, Nest r'
  data : ∀ r, out.1 = .ok r → dataOfList r.toList + op.dropped = op.dataOf + gained out.2
  error : ∀ e, out.1 = .error e → op.dropped = 0 ∧ gained out.2 = 0
  label : ∀ a ∈ out.2, a.label ≠ some .callback

theorem nestStep_answer (hdata : op.dataOf = 0) (hdropped : op.dropped = 0)
    (res : Except QueueError (Op T)) {a : Action (T.labelled Role)} (ha : a.label = some .queue)
    (hgained : a.gained = dataOfAnswer (T := T.labelled Role) (res.map (mark .queue))) :
    NestStep op ((res.map (mark .queue)).map some, [a]) := by
  have hlabel : ∀ a' ∈ [a], a'.label ≠ some .callback := by
    refine List.forall_mem_singleton.mpr ?_
    rw [ha]
    exact fun h => nomatch h
  cases res with
  | error e =>
    refine ⟨fun r hr => (nomatch hr), fun r hr => (nomatch hr), ?_, hlabel⟩
    intro e' _
    exact ⟨hdropped, by rw [gained, hgained]; rfl⟩
  | ok op' =>
    refine ⟨?_, ?_, fun e he => (nomatch he), hlabel⟩
    · intro r hr
      obtain rfl := Except.ok.inj hr
      exact List.forall_mem_singleton.mpr (forQueue_nest op')
    · intro r hr
      obtain rfl := Except.ok.inj hr
      rw [Option.toList_some, dataOfList_singleton, hdropped, hdata, gained, hgained, gained]
      exact (add_zero _).trans (((zero_add _).trans (add_zero _)).symm)

variable {out : Outcome (T.labelled Role)}
  {f : Option (Op (T.labelled Role)) → Op (T.labelled Role)}

theorem nestStep_silent (hdata : op.dataOf = 0) (hdropped : op.dropped = 0)
    (hnest : ∀ r, out.1 = .ok r → ∀ r' ∈ r.toList, Nest r' ∧ r'.dataOf = 0)
    (hlabel : ∀ a ∈ out.2, ∀ l, a.label = some l → l = .other) : NestStep op out := by
  have hgained : gained out.2 = 0 := gained_of_other hlabel
  refine ⟨fun r hr r' hr' => (hnest r hr r' hr').1, ?_, fun e _ => ⟨hdropped, hgained⟩, ?_⟩
  · intro r hr
    have hr' : dataOfList r.toList = 0 := by
      cases r with
      | none => rfl
      | some r' => exact (dataOfList_singleton r').trans (hnest _ hr r' (mem_singleton_self r')).2
    rw [hr', hdata, hdropped, hgained]
  · intro a ha hl
    exact nomatch hlabel a ha _ hl

theorem NestStep.within (h : NestStep x out) {rest : Multiset T.Data}
    (hnest : ∀ r : Option (Op (T.labelled Role)), (∀ r' ∈ r.toList, Nest r') → Nest (f r))
    (hdata : op.dataOf = x.dataOf + rest) (hf : ∀ r, (f r).dataOf = dataOfList r.toList + rest)
    (hdropped : op.dropped = x.dropped) : NestStep op (out.within f) := by
  refine ⟨?_, ?_, ?_, h.label⟩
  · intro r hr
    obtain ⟨r', hr', rfl⟩ := Outcome.within_eq_ok hr
    exact List.forall_mem_singleton.mpr (hnest r' (h.nest r' hr'))
  · intro r hr
    obtain ⟨r', hr', rfl⟩ := Outcome.within_eq_ok hr
    have hone := h.data r' hr'
    rw [Option.toList_some, dataOfList_singleton, hf, hdata, hdropped, add_right_comm, hone]
    exact add_right_comm _ _ _
  · intro e he
    rw [hdropped]
    exact h.error e (Outcome.within_eq_error he)

theorem process_nest (h : Handler T) (now : Nat) (hop : Nest op) :
    NestStep op (op.process (h.marked mark) now) := by
  induction op using Op.frontInduct with
  | data d =>
    refine ⟨?_, ?_, fun e he => (by cases he), List.forall_mem_singleton.mpr fun h => (by cases h)⟩
    · intro r hr
      obtain rfl := Except.ok.inj hr
      exact fun r' hr' => by cases hr'
    · intro r hr
      obtain rfl := Except.ok.inj hr
      exact add_comm _ _
  | call c =>
    cases hop with
    | call c => exact nestStep_answer rfl rfl (h.call c) rfl rfl
  | defer m t =>
    cases hop with
    | defer m t =>
      refine nestStep_silent rfl rfl ?_ (List.forall_mem_singleton.mpr fun l hl => (Option.some.inj hl).symm)
      intro r hr r' hr'
      rw [process] at hr
      obtain rfl := Except.ok.inj hr
      split at hr'
      · rw [List.mem_singleton.mp hr']
        exact ⟨.defer m t, rfl⟩
      · cases hr'
  | deferRelative m s =>
    cases hop with
    | deferRelative m s =>
      refine nestStep_silent rfl rfl ?_ (List.forall_mem_singleton.mpr fun l hl => (Option.some.inj hl).symm)
      intro r hr r' hr'
      obtain rfl := Except.ok.inj hr
      rw [List.mem_singleton.mp hr']
      exact ⟨.defer m _, rfl⟩
  | seqNil | concNil | noop =>
    refine nestStep_silent rfl rfl ?_ fun a ha => by cases ha
    intro r hr
    obtain rfl := Except.ok.inj hr
    exact fun r' hr' => by cases hr'
  | seqCons op q ih =>
    cases hop with
    | seq elems =>
      obtain ⟨hfront, hq⟩ := List.forall_mem_cons.mp elems
      refine (ih hfront).within ?_ rfl (fun r => dataOfList_append _ q) rfl
      intro r hr
      exact .seq (List.forall_mem_append.mpr ⟨hr, hq⟩)
  | concCons op q ih =>
    cases hop with
    | conc elems =>
      obtain ⟨hfront, hq⟩ := List.forall_mem_cons.mp elems
      refine (ih hfront).within ?_ rfl (fun r => (dataOfList_append q _).trans (add_comm _ _)) rfl
      intro r hr
      exact .conc (List.forall_mem_append.mpr ⟨hq, hr⟩)
  | promiseNil ds k =>
    cases hop with
    | promise clean ds k => exact nestStep_answer rfl rfl (h.callback k ds) rfl rfl
  | promiseData d q ds k =>
    cases hop with
    | promise clean ds k =>
      refine nestStep_silent rfl rfl ?_ fun a ha => by cases ha
      intro r hr
      obtain rfl := Except.ok.inj hr
      exact List.forall_mem_singleton.mpr ⟨.promise (List.forall_mem_cons.mp clean).2 _ k, rfl⟩
  | promiseCons op q ds k hdata ih =>
    cases hop with
    | promise clean ds k =>
      obtain ⟨hfront, hq⟩ := List.forall_mem_cons.mp clean
      obtain ⟨hclean, hlabel⟩ := process_clean h now hfront
      rw [process_promise_cons _ now hdata]
      refine nestStep_silent rfl rfl ?_ hlabel
      intro r hr
      obtain ⟨r', hr', rfl⟩ := Outcome.within_eq_ok hr
      refine List.forall_mem_singleton.mpr ?_
      rcases r' with _ | x
      · exact ⟨.promise hq _ k, rfl⟩
      · have hqueue : ∀ y ∈ q ++ [x], Clean y :=
          List.forall_mem_append.mpr ⟨hq, List.forall_mem_singleton.mpr (hclean x hr')⟩
        cases x with
        | data d => exact ⟨.promise hq _ k, rfl⟩
        | _ => exact ⟨.promise hqueue _ k, rfl⟩
  | void op ih =>
    cases hop with
    | void clean =>
      obtain ⟨hclean, hlabel⟩ := process_clean h now clean
      refine nestStep_silent rfl rfl ?_ hlabel
      intro r hr
      obtain ⟨r', hr', rfl⟩ := void_eq_ok hr
      rcases r' with _ | x
      · exact fun r' hr' => by cases hr'
      · refine List.forall_mem_singleton.mpr ?_
        cases x with
        | data d => exact ⟨.noop, rfl⟩
        | _ => exact ⟨.void (hclean _ hr'), rfl⟩

/-- What a step of `op` in a queue `op :: queue` that holds the promise does: the promise is gone,
    or what it holds and what was dropped is what it held and what was gained; its callback gets
    what it held. -/
structure HoldsStep (m : Multiset T.Data) (op : Op (T.labelled Role))
    (queue : List (Op (T.labelled Role))) (out : Outcome (T.labelled Role)) : Prop where
  result : ∀ r, out.1 = .ok r → (∀ x ∈ r.toList ++ queue, Clean x) ∨
    ∃ m', HoldsOne m' (r.toList ++ queue) ∧ m' + op.lost = m + gained out.2
  error : ∀ e, out.1 = .error e → op.lost = 0 ∧ gained out.2 = 0
  data : ∀ k ds res, Action.callback (k, .callback) ds res ∈ out.2 → (ds : Multiset T.Data) = m

variable {m : Multiset T.Data}

theorem lost_of_clean (h : Clean op) : op.lost = 0 := by
  induction op using Op.frontInduct with
  | seqCons op q ih => exact ih fun l hl => h l (mem_labels_seq.mpr ⟨op, mem_cons_self, hl⟩)
  | concCons op q ih => exact ih fun l hl => h l (mem_labels_conc.mpr ⟨op, mem_cons_self, hl⟩)
  | promiseData d q ds k =>
    have hk : k.2 = .other := h k.2 (mem_labels_promise.mpr (.inr rfl))
    rw [lost, hk]
    rfl
  | promiseCons op q ds k hdata ih =>
    have hk : k.2 = .other := h k.2 (mem_labels_promise.mpr (.inr rfl))
    rw [lost, hk]
    exact ih fun l hl => h l (mem_labels_promise.mpr (.inl ⟨op, mem_cons_self, hl⟩))
  | void op ih => exact ih h
  | data | call | defer | deferRelative | seqNil | concNil | promiseNil | noop => rfl

variable {queue : List (Op (T.labelled Role))}

theorem holdsStep_of_clean (h : Handler T) (now : Nat) (hop : Clean op) (hqueue : HoldsOne m queue) :
    HoldsStep m op queue (op.process (h.marked mark) now) := by
  obtain ⟨hclean, hlabel⟩ := process_clean h now hop
  have hgained := gained_of_other hlabel
  have hlost := lost_of_clean hop
  refine ⟨?_, fun e _ => ⟨hlost, hgained⟩, ?_⟩
  · intro r hr
    refine .inr ⟨m, holdsOne_append.mpr (.inr ⟨?_, hqueue⟩), by rw [hlost, hgained]⟩
    intro x hx
    exact hclean x (Option.mem_toList.mp hx ▸ hr)
  · intro k ds res ha
    exact nomatch hlabel _ ha _ rfl

theorem holdsStep_cons (h : Handler T) (now : Nat) (hqueue : HoldsOne m (op :: queue))
    (hop : Holds m op → HoldsStep m op [] (op.process (h.marked mark) now)) :
    HoldsStep m op queue (op.process (h.marked mark) now) := by
  rcases hqueue with ⟨hm, hclean⟩ | ⟨hclean, hqueue⟩
  · have hstep := hop hm
    refine ⟨?_, hstep.error, hstep.data⟩
    intro r hr
    rcases hstep.result r hr with hr | ⟨m', hr, hm'⟩
    · rw [append_nil] at hr
      exact .inl (List.forall_mem_append.mpr ⟨hr, hclean⟩)
    · rw [append_nil] at hr
      exact .inr ⟨m', holdsOne_append.mpr (.inl ⟨hr, hclean⟩), hm'⟩
  · exact holdsStep_of_clean h now hclean hqueue

theorem HoldsStep.within (h : HoldsStep m x queue out)
    (hlost : op.lost = x.lost) (hclean : ∀ r, (∀ y ∈ r.toList ++ queue, Clean y) → Clean (f r))
    (hholds : ∀ r m', HoldsOne m' (r.toList ++ queue) → Holds m' (f r)) :
      HoldsStep m op [] (out.within f) := by
  refine ⟨?_, ?_, h.data⟩
  · intro r hr
    obtain ⟨r', hr', rfl⟩ := Outcome.within_eq_ok hr
    rw [append_nil, Option.toList_some]
    rcases h.result r' hr' with hr' | ⟨m', hr', hm'⟩
    · exact .inl (List.forall_mem_singleton.mpr (hclean r' hr'))
    · exact .inr ⟨m', holdsOne_singleton.mpr (hholds r' m' hr'), hlost ▸ hm'⟩
  · intro e he
    rw [hlost]
    exact h.error e (Outcome.within_eq_error he)

variable {k : T.Callback × Role}

theorem clean_collect (hk : k.2 = .other) (r : Option (Op (T.labelled Role)))
    (h : ∀ x ∈ r.toList ++ queue, Clean x) : Clean (collect queue ds k r) := by
  intro l hl
  rcases mem_labels_collect.mp hl with ⟨x, hx, hl⟩ | hl
  · exact h x (List.perm_append_comm.subset hx) l hl
  · exact hl.trans hk

theorem holds_collect (hk : k.2 = .other) (r : Option (Op (T.labelled Role))) (m' : Multiset T.Data)
    (h : HoldsOne m' (r.toList ++ queue)) : Holds m' (collect queue ds k r) := by
  rcases r with _ | x
  · exact .inr ⟨hk, h⟩
  · have hperm : HoldsOne m' (queue ++ [x]) := (HoldsOne.perm perm_append_comm).mp h
    cases x with
    | data d =>
      rcases h with ⟨h, -⟩ | ⟨-, h⟩
      · exact h.elim
      · exact .inr ⟨hk, h⟩
    | _ => exact .inr ⟨hk, hperm⟩

theorem holdsStep_collect (h : Handler T) (now : Nat) (hk : k.2 = .callback) (hdata : ∀ d, op ≠ .data d)
    (helems : ∀ x ∈ op :: queue, Nest x) (hm : (ds : Multiset T.Data) + dataOfList (op :: queue) = m) :
    HoldsStep m (.promise (op :: queue) ds k) []
      ((op.process (h.marked mark) now).within (collect queue ds k)) := by
  obtain ⟨hop, hqueue⟩ := List.forall_mem_cons.mp helems
  have hstep := process_nest h now hop
  have hlost : (promise (op :: queue) ds k).lost = op.dropped := by
    rw [lost, if_pos hk]
    cases op with
    | data d => exact (hdata d rfl).elim
    | _ => rfl
  refine ⟨?_, ?_, ?_⟩
  · intro r hr
    obtain ⟨r', hr', rfl⟩ := Outcome.within_eq_ok hr
    rw [append_nil, Option.toList_some]
    refine .inr ⟨(ds : Multiset T.Data) + dataOfList queue + dataOfList r'.toList,
      holdsOne_singleton.mpr ?_, ?_⟩
    · have hnest := hstep.nest r' hr'
      rcases r' with _ | x
      · exact .inl ⟨hk, hqueue, (add_zero _).symm⟩
      · have hall : ∀ y ∈ queue ++ [x], Nest y := List.forall_mem_append.mpr ⟨hqueue, hnest⟩
        cases x with
        | data d =>
          refine .inl ⟨hk, hqueue, ?_⟩
          rw [Option.toList_some, dataOfList_singleton, dataOf, ← Multiset.coe_add, add_right_comm]
          rfl
        | _ =>
          refine .inl ⟨hk, hall, ?_⟩
          rw [dataOfList_append, add_assoc]
          rfl
    · rw [hlost, add_assoc, hstep.data r' hr', ← hm, dataOfList]
      show _ = (ds : Multiset T.Data) + (op.dataOf + dataOfList queue) + gained _
      abel
  · intro e he
    rw [hlost]
    exact hstep.error e (Outcome.within_eq_error he)
  · intro k' ds' res ha
    exact (hstep.label _ ha rfl).elim

theorem clean_answer (res : Except QueueError (Op T)) {r : Option (Op (T.labelled Role))}
    (hr : (res.map (label other)).map some = .ok r) : ∀ x ∈ r.toList, Clean x := by
  cases res with
  | error e => cases hr
  | ok op =>
    obtain rfl := Except.ok.inj hr
    exact List.forall_mem_singleton.mpr (clean_label op)

theorem process_holds (h : Handler T) (now : Nat) (hop : Holds m op) :
    HoldsStep m op [] (op.process (h.marked mark) now) := by
  induction op using Op.frontInduct with
  | data | call | defer | deferRelative | seqNil | concNil | noop => exact hop.elim
  | seqCons op q ih =>
    exact (holdsStep_cons h now hop ih).within rfl (fun r => clean_seq) fun r m' hr => hr
  | concCons op q ih =>
    refine (holdsStep_cons h now hop ih).within rfl (fun r hr => clean_conc ?_) fun r m' hr => ?_
    · exact fun x hx => hr x (List.perm_append_comm.subset hx)
    · exact (HoldsOne.perm perm_append_comm).mp hr
  | promiseNil ds k =>
    obtain ⟨k, l⟩ := k
    rcases hop with ⟨hk, -, hm⟩ | ⟨-, hop⟩
    · obtain rfl : l = .callback := hk
      refine ⟨?_, fun e _ => ⟨rfl, rfl⟩, ?_⟩
      · intro r hr
        refine .inl ?_
        rw [append_nil]
        exact clean_answer (h.callback k ds) hr
      · intro k' ds' res ha
        obtain ⟨-, rfl, -⟩ := Action.callback.inj (List.mem_singleton.mp ha)
        exact (add_zero _).symm.trans hm
    · exact hop.elim
  | promiseData d q ds k =>
    refine ⟨?_, fun e he => (nomatch he), fun k' ds' res ha => (nomatch ha)⟩
    intro r hr
    obtain rfl := Except.ok.inj hr
    rw [append_nil, Option.toList_some]
    refine .inr ⟨m, holdsOne_singleton.mpr ?_, ?_⟩
    · rcases hop with ⟨hk, helems, hm⟩ | ⟨hk, hop⟩
      · refine .inl ⟨hk, (List.forall_mem_cons.mp helems).2, ?_⟩
        rw [← hm, ← Multiset.coe_add, add_assoc]
        rfl
      · rcases hop with ⟨hop, -⟩ | ⟨-, hop⟩
        · exact hop.elim
        · exact .inr ⟨hk, hop⟩
    · have hlost : (promise (.data d :: q) ds k).lost = 0 := by
        rw [lost]
        split <;> rfl
      rw [hlost]
      rfl
  | promiseCons op q ds k hdata ih =>
    rw [process_promise_cons _ now hdata]
    rcases hop with ⟨hk, helems, hm⟩ | ⟨hk, hop⟩
    · exact holdsStep_collect h now hk hdata helems hm
    · refine (holdsStep_cons h now hop ih).within ?_ (clean_collect hk) (holds_collect hk)
      rw [lost, hk]
      rfl
  | void op ih =>
    have hstep := ih hop
    refine ⟨?_, ?_, hstep.data⟩
    · intro r hr
      obtain ⟨r', hr', rfl⟩ := void_eq_ok hr
      rw [append_nil]
      rcases hstep.result r' hr' with hclean | ⟨m', hholds, hm'⟩
      · refine .inl ?_
        rcases r' with _ | x
        · exact fun y hy => nomatch hy
        · refine List.forall_mem_singleton.mpr fun l hl => ?_
          rw [labels, leaves_voidOf] at hl
          exact hclean x mem_cons_self l hl
      · refine .inr ⟨m', ?_, hm'⟩
        rcases r' with _ | x
        · exact hholds.elim
        · have hx : Holds m' x := holdsOne_singleton.mp hholds
          refine holdsOne_singleton.mpr ?_
          cases x with
          | data d => exact hx.elim
          | _ => exact hx
    · intro e he
      rw [process] at he
      cases hres : (op.process (h.marked mark) now).1 with
      | error e' => exact hstep.error e' hres
      | ok r' =>
        rw [hres] at he
        cases he

end Op

/-- The data that a step drops out of the promise's queue. -/
def lostAt (items : List (Op (T.labelled Role))) (i : Input (T.labelled Role)) : Multiset T.Data :=
  match items[i.item]? with
  | none => 0
  | some op => op.lost

/-- The data dropped in a run. -/
def lostIn (items : List (Op (T.labelled Role))) : List (Input (T.labelled Role)) → Multiset T.Data
  | [] => 0
  | i :: is => lostAt items i + lostIn (step items i).1 is

theorem gained_append (actions actions' : List (Action (T.labelled Role))) :
    gained (actions ++ actions') = gained actions + gained actions' := by
  induction actions with
  | nil => exact (zero_add _).symm
  | cons a actions ih => rw [cons_append, gained, ih, gained, add_assoc]

theorem lostIn_eq_zero_iff (items : List (Op (T.labelled Role))) (is : List (Input (T.labelled Role))) :
    lostIn items is = 0 ↔ Machine.Meets step (fun s i => lostAt s i = 0) items is := by
  induction is generalizing items with
  | nil => exact iff_of_true rfl trivial
  | cons i is ih => rw [lostIn, add_eq_zero, ih, Machine.Meets]

section Runs

open Op

variable {items : List (Op (T.labelled Role))} {m : Multiset T.Data}

theorem step_clean (hitems : ∀ op ∈ items, Clean op) (i : Input T) :
    (∀ op ∈ (step items (i.marked mark)).1, Clean op) ∧
      ∀ a ∈ (step items (i.marked mark)).2, ∀ l, a.label = some l → l = .other := by
  have herase : ∀ op ∈ items.eraseIdx i.item, Clean op :=
    fun op hop => hitems op ((eraseIdx_sublist items i.item).subset hop)
  rcases step_cases items (i.marked mark) with ⟨heq, -⟩ | ⟨op, hop, hact, hres⟩
  · rw [heq]
    exact ⟨hitems, fun a ha => nomatch ha⟩
  · obtain ⟨hclean, hlabel⟩ := process_clean i.handler i.now (hitems op (mem_of_getElem? hop))
    rw [hact]
    refine ⟨?_, hlabel⟩
    rcases hres with ⟨r, hr, heq⟩ | ⟨e, -, heq | heq⟩
    · rw [heq]
      refine List.forall_mem_append.mpr ⟨herase, ?_⟩
      intro x hx
      obtain ⟨y, hy, hx⟩ := List.mem_flatMap.mp hx
      exact normalize_clean (hclean y (Option.mem_toList.mp hy ▸ hr)) x hx
    · rw [heq]
      exact hitems
    · rw [heq]
      exact herase

theorem requeue_holds {r : Option (Op (T.labelled Role))} {rest : List (Op (T.labelled Role))}
    (h : HoldsOne m (r.toList ++ rest)) : HoldsOne m (rest ++ requeue r) := by
  refine (HoldsOne.perm perm_append_comm).mp ?_
  rcases holdsOne_append.mp h with ⟨h, hrest⟩ | ⟨h, hrest⟩
  · refine holdsOne_append.mpr (.inl ⟨?_, hrest⟩)
    exact HoldsOne.flatMap h (fun op _ => normalize_holds) fun op _ => normalize_clean
  · refine holdsOne_append.mpr (.inr ⟨?_, hrest⟩)
    intro x hx
    obtain ⟨y, hy, hx⟩ := List.mem_flatMap.mp hx
    exact normalize_clean (h y hy) x hx

theorem step_holds (hitems : HoldsOne m items) (i : Input T) :
      ((∀ op ∈ (step items (i.marked mark)).1, Clean op) ∨
      ∃ m', HoldsOne m' (step items (i.marked mark)).1 ∧
        m' + lostAt items (i.marked mark) = m + gained (step items (i.marked mark)).2) ∧
    ∀ k ds res, Action.callback (k, .callback) ds res ∈ (step items (i.marked mark)).2 →
      (ds : Multiset T.Data) = m := by
  rcases step_cases items (i.marked mark) with ⟨heq, hnone⟩ | ⟨op, hop, hact, hres⟩
  · rw [heq]
    refine ⟨.inr ⟨m, hitems, ?_⟩, fun k ds res ha => nomatch ha⟩
    rw [lostAt, hnone]
    rfl
  · have hcons : HoldsOne m (op :: items.eraseIdx i.item) :=
    (HoldsOne.perm (perm_cons_eraseIdx hop)).mp hitems
    have hstep := holdsStep_cons i.handler i.now hcons (process_holds i.handler i.now)
    have hlost : lostAt items (i.marked mark) = op.lost := by rw [lostAt, hop]
    rw [hact, hlost]
    refine ⟨?_, hstep.data⟩
    rcases hres with ⟨r, hr, heq⟩ | ⟨e, he, heq⟩
    · rw [heq]
      rcases hstep.result r hr with hclean | ⟨m', hholds, hm'⟩
      · refine .inl ?_
        obtain ⟨hr', hrest⟩ := List.forall_mem_append.mp hclean
        refine List.forall_mem_append.mpr ⟨hrest, ?_⟩
        intro x hx
        obtain ⟨y, hy, hx⟩ := List.mem_flatMap.mp hx
        exact normalize_clean (hr' y hy) x hx
      · exact .inr ⟨m', requeue_holds hholds, hm'⟩
    · obtain ⟨hzero, hgained⟩ := hstep.error e he
      rw [hzero]
      rcases heq with heq | heq
      · rw [heq]
        exact .inr ⟨m, hitems, congrArg (m + ·) hgained.symm⟩
      · rw [heq]
        rcases hcons with ⟨-, hclean⟩ | ⟨-, hrest⟩
        · exact .inl hclean
        · exact .inr ⟨m, hrest, congrArg (m + ·) hgained.symm⟩

theorem run_holds (hitems : HoldsOne m items) (is : List (Input T)) :
    (∀ op ∈ run items (is.map (Input.marked mark)), Clean op) ∨
      ∃ m', HoldsOne m' (run items (is.map (Input.marked mark))) ∧
        m' + lostIn items (is.map (Input.marked mark)) =
          m + gained (trace items (is.map (Input.marked mark))) := by
  have hclean : ∀ (is : List (Input T)) (items : List (Op (T.labelled Role))), (∀ op ∈ items, Clean op) →
      ∀ op ∈ run items (is.map (Input.marked mark)), Clean op := by
    intro is
    induction is with
    | nil => exact fun items h => h
    | cons i is ih => exact fun items h => ih _ (step_clean h i).1
  induction is generalizing items m with
  | nil => exact .inr ⟨m, hitems, rfl⟩
  | cons i is ih =>
    rcases (step_holds hitems i).1 with hnone | ⟨m', hm', hsum⟩
    · exact .inl (hclean is _ hnone)
    · rcases ih hm' with hnone | ⟨m'', hm'', hsum'⟩
      · exact .inl hnone
      · refine .inr ⟨m'', hm'', ?_⟩
        rw [map_cons, lostIn, trace, Machine.trace, gained_append]
        calc m'' + (lostAt items (i.marked mark) + lostIn _ _)
            = (m'' + lostIn _ _) + lostAt items (i.marked mark) := by abel
          _ = (m' + lostAt items (i.marked mark)) + gained _ := by rw [hsum', add_right_comm]
          _ = m + (gained _ + gained _) := by rw [hsum, add_assoc]

end Runs

/-! ## The promise in its place -/

namespace Op

variable {m : Multiset T.Data}

theorem holdsOne_around (left right : List (Op T)) (hx : Holds m x) :
    HoldsOne m (left.map (label other) ++ x :: right.map (label other)) := by
  have hother : ∀ ops : List (Op T), ∀ op ∈ ops.map (label other), Clean op :=
    fun ops => List.forall_mem_map.mpr fun op _ => clean_label op
  exact holdsOne_append.mpr (.inr ⟨hother left, .inl ⟨hx, hother right⟩⟩)

theorem fill_holds (c : Ctx T) (hx : Holds m x) : Holds m ((c.label other).fill x) := by
  induction c with
  | hole => exact hx
  | seq left c right ih => exact holdsOne_around left right ih
  | conc left c right ih => exact holdsOne_around left right ih
  | promise left c right ds k ih => exact .inr ⟨rfl, holdsOne_around left right ih⟩
  | void c ih => exact ih

def watchedPromise (queue : List (Op T)) (ds : List T.Data) (receiver : T.Callback) : Op (T.labelled Role) :=
  .promise (queue.map forQueue) ds (receiver, .callback)

theorem erase_watchedPromise (queue : List (Op T)) (ds : List T.Data) (receiver : T.Callback) :
    (watchedPromise queue ds receiver).erase = .promise queue ds receiver := by
  rw [watchedPromise, erase, ← forQueueList_eq, erase_forQueueList queue fun op _ => erase_forQueue op]

theorem watchedPromise_holds (queue : List (Op T)) (ds : List T.Data) (receiver : T.Callback) :
    Holds ((ds : Multiset T.Data) + dataOfList queue) (watchedPromise queue ds receiver) := by
  refine .inl ⟨rfl, List.forall_mem_map.mpr fun op _ => forQueue_nest op, ?_⟩
  have hdata : dataOfList (queue.map forQueue) = dataOfList queue := by
    induction queue with
    | nil => rfl
    | cons op queue ih => rw [map_cons, dataOfList, dataOfList, dataOf_forQueue, ih]
  rw [hdata]

end Op

open Op

/-- The queue `others` with an op around the promise, enqueued. -/
def watched (others : List (Op T)) (c : Ctx T) (queue : List (Op T)) (ds : List T.Data)
    (receiver : T.Callback) : List (Op (T.labelled Role)) :=
  others.map (label other) ++ ((c.label other).fill (watchedPromise queue ds receiver)).normalize

theorem erase_watched (others : List (Op T)) (c : Ctx T) (queue : List (Op T)) (ds : List T.Data)
    (receiver : T.Callback) : (watched others c queue ds receiver).map Op.erase =
      others ++ (c.fill (.promise queue ds receiver)).normalize := by
  rw [watched, map_append, Ctx.map_erase_label, ← normalize_erase, Ctx.erase_fill, erase_watchedPromise]

theorem watched_holds (others : List (Op T)) (c : Ctx T) (queue : List (Op T)) (ds : List T.Data)
    (receiver : T.Callback) :
    HoldsOne ((ds : Multiset T.Data) + dataOfList queue) (watched others c queue ds receiver) := by
  refine holdsOne_append.mpr (.inr ⟨List.forall_mem_map.mpr fun op _ => clean_label op, ?_⟩)
  exact normalize_holds (fill_holds c (watchedPromise_holds queue ds receiver))

/-! ## Without `Void` -/

def NormalHost (items : List (Op (T.labelled Role))) : Prop := ∀ op ∈ items, callback ∈ op.labels → Normal op

namespace Op

theorem lost_of_normal (h : Normal op) : op.lost = 0 := by
  induction op using Op.frontInduct with
  | seqCons op q ih =>
    cases h with
    | seq front elems => exact ih (elems op mem_cons_self)
  | concCons op q ih =>
    cases h with
    | conc noData elems => exact ih (elems op mem_cons_self)
  | promiseData d q ds k =>
    rw [lost]
    split <;> rfl
  | promiseCons op q ds k hdata ih =>
    cases h with
    | promise elems =>
      have hop := elems op mem_cons_self
      rw [lost]
      split
      · split
        · rfl
        · rename_i hnot
          exact dropped_of_normal hop (Bool.not_eq_true _ ▸ hnot)
      · exact ih hop
  | void op => cases h
  | data | call | defer | deferRelative | seqNil | concNil | promiseNil | noop => rfl

theorem Nest.not_callback (h : Nest op) : ∀ l ∈ op.labels, l ≠ .callback := by
  have hother : ∀ l : Role, l = .other → l ≠ .callback := fun l hl heq => nomatch hl.symm.trans heq
  induction h with
  | data d | noop => exact fun l hl => nomatch hl
  | call c => exact List.forall_mem_singleton.mpr fun heq => nomatch heq
  | defer m t | deferRelative m s => exact List.forall_mem_singleton.mpr (hother _ rfl)
  | seq elems ih =>
    intro l hl
    obtain ⟨op, hop, hl⟩ := mem_labels_seq.mp hl
    exact ih op hop l hl
  | conc elems ih =>
    intro l hl
    obtain ⟨op, hop, hl⟩ := mem_labels_conc.mp hl
    exact ih op hop l hl
  | promise clean ds k =>
    intro l hl
    rcases mem_labels_promise.mp hl with ⟨op, hop, hl⟩ | rfl
    · exact hother l (clean op hop l hl)
    · exact fun heq => nomatch heq
  | void clean => exact fun l hl => hother l (clean l hl)

theorem mark_not_callback (l : Role) (_ : l ≠ .callback) (op : Op T) : ∀ l' ∈ (l.mark op).labels,
    l' ≠ .callback := by
  cases l with
  | queue => exact (forQueue_nest op).not_callback
  | callback | other => exact fun l' hl' heq => nomatch (clean_label op l' hl').symm.trans heq

theorem callback_mem_of_lost (h : op.lost ≠ 0) : callback ∈ op.labels := by
  induction op using Op.frontInduct with
  | seqCons op q ih => exact mem_labels_seq.mpr ⟨op, mem_cons_self, ih h⟩
  | concCons op q ih => exact mem_labels_conc.mpr ⟨op, mem_cons_self, ih h⟩
  | promiseData d q ds k =>
    refine (h ?_).elim
    rw [lost]
    split <;> rfl
  | promiseCons op q ds k hdata ih =>
    rw [lost] at h
    split at h
    · rename_i hk
      exact mem_labels_promise.mpr (.inr hk.symm)
    · exact mem_labels_promise.mpr (.inl ⟨op, mem_cons_self, ih h⟩)
  | void op ih => exact ih h
  | data | call | defer | deferRelative | seqNil | concNil | promiseNil | noop => exact (h rfl).elim

end Op

variable {items : List (Op (T.labelled Role))}

theorem NormalHost.lostAt (h : NormalHost items) (i : Input (T.labelled Role)) : lostAt items i = 0 := by
  unfold Vm.lostAt
  split
  · rfl
  · rename_i op hop
    by_contra hne
    exact hne (lost_of_normal (h op (mem_of_getElem? hop) (callback_mem_of_lost hne)))

theorem NormalHost.step (h : NormalHost items) {i : Input T} (hi : i.handler.VoidFree) :
    NormalHost (step items (i.marked mark)).1 := by
  have herase : NormalHost (items.eraseIdx i.item) :=
    fun op hop => h op ((eraseIdx_sublist items i.item).subset hop)
  rcases step_cases items (i.marked mark) with ⟨heq, -⟩ | ⟨op, hop, -, ⟨r, hr, heq⟩ | ⟨e, -, heq | heq⟩⟩
  · rw [heq]
    exact h
  · rw [heq]
    intro x hx hlabel
    rcases List.mem_append.mp hx with hx | hx
    · exact herase x hx hlabel
    · obtain ⟨r', hr', hx'⟩ := List.mem_flatMap.mp hx
      obtain rfl : r = some r' := Option.mem_toList.mp hr'
      have hop_callback : callback ∈ op.labels := by
        by_contra hnot
        have hlabels : ∀ l ∈ op.labels, l ≠ .callback := fun l hl heq => hnot (heq ▸ hl)
        have hkept := (process_labels mark_not_callback i.handler i.now hlabels).1 r' hr
        exact hkept _ (labels_subset (leaves_normalize r') hx' hlabel) rfl
      have hvoid := (h op (mem_of_getElem? hop) hop_callback).voidFree
      exact normalize_normal (process_voidFree (hi.marked erase_mark) i.now hvoid hr) x hx'
  · rw [heq]
    exact h
  · rw [heq]
    exact herase

theorem NormalHost.meets (h : NormalHost items) {is : List (Input T)} (his : ∀ i ∈ is, i.handler.VoidFree) :
    Machine.Meets Vm.step (fun s i => Vm.lostAt s i = 0) items (is.map (Input.marked mark)) := by
  induction is generalizing items with
  | nil => trivial
  | cons i is ih =>
    obtain ⟨hi, his⟩ := List.forall_mem_cons.mp his
    exact ⟨h.lostAt _, ih (h.step hi) his⟩

theorem watched_normal (others : List (Op T)) {c : Ctx T} {queue : List (Op T)} {receiver : T.Callback}
    (h : (c.fill (.promise queue ds receiver)).VoidFree) :
      NormalHost (watched others c queue ds receiver) := by
  intro op hop hlabel
  rcases List.mem_append.mp hop with hop | hop
  · obtain ⟨op, -, rfl⟩ := List.mem_map.mp hop
    exact nomatch clean_label op _ hlabel
  · refine normalize_normal (.of_erase ?_) op hop
    rw [Ctx.erase_fill, erase_watchedPromise]
    exact h

/-- **What the callback of a promise gets.**  Whenever the callback of a promise at any place of an
    op is invoked, its data is what the promise had, what was in its queue, and what the calls and
    callbacks for its queue returned, iff no earlier step dropped data out of the queue; none does
    in a run without a `Void`. -/
theorem promise_complete_iff (others : List (Op T)) (c : Ctx T) (queue : List (Op T))
    (ds : List T.Data) (receiver : T.Callback) (is : List (Input T)) :
    let items := watched others c queue ds receiver
    let js := is.map (Input.marked mark)
    (trace (others ++ (c.fill (.promise queue ds receiver)).normalize) is =
      (trace items js).map Action.erase) ∧
    (∀ past i rest, is = past ++ i :: rest → let before := past.map (Input.marked mark)
      ∀ (k : T.Callback) (data : List T.Data) (res : Except QueueError (Op (T.labelled Role))),
        .callback (k, .callback) data res ∈ (step (run items before) (i.marked mark)).2 →
        ((data : Multiset T.Data) = ds + dataOfList queue + gained (trace items before) ↔
          Machine.Meets step (fun s i => lostAt s i = 0) items before)) ∧
    ((c.fill (.promise queue ds receiver)).VoidFree → (∀ i ∈ is, i.handler.VoidFree) →
      Machine.Meets step (fun s i => lostAt s i = 0) items js) := by
  intro items js
  have hitems := watched_holds others c queue ds receiver
  refine ⟨?_, ?_, fun hvoid his => (watched_normal others hvoid).meets his⟩
  · have herase := (run_erase erase_mark items is).2
    rwa [erase_watched] at herase
  · intro past i rest _ before k data res hdata
    rcases run_holds hitems past with hclean | ⟨m, hholds, hsum⟩
    · exact nomatch (step_clean hclean i).2 _ hdata _ rfl
    · rw [← lostIn_eq_zero_iff, ← hsum, (step_holds hholds i).2 k data res hdata]
      exact left_eq_add

/-- Call `0` returns a promise inside a `Void`, which waits for the data of a `Conc`. -/
def Sample.voidedPromise : Handler Sample.Msg where
  call
    | 0 => .ok (.void (.promise [.conc [.call 1, .call 2]] [] 7))
    | c => .ok (.data c)
  callback _ _ := .ok .noop

open Sample in
/-- The op has no `Void`, but the handler returns one: both calls for the queue return data, which
    is dropped, and the callback gets none. -/
theorem voided_promise_gets_nothing : (Op.call (T := Msg) 0).VoidFree ∧
    trace [Op.call (T := Msg) 0] (replicate 7 ⟨0, 0, voidedPromise⟩) =
      [.call 0 (.ok (.void (.promise [.conc [.call 1, .call 2]] [] 7))), .call 1 (.ok (.data 1)),
        .call 2 (.ok (.data 2)), .drop 1, .drop 2, .callback 7 [] (.ok .noop)] ∧
    (run [Op.call (T := Msg) 0] [⟨0, 0, voidedPromise⟩] =
      (watched (T := Msg) [] (.void .hole) [.conc [.call 1, .call 2]] [] 7).map Op.erase) ∧
    gained (trace (watched (T := Msg) [] (.void .hole) [.conc [.call 1, .call 2]] [] 7)
      ((replicate 5 ⟨0, 0, voidedPromise⟩).map (Input.marked mark))) = {1, 2} :=
  ⟨.call _, rfl, rfl, rfl⟩

end UnionVoyager.Vm
