import UnionVoyager.Vm.Evaluation

/-!
# What `Void` changes

A run of the engine on an op, and one on the op in a `Void`, with one handler and any orders of the items.

* `run_total` — a run whose steps drop no data out of a promise's queue does a part of what its items perform.
* `exists_completing` — a run that drops no data of items that can run to the end can be brought
  there: of the steps that are no call and no callback, each leaves less.
* `schedules_agree` — the order of the items does not matter.
-/

namespace UnionVoyager.Vm

open Lib Op List

variable {T : QueueMessage} {op : Op T}

theorem Op.answered_of_error {h : Handler T} {now : Nat} {e : QueueError}
    (he : (op.process h now).1 = .error e) : ∃ a ∈ (op.process h now).2, ¬ a.Answered := by
  induction op using Op.frontInduct generalizing e with
  | data | deferRelative | seqNil | concNil | promiseData | noop | defer => cases he
  | call | promiseNil =>
    refine ⟨_, mem_singleton_self _, ?_⟩
    rintro ⟨op, hop⟩
    rw [process, hop] at he
    cases he
  | seqCons op q ih => exact ih (Outcome.within_eq_error he)
  | concCons op q ih => exact ih (Outcome.within_eq_error he)
  | promiseCons op q ds k hdata ih =>
    rw [process_promise_cons h now hdata] at he ⊢
    exact ih (Outcome.within_eq_error he)
  | void op ih =>
    rw [process] at he
    cases hres : (op.process h now).1 with
    | error e' => exact ih hres
    | ok r =>
      rw [hres] at he
      cases he

/-- Run to the end, the items perform `es`. -/
def Total (h : Handler T) (items : List (Op T)) (es : Multiset (Event T)) : Prop :=
      ∃ ds, PerformsAll h items es ds

/-- The step drops no data out of a promise's queue. -/
def LosslessAt (items : List (Op T)) (i : Input T) : Prop := ∀ op, items[i.item]? = some op → op.Lossless

/-- The inputs of a run with one handler, from the items that are processed and the times. -/
def inputs (h : Handler T) (is : List (Nat × Nat)) : List (Input T) := is.map fun i => ⟨i.1, i.2, h⟩

variable {h : Handler T} {items : List (Op T)} {es : Multiset (Event T)} {is : List (Nat × Nat)}

theorem total_requeue {r : Option (Op T)} {rest : List (Op T)} {ds : Multiset T.Data} :
    PerformsAll h (rest ++ requeue r) es ds ↔ PerformsAll h (r.toList ++ rest) es ds := by
  rw [requeue, performsAll_append_congr (performsAll_flatMap fun op _ => performsAll_normalize op)]
  exact ⟨PerformsAll.perm perm_append_comm, PerformsAll.perm perm_append_comm⟩

theorem leave_total (hperm : h.OrderFree) {n now : Nat} (hop : items[n]? = some op)
    (hlossless : op.Lossless) {r : Option (Op T)} (hr : (op.process h now).1 = .ok r)
      (es : Multiset (Event T)) :
    Total h items es ↔
      ∃ es', Total h (items.eraseIdx n ++ requeue r) es' ∧ es = events (op.process h now).2 + es' := by
  have hperm_items := perm_cons_eraseIdx hop
  have hfront := after_cons (process_performs hperm now hlossless hr) (items.eraseIdx n)
  constructor
  · rintro ⟨ds, hall⟩
    obtain ⟨es', ds', hrest, rfl, rfl⟩ := (hfront _ _).mp (hall.perm hperm_items)
    exact ⟨es', ⟨ds', total_requeue.mpr hrest⟩, rfl⟩
  · rintro ⟨es', ⟨ds', hrest⟩, rfl⟩
    exact ⟨_, ((hfront _ _).mpr ⟨es', ds', total_requeue.mp hrest, rfl, rfl⟩).perm hperm_items.symm⟩

theorem step_total (hperm : h.OrderFree) {i : Input T} (hi : i.handler = h)
    (hlossless : LosslessAt items i) (hanswered : ∀ a ∈ (step items i).2, a.Answered)
      (es : Multiset (Event T)) :
    Total h items es ↔ ∃ es', Total h (step items i).1 es' ∧ es = events (step items i).2 + es' := by
  subst hi
  rcases step_cases items i with ⟨heq, -⟩ | ⟨op, hop, hact, ⟨r, hr, heq⟩ | ⟨e, he, -⟩⟩
  · rw [heq]
    constructor
    · exact fun htotal => ⟨es, htotal, (zero_add es).symm⟩
    · rintro ⟨es', htotal, rfl⟩
      rwa [events, zero_add]
  · rw [heq, hact]
    exact leave_total hperm hop (hlossless op hop) hr es
  · obtain ⟨a, ha, hnot⟩ := answered_of_error he
    exact (hnot (hanswered a (hact ▸ ha))).elim

theorem run_total (hperm : h.OrderFree) (is : List (Nat × Nat))
    (hlossless : Machine.Meets step LosslessAt items (inputs h is))
    (hanswered : ∀ a ∈ trace items (inputs h is), a.Answered) (es : Multiset (Event T)) :
    Total h items es ↔
      ∃ es', Total h (run items (inputs h is)) es' ∧ es = events (trace items (inputs h is)) + es' := by
  induction is generalizing items es with
  | nil =>
    constructor
    · exact fun htotal => ⟨es, htotal, (zero_add es).symm⟩
    · rintro ⟨es', htotal, rfl⟩
      rwa [show events (trace items (inputs h [])) = 0 from rfl, zero_add]
  | cons i is ih =>
    obtain ⟨hfirst, hlater⟩ := hlossless
    obtain ⟨hafirst, halater⟩ := List.forall_mem_append.mp hanswered
    have hevents : events (trace items (inputs h (i :: is))) =
        events (step items ⟨i.1, i.2, h⟩).2 + events (trace (step items ⟨i.1, i.2, h⟩).1 (inputs h is)) :=
      events_append _ _
    rw [step_total hperm rfl hfirst hafirst, hevents]
    constructor
    · rintro ⟨es', htotal, rfl⟩
      obtain ⟨es'', hrest, rfl⟩ := (ih hlater halater es').mp htotal
      exact ⟨es'', hrest, (add_assoc ..).symm⟩
    · rintro ⟨es'', htotal, rfl⟩
      exact ⟨_, (ih hlater halater _).mpr ⟨es'', htotal, rfl⟩, add_assoc ..⟩

/-! ## Completing a run -/

namespace Op

/-! Steps that are no call and no callback leave less of an op. -/

mutual
def weight : Op T → Nat
  | .deferRelative _ _ => 2
  | .seq queue | .conc queue | .promise queue _ _ => weightAll queue + 1
  | .void op => weight op + 1
  | _ => 1
def weightAll : List (Op T) → Nat
  | [] => 0
  | op :: queue => weight op + weightAll queue
end

theorem weightAll_eq (ops : List (Op T)) : weightAll ops = (ops.map weight).sum := by
  induction ops with
  | nil => rfl
  | cons op ops ih => rw [weightAll, ih, map_cons, sum_cons]

theorem weightAll_append (ops ops' : List (Op T)) :
    weightAll (ops ++ ops') = weightAll ops + weightAll ops' := by
  simp only [weightAll_eq, map_append, sum_append]

theorem weightAll_singleton (op : Op T) : weightAll [op] = weight op := rfl

theorem weightAll_flatMap_le {f : Op T → List (Op T)} {ops : List (Op T)}
    (hf : ∀ op ∈ ops, weightAll (f op) ≤ weight op) : weightAll (ops.flatMap f) ≤ weightAll ops := by
  induction ops with
  | nil => exact Nat.le_refl 0
  | cons op ops ih =>
    obtain ⟨hop, hops⟩ := List.forall_mem_cons.mp hf
    rw [flatMap_cons, weightAll_append]
    exact Nat.add_le_add hop (ih hops)

theorem weightAll_seqElems_le (op : Op T) : weightAll op.seqElems ≤ weight op := by
  cases op with
  | seq q => exact Nat.le_succ _
  | _ => exact Nat.le_refl _

theorem weightAll_concElems_le (op : Op T) : weightAll op.concElems ≤ weight op := by
  cases op with
  | conc q => exact Nat.le_succ _
  | _ => exact Nat.le_refl _

theorem weightAll_normalizeSeq_le (ops : List (Op T)) : weightAll (normalizeSeq ops) ≤ weightAll ops + 1 := by
  rcases ops with _ | ⟨a, _ | ⟨b, rest⟩⟩
  · exact Nat.zero_le _
  · exact Nat.le_succ _
  · have hsplit := congrArg weightAll (takeWhile_append_dropWhile (p := isData) (l := a :: b :: rest))
    have helems : weightAll (((a :: b :: rest).dropWhile isData).flatMap seqElems) ≤ _ :=
      weightAll_flatMap_le fun op _ => weightAll_seqElems_le op
    rw [weightAll_append] at hsplit
    simp only [normalizeSeq]
    split
    · omega
    · rw [weightAll_append, weightAll_singleton, weight]
      omega

theorem weightAll_packConc_le (ops : List (Op T)) : weightAll (packConc ops) ≤ weightAll ops + 1 := by
  rcases ops with _ | ⟨a, _ | ⟨b, rest⟩⟩
  · exact Nat.zero_le _
  · exact Nat.le_succ _
  · exact Nat.le_refl _

theorem weightAll_normalizeConc_le (ops : List (Op T)) :
    weightAll (normalizeConc ops) ≤ weightAll ops + 1 := by
  have helems : weightAll (ops.flatMap concElems) ≤ weightAll ops :=
    weightAll_flatMap_le fun op _ => weightAll_concElems_le op
  have hsplit := ((filter_append_perm isData (ops.flatMap concElems)).map weight).sum_eq
  rw [← weightAll_eq, ← weightAll_eq, weightAll_append] at hsplit
  have hpack := weightAll_packConc_le ((ops.flatMap concElems).filter (!isData ·))
  rw [normalizeConc, weightAll_append]
  omega

theorem weightAll_go_le (op : Op T) : weightAll (go op) ≤ weight op := by
  induction op using Op.elemInduct with
  | seq q ih =>
    rw [go, goList_eq]
    exact (weightAll_normalizeSeq_le _).trans (Nat.succ_le_succ (weightAll_flatMap_le ih))
  | conc q ih =>
    rw [go, goList_eq]
    exact (weightAll_normalizeConc_le _).trans (Nat.succ_le_succ (weightAll_flatMap_le ih))
  | promise q ds k ih =>
    rw [go, goList_eq]
    exact Nat.succ_le_succ (weightAll_flatMap_le ih)
  | noop => exact Nat.zero_le _
  | data | call | defer | deferRelative | void => exact Nat.le_refl _

theorem weightAll_normalize_le (op : Op T) : weightAll op.normalize ≤ weight op :=
  (weightAll_flatMap_le fun op _ => weightAll_concElems_le op).trans (weightAll_go_le op)

theorem weight_collect_le (queue : List (Op T)) (ds : List T.Data) (k : T.Callback) (r : Option (Op T)) :
    weight (collect queue ds k r) ≤ weightAll r.toList + weightAll queue + 1 := by
  rcases r with _ | x
  · simp [collect, weight, weightAll]
  · cases x <;> simp [collect, weight, weightAll_append, weightAll] <;> omega

theorem weight_voidOf_le (op : Op T) : weight (voidOf op) ≤ weight op + 1 := by
  cases op with
  | data d => exact Nat.le_succ _
  | _ => exact Nat.le_refl _

theorem process_lighter (h : Handler T) (op : Op T) : ∃ late, ∀ now, late ≤ now → ∀ r,
    (op.process h now).1 = .ok r → events (op.process h now).2 = 0 → weightAll r.toList < weight op := by
  induction op using Op.frontInduct with
  | data | seqNil | concNil | noop =>
    refine ⟨0, fun now _ r hr _ => ?_⟩
    obtain rfl := Except.ok.inj hr
    exact Nat.zero_lt_succ _
  | call | promiseNil =>
    refine ⟨0, fun now _ r _ hnone => ?_⟩
    rw [process, events_singleton] at hnone
    exact absurd hnone (Multiset.singleton_ne_zero _)
  | defer m t =>
    refine ⟨t, fun now hlate r hr _ => ?_⟩
    rw [process, if_neg (Nat.not_lt.mpr hlate)] at hr
    obtain rfl := Except.ok.inj hr
    exact Nat.zero_lt_one
  | deferRelative m s =>
    refine ⟨0, fun now _ r hr _ => ?_⟩
    obtain rfl := Except.ok.inj hr
    exact Nat.one_lt_two
  | seqCons op q ih | concCons op q ih =>
    obtain ⟨late, hlighter⟩ := ih
    refine ⟨late, fun now hlate r hr hnone => ?_⟩
    obtain ⟨r', hr', rfl⟩ := Outcome.within_eq_ok hr
    have hfront := hlighter now hlate r' hr' hnone
    simp only [Option.toList_some, weightAll_singleton, weight, weightAll_append, weightAll]
    omega
  | promiseData d q ds k =>
    refine ⟨0, fun now _ r hr _ => ?_⟩
    obtain rfl := Except.ok.inj hr
    simp only [Option.toList_some, weightAll_singleton, weight, weightAll]
    omega
  | promiseCons op q ds k hdata ih =>
    obtain ⟨late, hlighter⟩ := ih
    refine ⟨late, fun now hlate r hr hnone => ?_⟩
    rw [process_promise_cons h now hdata] at hr hnone
    obtain ⟨r', hr', rfl⟩ := Outcome.within_eq_ok hr
    have hfront := hlighter now hlate r' hr' hnone
    have hcollect := weight_collect_le q ds k r'
    simp only [Option.toList_some, weightAll_singleton, weight, weightAll]
    omega
  | void op ih =>
    obtain ⟨late, hlighter⟩ := ih
    refine ⟨late, fun now hlate r hr hnone => ?_⟩
    obtain ⟨r', hr', rfl⟩ := void_eq_ok hr
    have hfront := hlighter now hlate r' hr' hnone
    cases r' with
    | none => exact Nat.zero_lt_succ _
    | some x =>
      rw [Option.toList_some, weightAll_singleton] at hfront
      exact Nat.lt_of_le_of_lt (weight_voidOf_le x) (Nat.succ_lt_succ hfront)

theorem Performs.process_ok (hperm : h.OrderFree) (now : Nat) {ds : Multiset T.Data}
    (hop : Performs h op es ds) : ∃ r, (op.process h now).1 = .ok r := by
  induction op using Op.frontInduct generalizing es ds with
  | data | defer | deferRelative | seqNil | concNil | promiseData | noop => exact ⟨_, rfl⟩
  | call c =>
    cases hop with
    | call answer rest =>
      rw [process, answer]
      exact ⟨_, rfl⟩
  | seqCons op q ih =>
    obtain ⟨_, _, _, _, hfront, -⟩ := performsAll_cons.mp (performs_seq.mp hop)
    obtain ⟨r, hr⟩ := ih hfront
    exact ⟨_, congrArg (Except.map _) hr⟩
  | concCons op q ih =>
    obtain ⟨_, _, _, _, hfront, -⟩ := performsAll_cons.mp (performs_conc.mp hop)
    obtain ⟨r, hr⟩ := ih hfront
    exact ⟨_, congrArg (Except.map _) hr⟩
  | promiseNil data k =>
    obtain ⟨es₁, ds₁, all, op, es₂, elems, collected, answer, -, -⟩ := performs_promise.mp hop
    obtain ⟨rfl, rfl⟩ := performsAll_nil.mp elems
    rw [add_zero] at collected
    rw [hperm.callback_eq k collected rfl] at answer
    rw [process, answer]
    exact ⟨_, rfl⟩
  | promiseCons op q data k hdata ih =>
    obtain ⟨es₁, ds₁, all, op', es₂, elems, -⟩ := performs_promise.mp hop
    obtain ⟨_, _, _, _, hfront, -⟩ := performsAll_cons.mp elems
    obtain ⟨r, hr⟩ := ih hfront
    rw [process_promise_cons h now hdata]
    exact ⟨_, congrArg (Except.map _) hr⟩
  | void op ih =>
    obtain ⟨-, ds', inner⟩ := performs_void.mp hop
    obtain ⟨r, hr⟩ := ih inner
    exact ⟨_, congrArg (Except.map _) hr⟩

end Op

/-- The clock is past `t`, and does not go back. -/
def OnTime (t : Nat) (is : List (Nat × Nat)) : Prop := (t :: is.map Prod.snd).Pairwise (· ≤ ·)

/-- The first item is processed, at a time when what it is deferred to has come. -/
theorem exists_completing (hperm : h.OrderFree) (items : List (Op T)) (es : Multiset (Event T))
    (htotal : Total h items es) (hlossless : ∀ more,
      Machine.Meets step LosslessAt items (inputs h more)) (t : Nat) :
    ∃ more, OnTime t more ∧ run items (inputs h more) = [] := by
  match items with
  | [] => exact ⟨[], pairwise_singleton _ _, rfl⟩
  | op :: rest =>
    obtain ⟨late, hlighter⟩ := process_lighter h op
    obtain ⟨ds, hall⟩ := htotal
    obtain ⟨_, _, _, _, hop, -⟩ := performsAll_cons.mp hall
    obtain ⟨r, hr⟩ := hop.process_ok hperm (max late t)
    have hstep : step (op :: rest) ⟨0, max late t, h⟩ = (rest ++ requeue r, (op.process h (max late t)).2) :=
      congrArg (·, _) (congrArg (leave (op :: rest) 0) hr)
    obtain ⟨es', htotal', hes⟩ :=
      (leave_total (n := 0) hperm rfl ((hlossless [(0, max late t)]).1 op rfl) hr es).mp ⟨ds, hall⟩
    have hlossless' : ∀ more, Machine.Meets step LosslessAt (rest ++ requeue r) (inputs h more) := by
      intro more
      have hmore := (hlossless ((0, max late t) :: more)).2
      rwa [hstep] at hmore
    have hweight : weightAll (requeue r) ≤ weightAll r.toList := weightAll_flatMap_le fun op _ =>
      weightAll_normalize_le op
    have hcard : es.card = (events (op.process h (max late t)).2).card + es'.card :=
      by rw [hes, Multiset.card_add]
    have hless := hlighter (max late t) (Nat.le_max_left ..) r hr
    obtain ⟨more, htime, hdone⟩ := exists_completing hperm (rest ++ requeue r) es' htotal'
      hlossless' (max late t)
    refine ⟨(0, max late t) :: more, List.pairwise_cons.mpr ⟨fun t' ht' => ?_, htime⟩, ?_⟩
    · refine (Nat.le_max_right late t).trans ?_
      rcases List.mem_cons.mp ht' with rfl | ht'
      · exact Nat.le_refl _
      · exact (List.pairwise_cons.mp htime).1 t' ht'
    · show run (step (op :: rest) ⟨0, max late t, h⟩).1 (inputs h more) = []
      rwa [hstep]
  termination_by (es.card, weightAll items)
  decreasing_by
    -- a call or a callback is one event less to come, any other step leaves less of the op
    by_cases hnone : events (op.process h (max late t)).2 = 0
    · rw [hcard, hnone, Multiset.card_zero, Nat.zero_add]
      refine Prod.Lex.right _ ?_
      rw [weightAll_append, weightAll]
      have := hless hnone
      omega
    · have hpos := Multiset.card_pos.mpr hnone
      exact Prod.Lex.left _ _ (by omega)

theorem Op.Normal.lossless (hop : Normal op) : op.Lossless := by
  induction op using Op.frontInduct with
  | seqCons op q ih =>
    cases hop with
    | seq front elems => exact ih (elems op mem_cons_self)
  | concCons op q ih =>
    cases hop with
    | conc noData elems => exact ih (elems op mem_cons_self)
  | promiseCons op q ds k hdata ih =>
    cases hop with
    | promise elems =>
      have hfront := elems op mem_cons_self
      have hnone : op.isData = false := Bool.eq_false_iff.mpr fun hd => by
        cases op <;> cases hd
        exact hdata _ rfl
      exact (lossless_promise_cons hdata).mpr ⟨dropped_of_normal hfront hnone, ih hfront⟩
  | void op => cases hop
  | data | call | defer | deferRelative | seqNil | concNil | promiseNil | promiseData | noop => trivial

theorem meets_lossless (hh : h.VoidFree) (hitems : ∀ op ∈ items, Normal op)
    (is : List (Nat × Nat)) : Machine.Meets step LosslessAt items (inputs h is) := by
  induction is generalizing items with
  | nil => trivial
  | cons i is ih =>
    have herase : ∀ op ∈ items.eraseIdx i.1, Normal op :=
      fun op hop => hitems op ((eraseIdx_sublist items i.1).subset hop)
    refine ⟨fun op hop => (hitems op (mem_of_getElem? hop)).lossless, ih ?_⟩
    rcases step_cases items ⟨i.1, i.2, h⟩ with ⟨heq, -⟩ | ⟨op, hop, -, ⟨r, hr, heq⟩ | ⟨e, -, heq | heq⟩⟩
    · rw [heq]
      exact hitems
    · rw [heq]
      refine List.forall_mem_append.mpr ⟨herase, ?_⟩
      intro x hx
      obtain ⟨r', hr', hx⟩ := List.mem_flatMap.mp hx
      have hvoid := (hitems op (mem_of_getElem? hop)).voidFree
      exact normalize_normal (process_voidFree hh i.2 hvoid (Option.mem_toList.mp hr' ▸ hr)) x hx
    · rw [heq]
      exact hitems
    · rw [heq]
      exact herase

theorem total_void (op : Op T) (es : Multiset (Event T)) :
    Total h (void op).normalize es ↔ Total h op.normalize es := by
  simp only [Total, performsAll_normalize, performs_void]
  constructor
  · rintro ⟨ds, rfl, hop⟩
    exact hop
  · exact fun hop => ⟨0, rfl, hop⟩

/-- If it drops no data however it goes on, the run can be brought to an end at any time. -/
def CanComplete (h : Handler T) (items : List (Op T)) (is : List (Nat × Nat)) : Prop :=
  (∀ more, Machine.Meets step LosslessAt items (inputs h (is ++ more))) →
    ∀ t, ∃ more, OnTime t more ∧ run items (inputs h (is ++ more)) = []

theorem canComplete (hperm : h.OrderFree) (htotal : Total h (run items (inputs h is)) es) :
    CanComplete h items is := by
  intro hlossless t
  have happend : ∀ more, inputs h (is ++ more) = inputs h is ++ inputs h more := fun _ => map_append
  obtain ⟨more, htime, hdone⟩ := exists_completing hperm _ es htotal
    (fun more => ((Machine.meets_append _ _ _).mp (happend more ▸ hlossless more)).2) t
  refine ⟨more, htime, ?_⟩
  rw [happend]
  exact (Machine.run_append ..).trans hdone

/-- Of two runs the first one completes: the second one has done nothing else, and is on the way to
    the same. -/
theorem rest_completes (hperm : h.OrderFree) {items' : List (Op T)} {js : List (Nat × Nat)}
    (hsame : ∀ es, Total h items es → Total h items' es)
    (hlossless : Machine.Meets step LosslessAt items (inputs h is))
    (hanswered : ∀ a ∈ trace items (inputs h is), a.Answered)
    (hlossless' : Machine.Meets step LosslessAt items' (inputs h js))
    (hanswered' : ∀ a ∈ trace items' (inputs h js), a.Answered) (hdone : run items (inputs h is) = []) :
    events (trace items' (inputs h js)) ≤ events (trace items (inputs h is)) ∧ CanComplete h items' js := by
  have htotal : Total h items (events (trace items (inputs h is))) := by
    refine (run_total hperm is hlossless hanswered _).mpr ⟨0, ?_, (add_zero _).symm⟩
    rw [hdone]
    exact ⟨0, .nil⟩
  obtain ⟨es, hrest, heq⟩ := (run_total hperm js hlossless' hanswered' _).mp (hsame _ htotal)
  exact ⟨heq ▸ Multiset.le_add_right _ _, canComplete hperm hrest⟩

/-- **`Void` changes no call and no callback.**  Of two runs on an op and on the op in a `Void`,
    whose steps drop no data and get no error: if one completes, the other can complete and has done
    no call and no callback more; if both do, they have done the same. -/
theorem voided_alike (hperm : h.OrderFree) (op : Op T) (is js : List (Nat × Nat))
    (halone : Machine.Meets step LosslessAt op.normalize (inputs h is))
    (hvoid : Machine.Meets step LosslessAt (void op).normalize (inputs h js))
    (hanswered : ∀ a ∈ trace op.normalize (inputs h is) ++ trace (void op).normalize (inputs h js),
      a.Answered) :
    (run op.normalize (inputs h is) = [] →
      events (trace (void op).normalize (inputs h js)) ≤ events (trace op.normalize (inputs h is))) ∧
    (run (void op).normalize (inputs h js) = [] →
      events (trace op.normalize (inputs h is)) ≤ events (trace (void op).normalize (inputs h js))) ∧
    (run op.normalize (inputs h is) = [] → run (void op).normalize (inputs h js) = [] →
      events (trace op.normalize (inputs h is)) = events (trace (void op).normalize (inputs h js))) ∧
    (run op.normalize (inputs h is) = [] → CanComplete h (void op).normalize js) ∧
    (run (void op).normalize (inputs h js) = [] → CanComplete h op.normalize is) := by
  obtain ⟨haalone, havoid⟩ := List.forall_mem_append.mp hanswered
  have hto := rest_completes hperm (fun es => (total_void op es).mpr) halone haalone hvoid havoid
  have hback := rest_completes hperm (fun es => (total_void op es).mp) hvoid havoid halone haalone
  refine ⟨fun hdone => (hto hdone).1, fun hdone => (hback hdone).1, fun hdone hdone' =>
    ?_, fun hdone => (hto hdone).2, fun hdone => (hback hdone).2⟩
  exact le_antisymm (hback hdone').1 (hto hdone).1

open Sample in
/-- Both runs of a promise with one call complete. -/
theorem voided_alike_call :
    events (trace (Op.promise (T := Msg) [.call 1] [] 7).normalize (inputs echo [(0, 0), (0, 0)])) =
      events (trace (void (Op.promise (T := Msg) [.call 1] [] 7)).normalize
        (inputs echo [(0, 0), (0, 0), (0, 0)])) := by
  have halone : Machine.Meets step LosslessAt (Op.promise (T := Msg) [.call 1] [] 7).normalize
      (inputs echo [(0, 0), (0, 0)]) := by
    refine ⟨?_, ?_, trivial⟩
    · rintro op ⟨⟩
      exact ⟨rfl, trivial⟩
    · rintro op ⟨⟩
      trivial
  have hvoid : Machine.Meets step LosslessAt (void (Op.promise (T := Msg) [.call 1] [] 7)).normalize
      (inputs echo [(0, 0), (0, 0), (0, 0)]) := by
    refine ⟨?_, ?_, ?_, trivial⟩
    · rintro op ⟨⟩
      exact ⟨rfl, trivial⟩
    · rintro op ⟨⟩
      trivial
    · rintro op ⟨⟩
      trivial
  refine (voided_alike (fun _ _ _ _ => rfl) _ _ _ halone hvoid ?_).2.2.1 rfl rfl
  exact List.forall_mem_cons.mpr
    ⟨⟨_, rfl⟩, List.forall_mem_cons.mpr ⟨⟨_, rfl⟩, List.forall_mem_cons.mpr ⟨⟨_, rfl⟩,
    List.forall_mem_singleton.mpr ⟨_, rfl⟩⟩⟩⟩

open Sample in
/-- A promise for the data of a `Conc`: alone its callback gets both data, in a `Void` it gets none. -/
theorem voided_promise_differs :
    let op := Op.promise (T := Msg) [.conc [.call 1, .call 2]] [] 7
    let alone := inputs echo (replicate 4 (0, 0))
    let voided := inputs echo (replicate 7 (0, 0))
    run op.normalize alone = [] ∧ run (void op).normalize voided = [] ∧
    events (trace op.normalize alone) = {.call 1, .call 2, .callback 7 {1, 2}} ∧
    events (trace (void op).normalize voided) = {.call 1, .call 2, .callback 7 0} ∧
    events (trace op.normalize alone) ≠ events (trace (void op).normalize voided) := by
  refine ⟨rfl, rfl, rfl, rfl, ?_⟩
  intro heq
  have hvoided : Event.callback (T := Msg) 7 0 ∈
    ({.call 1, .call 2, .callback 7 0} : Multiset (Event Msg)) := by simp
  have halone : Event.callback (T := Msg) 7 0 ∈
      ({.call 1, .call 2, .callback 7 {1, 2}} : Multiset (Event Msg)) :=
    (congrArg (Event.callback (T := Msg) 7 0 ∈ ·) heq).mpr hvoided
  simp at halone

/-- **The order of the items does not matter.**  Of two runs on the same ops, without a `Void` and
    without an error, one that completes has done every call and callback of the other, each with
    the same data; the other can complete at any time, and then they have done the same. -/
theorem schedules_agree (hperm : h.OrderFree) (hvoid : h.VoidFree) (ops : List (Op T))
    (hops : ∀ op ∈ ops, op.VoidFree)
    (is js : List (Nat × Nat)) (hdone : run (ops.flatMap normalize) (inputs h is) = [])
    (hanswered : ∀ a ∈ trace (ops.flatMap normalize) (inputs h is) ++ trace (ops.flatMap normalize)
      (inputs h js), a.Answered) :
    events (trace (ops.flatMap normalize) (inputs h js)) ≤
      events (trace (ops.flatMap normalize) (inputs h is)) ∧
    (run (ops.flatMap normalize) (inputs h js) = [] →
      events (trace (ops.flatMap normalize) (inputs h js)) =
        events (trace (ops.flatMap normalize) (inputs h is))) ∧
    ∀ t, ∃ more, OnTime t more ∧ run (ops.flatMap normalize) (inputs h (js ++ more)) = [] := by
  have hitems : ∀ op ∈ ops.flatMap normalize, Normal op := fun x hx => by
    obtain ⟨op, hop, hx⟩ := List.mem_flatMap.mp hx
    exact normalize_normal (hops op hop) x hx
  obtain ⟨hfirst, hsecond⟩ := List.forall_mem_append.mp hanswered
  have hlossless := meets_lossless hvoid hitems
  obtain ⟨hle, hcan⟩ := rest_completes hperm (fun _ => id) (hlossless is) hfirst (hlossless js) hsecond hdone
  refine ⟨hle, fun hdone' => le_antisymm hle ?_, hcan fun more => hlossless (js ++ more)⟩
  exact (rest_completes hperm (fun _ => id) (hlossless js) hsecond (hlossless is) hfirst hdone').1

/-- Answers with nothing. -/
def Sample.quiet : Handler Sample.Msg := ⟨fun _ => .ok .noop, fun _ _ => .ok .noop⟩

open Sample in
/-- Two calls, in both orders. -/
theorem schedules_agree_calls :
    let items := ([.call 1, .call 2] : List (Op Msg)).flatMap normalize
    events (trace items (inputs quiet [(1, 0), (0, 0), (0, 0)])) =
      events (trace items (inputs quiet [(0, 0), (0, 0), (0, 0)])) := by
  have hvoid : quiet.VoidFree := by
    constructor
    · rintro _ _ ⟨⟩
      exact .noop
    · rintro _ _ _ ⟨⟩
      exact .noop
  have hcall : ∀ c : Nat, (Action.call (T := Msg) c (quiet.call c)).Answered := fun _ => ⟨_, rfl⟩
  have hops : ∀ op ∈ ([.call 1, .call 2] : List (Op Msg)), op.VoidFree :=
    List.forall_mem_cons.mpr ⟨.call _, List.forall_mem_singleton.mpr (.call _)⟩
  refine (schedules_agree (fun _ _ _ _ => rfl) hvoid _ hops _ _ rfl ?_).2.1 rfl
  exact List.forall_mem_cons.mpr
    ⟨hcall 1, List.forall_mem_cons.mpr ⟨hcall 2, List.forall_mem_cons.mpr ⟨hcall 2,
    List.forall_mem_singleton.mpr (hcall 1)⟩⟩⟩

end UnionVoyager.Vm
