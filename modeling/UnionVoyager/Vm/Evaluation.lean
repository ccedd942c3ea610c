import UnionVoyager.Vm.Promises

/-!
# What an op performs

`Performs h op events data`: run to the end, an op makes the calls and callbacks `events` and
returns `data`, whichever of its parts is processed first.  A callback is known by its data up to
order.

* `performsAll_normalize` — normalizing changes nothing of it.
* `process_performs` — a step performs a part of it, if it drops no data out of a promise's queue.
-/

namespace UnionVoyager.Vm

variable {T : QueueMessage}

/-- A call, or a callback with its data. -/
inductive Event (T : QueueMessage) where
  | call (call : T.Call)
  | callback (receiver : T.Callback) (data : Multiset T.Data)

/-- The answer to a call or a callback is no error. -/
def Action.Answered : Action T → Prop
  | .call _ res => ∃ op, res = .ok op
  | .callback _ _ res => ∃ op, res = .ok op
  | _ => True

def Action.events : Action T → Multiset (Event T)
  | .call c _ => {.call c}
  | .callback k ds _ => {.callback k ds}
  | _ => 0

def events : List (Action T) → Multiset (Event T)
  | [] => 0
  | a :: actions => a.events + events actions

theorem events_append (actions actions' : List (Action T)) :
    events (actions ++ actions') = events actions + events actions' := by
  induction actions with
  | nil => exact (zero_add _).symm
  | cons a actions ih => rw [List.cons_append, events, ih, events, add_assoc]

theorem events_singleton (a : Action T) : events [a] = a.events := add_zero _

/-- A handler whose answer to a callback does not depend on the order of the data. -/
def Handler.OrderFree (h : Handler T) : Prop := ∀ k ds ds', ds.Perm ds' → h.callback k ds = h.callback k ds'

variable {ds : Multiset T.Data}

theorem Handler.OrderFree.callback_eq {h : Handler T} (hperm : h.OrderFree) (receiver : T.Callback)
    {all all' : List T.Data} (heq : (all : Multiset T.Data) = ds)
    (heq' : (all' : Multiset T.Data) = ds) : h.callback receiver all = h.callback receiver all' :=
  hperm receiver all all' (Multiset.coe_eq_coe.mp (heq.trans heq'.symm))

namespace Op

mutual
inductive Performs (h : Handler T) : Op T → Multiset (Event T) → Multiset T.Data → Prop
  | data (d : T.Data) : Performs h (.data d) 0 {d}
  | call {c : T.Call} {op : Op T} {es : Multiset (Event T)} {ds : Multiset T.Data}
      (answer : h.call c = .ok op)
      (rest : Performs h op es ds) : Performs h (.call c) ({.call c} + es) ds
  | defer (mark : T.Mark) (deadline : Nat) : Performs h (.defer mark deadline) 0 0
  | deferRelative (mark : T.Mark) (secs : Nat) : Performs h (.deferRelative mark secs) 0 0
  | seq {queue : List (Op T)} {es : Multiset (Event T)} {ds : Multiset T.Data}
      (elems : PerformsAll h queue es ds) : Performs h (.seq queue) es ds
  | conc {queue : List (Op T)} {es : Multiset (Event T)} {ds : Multiset T.Data}
      (elems : PerformsAll h queue es ds) : Performs h (.conc queue) es ds
  | promise {queue : List (Op T)} {data all : List T.Data} {receiver : T.Callback} {op : Op T}
      {es es' : Multiset (Event T)} {ds ds' : Multiset T.Data} (elems : PerformsAll h queue es ds)
      (collected : (all : Multiset T.Data) = data + ds) (answer : h.callback receiver all = .ok op)
      (rest : Performs h op es' ds') : Performs h (.promise queue data receiver)
        (es + ({.callback receiver all} + es')) ds'
  | void {op : Op T} {es : Multiset (Event T)} {ds : Multiset T.Data} (inner : Performs h op es ds) :
      Performs h (.void op) es 0
  | noop : Performs h .noop 0 0
inductive PerformsAll (h : Handler T) : List (Op T) → Multiset (Event T) → Multiset T.Data → Prop
  | nil : PerformsAll h [] 0 0
  | cons {op : Op T} {queue : List (Op T)} {es es' : Multiset (Event T)} {ds ds' : Multiset T.Data}
      (head : Performs h op es ds) (tail : PerformsAll h queue es' ds') :
      PerformsAll h (op :: queue) (es + es') (ds + ds')
end

variable {h : Handler T}

/-! ## Queues -/

variable {op : Op T} {queue ops ops' rest : List (Op T)} {es : Multiset (Event T)}

theorem performsAll_cons :
    PerformsAll h (op :: queue) es ds ↔ ∃ es₁ ds₁ es₂ ds₂, Performs h op es₁ ds₁ ∧
      PerformsAll h queue es₂ ds₂ ∧ es = es₁ + es₂ ∧ ds = ds₁ + ds₂ := by
  constructor
  · intro hall
    cases hall with
    | cons head tail => exact ⟨_, _, _, _, head, tail, rfl, rfl⟩
  · rintro ⟨es₁, ds₁, es₂, ds₂, head, tail, rfl, rfl⟩
    exact .cons head tail

theorem performsAll_nil : PerformsAll h [] es ds ↔ es = 0 ∧ ds = 0 := by
  constructor
  · rintro ⟨⟩
    exact ⟨rfl, rfl⟩
  · rintro ⟨rfl, rfl⟩
    exact .nil

theorem performsAll_singleton : PerformsAll h [op] es ds ↔ Performs h op es ds := by
  constructor
  · intro hall
    obtain ⟨es₁, ds₁, es₂, ds₂, head, tail, rfl, rfl⟩ := performsAll_cons.mp hall
    obtain ⟨rfl, rfl⟩ := performsAll_nil.mp tail
    rwa [add_zero, add_zero]
  · intro hop
    exact performsAll_cons.mpr ⟨es, ds, 0, 0, hop, .nil, (add_zero es).symm, (add_zero ds).symm⟩

theorem performsAll_append :
    PerformsAll h (ops ++ ops') es ds ↔ ∃ es₁ ds₁ es₂ ds₂, PerformsAll h ops es₁ ds₁ ∧
      PerformsAll h ops' es₂ ds₂ ∧ es = es₁ + es₂ ∧ ds = ds₁ + ds₂ := by
  induction ops generalizing es ds with
  | nil =>
    constructor
    · intro hall
      exact ⟨0, 0, es, ds, .nil, hall, (zero_add es).symm, (zero_add ds).symm⟩
    · rintro ⟨es₁, ds₁, es₂, ds₂, hnil, hall, rfl, rfl⟩
      obtain ⟨rfl, rfl⟩ := performsAll_nil.mp hnil
      rwa [zero_add, zero_add]
  | cons op ops ih =>
    rw [List.cons_append]
    constructor
    · intro hall
      obtain ⟨es₁, ds₁, es₂, ds₂, head, tail, rfl, rfl⟩ := performsAll_cons.mp hall
      obtain ⟨es₃, ds₃, es₄, ds₄, hops, hops', rfl, rfl⟩ := ih.mp tail
      exact ⟨_, _, es₄, ds₄, .cons head hops, hops', (add_assoc ..).symm, (add_assoc ..).symm⟩
    · rintro ⟨es₁, ds₁, es₂, ds₂, hops, hops', rfl, rfl⟩
      obtain ⟨es₃, ds₃, es₄, ds₄, head, tail, rfl, rfl⟩ := performsAll_cons.mp hops
      rw [add_assoc, add_assoc]
      exact .cons head (ih.mpr ⟨es₄, ds₄, es₂, ds₂, tail, hops', rfl, rfl⟩)

theorem PerformsAll.perm (hperm : ops.Perm ops') (hall : PerformsAll h ops es ds) :
    PerformsAll h ops' es ds := by
  induction hperm generalizing es ds with
  | nil => exact hall
  | cons op hperm ih =>
    obtain ⟨es₁, ds₁, es₂, ds₂, head, tail, rfl, rfl⟩ := performsAll_cons.mp hall
    exact .cons head (ih tail)
  | swap a b ops =>
    obtain ⟨es₁, ds₁, es₂, ds₂, hb, tail, rfl, rfl⟩ := performsAll_cons.mp hall
    obtain ⟨es₃, ds₃, es₄, ds₄, ha, tail', rfl, rfl⟩ := performsAll_cons.mp tail
    rw [add_left_comm es₁, add_left_comm ds₁]
    exact .cons ha (.cons hb tail')
  | trans hperm hperm' ih ih' => exact ih' (ih hall)

/-! ## Ops -/

theorem performs_seq : Performs h (.seq queue) es ds ↔ PerformsAll h queue es ds := by
  constructor
  · rintro ⟨⟩
    assumption
  · exact .seq

theorem performs_conc : Performs h (.conc queue) es ds ↔ PerformsAll h queue es ds := by
  constructor
  · rintro ⟨⟩
    assumption
  · exact .conc

theorem performs_promise {data : List T.Data} {receiver : T.Callback} :
    Performs h (.promise queue data receiver) es ds ↔ ∃ es₁ ds₁ all op es₂, PerformsAll h queue es₁ ds₁ ∧
      ((all : List T.Data) : Multiset T.Data) = data + ds₁ ∧ h.callback receiver all = .ok op ∧
      Performs h op es₂ ds ∧ es = es₁ + ({.callback receiver all} + es₂) := by
  constructor
  · rintro (_ | _ | _ | _ | _ | _ | ⟨elems, collected, answer, rest⟩)
    exact ⟨_, _, _, _, _, elems, collected, answer, rest, rfl⟩
  · rintro ⟨es₁, ds₁, all, op, es₂, elems, collected, answer, rest, rfl⟩
    exact .promise elems collected answer rest

theorem performs_data {d : T.Data} : Performs h (.data d) es ds ↔ es = 0 ∧ ds = {d} := by
  constructor
  · rintro ⟨⟩
    exact ⟨rfl, rfl⟩
  · rintro ⟨rfl, rfl⟩
    exact .data d

theorem performs_noop : Performs h .noop es ds ↔ es = 0 ∧ ds = 0 := by
  constructor
  · rintro ⟨⟩
    exact ⟨rfl, rfl⟩
  · rintro ⟨rfl, rfl⟩
    exact .noop

theorem performs_defer {mark : T.Mark} {deadline : Nat} :
    Performs h (.defer mark deadline) es ds ↔ es = 0 ∧ ds = 0 := by
  constructor
  · rintro ⟨⟩
    exact ⟨rfl, rfl⟩
  · rintro ⟨rfl, rfl⟩
    exact .defer mark deadline

theorem performs_deferRelative {mark : T.Mark} {secs : Nat} :
    Performs h (.deferRelative mark secs) es ds ↔ es = 0 ∧ ds = 0 := by
  constructor
  · rintro ⟨⟩
    exact ⟨rfl, rfl⟩
  · rintro ⟨rfl, rfl⟩
    exact .deferRelative mark secs

theorem performs_void : Performs h (.void op) es ds ↔ ds = 0 ∧ ∃ ds', Performs h op es ds' := by
  constructor
  · rintro ⟨⟩
    exact ⟨rfl, _, by assumption⟩
  · rintro ⟨rfl, ds', inner⟩
    exact .void inner

/-! ## Normalizing -/

theorem performsAll_append_congr (hops : ∀ es ds, PerformsAll h ops es ds ↔ PerformsAll h ops' es ds)
    (front : List (Op T)) (es : Multiset (Event T)) (ds : Multiset T.Data) :
    PerformsAll h (front ++ ops) es ds ↔ PerformsAll h (front ++ ops') es ds := by
  simp only [performsAll_append, hops]

theorem performsAll_flatMap {f : Op T → List (Op T)}
    (hf : ∀ op ∈ ops, ∀ es ds, PerformsAll h (f op) es ds ↔ Performs h op es ds) (es : Multiset (Event T))
    (ds : Multiset T.Data) : PerformsAll h (ops.flatMap f) es ds ↔ PerformsAll h ops es ds := by
  induction ops generalizing es ds with
  | nil => exact Iff.rfl
  | cons op ops ih =>
    obtain ⟨hop, hops⟩ := List.forall_mem_cons.mp hf
    simp only [List.flatMap_cons, performsAll_append, performsAll_cons, hop, ih hops]

theorem performsAll_seqElems (op : Op T) (es : Multiset (Event T)) (ds : Multiset T.Data) :
    PerformsAll h op.seqElems es ds ↔ Performs h op es ds := by
  cases op with
  | seq q => exact performs_seq.symm
  | _ => exact performsAll_singleton

theorem performsAll_concElems (op : Op T) (es : Multiset (Event T)) (ds : Multiset T.Data) :
    PerformsAll h op.concElems es ds ↔ Performs h op es ds := by
  cases op with
  | conc q => exact performs_conc.symm
  | _ => exact performsAll_singleton

theorem performsAll_normalizeSeq (ops : List (Op T)) (es : Multiset (Event T))
    (ds : Multiset T.Data) : PerformsAll h (normalizeSeq ops) es ds ↔ PerformsAll h ops es ds := by
  rcases ops with _ | ⟨a, _ | ⟨b, rest⟩⟩
  · exact Iff.rfl
  · exact Iff.rfl
  · have hsplit : (a :: b :: rest).takeWhile isData ++ (a :: b :: rest).dropWhile isData = a :: b :: rest :=
      List.takeWhile_append_dropWhile
    simp only [normalizeSeq]
    split
    · rename_i hempty
      rw [List.isEmpty_iff.mp hempty, List.append_nil] at hsplit
      rw [hsplit]
    · conv_rhs => rw [← hsplit]
      refine performsAll_append_congr (fun es ds => ?_) _ es ds
      rw [performsAll_singleton, performs_seq]
      exact performsAll_flatMap (fun op _ => performsAll_seqElems op) es ds

theorem performsAll_packConc (ops : List (Op T)) (es : Multiset (Event T)) (ds : Multiset T.Data) :
    PerformsAll h (packConc ops) es ds ↔ PerformsAll h ops es ds := by
  rcases ops with _ | ⟨a, _ | ⟨b, rest⟩⟩
  · exact Iff.rfl
  · exact Iff.rfl
  · exact performsAll_singleton.trans performs_conc

theorem performsAll_normalizeConc (ops : List (Op T)) (es : Multiset (Event T))
    (ds : Multiset T.Data) : PerformsAll h (normalizeConc ops) es ds ↔ PerformsAll h ops es ds := by
  have hperm : ((ops.flatMap concElems).filter isData ++ (ops.flatMap concElems).filter (!isData ·)).Perm
      (ops.flatMap concElems) := List.filter_append_perm isData _
  refine (performsAll_append_congr (performsAll_packConc _) _ es ds).trans ?_
  refine Iff.trans ⟨PerformsAll.perm hperm, PerformsAll.perm hperm.symm⟩ ?_
  exact performsAll_flatMap (fun op _ => performsAll_concElems op) es ds

theorem performsAll_go (op : Op T) (es : Multiset (Event T)) (ds : Multiset T.Data) :
    PerformsAll h (go op) es ds ↔ Performs h op es ds := by
  induction op using Op.elemInduct generalizing es ds with
  | seq q ih =>
    rw [go, goList_eq, performsAll_normalizeSeq, performs_seq]
    exact performsAll_flatMap ih es ds
  | conc q ih =>
    rw [go, goList_eq, performsAll_normalizeConc, performs_conc]
    exact performsAll_flatMap ih es ds
  | promise q data k ih =>
    rw [go, goList_eq, performsAll_singleton]
    simp only [performs_promise, performsAll_flatMap ih]
  | noop =>
    rw [go, performsAll_nil, performs_noop]
  | data | call | defer | deferRelative | void => exact performsAll_singleton

theorem performsAll_normalize (op : Op T) (es : Multiset (Event T)) (ds : Multiset T.Data) :
    PerformsAll h op.normalize es ds ↔ Performs h op es ds :=
  (performsAll_flatMap (fun op _ => performsAll_concElems op) es ds).trans (performsAll_go op es ds)

/-- The next step of an op drops no data out of a promise's queue. -/
def Lossless : Op T → Prop
  | .seq (op :: _) => Lossless op
  | .conc (op :: _) => Lossless op
  | .promise (.data _ :: _) _ _ => True
  | .promise (op :: _) _ _ => op.dropped = 0 ∧ Lossless op
  | .void op => Lossless op
  | _ => True

theorem lossless_promise_cons (hdata : ∀ d, op ≠ .data d) {data : List T.Data} {receiver : T.Callback} :
    (promise (op :: queue) data receiver).Lossless ↔ op.dropped = 0 ∧ op.Lossless := by
  cases op with
  | data d => exact (hdata d rfl).elim
  | _ => exact Iff.rfl

/-- What an op performs, from what its rest performs after the events `done` and without the data `gone`. -/
def After (h : Handler T) (rest : List (Op T)) (done : Multiset (Event T)) (gone : Multiset T.Data)
    (es : Multiset (Event T)) (ds : Multiset T.Data) : Prop :=
  ∃ es' ds', PerformsAll h rest es' ds' ∧ es = done + es' ∧ ds = ds' + gone

theorem after_zero : After h rest 0 0 es ds ↔ PerformsAll h rest es ds := by
  constructor
  · rintro ⟨es, ds, hrest, rfl, rfl⟩
    rwa [zero_add, add_zero]
  · intro hrest
    exact ⟨es, ds, hrest, (zero_add es).symm, (add_zero ds).symm⟩

theorem after_cons {done : Multiset (Event T)} {gone : Multiset T.Data}
    (hop : ∀ es ds, Performs h op es ds ↔ After h rest done gone es ds) (queue : List (Op T))
      (es : Multiset (Event T))
    (ds : Multiset T.Data) : PerformsAll h (op :: queue) es ds ↔ After h (rest ++ queue) done gone es ds := by
  constructor
  · intro hall
    obtain ⟨es₁, ds₁, es₂, ds₂, head, tail, rfl, rfl⟩ := performsAll_cons.mp hall
    obtain ⟨es', ds', hrest, rfl, rfl⟩ := (hop _ _).mp head
    refine ⟨es' + es₂, ds' + ds₂, performsAll_append.mpr ⟨_, _, _, _, hrest, tail, rfl, rfl⟩,
      add_assoc .., ?_⟩
    exact add_right_comm ..
  · rintro ⟨es', ds', hall, rfl, rfl⟩
    obtain ⟨es₁, ds₁, es₂, ds₂, hrest, tail, rfl, rfl⟩ := performsAll_append.mp hall
    refine performsAll_cons.mpr ⟨done + es₁, ds₁ + gone, es₂, ds₂, ?_, tail, (add_assoc ..).symm,
      add_right_comm ..⟩
    exact (hop _ _).mpr ⟨es₁, ds₁, hrest, rfl, rfl⟩

theorem after_congr {rest' : List (Op T)} {done : Multiset (Event T)} {gone : Multiset T.Data}
    (hrest : ∀ es ds, PerformsAll h rest es ds ↔ PerformsAll h rest' es ds) (es : Multiset (Event T))
    (ds : Multiset T.Data) : After h rest done gone es ds ↔ After h rest' done gone es ds := by
  simp only [After, hrest]

theorem performs_promise_data (d : T.Data) (queue : List (Op T)) (data : List T.Data)
    (receiver : T.Callback) (es : Multiset (Event T)) (ds : Multiset T.Data) :
    Performs h (.promise (.data d :: queue) data receiver) es ds ↔
      Performs h (.promise queue (data ++ [d]) receiver) es ds := by
  have hcollect : ∀ ds' : Multiset T.Data, ((data ++ [d] : List T.Data) : Multiset T.Data) + ds' =
      data + ({d} + ds') := by
    intro ds'
    rw [← Multiset.coe_add, add_assoc]
    rfl
  rw [performs_promise, performs_promise]
  constructor
  · rintro ⟨es₁, ds₁, all, op, es₂, elems, collected, answer, rest, rfl⟩
    obtain ⟨es₃, ds₃, es₄, ds₄, head, tail, rfl, rfl⟩ := performsAll_cons.mp elems
    obtain ⟨rfl, rfl⟩ := performs_data.mp head
    exact ⟨es₄, ds₄, all, op, es₂, tail, collected.trans (hcollect ds₄).symm, answer, rest, by rw [zero_add]⟩
  · rintro ⟨es₁, ds₁, all, op, es₂, elems, collected, answer, rest, rfl⟩
    refine ⟨0 + es₁, {d} + ds₁, all, op, es₂, .cons (.data d) elems, ?_, answer, rest, by rw [zero_add]⟩
    exact collected.trans (hcollect ds₁)

theorem performs_collect (queue : List (Op T)) (data : List T.Data) (receiver : T.Callback)
    (r : Option (Op T)) (es : Multiset (Event T)) (ds : Multiset T.Data) :
    Performs h (collect queue data receiver r) es ds ↔
      Performs h (.promise (r.toList ++ queue) data receiver) es ds := by
  have hrotate : ∀ ops : List (Op T), Performs h (.promise (queue ++ ops) data receiver) es ds ↔
      Performs h (.promise (ops ++ queue) data receiver) es ds := by
    intro ops
    have hswap : ∀ es ds, PerformsAll h (queue ++ ops) es ds ↔ PerformsAll h (ops ++ queue) es ds :=
      fun es ds => ⟨PerformsAll.perm List.perm_append_comm, PerformsAll.perm List.perm_append_comm⟩
    simp only [performs_promise, hswap]
  rcases r with _ | x
  · exact Iff.rfl
  · cases x with
    | data d => exact (performs_promise_data d queue data receiver es ds).symm
    | _ => exact hrotate [_]

theorem performs_voidOf (op : Op T) (es : Multiset (Event T)) (ds : Multiset T.Data) :
    Performs h (voidOf op) es ds ↔ ds = 0 ∧ ∃ ds', Performs h op es ds' := by
  cases op with
  | data d =>
    rw [voidOf, performs_noop]
    constructor
    · rintro ⟨rfl, rfl⟩
      exact ⟨rfl, {d}, .data d⟩
    · rintro ⟨rfl, ds', hd⟩
      exact ⟨(performs_data.mp hd).1, rfl⟩
  | _ => exact performs_void

theorem performsAll_voidOf (r : Option (Op T)) (es : Multiset (Event T)) (ds : Multiset T.Data) :
    PerformsAll h (r.map voidOf).toList es ds ↔ ds = 0 ∧ ∃ ds', PerformsAll h r.toList es ds' := by
  cases r with
  | none =>
    rw [Option.map_none, Option.toList_none, performsAll_nil]
    constructor
    · rintro ⟨rfl, rfl⟩
      exact ⟨rfl, 0, .nil⟩
    · rintro ⟨rfl, ds', hnil⟩
      exact ⟨(performsAll_nil.mp hnil).1, rfl⟩
  | some op => simp only [Option.map_some, Option.toList_some, performsAll_singleton, performs_voidOf]

theorem process_performs (hperm : h.OrderFree) (now : Nat) (hop : op.Lossless) {r : Option (Op T)}
    (hr : (op.process h now).1 = .ok r) (es : Multiset (Event T)) (ds : Multiset T.Data) :
    Performs h op es ds ↔ After h r.toList (events (op.process h now).2) op.dropped es ds := by
  induction op using Op.frontInduct generalizing r es ds with
  | data d =>
    obtain rfl := Except.ok.inj hr
    rw [performs_data]
    constructor
    · rintro ⟨rfl, rfl⟩
      exact ⟨0, 0, .nil, rfl, (zero_add _).symm⟩
    · rintro ⟨es', ds', hnil, rfl, rfl⟩
      obtain ⟨rfl, rfl⟩ := performsAll_nil.mp hnil
      exact ⟨rfl, zero_add _⟩
  | call c =>
    have hevents : events ((call c).process h now).2 = {.call c} := events_singleton _
    rw [hevents]
    constructor
    · intro hop'
      cases hop' with
      | call answer rest =>
        rw [process, answer] at hr
        obtain rfl := Except.ok.inj hr
        exact ⟨_, ds, performsAll_singleton.mpr rest, rfl, (add_zero ds).symm⟩
    · rintro ⟨es', ds', hrest, rfl, rfl⟩
      cases hres : h.call c with
      | error e =>
        rw [process, hres] at hr
        cases hr
      | ok op =>
        rw [process, hres] at hr
        obtain rfl := Except.ok.inj hr
        rw [show (call c).dropped = 0 from rfl, add_zero]
        exact .call hres (performsAll_singleton.mp hrest)
  | defer m t =>
    rw [performs_defer]
    refine Iff.trans ?_ after_zero.symm
    rw [process] at hr
    obtain rfl := Except.ok.inj hr
    split
    · rw [Option.toList_some, performsAll_singleton, performs_defer]
    · rw [Option.toList_none, performsAll_nil]
  | deferRelative m s =>
    obtain rfl := Except.ok.inj hr
    rw [performs_deferRelative]
    refine Iff.trans ?_ after_zero.symm
    rw [Option.toList_some, performsAll_singleton, performs_defer]
  | seqNil =>
    obtain rfl := Except.ok.inj hr
    exact performs_seq.trans after_zero.symm
  | seqCons op q ih =>
    obtain ⟨r', hr', rfl⟩ := Outcome.within_eq_ok hr
    rw [performs_seq, after_cons (ih hop hr')]
    refine after_congr (fun es ds => ?_) es ds
    rw [Option.toList_some, performsAll_singleton, performs_seq]
  | concNil =>
    obtain rfl := Except.ok.inj hr
    exact performs_conc.trans after_zero.symm
  | concCons op q ih =>
    obtain ⟨r', hr', rfl⟩ := Outcome.within_eq_ok hr
    rw [performs_conc, after_cons (ih hop hr')]
    refine after_congr (fun es ds => ?_) es ds
    rw [Option.toList_some, performsAll_singleton, performs_conc]
    exact ⟨PerformsAll.perm List.perm_append_comm, PerformsAll.perm List.perm_append_comm⟩
  | promiseNil data k =>
    have hevents : events ((promise [] data k).process h now).2 = {.callback k (data : Multiset T.Data)} :=
      events_singleton _
    rw [hevents, performs_promise]
    cases hres : h.callback k data with
    | error e =>
      rw [process, hres] at hr
      cases hr
    | ok op =>
      rw [process, hres] at hr
      obtain rfl := Except.ok.inj hr
      constructor
      · rintro ⟨es₁, ds₁, all, op', es₂, elems, collected, answer, rest, rfl⟩
        obtain ⟨rfl, rfl⟩ := performsAll_nil.mp elems
        rw [add_zero] at collected
        rw [hperm.callback_eq k collected rfl, hres] at answer
        obtain rfl := Except.ok.inj answer
        refine ⟨es₂, ds, performsAll_singleton.mpr rest, ?_, (add_zero ds).symm⟩
        rw [zero_add, collected]
      · rintro ⟨es', ds', hrest, rfl, rfl⟩
        refine ⟨0, 0, data, op, es', .nil, (add_zero _).symm, hres, ?_, (zero_add _).symm⟩
        rw [show (promise [] data k).dropped = 0 from rfl, add_zero]
        exact performsAll_singleton.mp hrest
  | promiseData d q data k =>
    obtain rfl := Except.ok.inj hr
    rw [performs_promise_data]
    exact performsAll_singleton.symm.trans after_zero.symm
  | promiseCons op q data k hdata ih =>
    obtain ⟨hdropped, hlossless⟩ := (lossless_promise_cons hdata).mp hop
    rw [process_promise_cons h now hdata] at hr ⊢
    obtain ⟨r', hr', rfl⟩ := Outcome.within_eq_ok hr
    have hfront := after_cons (ih hlossless hr') q
    rw [hdropped] at hfront
    show _ ↔ After h [collect q data k r'] (events (op.process h now).2) 0 es ds
    rw [performs_promise]
    constructor
    · rintro ⟨es₁, ds₁, all, op', es₂, elems, collected, answer, rest, rfl⟩
      obtain ⟨es₃, ds₃, hqueue, rfl, rfl⟩ := (hfront _ _).mp elems
      rw [add_zero] at collected
      refine ⟨es₃ + ({.callback k all} + es₂), ds, ?_, add_assoc .., (add_zero ds).symm⟩
      rw [performsAll_singleton, performs_collect, performs_promise]
      exact ⟨es₃, ds₃, all, op', es₂, hqueue, collected, answer, rest, rfl⟩
    · rintro ⟨es', ds', hrest, rfl, rfl⟩
      rw [performsAll_singleton, performs_collect, performs_promise] at hrest
      obtain ⟨es₃, ds₃, all, op', es₂, hqueue, collected, answer, rest, rfl⟩ := hrest
      refine ⟨_, ds₃, all, op', es₂, (hfront _ _).mpr ⟨es₃, ds₃, hqueue, rfl, (add_zero ds₃).symm⟩,
        collected, answer, ?_, (add_assoc ..).symm⟩
      rwa [add_zero]
  | void op ih =>
    obtain ⟨r', hr', rfl⟩ := void_eq_ok hr
    have hinner := ih hop hr'
    show _ ↔ After h (r'.map voidOf).toList (events (op.process h now).2) 0 es ds
    rw [performs_void]
    constructor
    · rintro ⟨rfl, ds', inner⟩
      obtain ⟨es', ds'', hrest, rfl, -⟩ := (hinner _ _).mp inner
      exact ⟨es', 0, (performsAll_voidOf r' es' 0).mpr ⟨rfl, ds'', hrest⟩, rfl, rfl⟩
    · rintro ⟨es', ds', hrest, rfl, rfl⟩
      obtain ⟨rfl, ds'', hrest⟩ := (performsAll_voidOf r' es' ds').mp hrest
      exact ⟨rfl, _, (hinner _ _).mpr ⟨es', ds'', hrest, rfl, rfl⟩⟩
  | noop =>
    obtain rfl := Except.ok.inj hr
    rw [performs_noop]
    exact performsAll_nil.symm.trans after_zero.symm

end Op

end UnionVoyager.Vm
