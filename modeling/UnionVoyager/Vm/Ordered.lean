import UnionVoyager.Vm.Labels
import Mathlib.Data.List.Pairwise

/-!
# Ordered ops

Some of what an op asks for is labelled `early`, some `late`.

* `Ordered` — in a `Seq` nothing early comes after something late; elsewhere no two ops of a queue
  are early and late.
* `normalize_ordered` — normalizing keeps ops ordered, and what it splits is not early and late.
* `process_stepOf` — a step keeps this, and is late only where nothing early is left.
-/

namespace UnionVoyager.Vm

open Lib List

variable {T : QueueMessage} {L : Type}

/-! ## Ordered ops -/

/-- `early` and `late` for the two parts of a `Seq`, `other` for everything around it. -/
inductive Label where
  | early
  | late
  | other

/-- The ops of a labelled run. -/
abbrev Op.Staged (T : QueueMessage) := Op (T.labelled Label)

namespace Op

/-- Nothing of `x` is late while something of `y` is early. -/
def Before (x y : Op.Staged T) : Prop := Label.late ∈ x.labels → Label.early ∉ y.labels

/-- Whichever of the two goes first. -/
def Apart (x y : Op.Staged T) : Prop := Before x y ∧ Before y x

inductive Ordered : Op.Staged T → Prop
  | data (d : T.Data) : Ordered (.data d)
  | call (c : T.Call × Label) : Ordered (.call c)
  | defer (mark : T.Mark × Label) (deadline : Nat) : Ordered (.defer mark deadline)
  | deferRelative (mark : T.Mark × Label) (secs : Nat) : Ordered (.deferRelative mark secs)
  | seq {queue : List (Op.Staged T)} (elems : ∀ op ∈ queue, Ordered op) (before : queue.Pairwise Before) :
      Ordered (.seq queue)
  | conc {queue : List (Op.Staged T)} (elems : ∀ op ∈ queue, Ordered op) (apart : queue.Pairwise Apart) :
      Ordered (.conc queue)
  | promise {queue : List (Op.Staged T)} (ds : List T.Data) {receiver : T.Callback × Label}
      (elems : ∀ op ∈ queue, Ordered op) (apart : queue.Pairwise Apart)
      (last : ∀ op ∈ queue, Label.late ∈ op.labels → receiver.2 ≠ .early) :
        Ordered (.promise queue ds receiver)
  | void {op : Op.Staged T} (inner : Ordered op) : Ordered (.void op)
  | noop : Ordered .noop

variable {x y op : Op.Staged T}

theorem Before.mono {x' y' : Op.Staged T} (hx : x'.labels ⊆ x.labels) (hy : y'.labels ⊆ y.labels)
    (h : Before x y) : Before x' y' :=
  fun hlate hearly => h (hx hlate) (hy hearly)

theorem Apart.mono {x' y' : Op.Staged T} (hx : x'.labels ⊆ x.labels) (hy : y'.labels ⊆ y.labels)
    (h : Apart x y) : Apart x' y' :=
  ⟨h.1.mono hx hy, h.2.mono hy hx⟩

theorem Apart.symm (h : Apart x y) : Apart y x := ⟨h.2, h.1⟩

instance : Std.Symm (Apart (T := T)) := ⟨fun _ _ => Apart.symm⟩

theorem apart_data_left (h : x.isData = true) (y : Op.Staged T) : Apart x y := by
  unfold Apart Before
  rw [labels_of_isData h]
  refine ⟨fun hlate => ?_, fun _ hearly => ?_⟩
  · exact (not_mem_nil hlate).elim
  · exact (not_mem_nil hearly).elim

variable {ops : List (Op.Staged T)} {R : Op.Staged T → Op.Staged T → Prop}

theorem pairwise_data (h : ∀ op ∈ ops, op.isData = true) : ops.Pairwise Apart :=
  pairwise_of_forall_mem_list fun x hx y _ => apart_data_left (h x hx) y

theorem pairwise_flatMap
    (hmono : ∀ {x x' y y'}, x'.labels ⊆ x.labels → y'.labels ⊆ y.labels → R x y → R x' y')
    {f : Op.Staged T → List (Op.Staged T)} (hR : ops.Pairwise R) (hf : ∀ op ∈ ops, (f op).Pairwise R)
    (hleaves : ∀ op ∈ ops, (f op).flatMap leaves = op.leaves) : (ops.flatMap f).Pairwise R := by
  refine List.pairwise_flatMap.mpr ⟨hf, ?_⟩
  refine List.Pairwise.imp_of_mem ?_ hR
  intro x y hx hy hxy x' hx' y' hy'
  exact hmono (labels_subset (hleaves x hx) hx') (labels_subset (hleaves y hy) hy') hxy

theorem ordered_of_not_mixed (h : Label.late ∈ op.labels → Label.early ∉ op.labels) : Ordered op := by
  induction op using Op.elemInduct with
  | data d => exact .data _
  | call c => exact .call _
  | defer m t => exact .defer _ _
  | deferRelative m s => exact .deferRelative _ _
  | seq q ih =>
    have hpair : ∀ x ∈ q, ∀ y ∈ q, Before x y := by
      intro x hx y hy hlate hearly
      exact h (mem_labels_seq.mpr ⟨x, hx, hlate⟩) (mem_labels_seq.mpr ⟨y, hy, hearly⟩)
    exact .seq (fun op hop => ih op hop (hpair op hop op hop)) (pairwise_of_forall_mem_list hpair)
  | conc q ih =>
    have hpair : ∀ x ∈ q, ∀ y ∈ q, Before x y := by
      intro x hx y hy hlate hearly
      exact h (mem_labels_conc.mpr ⟨x, hx, hlate⟩) (mem_labels_conc.mpr ⟨y, hy, hearly⟩)
    exact .conc (fun op hop => ih op hop (hpair op hop op hop))
      (pairwise_of_forall_mem_list fun x hx y hy => ⟨hpair x hx y hy, hpair y hy x hx⟩)
  | promise q ds k ih =>
    have hpair : ∀ x ∈ q, ∀ y ∈ q, Before x y := by
      intro x hx y hy hlate hearly
      exact h (mem_labels_promise.mpr (.inl ⟨x, hx, hlate⟩)) (mem_labels_promise.mpr (.inl ⟨y, hy, hearly⟩))
    refine .promise _ (fun op hop => ih op hop (hpair op hop op hop))
      (pairwise_of_forall_mem_list fun x hx y hy => ⟨hpair x hx y hy, hpair y hy x hx⟩) ?_
    intro x hx hlate hk
    exact h (mem_labels_promise.mpr (.inl ⟨x, hx, hlate⟩)) (mem_labels_promise.mpr (.inr hk.symm))
  | void op ih => exact .void (ih h)
  | noop => exact .noop

/-! Normalizing keeps ops ordered. -/

theorem Ordered.seqElems (h : Ordered op) : (∀ x ∈ op.seqElems, Ordered x) ∧ op.seqElems.Pairwise Before := by
  cases op with
  | seq q =>
    cases h with
    | seq elems before => exact ⟨elems, before⟩
  | _ => exact ⟨List.forall_mem_singleton.mpr h, pairwise_singleton ..⟩

theorem Ordered.concElems (h : Ordered op) : (∀ x ∈ op.concElems, Ordered x) ∧
      op.concElems.Pairwise Apart := by
  cases op with
  | conc q =>
    cases h with
    | conc elems apart => exact ⟨elems, apart⟩
  | _ => exact ⟨List.forall_mem_singleton.mpr h, pairwise_singleton ..⟩

theorem normalizeSeq_apart (ops : List (Op.Staged T)) : (normalizeSeq ops).Pairwise Apart := by
  rcases ops with _ | ⟨a, _ | ⟨b, rest⟩⟩
  · exact .nil
  · exact pairwise_singleton ..
  · have hdata : ((a :: b :: rest).takeWhile isData).Pairwise Apart :=
      pairwise_data fun op => isData_of_mem_takeWhile
    simp only [normalizeSeq]
    split
    · exact hdata
    · refine List.pairwise_append.mpr ⟨hdata, pairwise_singleton .., ?_⟩
      intro x hx y _
      exact apart_data_left (isData_of_mem_takeWhile hx) y

theorem normalizeSeq_ordered (helems : ∀ op ∈ ops, Ordered op) (hbefore : ops.Pairwise Before) :
    ∀ op ∈ normalizeSeq ops, Ordered op := by
  rcases ops with _ | ⟨a, _ | ⟨b, rest⟩⟩
  · exact helems
  · exact helems
  · have hrest := (dropWhile_sublist isData (l := a :: b :: rest))
    have hseq : Ordered (.seq (((a :: b :: rest).dropWhile isData).flatMap Op.seqElems)) := by
      refine .seq ?_ ?_
      · intro op hop
        obtain ⟨x, hx, hop⟩ := List.mem_flatMap.mp hop
        exact (helems x (hrest.subset hx)).seqElems.1 op hop
      · exact pairwise_flatMap Before.mono (hbefore.sublist hrest)
          (fun x hx => (helems x (hrest.subset hx)).seqElems.2) fun x _ => leaves_seqElems x
    have hdata : ∀ op ∈ (a :: b :: rest).takeWhile isData, Ordered op :=
      fun op hop => helems op ((takeWhile_sublist _).subset hop)
    simp only [normalizeSeq]
    split
    · exact hdata
    · intro op hop
      rcases List.mem_append.mp hop with hop | hop
      · exact hdata op hop
      · rw [List.mem_singleton.mp hop]
        exact hseq

theorem packConc_apart (ops : List (Op.Staged T)) : (packConc ops).Pairwise Apart := by
  rcases ops with _ | ⟨a, _ | ⟨b, rest⟩⟩
  · exact .nil
  · exact pairwise_singleton ..
  · exact pairwise_singleton ..

theorem packConc_ordered (helems : ∀ op ∈ ops, Ordered op) (hapart : ops.Pairwise Apart) :
    ∀ op ∈ packConc ops, Ordered op := by
  rcases ops with _ | ⟨a, _ | ⟨b, rest⟩⟩
  · exact helems
  · exact helems
  · exact List.forall_mem_singleton.mpr (.conc helems hapart)

theorem normalizeConc_apart (ops : List (Op.Staged T)) : (normalizeConc ops).Pairwise Apart := by
  refine List.pairwise_append.mpr ⟨pairwise_data fun op hop => (List.mem_filter.mp hop).2,
    packConc_apart _, ?_⟩
  intro x hx y _
  exact apart_data_left (List.mem_filter.mp hx).2 y

theorem normalizeConc_ordered (helems : ∀ op ∈ ops, Ordered op) (hapart : ops.Pairwise Apart) :
    ∀ op ∈ normalizeConc ops, Ordered op := by
  have helems' : ∀ op ∈ ops.flatMap Op.concElems, Ordered op := by
    intro op hop
    obtain ⟨x, hx, hop⟩ := List.mem_flatMap.mp hop
    exact (helems x hx).concElems.1 op hop
  have hapart' : (ops.flatMap Op.concElems).Pairwise Apart :=
    pairwise_flatMap Apart.mono hapart (fun x hx => (helems x hx).concElems.2) fun x _ => leaves_concElems x
  intro op hop
  rcases List.mem_append.mp hop with hop | hop
  · exact helems' op (List.mem_filter.mp hop).1
  · refine packConc_ordered ?_ (hapart'.sublist filter_sublist) op hop
    exact fun x hx => helems' x (List.mem_filter.mp hx).1

theorem go_apart (op : Op.Staged T) : (go op).Pairwise Apart := by
  cases op with
  | seq q => exact normalizeSeq_apart _
  | conc q => exact normalizeConc_apart _
  | noop => exact .nil
  | _ => exact pairwise_singleton ..

theorem go_ordered (h : Ordered op) : ∀ x ∈ go op, Ordered x := by
  induction h with
  | seq elems before ih =>
    rw [go, goList_eq]
    refine normalizeSeq_ordered ?_ ?_
    · intro x hx
      obtain ⟨op, hop, hx⟩ := List.mem_flatMap.mp hx
      exact ih op hop x hx
    · exact pairwise_flatMap Before.mono before (fun op _ => (go_apart op).imp And.left) fun op _ =>
        leaves_go op
  | conc elems apart ih =>
    rw [go, goList_eq]
    refine normalizeConc_ordered ?_ ?_
    · intro x hx
      obtain ⟨op, hop, hx⟩ := List.mem_flatMap.mp hx
      exact ih op hop x hx
    · exact pairwise_flatMap Apart.mono apart (fun op _ => go_apart op) fun op _ => leaves_go op
  | promise ds elems apart last ih =>
    rw [go, goList_eq]
    refine List.forall_mem_singleton.mpr (.promise _ ?_ ?_ ?_)
    · intro x hx
      obtain ⟨op, hop, hx⟩ := List.mem_flatMap.mp hx
      exact ih op hop x hx
    · exact pairwise_flatMap Apart.mono apart (fun op _ => go_apart op) fun op _ => leaves_go op
    · intro x hx hlate
      obtain ⟨op, hop, hx⟩ := List.mem_flatMap.mp hx
      exact last op hop (labels_subset (leaves_go op) hx hlate)
  | void inner => exact List.forall_mem_singleton.mpr (.void inner)
  | data d => exact List.forall_mem_singleton.mpr (.data _)
  | call c => exact List.forall_mem_singleton.mpr (.call _)
  | defer m t => exact List.forall_mem_singleton.mpr (.defer _ _)
  | deferRelative m s => exact List.forall_mem_singleton.mpr (.deferRelative _ _)
  | noop => exact fun x hx => by cases hx

theorem normalize_ordered (h : Ordered op) : (∀ x ∈ op.normalize, Ordered x) ∧
      op.normalize.Pairwise Apart := by
  constructor
  · intro x hx
    obtain ⟨y, hy, hx⟩ := List.mem_flatMap.mp hx
    exact (go_ordered h y hy).concElems.1 x hx
  · exact pairwise_flatMap Apart.mono (go_apart op) (fun x hx => (go_ordered h x hx).concElems.2)
      fun x _ => leaves_concElems x

/-- What a step of an ordered op leaves and does. -/
structure StepOf (op : Op.Staged T) (out : Outcome (T.labelled Label)) : Prop where
  result : ∀ r, out.1 = .ok (some r) → Ordered r ∧ r.labels ⊆ op.labels
  label_mem : ∀ a ∈ out.2, ∀ l, a.label = some l → l ∈ op.labels
  late : ∀ a ∈ out.2, a.label = some .late → Label.early ∉ op.labels

variable {out : Outcome (T.labelled Label)}

theorem stepOf_single {l : Label} (hop : op.labels = [l])
    (hres : ∀ r, out.1 = .ok (some r) → ∀ l' ∈ r.labels, l' = l)
    (hact : ∀ a ∈ out.2, a.label = some l) : StepOf op out := by
  have hearly : l = .late → Label.early ∉ op.labels := by
    rintro rfl hmem
    rw [hop] at hmem
    exact nomatch List.mem_singleton.mp hmem
  refine ⟨?_, ?_, ?_⟩
  · intro r hr
    constructor
    · refine ordered_of_not_mixed fun hlate hmem => ?_
      have heq : Label.late = Label.early := (hres r hr _ hlate).trans (hres r hr _ hmem).symm
      cases heq
    · intro l' hl'
      rw [hop, hres r hr l' hl']
      exact mem_singleton_self l
  · intro a ha l' hl'
    rw [hop, ← Option.some.inj ((hact a ha).symm.trans hl')]
    exact mem_singleton_self l
  · intro a ha hlate
    exact hearly (Option.some.inj ((hact a ha).symm.trans hlate))

theorem stepOf_answer {l : Label} (hop : op.labels = [l]) (res : Except QueueError (Op T))
    {a : Action (T.labelled Label)} (ha : a.label = some l) :
      StepOf op ((res.map (label l)).map some, [a]) := by
  refine stepOf_single hop ?_ (List.forall_mem_singleton.mpr ha)
  intro r hr l' hl'
  cases res with
  | error e => cases hr
  | ok op' =>
    rw [← Option.some.inj (Except.ok.inj hr)] at hl'
    exact mem_labels_label hl'

theorem stepOf_silent (hres : ∀ r, out.1 = .ok (some r) → Ordered r ∧ r.labels ⊆ op.labels)
    (hact : ∀ a ∈ out.2, a.label = none) : StepOf op out := by
  refine ⟨hres, ?_, ?_⟩
  · intro a ha l hl
    cases (hact a ha).symm.trans hl
  · intro a ha hlate
    cases (hact a ha).symm.trans hlate

theorem StepOf.within (h : StepOf x out) {f : Option (Op.Staged T) → Op.Staged T} (hx : x.labels ⊆ op.labels)
    (hlate : Label.late ∈ x.labels → Label.early ∉ x.labels → Label.early ∉ op.labels)
    (hf : ∀ r : Option (Op.Staged T), (∀ r' ∈ r.toList, Ordered r' ∧ r'.labels ⊆ x.labels) →
      Ordered (f r) ∧ (f r).labels ⊆ op.labels) : StepOf op (out.within f) := by
  refine ⟨?_, fun a ha l hl => hx (h.label_mem a ha l hl),
    fun a ha hal => hlate (h.label_mem a ha _ hal) (h.late a ha hal)⟩
  intro r hr
  obtain ⟨r', hr', heq⟩ := Outcome.within_eq_ok hr
  rw [Option.some.inj heq]
  refine hf r' fun r'' hr'' => ?_
  rw [Option.mem_toList.mp hr''] at hr'
  exact h.result r'' hr'

theorem pairwise_toList (r : Option (Op.Staged T)) : r.toList.Pairwise R := by
  cases r with
  | none => exact .nil
  | some op => exact pairwise_singleton ..

theorem Ordered.collect {queue : List (Op.Staged T)} {r : Option (Op.Staged T)} {k : T.Callback × Label}
    (helems : ∀ op ∈ queue ++ r.toList, Ordered op) (hapart : (queue ++ r.toList).Pairwise Apart)
    (hlast : ∀ op ∈ queue ++ r.toList, Label.late ∈ op.labels → k.2 ≠ .early) (ds : List T.Data) :
    Ordered (collect queue ds k r) := by
  rcases r with _ | r
  · rw [Option.toList_none, append_nil] at helems hapart hlast
    exact .promise _ helems hapart hlast
  · cases r with
    | data d =>
      have hsub : queue ⊆ queue ++ [.data d] := fun op hop => mem_append_left _ hop
      exact .promise _ (fun op hop => helems op (hsub hop)) (List.pairwise_append.mp hapart).1
        fun op hop => hlast op (hsub hop)
    | _ => exact .promise _ helems hapart hlast

theorem Ordered.voidOf (h : Ordered op) : Ordered (voidOf op) := by
  cases op with
  | data d => exact .noop
  | _ => exact .void h

theorem queue_after {q : List (Op.Staged T)} {r : Option (Op.Staged T)} (helems : ∀ op ∈ x :: q, Ordered op)
    (hapart : (x :: q).Pairwise Apart) (hr : ∀ r' ∈ r.toList, Ordered r' ∧ r'.labels ⊆ x.labels) :
    (∀ op ∈ q ++ r.toList, Ordered op) ∧ (q ++ r.toList).Pairwise Apart ∧
      ∀ l, (∃ op ∈ q ++ r.toList, l ∈ op.labels) → ∃ op ∈ x :: q, l ∈ op.labels := by
  obtain ⟨hx, hq⟩ := List.pairwise_cons.mp hapart
  refine ⟨?_, List.pairwise_append.mpr ⟨hq, pairwise_toList r, ?_⟩, ?_⟩
  · intro y hy
    rcases List.mem_append.mp hy with hy | hy
    · exact helems y (mem_cons_of_mem x hy)
    · exact (hr y hy).1
  · intro z hz y hy
    exact (hx z hz).symm.mono (List.Subset.refl _) (hr y hy).2
  · rintro l ⟨y, hy, hl⟩
    rcases List.mem_append.mp hy with hy | hy
    · exact ⟨y, mem_cons_of_mem x hy, hl⟩
    · exact ⟨x, mem_cons_self, (hr y hy).2 hl⟩

theorem process_stepOf (h : Handler T) (now : Nat) (hop : Ordered op) :
    StepOf op (op.process h.labelled now) := by
  induction hop with
  | data d => exact stepOf_silent (fun r hr => by cases hr) (List.forall_mem_singleton.mpr rfl)
  | call c => exact stepOf_answer rfl (h.call c.1) rfl
  | defer m t =>
    refine stepOf_single rfl ?_ (List.forall_mem_singleton.mpr rfl)
    intro r hr l hl
    rw [process] at hr
    split at hr
    · obtain rfl := Option.some.inj (Except.ok.inj hr)
      exact List.mem_singleton.mp hl
    · cases Except.ok.inj hr
  | deferRelative m s =>
    refine stepOf_single rfl ?_ (List.forall_mem_singleton.mpr rfl)
    intro r hr l hl
    obtain rfl := Option.some.inj (Except.ok.inj hr)
    exact List.mem_singleton.mp hl
  | @seq q elems before ih =>
    rcases q with _ | ⟨x, q⟩
    · exact stepOf_silent (fun r hr => by cases hr) fun a ha => by cases ha
    · obtain ⟨hx, hq⟩ := List.pairwise_cons.mp before
      refine (ih x mem_cons_self).within ?_ ?_ ?_
      · intro l hl
        exact mem_labels_seq.mpr ⟨x, mem_cons_self, hl⟩
      · intro hlate hearly hmem
        obtain ⟨y, hy, hmem⟩ := mem_labels_seq.mp hmem
        rcases List.mem_cons.mp hy with heq | hy
        · exact hearly (heq ▸ hmem)
        · exact hx y hy hlate hmem
      · intro r hr
        constructor
        · refine .seq ?_ (List.pairwise_append.mpr ⟨pairwise_toList r, hq, ?_⟩)
          · intro y hy
            rcases List.mem_append.mp hy with hy | hy
            · exact (hr y hy).1
            · exact elems y (mem_cons_of_mem x hy)
          · intro y hy z hz
            exact (hx z hz).mono (hr y hy).2 (List.Subset.refl _)
        · intro l hl
          obtain ⟨y, hy, hl⟩ := mem_labels_seq.mp hl
          rcases List.mem_append.mp hy with hy | hy
          · exact mem_labels_seq.mpr ⟨x, mem_cons_self, (hr y hy).2 hl⟩
          · exact mem_labels_seq.mpr ⟨y, mem_cons_of_mem x hy, hl⟩
  | @conc q elems apart ih =>
    rcases q with _ | ⟨x, q⟩
    · exact stepOf_silent (fun r hr => by cases hr) fun a ha => by cases ha
    · obtain ⟨hx, hq⟩ := List.pairwise_cons.mp apart
      refine (ih x mem_cons_self).within ?_ ?_ ?_
      · intro l hl
        exact mem_labels_conc.mpr ⟨x, mem_cons_self, hl⟩
      · intro hlate hearly hmem
        obtain ⟨y, hy, hmem⟩ := mem_labels_conc.mp hmem
        rcases List.mem_cons.mp hy with heq | hy
        · exact hearly (heq ▸ hmem)
        · exact (hx y hy).1 hlate hmem
      · intro r hr
        obtain ⟨helems, hapart, hlabels⟩ := queue_after elems apart hr
        exact ⟨.conc helems hapart, fun l hl => mem_labels_conc.mpr (hlabels l (mem_labels_conc.mp hl))⟩
  | @promise q ds k elems apart last ih =>
    rcases q with _ | ⟨x, q⟩
    · exact stepOf_answer rfl (h.callback k.1 ds) rfl
    · obtain ⟨hx, hq⟩ := List.pairwise_cons.mp apart
      by_cases hdata : ∃ d, x = .data d
      · obtain ⟨d, rfl⟩ := hdata
        refine stepOf_silent ?_ fun a ha => by cases ha
        intro r hr
        obtain rfl := Option.some.inj (Except.ok.inj hr)
        refine ⟨.promise _ (List.forall_mem_cons.mp elems).2 hq (List.forall_mem_cons.mp last).2, ?_⟩
        intro l hl
        rcases mem_labels_promise.mp hl with ⟨y, hy, hl⟩ | hl
        · exact mem_labels_promise.mpr (.inl ⟨y, mem_cons_of_mem _ hy, hl⟩)
        · exact mem_labels_promise.mpr (.inr hl)
      · rw [process_promise_cons _ now (not_exists.mp hdata)]
        refine (ih x mem_cons_self).within ?_ ?_ ?_
        · intro l hl
          exact mem_labels_promise.mpr (.inl ⟨x, mem_cons_self, hl⟩)
        · intro hlate hearly hmem
          rcases mem_labels_promise.mp hmem with ⟨y, hy, hmem⟩ | hmem
          · rcases List.mem_cons.mp hy with heq | hy
            · exact hearly (heq ▸ hmem)
            · exact (hx y hy).1 hlate hmem
          · exact last x mem_cons_self hlate hmem.symm
        · intro r hr
          obtain ⟨helems, hapart, hlabels⟩ := queue_after elems apart hr
          constructor
          · refine Ordered.collect helems hapart ?_ ds
            intro y hy hlate
            obtain ⟨z, hz, hlate⟩ := hlabels _ ⟨y, hy, hlate⟩
            exact last z hz hlate
          · intro l hl
            rcases mem_labels_collect.mp hl with hl | hl
            · exact mem_labels_promise.mpr (.inl (hlabels l hl))
            · exact mem_labels_promise.mpr (.inr hl)
  | @void op inner ih =>
    refine ⟨?_, ih.label_mem, ih.late⟩
    intro r hr
    obtain ⟨r', hr', heq⟩ := void_eq_ok hr
    obtain ⟨r'', rfl, rfl⟩ := Option.map_eq_some_iff.mp heq.symm
    obtain ⟨hordered, hlabels⟩ := ih.result r'' hr'
    refine ⟨hordered.voidOf, ?_⟩
    rw [labels, leaves_voidOf]
    exact hlabels
  | noop => exact stepOf_silent (fun r hr => by cases hr) fun a ha => by cases ha

end Op

end UnionVoyager.Vm
