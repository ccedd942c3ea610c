import UnionVoyager.Vm.Op
import Mathlib.Data.List.TakeWhile
import Mathlib.Data.Multiset.Bind
import Mathlib.Tactic.Abel

/-!
# The order of an op's leaves

An op as a series-parallel order of its leaves: everything but `Seq`, `Conc` and `Noop` is one.
-/

namespace UnionVoyager.Vm

open Multiset
open List (append_nil cons_append filter_append flatMap_append flatMap_cons)

/-! ## Pairs -/

section Pairs

variable {α : Type}

/-- The pairs of which the first is ahead of the second in the list. -/
def inText : List α → Multiset (α × α)
  | [] => 0
  | a :: l => (l : Multiset α).map (a, ·) + inText l

theorem inText_append (l l' : List α) :
    inText (l ++ l') = inText l + ((l : Multiset α) ×ˢ (l' : Multiset α)) + inText l' := by
  induction l with
  | nil => simp [inText]
  | cons a l ih =>
    rw [cons_append, inText, ih, inText, ← coe_add, Multiset.map_add, ← cons_coe,
      cons_product]
    abel

theorem inText_interleave (a b c d : List α) :
    inText (a ++ b) + inText (c ++ d) ≤ inText ((a ++ c) ++ (b ++ d)) := by
  refine Multiset.le_iff_exists_add.mpr ⟨(a : Multiset α) ×ˢ (c : Multiset α) +
    (a : Multiset α) ×ˢ (d : Multiset α) +
    (c : Multiset α) ×ˢ (b : Multiset α) + (b : Multiset α) ×ˢ (d : Multiset α), ?_⟩
  simp only [inText_append, ← coe_add, add_product, product_add]
  abel

theorem filter_product (p q : α → Bool) (s t : Multiset α) :
    (s ×ˢ t).filter (fun x => p x.1 && q x.2) = s.filter (p ·) ×ˢ t.filter (q ·) := by
  induction s using Multiset.induction_on with
  | empty => simp
  | cons a s ih =>
    rw [cons_product, filter_add, ih, filter_map]
    cases hp : p a with
    | true => simp [hp]
    | false => simp [hp]

end Pairs

namespace Op

variable {T : QueueMessage}

attribute [local grind =] go goList normalizeSeq normalizeConc packConc seqElems concElems isData

/-! ## Leaves -/

/-- A promise is compared with its queue normalized. -/
def settled : Op T → Op T
  | .promise queue ds receiver => .promise (goList queue) ds receiver
  | op => op

section Reading

variable (f : Op T → Op T)

mutual
/-- The leaves in the order of the text, each read through `f`. -/
def leafOps : Op T → List (Op T)
  | .seq queue => leafOpsList queue
  | .conc queue => leafOpsList queue
  | .noop => []
  | op => [f op]
def leafOpsList : List (Op T) → List (Op T)
  | [] => []
  | op :: queue => leafOps op ++ leafOpsList queue
end

mutual
/-- The pairs of leaves of which the first must precede the second. -/
def precedes : Op T → Multiset (Op T × Op T)
  | .seq queue => inSeries queue
  | .conc queue => inParallel queue
  | _ => 0
def inSeries : List (Op T) → Multiset (Op T × Op T)
  | [] => 0
  | op :: queue =>
    precedes op + ((leafOps f op : Multiset (Op T)) ×ˢ (leafOpsList f queue : Multiset (Op T))) +
      inSeries queue
def inParallel : List (Op T) → Multiset (Op T × Op T)
  | [] => 0
  | op :: queue => precedes op + inParallel queue
end

attribute [local grind =] leafOps leafOpsList precedes inSeries inParallel inText

variable {f} {op : Op T} {ops ops' : List (Op T)}

variable (f) in
theorem leafOpsList_eq (ops : List (Op T)) : leafOpsList f ops = ops.flatMap (leafOps f) := by
  induction ops with
  | nil => rfl
  | cons op ops ih => rw [leafOpsList, ih, flatMap_cons]

theorem leafOpsList_append (ops ops' : List (Op T)) :
    leafOpsList f (ops ++ ops') = leafOpsList f ops ++ leafOpsList f ops' := by
  simp only [leafOpsList_eq, flatMap_append]

theorem leafOpsList_flatMap {g : Op T → List (Op T)} (h : ∀ op : Op T, leafOpsList f (g op) = leafOps f op)
    (ops : List (Op T)) : leafOpsList f (ops.flatMap g) = leafOpsList f ops := by
  induction ops with
  | nil => rfl
  | cons op ops ih => rw [flatMap_cons, leafOpsList_append, h, ih, leafOpsList]

theorem leafOpsList_singleton (op : Op T) : leafOpsList f [op] = leafOps f op := append_nil _

theorem leafOps_seqElems (op : Op T) : leafOpsList f op.seqElems = leafOps f op := by
  cases op with
  | seq q => rfl
  | _ => exact leafOpsList_singleton _

theorem leafOps_concElems (op : Op T) : leafOpsList f op.concElems = leafOps f op := by
  cases op with
  | conc q => rfl
  | _ => exact leafOpsList_singleton _

theorem leafOps_packConc (ops : List (Op T)) : leafOpsList f (packConc ops) = leafOpsList f ops := by
  rcases ops with _ | ⟨a, _ | ⟨b, rest⟩⟩
  · rfl
  · rfl
  · exact leafOpsList_singleton _

theorem inSeries_singleton (op : Op T) : inSeries f [op] = precedes f op := by
  simp [inSeries, leafOpsList]

theorem inSeries_append (ops ops' : List (Op T)) : inSeries f (ops ++ ops') = inSeries f ops +
    ((leafOpsList f ops : Multiset (Op T)) ×ˢ (leafOpsList f ops' : Multiset (Op T))) + inSeries f ops' := by
  induction ops with
  | nil => simp [inSeries, leafOpsList]
  | cons op ops ih =>
    rw [cons_append, inSeries, ih, inSeries, leafOpsList_append, leafOpsList, ← coe_add,
      ← coe_add, product_add, add_product]
    abel

theorem inParallel_append (ops ops' : List (Op T)) :
    inParallel f (ops ++ ops') = inParallel f ops + inParallel f ops' := by
  induction ops with
  | nil => exact (zero_add _).symm
  | cons op ops ih => rw [cons_append, inParallel, ih, inParallel, add_assoc]

theorem inSeries_flatMap (ops : List (Op T)) : inSeries f (ops.flatMap seqElems) = inSeries f ops := by
  induction ops with
  | nil => rfl
  | cons op ops ih =>
    have hop : inSeries f op.seqElems = precedes f op := by
      cases op with
      | seq q => rfl
      | _ => exact inSeries_singleton _
    rw [flatMap_cons, inSeries_append, hop, ih, leafOps_seqElems,
      leafOpsList_flatMap leafOps_seqElems, inSeries]

theorem inParallel_flatMap (ops : List (Op T)) : inParallel f (ops.flatMap concElems) = inParallel f ops := by
  induction ops with
  | nil => rfl
  | cons op ops ih =>
    have hop : inParallel f op.concElems = precedes f op := by
      cases op with
      | conc q => rfl
      | _ => exact add_zero _
    rw [flatMap_cons, inParallel_append, hop, ih, inParallel]

theorem inParallel_packConc (ops : List (Op T)) : inParallel f (packConc ops) = inParallel f ops := by
  rcases ops with _ | ⟨a, _ | ⟨b, rest⟩⟩
  · rfl
  · rfl
  · exact add_zero _

theorem inParallel_perm (h : ops.Perm ops') : inParallel f ops = inParallel f ops' := by
  induction h with
  | nil => rfl
  | cons op h ih => rw [inParallel, inParallel, ih]
  | swap a b ops => rw [inParallel, inParallel, inParallel, inParallel, add_left_comm]
  | trans h h' ih ih' => rw [ih, ih']

end Reading

/-! ## What `go` keeps -/

/-- What follows a leaf that is no data. -/
def binding (p : Op T × Op T) : Bool := !p.1.isData

/-- Data behind a leaf that is none. -/
def late (p : Op T × Op T) : Bool := !p.1.isData && p.2.isData

variable {ops : List (Op T)}

theorem isData_takeWhile : ∀ op ∈ ops.takeWhile isData, op.isData = true := fun _ h =>
    List.mem_takeWhile_imp h

section

variable (h : ∀ op ∈ ops, op.isData = true)

include h

theorem leafOpsList_data : leafOpsList id ops = ops := by
  induction ops with
  | nil => rfl
  | cons op ops ih =>
    obtain ⟨hop, hops⟩ := List.forall_mem_cons.mp h
    rw [leafOpsList, ih hops]
    cases op with
    | data d => rfl
    | _ => cases hop

theorem inParallel_data : inParallel id ops = 0 := by
  induction ops with
  | nil => rfl
  | cons op ops ih =>
    obtain ⟨hop, hops⟩ := List.forall_mem_cons.mp h
    rw [inParallel, ih hops]
    cases op with
    | data d => rfl
    | _ => cases hop

theorem filter_data : (ops : Multiset (Op T)).filter (fun op => !op.isData) = 0 :=
  Multiset.filter_eq_nil.mpr fun op hop => by simp [h op hop]

theorem binding_product_data (s : Multiset (Op T)) :
    ((ops : Multiset (Op T)) ×ˢ s).filter (binding ·) = 0 := by
  have hfilter := filter_product (fun op : Op T => !op.isData) (fun _ => true) ops s
  rw [filter_data h, zero_product] at hfilter
  exact (filter_congr fun p _ => by rw [binding, Bool.and_true]).trans hfilter

theorem binding_inSeries_data (ops' : List (Op T)) :
    (inSeries id (ops ++ ops')).filter (binding ·) = (inSeries id ops').filter (binding ·) := by
  induction ops with
  | nil => rfl
  | cons op ops ih =>
    obtain ⟨hop, hops⟩ := List.forall_mem_cons.mp h
    have hleaf : leafOps id op = [op] := by
      cases op with
      | data d => rfl
      | _ => cases hop
    have hnone : precedes id op = 0 := by
      cases op with
      | data d => rfl
      | _ => cases hop
    rw [cons_append, inSeries, filter_add, filter_add, ih hops, hnone, hleaf,
      binding_product_data (List.forall_mem_singleton.mpr hop), filter_zero, zero_add, zero_add]

end

theorem leafOps_normalizeSeq (ops : List (Op T)) :
    leafOpsList id (normalizeSeq ops) = leafOpsList id ops := by
  rcases ops with _ | ⟨a, _ | ⟨b, rest⟩⟩
  · rfl
  · rfl
  · have hsplit := congrArg (leafOpsList id)
      (List.takeWhile_append_dropWhile (p := isData) (l := a :: b :: rest))
    rw [leafOpsList_append] at hsplit
    simp only [normalizeSeq]
    split
    · rename_i hempty
      rw [List.isEmpty_iff.mp hempty, leafOpsList, append_nil] at hsplit
      exact hsplit
    · rw [leafOpsList_append, leafOpsList_singleton, leafOps, leafOpsList_flatMap leafOps_seqElems]
      exact hsplit

theorem binding_normalizeSeq (ops : List (Op T)) :
    (inParallel id (normalizeSeq ops)).filter (binding ·) = (inSeries id ops).filter (binding ·) := by
  rcases ops with _ | ⟨a, _ | ⟨b, rest⟩⟩
  · rfl
  · rw [inSeries_singleton]
    exact congrArg _ (add_zero _)
  · have hlead : ∀ op ∈ (a :: b :: rest).takeWhile isData, op.isData = true := isData_takeWhile
    have hseries := binding_inSeries_data hlead ((a :: b :: rest).dropWhile isData)
    rw [List.takeWhile_append_dropWhile] at hseries
    simp only [normalizeSeq]
    rw [hseries]
    split
    · rename_i hempty
      rw [List.isEmpty_iff.mp hempty, inParallel_data hlead]
      rfl
    · rw [inParallel_append, inParallel_data hlead, zero_add]
      refine congrArg _ ((add_zero _).trans ?_)
      rw [precedes, inSeries_flatMap]

theorem leafOps_normalizeConc (ops : List (Op T)) :
    (leafOpsList id (normalizeConc ops)).Perm (leafOpsList id ops) := by
  rw [normalizeConc, leafOpsList_append, leafOps_packConc, ← leafOpsList_append,
    ← leafOpsList_flatMap leafOps_concElems ops, leafOpsList_eq, leafOpsList_eq]
  exact (List.filter_append_perm isData _).flatMap_right _

theorem inParallel_normalizeConc (ops : List (Op T)) :
    inParallel id (normalizeConc ops) = inParallel id ops := by
  have hperm : ((ops.flatMap concElems).filter isData ++ (ops.flatMap concElems).filter (!isData ·)).Perm
      (ops.flatMap concElems) := List.filter_append_perm isData _
  rw [normalizeConc, inParallel_append, inParallel_packConc, ← inParallel_append, inParallel_perm hperm,
    inParallel_flatMap]

/-! ## What `go` returns -/

/-- Data, and at most one other op, with neither data nor a `Conc` in it if it is a `Conc`. -/
def Shaped (ops : List (Op T)) : Prop :=
  ∃ (ds : List (Op T)) (x : Option (Op T)), ops = ds ++ x.toList ∧ (∀ d ∈ ds, d.isData = true) ∧
    ∀ y ∈ x.toList.flatMap concElems, y.isData = false ∧ y.concElems = [y]

variable {op : Op T}

theorem Shaped.of_single (h : ∀ y ∈ op.concElems, y.isData = false ∧ y.concElems = [y]) : Shaped [op] :=
  ⟨[], some op, rfl, fun _ h => absurd h List.not_mem_nil, by simpa using h⟩

theorem concElems_of_isData (h : op.isData = true) : op.concElems = [op] := by
  cases op with
  | data d => rfl
  | _ => cases h

theorem flatMap_concElems_data {ds : List (Op T)} (h : ∀ d ∈ ds, d.isData = true) :
    ds.flatMap concElems = ds := by
  induction ds with
  | nil => rfl
  | cons d ds ih =>
    obtain ⟨hd, hds⟩ := List.forall_mem_cons.mp h
    rw [flatMap_cons, concElems_of_isData hd, ih hds, List.singleton_append]

theorem Shaped.mem (h : Shaped ops) (hop : op ∈ ops) : Shaped [op] := by
  obtain ⟨ds, x, rfl, hds, hx⟩ := h
  rcases List.mem_append.mp hop with hop | hop
  · exact ⟨[op], none, rfl, List.forall_mem_singleton.mpr (hds op hop), by simp⟩
  · exact .of_single fun y hy => hx y (List.mem_flatMap.mpr ⟨op, hop, hy⟩)

theorem Shaped.elems (h : Shaped ops) : ∀ y ∈ ops.flatMap concElems, y.concElems = [y] := by
  intro y hy
  obtain ⟨ds, x, rfl, hds, hx⟩ := h
  rw [flatMap_append] at hy
  rcases List.mem_append.mp hy with hy | hy
  · rw [flatMap_concElems_data hds] at hy
    exact concElems_of_isData (hds y hy)
  · exact (hx y hy).2

theorem shaped_normalizeSeq (h : ∀ op ∈ ops, Shaped [op]) : Shaped (normalizeSeq ops) := by
  rcases ops with _ | ⟨a, _ | ⟨b, rest⟩⟩
  · exact ⟨[], none, rfl, by simp, by simp⟩
  · exact h a (List.mem_singleton_self a)
  · simp only [normalizeSeq]
    split
    · exact ⟨_, none, (append_nil _).symm, isData_takeWhile, by simp⟩
    · exact ⟨_, some _, rfl, isData_takeWhile, by simp [concElems, isData]⟩

theorem shaped_normalizeConc (h : ∀ y ∈ ops.flatMap concElems, y.concElems = [y]) :
    Shaped (normalizeConc ops) := by
  have hdata : ∀ d ∈ (ops.flatMap concElems).filter isData, d.isData = true := fun d hd =>
    (List.mem_filter.mp hd).2
  have hrest : ∀ y ∈ (ops.flatMap concElems).filter (!isData ·), y.isData = false ∧ y.concElems = [y] := by
    intro y hy
    obtain ⟨hy, hnot⟩ := List.mem_filter.mp hy
    exact ⟨by simpa using hnot, h y hy⟩
  simp only [normalizeConc]
  generalize (ops.flatMap concElems).filter (!isData ·) = rest at hrest ⊢
  rcases rest with _ | ⟨a, _ | ⟨b, rest⟩⟩
  · exact ⟨_, none, rfl, hdata, by simp⟩
  · refine ⟨_, some a, rfl, hdata, ?_⟩
    have ha := hrest a (List.mem_singleton_self a)
    rw [Option.toList_some, List.flatMap_singleton, ha.2]
    exact List.forall_mem_singleton.mpr ha
  · exact ⟨_, some (.conc (a :: b :: rest)), rfl, hdata, by simpa [concElems] using hrest⟩

theorem shaped_go (op : Op T) : Shaped (go op) := by
  induction op using Op.elemInduct with
  | seq q ih =>
    rw [go, goList_eq]
    refine shaped_normalizeSeq fun op hop => ?_
    obtain ⟨x, hx, hop⟩ := List.mem_flatMap.mp hop
    exact (ih x hx).mem hop
  | conc q ih =>
    rw [go, goList_eq]
    refine shaped_normalizeConc ?_
    rw [List.flatMap_assoc]
    intro y hy
    obtain ⟨x, hx, hy⟩ := List.mem_flatMap.mp hy
    exact (ih x hx).elems y hy
  | noop => exact ⟨[], none, rfl, by simp, by simp⟩
  | data d => exact ⟨[.data d], none, rfl, by simp [isData], by simp⟩
  | call | defer | deferRelative | promise | void => exact .of_single (by simp [concElems, isData])

theorem Shaped.binding_inSeries (h : Shaped ops) :
    (inSeries id ops).filter (binding ·) = (inParallel id ops).filter (binding ·) := by
  obtain ⟨ds, x, rfl, hds, -⟩ := h
  rw [binding_inSeries_data hds, inParallel_append, inParallel_data hds, zero_add]
  cases x with
  | none => rfl
  | some x => rw [Option.toList_some, inSeries_singleton, inParallel, inParallel, add_zero]

/-! ## Normalizing -/

theorem leafOpsList_go {q : List (Op T)} (h : ∀ op ∈ q, (leafOpsList id (go op)).Perm (leafOps settled op)) :
    (leafOpsList id (q.flatMap go)).Perm (leafOpsList settled q) := by
  rw [leafOpsList_eq settled, leafOpsList_eq, List.flatMap_assoc]
  exact List.Perm.flatMap_left q fun op hop => by rw [← leafOpsList_eq]; exact h op hop

theorem leafOps_go (op : Op T) : (leafOpsList id (go op)).Perm (leafOps settled op) := by
  induction op using Op.elemInduct with
  | seq q ih =>
    rw [go, leafOps_normalizeSeq, goList_eq]
    exact leafOpsList_go ih
  | conc q ih =>
    rw [go, goList_eq]
    exact (leafOps_normalizeConc _).trans (leafOpsList_go ih)
  | noop => exact .nil
  | data | call | defer | deferRelative | promise | void => exact .refl _

/-- **What must follow a leaf that is no data is the same before and after.** -/
theorem binding_go (op : Op T) :
    (inParallel id (go op)).filter (binding ·) = (precedes settled op).filter (binding ·) := by
  induction op using Op.elemInduct with
  | seq q ih =>
    rw [go, binding_normalizeSeq, goList_eq, precedes]
    induction q with
    | nil => rfl
    | cons op q ihq =>
      obtain ⟨hop, hq⟩ := List.forall_mem_cons.mp ih
      rw [flatMap_cons, inSeries_append, inSeries, filter_add, filter_add, filter_add,
        filter_add, (shaped_go op).binding_inSeries, hop, ihq hq, Multiset.coe_eq_coe.mpr (leafOps_go op),
        Multiset.coe_eq_coe.mpr (leafOpsList_go fun op _ => leafOps_go op)]
  | conc q ih =>
    rw [go, inParallel_normalizeConc, goList_eq, precedes]
    induction q with
    | nil => rfl
    | cons op q ihq =>
      obtain ⟨hop, hq⟩ := List.forall_mem_cons.mp ih
      rw [flatMap_cons, inParallel_append, inParallel, filter_add, filter_add, hop, ihq hq]
  | data | call | defer | deferRelative | promise | void | noop => rfl

theorem late_append (l l' : List (Op T)) : (inText (l ++ l')).filter (late ·) = (inText l).filter (late ·) +
      ((l : Multiset (Op T)).filter (fun op => !op.isData)) ×ˢ ((l' : Multiset (Op T)).filter (isData ·)) +
      (inText l').filter (late ·) := by
  rw [inText_append, filter_add, filter_add, ← filter_product (fun op : Op T => !op.isData) isData]
  rfl

theorem late_data (h : ∀ op ∈ ops, op.isData = true) (l : List (Op T)) :
    (inText (ops ++ l)).filter (late ·) = (inText l).filter (late ·) := by
  induction ops with
  | nil => rfl
  | cons op ops ih =>
    obtain ⟨hop, hops⟩ := List.forall_mem_cons.mp h
    rw [← List.singleton_append, List.append_assoc, late_append, ih hops,
      filter_data (List.forall_mem_singleton.mpr hop)]
    simp [inText]

theorem late_normalizeConc (ops : List (Op T)) :
    (inText (leafOpsList id (normalizeConc ops))).filter (late ·) ≤
    (inText (leafOpsList id ops)).filter (late ·) := by
  rw [normalizeConc, leafOpsList_append, leafOps_packConc, ← leafOpsList_flatMap leafOps_concElems ops]
  rw [leafOpsList_data fun d hd => (List.mem_filter.mp hd).2, late_data fun d hd => (List.mem_filter.mp hd).2]
  generalize ops.flatMap concElems = ops
  induction ops with
  | nil => exact le_rfl
  | cons op ops ih =>
    have hperm : (leafOpsList id ops : Multiset (Op T)) =
        (leafOpsList id (ops.filter isData) : Multiset (Op T)) +
          (leafOpsList id (ops.filter (!isData ·))) := by
      rw [coe_add, ← leafOpsList_append, leafOpsList_eq, leafOpsList_eq]
      exact Multiset.coe_eq_coe.mpr ((List.filter_append_perm isData ops).symm.flatMap_right _)
    rw [leafOpsList, late_append]
    cases hop : op.isData with
    | true =>
      rw [List.filter_cons_of_neg (by simp [hop])]
      exact ih.trans (Multiset.le_add_left _ _)
    | false =>
      rw [List.filter_cons_of_pos (by simp [hop]), leafOpsList, late_append, hperm, filter_add,
        product_add]
      exact add_le_add (add_le_add le_rfl (Multiset.le_add_left _ _)) ih

/-- **No leaf comes ahead of data that was ahead of it.** -/
theorem late_go (op : Op T) :
    (inText (leafOpsList id (go op))).filter (late ·) ≤ (inText (leafOps settled op)).filter (late ·) := by
  have hlist : ∀ q : List (Op T), (∀ op ∈ q, (inText (leafOpsList id (go op))).filter (late ·) ≤
      (inText (leafOps settled op)).filter (late ·)) →
      (inText (leafOpsList id (q.flatMap go))).filter (late ·) ≤
        (inText (leafOpsList settled q)).filter (late ·) := by
    intro q ih
    induction q with
    | nil => exact le_rfl
    | cons op q ihq =>
      obtain ⟨hop, hq⟩ := List.forall_mem_cons.mp ih
      rw [flatMap_cons, leafOpsList_append, leafOpsList, late_append, late_append,
        Multiset.coe_eq_coe.mpr (leafOps_go op),
          Multiset.coe_eq_coe.mpr (leafOpsList_go fun op _ => leafOps_go op)]
      exact add_le_add (add_le_add hop le_rfl) (ihq hq)
  induction op using Op.elemInduct with
  | seq q ih =>
    rw [go, leafOps_normalizeSeq, goList_eq]
    exact hlist q ih
  | conc q ih =>
    rw [go, goList_eq]
    exact (late_normalizeConc _).trans (hlist q ih)
  | data | call | defer | deferRelative | promise | void | noop => exact le_rfl

/-- **What must precede a leaf is ahead of it in the result.** -/
theorem precedes_le_go (op : Op T) : precedes settled op ≤ inText (leafOpsList id (go op)) := by
  induction op using Op.elemInduct with
  | seq q ih =>
    rw [go, leafOps_normalizeSeq, goList_eq, precedes]
    induction q with
    | nil => exact le_rfl
    | cons op q ihq =>
      obtain ⟨hop, hq⟩ := List.forall_mem_cons.mp ih
      rw [flatMap_cons, leafOpsList_append, inSeries, inText_append,
        Multiset.coe_eq_coe.mpr (leafOps_go op),
          Multiset.coe_eq_coe.mpr (leafOpsList_go fun op _ => leafOps_go op)]
      exact add_le_add (add_le_add hop le_rfl) (ihq hq)
  | conc q ih =>
    rw [go, goList_eq, precedes, normalizeConc, leafOpsList_append, leafOps_packConc, ← leafOpsList_append]
    induction q with
    | nil => exact le_rfl
    | cons op q ihq =>
      obtain ⟨hop, hq⟩ := List.forall_mem_cons.mp ih
      obtain ⟨ds, x, hgo, hds, hx⟩ := shaped_go op
      have helems : (go op).flatMap concElems = ds ++ x.toList.flatMap concElems := by
        rw [hgo, flatMap_append, flatMap_concElems_data hds]
      have htext : leafOpsList id (ds ++ x.toList.flatMap concElems) = leafOpsList id (go op) := by
        rw [← helems, leafOpsList_flatMap leafOps_concElems]
      have hfront : ((go op).flatMap concElems).filter isData = ds := by
        rw [helems, filter_append, List.filter_eq_self.mpr hds,
          List.filter_eq_nil_iff.mpr fun y hy => by simp [(hx y hy).1], append_nil]
      have hback : ((go op).flatMap concElems).filter (!isData ·) = x.toList.flatMap concElems := by
        rw [helems, filter_append, List.filter_eq_nil_iff.mpr fun d (hd : d ∈ ds) => by simp [hds d hd],
          List.nil_append]
        exact List.filter_eq_self.mpr fun y hy => by simp [(hx y hy).1]
      rw [flatMap_cons, flatMap_append, filter_append, filter_append, hfront,
        hback, inParallel]
      refine (add_le_add (htext ▸ hop) (ihq hq)).trans ?_
      simp only [leafOpsList_append]
      exact inText_interleave _ _ _ _
  | data | call | defer | deferRelative | promise | void | noop => exact Multiset.zero_le _

/-- **`normalize` keeps the leaves, and what must follow each leaf that is no data.  Data only moves
    ahead, and not of a leaf that leads it: what must precede a leaf stays ahead of it, and no leaf
    comes ahead of data that was ahead of it.** -/
theorem normalize_order (op : Op T) : (leafOpsList id op.normalize).Perm (leafOps settled op) ∧
      (inParallel id op.normalize).filter (binding ·) = (precedes settled op).filter (binding ·) ∧
      precedes settled op ≤ inText (leafOpsList id op.normalize) ∧
      (inText (leafOpsList id op.normalize)).filter (late ·) ≤ (inText (leafOps settled op)).filter
        (late ·) := by
  have htext : leafOpsList id op.normalize = leafOpsList id (go op) := leafOpsList_flatMap leafOps_concElems _
  rw [htext]
  refine ⟨leafOps_go op, ?_, precedes_le_go op, late_go op⟩
  rw [normalize, inParallel_flatMap]
  exact binding_go op

end Op

end UnionVoyager.Vm
