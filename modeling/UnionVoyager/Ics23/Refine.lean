import UnionVoyager.Ics23.Port

/-!
# A port accepts what `lib/ics23` accepts, up to the format

What a port has checked of an accepted proof, together with the checks of the format that the ports
leave out, is all that `lib/ics23` checks; so a proof that is accepted and has the format is sound.

* `Shown.verify`, `Absent.verify` — **with the format, `lib/ics23` accepts the translated proof**;
  `formatted_of_verifyNonExistence` — and only with it.
-/

namespace UnionVoyager.Ics23.Port

open Lib List

variable {hs : Hashes} {spec : Ics23.ProofSpec} {port : ProofSpec}

/-! ## Existence -/

/-- What a port has checked of a proof that it accepts for a root. -/
structure Shown (hs : Hashes) (root : Bytes) (proof : ExistenceProof) : Prop where
  leafByte : LeafByte proof.leafPrefix
  key_ne_nil : proof.key ≠ []
  value_ne_nil : proof.value ≠ []
  root_eq : proof.evidence.root hs.sha256 = root

theorem ne_nil_of_length {b : Bytes} (h : b.length = 32) : b ≠ [] := ne_nil_of_length_pos (by omega)

variable {given : Option Ics23.ProofSpec}

theorem applyStep_translated (hsize : ∀ spec ∈ given, 32 ≤ spec.innerSpec.childSize) (op : InnerOp)
    {child : Bytes} (hchild : child.length = 32) :
    Ics23.ExistenceProof.applyStep hs given child op.translated = .ok (hs.sha256 (op.step.input child)) := by
  have happly : op.translated.apply hs child = .ok (hs.sha256 (op.step.input child)) := by
    simp only [Ics23.InnerOp.apply, bind_eq_ok, ensure_eq_ok, exists_const]
    exact ⟨ne_nil_of_length hchild, rfl⟩
  have hcheck : Ics23.ExistenceProof.checkChildSize (hs.sha256 (op.step.input child)) given = .ok () := by
    cases given with
    | none => rfl
    | some spec =>
      have hge := hsize spec rfl
      have hlen := hs.sha256_length (op.step.input child)
      apply ensure_eq_ok.mpr
      omega
  simp only [Ics23.ExistenceProof.applyStep, bind_eq_ok, mapError_eq_ok, pure_eq_ok]
  exact ⟨_, happly, (), hcheck, rfl⟩

theorem foldlM_translated (hsize : ∀ spec ∈ given, 32 ≤ spec.innerSpec.childSize)
    (path : List InnerOp) {start : Bytes} (hstart : start.length = 32) :
    (path.map InnerOp.translated).foldlM (Ics23.ExistenceProof.applyStep hs given) start =
      .ok (walk hs.sha256 start (path.map InnerOp.step)) := by
  induction path generalizing start with
  | nil => rfl
  | cons op path ih =>
    rw [map_cons, foldlM_cons, applyStep_translated hsize op hstart, ok_bind, ih (hs.sha256_length _)]
    rfl

variable {proof q : ExistenceProof}

theorem calculate_translated (hsize : ∀ spec ∈ given, 32 ≤ spec.innerSpec.childSize) (hkey : proof.key ≠ [])
    (hvalue : proof.value ≠ []) : proof.translated.calculate hs given =
      .ok (proof.evidence.root hs.sha256) := by
  have happly : proof.translated.leaf.apply hs proof.key proof.value =
      .ok (hs.sha256 (proof.evidence.start hs.sha256)) :=
    (leaf_apply_eq_ok rfl).mpr ⟨hkey, hvalue, rfl⟩
  simp only [Ics23.ExistenceProof.calculate, bind_eq_ok, mapError_eq_ok]
  exact ⟨_, happly, foldlM_translated hsize proof.path (hs.sha256_length _)⟩

theorem Shown.calculateRoot {root : Bytes} (h : Shown hs root proof) :
    proof.translated.calculateRoot hs = .ok root := by
  rw [← h.root_eq]
  exact calculate_translated (by simp) h.key_ne_nil h.value_ne_nil

theorem Shown.verify (htrims : Trims spec port) {root : Bytes} (h : Shown hs root proof)
    (hrange : ∀ op ∈ proof.path, InRange port op) (hformat : Formatted spec proof) :
    verifyExistenceProof hs proof.translated spec root proof.key proof.value = .ok () := by
  have hcheck := (checkAgainstSpec_translated htrims).mpr ⟨h.leafByte, hrange, hformat⟩
  have hsize : ∀ spec' ∈ some spec, 32 ≤ spec'.innerSpec.childSize := by
    rintro _ ⟨⟩
    rw [htrims.childSize]
    exact htrims.childSize_ge
  have hcalculate : proof.translated.calculate hs (some spec) = .ok (proof.evidence.root hs.sha256) :=
    calculate_translated hsize h.key_ne_nil h.value_ne_nil
  simp only [verifyExistenceProof, bind_eq_ok, mapError_eq_ok, ensure_eq_ok, exists_const]
  exact ⟨(), hcheck, rfl, rfl, _, hcalculate, h.root_eq.symm⟩

/-! ## The neighbour search -/

theorem allM_ok {ε α : Type} {p : α → Except ε Bool} {l : List α} (h : ∀ a ∈ l, p a = .ok true) :
    l.allM p = .ok true := by
  induction l with
  | nil => rfl
  | cons a l ih =>
    rw [allM, h a mem_cons_self, ok_bind]
    exact ih fun x hx => h x (mem_cons_of_mem _ hx)

theorem hasPadding_translated (op : InnerOp) (padding : Padding) :
    Ics23.hasPadding op.translated padding = hasPadding op padding := by
  unfold Ics23.hasPadding hasPadding InnerOp.translated
  by_cases h : op.innerPrefix.length < padding.minPrefix ∨ padding.maxPrefix < op.innerPrefix.length
  · rw [if_pos h]
    simp only [decide_eq_false_iff_not]
    omega
  · rw [if_neg h]
    simp only [decide_eq_decide]
    omega

section

variable (htrims : Trims spec port)

include htrims

theorem getPadding_translated_left :
    Ics23.getPadding spec.innerSpec 0 = .ok (getPadding port 0) := by
  rw [getPadding_left htrims.standard, htrims.minPrefixLength, htrims.maxPrefixLength, htrims.childSize]
  simp [getPadding]

theorem getPadding_translated_right :
    Ics23.getPadding spec.innerSpec 1 = .ok (getPadding port 1) := by
  rw [getPadding_right htrims.standard, htrims.minPrefixLength, htrims.maxPrefixLength, htrims.childSize]
  simp [getPadding]

theorem isRightMost_translated {path : List InnerOp} {length : Nat}
    (h : isRightMost port path length = true) :
    Ics23.isRightMost spec.innerSpec ((path.take length).map InnerOp.translated) = .ok true := by
  have hlast : spec.innerSpec.childOrder.length - 1 = 1 := by rw [htrims.standard.childOrder]; rfl
  rw [Ics23.isRightMost, hlast, getPadding_translated_right htrims, ok_bind]
  apply allM_ok
  intro x hx
  obtain ⟨op, hop, rfl⟩ := List.mem_map.mp hx
  have hpadding := List.all_eq_true.mp h op hop
  rw [stepIsRight, hasPadding_translated, if_pos hpadding]

theorem isLeftMost_translated {path : List InnerOp} {length : Nat}
    (h : isLeftMost port path length = true) :
    Ics23.isLeftMost spec.innerSpec ((path.take length).map InnerOp.translated) = .ok true := by
  rw [Ics23.isLeftMost, getPadding_translated_left htrims, ok_bind]
  apply allM_ok
  intro x hx
  obtain ⟨op, hop, rfl⟩ := List.mem_map.mp hx
  have hpadding := List.all_eq_true.mp h op hop
  rw [stepIsLeft, hasPadding_translated, if_pos hpadding]

theorem orderFromPadding_translated {op : InnerOp} {branch : Nat}
    (h : orderFromPadding port op = some branch) :
      Ics23.orderFromPadding spec.innerSpec op.translated = .ok branch := by
  have hrange : List.range spec.innerSpec.childOrder.length = [0, 1] :=
    by rw [htrims.standard.childOrder]; rfl
  simp only [Ics23.orderFromPadding, hrange, orderAmong, getPadding_translated_left htrims,
    getPadding_translated_right htrims, ok_bind, hasPadding_translated]
  unfold orderFromPadding at h
  rw [find?_cons, find?_cons, find?_nil] at h
  by_cases hleft : hasPadding op (getPadding port 0) = true
  · rw [hleft] at h ⊢
    cases h
    rfl
  · rw [Bool.not_eq_true] at hleft
    rw [hleft] at h ⊢
    by_cases hright : hasPadding op (getPadding port 1) = true
    · rw [hright] at h ⊢
      cases h
      rfl
    · rw [Bool.not_eq_true] at hright
      rw [hright] at h
      cases h

end

theorem take_succ_reverse {α : Type} {l : List α} {i : Nat} {a : α} (h : l[i]? = some a) :
    (l.take (i + 1)).reverse = a :: (l.take i).reverse := by
  rw [take_add_one, h, reverse_append]
  rfl

theorem same_translated {x y : InnerOp} :
    (x.translated.innerPrefix = y.translated.innerPrefix ∧
      x.translated.suffix = y.translated.suffix) ↔ x = y := by
  cases x
  cases y
  simp [InnerOp.translated]

variable {same : InnerOp → InnerOp → Bool}

theorem parting_eq_some {left right : List InnerOp} {leftIdx rightIdx l r : Nat}
    (hsame : ∀ x ∈ left, ∀ y ∈ right, same x y = true ↔ x = y) (hleft : leftIdx < left.length)
    (hright : rightIdx < right.length) (h : parting same left right leftIdx rightIdx = some (l, r)) :
    ∃ x y, left[l]? = some x ∧ right[r]? = some y ∧
      dropCommon ((left.take (leftIdx + 1)).reverse.map InnerOp.translated)
        ((right.take (rightIdx + 1)).reverse.map InnerOp.translated) =
      .ok ⟨x.translated, (left.take l).reverse.map InnerOp.translated, y.translated,
        (right.take r).reverse.map InnerOp.translated⟩ := by
  have hat : ∀ {i j : Nat}, i < left.length → j < right.length → ∃ x y, left[i]? = some x ∧
      right[j]? = some y ∧ (sameAt same left right i j = true ↔ x = y) := by
    intro i j hi hj
    refine ⟨left[i], right[j], getElem?_eq_getElem hi, getElem?_eq_getElem hj, ?_⟩
    rw [sameAt, getElem?_eq_getElem hi, getElem?_eq_getElem hj]
    exact hsame _ (getElem_mem hi) _ (getElem_mem hj)
  have hstop : ∀ {i j : Nat}, i < left.length → j < right.length → sameAt same left right i j ≠ true →
      ∃ x y, left[i]? = some x ∧ right[j]? = some y ∧
        dropCommon ((left.take (i + 1)).reverse.map InnerOp.translated)
          ((right.take (j + 1)).reverse.map InnerOp.translated) =
        .ok ⟨x.translated, (left.take i).reverse.map InnerOp.translated, y.translated,
          (right.take j).reverse.map InnerOp.translated⟩ := by
    intro i j hi hj hdiffer
    obtain ⟨x, y, hx, hy, hiff⟩ := hat hi hj
    refine ⟨x, y, hx, hy, ?_⟩
    rw [take_succ_reverse hx, take_succ_reverse hy, map_cons, map_cons, dropCommon, if_neg]
    intro heq
    exact hdiffer (hiff.mpr (same_translated.mp heq))
  fun_induction parting same left right leftIdx rightIdx with
  | case1 leftIdx rightIdx heq ih =>
    obtain ⟨x, y, hx, hy, hiff⟩ := hat hleft hright
    rw [hiff] at heq
    rw [take_succ_reverse hx, take_succ_reverse hy, map_cons, map_cons, dropCommon, heq, if_pos ⟨rfl, rfl⟩]
    exact ih (by omega) (by omega) h
  | case2 leftIdx rightIdx hdiffer =>
    cases h
    exact hstop hleft hright hdiffer
  | case3 leftIdx rightIdx hend heq => cases h
  | case4 leftIdx rightIdx hend hdiffer =>
    cases h
    exact hstop hleft hright hdiffer

/-- What a port has found out about the places of the two sides. -/
inductive Neighbors (port : ProofSpec) (same : InnerOp → InnerOp → Bool) :
    Option ExistenceProof → Option ExistenceProof → Prop where
  | first (r : ExistenceProof) (hmost : isLeftMost port r.path r.path.length = true) :
      Neighbors port same none (some r)
  | last (l : ExistenceProof) (hmost : isRightMost port l.path l.path.length = true) :
      Neighbors port same (some l) none
  | between (l r : ExistenceProof) (hl : l.path ≠ []) (hr : r.path ≠ [])
      (leftIdx rightIdx branch : Nat) (x y : InnerOp)
      (hparting : parting same l.path r.path (l.path.length - 1) (r.path.length - 1) =
        some (leftIdx, rightIdx))
      (hx : l.path[leftIdx]? = some x) (hy : r.path[rightIdx]? = some y)
        (hleft : orderFromPadding port x = some branch)
      (hright : orderFromPadding port y = some (branch + 1))
        (hrightMost : isRightMost port l.path leftIdx = true)
      (hleftMost : isLeftMost port r.path rightIdx = true) : Neighbors port same (some l) (some r)

/-- What the comparison of two steps must be for the steps of the sides. -/
def Compares (same : InnerOp → InnerOp → Bool) (left right : Option ExistenceProof) : Prop :=
  ∀ l ∈ left, ∀ r ∈ right, ∀ x ∈ l.path, ∀ y ∈ r.path, same x y = true ↔ x = y

variable {left right : Option ExistenceProof}

theorem Neighbors.translated (htrims : Trims spec port) (hsame : Compares same left right)
    (h : Neighbors port same left right) :
    checkNeighbors spec (left.map ExistenceProof.translated) (right.map ExistenceProof.translated) =
      .ok () := by
  cases h with
  | first r hmost =>
    have hrust := isLeftMost_translated htrims hmost
    rw [take_length] at hrust
    simp only [Option.map_none, Option.map_some, checkNeighbors, ExistenceProof.translated, hrust]
    rfl
  | last l hmost =>
    have hrust := isRightMost_translated htrims hmost
    rw [take_length] at hrust
    simp only [Option.map_none, Option.map_some, checkNeighbors, ExistenceProof.translated, hrust]
    rfl
  | between l r hl hr leftIdx rightIdx branch x y hparting hx hy hleft hright hrightMost hleftMost =>
    have hlpos : 0 < l.path.length := List.length_pos_iff.mpr hl
    have hrpos : 0 < r.path.length := List.length_pos_iff.mpr hr
    obtain ⟨x', y', hx', hy', hdrop⟩ :=
      parting_eq_some (hsame l rfl r rfl) (by omega) (by omega) hparting
    rw [hx] at hx'
    rw [hy] at hy'
    cases hx'
    cases hy'
    rw [Nat.sub_add_cancel hlpos, Nat.sub_add_cancel hrpos, take_length, take_length] at hdrop
    have hstep : Ics23.isLeftStep spec.innerSpec x.translated y.translated = .ok true := by
      rw [Ics23.isLeftStep, orderFromPadding_translated htrims hleft, ok_bind,
        orderFromPadding_translated htrims hright, ok_bind]
      simp [pure, Except.pure]
    have hneighbor : Ics23.isLeftNeighbor spec.innerSpec (l.path.map InnerOp.translated)
        (r.path.map InnerOp.translated) = .ok true := by
      rw [Ics23.isLeftNeighbor, ← map_reverse, ← map_reverse, hdrop, ok_bind]
      simp only [← map_reverse, reverse_reverse, hstep, isRightMost_translated htrims hrightMost,
        isLeftMost_translated htrims hleftMost]
      rfl
    simp only [Option.map_some, checkNeighbors, ExistenceProof.translated, hneighbor]
    rfl

/-! ## Absence -/

/-- What a port has checked of a proof of absence that it accepts for a root. -/
structure Absent (hs : Hashes) (port : ProofSpec) (same : InnerOp → InnerOp → Bool)
    (root key : Bytes) (left right : Option ExistenceProof) : Prop where
  shown : ∀ side ∈ left.toList ++ right.toList, Shown hs root side
  below : ∀ l ∈ left, l.key < key
  above : ∀ r ∈ right, key < r.key
  neighbors : Neighbors port same left right

/-- The proof of absence as `lib/ics23` reads it. -/
def translatedNonExistence (key : Bytes) (left right : Option ExistenceProof) : NonExistenceProof :=
  ⟨key, left.map ExistenceProof.translated, right.map ExistenceProof.translated⟩

theorem verifySide_translated (htrims : Trims spec port) {root : Bytes} (side : Option ExistenceProof)
    (h : ∀ proof ∈ side.toList, Shown hs root proof ∧ (∀ op ∈ proof.path, InRange port op) ∧
      Formatted spec proof) :
    verifySide hs spec root (side.map ExistenceProof.translated) =
      .ok ((side.map ExistenceProof.key).getD []) := by
  cases side with
  | none => rfl
  | some proof =>
    obtain ⟨hshown, hrange, hfmt⟩ := h proof (List.mem_singleton.mpr rfl)
    have hver := hshown.verify htrims hrange hfmt
    simp only [Option.map_some, verifySide, bind_eq_ok, pure_eq_ok]
    exact ⟨(), hver, rfl⟩

theorem checkLess_translated (htrims : Trims spec port) {e : VerifyError} {lower upper : Bytes}
    (h : lower < upper) : checkLess hs spec e lower upper = .ok () := by
  simpa [checkLess, keyForComparison, htrims.standard.prehash, Except.mapError, ensure] using h

theorem Absent.verify (htrims : Trims spec port) (proofKey : Bytes) {root key : Bytes}
    (hsame : Compares same left right) (h : Absent hs port same root key left right)
    (hformat : ∀ side ∈ left.toList ++ right.toList, (∀ op ∈ side.path, InRange port op) ∧
      Formatted spec side) :
    verifyNonExistence hs (translatedNonExistence proofKey left right) spec root key = .ok () := by
  have hleft := verifySide_translated htrims left fun proof hproof =>
    have hmem := mem_append_left right.toList hproof
    ⟨h.shown proof hmem, hformat proof hmem⟩
  have hright := verifySide_translated htrims right fun proof hproof =>
    have hmem := mem_append_right left.toList hproof
    ⟨h.shown proof hmem, hformat proof hmem⟩
  have hneighbors := h.neighbors.translated htrims hsame
  simp only [verifyNonExistence, translatedNonExistence, bind_eq_ok, ensure_eq_ok, exists_const, onlyIf_eq_ok,
    decide_eq_true_eq]
  refine ⟨_, hleft, _, hright, ?_, ?_, ?_, hneighbors⟩
  · -- a side that is there has a key
    have hnone : ¬ (left = none ∧ right = none) := by
      rintro ⟨rfl, rfl⟩
      cases h.neighbors
    rintro ⟨hl, hr⟩
    apply hnone
    constructor
    · cases left with
      | none => rfl
      | some l => exact absurd hl (h.shown l (mem_append_left _ (List.mem_singleton.mpr rfl))).key_ne_nil
    · cases right with
      | none => rfl
      | some r => exact absurd hr (h.shown r (mem_append_right _ (List.mem_singleton.mpr rfl))).key_ne_nil
  · intro hne
    cases right with
    | none => exact absurd rfl hne
    | some r => exact checkLess_translated htrims (h.above r rfl)
  · intro hne
    cases left with
    | none => exact absurd rfl hne
    | some l => exact checkLess_translated htrims (h.below l rfl)

theorem formatted_of_verifyNonExistence (htrims : Trims spec port) {root key proofKey : Bytes}
    (h : verifyNonExistence hs (translatedNonExistence proofKey left right) spec root key = .ok ()) :
    ∀ side ∈ left.toList ++ right.toList, (∀ op ∈ side.path, InRange port op) ∧ Formatted spec side := by
  obtain ⟨-, hacc⟩ := verifyNonExistence_eq_ok htrims.standard h
  intro side hside
  have hmem : left.map ExistenceProof.translated = some side.translated ∨
      right.map ExistenceProof.translated = some side.translated := by
    rcases List.mem_append.mp hside with hside | hside
    · rw [Option.mem_toList.mp hside]
      exact .inl rfl
    · rw [Option.mem_toList.mp hside]
      exact .inr rfl
  exact ((checkAgainstSpec_translated htrims).mp (hacc _ hmem).checked).2

/-! ## Both trees -/

/-- The trees of a chain: a sorted IAVL tree, whose root is under the name of its store in a sorted
    tendermint tree, and no other name hides that of the store. -/
structure Stores (H : Bytes → Bytes) where
  outer : TendermintTree
  inner : IavlTree
  name : Bytes
  outer_sorted : outer.keys.Pairwise (· < ·)
  inner_sorted : inner.keys.Pairwise (· < ·)
  stored : (name, inner.hash iavl H) ∈ outer.leaves
  plain : ∀ other ∈ outer.keys, Hides other name → other = name

namespace Stores

variable {H : Bytes → Bytes}

def root (stores : Stores H) : Bytes := stores.outer.hash tendermint H

/-- A chain with one store. -/
def single (H : Bytes → Bytes) (name : Bytes) (inner : IavlTree) (h : inner.keys.Pairwise (· < ·)) :
    Stores H where
  outer := .leaf () name (inner.hash iavl H)
  inner := inner
  name := name
  outer_sorted := pairwise_singleton _ _
  inner_sorted := h
  stored := List.mem_singleton.mpr rfl
  plain := by
    intro other hother _
    exact List.mem_singleton.mp hother

/-- What is hashed for the two trees. -/
def hashed (stores : Stores H) : List Bytes := stores.outer.hashed tendermint H ++ stores.inner.hashed iavl H

end Stores

def ExistenceProof.hashed (hs : Hashes) (proof : ExistenceProof) : List Bytes :=
    proof.evidence.hashed hs.sha256

/-- The operations of the proofs for the inner tree and of the one for the outer are in the ranges
    of their specs. -/
def AllInRange (inner : List ExistenceProof) (outer : ExistenceProof) : Prop :=
  (∀ p ∈ inner, ∀ op ∈ p.path, InRange iavlProofSpec op) ∧ ∀ op ∈ outer.path, InRange tendermintProofSpec op

/-- The proofs for the inner tree and the one for the outer have the format of their specs. -/
def AllFormatted (inner : List ExistenceProof) (outer : ExistenceProof) : Prop :=
  (∀ p ∈ inner, Formatted IAVL_PROOF_SPEC p) ∧ Formatted TENDERMINT_PROOF_SPEC outer

instance (inner : List ExistenceProof) (outer : ExistenceProof) : Decidable (AllInRange inner outer) :=
  inferInstanceAs (Decidable (_ ∧ _))

instance (inner : List ExistenceProof) (outer : ExistenceProof) : Decidable (AllFormatted inner outer) :=
  inferInstanceAs (Decidable (_ ∧ _))

/-- `lib/ics23` accepts the translated membership. -/
def AcceptsMembership (hs : Hashes) (root name : Bytes) (p q : ExistenceProof) (key value : Bytes) : Prop :=
  IbcApi.verifyMembership hs [.exist p.translated, .exist q.translated] SDK_SPECS root [name, key]
    value = .ok ()

/-- `lib/ics23` accepts the translated absence. -/
def AcceptsNonMembership (hs : Hashes) (root name proofKey : Bytes)
    (left right : Option ExistenceProof) (q : ExistenceProof) (key : Bytes) : Prop :=
  IbcApi.verifyNonMembership hs [.nonexist (translatedNonExistence proofKey left right),
    .exist q.translated] SDK_SPECS root [name, key] = .ok ()

section BothTrees

theorem verifyLink_translated {spec : Ics23.ProofSpec} {port : ProofSpec} (htrims : Trims spec port)
    (keys : List Bytes) (i : Nat) {root : Bytes} (hget : SDK_SPECS[i]? = some spec)
    (hkey : IbcApi.keyAt keys i = .ok proof.key) (hshown : Shown hs root proof)
    (hrange : ∀ op ∈ proof.path, InRange port op) (hformat : Formatted spec proof) :
    IbcApi.verifyLink hs SDK_SPECS keys proof.value (.exist proof.translated, i) = .ok root := by
  have hver := hshown.verify htrims hrange hformat
  simp only [IbcApi.verifyLink, bind_eq_ok, mapError_eq_ok, orErr_eq_ok, pure_eq_ok, hget, Option.some.injEq,
    exists_eq_left', verifyMembership, existenceOf_eq_ok, CommitmentProof.exist.injEq]
  exact ⟨root, hshown.calculateRoot, proof.key, hkey, (), hver, rfl⟩

theorem acceptsMembership_iff {root : Bytes} {p : ExistenceProof} (hp : Shown hs q.value p)
    (hq : Shown hs root q) :
    AcceptsMembership hs root q.key p q p.key p.value ↔ AllInRange [p] q ∧ AllFormatted [p] q := by
  constructor
  · intro h
    obtain ⟨_, _, heq, -, -, hacc, -, hacc'⟩ := verifyMembership_eq_ok h
    cases heq
    obtain ⟨-, hrange, hfmt⟩ := (checkAgainstSpec_translated trims_iavl).mp hacc.checked
    obtain ⟨-, hrange', hfmt'⟩ := (checkAgainstSpec_translated trims_tendermint).mp hacc'.checked
    exact ⟨⟨by simpa using hrange, hrange'⟩, by simpa using hfmt, hfmt'⟩
  · rintro ⟨⟨hrange, hrange'⟩, hfmt, hfmt'⟩
    rw [forall_mem_singleton] at hrange hfmt
    have hfirst := verifyLink_translated trims_iavl [q.key, p.key] 0 rfl rfl hp hrange hfmt
    have hsecond := verifyLink_translated trims_tendermint [q.key, p.key] 1 rfl rfl hq hrange' hfmt'
    simp only [AcceptsMembership, IbcApi.verifyMembership, bind_eq_ok, ensure_eq_ok, exists_const,
      IbcApi.verifyChainedMembershipProof, zipIdx_cons, zipIdx_nil, drop_zero, foldlM_cons,
      foldlM_nil, pure_eq_ok]
    exact ⟨rfl, rfl, root, ⟨q.value, hfirst, root, hsecond, rfl⟩, rfl⟩

theorem subrootOf_translated {port : ProofSpec} {root key proofKey : Bytes}
    (h : Absent hs port same root key left right) :
    IbcApi.subrootOf hs (translatedNonExistence proofKey left right) = .ok root := by
  cases left with
  | some l =>
    have hshown := h.shown l (mem_append_left _ (List.mem_singleton.mpr rfl))
    simp only [IbcApi.subrootOf, translatedNonExistence, Option.map_some, mapError_eq_ok]
    exact hshown.calculateRoot
  | none =>
    cases right with
    | some r =>
      have hshown := h.shown r (mem_append_right _ (List.mem_singleton.mpr rfl))
      simp only [IbcApi.subrootOf, translatedNonExistence, Option.map_some, Option.map_none, mapError_eq_ok]
      exact hshown.calculateRoot
    | none => cases h.neighbors

theorem acceptsNonMembership_iff (proofKey : Bytes) {root key : Bytes} (hsame : Compares same left right)
    (h : Absent hs iavlProofSpec same q.value key left right) (hq : Shown hs root q) :
    AcceptsNonMembership hs root q.key proofKey left right q key ↔
      AllInRange (left.toList ++ right.toList) q ∧ AllFormatted (left.toList ++ right.toList) q := by
  constructor
  · intro hacc
    obtain ⟨_, _, heq, hver, -, hacc'⟩ := verifyNonMembership_eq_ok hacc
    cases heq
    simp only [verifyNonMembership, mapError_eq_ok] at hver
    have hsides := formatted_of_verifyNonExistence trims_iavl hver
    obtain ⟨-, hrange', hfmt'⟩ := (checkAgainstSpec_translated trims_tendermint).mp hacc'.checked
    exact ⟨⟨fun p hp => (hsides p hp).1, hrange'⟩, fun p hp => (hsides p hp).2, hfmt'⟩
  · rintro ⟨⟨hrange, hrange'⟩, hfmt, hfmt'⟩
    have hver := h.verify trims_iavl proofKey hsame fun p hp => ⟨hrange p hp, hfmt p hp⟩
    have hlink := verifyLink_translated trims_tendermint [q.key, key] 1 rfl rfl hq hrange' hfmt'
    simp only [AcceptsNonMembership, IbcApi.verifyNonMembership, bind_eq_ok, ensure_eq_ok, exists_const,
      mapError_eq_ok, verifyNonMembership, IbcApi.verifyChainedMembershipProof, zipIdx_cons, zipIdx_nil,
      drop_succ_cons, drop_zero, foldlM_cons, foldlM_nil, pure_eq_ok]
    exact ⟨by simp, rfl, rfl, _, rfl, q.value, subrootOf_translated h, key, rfl, IAVL_PROOF_SPEC, rfl, (),
      hver,
      root, ⟨root, hlink, rfl⟩, rfl⟩

variable {stores : Stores hs.sha256}

theorem Stores.value_eq (h : Accepted hs TENDERMINT_PROOF_SPEC stores.root q.translated)
    (hname : q.key = stores.name)
    (hfree : NoCollision hs.sha256 (stores.hashed ++ q.hashed hs)) :
      q.value = stores.inner.hash iavl hs.sha256 := by
  have hstored : (q.translated.key, stores.inner.hash iavl hs.sha256) ∈ stores.outer.leaves := by
    show (q.key, _) ∈ _
    rw [hname]
    exact stores.stored
  have hplain : ∀ name ∈ stores.outer.keys, Hides name q.translated.key → name = q.translated.key := by
    show ∀ name ∈ stores.outer.keys, Hides name q.key → name = q.key
    rw [hname]
    exact stores.plain
  apply h.value_eq stores.outer_sorted hstored hplain
  apply hfree.mono
  simp only [Stores.hashed, ExistenceProof.hashed, Ics23.ExistenceProof.hashed, evidence_translated,
    mem_append]
  tauto

theorem membership_sound {p : ExistenceProof} (hp : Shown hs q.value p) (hq : Shown hs stores.root q)
    (hname : q.key = stores.name)
      (hfree : NoCollision hs.sha256 (stores.hashed ++ (p.hashed hs ++ q.hashed hs)))
    (hrange : AllInRange [p] q) (hformat : AllFormatted [p] q) : (p.key, p.value) ∈ stores.inner.leaves := by
  obtain ⟨_, _, heq, -, -, hacc, -, hacc'⟩ :=
    verifyMembership_eq_ok ((acceptsMembership_iff hp hq).mpr ⟨hrange, hformat⟩)
  cases heq
  have hvalue : q.value = stores.inner.hash iavl hs.sha256 := Stores.value_eq hacc' hname (hfree.mono (by
    simp only [mem_append]
    tauto))
  have hacc'' : Accepted hs IAVL_PROOF_SPEC q.value p.translated := hacc
  rw [hvalue] at hacc''
  exact hacc''.mem_leaves (checkAgainstSpec_iavl hacc''.checked) (hfree.mono (by
    simp only [Stores.hashed, ExistenceProof.hashed, Ics23.ExistenceProof.hashed,
      evidence_translated, mem_append]
    tauto))

theorem nonMembership_sound {key : Bytes} (hsame : Compares same left right)
    (h : Absent hs iavlProofSpec same q.value key left right) (hq : Shown hs stores.root q)
    (hname : q.key = stores.name) (hfree : NoCollision hs.sha256
      (stores.hashed ++ ((left.toList ++ right.toList).flatMap (ExistenceProof.hashed hs) ++ q.hashed hs)))
    (hrange : AllInRange (left.toList ++ right.toList) q)
      (hformat : AllFormatted (left.toList ++ right.toList) q) :
    key ∉ stores.inner.keys := by
  obtain ⟨_, _, heq, hver, -, hacc'⟩ :=
    verifyNonMembership_eq_ok ((acceptsNonMembership_iff [] hsame h hq).mpr ⟨hrange, hformat⟩)
  cases heq
  have hvalue : q.value = stores.inner.hash iavl hs.sha256 := Stores.value_eq hacc' hname (hfree.mono (by
    simp only [mem_append]
    tauto))
  have hver' : verifyNonMembership hs IAVL_PROOF_SPEC q.value (translatedNonExistence [] left right)
      key = .ok () :=
    hver
  rw [hvalue] at hver'
  apply (soundFor_iavl stores.inner stores.inner_sorted trivial).2 _ _ (hfree.mono _) hver'
  intro x hx
  cases left <;> cases right <;>
    simp only [Stores.hashed, NonExistenceProof.hashed, translatedNonExistence, sideHashed, Option.map_some,
      Option.map_none, evidence_translated, mem_append, not_mem_nil, or_false, Option.toList,
      flatMap_cons, flatMap_nil, nil_append, cons_append, ExistenceProof.hashed] at hx ⊢ <;> tauto

end BothTrees

end UnionVoyager.Ics23.Port
