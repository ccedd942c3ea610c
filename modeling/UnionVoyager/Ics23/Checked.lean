import UnionVoyager.Ics23.Verify
import UnionVoyager.Ics23.Trees

/-!
# What an accepted proof has passed

* `ExistenceProof.evidence` — the leaf and the steps of a proof; `calculate_eq_ok` — its root.
* `checkAgainstSpec_iavl`, `checkAgainstSpec_tendermint` — **a proof that passes the check fits the
  trees of its spec**.
* `isRightMost_eq_ok`, `isLeftMost_eq_ok`, `isLeftNeighbor_eq_ok` — what the neighbour search tells
  of the steps.
* `verifyNonExistence_eq_ok` — **an accepted proof of absence brackets the key**.
-/

namespace UnionVoyager.Ics23

open Lib

/-! ## The two specs -/

/-- What the two specs share: a binary tree with an order, its leaves under the byte 0, no placeholder. -/
structure Standard (spec : ProofSpec) : Prop where
  leafSpec : spec.leafSpec = ⟨.sha256, .noHash, .sha256, .varProto, [0]⟩
  childOrder : spec.innerSpec.childOrder = [0, 1]
  childSize : 0 < spec.innerSpec.childSize
  minPrefixLength : 0 < spec.innerSpec.minPrefixLength
  emptyChild : spec.innerSpec.emptyChild = []
  hash : spec.innerSpec.hash = .sha256
  prehash : spec.prehashKeyBeforeComparison = false

theorem standard_iavl : Standard IAVL_PROOF_SPEC := ⟨rfl, rfl, by decide, by decide, rfl, rfl, rfl⟩

theorem standard_tendermint : Standard TENDERMINT_PROOF_SPEC :=
    ⟨rfl, rfl, by decide, by decide, rfl, rfl, rfl⟩

/-! ## Evidence -/

def InnerOp.step (op : InnerOp) : Step := ⟨op.innerPrefix, op.suffix⟩

def ExistenceProof.evidence (proof : ExistenceProof) : Evidence :=
  ⟨proof.leaf.leafPrefix, proof.key, proof.value, proof.path.map InnerOp.step⟩

variable {out b : Bytes} {op : InnerOp} {proof : ExistenceProof}

section Roots

variable {hs : Hashes} {spec : ProofSpec}

theorem leaf_apply_eq_ok {leafOp : LeafOp} {key value : Bytes}
    (hleaf : leafOp = ⟨.sha256, .noHash, .sha256, .varProto, leafOp.leafPrefix⟩) :
    leafOp.apply hs key value = .ok out ↔ key ≠ [] ∧ value ≠ [] ∧
      out = hs.sha256 (leafOp.leafPrefix ++ lenPrefixed key ++ lenPrefixed (hs.sha256 value)) := by
  rw [hleaf]
  simp only [LeafOp.apply, LeafOp.prepareData, LeafOp.prehash, LengthOp.apply, doHash, bind_eq_ok,
    ensure_eq_ok,
    exists_const, mapError_eq_ok, Except.ok.injEq, if_true, if_neg (show HashOp.sha256 ≠ .noHash by decide),
    exists_eq_left', lenPrefixed]
  constructor
  · rintro ⟨hkey, hvalue, rfl⟩
    exact ⟨hkey, hvalue, rfl⟩
  · rintro ⟨hkey, hvalue, rfl⟩
    exact ⟨hkey, hvalue, rfl⟩

theorem inner_apply_eq_ok {child : Bytes} (hop : op.hash = .sha256)
    (h : op.apply hs child = .ok out) : out = hs.sha256 (op.step.input child) := by
  simp only [InnerOp.apply, bind_eq_ok, ensure_eq_ok, exists_const, mapError_eq_ok, hop, doHash,
    Except.ok.injEq] at h
  exact h.2.symm

theorem applyStep_eq_ok {spec : Option ProofSpec} {child : Bytes} (hop : op.hash = .sha256)
    (h : ExistenceProof.applyStep hs spec child op = .ok out) : out = hs.sha256 (op.step.input child) := by
  simp only [ExistenceProof.applyStep, bind_eq_ok, mapError_eq_ok, pure_eq_ok] at h
  obtain ⟨_, happly, _, _, rfl⟩ := h
  exact inner_apply_eq_ok hop happly

theorem calculate_eq_ok {spec : Option ProofSpec}
    (hleaf : proof.leaf = ⟨.sha256, .noHash, .sha256, .varProto, proof.leaf.leafPrefix⟩)
    (hpath : ∀ op ∈ proof.path, op.hash = .sha256) (h : proof.calculate hs spec = .ok out) :
    proof.key ≠ [] ∧ out = proof.evidence.root hs.sha256 := by
  simp only [ExistenceProof.calculate, bind_eq_ok, mapError_eq_ok] at h
  obtain ⟨leafHash, happly, hfold⟩ := h
  obtain ⟨hkey, _, rfl⟩ := (leaf_apply_eq_ok hleaf).mp happly
  exact ⟨hkey, walk_of_foldlM (fun op hop _ _ happly => applyStep_eq_ok (hpath op hop) happly) hfold⟩

end Roots

/-! ## The check against a spec -/

theorem validateIavlOps_eq_ok {pre : Bytes} {minHeight remaining : Nat}
    (h : validateIavlOps pre minHeight = .ok remaining) : ∃ r, skipVarints pre = some r ∧
      r.length = remaining := by
  simp only [validateIavlOps, readVarint, bind_eq_ok, orErr_eq_ok, ensure_eq_ok, pure_eq_ok,
    Prod.exists, Prod.mk.injEq, exists_const] at h
  obtain ⟨_, _, ⟨n₁, r₁, h₁, rfl, _⟩, _, _, _, _, ⟨n₂, r₂, h₂, rfl, _⟩, _, _, _,
    ⟨n₃, r₃, h₃, rfl, _⟩, _, hlen⟩ := h
  refine ⟨r₃, ?_, hlen⟩
  simp [skipVarints, h₁, h₂, h₃]

theorem leafByte_of_isPrefix (h : [0] <+: b) : LeafByte b := by
  obtain ⟨t, rfl⟩ := h
  rfl

theorem isPrefix_of_leafByte (h : LeafByte b) : [0] <+: b := by
  obtain ⟨t, rfl⟩ : ∃ t, b = 0 :: t := List.head?_eq_some_iff.mp h
  exact ⟨t, rfl⟩

variable {path : List InnerOp}

section Check

variable {spec : ProofSpec}

theorem leaf_checkAgainstSpec_eq_ok (hspec : Standard spec) {leafOp : LeafOp}
    (h : leafOp.checkAgainstSpec spec = .ok ()) :
    leafOp = ⟨.sha256, .noHash, .sha256, .varProto, leafOp.leafPrefix⟩ ∧ LeafByte leafOp.leafPrefix ∧
      (compatible spec IAVL_PROOF_SPEC = true → skipVarints leafOp.leafPrefix = some []) := by
  simp only [LeafOp.checkAgainstSpec, LeafOp.checkIavlPrefix, bind_eq_ok, onlyIf_eq_ok,
    ensure_eq_ok, exists_const, mapError_eq_ok, hspec.leafSpec] at h
  obtain ⟨hiavl, hhash, hkey, hvalue, hlength, hpre⟩ := h
  refine ⟨?_, leafByte_of_isPrefix hpre, ?_⟩
  · cases leafOp
    cases hhash
    cases hkey
    cases hvalue
    cases hlength
    rfl
  · intro hc
    obtain ⟨remaining, hvalid, hzero⟩ := hiavl hc
    obtain ⟨r, hr, hlen⟩ := validateIavlOps_eq_ok hvalid
    rwa [List.length_eq_zero_iff.mp (hlen.trans hzero)] at hr

/-- What an inner operation has passed. -/
structure Checked (spec : ProofSpec) (op : InnerOp) : Prop where
  hash : op.hash = .sha256
  head : NotLeafByte op.innerPrefix
  varints : compatible spec IAVL_PROOF_SPEC = true →
    ∃ r, skipVarints op.innerPrefix = some r ∧ (r.length = 1 ∨ r.length = 34)
  length : op.innerPrefix.length ≤ spec.innerSpec.maxPrefixLength + spec.innerSpec.childSize
  suffix : spec.innerSpec.childSize ∣ op.suffix.length

theorem inner_checkAgainstSpec_eq_ok (hspec : Standard spec) {b : Nat}
    (h : op.checkAgainstSpec spec b = .ok ()) : Checked spec op := by
  simp only [InnerOp.checkAgainstSpec, InnerOp.checkIavlPrefix, bind_eq_ok, onlyIf_eq_ok,
    ensure_eq_ok, exists_const, mapError_eq_ok, hspec.leafSpec, hspec.hash, hspec.childOrder] at h
  obtain ⟨hhash, hiavl, hpre, hmin, hmax, hsuffix⟩ := h
  have hpos := hspec.minPrefixLength
  refine ⟨hhash, ⟨?_, ?_⟩, ?_, by simpa using hmax, hsuffix⟩
  · intro hnil
    rw [hnil, List.length_nil] at hmin
    omega
  · intro hhead
    exact hpre (isPrefix_of_leafByte hhead)
  · intro hc
    obtain ⟨remaining, hvalid, hremaining, -⟩ := hiavl hc
    obtain ⟨r, hr, rfl⟩ := validateIavlOps_eq_ok hvalid
    exact ⟨r, hr, hremaining⟩

theorem checkPath_eq_ok (hspec : Standard spec) {index : Nat}
    (h : ExistenceProof.checkPath spec index path = .ok ()) : ∀ op ∈ path, Checked spec op := by
  induction path generalizing index with
  | nil => simp
  | cons op path ih =>
    simp only [ExistenceProof.checkPath, bind_eq_ok, mapError_eq_ok] at h
    obtain ⟨_, hop, hpath⟩ := h
    intro op' hop'
    rcases List.mem_cons.mp hop' with rfl | hop'
    · exact inner_checkAgainstSpec_eq_ok hspec hop
    · exact ih hpath op' hop'

theorem checkAgainstSpec_eq_ok (hspec : Standard spec) (h : proof.checkAgainstSpec spec = .ok ()) :
    proof.leaf.checkAgainstSpec spec = .ok () ∧ ∀ op ∈ proof.path, Checked spec op := by
  simp only [ExistenceProof.checkAgainstSpec, bind_eq_ok, mapError_eq_ok] at h
  obtain ⟨_, hleaf, _, _, _, _, hpath⟩ := h
  exact ⟨hleaf, checkPath_eq_ok hspec hpath⟩

end Check

variable {hs : Hashes}

theorem checkAgainstSpec_iavl {keys : List Bytes} (h : proof.checkAgainstSpec IAVL_PROOF_SPEC = .ok ()) :
    proof.evidence.Fits iavl hs.sha256 32 keys := by
  obtain ⟨hleaf, hpath⟩ := checkAgainstSpec_eq_ok standard_iavl h
  obtain ⟨-, hbyte, hvarints⟩ := leaf_checkAgainstSpec_eq_ok standard_iavl hleaf
  apply fits_iavl hbyte (hvarints rfl)
  intro s hs
  obtain ⟨op, hop, rfl⟩ := List.mem_map.mp hs
  exact ⟨(hpath op hop).head, (hpath op hop).varints rfl, (hpath op hop).suffix⟩

theorem checkAgainstSpec_tendermint {keys : List Bytes}
    (hplain : ∀ key ∈ keys, Hides key proof.key → key = proof.key)
    (h : proof.checkAgainstSpec TENDERMINT_PROOF_SPEC = .ok ()) :
    proof.evidence.Fits tendermint hs.sha256 32 keys := by
  obtain ⟨hleaf, hpath⟩ := checkAgainstSpec_eq_ok standard_tendermint h
  obtain ⟨-, hbyte, -⟩ := leaf_checkAgainstSpec_eq_ok standard_tendermint hleaf
  apply fits_tendermint hs.sha256_length hbyte hplain
  intro s hs
  obtain ⟨op, hop, rfl⟩ := List.mem_map.mp hs
  exact ⟨(hpath op hop).head, (hpath op hop).length, (hpath op hop).suffix⟩

/-! ## Existence -/

structure Accepted (hs : Hashes) (spec : ProofSpec) (root : Bytes) (proof : ExistenceProof) : Prop where
  checked : proof.checkAgainstSpec spec = .ok ()
  key_ne_nil : proof.key ≠ []
  root_eq : proof.evidence.root hs.sha256 = root

theorem verifyExistenceProof_eq_ok {spec : ProofSpec} (hspec : Standard spec)
    {root key value : Bytes} (h : verifyExistenceProof hs proof spec root key value = .ok ()) :
    key = proof.key ∧ value = proof.value ∧ Accepted hs spec root proof := by
  simp only [verifyExistenceProof, bind_eq_ok, mapError_eq_ok, ensure_eq_ok, exists_const] at h
  obtain ⟨_, hcheck, hkey, hvalue, calculated, hcalculate, rfl⟩ := h
  obtain ⟨hleaf, hpath⟩ := checkAgainstSpec_eq_ok hspec hcheck
  obtain ⟨hne, hroot⟩ :=
    calculate_eq_ok (leaf_checkAgainstSpec_eq_ok hspec hleaf).1 (fun op hop => (hpath op hop).hash) hcalculate
  exact ⟨hkey, hvalue, hcheck, hne, hroot.symm⟩

/-! ## The neighbour search -/

theorem allM_eq_ok {ε α : Type} {p : α → Except ε Bool} {l : List α} (h : l.allM p = .ok true) :
    ∀ a ∈ l, p a = .ok true := by
  induction l with
  | nil => simp
  | cons a l ih =>
    rw [List.allM, bind_eq_ok] at h
    obtain ⟨b, hb, hrest⟩ := h
    cases b with
    | false => simp at hrest
    | true =>
      intro x hx
      rcases List.mem_cons.mp hx with rfl | hx
      · exact hb
      · exact ih hrest x hx

theorem slice_length {start len : Nat} (h : slice b start len = some out) : out.length = len := by
  unfold slice at h
  split at h
  · cases h
    rw [List.length_take, List.length_drop]
    omega
  · cases h

section Neighbors

variable {spec : ProofSpec} (hspec : Standard spec)

include hspec in
theorem slice_ne_emptyChild {start : Nat} :
    slice b start spec.innerSpec.childSize ≠ some spec.innerSpec.emptyChild := by
  intro h
  have hlen := slice_length h
  rw [hspec.emptyChild, List.length_nil] at hlen
  have := hspec.childSize
  omega

include hspec in
theorem rightBranchesAreEmpty_ne_true : rightBranchesAreEmpty spec.innerSpec op ≠ .ok true := by
  intro h
  simp only [rightBranchesAreEmpty, bind_eq_ok] at h
  obtain ⟨idx, -, h⟩ := h
  split at h
  case isTrue => cases h
  case isFalse hn =>
    have hzero : 0 ∈ List.range (spec.innerSpec.childOrder.length - 1 - idx) := List.mem_range.mpr (by omega)
    have hbranch := allM_eq_ok h 0 hzero
    simp only [rightBranchIsEmpty, bind_eq_ok, pure_eq_ok, decide_eq_true_eq] at hbranch
    obtain ⟨_, -, hslice⟩ := hbranch
    exact slice_ne_emptyChild hspec hslice

include hspec in
theorem leftBranchesAreEmpty_ne_true : leftBranchesAreEmpty spec.innerSpec op ≠ .ok true := by
  intro h
  simp only [leftBranchesAreEmpty, bind_eq_ok] at h
  obtain ⟨leftBranches, -, h⟩ := h
  split at h
  case isTrue => cases h
  case isFalse hn =>
    have hzero : 0 ∈ List.range leftBranches := List.mem_range.mpr (by omega)
    have hbranch := allM_eq_ok h 0 hzero
    simp only [leftBranchIsEmpty, bind_eq_ok, pure_eq_ok, decide_eq_true_eq] at hbranch
    obtain ⟨_, -, hslice⟩ := hbranch
    exact slice_ne_emptyChild hspec hslice

include hspec in
theorem getPadding_left : getPadding spec.innerSpec 0 =
    .ok ⟨spec.innerSpec.minPrefixLength, spec.innerSpec.maxPrefixLength, spec.innerSpec.childSize⟩ := by
  simp [getPadding, getPosition, hspec.childOrder, ensure, orErr, List.findIdx?_cons, pure, Except.pure]

include hspec in
theorem getPadding_right : getPadding spec.innerSpec 1 =
      .ok ⟨spec.innerSpec.childSize + spec.innerSpec.minPrefixLength,
      spec.innerSpec.childSize + spec.innerSpec.maxPrefixLength, 0⟩ := by
  simp [getPadding, getPosition, hspec.childOrder, ensure, orErr, List.findIdx?_cons, pure, Except.pure]

theorem hasPadding_suffix {padding : Padding} (h : hasPadding op padding = true) :
    op.suffix.length = padding.suffix := by
  simp only [hasPadding, decide_eq_true_eq] at h
  exact h.2.2

include hspec in
theorem isRightMost_eq_ok (h : isRightMost spec.innerSpec path = .ok true) : ∀ op ∈ path, op.suffix = [] := by
  have hlast : spec.innerSpec.childOrder.length - 1 = 1 := by rw [hspec.childOrder]; rfl
  simp only [isRightMost, hlast, getPadding_right hspec, ok_bind] at h
  intro op hop
  have hstep := allM_eq_ok h op hop
  unfold stepIsRight at hstep
  split at hstep
  case isTrue hpadding => exact List.length_eq_zero_iff.mp (hasPadding_suffix hpadding)
  case isFalse => exact absurd hstep (rightBranchesAreEmpty_ne_true hspec)

include hspec in
theorem isLeftMost_eq_ok (h : isLeftMost spec.innerSpec path = .ok true) : ∀ op ∈ path, op.suffix ≠ [] := by
  simp only [isLeftMost, getPadding_left hspec, ok_bind] at h
  intro op hop
  have hstep := allM_eq_ok h op hop
  unfold stepIsLeft at hstep
  split at hstep
  case isTrue hpadding =>
    apply List.ne_nil_of_length_pos
    rw [hasPadding_suffix hpadding]
    exact hspec.childSize
  case isFalse => exact absurd hstep (leftBranchesAreEmpty_ne_true hspec)

include hspec in
theorem orderFromPadding_eq_ok {branch : Nat} (h : orderFromPadding spec.innerSpec op = .ok branch) :
    (branch = 0 ∧ op.suffix ≠ []) ∨ (branch = 1 ∧ op.suffix = []) := by
  have hrange : List.range spec.innerSpec.childOrder.length = [0, 1] := by rw [hspec.childOrder]; rfl
  simp only [orderFromPadding, hrange, orderAmong, getPadding_left hspec, getPadding_right hspec,
    ok_bind] at h
  split at h
  case isTrue hpadding =>
    cases h
    left
    refine ⟨rfl, List.ne_nil_of_length_pos ?_⟩
    rw [hasPadding_suffix hpadding]
    exact hspec.childSize
  case isFalse =>
    split at h
    case isTrue hpadding =>
      cases h
      exact .inr ⟨rfl, List.length_eq_zero_iff.mp (hasPadding_suffix hpadding)⟩
    case isFalse => cases h

theorem dropCommon_eq_ok {left right : List InnerOp} {parting : Parting}
    (h : dropCommon left right = .ok parting) :
    ∃ common, left.map InnerOp.step = common ++ parting.topLeft.step :: parting.left.map InnerOp.step ∧
      right.map InnerOp.step = common ++ parting.topRight.step :: parting.right.map InnerOp.step := by
  fun_induction dropCommon left right with
  | case1 topLeft left topRight right hsame ih =>
    obtain ⟨common, hleft, hright⟩ := ih h
    refine ⟨topLeft.step :: common, by rw [List.map_cons, hleft, List.cons_append], ?_⟩
    have hstep : topRight.step = topLeft.step := by
      unfold InnerOp.step
      rw [hsame.1, hsame.2]
    rw [List.map_cons, hright, hstep, List.cons_append]
  | case2 topLeft left topRight right hdiffer =>
    cases h
    exact ⟨[], rfl, rfl⟩
  | case3 => cases h

theorem andThen_eq_true {ε : Type} {a b : Except ε Bool} (h : andThen a b = .ok true) :
    a = .ok true ∧ b = .ok true := by
  unfold andThen at h
  match a, h with
  | .ok true, h => exact ⟨rfl, h⟩

include hspec in
theorem isLeftNeighbor_eq_ok {left right : List InnerOp}
    (h : isLeftNeighbor spec.innerSpec left right = .ok true) :
    ∃ common s s' ls rs, (left.map InnerOp.step).reverse = common ++ s :: ls ∧
      (right.map InnerOp.step).reverse = common ++ s' :: rs ∧ s.after ≠ [] ∧ s'.after = [] ∧
      (∀ s ∈ ls, s.after = []) ∧ ∀ s ∈ rs, s.after ≠ [] := by
  simp only [isLeftNeighbor, bind_eq_ok] at h
  obtain ⟨parting, hparting, h⟩ := h
  obtain ⟨hstep, h⟩ := andThen_eq_true h
  obtain ⟨hright, hleft⟩ := andThen_eq_true h
  obtain ⟨common, hcommon, hcommon'⟩ := dropCommon_eq_ok hparting
  rw [List.map_reverse] at hcommon hcommon'
  have hsides : parting.topLeft.suffix ≠ [] ∧ parting.topRight.suffix = [] := by
    simp only [isLeftStep, bind_eq_ok, pure_eq_ok, decide_eq_true_eq] at hstep
    obtain ⟨i, hi, j, hj, hij⟩ := hstep
    rcases orderFromPadding_eq_ok hspec hi with ⟨rfl, hl⟩ | ⟨rfl, _⟩ <;>
      rcases orderFromPadding_eq_ok hspec hj with ⟨rfl, _⟩ | ⟨rfl, hr⟩
    · omega
    · exact ⟨hl, hr⟩
    · omega
    · omega
  refine ⟨common, _, _, _, _, hcommon, hcommon', hsides.1, hsides.2, ?_, ?_⟩
  · intro s hs
    obtain ⟨op, hop, rfl⟩ := List.mem_map.mp hs
    exact isRightMost_eq_ok hspec hright op (List.mem_reverse.mpr hop)
  · intro s hs
    obtain ⟨op, hop, rfl⟩ := List.mem_map.mp hs
    exact isLeftMost_eq_ok hspec hleft op (List.mem_reverse.mpr hop)

end Neighbors

/-! ## Absence -/

section Absence

variable {spec : ProofSpec} (hspec : Standard spec) {root key : Bytes}

include hspec in
theorem verifySide_eq_ok {side : Option ExistenceProof} {sideKey : Bytes}
    (h : verifySide hs spec root side = .ok sideKey) :
    (side = none ∧ sideKey = []) ∨ ∃ proof, side = some proof ∧ sideKey = proof.key ∧
      Accepted hs spec root proof := by
  cases side with
  | none =>
    cases h
    exact .inl ⟨rfl, rfl⟩
  | some proof =>
    simp only [verifySide, bind_eq_ok, pure_eq_ok] at h
    obtain ⟨_, hver, rfl⟩ := h
    exact .inr ⟨proof, rfl, rfl, (verifyExistenceProof_eq_ok hspec hver).2.2⟩

include hspec in
theorem checkLess_eq_ok {e : VerifyError} {lower upper : Bytes}
    (h : checkLess hs spec e lower upper = .ok ()) : lower < upper := by
  simpa [checkLess, keyForComparison, hspec.prehash, mapError_eq_ok, Except.mapError] using h

include hspec in
theorem verifyNonExistence_eq_ok {proof : NonExistenceProof}
    (h : verifyNonExistence hs proof spec root key = .ok ()) :
    Brackets (· < ·) key (proof.left.map ExistenceProof.evidence) (proof.right.map ExistenceProof.evidence) ∧
      ∀ side, proof.left = some side ∨ proof.right = some side → Accepted hs spec root side := by
  obtain ⟨proofKey, left, right⟩ := proof
  simp only [verifyNonExistence, bind_eq_ok, ensure_eq_ok, exists_const, onlyIf_eq_ok, decide_eq_true_eq] at h
  obtain ⟨leftKey, hleft, rightKey, hright, -, hupper, hlower, hneighbors⟩ := h
  obtain ⟨rfl, rfl⟩ | ⟨l, rfl, rfl, hl⟩ := verifySide_eq_ok hspec hleft
  · obtain ⟨rfl, rfl⟩ | ⟨r, rfl, rfl, hr⟩ := verifySide_eq_ok hspec hright
    · cases hneighbors
    · simp only [checkNeighbors, bind_eq_ok, mapError_eq_ok, ensure_eq_ok] at hneighbors
      obtain ⟨_, hmost, rfl⟩ := hneighbors
      refine ⟨.first _ (checkLess_eq_ok hspec (hupper hr.key_ne_nil)) ?_,
        by rintro side (h | h) <;> cases h; exact hr⟩
      intro s hs
      obtain ⟨op, hop, rfl⟩ := List.mem_map.mp hs
      exact isLeftMost_eq_ok hspec hmost op hop
  · obtain ⟨rfl, rfl⟩ | ⟨r, rfl, rfl, hr⟩ := verifySide_eq_ok hspec hright
    · simp only [checkNeighbors, bind_eq_ok, mapError_eq_ok, ensure_eq_ok] at hneighbors
      obtain ⟨_, hmost, rfl⟩ := hneighbors
      refine ⟨.last _ (checkLess_eq_ok hspec (hlower hl.key_ne_nil)) ?_,
        by rintro side (h | h) <;> cases h; exact hl⟩
      intro s hs
      obtain ⟨op, hop, rfl⟩ := List.mem_map.mp hs
      exact isRightMost_eq_ok hspec hmost op hop
    · simp only [checkNeighbors, bind_eq_ok, mapError_eq_ok, ensure_eq_ok] at hneighbors
      obtain ⟨_, hneighbor, rfl⟩ := hneighbors
      obtain ⟨common, s, s', ls, rs, hcommon, hcommon', hs, hs', hls, hrs⟩ :=
        isLeftNeighbor_eq_ok hspec hneighbor
      refine ⟨.between _ _ (checkLess_eq_ok hspec (hlower hl.key_ne_nil))
        (checkLess_eq_ok hspec (hupper hr.key_ne_nil)) common s s' ls rs hcommon hcommon' hs hs' hls hrs, ?_⟩
      rintro side (h | h) <;> cases h
      · exact hl
      · exact hr

end Absence

end UnionVoyager.Ics23
