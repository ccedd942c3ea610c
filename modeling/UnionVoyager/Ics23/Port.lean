import UnionVoyager.Ics23.Sound

/-!
# What the two ports of the verifier share

The Solidity and the Move verifier decode the same proofs, have the same two specs, trimmed to three
lengths, and look for neighbours by counting indices down.

* `ExistenceProof`, `InnerOp`, `ProofSpec`; `getPadding`, `hasPadding`, `allPadded`.
-/

namespace UnionVoyager.Ics23.Port

open Lib

structure InnerOp where
  innerPrefix : Bytes
  suffix : Bytes
  deriving DecidableEq

structure ExistenceProof where
  key : Bytes
  value : Bytes
  leafPrefix : Bytes
  path : List InnerOp

/-- What the ports keep of a spec. -/
structure ProofSpec where
  childSize : Nat
  minPrefixLength : Nat
  maxPrefixLength : Nat

def iavlProofSpec : ProofSpec := ⟨33, 4, 12⟩

def tendermintProofSpec : ProofSpec := ⟨32, 1, 1⟩

/-! ## Padding -/

def getPadding (spec : ProofSpec) (branch : Nat) : Padding :=
  let pre := branch * spec.childSize
  { minPrefix := pre + spec.minPrefixLength
    maxPrefix := pre + spec.maxPrefixLength
    suffix := (1 - branch) * spec.childSize }

def hasPadding (op : InnerOp) (padding : Padding) : Bool :=
  if op.innerPrefix.length < padding.minPrefix ∨ padding.maxPrefix < op.innerPrefix.length then false
  else op.suffix.length = padding.suffix

/-- The first steps of a path have a padding. -/
def allPadded (path : List InnerOp) (length : Nat) (padding : Padding) : Bool :=
  (path.take length).all (hasPadding · padding)

def isLeftMost (spec : ProofSpec) (path : List InnerOp) (length : Nat) : Bool :=
    allPadded path length (getPadding spec 0)

def isRightMost (spec : ProofSpec) (path : List InnerOp) (length : Nat) : Bool :=
  allPadded path length (getPadding spec 1)

/-- The first branch whose padding the operation has. -/
def orderFromPadding (spec : ProofSpec) (op : InnerOp) : Option Nat :=
  [0, 1].find? fun branch => hasPadding op (getPadding spec branch)

/-! ## Order -/

/-- Byte by byte, then by length. -/
def compareBytes : Bytes → Bytes → Ordering
  | a :: as, b :: bs => if a < b then .lt else if b < a then .gt else compareBytes as bs
  | _ :: _, [] => .gt
  | [], _ :: _ => .lt
  | [], [] => .eq

theorem compareBytes_lt {a b : Bytes} : compareBytes a b = .lt ↔ a < b := by
  fun_induction compareBytes a b with
  | case1 a as b bs hlt => simp [List.cons_lt_cons_iff, hlt]
  | case2 a as b bs hlt hgt =>
    have hne : a ≠ b := fun h => UInt8.lt_irrefl _ (h ▸ hgt)
    simp [List.cons_lt_cons_iff, hlt, hne]
  | case3 a as b bs hlt hgt ih =>
    have heq : a = b := UInt8.le_antisymm (UInt8.not_lt.mp hgt) (UInt8.not_lt.mp hlt)
    simp [heq, ih]
  | case4 | case5 | case6 => simp

theorem compareBytes_gt {a b : Bytes} : compareBytes a b = .gt ↔ b < a := by
  fun_induction compareBytes a b with
  | case1 a as b bs hlt =>
    have hne : b ≠ a := fun h => UInt8.lt_irrefl _ (h ▸ hlt)
    simp [List.cons_lt_cons_iff, UInt8.lt_asymm hlt, hne]
  | case2 a as b bs hlt hgt => simp [List.cons_lt_cons_iff, hgt]
  | case3 a as b bs hlt hgt ih =>
    have heq : a = b := UInt8.le_antisymm (UInt8.not_lt.mp hgt) (UInt8.not_lt.mp hlt)
    simp [heq, ih]
  | case4 | case5 | case6 => simp

/-! ## Counting down -/

/-- Whether the steps at two indices are the same. -/
def sameAt (same : InnerOp → InnerOp → Bool) (left right : List InnerOp) (leftIdx rightIdx : Nat) : Bool :=
  match left[leftIdx]?, right[rightIdx]? with
  | some l, some r => same l r
  | _, _ => false

/-- Count both indices down as long as the steps there are the same; below zero it ends. -/
def parting (same : InnerOp → InnerOp → Bool) (left right : List InnerOp) : Nat → Nat → Option (Nat × Nat)
  | leftIdx + 1, rightIdx + 1 =>
    if sameAt same left right (leftIdx + 1) (rightIdx + 1) then parting same left right leftIdx rightIdx
    else some (leftIdx + 1, rightIdx + 1)
  | leftIdx, rightIdx => if sameAt same left right leftIdx rightIdx then none else some (leftIdx, rightIdx)

/-! ## Translation -/

def InnerOp.translated (op : InnerOp) : Ics23.InnerOp := ⟨.sha256, op.innerPrefix, op.suffix⟩

/-- The proof with the operations that the ports have built in. -/
def ExistenceProof.translated (proof : ExistenceProof) : Ics23.ExistenceProof where
  key := proof.key
  value := proof.value
  leaf := ⟨.sha256, .noHash, .sha256, .varProto, proof.leafPrefix⟩
  path := proof.path.map InnerOp.translated

def InnerOp.step (op : InnerOp) : Step := ⟨op.innerPrefix, op.suffix⟩

def ExistenceProof.evidence (proof : ExistenceProof) : Evidence :=
  ⟨proof.leafPrefix, proof.key, proof.value, proof.path.map InnerOp.step⟩

@[simp] theorem evidence_translated (proof : ExistenceProof) :
    proof.translated.evidence = proof.evidence := by
  simp [ExistenceProof.translated, ExistenceProof.evidence, Ics23.ExistenceProof.evidence, InnerOp.translated,
    InnerOp.step, Ics23.InnerOp.step, Function.comp_def]

structure Trims (spec : Ics23.ProofSpec) (port : ProofSpec) : Prop where
  standard : Standard spec
  childSize : spec.innerSpec.childSize = port.childSize
  minPrefixLength : spec.innerSpec.minPrefixLength = port.minPrefixLength
  maxPrefixLength : spec.innerSpec.maxPrefixLength = port.maxPrefixLength
  childSize_ge : 32 ≤ port.childSize
  maxDepth : spec.maxDepth = none
  minDepth : spec.minDepth = none

theorem trims_iavl : Trims IAVL_PROOF_SPEC iavlProofSpec :=
    ⟨standard_iavl, rfl, rfl, rfl, by decide, rfl, rfl⟩

theorem trims_tendermint : Trims TENDERMINT_PROOF_SPEC tendermintProofSpec :=
  ⟨standard_tendermint, rfl, rfl, rfl, by decide, rfl, rfl⟩

/-! ## The check against a spec -/

/-- The bounds of a prefix, and that it is not that of a leaf. -/
structure InRange (spec : ProofSpec) (op : InnerOp) : Prop where
  min : spec.minPrefixLength ≤ op.innerPrefix.length
  head : op.innerPrefix.head? ≠ some 0
  max : op.innerPrefix.length ≤ spec.maxPrefixLength + spec.childSize

instance (spec : ProofSpec) (op : InnerOp) : Decidable (InRange spec op) :=
  decidable_of_iff (spec.minPrefixLength ≤ op.innerPrefix.length ∧ op.innerPrefix.head? ≠ some 0 ∧
    op.innerPrefix.length ≤ spec.maxPrefixLength + spec.childSize)
      ⟨fun h => ⟨h.1, h.2.1, h.2.2⟩, fun h => ⟨h.1, h.2, h.3⟩⟩

/-- What `lib/ics23` checks of an inner operation beyond that. -/
def OpFormatted (spec : Ics23.ProofSpec) (op : InnerOp) (index : Nat) : Prop :=
  (compatible spec IAVL_PROOF_SPEC = true →
    validateIavlOps op.innerPrefix index = .ok 1 ∨ validateIavlOps op.innerPrefix index = .ok 34) ∧
  spec.innerSpec.childSize ∣ op.suffix.length

instance (spec : Ics23.ProofSpec) (op : InnerOp) (index : Nat) : Decidable (OpFormatted spec op index) :=
  inferInstanceAs (Decidable (_ ∧ _))

/-- What `lib/ics23` checks of a proof beyond the first byte of the leaf and the range of the
    operations: the varints of the IAVL prefixes and the lengths of the suffixes. -/
def Formatted (spec : Ics23.ProofSpec) (proof : ExistenceProof) : Prop :=
  (compatible spec IAVL_PROOF_SPEC = true → validateIavlOps proof.leafPrefix 0 = .ok 0) ∧
  ∀ x ∈ proof.path.zipIdx, OpFormatted spec x.1 x.2

instance (spec : Ics23.ProofSpec) (proof : ExistenceProof) : Decidable (Formatted spec proof) :=
  inferInstanceAs (Decidable (_ ∧ _))

section Check

variable {spec : Ics23.ProofSpec} {port : ProofSpec} (htrims : Trims spec port)

include htrims in
theorem inner_checkAgainstSpec_translated (op : InnerOp) (index : Nat) :
    op.translated.checkAgainstSpec spec index = .ok () ↔ InRange port op ∧ OpFormatted spec op index := by
  have hchildren : (spec.innerSpec.childOrder.length - 1) * spec.innerSpec.childSize = port.childSize := by
    rw [htrims.standard.childOrder, htrims.childSize]
    exact Nat.one_mul _
  simp only [Ics23.InnerOp.checkAgainstSpec, Ics23.InnerOp.checkIavlPrefix, InnerOp.translated,
    bind_eq_ok, onlyIf_eq_ok,
    ensure_eq_ok, exists_const, mapError_eq_ok, htrims.standard.leafSpec, htrims.standard.hash, hchildren,
    htrims.minPrefixLength, htrims.maxPrefixLength, true_and, and_true, OpFormatted]
  constructor
  · rintro ⟨hiavl, hpre, hmin, hmax, hsuffix⟩
    refine ⟨⟨hmin, fun hhead => hpre (isPrefix_of_leafByte hhead), hmax⟩, ?_, ensure_eq_ok.mp hsuffix⟩
    intro hc
    obtain ⟨remaining, hvalid, rfl | rfl⟩ := hiavl hc
    · exact .inl hvalid
    · exact .inr hvalid
  · rintro ⟨hrange, hvarints, hsuffix⟩
    refine ⟨?_, fun hpre => hrange.head (leafByte_of_isPrefix hpre), hrange.min, hrange.max,
      ensure_eq_ok.mpr hsuffix⟩
    intro hc
    rcases hvarints hc with hvalid | hvalid
    · exact ⟨1, hvalid, .inl rfl⟩
    · exact ⟨34, hvalid, .inr rfl⟩

include htrims in
theorem checkPath_translated (path : List InnerOp) (index : Nat) :
    Ics23.ExistenceProof.checkPath spec index (path.map InnerOp.translated) = .ok () ↔
      (∀ op ∈ path, InRange port op) ∧ ∀ x ∈ path.zipIdx index, OpFormatted spec x.1 x.2 := by
  induction path generalizing index with
  | nil => simp [Ics23.ExistenceProof.checkPath]
  | cons op path ih =>
    have hop := inner_checkAgainstSpec_translated htrims op index
    simp only [List.map_cons, Ics23.ExistenceProof.checkPath, bind_eq_ok, mapError_eq_ok, List.zipIdx_cons,
      List.forall_mem_cons, ih]
    constructor
    · rintro ⟨_, hhere, hrange, hfmt⟩
      obtain ⟨hrange₀, hfmt₀⟩ := hop.mp hhere
      exact ⟨⟨hrange₀, hrange⟩, hfmt₀, hfmt⟩
    · rintro ⟨⟨hrange₀, hrange⟩, hfmt₀, hfmt⟩
      exact ⟨(), hop.mpr ⟨hrange₀, hfmt₀⟩, hrange, hfmt⟩

include htrims in
theorem checkAgainstSpec_translated {proof : ExistenceProof} :
      proof.translated.checkAgainstSpec spec = .ok () ↔
      LeafByte proof.leafPrefix ∧ (∀ op ∈ proof.path, InRange port op) ∧ Formatted spec proof := by
  have hpath := checkPath_translated htrims proof.path 0
  simp only [Ics23.ExistenceProof.checkAgainstSpec, ExistenceProof.translated, LeafOp.checkAgainstSpec,
    LeafOp.checkIavlPrefix, htrims.maxDepth, htrims.minDepth, Ics23.ExistenceProof.checkMinDepth,
    Ics23.ExistenceProof.checkMaxDepth, bind_eq_ok, mapError_eq_ok, onlyIf_eq_ok, ensure_eq_ok, exists_const,
    htrims.standard.leafSpec, true_and, Formatted]
  constructor
  · rintro ⟨⟨hvarints, hpre⟩, hrest⟩
    obtain ⟨hrange, hfmt⟩ := hpath.mp hrest
    refine ⟨leafByte_of_isPrefix hpre, hrange, ?_, hfmt⟩
    intro hc
    obtain ⟨remaining, hvalid, rfl⟩ := hvarints hc
    exact hvalid
  · rintro ⟨hbyte, hrange, hvarints, hfmt⟩
    exact ⟨⟨fun hc => ⟨0, hvarints hc, rfl⟩, isPrefix_of_leafByte hbyte⟩, hpath.mpr ⟨hrange, hfmt⟩⟩

end Check

end UnionVoyager.Ics23.Port
