import UnionVoyager.Ics23.Ops
import Mathlib.Logic.Unique

/-!
# The verifier

`existence_proof.rs`, `verify.rs` and `ibc_api.rs` of `lib/ics23`.

A path is listed from the leaf up.  `is_left_neighbor` takes steps off the end of two paths, so its
loop is on the reversed paths here.

* `checkAgainstSpec_iff` — what a proof of existence passes; `Conforms` — all of it but the greatest depth.
-/

namespace UnionVoyager.Ics23

open Lib

/-! ## `existence_proof.rs` -/

namespace ExistenceProof

inductive SpecMismatchError where
  | leafSpecMismatch (e : LeafOp.SpecMismatchError)
  | innerOpSpecMismatch (e : InnerOp.SpecMismatchError)
  | innerDepthTooShort (pathLen minDepth : Nat)
  | innerDepthTooLong (pathLen maxDepth : Nat)
  deriving DecidableEq

inductive CalculateRootError where
  | leafOpHash (e : LeafOp.ApplyError)
  | innerOpHash (e : InnerOp.ApplyError)
  | innerOpHashAndSpecMismatch
  deriving DecidableEq

def checkMinDepth (path : List InnerOp) : Option Nat → Except SpecMismatchError Unit
  | some minDepth => ensure (minDepth ≤ path.length) (.innerDepthTooShort path.length minDepth)
  | none => .ok ()

/-- As the source has it, a path that is too short is "too long". -/
def checkMaxDepth (path : List InnerOp) : Option Nat → Except SpecMismatchError Unit
  | some maxDepth => ensure (maxDepth ≤ path.length) (.innerDepthTooLong path.length maxDepth)
  | none => .ok ()

/-- The inner operations against the spec, counted from `index`. -/
def checkPath (spec : ProofSpec) : Nat → List InnerOp → Except SpecMismatchError Unit
  | _, [] => .ok ()
  | index, inner :: path => do
    (inner.checkAgainstSpec spec index).mapError .innerOpSpecMismatch
    checkPath spec (index + 1) path

def checkAgainstSpec (existenceProof : ExistenceProof) (spec : ProofSpec) :
    Except SpecMismatchError Unit := do
  (existenceProof.leaf.checkAgainstSpec spec).mapError .leafSpecMismatch
  checkMinDepth existenceProof.path spec.minDepth
  checkMaxDepth existenceProof.path spec.maxDepth
  checkPath spec 0 existenceProof.path

variable (hs : Hashes)

def checkChildSize (leafHash : Bytes) : Option ProofSpec → Except CalculateRootError Unit
  | some spec =>
    ensure (¬ (spec.innerSpec.childSize < leafHash.length ∧ 32 ≤ spec.innerSpec.childSize))
      .innerOpHashAndSpecMismatch
  | none => .ok ()

def applyStep (spec : Option ProofSpec) (res : Bytes) (step : InnerOp) : Except CalculateRootError Bytes := do
  let leafHash ← (step.apply hs res).mapError .innerOpHash
  checkChildSize leafHash spec
  pure leafHash

def calculate (existenceProof : ExistenceProof) (spec : Option ProofSpec) :
    Except CalculateRootError Bytes := do
  let leafHash ← (existenceProof.leaf.apply hs existenceProof.key existenceProof.value).mapError .leafOpHash
  existenceProof.path.foldlM (applyStep hs spec) leafHash

def calculateRoot (existenceProof : ExistenceProof) : Except CalculateRootError Bytes :=
  existenceProof.calculate hs none

end ExistenceProof

/-! ## `verify.rs`: neighbours -/

inductive NeighborSearchError where
  | invalidBranch (branch orderLen : Nat)
  | branchNotFoundInOrder (branch : Nat) (order : List Nat)
  | cannotFindValidSpacing
  | invalidPath
  deriving DecidableEq

/-- Where the branch is in the order. -/
def getPosition (order : List Nat) (branch : Nat) : Except NeighborSearchError Nat := do
  ensure (branch < order.length) (.invalidBranch branch order.length)
  orErr (order.findIdx? (· = branch)) (.branchNotFoundInOrder branch order)

/-- The least and the greatest length of the prefix, and the length of the suffix. -/
structure Padding where
  minPrefix : Nat
  maxPrefix : Nat
  suffix : Nat

def getPadding (spec : InnerSpec) (branch : Nat) : Except NeighborSearchError Padding := do
  let idx ← getPosition spec.childOrder branch
  let pre := idx * spec.childSize
  pure
    { minPrefix := pre + spec.minPrefixLength
      maxPrefix := pre + spec.maxPrefixLength
      suffix := (spec.childOrder.length - 1 - idx) * spec.childSize }

def hasPadding (op : InnerOp) (padding : Padding) : Bool :=
  padding.minPrefix ≤ op.innerPrefix.length ∧ op.innerPrefix.length ≤ padding.maxPrefix ∧
    op.suffix.length = padding.suffix

/-- The first of the branches that has the padding of the operation. -/
def orderAmong (spec : InnerSpec) (inner : InnerOp) : List Nat → Except NeighborSearchError Nat
  | [] => .error .cannotFindValidSpacing
  | branch :: branches => do
    let padding ← getPadding spec branch
    if hasPadding inner padding then .ok branch else orderAmong spec inner branches

def orderFromPadding (spec : InnerSpec) (inner : InnerOp) : Except NeighborSearchError Nat :=
  orderAmong spec inner (List.range spec.childOrder.length)

/-- The bytes `from..from + len`, if they are there. -/
def slice (b : Bytes) (start len : Nat) : Option Bytes :=
  if start + len ≤ b.length then some ((b.drop start).take len) else none

section

variable (spec : InnerSpec) (op : InnerOp)

def rightBranchIsEmpty (i : Nat) : Except NeighborSearchError Bool := do
  let idx ← getPosition spec.childOrder i
  pure (slice op.suffix (idx * spec.childSize) spec.childSize = some spec.emptyChild)

def rightBranchesAreEmpty : Except NeighborSearchError Bool := do
  let idx ← orderFromPadding spec op
  let rightBranches := spec.childOrder.length - 1 - idx
  if rightBranches = 0 ∨ op.suffix.length ≠ rightBranches * spec.childSize then pure false
  else (List.range rightBranches).allM (rightBranchIsEmpty spec op)

def leftBranchIsEmpty (actualPrefix i : Nat) : Except NeighborSearchError Bool := do
  let idx ← getPosition spec.childOrder i
  pure (slice op.innerPrefix (actualPrefix + idx * spec.childSize) spec.childSize = some spec.emptyChild)

def leftBranchesAreEmpty : Except NeighborSearchError Bool := do
  let leftBranches ← orderFromPadding spec op
  if leftBranches = 0 ∨ op.innerPrefix.length < leftBranches * spec.childSize then pure false
  else
    (List.range leftBranches).allM
      (leftBranchIsEmpty spec op (op.innerPrefix.length - leftBranches * spec.childSize))

end

def stepIsRight (spec : InnerSpec) (padding : Padding) (step : InnerOp) : Except NeighborSearchError Bool :=
  if hasPadding step padding then .ok true else rightBranchesAreEmpty spec step

def isRightMost (spec : InnerSpec) (path : List InnerOp) : Except NeighborSearchError Bool := do
  let padding ← getPadding spec (spec.childOrder.length - 1)
  path.allM (stepIsRight spec padding)

def stepIsLeft (spec : InnerSpec) (padding : Padding) (step : InnerOp) : Except NeighborSearchError Bool :=
  if hasPadding step padding then .ok true else leftBranchesAreEmpty spec step

def isLeftMost (spec : InnerSpec) (path : List InnerOp) : Except NeighborSearchError Bool := do
  let padding ← getPadding spec 0
  path.allM (stepIsLeft spec padding)

def isLeftStep (spec : InnerSpec) (left right : InnerOp) : Except NeighborSearchError Bool := do
  let leftIdx ← orderFromPadding spec left
  let rightIdx ← orderFromPadding spec right
  pure (rightIdx = leftIdx + 1)

/-- Two steps and what is below each, both lists from the root down. -/
structure Parting where
  topLeft : InnerOp
  left : List InnerOp
  topRight : InnerOp
  right : List InnerOp

/-- The loop of `is_left_neighbor`, on paths from the root down. -/
def dropCommon : List InnerOp → List InnerOp → Except NeighborSearchError Parting
  | topLeft :: left, topRight :: right =>
    if topLeft.innerPrefix = topRight.innerPrefix ∧
      topLeft.suffix = topRight.suffix then dropCommon left right
    else .ok ⟨topLeft, left, topRight, right⟩
  | _, _ => .error .invalidPath

/-- `a && b()`, where both may fail. -/
def andThen {ε : Type} (a : Except ε Bool) (b : Except ε Bool) : Except ε Bool := do
  if ← a then b else pure false

def isLeftNeighbor (spec : InnerSpec) (left right : List InnerOp) : Except NeighborSearchError Bool := do
  let parting ← dropCommon left.reverse right.reverse
  andThen (isLeftStep spec parting.topLeft parting.topRight)
    (andThen (isRightMost spec parting.left.reverse) (isLeftMost spec parting.right.reverse))

/-! ## `verify.rs`: proofs -/

inductive VerifyError where
  | specMismatch (e : ExistenceProof.SpecMismatchError)
  | keyAndExistenceProofKeyMismatch (key existenceProofKey : Bytes)
  | valueAndExistenceProofValueMismatch (value existenceProofValue : Bytes)
  | rootCalculation (e : ExistenceProof.CalculateRootError)
  | calculatedAndGivenRootMismatch (calculatedRoot givenRoot : Bytes)
  | keyIsNotLeftOfRightProof
  | keyIsNotRightOfLeftProof
  | leftProofMissing
  | rightProofMissing
  | bothProofsMissing
  | neighborSearch (e : NeighborSearchError)
  | hash (e : HashError)
  deriving DecidableEq

/-- The error of `verify::verify_membership`; the other variant of the source is never made. -/
inductive InnerVerifyError where
  | existenceProofVerify (e : VerifyError)
  deriving DecidableEq

variable (hs : Hashes)

def verifyExistenceProof (existenceProof : ExistenceProof) (spec : ProofSpec) (root key value : Bytes) :
    Except VerifyError Unit := do
  (existenceProof.checkAgainstSpec spec).mapError .specMismatch
  ensure (key = existenceProof.key) (.keyAndExistenceProofKeyMismatch key existenceProof.key)
  ensure (value = existenceProof.value) (.valueAndExistenceProofValueMismatch value existenceProof.value)
  let calculated ← (existenceProof.calculate hs (some spec)).mapError .rootCalculation
  ensure (root = calculated) (.calculatedAndGivenRootMismatch calculated root)

def keyForComparison (spec : ProofSpec) (key : Bytes) : Except HashError Bytes :=
  if ¬ spec.prehashKeyBeforeComparison then .ok key
  else if spec.leafSpec.prehashKey = .noHash then .ok key
  else doHash hs spec.leafSpec.prehashKey key

/-- The key of a side; none is as good as an empty one. -/
def verifySide (spec : ProofSpec) (root : Bytes) : Option ExistenceProof → Except VerifyError Bytes
  | some side => do
    verifyExistenceProof hs side spec root side.key side.value
    pure side.key
  | none => .ok []

def checkLess (spec : ProofSpec) (e : VerifyError) (lower upper : Bytes) : Except VerifyError Unit := do
  let lower ← (keyForComparison hs spec lower).mapError .hash
  let upper ← (keyForComparison hs spec upper).mapError .hash
  ensure (lower < upper) e

def checkNeighbors (spec : ProofSpec) : Option ExistenceProof → Option ExistenceProof →
      Except VerifyError Unit
  | some left, none => do
    let rightMost ← (isRightMost spec.innerSpec left.path).mapError .neighborSearch
    ensure (rightMost = true) .rightProofMissing
  | none, some right => do
    let leftMost ← (isLeftMost spec.innerSpec right.path).mapError .neighborSearch
    ensure (leftMost = true) .leftProofMissing
  | some left, some right => do
    let neighbor ← (isLeftNeighbor spec.innerSpec left.path right.path).mapError .neighborSearch
    ensure (neighbor = true) .rightProofMissing
  | none, none => .error .bothProofsMissing

def verifyNonExistence (nonExistenceProof : NonExistenceProof) (spec : ProofSpec) (root key : Bytes) :
    Except VerifyError Unit := do
  let leftKey ← verifySide hs spec root nonExistenceProof.left
  let rightKey ← verifySide hs spec root nonExistenceProof.right
  ensure (¬ (leftKey = [] ∧ rightKey = [])) .bothProofsMissing
  onlyIf (rightKey ≠ []) (checkLess hs spec .keyIsNotLeftOfRightProof key rightKey)
  onlyIf (leftKey ≠ []) (checkLess hs spec .keyIsNotRightOfLeftProof leftKey key)
  checkNeighbors spec nonExistenceProof.left nonExistenceProof.right

def verifyNonMembership (spec : ProofSpec) (root : Bytes) (proof : NonExistenceProof) (key : Bytes) :
    Except InnerVerifyError Unit :=
  (verifyNonExistence hs proof spec root key).mapError .existenceProofVerify

def verifyMembership (spec : ProofSpec) (root : Bytes) (proof : ExistenceProof) (key value : Bytes) :
    Except InnerVerifyError Unit :=
  (verifyExistenceProof hs proof spec root key value).mapError .existenceProofVerify

/-! ## `ibc_api.rs` -/

namespace IbcApi

inductive VerifyMembershipError where
  | rootCalculation (e : ExistenceProof.CalculateRootError)
  | innerVerification (e : InnerVerifyError)
  | invalidRoot (calculated found : Bytes)
  | invalidProofsLength (expected found : Nat)
  | invalidKeyPathLength (expected found : Nat)
  | invalidProofType
  | invalidIndexing
  | emptyNonExistenceProof
  | emptyProof

def existenceOf : CommitmentProof → Except VerifyMembershipError ExistenceProof
  | .exist proof => .ok proof
  | _ => .error .invalidProofType

def nonExistenceOf : Option CommitmentProof → Except VerifyMembershipError NonExistenceProof
  | some (.nonexist proof) => .ok proof
  | _ => .error .invalidProofType

/-- The key of the `i`-th proof: the last key is that of the first. -/
def keyAt (keys : List Bytes) (i : Nat) : Except VerifyMembershipError Bytes :=
  orErr (if 1 + i ≤ keys.length then keys[keys.length - (1 + i)]? else none) .invalidIndexing

/-- One pass of the fold; the specs are as many as the proofs. -/
def verifyLink (specs : List ProofSpec) (keys : List Bytes) (value : Bytes) (link : CommitmentProof × Nat) :
    Except VerifyMembershipError Bytes := do
  let existenceProof ← existenceOf link.1
  let subroot ← (existenceProof.calculateRoot hs).mapError .rootCalculation
  let key ← keyAt keys link.2
  let spec ← orErr specs[link.2]? .invalidIndexing
  (Ics23.verifyMembership hs spec subroot existenceProof key value).mapError .innerVerification
  pure subroot

def verifyChainedMembershipProof (root : Bytes) (specs : List ProofSpec) (proofs : List CommitmentProof)
    (keys : List Bytes) (value : Bytes) (index : Nat) : Except VerifyMembershipError Unit := do
  let value ← (proofs.zipIdx.drop index).foldlM (verifyLink hs specs keys) value
  ensure (value = root) (.invalidRoot root value)

def verifyMembership (proofs : List CommitmentProof) (specs : List ProofSpec) (consensusRoot : Bytes)
    (path : List Bytes) (value : Bytes) : Except VerifyMembershipError Unit := do
  ensure (proofs.length = specs.length) (.invalidProofsLength specs.length proofs.length)
  ensure (path.length = specs.length) (.invalidKeyPathLength specs.length path.length)
  verifyChainedMembershipProof hs consensusRoot specs proofs path value 0

/-- The root of the left side if there is one, else that of the right. -/
def subrootOf (nonexist : NonExistenceProof) : Except VerifyMembershipError Bytes :=
  match nonexist.left, nonexist.right with
  | some ep, _ => (ep.calculateRoot hs).mapError .rootCalculation
  | none, some ep => (ep.calculateRoot hs).mapError .rootCalculation
  | none, none => .error .emptyNonExistenceProof

def verifyNonMembership (proofs : List CommitmentProof) (specs : List ProofSpec)
    (consensusRoot : Bytes) (keyPath : List Bytes) : Except VerifyMembershipError Unit := do
  ensure (proofs ≠ []) .emptyProof
  ensure (proofs.length = specs.length) (.invalidProofsLength specs.length proofs.length)
  ensure (keyPath.length = specs.length) (.invalidKeyPathLength specs.length keyPath.length)
  let nonexist ← nonExistenceOf proofs[0]?
  let subroot ← subrootOf hs nonexist
  -- neither list is empty here
  let key ← orErr keyPath.getLast? .emptyProof
  let spec ← orErr specs[0]? .emptyProof
  (Ics23.verifyNonMembership hs spec subroot nonexist key).mapError .innerVerification
  verifyChainedMembershipProof hs consensusRoot specs proofs keyPath subroot 1

end IbcApi

/-! ## The depth limits of a spec -/

namespace ExistenceProof

variable {proof : ExistenceProof} {spec : ProofSpec} {path : List InnerOp}

/-- The leaf and the inner operations conform, each at its index, and the path is not too short. -/
structure Conforms (proof : ExistenceProof) (spec : ProofSpec) : Prop where
  leaf : proof.leaf.checkAgainstSpec spec = .ok ()
  path : ∀ x ∈ proof.path.zipIdx, x.1.checkAgainstSpec spec x.2 = .ok ()
  minDepth : ∀ minDepth ∈ spec.minDepth, minDepth ≤ proof.path.length

theorem checkPath_iff {index : Nat} :
    checkPath spec index path = .ok () ↔ ∀ x ∈ path.zipIdx index, x.1.checkAgainstSpec spec x.2 = .ok () := by
  induction path generalizing index with
  | nil => simp [checkPath]
  | cons inner path ih =>
    simp only [checkPath, bind_eq_ok, mapError_eq_ok, Unique.exists_iff, ih, List.zipIdx_cons,
      List.forall_mem_cons]

theorem checkMinDepth_iff {limit : Option Nat} :
    checkMinDepth path limit = .ok () ↔ ∀ minDepth ∈ limit, minDepth ≤ path.length := by
  cases limit with
  | none => simp [checkMinDepth]
  | some minDepth => simp [checkMinDepth, ensure_eq_ok]

theorem checkMaxDepth_iff {limit : Option Nat} :
    checkMaxDepth path limit = .ok () ↔ ∀ maxDepth ∈ limit, maxDepth ≤ path.length := by
  cases limit with
  | none => simp [checkMaxDepth]
  | some maxDepth => simp [checkMaxDepth, ensure_eq_ok]

theorem checkAgainstSpec_iff : proof.checkAgainstSpec spec = .ok () ↔
    proof.Conforms spec ∧ ∀ maxDepth ∈ spec.maxDepth, maxDepth ≤ proof.path.length := by
  simp only [checkAgainstSpec, bind_eq_ok, mapError_eq_ok, Unique.exists_iff, PUnit.default_eq_unit,
    checkMinDepth_iff, checkMaxDepth_iff, checkPath_iff]
  constructor
  · rintro ⟨hleaf, hmin, hmax, hpath⟩
    exact ⟨⟨hleaf, hpath, hmin⟩, hmax⟩
  · rintro ⟨h, hmax⟩
    exact ⟨h.leaf, h.minDepth, hmax, h.path⟩

/-- **A proof is accepted just when it conforms and is no deeper than the greatest depth, iff its
    path is exactly as long as that wherever it conforms.** -/
theorem depth_limits_iff (proof : ExistenceProof) (spec : ProofSpec) : (proof.checkAgainstSpec spec = .ok () ↔
        proof.Conforms spec ∧ ∀ maxDepth ∈ spec.maxDepth, proof.path.length ≤ maxDepth) ↔
      (proof.Conforms spec → ∀ maxDepth ∈ spec.maxDepth, proof.path.length = maxDepth) := by
  rw [checkAgainstSpec_iff, and_congr_right_iff]
  refine forall_congr' fun _ => ?_
  cases spec.maxDepth with
  | none => simp
  | some maxDepth =>
    simp only [Option.mem_def, Option.some.injEq, forall_eq']
    omega

namespace Sample

/-- A leaf alone. -/
def shallow : ExistenceProof := ⟨[1], [1], TENDERMINT_PROOF_SPEC.leafSpec, []⟩

/-- The spec of trees that are at most one operation deep. -/
def limited : ProofSpec := { TENDERMINT_PROOF_SPEC with maxDepth := some 1 }

end Sample

open Sample in
theorem shallow_refused : shallow.checkAgainstSpec limited = .error (.innerDepthTooLong 0 1) ∧
    shallow.Conforms limited ∧ ∀ maxDepth ∈ limited.maxDepth, shallow.path.length ≤ maxDepth :=
  ⟨by decide, ⟨by decide, by decide, by decide⟩, by decide⟩

end ExistenceProof

end UnionVoyager.Ics23
