import UnionVoyager.Ics23.Refine

/-!
# The Solidity verifier

`evm/contracts/lib/ICS23.sol` and `UnionICS23.sol`.  An error code of `None` is `ok` here, and a
revert stops a function where it happens.  The loop of `isLeftNeighbor` counts two indices down, and
a subtraction that underflows reverts, so every call returns or reverts.

* `verifyChainedMembership`, `verifyChainedNonMembership` — what the light clients call.
-/

namespace UnionVoyager.Ics23.Port.Solidity

open Lib

structure NonExistenceProof where
  key : Bytes
  left : ExistenceProof
  right : ExistenceProof

def empty (proof : ExistenceProof) : Bool :=
  proof.key.length = 0 ∧ proof.value.length = 0 ∧ proof.leafPrefix.length = 0 ∧ proof.path.length = 0

inductive Revert where
  | panic
  | message (text : String)
  deriving DecidableEq

/-- Why a function did not return the code `None`. -/
inductive Stop (ε : Type) where
  | code (e : ε)
  | revert (r : Revert)
  deriving DecidableEq

/-! ## `Ops` -/

inductive ApplyLeafOpError where
  | keyLength
  | valueLength

inductive ApplyInnerOpError where
  | childLength
  | doHash

/-- `_encode_varint` into as many bytes as `_sz_varint` counts. -/
def encodeVarint (x : Nat) : Bytes := leb128 x

section Hash

variable (hs : Hashes)

def applyLeafOp (pre key value : Bytes) : Except ApplyLeafOpError Bytes := do
  ensure (key.length ≠ 0) .keyLength
  ensure (value.length ≠ 0) .valueLength
  let encodedKey := encodeVarint key.length
  let hashedValue := hs.sha256 value
  let encodedValue := encodeVarint 32
  pure (hs.sha256 (pre ++ encodedKey ++ key ++ encodedValue ++ hashedValue))

def applyOp (innerOp : InnerOp) (child : Bytes) : Except ApplyInnerOpError Bytes := do
  ensure (child.length ≠ 0) .childLength
  pure (hs.sha256 (innerOp.innerPrefix ++ child ++ innerOp.suffix))

/-- Negative, zero or positive. -/
def compare (a b : Bytes) : Int :=
  match compareBytes a b with
  | .lt => -1
  | .gt => 1
  | .eq => 0

/-! ## `Proof` -/

inductive CalculateRootError where
  | leafNil
  | leafOp
  | pathOp
  | emptyProof

def calculateRoot (proof : ExistenceProof) : Except CalculateRootError Bytes := do
  ensure (proof.leafPrefix.length ≠ 0) .leafNil
  let root ← (applyLeafOp hs proof.leafPrefix proof.key proof.value).mapError fun _ => .leafOp
  proof.path.foldlM (fun root op => (applyOp hs op root).mapError fun _ => .pathOp) root

def calculateNonExistenceRoot (proof : NonExistenceProof) : Except CalculateRootError Bytes :=
  if empty proof.left = false then calculateRoot hs proof.left
  else if empty proof.right = false then calculateRoot hs proof.right
  else .error .emptyProof

end Hash

inductive CheckAgainstSpecError where
  | emptyLeaf
  | opsCheckAgainstSpec

def checkAgainstSpec (proof : ExistenceProof) (spec : ProofSpec) : Except CheckAgainstSpecError Unit := do
  ensure (proof.leafPrefix.length ≠ 0) .emptyLeaf
  ensure (proof.leafPrefix.head? = some 0) .opsCheckAgainstSpec
  let max := spec.maxPrefixLength + spec.childSize
  ensure (∀ innerOp ∈ proof.path, ¬ (innerOp.innerPrefix.length < spec.minPrefixLength ∨
    innerOp.innerPrefix.head? = some 0 ∨ max < innerOp.innerPrefix.length)) .opsCheckAgainstSpec

inductive VerifyExistenceError where
  | keyNotMatching
  | valueNotMatching
  | checkSpec
  | calculateRoot
  | rootNotMatching

inductive VerifyNonExistenceError where
  | verifyLeft
  | verifyRight
  | leftAndRightKeyEmpty
  | rightKeyRange
  | leftKeyRange
  | rightProofLeftMost
  | leftProofRightMost
  | isLeftNeighbor

def isLeftStep (spec : ProofSpec) (left right : InnerOp) : Bool :=
  match orderFromPadding spec left, orderFromPadding spec right with
  | some leftIdx, some rightIdx => rightIdx = leftIdx + 1
  | _, _ => false

section Verify

variable (hs : Hashes) (keccak256 : Bytes → Bytes)

def verifyNoRootCheck (proof : ExistenceProof) (spec : ProofSpec) (key value : Bytes) :
    Except VerifyExistenceError Unit := do
  ensure (keccak256 proof.key = keccak256 key) .keyNotMatching
  ensure (keccak256 proof.value = keccak256 value) .valueNotMatching
  (checkAgainstSpec proof spec).mapError fun _ => .checkSpec

def verify (proof : ExistenceProof) (spec : ProofSpec) (commitmentRoot key value : Bytes) :
    Except VerifyExistenceError Unit := do
  ensure (keccak256 proof.key = keccak256 key) .keyNotMatching
  ensure (keccak256 proof.value = keccak256 value) .valueNotMatching
  (checkAgainstSpec proof spec).mapError fun _ => .checkSpec
  let root ← (calculateRoot hs proof).mapError fun _ => .calculateRoot
  ensure (root = commitmentRoot) .rootNotMatching

/-- Two steps are compared by their hashes. -/
def sameStep (left right : InnerOp) : Bool :=
  keccak256 left.innerPrefix = keccak256 right.innerPrefix ∧ keccak256 left.suffix = keccak256 right.suffix

def isLeftNeighbor (spec : ProofSpec) (left right : List InnerOp) : Except Revert Bool := do
  -- `left.length - 1` and `right.length - 1`
  ensure (left.length ≠ 0 ∧ right.length ≠ 0) .panic
  let (leftIdx, rightIdx) ←
    orErr (parting (sameStep keccak256) left right (left.length - 1) (right.length - 1)) .panic
  let topLeft ← orErr left[leftIdx]? .panic
  let topRight ← orErr right[rightIdx]? .panic
  pure (isLeftStep spec topLeft topRight && isRightMost spec left leftIdx && isLeftMost spec right rightIdx)

def verifyPlaces (spec : ProofSpec) (left right : ExistenceProof) :
    Except (Stop VerifyNonExistenceError) Unit :=
  if left.key.length = 0 then
    ensure (isLeftMost spec right.path right.path.length = true) (.code .rightProofLeftMost)
  else if right.key.length = 0 then
    ensure (isRightMost spec left.path left.path.length = true) (.code .leftProofRightMost)
  else do
    let isLeftNeigh ← (isLeftNeighbor keccak256 spec left.path right.path).mapError .revert
    ensure (isLeftNeigh = true) (.code .isLeftNeighbor)

/-- `verify` of a proof of absence. -/
def verifyNonExistence (proof : NonExistenceProof) (spec : ProofSpec) (commitmentRoot key : Bytes) :
    Except (Stop VerifyNonExistenceError) Unit := do
  let leftKey := proof.left.key
  let rightKey := proof.right.key
  onlyIf (empty proof.left = false)
    ((verify hs keccak256 proof.left spec commitmentRoot proof.left.key proof.left.value).mapError
      fun _ => .code .verifyLeft)
  onlyIf (empty proof.right = false)
    ((verify hs keccak256 proof.right spec commitmentRoot proof.right.key proof.right.value).mapError
      fun _ => .code .verifyRight)
  ensure (¬ (leftKey.length = 0 ∧ rightKey.length = 0)) (.code .leftAndRightKeyEmpty)
  ensure (¬ (0 < rightKey.length ∧ 0 ≤ compare key rightKey)) (.code .rightKeyRange)
  ensure (¬ (0 < leftKey.length ∧ compare key leftKey ≤ 0)) (.code .leftKeyRange)
  verifyPlaces keccak256 spec proof.left proof.right

/-! ## `Ics23` -/

inductive VerifyChainedMembershipError where
  | existenceProofIsNil
  | invalidProofRoot
  | keyMismatch
  | valueMismatch
  | invalidSpec
  | invalidIntermediateProofRoot
  | intermateProofRootMismatch
  | rootMismatch
  deriving DecidableEq

def convertExistenceError : VerifyExistenceError → VerifyChainedMembershipError
  | .keyNotMatching => .keyMismatch
  | .valueNotMatching => .valueMismatch
  | .checkSpec => .invalidSpec
  | .calculateRoot => .invalidIntermediateProofRoot
  | .rootNotMatching => .intermateProofRootMismatch

/-- The two proofs are an array in the source. -/
def verifyChainedMembership (proof₀ proof₁ : ExistenceProof) (root pre key value : Bytes) :
    Except VerifyChainedMembershipError Unit := do
  let subroot ← (calculateRoot hs proof₀).mapError fun _ => .invalidProofRoot
  (verifyNoRootCheck keccak256 proof₀ iavlProofSpec key value).mapError convertExistenceError
  (verify hs keccak256 proof₁ tendermintProofSpec root pre subroot).mapError convertExistenceError

inductive VerifyChainedNonMembershipError where
  | nonExistenceProofIsNil
  | existenceProofIsNil
  | invalidProofRoot
  | keyMismatch
  | valueMismatch
  | invalidSpec
  | invalidIntermediateProofRoot
  | intermateProofRootMismatch
  | rootMismatch
  | verifyLeft
  | verifyRight
  | leftAndRightKeyEmpty
  | rightKeyRange
  | leftKeyRange
  | rightProofLeftMost
  | leftProofRightMost
  | isLeftNeighbor
  deriving DecidableEq

/-- The match of the source leaves `VerifyRight` out, and reverts there. -/
def mapNonExistenceError : Stop VerifyNonExistenceError → Stop VerifyChainedNonMembershipError
  | .code .verifyLeft => .code .verifyLeft
  | .code .leftAndRightKeyEmpty => .code .leftAndRightKeyEmpty
  | .code .rightKeyRange => .code .rightKeyRange
  | .code .leftKeyRange => .code .leftKeyRange
  | .code .rightProofLeftMost => .code .rightProofLeftMost
  | .code .leftProofRightMost => .code .leftProofRightMost
  | .code .isLeftNeighbor => .code .isLeftNeighbor
  | .code .verifyRight =>
    .revert (.message
      "verifyChainedNonMembership: non exhaustive pattern matching on VerifyNonExistenceError")
  | .revert r => .revert r

def mapExistenceError : VerifyExistenceError → VerifyChainedNonMembershipError
  | .keyNotMatching => .keyMismatch
  | .valueNotMatching => .valueMismatch
  | .checkSpec => .invalidSpec
  | .calculateRoot => .invalidIntermediateProofRoot
  | .rootNotMatching => .intermateProofRootMismatch

def verifyChainedNonMembership (nonExistProof : NonExistenceProof) (existProof : ExistenceProof)
    (root pre key : Bytes) : Except (Stop VerifyChainedNonMembershipError) Unit := do
  let subroot ← (calculateNonExistenceRoot hs nonExistProof).mapError fun _ => .code .invalidProofRoot
  (verifyNonExistence hs keccak256 nonExistProof iavlProofSpec subroot key).mapError mapNonExistenceError
  let subroot2 ← (calculateRoot hs existProof).mapError fun _ => .code .invalidProofRoot
  (verifyNoRootCheck keccak256 existProof tendermintProofSpec pre subroot).mapError fun e =>
    .code (mapExistenceError e)
  ensure (root = subroot2) (.code .rootMismatch)

end Verify

end UnionVoyager.Ics23.Port.Solidity
