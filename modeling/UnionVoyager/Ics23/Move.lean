import UnionVoyager.Ics23.Refine

/-!
# The Move verifier

`sui/ibc/sources/ics23.move`, and its callers in `cometbls_light_client.move`.  The proofs are
decoded already.

* `checkAgainstSpec` — as the assertion of the source has it; `checkAgainstSpec_eq_ok_iff`.
* `verifyMembership`, `verifyNonMembership`.
* `Client.verifyMembership`, `Client.verifyNonMembership` — the light client.
-/

namespace UnionVoyager.Ics23.Port.Move

open Lib

/-- A decoded proof: the length of a vector is a 64-bit number. -/
structure ExistenceProof extends Port.ExistenceProof where
  key_length : key.length < 2 ^ 64

structure NonExistenceProof where
  key : Bytes
  left : Option ExistenceProof
  right : Option ExistenceProof

structure MembershipProof where
  subProof : ExistenceProof
  topLevelProof : ExistenceProof

structure NonMembershipProof where
  nonExistenceProof : NonExistenceProof
  existenceProof : ExistenceProof

/-- Why a call did not return. -/
inductive Abort where
  | code (n : Nat)
  /-- An underflow, or an index that is not there. -/
  | vm
  deriving DecidableEq

def EBase : Nat := 20200
def EEmptyLeafPrefix : Abort := .code (EBase + 1)
def EEmptyInnerKey : Abort := .code (EBase + 2)
def EEmptyChild : Abort := .code (EBase + 3)
def EProofKeyMismatch : Abort := .code (EBase + 4)
def EProofValueMismatch : Abort := .code (EBase + 5)
def ECommitmentRootMismatch : Abort := .code (EBase + 6)
def EInvalidLeafPrefix : Abort := .code (EBase + 7)
def EInvalidInnerPrefix : Abort := .code (EBase + 8)
def EEmptyInnerValue : Abort := .code (EBase + 9)
def EEmptyProof : Abort := .code (EBase + 10)
def ELeftAndRightKeyEmpty : Abort := .code (EBase + 11)
def ERightKeyRange : Abort := .code (EBase + 12)
def ELeftKeyRange : Abort := .code (EBase + 13)
def ERightProofLeftMost : Abort := .code (EBase + 14)
def ELeftProofRightMost : Abort := .code (EBase + 15)
def EIsLeftNeighbor : Abort := .code (EBase + 16)
def EOrderPaddingNotFound : Abort := .code (EBase + 17)
def ERootMismatch : Abort := .code (EBase + 18)

/-! ## Bytes -/

/-- At most this many groups of seven bits. -/
def encodeVarintLoop : Nat → Nat → Bytes
  | 0, _ => []
  | i + 1, value =>
    if value < 0x80 then [UInt8.ofNat value] else UInt8.ofNat (value % 128 + 128) ::
      encodeVarintLoop i (value / 128)

def encodeVarint (value : Nat) : Bytes := encodeVarintLoop 10 value

theorem encodeVarintLoop_eq (n : Nat) : ∀ {i : Nat}, n < 128 ^ (i + 1) →
      encodeVarintLoop (i + 1) n = leb128 n := by
  induction n using leb128_cases with
  | small n h =>
    intro i _
    rw [encodeVarintLoop, if_pos h, leb128_small h]
  | large n h ih =>
    intro i hi
    rw [encodeVarintLoop, if_neg (by omega), leb128_large h]
    cases i with
    | zero =>
      simp only [Nat.zero_add, Nat.pow_one] at hi
      omega
    | succ i =>
      rw [Nat.pow_succ] at hi
      rw [ih (by omega)]

theorem encodeVarint_eq {n : Nat} (h : n < 2 ^ 64) : encodeVarint n = leb128 n :=
    encodeVarintLoop_eq n (by omega)

/-- 0, 1 or 2: less, equal or greater. -/
def compare (a b : Bytes) : Nat :=
  match compareBytes a b with
  | .lt => 0
  | .eq => 1
  | .gt => 2

/-! ## Roots -/

section Roots

variable (hs : Hashes)

def applyLeafOp (pre key value : Bytes) : Except Abort Bytes := do
  ensure (key ≠ []) EEmptyInnerKey
  ensure (value ≠ []) EEmptyInnerValue
  let encodedKey := encodeVarint key.length
  let hashedValue := hs.sha256 value
  let encodedValue := encodeVarint 32
  pure (hs.sha256 (pre ++ encodedKey ++ key ++ encodedValue ++ hashedValue))

def applyInnerOp (innerOp : InnerOp) (child : Bytes) : Except Abort Bytes := do
  ensure (child ≠ []) EEmptyChild
  pure (hs.sha256 (innerOp.innerPrefix ++ child ++ innerOp.suffix))

def calculateExistenceRoot (proof : ExistenceProof) : Except Abort Bytes := do
  ensure (proof.leafPrefix ≠ []) EEmptyLeafPrefix
  let root ← applyLeafOp hs proof.leafPrefix proof.key proof.value
  proof.path.foldlM (fun root op => applyInnerOp hs op root) root

def calculateNonExistenceRoot (proof : NonExistenceProof) : Except Abort Bytes :=
  match proof.left, proof.right with
  | some left, _ => calculateExistenceRoot hs left
  | none, some right => calculateExistenceRoot hs right
  | none, none => .error EEmptyProof

end Roots

/-! ## The check against a spec -/

/-- The condition of the assertion: `&&` binds closer than `||`. -/
def passes (proofSpec : ProofSpec) (max : Nat) (innerOp : InnerOp) : Bool :=
  proofSpec.minPrefixLength ≤ innerOp.innerPrefix.length ∧ innerOp.innerPrefix.head? ≠ some 0 ∨
    innerOp.innerPrefix.length ≤ max

def checkAgainstSpec (proof : ExistenceProof) (proofSpec : ProofSpec) : Except Abort Unit := do
  ensure (proof.leafPrefix ≠ []) EEmptyLeafPrefix
  ensure (proof.leafPrefix.head? = some 0) EInvalidLeafPrefix
  let max := proofSpec.maxPrefixLength + proofSpec.childSize
  ensure (∀ innerOp ∈ proof.path, passes proofSpec max innerOp = true) EInvalidInnerPrefix

/-! ## Places -/

def orderOrAbort (proofSpec : ProofSpec) (op : InnerOp) : Except Abort Nat :=
  orErr (orderFromPadding proofSpec op) EOrderPaddingNotFound

def isLeftStep (proofSpec : ProofSpec) (left right : InnerOp) : Except Abort Bool := do
  let leftIdx ← orderOrAbort proofSpec left
  let rightIdx ← orderOrAbort proofSpec right
  pure (rightIdx = leftIdx + 1)

/-- Steps are compared as they are. -/
def sameStep (left right : InnerOp) : Bool := left = right

def isLeftNeighbor (proofSpec : ProofSpec) (left right : List InnerOp) : Except Abort Bool := do
  -- `left.length() - 1` and `right.length() - 1`
  ensure (left ≠ [] ∧ right ≠ []) .vm
  let (leftIdx, rightIdx) ← orErr (parting sameStep left right (left.length - 1) (right.length - 1)) .vm
  let topLeft ← orErr left[leftIdx]? .vm
  let topRight ← orErr right[rightIdx]? .vm
  let step ← isLeftStep proofSpec topLeft topRight
  pure (step && isRightMost proofSpec left leftIdx && isLeftMost proofSpec right rightIdx)

def verifyPlaces (proofSpec : ProofSpec) : Option ExistenceProof → Option ExistenceProof → Except Abort Unit
  | none, some right => ensure (isLeftMost proofSpec right.path right.path.length = true) ERightProofLeftMost
  | some left, none => ensure (isRightMost proofSpec left.path left.path.length = true) ELeftProofRightMost
  | some left, some right => do
    let neighbor ← isLeftNeighbor proofSpec left.path right.path
    ensure (neighbor = true) EIsLeftNeighbor
  | none, none => .error .vm

/-! ## Verification -/

section Verify

variable (hs : Hashes)

def verifyNoRootCheck (proof : ExistenceProof) (proofSpec : ProofSpec) (key value : Bytes) :
    Except Abort Unit := do
  ensure (key = proof.key) EProofKeyMismatch
  ensure (value = proof.value) EProofValueMismatch
  checkAgainstSpec proof proofSpec

def verifyExistence (proof : ExistenceProof) (proofSpec : ProofSpec) (commitmentRoot key value : Bytes) :
    Except Abort Unit := do
  ensure (key = proof.key) EProofKeyMismatch
  ensure (value = proof.value) EProofValueMismatch
  checkAgainstSpec proof proofSpec
  let root ← calculateExistenceRoot hs proof
  ensure (root = commitmentRoot) ECommitmentRootMismatch

def verifySide (proofSpec : ProofSpec) (commitmentRoot : Bytes) : Option ExistenceProof → Except Abort Unit
  | some side => verifyExistence hs side proofSpec commitmentRoot side.key side.value
  | none => .ok ()

def verifyNonExistence (proof : NonExistenceProof) (proofSpec : ProofSpec) (commitmentRoot key : Bytes) :
    Except Abort Unit := do
  verifySide hs proofSpec commitmentRoot proof.left
  verifySide hs proofSpec commitmentRoot proof.right
  ensure (¬ (proof.left.isNone ∧ proof.right.isNone)) ELeftAndRightKeyEmpty
  ensure (∀ right ∈ proof.right, ¬ 1 ≤ compare key right.key) ERightKeyRange
  ensure (∀ left ∈ proof.left, ¬ compare key left.key ≤ 1) ELeftKeyRange
  verifyPlaces proofSpec proof.left proof.right

def verifyMembership (proof : MembershipProof) (root pre key value : Bytes) : Except Abort Unit := do
  let subroot ← calculateExistenceRoot hs proof.subProof
  verifyNoRootCheck proof.subProof iavlProofSpec key value
  verifyExistence hs proof.topLevelProof tendermintProofSpec root pre subroot

def verifyNonMembership (proof : NonMembershipProof) (root pre key : Bytes) : Except Abort Unit := do
  let subroot ← calculateNonExistenceRoot hs proof.nonExistenceProof
  verifyNonExistence hs proof.nonExistenceProof iavlProofSpec subroot key
  verifyNoRootCheck proof.existenceProof tendermintProofSpec pre subroot
  let subroot2 ← calculateExistenceRoot hs proof.existenceProof
  ensure (root = subroot2) ERootMismatch

end Verify

/-! ## The light client -/

/-- What the client reads: the contract, and the app hash of each height. -/
structure Client where
  contractAddress : Bytes
  appHash : UInt64 → Option Bytes

namespace Client

/-- `b"wasm"`. -/
def HARDCODED_PREFIX : Bytes := [119, 97, 115, 109]

def path (client : Client) (key : Bytes) : Bytes := [0x03] ++ client.contractAddress ++ [0x0] ++ key

variable (hs : Hashes)

def verifyMembership (client : Client) (height : UInt64) (proof : MembershipProof) (key value : Bytes) :
    Except Abort Nat := do
  let root ← orErr (client.appHash height) .vm
  Move.verifyMembership hs proof root HARDCODED_PREFIX (client.path key) value
  pure 0

def verifyNonMembership (client : Client) (height : UInt64) (proof : NonMembershipProof) (key : Bytes) :
    Except Abort Nat := do
  let root ← orErr (client.appHash height) .vm
  Move.verifyNonMembership hs proof root HARDCODED_PREFIX (client.path key)
  pure 0

end Client

end UnionVoyager.Ics23.Port.Move
