import UnionVoyager.Lib.Result
import UnionVoyager.Lib.Varint

/-!
# ICS-23 proofs, their specs and operations

`unionlabs::cosmos::ics23`, and the two specs and `ops/` of `lib/ics23`: the hash and length
operations, the check of the IAVL prefixes, and for leaves and inner nodes the check against a spec
and the hash.
-/

namespace UnionVoyager.Ics23

open Lib

inductive HashOp where
  | noHash
  | sha256
  | sha512
  | keccak256
  | ripemd160
  | bitcoin
  | sha512256
  | blake2b512
  | blake2s256
  | blake3
  deriving DecidableEq

inductive LengthOp where
  | noPrefix
  | varProto
  | varRlp
  | fixed32Big
  | fixed32Little
  | fixed64Big
  | fixed64Little
  | require32Bytes
  | require64Bytes
  deriving DecidableEq

structure LeafOp where
  hash : HashOp
  prehashKey : HashOp
  prehashValue : HashOp
  length : LengthOp
  leafPrefix : Bytes

structure InnerOp where
  hash : HashOp
  innerPrefix : Bytes
  suffix : Bytes

structure ExistenceProof where
  key : Bytes
  value : Bytes
  leaf : LeafOp
  path : List InnerOp

structure NonExistenceProof where
  key : Bytes
  left : Option ExistenceProof
  right : Option ExistenceProof

/-- The batches carry nothing that is read. -/
inductive CommitmentProof where
  | exist (proof : ExistenceProof)
  | nonexist (proof : NonExistenceProof)
  | batch
  | compressedBatch

/-- The source computes `child_order.len() - 1`, which underflows for an empty order. -/
structure InnerSpec where
  childOrder : List Nat
  nonempty : childOrder ≠ [] := by decide
  childSize : Nat
  minPrefixLength : Nat
  maxPrefixLength : Nat
  emptyChild : Bytes
  hash : HashOp

structure ProofSpec where
  leafSpec : LeafOp
  innerSpec : InnerSpec
  maxDepth : Option Nat
  minDepth : Option Nat
  prehashKeyBeforeComparison : Bool

/-! ## `proof_specs.rs` -/

def IAVL_PROOF_SPEC : ProofSpec where
  leafSpec :=
    { hash := .sha256
      prehashKey := .noHash
      prehashValue := .sha256
      length := .varProto
      leafPrefix := [0] }
  innerSpec :=
    { childOrder := [0, 1]
      childSize := 33
      minPrefixLength := 4
      maxPrefixLength := 12
      emptyChild := []
      hash := .sha256 }
  maxDepth := none
  minDepth := none
  prehashKeyBeforeComparison := false

def TENDERMINT_PROOF_SPEC : ProofSpec where
  leafSpec :=
    { hash := .sha256
      prehashKey := .noHash
      prehashValue := .sha256
      length := .varProto
      leafPrefix := [0] }
  innerSpec :=
    { childOrder := [0, 1]
      childSize := 32
      minPrefixLength := 1
      maxPrefixLength := 1
      emptyChild := []
      hash := .sha256 }
  maxDepth := none
  minDepth := none
  prehashKeyBeforeComparison := false

def compatible (lhs rhs : ProofSpec) : Bool :=
  lhs.leafSpec.hash = rhs.leafSpec.hash
    ∧ lhs.leafSpec.prehashKey = rhs.leafSpec.prehashKey
    ∧ lhs.leafSpec.prehashValue = rhs.leafSpec.prehashValue
    ∧ lhs.leafSpec.length = rhs.leafSpec.length
    ∧ lhs.innerSpec.hash = rhs.innerSpec.hash
    ∧ lhs.innerSpec.minPrefixLength = rhs.innerSpec.minPrefixLength
    ∧ lhs.innerSpec.maxPrefixLength = rhs.innerSpec.maxPrefixLength
    ∧ lhs.innerSpec.childSize = rhs.innerSpec.childSize
    ∧ lhs.innerSpec.childOrder.length = rhs.innerSpec.childOrder.length

/-- `SDK_SPECS` of `ibc_api.rs`: the inner tree first. -/
def SDK_SPECS : List ProofSpec := [IAVL_PROOF_SPEC, TENDERMINT_PROOF_SPEC]

/-! ## Hash functions -/

/-- The hash functions of the crates `sha2` and `ripemd`; the size of a digest is in its type there. -/
structure Hashes where
  sha256 : Bytes → Bytes
  sha512 : Bytes → Bytes
  ripemd160 : Bytes → Bytes
  sha512_256 : Bytes → Bytes
  sha256_length : ∀ b, (sha256 b).length = 32

/-! ## Operations -/

/-! ## `hash_op.rs` -/

inductive HashError where
  | unsupportedOp (op : HashOp)
  deriving DecidableEq

def doHash (hs : Hashes) (hashOp : HashOp) (preimage : Bytes) : Except HashError Bytes :=
  match hashOp with
  | .sha256 => .ok (hs.sha256 preimage)
  | .sha512 => .ok (hs.sha512 preimage)
  | .ripemd160 => .ok (hs.ripemd160 preimage)
  | .bitcoin => .ok (hs.ripemd160 (hs.sha256 preimage))
  | .sha512256 => .ok (hs.sha512_256 preimage)
  | op => .error (.unsupportedOp op)

/-! ## `length_op.rs` -/

inductive LengthApplyError where
  | required32Bytes (found : Nat)
  | required64Bytes (found : Nat)
  | unsupportedOp (op : LengthOp)
  | tooManyDataItems (found : Nat)
  deriving DecidableEq

/-- A length as a big-endian word of `w` bytes. -/
def fixedLength (w : Nat) (data : Bytes) : Except LengthApplyError Bytes := do
  ensure (data.length < 256 ^ w) (.tooManyDataItems data.length)
  pure (beBytes w data.length)

def LengthOp.apply (lengthOp : LengthOp) (data : Bytes) : Except LengthApplyError Bytes :=
  match lengthOp with
  | .noPrefix => .ok data
  | .varProto => .ok (leb128 data.length ++ data)
  | .require32Bytes => if data.length ≠ 32 then .error (.required32Bytes data.length) else .ok data
  | .require64Bytes => if data.length ≠ 64 then .error (.required64Bytes data.length) else .ok data
  | .fixed32Big => (· ++ data) <$> fixedLength 4 data
  | .fixed32Little => (·.reverse ++ data) <$> fixedLength 4 data
  | .fixed64Big => (· ++ data) <$> fixedLength 8 data
  | .fixed64Little => (·.reverse ++ data) <$> fixedLength 8 data
  | .varRlp => .error (.unsupportedOp .varRlp)

/-! ## `ops/mod.rs` -/

inductive ValidateIavlOpsError where
  | heightTooShort (height minHeight : Int)
  | minHeightTooBig (minHeight : Nat)
  | negativeSize (size : Int)
  | negativeVersion (version : Int)
  | decode
  deriving DecidableEq

/-- The signed number of a varint: its sign is the lowest bit. -/
def signedOf (ux : Nat) : Int := (ux / 2 : Nat) * (if ux % 2 = 0 then 1 else -1)

def readVarint (buffer : Bytes) : Except ValidateIavlOpsError (Bytes × Int) := do
  let (ux, buffer) ← orErr (decodeVarint buffer) .decode
  pure (buffer, signedOf ux)

def validateIavlOps (pre : Bytes) (minHeight : Nat) : Except ValidateIavlOpsError Nat := do
  let (buffer, height) ← readVarint pre
  ensure (minHeight < 2 ^ 63) (.minHeightTooBig minHeight)
  ensure ((minHeight : Int) ≤ height) (.heightTooShort height minHeight)
  let (buffer, size) ← readVarint buffer
  ensure (0 ≤ size) (.negativeSize size)
  let (buffer, version) ← readVarint buffer
  -- the error carries the size
  ensure (0 ≤ version) (.negativeVersion size)
  pure buffer.length

/-! ## `leaf_op.rs` -/

namespace LeafOp

inductive SpecMismatchError where
  | unexpectedHashOp (op : HashOp)
  | unexpectedPrehashKey (op : HashOp)
  | unexpectedPrehashValue (op : HashOp)
  | unexpectedLengthOp (op : LengthOp)
  | badPrefix (remaining : Nat)
  | prefixMismatch (full expected : Bytes)
  | validateIavlOps (e : ValidateIavlOpsError)
  deriving DecidableEq

inductive ApplyError where
  | keyNeeded
  | valueNeeded
  | leafData (e : LengthApplyError)
  | hash (e : HashError)
  deriving DecidableEq

def checkIavlPrefix (leafOp : LeafOp) : Except SpecMismatchError Unit := do
  let remainingBytes ← (validateIavlOps leafOp.leafPrefix 0).mapError .validateIavlOps
  ensure (remainingBytes = 0) (.badPrefix remainingBytes)

def checkAgainstSpec (leafOp : LeafOp) (spec : ProofSpec) : Except SpecMismatchError Unit := do
  onlyIf (compatible spec IAVL_PROOF_SPEC) leafOp.checkIavlPrefix
  ensure (leafOp.hash = spec.leafSpec.hash) (.unexpectedHashOp spec.leafSpec.hash)
  ensure (leafOp.prehashKey = spec.leafSpec.prehashKey) (.unexpectedPrehashKey spec.leafSpec.prehashKey)
  ensure (leafOp.prehashValue = spec.leafSpec.prehashValue)
    (.unexpectedPrehashValue spec.leafSpec.prehashValue)
  ensure (leafOp.length = spec.leafSpec.length) (.unexpectedLengthOp spec.leafSpec.length)
  ensure (spec.leafSpec.leafPrefix <+: leafOp.leafPrefix)
    (.prefixMismatch leafOp.leafPrefix spec.leafSpec.leafPrefix)

variable (hs : Hashes)

def prehash (hashOp : HashOp) (data : Bytes) : Except ApplyError Bytes :=
  if hashOp = .noHash then .ok data else (doHash hs hashOp data).mapError .hash

def prepareData (leafOp : LeafOp) (hashOp : HashOp) (data : Bytes) : Except ApplyError Bytes := do
  let hashedData ← prehash hs hashOp data
  (leafOp.length.apply hashedData).mapError .leafData

def apply (leafOp : LeafOp) (key value : Bytes) : Except ApplyError Bytes := do
  ensure (key ≠ []) .keyNeeded
  ensure (value ≠ []) .valueNeeded
  let pKey ← leafOp.prepareData hs leafOp.prehashKey key
  let pValue ← leafOp.prepareData hs leafOp.prehashValue value
  (doHash hs leafOp.hash (leafOp.leafPrefix ++ pKey ++ pValue)).mapError .hash

end LeafOp

/-! ## `inner_op.rs` -/

namespace InnerOp

inductive SpecMismatchError where
  | unexpectedHashOp (op : HashOp)
  | prefixMismatch (full expected : Bytes)
  | innerOpPrefixTooShort (prefixLen minLen : Nat)
  | innerOpPrefixTooLong (prefixLen maxLen : Nat)
  | innerOpSuffixMalformed (suffixLen : Nat)
  | validateIavlOps (e : ValidateIavlOpsError)
  | badPrefix (remaining : Nat)
  deriving DecidableEq

inductive ApplyError where
  | innerOpNeedsChildValue
  | hash (e : HashError)
  deriving DecidableEq

def checkIavlPrefix (innerOp : InnerOp) (b : Nat) : Except SpecMismatchError Unit := do
  let remaining ← (validateIavlOps innerOp.innerPrefix b).mapError .validateIavlOps
  ensure (remaining = 1 ∨ remaining = 34) (.badPrefix remaining)
  ensure (innerOp.hash = .sha256) (.unexpectedHashOp innerOp.hash)

def checkAgainstSpec (innerOp : InnerOp) (spec : ProofSpec) (b : Nat) : Except SpecMismatchError Unit := do
  ensure (innerOp.hash = spec.innerSpec.hash) (.unexpectedHashOp innerOp.hash)
  onlyIf (compatible spec IAVL_PROOF_SPEC) (innerOp.checkIavlPrefix b)
  ensure (¬ spec.leafSpec.leafPrefix <+: innerOp.innerPrefix)
    (.prefixMismatch innerOp.innerPrefix spec.leafSpec.leafPrefix)
  ensure (spec.innerSpec.minPrefixLength ≤ innerOp.innerPrefix.length)
    (.innerOpPrefixTooShort innerOp.innerPrefix.length spec.innerSpec.minPrefixLength)
  let maxPrefixLength := spec.innerSpec.maxPrefixLength + (spec.innerSpec.childOrder.length - 1) *
    spec.innerSpec.childSize
  ensure (innerOp.innerPrefix.length ≤ maxPrefixLength)
    (.innerOpPrefixTooLong innerOp.innerPrefix.length spec.innerSpec.maxPrefixLength)
  ensure (spec.innerSpec.childSize ∣ innerOp.suffix.length) (.innerOpSuffixMalformed innerOp.suffix.length)

def apply (hs : Hashes) (innerOp : InnerOp) (child : Bytes) : Except ApplyError Bytes := do
  ensure (child ≠ []) .innerOpNeedsChildValue
  (doHash hs innerOp.hash (innerOp.innerPrefix ++ child ++ innerOp.suffix)).mapError .hash

end InnerOp

end UnionVoyager.Ics23
