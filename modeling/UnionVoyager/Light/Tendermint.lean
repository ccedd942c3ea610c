import UnionVoyager.Light.Types

/-!
# The tendermint light client

`lib/tendermint-verifier` (`verify.rs`, `utils.rs`) with the types of `cometbft-types` it reads, and
`verify_header` of `cosmwasm/lightclient/tendermint/src/client.rs`, which calls it.

The protobuf encoders of `prost` (`Codec`), `sha256`, and the signature checks of the host
(`HostFns`) are parameters. The closure that `verify_commit` calls is a function on an explicit
state.
-/

namespace UnionVoyager.Light.Tendermint

open Lib

inductive PublicKey where
  | ed25519 (key : Bytes)
  | secp256k1 (key : Bytes)
  | bls12381 (key : Bytes)
  | bn254 (key : Bytes)

structure Validator where
  address : H160
  pubKey : PublicKey
  votingPower : BoundedI64
  proposerPriority : Int

/-- What of a validator goes into the hash of its set. -/
structure SimpleValidator where
  pubKey : PublicKey
  votingPower : Nat

structure ValidatorSet where
  validators : List Validator
  proposer : Validator
  totalVotingPower : Int

structure PartSetHeader where
  total : UInt32
  hash : Option H256
  deriving DecidableEq

structure BlockId where
  hash : Option H256
  partSetHeader : PartSetHeader
  deriving DecidableEq

def BlockId.default : BlockId := ⟨none, ⟨0, none⟩⟩

inductive CommitSig where
  | absent
  | commit (validatorAddress : H160) (timestamp : Timestamp) (signature : Bytes)
  | nil (validatorAddress : H160) (timestamp : Timestamp) (signature : Bytes)

structure Commit where
  height : BoundedI64
  round : BoundedI32
  blockId : BlockId
  signatures : List CommitSig

structure Consensus where
  block : UInt64
  app : UInt64

/-- `cometbft_types::types::header::Header`. -/
structure BlockHeader where
  version : Consensus
  chainId : String
  height : BoundedI64
  time : Timestamp
  lastBlockId : BlockId
  lastCommitHash : H256
  dataHash : H256
  validatorsHash : H256
  nextValidatorsHash : H256
  consensusHash : H256
  appHash : H256
  lastResultsHash : H256
  evidenceHash : H256
  proposerAddress : H160

structure SignedHeader where
  header : BlockHeader
  commit : Commit

inductive SignedMsgType where
  | unknown
  | prevote
  | precommit
  | proposal

structure CanonicalPartSetHeader where
  total : UInt32
  hash : H256

structure CanonicalBlockId where
  hash : H256
  partSetHeader : CanonicalPartSetHeader

structure CanonicalVote where
  ty : SignedMsgType
  height : BoundedI64
  round : BoundedI64
  blockId : CanonicalBlockId
  chainId : String
  timestamp : Timestamp

/-- The protobuf encodings that are hashed or signed; that of a vote is length delimited. -/
structure Codec where
  consensus : Consensus → Bytes
  stringValue : String → Bytes
  int64Value : Nat → Bytes
  timestamp : Timestamp → Bytes
  blockId : BlockId → Bytes
  bytesValue : Bytes → Bytes
  simpleValidator : SimpleValidator → Bytes
  canonicalVote : CanonicalVote → Bytes

/-- `trait HostFns`. -/
structure HostFns where
  verifySignature : PublicKey → Bytes → Bytes → Bool
  verifyBatchSignature : List PublicKey → List Bytes → List Bytes → Bool

inductive Error where
  | integerOverflow
  | invalidHeader
  | headersMustBeNonAdjacent
  | headersMustBeAdjacent
  | headerExpired (trustingPeriod : Duration) (headerTimestamp : Timestamp)
  | chainIdMismatch (untrustedHeaderChainId trustedHeaderChainId : String)
  | signedHeaderCommitHeightMismatch (shHeight commitHeight : Nat)
  | signedHeaderCommitHashMismatch (shHash commitHash : H256)
  | untrustedHeaderHeightIsLE (untrustedHeaderHeight trustedHeaderHeight : Nat)
  | untrustedHeaderTimestampIsLE (untrustedHeaderTimestamp trustedHeaderTimestamp : Timestamp)
  | untrustedValidatorSetMismatch (expected found : H256)
  | invalidIndexInValidatorSet (index valLen : Nat)
  | doubleVote (validatorAddress : H160)
  | notEnoughVotingPower (have_ need : Nat)
  | signatureVerification
  | maxClockDriftCheckFailed (maxClockDrift : Duration) (timestamp : Timestamp)
  | nextValidatorsHashMismatch (nextValidatorsHash validatorsHash : H256)
  | invalidCommitSignaturesLength (sigLen valLen : Nat)
  | invalidCommitHeight (commitHeight height : Nat)
  | invalidCommitBlockId (commitBlockId blockId : BlockId)
  | negativeVotingPower (power : Int)
  | missingBlockIdHash

/-! ## `utils.rs` -/

section Verifier

variable (codec : Codec) (sha256 : Bytes → H256) (host : HostFns)

/-- The vote a commit signature signs, before it is encoded. -/
def toCanonicalVote (commit : Commit) (commitSig : CommitSig) (timestamp : Timestamp) (chainId : String) :
    Except Error CanonicalVote := do
  let blockId := match commitSig with
    | .absent => BlockId.default
    | .commit .. => commit.blockId
    | .nil .. => BlockId.default
  let hash ← orErr blockId.hash .missingBlockIdHash
  let partsHash ← orErr blockId.partSetHeader.hash .missingBlockIdHash
  pure {
    ty := .precommit
    height := commit.height
    round := ⟨commit.round.inner, Nat.lt_trans commit.round.lt (by decide)⟩
    blockId := ⟨hash, ⟨blockId.partSetHeader.total, partsHash⟩⟩
    chainId
    timestamp }

def canonicalVote (commit : Commit) (commitSig : CommitSig) (timestamp : Timestamp) (chainId : String) :
    Except Error Bytes := do
  pure (codec.canonicalVote (← toCanonicalVote commit commitSig timestamp chainId))

/-- The first validator with this address, and its index. -/
def getValidatorByAddress (vals : ValidatorSet) (address : H160) : Option (Nat × Validator) :=
  let found := vals.validators.findIdx (fun val => val.address == address)
  (vals.validators[found]?).map fun val => (found, val)

def validatorsHash (validatorSet : ValidatorSet) : H256 :=
  calculateMerkleRoot sha256 (validatorSet.validators.map fun validator =>
    codec.simpleValidator ⟨validator.pubKey, validator.votingPower.inner⟩)

/-- The check is switched off in the source. -/
def headerExpired (_h : SignedHeader) (_trustingPeriod : Duration) (_now : Timestamp) : Bool := false

/-- `Header::calculate_merkle_root`; the conversion to the protobuf header fills every field, so
    its `?`s never fail. -/
def BlockHeader.calculateMerkleRoot (h : BlockHeader) : Option H256 :=
  let leaf := leafHash sha256
  let inner := innerHash sha256
  let l0 := leaf (codec.consensus h.version)
  let l1 := leaf (codec.stringValue h.chainId)
  let l2 := leaf (codec.int64Value h.height.inner)
  let l3 := leaf (codec.timestamp h.time)
  let l4 := leaf (codec.blockId h.lastBlockId)
  let l5 := leaf (codec.bytesValue h.lastCommitHash)
  let l6 := leaf (codec.bytesValue h.dataHash)
  let l7 := leaf (codec.bytesValue h.validatorsHash)
  let l8 := leaf (codec.bytesValue h.nextValidatorsHash)
  let l9 := leaf (codec.bytesValue h.consensusHash)
  let l10 := leaf (codec.bytesValue h.appHash)
  let l11 := leaf (codec.bytesValue h.lastResultsHash)
  let l12 := leaf (codec.bytesValue h.evidenceHash)
  let l13 := leaf (codec.bytesValue h.proposerAddress)
  let left := inner (inner (inner l0 l1) (inner l2 l3)) (inner (inner l4 l5) (inner l6 l7))
  let right := inner (inner (inner l8 l9) (inner l10 l11)) (inner l12 l13)
  some (inner left right)

def BlockHeader.encodedFields (h : BlockHeader) : List Bytes :=
  [codec.consensus h.version, codec.stringValue h.chainId, codec.int64Value h.height.inner,
    codec.timestamp h.time, codec.blockId h.lastBlockId] ++
    [h.lastCommitHash, h.dataHash, h.validatorsHash, h.nextValidatorsHash, h.consensusHash, h.appHash,
      h.lastResultsHash, h.evidenceHash, h.proposerAddress].map codec.bytesValue

/-- **The loop of `calculate_merkle_root` and the fourteen leaves of a header give the root of RFC 6962.** -/
theorem merkle_roots (hempty : sha256 [] = EMPTY_SHA256) :
    (∀ leaves, calculateMerkleRootInPlace sha256 leaves = some (merkleTreeHash sha256 leaves)) ∧
    ∀ h : BlockHeader, h.calculateMerkleRoot codec sha256 =
      some (merkleTreeHash sha256 (h.encodedFields codec)) := by
  constructor
  · intro leaves
    rw [calculateMerkleRootInPlace_eq, calculateMerkleRoot_eq_merkleTreeHash hempty]
  · intro h
    have hroot := iterate_eq_splitRoot (innerHash sha256) (sha256 [])
      ((h.encodedFields codec).map (leafHash sha256)) 4 nofun (show 14 ≤ 2 ^ 4 by decide)
    exact congrArg List.head? hroot

/-! ## Counting a commit -/

/-- Only signatures for the block count. -/
def filterCommit : CommitSig → Option (H160 × Timestamp × Bytes)
  | .commit validatorAddress timestamp signature => some (validatorAddress, timestamp, signature)
  | _ => none

/-- What the loop of `verify_commit` carries from one signature to the next. -/
structure Tally (σ : Type) where
  talliedVotingPower : Nat
  seenVals : List Nat
  handle : σ

/-- The validator a signature is counted for: the one at the same index, or the one the signature
    names, unless that one was counted before.  `none` is the `continue` of an unknown address. -/
def findSigner {σ : Type} (vals : ValidatorSet) (lookupByIndex : Bool) (i : Nat)
    (validatorAddress : H160) (t : Tally σ) : Except Error (Option (Nat × Validator × List Nat)) :=
  if lookupByIndex then do
    let val ← orErr vals.validators[i]? (.invalidIndexInValidatorSet i vals.validators.length)
    pure (some (i, val, t.seenVals))
  else
    match getValidatorByAddress vals validatorAddress with
    | none => pure none
    | some (valIdx, val) => do
      ensure (valIdx ∉ t.seenVals) (.doubleVote validatorAddress)
      pure (some (valIdx, val, valIdx :: t.seenVals))

/-- The loop of `verify_commit` from the `i`-th signature on.  It returns as soon as enough power has
    signed; the sum is an `u64`. -/
def verifyCommitFrom {σ : Type} (chainId : String) (vals : ValidatorSet) (commit : Commit)
    (votingPowerNeeded : Nat) (lookupByIndex : Bool)
    (signatureHandle : σ → PublicKey → Bytes → Bytes → Except Error σ) :
    Nat → List CommitSig → Tally σ → Except Error σ
  | _, [], t => .error (.notEnoughVotingPower t.talliedVotingPower votingPowerNeeded)
  | i, commitSig :: rest, t =>
    match filterCommit commitSig with
    | none => verifyCommitFrom chainId vals commit votingPowerNeeded lookupByIndex signatureHandle
        (i + 1) rest t
    | some (validatorAddress, timestamp, signature) => do
      match ← findSigner vals lookupByIndex i validatorAddress t with
      | none =>
        verifyCommitFrom chainId vals commit votingPowerNeeded lookupByIndex signatureHandle (i + 1) rest t
      | some (_, val, seenVals) =>
        let voteSignBytes ← canonicalVote codec commit commitSig timestamp chainId
        let handle ← signatureHandle t.handle val.pubKey voteSignBytes signature
        let tallied := (t.talliedVotingPower + val.votingPower.inner) % 2 ^ 64
        if votingPowerNeeded < tallied then pure handle
        else
          verifyCommitFrom chainId vals commit votingPowerNeeded lookupByIndex signatureHandle (i + 1) rest
            ⟨tallied, seenVals, handle⟩

def verifyCommit {σ : Type} (chainId : String) (vals : ValidatorSet) (commit : Commit)
    (votingPowerNeeded : Nat) (lookupByIndex : Bool)
    (signatureHandle : σ → PublicKey → Bytes → Bytes → Except Error σ) (init : σ) : Except Error σ :=
  verifyCommitFrom codec chainId vals commit votingPowerNeeded lookupByIndex signatureHandle 0
    commit.signatures ⟨0, [], init⟩

/-- The closure of `verify_commit_single`. -/
def checkSignature (_ : Unit) (pubkey : PublicKey) (msg signature : Bytes) : Except Error Unit :=
  ensure (host.verifySignature pubkey msg signature = true) .signatureVerification

def verifyCommitSingle (chainId : String) (vals : ValidatorSet) (commit : Commit)
    (votingPowerNeeded : Nat) (lookupByIndex : Bool) : Except Error Unit :=
  verifyCommit codec chainId vals commit votingPowerNeeded lookupByIndex (checkSignature host) ()

/-- What `verify_commit_batch` collects: `pubkeys`, `msgs` and `signatures`, in step. -/
abbrev Collected := List (PublicKey × Bytes × Bytes)

/-- The closure of `verify_commit_batch`. -/
def pushSignature (collected : Collected) (pubkey : PublicKey) (msg signature : Bytes) :
    Except Error Collected := .ok (collected ++ [(pubkey, msg, signature)])

def verifyCommitBatch (chainId : String) (vals : ValidatorSet) (commit : Commit)
    (votingPowerNeeded : Nat) (lookupByIndex : Bool) : Except Error Unit := do
  let collected ← verifyCommit codec chainId vals commit votingPowerNeeded lookupByIndex pushSignature []
  ensure (host.verifyBatchSignature (collected.map (·.1)) (collected.map (·.2.1))
    (collected.map (·.2.2)) = true) .signatureVerification

def shouldBatchVerify (signaturesLen : Nat) : Bool := 2 ≤ signaturesLen

/-- The end of both `verify_commit_light` and `verify_commit_light_trusting`. -/
def verifyCommitPower (chainId : String) (vals : ValidatorSet) (commit : Commit)
    (votingPowerNeeded : Nat) (lookupByIndex : Bool) : Except Error Unit :=
  if shouldBatchVerify commit.signatures.length then
    verifyCommitBatch codec host chainId vals commit votingPowerNeeded lookupByIndex
  else verifyCommitSingle codec host chainId vals commit votingPowerNeeded lookupByIndex

def verifyBasicValsAndCommit (vals : ValidatorSet) (commit : Commit) (height : BoundedI64)
    (blockId : BlockId) : Except Error Unit := do
  ensure (vals.validators.length = commit.signatures.length)
    (.invalidCommitSignaturesLength commit.signatures.length vals.validators.length)
  ensure (height.inner = commit.height.inner) (.invalidCommitHeight commit.height.inner height.inner)
  ensure (blockId = commit.blockId) (.invalidCommitBlockId commit.blockId blockId)

/-- `u64::checked_mul`. -/
def checkedMulU64 (a b : Nat) : Option Nat := if a * b < 2 ^ 64 then some (a * b) else none

def verifyCommitLight (vals : ValidatorSet) (chainId : String) (blockId : BlockId)
    (height : BoundedI64) (commit : Commit) : Except Error Unit := do
  verifyBasicValsAndCommit vals commit height blockId
  ensure (0 ≤ vals.totalVotingPower) (.negativeVotingPower vals.totalVotingPower)
  let doubled ← orErr (checkedMulU64 vals.totalVotingPower.toNat 2) .integerOverflow
  verifyCommitPower codec host chainId vals commit (doubled / 3) true

/-- The signers of this commit need not be the given validators in order, so they are looked up by
    address. -/
def verifyCommitLightTrusting (chainId : String) (vals : ValidatorSet) (commit : Commit)
    (trustLevel : Fraction) : Except Error Unit := do
  let power ← orErr (checkedMulU64 vals.totalVotingPower.natAbs trustLevel.numerator) .integerOverflow
  verifyCommitPower codec host chainId vals commit (power / trustLevel.denominator) false

/-! ## `verify` -/

def verifyNewHeadersAndVals (untrustedHeader : SignedHeader) (untrustedVals : ValidatorSet)
    (trustedHeader : SignedHeader) (now : Timestamp) (maxClockDrift : Duration) : Except Error Unit := do
  ensure (untrustedHeader.commit.height = untrustedHeader.header.height)
    (.signedHeaderCommitHeightMismatch untrustedHeader.header.height.inner
      untrustedHeader.commit.height.inner)
  let untrustedHeaderHash ← orErr (untrustedHeader.header.calculateMerkleRoot codec sha256) .invalidHeader
  let commitHash ← orErr untrustedHeader.commit.blockId.hash .missingBlockIdHash
  ensure (untrustedHeaderHash = commitHash) (.signedHeaderCommitHashMismatch untrustedHeaderHash commitHash)
  ensure (untrustedHeader.header.chainId = trustedHeader.header.chainId)
    (.chainIdMismatch untrustedHeader.header.chainId trustedHeader.header.chainId)
  ensure (trustedHeader.header.height.inner < untrustedHeader.header.height.inner)
    (.untrustedHeaderHeightIsLE untrustedHeader.header.height.inner trustedHeader.header.height.inner)
  ensure (trustedHeader.header.time < untrustedHeader.header.time)
    (.untrustedHeaderTimestampIsLE untrustedHeader.header.time trustedHeader.header.time)
  let driftTimestamp ← orErr (now.checkedAdd maxClockDrift) (.maxClockDriftCheckFailed maxClockDrift now)
  ensure (untrustedHeader.header.time < driftTimestamp)
    (.maxClockDriftCheckFailed maxClockDrift untrustedHeader.header.time)
  let untrustedValidatorsHash := validatorsHash codec sha256 untrustedVals
  ensure (untrustedHeader.header.validatorsHash = untrustedValidatorsHash)
    (.untrustedValidatorSetMismatch untrustedHeader.header.validatorsHash untrustedValidatorsHash)

/-- `height.inner().checked_add(1)` over an `i64`. -/
def nextHeight (h : SignedHeader) : Except Error Nat :=
  orErr (if h.header.height.inner + 1 < 2 ^ 63 then some (h.header.height.inner + 1) else none)
    .integerOverflow

def verifyNonAdjacent (trustedHeader : SignedHeader) (trustedVals : ValidatorSet)
    (untrustedHeader : SignedHeader) (untrustedVals : ValidatorSet) (trustingPeriod : Duration)
    (now : Timestamp) (maxClockDrift : Duration) (trustLevel : Fraction) : Except Error Unit := do
  let next ← nextHeight trustedHeader
  ensure (untrustedHeader.header.height.inner ≠ next) .headersMustBeNonAdjacent
  ensure (headerExpired trustedHeader trustingPeriod now = false)
    (.headerExpired trustingPeriod trustedHeader.header.time)
  verifyNewHeadersAndVals codec sha256 untrustedHeader untrustedVals trustedHeader now maxClockDrift
  verifyCommitLightTrusting codec host trustedHeader.header.chainId trustedVals
    untrustedHeader.commit trustLevel
  verifyCommitLight codec host untrustedVals trustedHeader.header.chainId untrustedHeader.commit.blockId
    untrustedHeader.header.height untrustedHeader.commit

def verifyAdjacent (trustedHeader untrustedHeader : SignedHeader) (untrustedVals : ValidatorSet)
    (trustingPeriod : Duration) (now : Timestamp) (maxClockDrift : Duration) : Except Error Unit := do
  let next ← nextHeight trustedHeader
  ensure (untrustedHeader.header.height.inner = next) .headersMustBeAdjacent
  ensure (headerExpired trustedHeader trustingPeriod now = false)
    (.headerExpired trustingPeriod trustedHeader.header.time)
  verifyNewHeadersAndVals codec sha256 untrustedHeader untrustedVals trustedHeader now maxClockDrift
  ensure (untrustedHeader.header.validatorsHash = trustedHeader.header.nextValidatorsHash)
    (.nextValidatorsHashMismatch untrustedHeader.header.nextValidatorsHash
      trustedHeader.header.nextValidatorsHash)
  verifyCommitLight codec host untrustedVals trustedHeader.header.chainId untrustedHeader.commit.blockId
    untrustedHeader.header.height untrustedHeader.commit

/-- `verify`: adjacency is in terms of block height. -/
def verify (trustedHeader : SignedHeader) (trustedVals : ValidatorSet)
    (untrustedHeader : SignedHeader) (untrustedVals : ValidatorSet) (trustingPeriod : Duration)
    (now : Timestamp) (maxClockDrift : Duration) (trustLevel : Fraction) : Except Error Unit := do
  let next ← nextHeight trustedHeader
  if untrustedHeader.header.height.inner ≠ next then
    verifyNonAdjacent codec sha256 host trustedHeader trustedVals untrustedHeader untrustedVals trustingPeriod
      now maxClockDrift trustLevel
  else
    verifyAdjacent codec sha256 host trustedHeader untrustedHeader untrustedVals trustingPeriod now
      maxClockDrift

end Verifier

/-! ## The client -/

structure ClientState where
  chainId : String
  trustLevel : Fraction
  trustingPeriod : Duration
  maxClockDrift : Duration
  latestHeight : Height
  deriving DecidableEq

structure ConsensusState where
  timestamp : Timestamp
  root : H256
  nextValidatorsHash : H256
  deriving DecidableEq

/-- `tendermint_light_client_types::Header`, all of it chosen by whoever submits it. -/
structure Header where
  signedHeader : SignedHeader
  validatorSet : ValidatorSet
  trustedHeight : Height
  trustedValidators : ValidatorSet

/-- The `Error` of the client. -/
inductive ClientError where
  | mathOverflow
  | trustedValidatorsMismatch (found saved : H256)
  | invalidChainId (chainId : String)
  | revisionNumberMismatch (trustedRevisionNumber headerRevisionNumber : Nat)
  | signedHeaderHeightMustBeMoreRecent (signedHeight trustedHeight : Nat)
  | ibcHeightTooLargeForTendermintHeight (height : Nat)
  | tendermintVerify (error : Error)

structure StateUpdate where
  height : Nat
  consensusState : ConsensusState
  clientState : Option ClientState

/-- The fold of `set_total_voting_power`: a `checked_add` of `i64`s. -/
def sumVotingPower : List Validator → Nat → Except ClientError Nat
  | [], acc => .ok acc
  | val :: vals, acc =>
    if acc + val.votingPower.inner < 2 ^ 63 then sumVotingPower vals (acc + val.votingPower.inner)
    else .error .mathOverflow

def setTotalVotingPower (validatorSet : ValidatorSet) : Except ClientError ValidatorSet := do
  let total ← sumVotingPower validatorSet.validators 0
  pure { validatorSet with totalVotingPower := total }

/-- `str::parse::<u64>`: decimal digits after an optional `+`. -/
def parseU64 (s : List Char) : Option Nat :=
  let digits := match s with
    | '+' :: rest => rest
    | _ => s
  if digits ≠ [] ∧ digits.all Char.isDigit then
    let n := digits.foldl (fun n c => 10 * n + (c.toNat - '0'.toNat)) 0
    if n < 2 ^ 64 then some n else none
  else none

/-- What follows the last `-` of the chain id. -/
def parseRevisionNumber (chainId : String) : Option Nat :=
    parseU64 (chainId.toList.reverse.takeWhile (· ≠ '-')).reverse

def zeroHash : H256 := List.replicate 32 0

/-- The stored consensus state as a header that only carries what `verify` reads of it. -/
def constructPartialHeader (chainId : String) (height : BoundedI64) (time : Timestamp)
    (nextValidatorsHash : H256) : SignedHeader where
  header := {
    chainId, height, time, nextValidatorsHash
    version := ⟨0, 0⟩
    lastBlockId := BlockId.default
    lastCommitHash := zeroHash
    dataHash := zeroHash
    validatorsHash := zeroHash
    consensusHash := zeroHash
    appHash := zeroHash
    lastResultsHash := zeroHash
    evidenceHash := zeroHash
    proposerAddress := List.replicate 20 0 }
  commit := { height, round := .ofNat 0, blockId := BlockId.default, signatures := [] }

section Client

variable (codec : Codec) (sha256 : Bytes → H256) (host : HostFns)

def checkTrustedHeader (trustedValidators : ValidatorSet) (nextValidatorsHash : H256) :
    Except ClientError Unit :=
  ensure (validatorsHash codec sha256 trustedValidators = nextValidatorsHash)
    (.trustedValidatorsMismatch (validatorsHash codec sha256 trustedValidators) nextValidatorsHash)

/-- `i64::try_from` of the trusted height. -/
def tendermintHeight (h : Height) : Except ClientError BoundedI64 :=
  if lt : h.height < 2 ^ 63 then .ok ⟨h.height, lt⟩
  else .error (.ibcHeightTooLargeForTendermintHeight h.height)

def verifyHeader (clientState : ClientState) (consensusState : ConsensusState) (header : Header)
    (blockTimestamp : UInt64) : Except ClientError StateUpdate := do
  let validatorSet ← setTotalVotingPower header.validatorSet
  let trustedValidators ← setTotalVotingPower header.trustedValidators
  checkTrustedHeader codec sha256 trustedValidators consensusState.nextValidatorsHash
  let block := header.signedHeader.header
  let revisionNumber ← orErr (parseRevisionNumber block.chainId) (.invalidChainId block.chainId)
  ensure (revisionNumber = header.trustedHeight.revision)
    (.revisionNumberMismatch revisionNumber header.trustedHeight.revision)
  ensure (header.trustedHeight.height < block.height.inner)
    (.signedHeaderHeightMustBeMoreRecent block.height.inner header.trustedHeight.height)
  let now := (Timestamp.ofCosmwasm blockTimestamp).get (Timestamp.ofCosmwasm_isSome blockTimestamp)
  let trustedHeight ← tendermintHeight header.trustedHeight
  (verify codec sha256 host
    (constructPartialHeader clientState.chainId trustedHeight consensusState.timestamp
      consensusState.nextValidatorsHash)
    trustedValidators header.signedHeader validatorSet clientState.trustingPeriod now
    clientState.maxClockDrift clientState.trustLevel).mapError .tendermintVerify
  let updateHeight := block.height.inner
  pure {
    height := updateHeight
    consensusState := ⟨block.time, block.appHash, block.nextValidatorsHash⟩
    clientState :=
      if clientState.latestHeight.height < updateHeight then
        some { clientState with
          latestHeight := {
            clientState.latestHeight with
            height := updateHeight
            height_lt := Nat.lt_trans block.height.lt (by decide) } }
      else none }

end Client

end UnionVoyager.Light.Tendermint
