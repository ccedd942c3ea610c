import UnionVoyager.Light.Types

/-!
# The gno light client

`lib/gno-verifier` (`verify.rs`, `utils.rs`) with the types of `gno-types` it reads, and `verify_header`
of `cosmwasm/lightclient/gno/src/client.rs`, which calls it.

Nothing here computes a hash of the header: `Header::calculate_merkle_root` is commented out in the
source.  Outside the repository are the encoders of `prost` (`Codec`), `sha256` and the signature check.
-/

namespace UnionVoyager.Light.Gno

open Lib

/-- `Bech32<H160>`: an address with its human readable part. -/
structure Bech32 where
  hrp : String
  data : H160
  deriving DecidableEq

inductive PublicKey where
  | ed25519 (key : Bytes)
  | secp256k1 (key : Bytes)
  | multisig (k : UInt64) (pubKeys : List PublicKey)

structure Validator where
  address : Bech32
  pubKey : PublicKey
  votingPower : BoundedI64
  proposerPriority : Int

structure ValidatorSet where
  validators : List Validator
  proposer : Validator

structure PartSetHeader where
  total : UInt32
  hash : Option H256
  deriving DecidableEq

structure BlockId where
  hash : Option H256
  partsHeader : PartSetHeader
  deriving DecidableEq

def PartSetHeader.default : PartSetHeader := ⟨0, none⟩

def BlockId.default : BlockId := ⟨none, .default⟩

def PartSetHeader.isZero (p : PartSetHeader) : Bool := p.total == 0 && p.hash.isNone

def BlockId.isZero (b : BlockId) : Bool := b.hash.isNone && b.partsHeader.isZero

inductive SignedMsgType where
  | prevote
  | precommit
  | proposal
  deriving DecidableEq

/-- `BoundedI32<-1, { i32::MAX }>`. -/
structure Round where
  inner : Int
  bounds : -1 ≤ inner ∧ inner < 2 ^ 31
  deriving DecidableEq

def Round.ZERO : Round := ⟨0, by decide⟩

structure Vote where
  ty : SignedMsgType
  height : BoundedI64
  round : Round
  blockId : BlockId
  timestamp : Timestamp
  validatorAddress : Bech32
  validatorIndex : Int
  signature : Bytes
  deriving DecidableEq

structure Commit where
  blockId : BlockId
  precommits : List (Option Vote)

/-- `gno_types::Header`. -/
structure BlockHeader where
  version : String
  chainId : String
  height : BoundedI64
  time : Timestamp
  numTxs : BoundedI64
  totalTxs : BoundedI64
  appVersion : String
  lastBlockId : BlockId
  lastCommitHash : Option H256
  dataHash : Option H256
  validatorsHash : H256
  nextValidatorsHash : H256
  consensusHash : H256
  appHash : Option H256
  lastResultsHash : Option H256
  proposerAddress : Bech32

structure SignedHeader where
  header : BlockHeader
  commit : Commit

structure CanonicalPartSetHeader where
  hash : Bytes
  total : Int

structure CanonicalBlockId where
  hash : Bytes
  partsHeader : Option CanonicalPartSetHeader

structure CanonicalVote where
  ty : SignedMsgType
  height : BoundedI64
  round : Round
  blockId : Option CanonicalBlockId
  timestamp : Timestamp
  chainId : String

/-- The encodings that are hashed or signed: a validator by the type url and the bytes of its key and
    its power, a vote length delimited. -/
structure Codec where
  validator : String → Bytes → Nat → Bytes
  canonicalVote : CanonicalVote → Bytes

inductive CommitValidateBasicError where
  | nilBlock
  | noPrecommits
  | invalidVote (ty : SignedMsgType)
  | invalidPrecommitHeight (expected got : BoundedI64)
  | invalidPrecommitRound (expected got : Round)
  deriving DecidableEq

/-- `VerifyLightCommitError` and `TrustedValidatorsVerifyCommitError`, whose variants overlap; `panic` is a
    `panic!`, `expect` or `todo!` of the source. -/
inductive CommitError where
  | commitValidateBasic (error : CommitValidateBasicError)
  | invalidCommitHeight (expected actual : BoundedI64)
  | invalidBlockId (want got : BlockId)
  | invalidSignature (vote : Vote)
  | insufficientTrustedVotingPower (got min : Int)
  | votingPowerOverflow
  | invalidCommitPrecommits (expected actual : Nat)
  | tooMuchChange (got needed : Int)
  | panic (message : String)
  deriving DecidableEq

inductive VerifyNewHeaderAndValsError where
  | newHeaderHeightMustBeGreater (untrustedHeaderHeight trustedHeaderHeight : BoundedI64)
  | newHeaderTimeMustBeGreater (untrustedHeaderTime trustedHeaderTime : Timestamp)
  | newHeaderFromFuture (untrustedHeaderTime now : Timestamp) (maxClockDrift : Duration)
  | untrustedValidatorSetMismatch (headerHash foundHash : H256) (untrustedHeaderHeight : BoundedI64)
  | panic (message : String)

inductive Error where
  | integerOverflow
  | headerExpired (trustingPeriod : Duration) (headerTimestamp : Timestamp)
  | headersMustBeNonAdjacent
  | headersMustBeAdjacent
  | verifyNewHeaderAndVals (error : VerifyNewHeaderAndValsError)
  | verifyLightCommit (error : CommitError)
  | trustedValidatorsVerifyCommit (error : CommitError)
  | nextValidatorsHashMismatch (nextValidatorsHash validatorsHash : H256)

/-! ## Votes and commits -/

/-- `as i32` of an `u32`. -/
def castI32 (n : UInt32) : Int := if n.toNat < 2 ^ 31 then n.toNat else (n.toNat : Int) - 2 ^ 32

def canonicalizePartSetHeader (p : PartSetHeader) : CanonicalPartSetHeader where
  hash := p.hash.getD []
  total := castI32 p.total

def canonicalizeBlockId (b : BlockId) : CanonicalBlockId where
  hash := b.hash.getD []
  partsHeader := if b.partsHeader = .default then none else some (canonicalizePartSetHeader b.partsHeader)

def canonicalizeVote (chainId : String) (vote : Vote) : CanonicalVote where
  ty := vote.ty
  height := vote.height
  round := vote.round
  blockId := if vote.blockId = .default then none else some (canonicalizeBlockId vote.blockId)
  timestamp := vote.timestamp
  chainId

/-- The height of the first precommit, if that one is there. -/
def Commit.height (c : Commit) : BoundedI64 :=
  match c.precommits with
  | some vote :: _ => vote.height
  | _ => .ofNat 0

def Commit.round (c : Commit) : Round :=
  match c.precommits with
  | some vote :: _ => vote.round
  | _ => .ZERO

/-- The loop of `validate_basic`. -/
def validatePrecommits (height : BoundedI64) (round : Round) : List (Option Vote) →
      Except CommitValidateBasicError Unit
  | [] => .ok ()
  | none :: rest => validatePrecommits height round rest
  | some precommit :: rest => do
    ensure (precommit.ty = .precommit) (.invalidVote precommit.ty)
    ensure (precommit.height = height) (.invalidPrecommitHeight height precommit.height)
    ensure (precommit.round = round) (.invalidPrecommitRound round precommit.round)
    validatePrecommits height round rest

def Commit.validateBasic (c : Commit) : Except CommitValidateBasicError Unit :=
  if c.blockId.isZero ∧ c.precommits.isEmpty then .ok ()
  else if c.blockId.isZero then .error .nilBlock
  else if c.precommits.isEmpty then .error .noPrecommits
  else validatePrecommits c.height c.round c.precommits

/-- `get_vote`, for a precommit of this commit and its index. -/
def Commit.getVote (c : Commit) (valIdx : Nat) (commitSig : Vote) : Vote where
  ty := .precommit
  height := c.height
  round := c.round
  blockId := commitSig.blockId
  timestamp := commitSig.timestamp
  validatorAddress := commitSig.validatorAddress
  validatorIndex := valIdx
  signature := commitSig.signature

/-! ## Validator sets -/

/-- `GetByAddress`: the first validator with this address, and its index. -/
def ValidatorSet.getByAddress (vals : ValidatorSet) (validatorAddress : Bech32) : Option (Nat × Validator) :=
  let found := vals.validators.findIdx (fun val => val.address == validatorAddress)
  (vals.validators[found]?).map fun val => (found, val)

def I64_MAX : Int := 2 ^ 63 - 1

def MAX_TOTAL_VOTING_POWER : Int := I64_MAX / 8

/-- `fold(0, saturating_add)` over the powers. -/
def saturatingSum : List Validator → Int → Int
  | [], acc => acc
  | val :: vals, acc => saturatingSum vals (min (acc + val.votingPower.inner) I64_MAX)

def ValidatorSet.totalVotingPower (vals : ValidatorSet) : Except CommitError Int := do
  let sum := saturatingSum vals.validators 0
  ensure (sum ≤ MAX_TOTAL_VOTING_POWER)
    (.panic "Total voting power should be guarded to not exceed the maximum")
  pure sum

/-- Addition of `i64`s in a release build. -/
def wrapI64 (n : Int) : Int := n.bmod (2 ^ 64)

/-- `as i64` of an `u64`. -/
def castI64 (n : Nat) : Int := wrapI64 n

/-- `i64::checked_mul`. -/
def checkedMulI64 (a b : Int) : Option Int := if -2 ^ 63 ≤ a * b ∧ a * b ≤ I64_MAX then some (a * b) else none

section Verifier

variable (codec : Codec) (sha256 : Bytes → H256) (verifySignature : PublicKey → Bytes → Bytes → Bool)

def Vote.signBytes (vote : Vote) (chainId : String) : Bytes :=
    codec.canonicalVote (canonicalizeVote chainId vote)

def Validator.bytes (val : Validator) : Except VerifyNewHeaderAndValsError Bytes :=
  match val.pubKey with
  | .ed25519 key => .ok (codec.validator "/tm.PubKeyEd25519" key val.votingPower.inner)
  | .secp256k1 key => .ok (codec.validator "/tm.PubKeySecp256k1" key val.votingPower.inner)
  | .multisig .. => .error (.panic "???")

def validatorsHash (vals : ValidatorSet) : Except VerifyNewHeaderAndValsError H256 := do
  pure (calculateMerkleRoot sha256 (← vals.validators.mapM (Validator.bytes codec)))

/-- `expiration_time <= now`. -/
def headerExpired (h : SignedHeader) (trustingPeriod : Duration) (now : Timestamp) : Bool :=
  match h.header.time.checkedAdd trustingPeriod with
  | none => false
  | some expirationTime => ¬ now < expirationTime

/-! ## Counting a commit -/

/-- The checks both counts make first, apart from the number of precommits. -/
def checkCommit (blockId : BlockId) (height : BoundedI64) (commit : Commit) : Except CommitError Unit := do
  ensure (height = commit.height) (.invalidCommitHeight height commit.height)
  ensure (blockId = commit.blockId) (.invalidBlockId blockId commit.blockId)

/-- A counted precommit: its signature is checked, and its power counts if it is for the block. -/
def countPrecommit (chainId : String) (blockId : BlockId) (commit : Commit) (idx : Nat)
    (precommit : Vote) (val : Validator) (tallied : Int) : Except CommitError Int := do
  ensure (verifySignature val.pubKey ((commit.getVote idx precommit).signBytes codec chainId)
    precommit.signature = true) (.invalidSignature precommit)
  pure (if blockId = precommit.blockId then wrapI64 (tallied + val.votingPower.inner) else tallied)

/-- The loop of `validator_set_verify_commit`. -/
def tallyByIndex (vals : ValidatorSet) (chainId : String) (blockId : BlockId) (commit : Commit) :
    Nat → List (Option Vote) → Int → Except CommitError Int
  | _, [], tallied => .ok tallied
  | idx, none :: rest, tallied => tallyByIndex vals chainId blockId commit (idx + 1) rest tallied
  | idx, some precommit :: rest, tallied => do
    let val ← orErr vals.validators[idx]? (.panic "???")
    let tallied ← countPrecommit codec verifySignature chainId blockId commit idx precommit val tallied
    tallyByIndex vals chainId blockId commit (idx + 1) rest tallied

def validatorSetVerifyCommit (vals : ValidatorSet) (chainId : String) (blockId : BlockId)
    (height : BoundedI64) (commit : Commit) : Except CommitError Unit := do
  commit.validateBasic.mapError .commitValidateBasic
  ensure (vals.validators.length = commit.precommits.length)
    (.invalidCommitPrecommits vals.validators.length commit.precommits.length)
  checkCommit blockId height commit
  let tallied ← tallyByIndex codec verifySignature vals chainId blockId commit 0 commit.precommits 0
  let total ← vals.totalVotingPower
  let needed := (total * 2).tdiv 3
  ensure (needed < tallied) (.tooMuchChange tallied (needed + 1))

/-- The loop of `verify_light_commit`: the signer is looked up by address and counted once. -/
def tallyByAddress (vals : ValidatorSet) (chainId : String) (blockId : BlockId) (commit : Commit) :
    Nat → List (Option Vote) → List Nat → Int → Except CommitError Int
  | _, [], _, tallied => .ok tallied
  | idx, none :: rest, seen, tallied => tallyByAddress vals chainId blockId commit (idx + 1) rest seen tallied
  | idx, some precommit :: rest, seen, tallied =>
    match vals.getByAddress precommit.validatorAddress with
    | none => tallyByAddress vals chainId blockId commit (idx + 1) rest seen tallied
    | some (valIdx, val) =>
      if valIdx ∈ seen then tallyByAddress vals chainId blockId commit (idx + 1) rest seen tallied
      else do
        let tallied ← countPrecommit codec verifySignature chainId blockId commit idx precommit val tallied
        tallyByAddress vals chainId blockId commit (idx + 1) rest (valIdx :: seen) tallied

def verifyLightCommit (vals : ValidatorSet) (chainId : String) (blockId : BlockId)
    (height : BoundedI64) (commit : Commit) (trustLevel : Fraction) : Except CommitError Unit := do
  commit.validateBasic.mapError .commitValidateBasic
  checkCommit blockId height commit
  let tallied ← tallyByAddress codec verifySignature vals chainId blockId commit 0 commit.precommits [] 0
  let total ← vals.totalVotingPower
  let power ← orErr (checkedMulI64 total (castI64 trustLevel.numerator)) .votingPowerOverflow
  let divisor := castI64 trustLevel.denominator
  ensure (¬ (power = -2 ^ 63 ∧ divisor = -1)) (.panic "attempt to divide with overflow")
  let needed := power.tdiv divisor
  ensure (needed < tallied) (.insufficientTrustedVotingPower tallied needed)

/-! ## `verify` -/

/-- The source leaves the checks of `SignedHeader.ValidateBasic` to be done. -/
def verifyNewHeadersAndVals (untrustedHeader : SignedHeader) (untrustedVals : ValidatorSet)
    (trustedHeader : SignedHeader) (now : Timestamp) (maxClockDrift : Duration) :
    Except VerifyNewHeaderAndValsError Unit := do
  ensure (trustedHeader.header.height.inner < untrustedHeader.header.height.inner)
    (.newHeaderHeightMustBeGreater untrustedHeader.header.height trustedHeader.header.height)
  ensure (trustedHeader.header.time < untrustedHeader.header.time)
    (.newHeaderTimeMustBeGreater untrustedHeader.header.time trustedHeader.header.time)
  let driftTimestamp ← orErr (now.checkedAdd maxClockDrift) (.panic "probably won't happen")
  ensure (untrustedHeader.header.time < driftTimestamp)
    (.newHeaderFromFuture untrustedHeader.header.time now maxClockDrift)
  let untrustedValidatorsHash ← validatorsHash codec sha256 untrustedVals
  ensure (untrustedHeader.header.validatorsHash = untrustedValidatorsHash)
    (.untrustedValidatorSetMismatch untrustedHeader.header.validatorsHash untrustedValidatorsHash
      untrustedHeader.header.height)

/-- `height.inner().checked_add(1)` over an `i64`. -/
def nextHeight (h : SignedHeader) : Except Error Nat :=
  orErr (if h.header.height.inner + 1 < 2 ^ 63 then some (h.header.height.inner + 1) else none)
    .integerOverflow

def verifyNonAdjacent (trustedHeader : SignedHeader) (trustedVals : ValidatorSet)
    (untrustedHeader : SignedHeader) (untrustedVals : ValidatorSet) (trustingPeriod : Duration)
    (now : Timestamp) (maxClockDrift : Duration) (trustLevel : Fraction) : Except Error Unit := do
  let next ← nextHeight trustedHeader
  ensure (untrustedHeader.header.height.inner ≠ next) .headersMustBeNonAdjacent
  ensure (headerExpired trustedHeader trustingPeriod now = false)
    (.headerExpired trustingPeriod trustedHeader.header.time)
  (verifyNewHeadersAndVals codec sha256 untrustedHeader untrustedVals trustedHeader now
    maxClockDrift).mapError .verifyNewHeaderAndVals
  (verifyLightCommit codec verifySignature trustedVals trustedHeader.header.chainId
    untrustedHeader.commit.blockId
    untrustedHeader.header.height untrustedHeader.commit trustLevel).mapError .verifyLightCommit
  (validatorSetVerifyCommit codec verifySignature untrustedVals trustedHeader.header.chainId
    untrustedHeader.commit.blockId untrustedHeader.header.height untrustedHeader.commit).mapError
    .trustedValidatorsVerifyCommit

def verifyAdjacent (trustedHeader untrustedHeader : SignedHeader) (untrustedVals : ValidatorSet)
    (trustingPeriod : Duration) (now : Timestamp) (maxClockDrift : Duration) : Except Error Unit := do
  let next ← nextHeight trustedHeader
  ensure (untrustedHeader.header.height.inner = next) .headersMustBeAdjacent
  ensure (headerExpired trustedHeader trustingPeriod now = false)
    (.headerExpired trustingPeriod trustedHeader.header.time)
  (verifyNewHeadersAndVals codec sha256 untrustedHeader untrustedVals trustedHeader now
    maxClockDrift).mapError .verifyNewHeaderAndVals
  ensure (untrustedHeader.header.validatorsHash = trustedHeader.header.nextValidatorsHash)
    (.nextValidatorsHashMismatch untrustedHeader.header.nextValidatorsHash
      trustedHeader.header.nextValidatorsHash)
  (validatorSetVerifyCommit codec verifySignature untrustedVals trustedHeader.header.chainId
    untrustedHeader.commit.blockId untrustedHeader.header.height untrustedHeader.commit).mapError
    .trustedValidatorsVerifyCommit

def verify (trustedHeader : SignedHeader) (trustedVals : ValidatorSet)
    (untrustedHeader : SignedHeader) (untrustedVals : ValidatorSet) (trustingPeriod : Duration)
    (now : Timestamp) (maxClockDrift : Duration) (trustLevel : Fraction) : Except Error Unit := do
  let next ← nextHeight trustedHeader
  if untrustedHeader.header.height.inner ≠ next then
    verifyNonAdjacent codec sha256 verifySignature trustedHeader trustedVals untrustedHeader untrustedVals
      trustingPeriod now maxClockDrift trustLevel
  else
    verifyAdjacent codec sha256 verifySignature trustedHeader untrustedHeader untrustedVals trustingPeriod now
      maxClockDrift

end Verifier

/-! ## The client -/

structure ClientState where
  chainId : String
  trustLevel : Fraction
  trustingPeriod : Duration
  maxClockDrift : Duration
  latestHeight : Height

structure ConsensusState where
  timestamp : Timestamp
  root : H256
  nextValidatorsHash : H256
  deriving DecidableEq

/-- `gno_light_client_types::Header`, all of it chosen by whoever submits it. -/
structure Header where
  signedHeader : SignedHeader
  validatorSet : ValidatorSet
  trustedHeight : Height
  trustedValidators : ValidatorSet

inductive ClientError where
  | ibcHeightTooLargeForGnoHeight (height : Nat)
  | invalidHostTimestamp
  | gnoVerify (error : Error)
  | panic (message : String)

structure StateUpdate where
  height : Nat
  consensusState : ConsensusState
  clientState : Option ClientState

def zeroHash : H256 := List.replicate 32 0

def zeroCount : BoundedI64 := .ofNat 0

/-- The stored consensus state as a header that only carries what `verify` reads of it. -/
def constructPartialHeader (chainId : String) (height : BoundedI64) (time : Timestamp)
    (nextValidatorsHash : H256) : SignedHeader where
  header := {
    chainId, height, time, nextValidatorsHash
    version := ""
    numTxs := zeroCount
    totalTxs := zeroCount
    appVersion := ""
    lastBlockId := .default
    lastCommitHash := none
    dataHash := none
    validatorsHash := zeroHash
    consensusHash := zeroHash
    appHash := none
    lastResultsHash := none
    proposerAddress := ⟨"g", List.replicate 20 0⟩ }
  commit := ⟨.default, []⟩

/-- `i64::try_from` of the trusted height. -/
def gnoHeight (h : Height) : Except ClientError BoundedI64 :=
  if lt : h.height < 2 ^ 63 then .ok ⟨h.height, lt⟩ else .error (.ibcHeightTooLargeForGnoHeight h.height)

def verifyHeader (codec : Codec) (sha256 : Bytes → H256) (verifySignature : PublicKey → Bytes → Bytes → Bool)
    (clientState : ClientState) (consensusState : ConsensusState) (header : Header)
      (blockTimestamp : UInt64) :
    Except ClientError StateUpdate := do
  let trustedHeight ← gnoHeight header.trustedHeight
  let now ← orErr (Timestamp.ofCosmwasm blockTimestamp) .invalidHostTimestamp
  (verify codec sha256 verifySignature
    (constructPartialHeader clientState.chainId trustedHeight consensusState.timestamp
      consensusState.nextValidatorsHash)
    header.trustedValidators header.signedHeader header.validatorSet clientState.trustingPeriod now
    clientState.maxClockDrift clientState.trustLevel).mapError .gnoVerify
  let block := header.signedHeader.header
  let root ← orErr block.appHash (.panic "must exist")
  pure {
    height := block.height.inner
    consensusState := ⟨block.time, root, block.nextValidatorsHash⟩
    clientState :=
      if clientState.latestHeight.height < block.height.inner then
        some { clientState with
          latestHeight := {
            clientState.latestHeight with
            height := block.height.inner
            height_lt := Nat.lt_trans block.height.lt (by decide) } }
      else none }

end UnionVoyager.Light.Gno
