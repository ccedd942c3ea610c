import UnionVoyager.Light.PublicInput

/-!
# The CometBLS clients

`cosmwasm/lightclient/cometbls/src/client.rs` and `evm/contracts/clients/CometblsClient.sol`: the
update of a client by a header, and the proof of a misbehaviour by two of them.

The zero-knowledge verifier is a parameter.  Machine integers of the cosmwasm contract wrap, as they
do in its release profile; those of the EVM contract revert.
-/

namespace UnionVoyager.Light.CometBlsClient

open Lib CometBls

structure ClientState where
  chainId : ChainId
  trustingPeriod : UInt64
  maxClockDrift : UInt64
  frozenHeight : Height
  latestHeight : Height
  contractAddress : Word

structure ConsensusState where
  /-- In nanoseconds. -/
  timestamp : UInt64
  appHash : Word
  nextValidatorsHash : Word
  deriving DecidableEq

structure Header where
  signedHeader : LightHeader
  trustedHeight : Height
  zeroKnowledgeProof : Bytes

structure Misbehaviour where
  headerA : Header
  headerB : Header

structure StateUpdate where
  height : UInt64
  clientState : Option ClientState
  consensusState : ConsensusState

/-- `T::verify_zkp`. -/
abbrev ZkpVerifier := ChainId → Word → LightHeader → Bytes → Bool

inductive InvalidHeaderError where
  | signedHeaderHeightMustBeMoreRecent (signedHeight trustedHeight : UInt64)
  | signedHeaderTimestampMustBeMoreRecent (signedTimestamp trustedTimestamp : UInt64)
  | headerExpired (timestamp : UInt64)
  | signedHeaderCannotExceedMaxClockDrift (signedTimestamp maxClockDriftTimestamp : UInt64)
  | invalidValidatorsHash (expected actual : Word)
  deriving DecidableEq

inductive Error where
  | std
  | mathOverflow
  | invalidHeader (e : InvalidHeaderError)
  | invalidZKP
  | invalidMisbehaviourHeaderSequence
  | misbehaviourNotFound
  /-- An `expect` that does not hold. -/
  | panic
  deriving DecidableEq

/-! ## `client.rs` -/

/-- Revisions are compared first, unless one of them is missing. -/
def Height.lt (a b : Height) : Bool :=
  if a.revision ≠ 0 ∧ b.revision ≠ 0 ∧ a.revision ≠ b.revision then decide (a.revision < b.revision)
  else decide (a.height < b.height)

/-- `as_unix_nanos`: seconds before the epoch panic, the arithmetic wraps. -/
def asUnixNanos (time : Timestamp) : Except Error UInt64 := do
  ensure (0 ≤ time.seconds) .panic
  pure (UInt64.ofNat time.seconds.toNat * 1000000000 + UInt64.ofNat time.nanos.toNat)

def plusDuration (timestamp duration : UInt64) : Option UInt64 :=
  if timestamp.toNat + duration.toNat < 2 ^ 64 then some (timestamp + duration) else none

def isClientExpired (consensusStateTimestamp trustingPeriod currentBlockTime : UInt64) : Bool :=
  match plusDuration consensusStateTimestamp trustingPeriod with
  | some sum => decide (sum < currentBlockTime)
  | none => true

def LightHeader.heightNumber (h : LightHeader) : UInt64 := UInt64.ofNat h.height.inner

def Height.number (h : Height) : UInt64 := UInt64.ofNat h.height

section Client

variable (verifyZkp : ZkpVerifier) (now : UInt64)

def verifyHeader (clientState : ClientState) (consensusState : ConsensusState) (header : Header) :
    Except Error Unit := do
  let untrustedHeightNumber := LightHeader.heightNumber header.signedHeader
  let trustedHeightNumber := Height.number header.trustedHeight
  ensure (trustedHeightNumber < untrustedHeightNumber)
    (.invalidHeader (.signedHeaderHeightMustBeMoreRecent untrustedHeightNumber trustedHeightNumber))
  let trustedTimestamp := consensusState.timestamp
  let untrustedTimestamp ← asUnixNanos header.signedHeader.time
  ensure (trustedTimestamp < untrustedTimestamp)
    (.invalidHeader (.signedHeaderTimestampMustBeMoreRecent untrustedTimestamp trustedTimestamp))
  ensure (isClientExpired trustedTimestamp clientState.trustingPeriod now = false)
    (.invalidHeader (.headerExpired consensusState.timestamp))
  let maxClockDriftTimestamp ← orErr (plusDuration now clientState.maxClockDrift) .mathOverflow
  ensure (untrustedTimestamp < maxClockDriftTimestamp)
    (.invalidHeader (.signedHeaderCannotExceedMaxClockDrift untrustedTimestamp maxClockDriftTimestamp))
  let trustedValidatorsHash := consensusState.nextValidatorsHash
  ensure (¬ (untrustedHeightNumber = trustedHeightNumber + 1 ∧
      header.signedHeader.validatorsHash ≠ trustedValidatorsHash))
    (.invalidHeader (.invalidValidatorsHash trustedValidatorsHash header.signedHeader.validatorsHash))
  ensure (verifyZkp clientState.chainId trustedValidatorsHash header.signedHeader
    header.zeroKnowledgeProof = true) .invalidZKP

/-- The height is that of the header with the revision of the trusted height. -/
def untrustedHeight (header : Header) : Height where
  revision := header.trustedHeight.revision
  height := header.signedHeader.height.inner
  revision_lt := header.trustedHeight.revision_lt
  height_lt := by have := header.signedHeader.height.lt; omega

def updateState (clientState : ClientState) (header : Header) : Except Error StateUpdate := do
  let timestamp ← asUnixNanos header.signedHeader.time
  pure {
    height := Height.number (untrustedHeight header)
    clientState :=
      if Height.lt clientState.latestHeight (untrustedHeight header) then
        some { clientState with latestHeight := untrustedHeight header }
      else none
    consensusState := ⟨timestamp, header.signedHeader.appHash, header.signedHeader.nextValidatorsHash⟩ }

/-- An update to a height that is not stored yet. -/
def acceptHeader (clientState : ClientState) (consensusState : ConsensusState) (header : Header) :
    Except Error StateUpdate := do
  verifyHeader verifyZkp now clientState consensusState header
  updateState clientState header

def verifyMisbehaviour (clientState : ClientState) (consensusStateA consensusStateB : ConsensusState)
    (misbehaviour : Misbehaviour) : Except Error Unit := do
  let a := misbehaviour.headerA
  let b := misbehaviour.headerB
  ensure (¬ a.signedHeader.height.inner < b.signedHeader.height.inner) .invalidMisbehaviourHeaderSequence
  verifyHeader verifyZkp now clientState consensusStateA a
  verifyHeader verifyZkp now clientState consensusStateB b
  if a.signedHeader.height = b.signedHeader.height then
    ensure (a.signedHeader = b.signedHeader) .misbehaviourNotFound
  else do
    let timestampA ← asUnixNanos a.signedHeader.time
    let timestampB ← asUnixNanos b.signedHeader.time
    ensure (timestampA ≤ timestampB) .misbehaviourNotFound

/-- `Height::new(1)`. -/
def FROZEN_HEIGHT : Height := .new 1

/-- `misbehaviour`: the frozen client state. -/
def misbehaviour (clientState : ClientState) (consensusState : UInt64 → Option ConsensusState)
    (m : Misbehaviour) : Except Error ClientState := do
  let consensusStateA ← orErr (consensusState (Height.number m.headerA.trustedHeight)) .std
  let consensusStateB ← orErr (consensusState (Height.number m.headerB.trustedHeight)) .std
  verifyMisbehaviour verifyZkp now clientState consensusStateA consensusStateB m
  pure { clientState with frozenHeight := FROZEN_HEIGHT }

end Client

/-! ## `CometblsClient.sol` -/

namespace Sol

structure ClientState where
  /-- A `bytes31`. -/
  chainId : Bytes
  trustingPeriod : UInt64
  maxClockDrift : UInt64
  frozenHeight : UInt64
  latestHeight : UInt64
  contractAddress : Word
  deriving DecidableEq

structure Header where
  signedHeader : SolSignedHeader
  trustedHeight : UInt64
  zeroKnowledgeProof : Bytes

structure Misbehaviour where
  headerA : Header
  headerB : Header

/-- `internalVerifyZKP`. -/
abbrev ZkpVerifier := Bytes → Word → SolSignedHeader → Bytes → Bool

inductive Error where
  | trustedConsensusStateNotFound
  | untrustedHeightLTETrustedHeight
  | untrustedTimestampLTETrustedTimestamp
  | headerExpired
  | maxClockDriftExceeded
  | invalidZKP
  | invalidUntrustedValidatorsHash
  | invalidMisbehaviourHeadersSequence
  | invalidMisbehaviour
  /-- Checked arithmetic. -/
  | overflow
  deriving DecidableEq

/-- An `uint64` expression, checked. -/
def checked (n : Nat) : Except Error UInt64 := do
  ensure (n < 2 ^ 64) .overflow
  pure (UInt64.ofNat n)

def isExpired (headerTime trustingPeriod currentTime : UInt64) : Bool :=
  decide (headerTime.toNat + trustingPeriod.toNat < currentTime.toNat)

/-- `uint64(block.timestamp * 1e9)`: the product is checked, the conversion truncates. -/
def currentTime (blockTimestamp : Nat) : Except Error UInt64 := do
  ensure (blockTimestamp * 1000000000 < 2 ^ 256) .overflow
  pure (UInt64.ofNat (blockTimestamp * 1000000000))

/-- `header.signedHeader.secs * 1e9 + header.signedHeader.nanos`. -/
def untrustedTimestamp (h : SolSignedHeader) : Except Error UInt64 := do
  let secs ← checked (h.secs.toNat * 1000000000)
  checked (secs.toNat + h.nanos.toNat)

section Client

variable (verifyZkp : ZkpVerifier) (blockTimestamp : Nat)

def verifyHeader (header : Header) (consensusState : ConsensusState) (clientState : ClientState) :
    Except Error (UInt64 × UInt64) := do
  ensure (consensusState.timestamp ≠ 0) .trustedConsensusStateNotFound
  let untrustedHeightNumber := header.signedHeader.height
  let trustedHeightNumber := header.trustedHeight
  ensure (trustedHeightNumber < untrustedHeightNumber) .untrustedHeightLTETrustedHeight
  let trustedTimestamp := consensusState.timestamp
  let untrustedTimestamp ← untrustedTimestamp header.signedHeader
  ensure (trustedTimestamp < untrustedTimestamp) .untrustedTimestampLTETrustedTimestamp
  let currentTime ← currentTime blockTimestamp
  ensure (isExpired trustedTimestamp clientState.trustingPeriod currentTime = false) .headerExpired
  let maxClockDrift ← checked (currentTime.toNat + clientState.maxClockDrift.toNat)
  ensure (untrustedTimestamp < maxClockDrift) .maxClockDriftExceeded
  let trustedValidatorsHash := consensusState.nextValidatorsHash
  let next ← checked (trustedHeightNumber.toNat + 1)
  ensure (¬ (untrustedHeightNumber = next ∧ header.signedHeader.validatorsHash ≠ trustedValidatorsHash))
    .invalidUntrustedValidatorsHash
  ensure (verifyZkp clientState.chainId trustedValidatorsHash header.signedHeader
    header.zeroKnowledgeProof = true) .invalidZKP
  pure (untrustedHeightNumber, untrustedTimestamp)

/-- A consensus state that was never written. -/
def absent : ConsensusState := ⟨0, ⟨List.replicate 32 0, rfl⟩, ⟨List.replicate 32 0, rfl⟩⟩

/-- What `updateClient` writes for an accepted header, over what is stored at its height. -/
def updateState (clientState : ClientState) (stored : ConsensusState) (header : Header)
    (untrustedHeightNumber untrustedTimestamp : UInt64) : ClientState × ConsensusState :=
  let clientState :=
    if clientState.latestHeight < untrustedHeightNumber
      then { clientState with latestHeight := untrustedHeightNumber }
    else clientState
  let new : ConsensusState :=
    ⟨untrustedTimestamp, header.signedHeader.appHash, header.signedHeader.nextValidatorsHash⟩
  if stored.timestamp ≠ 0 then
    (if new ≠ stored then { clientState with frozenHeight := 1 } else clientState, stored)
  else (clientState, new)

def acceptHeader (clientState : ClientState) (stored consensusState : ConsensusState) (header : Header) :
    Except Error (ClientState × ConsensusState) := do
  let (untrustedHeightNumber, untrustedTimestamp) ←
    verifyHeader verifyZkp blockTimestamp header consensusState clientState
  pure (updateState clientState stored header untrustedHeightNumber untrustedTimestamp)

section

variable (signedHeaderHash : SolSignedHeader → H256) (consensusStates : UInt64 → ConsensusState)
  (clientState : ClientState)

/-- The hashes of the two signed headers are compared; `keccak256 ∘ abi.encode` is `signedHeaderHash`. -/
def checkMisbehaviour (headerA headerB : Header) : Except Error Bool := do
  ensure (¬ headerA.signedHeader.height < headerB.signedHeader.height) .invalidMisbehaviourHeadersSequence
  let (_, untrustedTimestampA) ←
    verifyHeader verifyZkp blockTimestamp headerA (consensusStates headerA.trustedHeight) clientState
  let (_, untrustedTimestampB) ←
    verifyHeader verifyZkp blockTimestamp headerB (consensusStates headerB.trustedHeight) clientState
  if headerA.signedHeader.height = headerB.signedHeader.height then
    pure (decide (signedHeaderHash headerA.signedHeader ≠ signedHeaderHash headerB.signedHeader))
  else
    pure (decide (untrustedTimestampA ≤ untrustedTimestampB))

def misbehaviour (m : Misbehaviour) : Except Error ClientState := do
  let fraud ← checkMisbehaviour verifyZkp blockTimestamp signedHeaderHash consensusStates
    clientState m.headerA m.headerB
  ensure (fraud = true) .invalidMisbehaviour
  pure { clientState with frozenHeight := 1 }

end

end Client

end Sol

/-! ## One client in two encodings -/

/-- `From<ClientState> for SolClientState`. -/
def ClientState.toSol (c : ClientState) : Sol.ClientState where
  chainId := c.chainId.intoFixedBytes
  trustingPeriod := c.trustingPeriod
  maxClockDrift := c.maxClockDrift
  frozenHeight := Height.number c.frozenHeight
  latestHeight := Height.number c.latestHeight
  contractAddress := c.contractAddress

/-- `From<Header> for SolHeader`. -/
def Header.toSol (h : Header) : Sol.Header where
  signedHeader := h.signedHeader.toSol
  trustedHeight := Height.number h.trustedHeight
  zeroKnowledgeProof := h.zeroKnowledgeProof

end UnionVoyager.Light.CometBlsClient
