import UnionVoyager.Light.Types

/-!
# The sync protocol of the beacon chain

`lib/ethereum-sync-protocol`, with what it uses of `lib/beacon-api-types`, `lib/fork-schedules` and
the bit vectors of `lib/ssz`.

The hashes (`Hashing`) and the verifier of aggregate signatures are parameters.  Slots, epochs and
periods are natural numbers: nothing here adds to one that is near the end of its 64 bits.
-/

namespace UnionVoyager.Light.Ethereum

open Lib

/-- A 48-byte public key. -/
abbrev H384 := Bytes

/-- A 96-byte signature. -/
abbrev H768 := Bytes

abbrev Slot := Nat

abbrev Epoch := Nat

abbrev Period := Nat

/-- Four bytes. -/
abbrev Version := Bytes

/-! ## `beacon-api-types` -/

/-- The constants of a preset that are used. -/
structure ChainSpec where
  SECONDS_PER_SLOT : Nat
  SLOTS_PER_EPOCH : Nat
  SYNC_COMMITTEE_SIZE : Nat
  EPOCHS_PER_SYNC_COMMITTEE_PERIOD : Nat
  MIN_SYNC_COMMITTEE_PARTICIPANTS : Nat
  BYTES_PER_LOGS_BLOOM : Nat
  MAX_EXTRA_DATA_BYTES : Nat

inductive PresetBaseKind where
  | minimal
  | mainnet
  deriving DecidableEq

def MAINNET : ChainSpec := ⟨12, 32, 512, 256, 1, 256, 32⟩

def MINIMAL : ChainSpec := ⟨6, 8, 32, 8, 1, 256, 32⟩

def PresetBaseKind.chainSpec : PresetBaseKind → ChainSpec
  | .minimal => MINIMAL
  | .mainnet => MAINNET

structure BeaconBlockHeader where
  slot : Slot
  proposerIndex : Nat
  parentRoot : H256
  stateRoot : H256
  bodyRoot : H256
  deriving DecidableEq

structure ExecutionPayloadHeader where
  stateRoot : H256
  logsBloom : Bytes
  blockNumber : Nat
  /-- In seconds. -/
  timestamp : Nat
  extraData : Bytes
  blobGasUsed : Nat
  excessBlobGas : Nat
  /-- The fields that are only hashed. -/
  rest : Bytes
  deriving DecidableEq

structure SyncCommittee where
  pubkeys : List H384
  aggregatePubkey : H384
  deriving DecidableEq

structure SyncAggregate where
  syncCommitteeBits : Bytes
  syncCommitteeSignature : H768
  deriving DecidableEq

structure LightClientHeader where
  beacon : BeaconBlockHeader
  execution : ExecutionPayloadHeader
  executionBranch : List H256
  deriving DecidableEq

structure LightClientUpdate where
  attestedHeader : LightClientHeader
  nextSyncCommittee : Option SyncCommittee
  nextSyncCommitteeBranch : Option (List H256)
  finalizedHeader : LightClientHeader
  finalityBranch : List H256
  syncAggregate : SyncAggregate
  signatureSlot : Slot

def floorlog2 (n : Nat) : Nat := Nat.log2 n

def getSubtreeIndex (idx : Nat) : Nat := idx % 2 ^ Nat.log2 idx

def FINALIZED_ROOT_GINDEX : Nat := 105

def NEXT_SYNC_COMMITTEE_GINDEX : Nat := 55

def EXECUTION_PAYLOAD_GINDEX : Nat := 25

def FINALIZED_ROOT_GINDEX_ELECTRA : Nat := 169

def NEXT_SYNC_COMMITTEE_GINDEX_ELECTRA : Nat := 87

def GENESIS_SLOT : Slot := 0

def DomainType.SYNC_COMMITTEE : Bytes := [7, 0, 0, 0]

/-! ## Bit vectors of `ssz` -/

/-- `byte & 1 << i > 0`, for the bits of a byte. -/
def bit (byte : UInt8) (i : Nat) : Bool := byte &&& (1 <<< UInt8.ofNat i) != 0

def countOnes (byte : UInt8) : Nat := (List.range 8).countP (bit byte)

inductive BitlistFromBytesError where
  | excessBits
  | invalidByteCount (given expected : Nat)
  deriving DecidableEq

structure BitVector where
  bytes : Bytes
  len : Nat

namespace BitVector

def bytesForBitLen (bitLen : Nat) : Nat := max 1 ((bitLen + 7) / 8)

def fromRawBytes (bytes : Bytes) (bitLen : Nat) : Except BitlistFromBytesError BitVector := do
  if bitLen = 0 then
    ensure (bytes = [0]) .excessBits
  else
    ensure (bytes.length = bytesForBitLen bitLen) (.invalidByteCount bytes.length (bytesForBitLen bitLen))
    -- `overflowing_shr`: a shift by 8 is none
    let mask : UInt8 := 255 >>> UInt8.ofNat ((8 - bitLen % 8) % 8)
    ensure (bytes.getLastD 0 &&& ~~~mask = 0) .excessBits
  pure ⟨bytes, bitLen⟩

def get (v : BitVector) (i : Nat) : Bool := bit (v.bytes.getD (i / 8) 0) (i % 8)

/-- `iter`. -/
def toList (v : BitVector) : List Bool := (List.range v.len).map v.get

def numSetBits (v : BitVector) : Nat := (v.bytes.map countOnes).sum

end BitVector

/-! ## `fork-schedules` -/

inductive Forks where
  | altair
  | bellatrix
  | capella
  | deneb
  | electra
  | fulu
  | gloas

def Forks.toNat : Forks → Nat
  | altair => 1
  | bellatrix => 2
  | capella => 3
  | deneb => 4
  | electra => 5
  | fulu => 6
  | gloas => 7

structure Fork where
  version : Version
  epoch : Epoch

/-- The forks in order, the genesis first. -/
structure ForkSchedule where
  genesis : Fork
  next : List Fork

namespace ForkSchedule

def fork (fs : ForkSchedule) (f : Forks) : Option Fork := (fs.genesis :: fs.next)[f.toNat]?

def MAINNET : ForkSchedule where
  genesis := ⟨[0, 0, 0, 0], 0⟩
  next := [⟨[1, 0, 0, 0], 74240⟩, ⟨[2, 0, 0, 0], 144896⟩, ⟨[3, 0, 0, 0], 194048⟩, ⟨[4, 0, 0, 0], 269568⟩,
    ⟨[5, 0, 0, 0], 364032⟩, ⟨[6, 0, 0, 0], 411392⟩]

def SEPOLIA : ForkSchedule where
  genesis := ⟨[0x90, 0, 0, 0x69], 0⟩
  next := [⟨[0x90, 0, 0, 0x70], 50⟩, ⟨[0x90, 0, 0, 0x71], 100⟩, ⟨[0x90, 0, 0, 0x72], 56832⟩,
    ⟨[0x90, 0, 0, 0x73], 132608⟩, ⟨[0x90, 0, 0, 0x74], 222464⟩, ⟨[0x90, 0, 0, 0x75], 272640⟩]

def HOLESKY : ForkSchedule where
  genesis := ⟨[1, 1, 0x70, 0], 0⟩
  next := [⟨[2, 1, 0x70, 0], 0⟩, ⟨[3, 1, 0x70, 0], 0⟩, ⟨[4, 1, 0x70, 0], 256⟩, ⟨[5, 1, 0x70, 0], 29696⟩,
    ⟨[6, 1, 0x70, 0], 115968⟩, ⟨[7, 1, 0x70, 0], 165120⟩]

def LATEST : ForkSchedule where
  genesis := ⟨[0, 0, 0, 1], 0⟩
  next := [⟨[1, 0, 0, 1], 0⟩, ⟨[2, 0, 0, 1], 0⟩, ⟨[3, 0, 0, 1], 0⟩, ⟨[4, 0, 0, 1], 0⟩]

def forChainId (chainId : Nat) : ForkSchedule :=
  if chainId = 1 then MAINNET
  else if chainId = 11155111 then SEPOLIA
  else if chainId = 17000 then HOLESKY
  else LATEST

/-- The fork is scheduled and the epoch has reached it. -/
def active (fs : ForkSchedule) (f : Forks) (epoch : Epoch) : Option Fork :=
  (fs.fork f).filter fun fork => decide (fork.epoch ≤ epoch)

end ForkSchedule

/-! ## `utils.rs` -/

/-- The hashes outside this module. -/
structure Hashing where
  sha256 : Bytes → H256
  beaconBlockHeaderRoot : BeaconBlockHeader → H256
  executionPayloadHeaderRoot : ExecutionPayloadHeader → H256
  syncCommitteeRoot : SyncCommittee → H256
  /-- Of the current version and the genesis validators root. -/
  forkDataRoot : Version → H256 → H256
  /-- Of the object root and the domain. -/
  signingDataRoot : H256 → Bytes → H256

structure InvalidMerkleBranch where
  leaf : H256
  branch : List H256
  depth : Nat
  index : Nat
  root : H256
  deriving DecidableEq

section Utils

variable (C : ChainSpec) (hashing : Hashing)

def computeEpochAtSlot (slot : Slot) : Epoch := slot / C.SLOTS_PER_EPOCH

def computeSyncCommitteePeriod (epoch : Epoch) : Period := epoch / C.EPOCHS_PER_SYNC_COMMITTEE_PERIOD

def computeSyncCommitteePeriodAtSlot (slot : Slot) : Period :=
    computeSyncCommitteePeriod C (computeEpochAtSlot C slot)

def computeForkVersion (chainId : Nat) (epoch : Epoch) : Version :=
  let fs := ForkSchedule.forChainId chainId
  let forks := [Forks.fulu, .electra, .deneb, .capella, .bellatrix, .altair]
  ((forks.findSome? fun f => fs.active f epoch).getD fs.genesis).version

def computeDomain (domainType : Bytes) (forkVersion : Version) (genesisValidatorsRoot : H256) : Bytes :=
  domainType ++ (hashing.forkDataRoot forkVersion genesisValidatorsRoot).take 28

def computeSigningRoot (header : BeaconBlockHeader) (domain : Bytes) : H256 :=
  hashing.signingDataRoot (hashing.beaconBlockHeaderRoot header) domain

/-- `None` is an overflow, of the 64 bits of a slot too. -/
def computeSlotAtTimestamp (genesisTime timestampSeconds : Nat) : Option Slot :=
  if genesisTime ≤ timestampSeconds then
    some ((timestampSeconds - genesisTime) / C.SECONDS_PER_SLOT + GENESIS_SLOT)
  else none

/-- The sum is over the bytes, not over the bits. -/
def validateSignatureSupermajority (syncCommitteeBits : Bytes) : Bool :=
  decide (syncCommitteeBits.length * 2 ≤ (syncCommitteeBits.map UInt8.toNat).sum * 3)

/-- One level of a branch; `2^i` fits as the depth is below 64. -/
def branchStep (index : Nat) (value : H256) (level : H256 × Nat) : H256 :=
  if index / 2 ^ level.2 % 2 = 1 then hashing.sha256 (level.1 ++ value) else hashing.sha256 (value ++ level.1)

/-- The branch is read up to the depth, or to its own end. -/
def branchRoot (leaf : H256) (branch : List H256) (depth index : Nat) : H256 :=
  (branch.zip (List.range depth)).foldl (branchStep hashing index) leaf

def validateMerkleBranch (leaf : H256) (branch : List H256) (gindex : Nat) (root : H256) :
    Except InvalidMerkleBranch Unit :=
  let depth := floorlog2 gindex
  let index := getSubtreeIndex gindex
  ensure (branchRoot hashing leaf branch depth index = root) ⟨leaf, branch, depth, index, root⟩

end Utils

/-! ## `lib.rs` -/

inductive Error where
  | invalidMerkleBranch (e : InvalidMerkleBranch)
  | invalidChainVersion
  | crypto
  | expectedCurrentSyncCommittee
  | expectedNextSyncCommittee
  | irrelevantUpdate (updateAttestedSlot trustedFinalizedSlot : Slot)
      (updateAttestedPeriod storedPeriod : Period)
      (updateSyncCommitteeIsSet trustedNextSyncCommitteeIsSet : Bool)
  | invalidSlots (updateSignatureSlot updateAttestedSlot updateFinalizedSlot : Slot)
  | updateMoreRecentThanCurrentSlot (currentSlot updateSignatureSlot : Slot)
  | invalidSignaturePeriodWhenNextSyncCommitteeExists (signaturePeriod storedPeriod : Period)
  | invalidSignaturePeriodWhenNextSyncCommitteeDoesNotExist (signaturePeriod storedPeriod : Period)
  | nextSyncCommitteeMismatch (expected found : H384)
  | insufficientSyncCommitteeParticipants (n : Nat)
  | mustBeDeneb
  | finalizedSlotIsGenesis
  | clientSignatureVerification (reason : String)
  | invalidSyncCommitteeBits (e : BitlistFromBytesError)
  /-- An `unwrap`. -/
  | panic
  deriving DecidableEq

/-- `BlsVerify`: whether it is given those who did not sign, and the check of the aggregate key, the keys, the
    message and the signature. -/
structure BlsVerify where
  INVERSE : Bool
  aggregateVerifySignature : H384 → List H384 → Bytes → H768 → Except Error Unit

section Protocol

variable (C : ChainSpec) (hashing : Hashing)

def checkBranch (leaf : H256) (branch : List H256) (gindex : Nat) (root : H256) : Except Error Unit :=
  (validateMerkleBranch hashing leaf branch gindex root).mapError .invalidMerkleBranch

/-- The bloom filter and the extra data must have lengths the `Ssz` types admit. -/
def getLcExecutionRoot (chainId : Nat) (header : LightClientHeader) : Except Error H256 :=
  let fs := ForkSchedule.forChainId chainId
  let epoch := computeEpochAtSlot C header.beacon.slot
  if ([Forks.fulu, .electra, .deneb].any fun f => (fs.active f epoch).isSome) = true then do
    ensure (header.execution.logsBloom.length = C.BYTES_PER_LOGS_BLOOM ∧
      header.execution.extraData.length ≤ C.MAX_EXTRA_DATA_BYTES) .panic
    pure (hashing.executionPayloadHeaderRoot header.execution)
  else pure (List.replicate 32 0)

def isValidLightClientHeader (chainId : Nat) (header : LightClientHeader) : Except Error Unit := do
  let epoch := computeEpochAtSlot C header.beacon.slot
  let fork ← orErr ((ForkSchedule.forChainId chainId).fork .deneb) .panic
  onlyIf (decide (epoch < fork.epoch))
    (ensure (header.execution.blobGasUsed = 0 ∧ header.execution.excessBlobGas = 0) .mustBeDeneb)
  ensure (fork.epoch ≤ epoch) .invalidChainVersion
  let root ← getLcExecutionRoot C hashing chainId header
  checkBranch hashing root header.executionBranch EXECUTION_PAYLOAD_GINDEX header.beacon.bodyRoot

/-- One index before Electra, another one from it on. -/
def gindexAtSlot (beforeElectra fromElectra : Nat) (chainId : Nat) (slot : Slot) : Nat :=
  if ((ForkSchedule.forChainId chainId).active .electra (computeEpochAtSlot C slot)).isSome =
    true then fromElectra
  else beforeElectra

def finalizedRootGindexAtSlot := gindexAtSlot C FINALIZED_ROOT_GINDEX FINALIZED_ROOT_GINDEX_ELECTRA

def nextSyncCommitteeGindexAtSlot := gindexAtSlot C NEXT_SYNC_COMMITTEE_GINDEX
    NEXT_SYNC_COMMITTEE_GINDEX_ELECTRA

/-- The members whose bits are `b`. -/
def membersWith {α : Type} (b : Bool) (bits : List Bool) (members : List α) : List α :=
  ((bits.zip members).filter fun p => p.1 == b).map Prod.snd

/-- What the sync committee signs. -/
def signingRoot (chainId : Nat) (genesisValidatorsRoot : H256) (update : LightClientUpdate) : H256 :=
  let forkVersionSlot := max update.signatureSlot 1 - 1
  let forkVersion := computeForkVersion chainId (computeEpochAtSlot C forkVersionSlot)
  computeSigningRoot hashing update.attestedHeader.beacon
    (computeDomain hashing DomainType.SYNC_COMMITTEE forkVersion genesisValidatorsRoot)

def verifySignature (chainId : Nat) (update : LightClientUpdate) (bits : BitVector)
    (genesisValidatorsRoot : H256)
    (syncCommittee : SyncCommittee) (blsVerifier : BlsVerify) : Except Error Unit :=
  blsVerifier.aggregateVerifySignature syncCommittee.aggregatePubkey
    (membersWith (!blsVerifier.INVERSE) bits.toList syncCommittee.pubkeys)
    (signingRoot C hashing chainId genesisValidatorsRoot update) update.syncAggregate.syncCommitteeSignature

/-- The signature period against the stored one. -/
def checkSignaturePeriod (hasNext : Bool) (signaturePeriod storedPeriod : Period) : Except Error Unit :=
  if hasNext = true then
    ensure (signaturePeriod = storedPeriod ∨ signaturePeriod = storedPeriod + 1)
      (.invalidSignaturePeriodWhenNextSyncCommitteeExists signaturePeriod storedPeriod)
  else
    ensure (signaturePeriod = storedPeriod)
      (.invalidSignaturePeriodWhenNextSyncCommitteeDoesNotExist signaturePeriod storedPeriod)

/-- The next sync committee of the update is the stored one, where their periods agree. -/
def checkStoredNext (samePeriod : Bool) (updateNext : SyncCommittee) : Option SyncCommittee →
      Except Error Unit
  | some storedNext =>
    onlyIf samePeriod
      (ensure (updateNext = storedNext)
        (.nextSyncCommitteeMismatch storedNext.aggregatePubkey updateNext.aggregatePubkey))
  | none => .ok ()

/-- The next sync committee of the update, if it has one, is in the attested state. -/
def checkNextSyncCommittee (chainId : Nat) (update : LightClientUpdate)
    (nextSyncCommittee : Option SyncCommittee)
    (storedPeriod : Period) : Option SyncCommittee → Except Error Unit
  | some updateNext => do
    let attestedSlot := update.attestedHeader.beacon.slot
    checkStoredNext (decide (computeSyncCommitteePeriodAtSlot C attestedSlot = storedPeriod)) updateNext
      nextSyncCommittee
    ensure (updateNext.pubkeys.length = C.SYNC_COMMITTEE_SIZE) .panic
    checkBranch hashing (hashing.syncCommitteeRoot updateNext) (update.nextSyncCommitteeBranch.getD [])
      (nextSyncCommitteeGindexAtSlot C chainId attestedSlot) update.attestedHeader.beacon.stateRoot
  | none => .ok ()

def signingCommittee (samePeriod : Prop) [Decidable samePeriod]
    (currentSyncCommittee nextSyncCommittee : Option SyncCommittee) : Except Error SyncCommittee :=
  if samePeriod then orErr currentSyncCommittee .expectedCurrentSyncCommittee
  else orErr nextSyncCommittee .expectedNextSyncCommittee

def validateLightClientUpdate (chainId : Nat) (update : LightClientUpdate)
    (currentSyncCommittee nextSyncCommittee : Option SyncCommittee) (currentSlot finalizedSlot : Slot)
    (genesisValidatorsRoot : H256) (blsVerifier : BlsVerify) : Except Error Unit := do
  let bits ← (BitVector.fromRawBytes update.syncAggregate.syncCommitteeBits C.SYNC_COMMITTEE_SIZE).mapError
    .invalidSyncCommitteeBits
  ensure (C.MIN_SYNC_COMMITTEE_PARTICIPANTS ≤ bits.numSetBits)
    (.insufficientSyncCommitteeParticipants bits.numSetBits)
  isValidLightClientHeader C hashing chainId update.attestedHeader
  let updateAttestedSlot := update.attestedHeader.beacon.slot
  let updateFinalizedSlot := update.finalizedHeader.beacon.slot
  ensure (updateFinalizedSlot ≠ GENESIS_SLOT) .finalizedSlotIsGenesis
  ensure (update.signatureSlot ≤ currentSlot)
    (.updateMoreRecentThanCurrentSlot currentSlot update.signatureSlot)
  ensure (updateAttestedSlot < update.signatureSlot ∧ updateFinalizedSlot ≤ updateAttestedSlot)
    (.invalidSlots update.signatureSlot updateAttestedSlot updateFinalizedSlot)
  let storedPeriod := computeSyncCommitteePeriodAtSlot C finalizedSlot
  let signaturePeriod := computeSyncCommitteePeriodAtSlot C update.signatureSlot
  checkSignaturePeriod nextSyncCommittee.isSome signaturePeriod storedPeriod
  let updateAttestedPeriod := computeSyncCommitteePeriodAtSlot C updateAttestedSlot
  ensure (finalizedSlot < updateAttestedSlot ∨ (updateAttestedPeriod = storedPeriod ∧
      update.nextSyncCommittee.isSome = true ∧ nextSyncCommittee.isNone = true))
    (.irrelevantUpdate updateAttestedSlot finalizedSlot updateAttestedPeriod storedPeriod
      update.nextSyncCommittee.isSome nextSyncCommittee.isSome)
  isValidLightClientHeader C hashing chainId update.finalizedHeader
  checkBranch hashing (hashing.beaconBlockHeaderRoot update.finalizedHeader.beacon) update.finalityBranch
    (finalizedRootGindexAtSlot C chainId updateAttestedSlot) update.attestedHeader.beacon.stateRoot
  checkNextSyncCommittee C hashing chainId update nextSyncCommittee storedPeriod update.nextSyncCommittee
  let syncCommittee ← signingCommittee (signaturePeriod = storedPeriod) currentSyncCommittee nextSyncCommittee
  verifySignature C hashing chainId update bits genesisValidatorsRoot syncCommittee blsVerifier

end Protocol

end UnionVoyager.Light.Ethereum
