import UnionVoyager.Light.SyncProtocol
import UnionVoyager.Light.EvmStorage

/-!
# The ethereum light client

`cosmwasm/lightclient/ethereum`: creation, update and misbehaviour of a client, over the sync
protocol.  Committees are stored by period, with the inverses of their public keys: a signature is
checked for the aggregate key and the inverse keys of those who did not sign.

Outside the repository are the BLS12-381 functions of the host and the arithmetic of `ark` (`Host`).
-/

namespace UnionVoyager.Light.Ethereum

open Lib

structure InitialSyncCommittee where
  currentSyncCommittee : SyncCommittee
  nextSyncCommittee : SyncCommittee
  deriving DecidableEq

/-- `ClientStateV1`. -/
structure ClientState where
  chainId : Nat
  chainSpec : PresetBaseKind
  genesisValidatorsRoot : H256
  genesisTime : Nat
  latestHeight : Nat
  frozenHeight : Height
  ibcContractAddress : H160
  initialSyncCommittee : Option InitialSyncCommittee
  deriving DecidableEq

structure ConsensusState where
  slot : Slot
  stateRoot : H256
  storageRoot : H256
  /-- In nanoseconds. -/
  timestamp : Nat
  deriving DecidableEq

structure AccountProof where
  storageRoot : H256
  proof : List Bytes
  deriving DecidableEq

structure LightClientUpdateData where
  attestedHeader : LightClientHeader
  finalizedHeader : LightClientHeader
  finalityBranch : List H256
  syncAggregate : SyncAggregate
  signatureSlot : Slot
  deriving DecidableEq

/-- `ethereum_light_client_types::LightClientUpdate`. -/
inductive ConsensusUpdate where
  | syncCommitteePeriodChange (nextSyncCommittee : SyncCommittee) (nextSyncCommitteeBranch : List H256)
      (data : LightClientUpdateData)
  | withinSyncCommitteePeriod (data : LightClientUpdateData)
  deriving DecidableEq

namespace ConsensusUpdate

def updateData : ConsensusUpdate → LightClientUpdateData
  | syncCommitteePeriodChange _ _ data => data
  | withinSyncCommitteePeriod data => data

def intoLightClientUpdate (u : ConsensusUpdate) : LightClientUpdate where
  attestedHeader := u.updateData.attestedHeader
  nextSyncCommittee :=
    match u with
    | syncCommitteePeriodChange next _ _ => some next
    | withinSyncCommitteePeriod _ => none
  nextSyncCommitteeBranch :=
    match u with
    | syncCommitteePeriodChange _ branch _ => some branch
    | withinSyncCommitteePeriod _ => none
  finalizedHeader := u.updateData.finalizedHeader
  finalityBranch := u.updateData.finalityBranch
  syncAggregate := u.updateData.syncAggregate
  signatureSlot := u.updateData.signatureSlot

end ConsensusUpdate

structure Header where
  trustedHeight : Height
  consensusUpdate : ConsensusUpdate
  ibcAccountProof : AccountProof
  deriving DecidableEq

structure Misbehaviour where
  syncCommittee : SyncCommittee
  trustedHeight : Height
  update1 : ConsensusUpdate
  update2 : ConsensusUpdate

/-- Sync committee where all the public keys are changed to additive inverses. -/
structure InverseSyncCommittee where
  pubkeys : List H384
  aggregatePubkey : H384
  deriving DecidableEq

structure StateUpdate where
  height : Nat
  clientState : Option ClientState
  consensusState : ConsensusState
  storageWrites : List (Period × InverseSyncCommittee)

structure ClientCreationResult where
  clientState : ClientState
  storageWrites : List (Period × InverseSyncCommittee)

inductive ClientError where
  | std
  | validateLightClient (e : Error)
  | verifyAccountStorageRoot (e : EvmStorage.StorageError)
  | notEnoughSignatures
  | integerOverflow
  | misbehaviourCannotExist (slot1 slot2 : Slot)
  | identicalMisbehaviourHeaders
  | noInitialSyncCommittee
  /-- A public key that is no point of the curve. -/
  | panic
  deriving DecidableEq

/-- The functions of the host, and the negation of a public key by `ark`. -/
structure Host where
  hashing : Hashing
  evmStorage : EvmStorage.Library
  aggregateG1 : List H384 → Option H384
  hashToG2 : Bytes → Option Bytes
  /-- Of the generator and the signature, and of the key and the message. -/
  pairingEquality : H768 → H384 → Bytes → Option Bool
  negate : H384 → Option H384

section Client

variable (host : Host)

/-! ## `verification.rs`, `inverse_sync_committee.rs` -/

def aggregateVerifySignature (aggregatePublicKey : H384) (inversePublicKeys : List H384)
    (msg : Bytes) (signature : H768) : Except Error Unit := do
  let pubkey ← orErr (host.aggregateG1 (aggregatePublicKey :: inversePublicKeys))
    (.clientSignatureVerification "bls12_381_aggregate_g1")
  let hashedMsg ← orErr (host.hashToG2 msg) (.clientSignatureVerification "bls12_381_hash_to_g2")
  let valid ← orErr (host.pairingEquality signature pubkey hashedMsg)
    (.clientSignatureVerification "bls12_381_pairing_equality")
  ensure (valid = true) .crypto

def verificationContext : BlsVerify where
  INVERSE := true
  aggregateVerifySignature := aggregateVerifySignature host

/-- The aggregate key stays as it is. -/
def takeInverse (syncCommittee : SyncCommittee) : Option InverseSyncCommittee := do
  let pubkeys ← syncCommittee.pubkeys.mapM host.negate
  pure ⟨pubkeys, syncCommittee.aggregatePubkey⟩

/-- A cast: the keys stay inverted. -/
def InverseSyncCommittee.asSyncCommittee (c : InverseSyncCommittee) : SyncCommittee :=
    ⟨c.pubkeys, c.aggregatePubkey⟩

/-! ## `client.rs` -/

def Timestamp.fromSecs (secs : Nat) : Nat := secs * 1000000000 % 2 ^ 64

def verifyCreation (clientState : ClientState) (consensusState : ConsensusState) :
    Except ClientError ClientCreationResult := do
  let initial ← orErr clientState.initialSyncCommittee .noInitialSyncCommittee
  let currentSyncPeriod :=
    computeSyncCommitteePeriodAtSlot clientState.chainSpec.chainSpec consensusState.slot
  let current ← orErr (takeInverse host initial.currentSyncCommittee) .panic
  let next ← orErr (takeInverse host initial.nextSyncCommittee) .panic
  pure {
    clientState := { clientState with initialSyncCommittee := none }
    storageWrites := [(currentSyncPeriod, current), (currentSyncPeriod + 1, next)] }

/-- The committee as the current or as the next one, by the kind of the update. -/
def committeesFor (update : ConsensusUpdate) (syncCommittee : SyncCommittee) :
    Option SyncCommittee × Option SyncCommittee :=
  match update with
  | .syncCommitteePeriodChange .. => (none, some syncCommittee)
  | .withinSyncCommitteePeriod _ => (some syncCommittee, none)

/-- The update against the committee, as a client with this state and this trusted slot validates it. -/
def validate (clientState : ClientState) (trustedSlot currentSlot : Slot) (syncCommittee : SyncCommittee)
    (committeesOf update : ConsensusUpdate) : Except ClientError Unit :=
  let (currentSyncCommittee, nextSyncCommittee) := committeesFor committeesOf syncCommittee
  (validateLightClientUpdate clientState.chainSpec.chainSpec host.hashing clientState.chainId
    update.intoLightClientUpdate currentSyncCommittee nextSyncCommittee currentSlot trustedSlot
    clientState.genesisValidatorsRoot (verificationContext host)).mapError .validateLightClient

def checkSupermajority (update : ConsensusUpdate) : Except ClientError Unit :=
  ensure (validateSignatureSupermajority update.updateData.syncAggregate.syncCommitteeBits = true)
    .notEnoughSignatures

def advance (clientState : ClientState) (consensusState : ConsensusState) (header : Header) :
    ClientState × ConsensusState :=
  let finalized := header.consensusUpdate.updateData.finalizedHeader
  if consensusState.slot < finalized.beacon.slot then
    (if clientState.latestHeight < finalized.execution.blockNumber then
        { clientState with latestHeight := finalized.execution.blockNumber }
      else clientState,
     { slot := finalized.beacon.slot
       stateRoot := finalized.execution.stateRoot
       storageRoot := header.ibcAccountProof.storageRoot
       timestamp := Timestamp.fromSecs finalized.execution.timestamp })
  else (clientState, consensusState)

def committeeWrites (C : ChainSpec) (update : ConsensusUpdate) :
    Except ClientError (List (Period × InverseSyncCommittee)) :=
  match update with
  | .syncCommitteePeriodChange next _ data => do
    let period := computeSyncCommitteePeriodAtSlot C data.finalizedHeader.beacon.slot
    let inverse ← orErr (takeInverse host next) .panic
    pure [(period + 1, inverse)]
  | .withinSyncCommitteePeriod _ => pure []

def updateState (clientState : ClientState) (consensusState : ConsensusState) (header : Header) :
    Except ClientError StateUpdate := do
  let finalized := header.consensusUpdate.updateData.finalizedHeader
  let advanced := advance clientState consensusState header
  let storageWrites ← committeeWrites host clientState.chainSpec.chainSpec header.consensusUpdate
  pure {
    height := max header.trustedHeight.height finalized.execution.blockNumber
    clientState := if advanced.1.latestHeight = finalized.execution.blockNumber then some advanced.1 else none
    consensusState := advanced.2
    storageWrites := storageWrites }

/-- `verify_header` for the committee that was loaded. -/
def verifyHeaderWith (now : Nat) (clientState : ClientState) (consensusState : ConsensusState)
    (syncCommittee : InverseSyncCommittee) (header : Header) : Except ClientError StateUpdate := do
  let currentSlot ← orErr (computeSlotAtTimestamp clientState.chainSpec.chainSpec clientState.genesisTime now)
    .integerOverflow
  let update := header.consensusUpdate
  validate host clientState consensusState.slot currentSlot syncCommittee.asSyncCommittee update update
  checkSupermajority update
  (EvmStorage.verifyAccountStorageRoot host.evmStorage update.updateData.finalizedHeader.execution.stateRoot
    clientState.ibcContractAddress header.ibcAccountProof.proof header.ibcAccountProof.storageRoot).mapError
    .verifyAccountStorageRoot
  updateState host clientState consensusState header

/-- What is stored for a client. -/
structure Store where
  clientState : ClientState
  consensusState : Nat → Option ConsensusState
  syncCommittee : Period → Option InverseSyncCommittee

/-- The block time is in seconds; the committee is that of the period of the finalized slot. -/
def verifyHeader (store : Store) (now : Nat) (header : Header) : Except ClientError StateUpdate := do
  let consensusState ← orErr (store.consensusState header.trustedHeight.height) .std
  let finalizedSlot := header.consensusUpdate.updateData.finalizedHeader.beacon.slot
  let syncCommittee ← orErr
    (store.syncCommittee (computeSyncCommitteePeriodAtSlot store.clientState.chainSpec.chainSpec
      finalizedSlot)) .std
  verifyHeaderWith host now store.clientState consensusState syncCommittee header

/-- The second validation is of the first update again. -/
def verifyMisbehaviour (store : Store) (now : Nat) (consensusState : ConsensusState)
    (misbehaviour : Misbehaviour) : Except ClientError Unit := do
  let clientState := store.clientState
  let finalized1 := misbehaviour.update1.updateData.finalizedHeader
  let finalized2 := misbehaviour.update2.updateData.finalizedHeader
  ensure (finalized1.beacon.slot = finalized2.beacon.slot)
    (.misbehaviourCannotExist finalized1.beacon.slot finalized2.beacon.slot)
  ensure (finalized1 ≠ finalized2) .identicalMisbehaviourHeaders
  let currentSlot ← orErr (computeSlotAtTimestamp clientState.chainSpec.chainSpec clientState.genesisTime now)
    .integerOverflow
  let period := computeSyncCommitteePeriodAtSlot clientState.chainSpec.chainSpec finalized1.beacon.slot
  let syncCommittee ← orErr (store.syncCommittee period) .std
  let syncCommittee := syncCommittee.asSyncCommittee
  let update1 := misbehaviour.update1
  validate host clientState consensusState.slot currentSlot syncCommittee update1 update1
  checkSupermajority update1
  validate host clientState consensusState.slot currentSlot syncCommittee update1 update1
  checkSupermajority misbehaviour.update2

/-- `Height::new(1)`. -/
def FROZEN_HEIGHT : Height := .new 1

def misbehaviour (store : Store) (now : Nat) (m : Misbehaviour) : Except ClientError ClientState := do
  let consensusState ← orErr (store.consensusState m.trustedHeight.height) .std
  verifyMisbehaviour host store now consensusState m
  pure { store.clientState with frozenHeight := FROZEN_HEIGHT }

/-! ## The store -/

def writeCommittees (committees : Period → Option InverseSyncCommittee)
    (writes : List (Period × InverseSyncCommittee)) : Period → Option InverseSyncCommittee :=
  writes.foldl (fun committees w => Function.update committees w.1 (some w.2)) committees

/-- The core contract writes what the client answers. -/
def applyUpdate (store : Store) (update : StateUpdate) : Store where
  clientState := update.clientState.getD store.clientState
  consensusState := Function.update store.consensusState update.height (some update.consensusState)
  syncCommittee := writeCommittees store.syncCommittee update.storageWrites

def createClient (clientState : ClientState) (consensusState : ConsensusState) :
    Except ClientError Store := do
  let result ← verifyCreation host clientState consensusState
  pure {
    clientState := result.clientState
    consensusState := Function.update (fun _ => none) clientState.latestHeight (some consensusState)
    syncCommittee := writeCommittees (fun _ => none) result.storageWrites }

end Client

end UnionVoyager.Light.Ethereum
