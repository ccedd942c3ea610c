import Mathlib.Data.List.Sort
import UnionVoyager.Lib.Machine
import UnionVoyager.Light.Types

/-!
# The sui light client

`lib/sui-light-client-types`, `lib/sui-verifier` and `cosmwasm/lightclient/sui`: checkpoints signed
by a committee of validators, each with its voting rights, and proofs that a transaction of a
checkpoint wrote an object.

Outside the repository are `bcs`, `blake2b`, the bitmaps of `roaring` and the BLS functions of the
host.  Arithmetic on machine integers wraps, as it does in the release profile; an index out of
range and an `unwrap` are panics.

* `verifyCheckpoint`, `verifyMembership` — the verifier.
* `Store`, `create`, `verifyHeader`, `proveMembership`, `run` — the client.
-/

namespace UnionVoyager.Light.SuiClient

open Lib Function

/-! ## `sui-light-client-types` -/

abbrev ObjectID := H256

abbrev Digest := H256

/-- Of `BLS_G2_SIZE` bytes. -/
structure AuthorityPublicKeyBytes where
  bytes : Bytes
  length_eq : bytes.length = 96
  deriving DecidableEq

abbrev VotingRights := List (AuthorityPublicKeyBytes × UInt64)

structure Committee where
  epoch : UInt64
  votingRights : VotingRights

structure GasCostSummary where
  computationCost : UInt64
  storageCost : UInt64
  storageRebate : UInt64
  nonRefundableStorageFee : UInt64

structure EndOfEpochData where
  nextEpochCommittee : VotingRights
  nextEpochProtocolVersion : UInt64
  epochCommitments : List Digest

structure CheckpointSummary where
  epoch : UInt64
  sequenceNumber : UInt64
  networkTotalTransactions : UInt64
  contentDigest : Digest
  previousDigest : Option Digest
  epochRollingGasCostSummary : GasCostSummary
  timestampMs : UInt64
  checkpointCommitments : List Unit
  endOfEpochData : Option EndOfEpochData
  versionSpecificData : Bytes

structure ExecutionDigests where
  transaction : Digest
  effects : Digest

/-- The signatures of the users are bytes. -/
structure CheckpointTransactionContents where
  digest : ExecutionDigests
  userSignatures : List (Bytes × Option UInt64)

inductive CheckpointContents where
  | v1 (transactions : List ExecutionDigests) (userSignatures : List (List Bytes))
  | v2 (transactions : List CheckpointTransactionContents)

/-- `Data::Move`. -/
structure MoveObject where
  contents : Bytes
  /-- The fields that are only serialised. -/
  rest : Bytes

structure ObjectInner where
  data : MoveObject
  /-- The fields that are only serialised. -/
  rest : Bytes

inductive ObjectOut where
  | notExist
  | objectWrite (digest : Digest) (owner : Bytes)
  | packageWrite (version : UInt64) (digest : Digest)

structure EffectsObjectChange where
  outputState : ObjectOut
  /-- The fields that are only serialised. -/
  rest : Bytes

inductive TransactionEffects where
  | v1 (rest : Bytes)
  | v2 (changedObjects : List (ObjectID × EffectsObjectChange)) (rest : Bytes)

structure StorageProof where
  checkpointContents : CheckpointContents
  transactionEffects : TransactionEffects
  object : ObjectInner

/-- `SuiBitmap`, by the entries of its iterator. -/
structure SuiBitmap where
  entries : List UInt32

structure AuthorityQuorumSignInfo where
  epoch : UInt64
  signature : Bytes
  signersMap : SuiBitmap

structure Header where
  trustedHeight : UInt64
  checkpointSummary : CheckpointSummary
  signInfo : AuthorityQuorumSignInfo

/-! ## Encodings and digests -/

structure Codec where
  blake2b : Bytes → Digest
  bcsSummary : CheckpointSummary → Bytes
  bcsContents : CheckpointContents → Bytes
  bcsObject : ObjectInner → Bytes
  bcsEffects : TransactionEffects → Bytes
  /-- `bcs::from_bytes::<(ObjectID, Bytes, Bytes)>`. -/
  bcsField : Bytes → Option (ObjectID × Bytes × Bytes)

def leBytes (w n : Nat) : Bytes := (beBytes w n).reverse

section Codec

variable (codec : Codec)

def CheckpointContents.digest (c : CheckpointContents) : Digest :=
  codec.blake2b (utf8 "CheckpointContents::" ++ codec.bcsContents c)

def ObjectInner.digest (o : ObjectInner) : Digest := codec.blake2b (utf8 "Object::" ++ codec.bcsObject o)

def TransactionEffects.digest (e : TransactionEffects) : Digest :=
  codec.blake2b (utf8 "TransactionEffects::" ++ codec.bcsEffects e)

/-- `IntentScope::CheckpointSummary`, `IntentVersion::V0`, `AppId::Sui`. -/
def intent : Bytes := [2, 0, 0]

/-- The signed message: the intent message of the summary, and its epoch. -/
def checkpointMessage (checkpoint : CheckpointSummary) : Bytes :=
  intent ++ codec.bcsSummary checkpoint ++ leBytes 8 checkpoint.epoch.toNat

/-- `TypeTag::Vector(TypeTag::U8)`. -/
def vectorU8Tag : Bytes := [6, 1]

def CHILD_OBJECT_ID : UInt8 := 0xf0

def calculateDynamicFieldObjectId (parent : ObjectID) (commitmentPrefix : UInt8) (key : Bytes) : ObjectID :=
  codec.blake2b (CHILD_OBJECT_ID :: parent ++ leBytes 8 (key.length + 3) ++
    [UInt8.ofNat (key.length + 2), commitmentPrefix, UInt8.ofNat key.length] ++ key ++ vectorU8Tag)

end Codec

/-! ## `sui-verifier` -/

/-- `sui_verifier::Error` and the error of the client, each of which wraps the other. -/
inductive Error where
  | cwStd
  | cwVerification
  | noInitialCommittee
  | signatureVerification
  | objectMismatch (given proven : ObjectID) (commitmentsObject : ObjectID) (key : Bytes)
  | keyMismatch (given proven : Bytes)
  | valueMismatch (given proven : Bytes)
  | effectNotFound (object : H256)
  | objectDigestMismatch (given proven : Digest)
  | contentsDigestMismatch (given proven : Digest)

inductive Failure where
  | err (e : Error)
  | panic (site : String)

/-- The functions of the host. -/
structure Host where
  aggregateG2 : Bytes → Option Bytes
  hashToG1 : Bytes → Bytes → Option Bytes
  pairingEquality : Bytes → Bytes → Bytes → Bytes → Option Bool

def BLS_DST : Bytes := utf8 "BLS_SIG_BLS12381G1_XMD:SHA-256_SSWU_RO_NUL_"

def BLS_GENERATOR : Bytes :=
  [147, 224, 43, 96, 82, 113, 159, 96, 125, 172, 211, 160, 136, 39, 79, 101, 89, 107, 208,
    208, 153, 32, 182, 26, 181, 218, 97, 187, 220, 127, 80, 73, 51, 76, 241, 18, 19, 148, 93,
    87, 229, 172, 125, 5, 93, 4, 43, 126, 2, 74, 162, 178, 240, 143, 10, 145, 38, 8, 5, 39, 45,
    197, 16, 81, 198, 228, 122, 212, 250, 64, 59, 2, 180, 81, 11, 100, 122, 227, 209, 119, 11,
    172, 3, 38, 168, 5, 187, 239, 212, 128, 86, 200, 193, 33, 189, 184]

def verifySignature (host : Host) (publicKeys : List AuthorityPublicKeyBytes) (msg signature : Bytes) :
    Except Failure Unit := do
  let pubkeys := (publicKeys.map AuthorityPublicKeyBytes.bytes).flatten
  let aggregatePubkey ← orErr (host.aggregateG2 pubkeys) (.err .cwVerification)
  let hashedMsg ← orErr (host.hashToG1 msg BLS_DST) (.err .cwVerification)
  let valid ← orErr (host.pairingEquality signature BLS_GENERATOR hashedMsg aggregatePubkey)
    (.err .cwVerification)
  ensure (valid = true) (.err .signatureVerification)

/-- The loop of `verify_checkpoint`, with what it has seen and selected so far. -/
def selectPublicKeys (votingRights : VotingRights) :
    List UInt32 → List UInt32 → List AuthorityPublicKeyBytes → Except Failure (List AuthorityPublicKeyBytes)
  | [], _, selected => .ok selected
  | authorityIndex :: rest, seen, selected =>
    if authorityIndex ∈ seen then selectPublicKeys votingRights rest seen selected
    else do
      let member ← orErr votingRights[authorityIndex.toNat]? (.panic "index out of bounds")
      selectPublicKeys votingRights rest (authorityIndex :: seen) (selected ++ [member.1])

section Verifier

variable (codec : Codec)

def verifyCheckpoint (host : Host) (committee : Committee) (checkpoint : CheckpointSummary)
    (signInfo : AuthorityQuorumSignInfo) : Except Failure Unit := do
  let selectedPublicKeys ← selectPublicKeys committee.votingRights signInfo.signersMap.entries [] []
  verifySignature host selectedPublicKeys (checkpointMessage codec checkpoint) signInfo.signature

def ObjectOut.write? : ObjectOut → Option Digest
  | objectWrite digest _ => some digest
  | _ => none

def findWriteEffect (effects : TransactionEffects) (object : ObjectID) : Option Digest :=
  match effects with
  | .v1 _ => none
  | .v2 changedObjects _ =>
    changedObjects.findSome? fun eff => if eff.1 = object then eff.2.outputState.write? else none

/-- `commitment_prefix != proven_key[0] && key.len() as u8 != proven_key[1] && key != proven_key[2..]`. -/
def keyDiffers (commitmentPrefix : UInt8) (key provenKey : Bytes) : Except Failure Bool := do
  let first ← orErr provenKey[0]? (.panic "index out of bounds")
  if commitmentPrefix ≠ first then do
    let second ← orErr provenKey[1]? (.panic "index out of bounds")
    pure (decide (UInt8.ofNat key.length ≠ second ∧ key ≠ provenKey.drop 2))
  else pure false

def CheckpointContents.effects : CheckpointContents → List Digest
  | v1 transactions _ => transactions.map ExecutionDigests.effects
  | v2 transactions => transactions.map fun e => e.digest.effects

def verifyMembership (commitmentsObject : ObjectID) (commitmentPrefix : UInt8) (key value : Bytes)
    (object : ObjectInner) (effects : TransactionEffects) (checkpointContents : CheckpointContents)
    (contentsDigest : Digest) : Except Failure Unit := do
  let commitmentObject := calculateDynamicFieldObjectId codec commitmentsObject commitmentPrefix key
  let (provenObject, provenKey, provenValue) ← orErr (codec.bcsField object.data.contents) (.panic "unwrap")
  ensure (commitmentObject = provenObject)
    (.err (.objectMismatch commitmentObject provenObject commitmentsObject key))
  let differs ← keyDiffers commitmentPrefix key provenKey
  ensure (differs = false) (.err (.keyMismatch key (provenKey.drop 2)))
  ensure (value = provenValue) (.err (.valueMismatch value provenValue))
  let digest ← orErr (findWriteEffect effects commitmentObject) (.err (.effectNotFound commitmentObject))
  ensure (digest = object.digest codec) (.err (.objectDigestMismatch (object.digest codec) digest))
  let effectsDigest := effects.digest codec
  ensure (effectsDigest ∈ checkpointContents.effects) (.err (.effectNotFound effectsDigest))
  ensure (contentsDigest = checkpointContents.digest codec)
    (.err (.contentsDigestMismatch contentsDigest (checkpointContents.digest codec)))

end Verifier

/-! ## `cosmwasm/lightclient/sui` -/

/-- `ClientStateV1`. -/
structure ClientState where
  chainId : String
  latestCheckpoint : UInt64
  frozenHeight : UInt64
  ibcStore : ObjectID
  initialCommittee : Option Committee

structure ConsensusState where
  /-- In nanoseconds. -/
  timestamp : UInt64
  contentDigest : Digest

/-- What the core keeps for the client: its states, and its `CommitteeStore`. -/
structure Store where
  clientState : ClientState
  consensusStates : UInt64 → Option ConsensusState
  committees : UInt64 → Option Committee

structure StateUpdate where
  height : UInt64
  clientState : Option ClientState
  consensusState : ConsensusState
  committee : Option (UInt64 × Committee)

def COMMITMENT_PREFIX : UInt8 := 1

/-- `verify_creation`, and what the core stores. -/
def create (clientState : ClientState) (consensusState : ConsensusState) : Except Failure Store := do
  let initialCommittee ← orErr clientState.initialCommittee (.err .noInitialCommittee)
  pure {
    clientState := { clientState with initialCommittee := none }
    consensusStates := update (fun _ => none) clientState.latestCheckpoint (some consensusState)
    committees := update (fun _ => none) initialCommittee.epoch (some initialCommittee) }

def verifyHeader (codec : Codec) (host : Host) (s : Store) (header : Header) :
    Except Failure StateUpdate := do
  let checkpoint := header.checkpointSummary
  let committee ← orErr (s.committees checkpoint.epoch) (.err .cwStd)
  verifyCheckpoint codec host committee checkpoint header.signInfo
  pure {
    height := checkpoint.sequenceNumber
    clientState :=
      if s.clientState.latestCheckpoint < checkpoint.sequenceNumber then
        some { s.clientState with latestCheckpoint := checkpoint.sequenceNumber }
      else none
    consensusState := ⟨checkpoint.timestampMs * 1000000, checkpoint.contentDigest⟩
    committee := checkpoint.endOfEpochData.map fun epochEnding =>
      (checkpoint.epoch + 1, ⟨checkpoint.epoch + 1, epochEnding.nextEpochCommittee⟩) }

/-- `verify_membership` of the client. -/
def proveMembership (codec : Codec) (s : Store) (height : UInt64) (key : Bytes)
    (storageProof : StorageProof) (value : Bytes) : Except Failure Unit := do
  let consensusState ← orErr (s.consensusStates height) (.err .cwStd)
  verifyMembership codec s.clientState.ibcStore COMMITMENT_PREFIX key value storageProof.object
    storageProof.transactionEffects storageProof.checkpointContents consensusState.contentDigest

/-- What the core writes for an accepted header. -/
def Store.apply (s : Store) (u : StateUpdate) : Store where
  clientState := u.clientState.getD s.clientState
  consensusStates := update s.consensusStates u.height (some u.consensusState)
  committees := match u.committee with
    | some (epoch, committee) => update s.committees epoch (some committee)
    | none => s.committees

/-- A header that is refused leaves no trace. -/
def step (codec : Codec) (host : Host) (s : Store) (header : Header) : Store × List Unit :=
  match verifyHeader codec host s header with
  | .ok u => (s.apply u, [])
  | .error _ => (s, [])

def run (codec : Codec) (host : Host) (s : Store) (headers : List Header) : Store :=
  Machine.run (step codec host) s headers

end UnionVoyager.Light.SuiClient
