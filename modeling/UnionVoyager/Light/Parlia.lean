import UnionVoyager.Light.Types

/-!
# The parlia verifier

`lib/parlia-types` and `lib/parlia-verifier`: a chain of BSC headers whose last one carries an
attestation, signed by the validators, of an earlier one.

Outside the repository are keccak256 over the `rlp` encodings (`hash`, `voteHash`), the `rlp`
decoder of an attestation and the BLS signatures of the host.  Arithmetic on machine integers wraps,
as it does in the release profile; an index out of range is a panic.
-/

namespace UnionVoyager.Light.Parlia

open Lib

/-- A 48-byte public key. -/
abbrev H384 := Bytes

/-- A 96-byte signature. -/
abbrev H768 := Bytes

/-! ## `parlia-types` -/

/-- A `ValidatorsBitSet`. -/
abbrev ValidatorsBitSet := UInt64

/-- The shift is taken modulo 64. -/
def isSet (bits : ValidatorsBitSet) (idx : Nat) : Bool := bits &&& (1 <<< UInt64.ofNat idx) != 0

/-- `count_ones`. -/
def count (bits : ValidatorsBitSet) : Nat := (List.range 64).countP (isSet bits)

structure VoteData where
  sourceNumber : UInt64
  sourceHash : H256
  targetNumber : UInt64
  targetHash : H256
  deriving DecidableEq

structure VoteAttestation where
  voteAddressSet : ValidatorsBitSet
  aggSignature : H768
  data : VoteData
  deriving DecidableEq

/-- Address and public key. -/
abbrev Validator := H160 × H384

abbrev Valset := List Validator

structure ParliaHeader where
  parentHash : H256
  stateRoot : H256
  number : U256
  /-- In seconds. -/
  timestamp : UInt64
  extraData : Bytes
  mixHash : H256
  /-- The fields that are only hashed. -/
  rest : Bytes
  deriving DecidableEq

/-- Nanoseconds; the last two bytes of `mix_hash` are milliseconds. -/
def ParliaHeader.fullTimestamp (h : ParliaHeader) : UInt64 :=
  let millis := UInt64.ofNat (beNat ((h.mixHash.drop 30).take 2))
  (h.timestamp * 1000 + millis) * 1000000

def plusDuration (timestamp duration : UInt64) : Option UInt64 :=
  if timestamp.toNat + duration.toNat < 2 ^ 64 then some (timestamp + duration) else none

/-! ## `parlia-verifier` -/

def TURN_LENGTH : UInt64 := 8

def EPOCH_LENGTH : UInt64 := 1000

def EXTRA_SEAL_LEN : Nat := 65

def EXTRA_VANITY_LEN : Nat := 32

def NEXT_TURN_LENGTH_SIZE : Nat := 1

def VAL_COUNT_SIZE : Nat := 1

def VAL_ENTRY_LEN : Nat := 20 + 48

def EXTRA_DATA_MIN_LEN : Nat := EXTRA_VANITY_LEN + EXTRA_SEAL_LEN

inductive Error where
  | notEnoughHeaders
  | invalidChain
  | invalidAttestation
  | noAttestation
  | invalidExtraDataLen (len : Nat)
  | invalidTurnLength (found : UInt64)
  | notEnoughVals
  | rlp
  | contextError
  | supermajorityNotReached
  | blockNumberTooLarge
  | invalidTrustedValsetEpochBlockNumber (expected found : UInt64)
  | valsetNotSorted
  | headerExpired
  | panic
  deriving DecidableEq

/-- The hashes and the decoder. -/
structure Codec where
  hash : ParliaHeader → H256
  voteHash : VoteData → H256
  decodeVoteAttestation : Bytes → Option VoteAttestation

structure VerificationContext where
  currentTimestamp : UInt64
  getValset : UInt64 → Option Valset
  /-- Public keys, message and signature. -/
  verify : List H384 → Bytes → H768 → Bool

section Verifier

variable (codec : Codec) (ctx : VerificationContext)

/-- `as_chunks`, without the rest. -/
def chunks (size : Nat) (data : Bytes) : List Bytes :=
  (List.range (data.length / size)).map fun i => (data.drop (size * i)).take size

def decodeAttestation (data : Bytes) : Except Error (Option VoteAttestation) :=
  if data = [] then pure none
  else do
    let attestation ← orErr (codec.decodeVoteAttestation data) .rlp
    pure (some attestation)

/-- The extra data between vanity and seal. -/
def payload (data : Bytes) : Except Error Bytes := do
  ensure (EXTRA_DATA_MIN_LEN ≤ data.length) (.invalidExtraDataLen data.length)
  pure ((data.take (data.length - EXTRA_SEAL_LEN)).drop EXTRA_VANITY_LEN)

def parseEpochRotationHeaderExtraData (data : Bytes) : Except Error (Option VoteAttestation × Valset) := do
  let data ← payload data
  let num ← orErr data.head? .panic
  let num := num.toNat
  let vals := ((chunks VAL_ENTRY_LEN (data.drop 1)).map fun x => (x.take 20, (x.drop 20).take 48)).take num
  ensure (vals.length = num) .notEnoughVals
  let turnLength ← orErr data[VAL_COUNT_SIZE + VAL_ENTRY_LEN * num]? .panic
  ensure (turnLength.toUInt64 = TURN_LENGTH) (.invalidTurnLength turnLength.toUInt64)
  let attestation ← decodeAttestation codec
    (data.drop (VAL_COUNT_SIZE + VAL_ENTRY_LEN * num + NEXT_TURN_LENGTH_SIZE))
  pure (attestation, vals)

def parseHeaderExtraData (data : Bytes) : Except Error (Option VoteAttestation) := do
  let data ← payload data
  decodeAttestation codec data

def isEpochRotationBlock (blockNumber : U256) : Bool := blockNumber.toNat % EPOCH_LENGTH.toNat = 0

def getVoteAttestationFromHeaderExtraData (header : ParliaHeader) : Except Error (Option VoteAttestation) :=
  if isEpochRotationBlock header.number then
    Prod.fst <$> parseEpochRotationHeaderExtraData codec header.extraData
  else parseHeaderExtraData codec header.extraData

def divCeil (a b : UInt64) : UInt64 := UInt64.ofNat ((a.toNat + b.toNat - 1) / b.toNat)

def calculateSigningValsetEpochBlockNumber (h valsetSize : UInt64) : UInt64 :=
  divCeil (h - TURN_LENGTH * divCeil valsetSize 2 - EPOCH_LENGTH) EPOCH_LENGTH * EPOCH_LENGTH

/-- More than two thirds, by the number of bits. -/
def checkSupermajority (voteAttestation : VoteAttestation) (valsetSize : Nat) : Bool :=
  decide (valsetSize * 2 / 3 < count voteAttestation.voteAddressSet)

/-- One link of the chain; the number is added to as a `U256`, with a panic where it overflows. -/
def checkParent (child parent : ParliaHeader) : Except Error ParliaHeader := do
  ensure (parent.number.toNat + 1 < 2 ^ 256) .panic
  ensure (child.number.toNat = parent.number.toNat + 1 ∧ child.parentHash = codec.hash parent) .invalidChain
  pure parent

/-- The bits of an `usize` of the contract. -/
def USIZE_BITS : Nat := 32

/-- Where in a chain of this length, whose last number is `last`, the header with a number should be. -/
def position (len : Nat) (last number : UInt64) : Nat :=
  (len - 1 + (2 ^ USIZE_BITS - (last - number).toNat % 2 ^ USIZE_BITS)) % 2 ^ USIZE_BITS

/-- The order of the members of a valset: by address, then by public key. -/
def memberLt (a b : Validator) : Bool := decide (a.1 < b.1 ∨ (a.1 = b.1 ∧ a.2 < b.2))

def isSortedBy (lt : Validator → Validator → Bool) : List Validator → Bool
  | a :: b :: rest => lt a b && isSortedBy lt (b :: rest)
  | _ => true

def signingValset (bits : ValidatorsBitSet) (valset : Valset) : Valset :=
  (valset.zipIdx.filter fun (_, idx) => isSet bits idx).map Prod.fst

/-- The block number and the new validators, where the header is at the end of an epoch. -/
def epochRotationData (header : ParliaHeader) : Except Error (Option (UInt64 × Valset)) :=
  if isEpochRotationBlock header.number then do
    let (_, newValset) ← parseEpochRotationHeaderExtraData codec header.extraData
    let number ← orErr header.number.toU64 .blockNumberTooLarge
    pure (some (number, newValset))
  else pure none

def verifyHeader (chain : List ParliaHeader) (unbondPeriod : UInt64)
    (trustedValsetEpochBlockNumber : UInt64) :
    Except Error (ParliaHeader × Option (UInt64 × Valset)) := do
  ensure (3 ≤ chain.length) .notEnoughHeaders
  let attestation ← orErr chain.getLast? .panic
  -- 1. not expired, by the timestamp of the header that carries the attestation
  let expires ← orErr (plusDuration attestation.fullTimestamp unbondPeriod) .headerExpired
  ensure (ctx.currentTimestamp ≤ expires) .headerExpired
  -- 2.
  let oldestParentHeader ← (chain.reverse.drop 1).foldlM (checkParent codec) attestation
  -- 3.
  let voteAttestation ← getVoteAttestationFromHeaderExtraData codec attestation
  let voteAttestation ← orErr voteAttestation .noAttestation
  let attestationBlockNumber ← orErr attestation.number.toU64 .blockNumberTooLarge
  let data := voteAttestation.data
  let sourceHeader ← orErr chain[position chain.length attestationBlockNumber data.sourceNumber]? .panic
  let targetHeader ← orErr chain[position chain.length attestationBlockNumber data.targetNumber]? .panic
  ensure (data.sourceHash = codec.hash sourceHeader ∧ data.targetHash = codec.hash targetHeader)
    .invalidAttestation
  let trustedValset ← orErr (ctx.getValset trustedValsetEpochBlockNumber) .contextError
  let epochBlockNumber :=
    calculateSigningValsetEpochBlockNumber attestationBlockNumber (UInt64.ofNat trustedValset.length)
  ensure (trustedValsetEpochBlockNumber = epochBlockNumber)
    (.invalidTrustedValsetEpochBlockNumber trustedValsetEpochBlockNumber epochBlockNumber)
  ensure (checkSupermajority voteAttestation trustedValset.length = true) .supermajorityNotReached
  let signing := signingValset voteAttestation.voteAddressSet trustedValset
  ensure (isSortedBy memberLt signing = true) .valsetNotSorted
  -- 4.
  ensure (ctx.verify (signing.map Prod.snd) (codec.voteHash data) voteAttestation.aggSignature =
    true) .contextError
  -- 5.
  let rotation ← epochRotationData codec oldestParentHeader
  pure (oldestParentHeader, rotation)

end Verifier

end UnionVoyager.Light.Parlia
