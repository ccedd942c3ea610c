import UnionVoyager.Lib.Bytes
import UnionVoyager.Light.Gnark

/-!
# The CometBLS circuit

`TendermintLightClientAPI.Verify` (`galoisd/pkg/lightclient/common.go`), the key aggregation and signature
check it uses (`galoisd/pkg/bls/api.go`), the header gadgets (`header.go`) and `nonadjacent/circuit.go`.

A circuit is the set of its constraints, so `Verify` and `Define` are structures of propositions
about the private inputs; an unrolled loop is a recursion on the number of slots done.  `MiMC`, the
curve and the pairing are parameters (`Gadgets`), and point addition is the addition of a
commutative monoid.
-/

namespace UnionVoyager.Light.CometBls

open Lib Gnark

/-- Max number of validators the light client can handle. -/
def MaxVal : Nat := 128

/-- The gadgets of gnark that are not computed here. -/
structure Gadgets (P Q : Type) where
  mimc : List F → F
  /-- The point of G1 whose coordinates have these limbs. -/
  point : List F → List F → P
  generator : P
  negG1Gen : P
  isOnG1 : P → Prop
  isOnG2 : Q → Prop
  pairingCheck : List (P × Q) → Prop
  hashToG2 : F → F → Q

structure Validator where
  hashableX : F
  hashableXMSB : F
  hashableY : F
  hashableYMSB : F
  power : F

/-- `TendermintLightClientInput`; of the array of validators the circuit reads the first `MaxVal` slots. -/
structure Input (Q : Type) where
  sig : Q
  validators : Nat → Validator
  nbOfVal : F
  nbOfSignature : F
  bitmap : F

def repack (unpacked : List F) (sizeOfInput sizeOfElem : Nat) : List F :=
  (List.range (sizeOfInput / sizeOfElem)).map fun i =>
    fromBinary ((unpacked.drop (i * sizeOfElem)).take sizeOfElem)

def unpack (packed : F) (sizeOfInput sizeOfElem : Nat) : List F :=
  if sizeOfElem = 1 then toBinary packed (sizeOfInput / sizeOfElem)
  else repack (toBinary packed sizeOfInput) sizeOfInput sizeOfElem

section Verify

variable {P Q : Type} [AddCommMonoid P] (g : Gadgets P Q) (input : Input Q)

/-! ## One slot -/

def Validator.leaf (v : Validator) : F := g.mimc
    [v.hashableX, v.hashableY, v.hashableXMSB, v.hashableYMSB, v.power]

/-- A coordinate of the public key, with its bit 253 put back. -/
def coordinate (hashable msb : F) : List F := repack ((unpack hashable 256 1).set 253 msb) 256 64

def Validator.publicKey (v : Validator) : P :=
  g.point (coordinate v.hashableX v.hashableXMSB) (coordinate v.hashableY v.hashableYMSB)

/-- `bitmapMask` before the slot `i`.  When it is used up, the source sets it to `cannotSign`. -/
def bitmapMask (nbOfVal : F) : Nat → F
  | 0 => nbOfVal
  | i + 1 =>
    let cannotSign := isZero (bitmapMask nbOfVal i)
    select cannotSign cannotSign (bitmapMask nbOfVal i - 1)

def cannotSign (i : Nat) : F := isZero (bitmapMask input.nbOfVal i)

def signed (i : Nat) : F := (toBinary input.bitmap MaxVal).getD i 0

def actuallySigned (i : Nat) : F := select (cannotSign input i) 0 (signed input i)

/-- What the slot adds to the total voting power. -/
def totalShare (i : Nat) : F := select (cannotSign input i) 0 (input.validators i).power

def leafHashAt (i : Nat) : F := select (cannotSign input i) 0 (leafHash g.mimc ((input.validators i).leaf g))

/-! ## The accumulators -/

/-- What the callback of `WithAggregation` assigns. -/
structure Aggregated (P : Type) where
  totalVotingPower : F
  currentVotingPower : F
  publicKey : P
  nbOfKeys : F

/-- After the first slots; the sum of keys starts at the generator, which the first key replaces. -/
def aggregate : Nat → Aggregated P
  | 0 => ⟨0, 0, g.generator, 0⟩
  | i + 1 =>
    let acc := aggregate i
    let v := input.validators i
    let selector := actuallySigned input i
    { totalVotingPower := acc.totalVotingPower + totalShare input i
      currentVotingPower := acc.currentVotingPower + select selector v.power 0
      publicKey :=
        select selector
          (select (isZero acc.nbOfKeys) (v.publicKey g) (acc.publicKey + v.publicKey g)) acc.publicKey
      nbOfKeys := acc.nbOfKeys + selector }

structure VerifySignature (publicKey : P) (message signature : Q) : Prop where
  generatorOnG1 : g.isOnG1 g.negG1Gen
  keyOnG1 : g.isOnG1 publicKey
  messageOnG2 : g.isOnG2 message
  signatureOnG2 : g.isOnG2 signature
  pairing : g.pairingCheck [(g.negG1Gen, signature), (publicKey, message)]

/-- `Verify`: what an assignment of the private inputs has to satisfy. -/
structure Verify (message : Q) (expectedValRoot powerNumerator powerDenominator : F) : Prop where
  nbOfVal : AssertIsLessOrEqual input.nbOfVal (MaxVal : F)
  nbOfSignature : AssertIsLessOrEqual input.nbOfSignature input.nbOfVal
  oneSignature : AssertIsLessOrEqual 1 input.nbOfSignature
  bitmap : FitsIn input.bitmap MaxVal
  coordinates : ∀ i < MaxVal, FitsIn (input.validators i).hashableX 256 ∧
    FitsIn (input.validators i).hashableY 256
  msbs : ∀ i < MaxVal, AssertIsBoolean (input.validators i).hashableXMSB ∧
    AssertIsBoolean (input.validators i).hashableYMSB
  keys : (aggregate g input MaxVal).nbOfKeys = input.nbOfSignature
  power : AssertIsLessOrEqual ((aggregate g input MaxVal).totalVotingPower * powerNumerator)
    ((aggregate g input MaxVal).currentVotingPower * powerDenominator)
  root : expectedValRoot = rootHash g.mimc ((List.range MaxVal).map (leafHashAt g input)) input.nbOfVal
  signature : VerifySignature g (aggregate g input MaxVal).publicKey message input.sig

end Verify

/-! ## The header -/

/-- The first byte of a hash and the rest of it. -/
structure UnconsHash where
  head : F
  tail : F

structure BlockVote where
  blockPartSetHeaderTotal : F
  blockPartSetHeaderHash : UnconsHash
  round : F

structure BlockHeader where
  versionBlock : F
  versionApp : F
  chainID : F
  height : F
  timeSecs : F
  timeNanos : F
  lastBlockHash : F
  lastBlockPartSetHeaderTotal : F
  lastBlockPartSetHeaderHash : UnconsHash
  lastCommitHash : UnconsHash
  dataHash : UnconsHash
  validatorsHash : F
  nextValidatorsHash : F
  consensusHash : UnconsHash
  appHash : UnconsHash
  lastResultsHash : UnconsHash
  evidenceHash : UnconsHash
  proposerAddress : UnconsHash

/-- Bytes of the circuit: `uints.U8` holds a value below 256. -/
def toBytes (vals : List F) : Bytes := vals.map fun v => UInt8.ofNat v.val

/-- `unpack` of the header gadget: 32 bytes, the most significant one first. -/
def unpackBytes (x : F) : Bytes := toBytes (unpack x 256 8).reverse

/-- `unpackHash`: the bytes of the tail and the head, reversed together. -/
def unpackHash (x : UnconsHash) : Bytes := toBytes (unpack x.tail 248 8 ++ (unpack x.head 8 8).take 1).reverse

/-- What `InputsHash` writes to the hash. -/
def BlockHeader.inputs (h : BlockHeader) (trustedValRoot : F) : Bytes :=
  unpackBytes h.chainID ++ unpackBytes h.height ++ unpackBytes h.timeSecs ++ unpackBytes h.timeNanos ++
    unpackBytes h.validatorsHash ++ unpackBytes h.nextValidatorsHash ++ unpackHash h.appHash ++
    unpackBytes trustedValRoot

def BlockHeader.inputsHash (sha256 : Bytes → Bytes) (h : BlockHeader) (trustedValRoot : F) : Bytes :=
  sha256 (h.inputs trustedValRoot)

/-- `VerifyInputs`: all bytes but the most significant one are compared. -/
structure VerifyInputs (sha256 : Bytes → Bytes) (h : BlockHeader)
    (expectedHash trustedValRoot : F) : Prop where
  appHashHead : FitsIn h.appHash.head 8
  appHashTail : FitsIn h.appHash.tail 248
  bytes : ∀ i, 1 ≤ i → i < 32 → (unpackBytes expectedHash)[i]? = (h.inputsHash sha256 trustedValRoot)[i]?

section Circuit

variable {P Q : Type} [AddCommMonoid P] (g : Gadgets P Q)

/-- `uncons` of `BlockHash`: the root of the two parts. -/
def UnconsHash.root (x : UnconsHash) : F := rootHash g.mimc [leafHash g.mimc x.head, leafHash g.mimc x.tail] 2

def BlockHeader.blockHash (h : BlockHeader) : F :=
  let leaves := [h.versionBlock, h.versionApp, h.chainID, h.height, h.timeSecs, h.timeNanos, h.lastBlockHash,
    h.lastBlockPartSetHeaderTotal, h.lastBlockPartSetHeaderHash.root g, h.lastCommitHash.root g,
    h.dataHash.root g, h.validatorsHash, h.nextValidatorsHash, h.consensusHash.root g, h.appHash.root g,
    h.lastResultsHash.root g, h.evidenceHash.root g, h.proposerAddress.root g]
  rootHash g.mimc (leaves.map (leafHash g.mimc)) (leaves.length : F)

def precommitType : F := 2

def voteSignBytes (h : BlockHeader) (vote : BlockVote) : F :=
  g.mimc [precommitType, h.height, vote.round, h.blockHash g, vote.blockPartSetHeaderTotal,
    vote.blockPartSetHeaderHash.head, vote.blockPartSetHeaderHash.tail, h.chainID]

/-- `Circuit`; only `inputsHash` is public. -/
structure Circuit (Q : Type) where
  domainSeparationTag : F
  trustedInput : Input Q
  trustedValRoot : F
  untrustedInput : Input Q
  vote : BlockVote
  header : BlockHeader
  inputsHash : F

/-- `HashToCurve` of the vote on the header. -/
def Circuit.message (c : Circuit Q) : Q := g.hashToG2 (voteSignBytes g c.header c.vote) c.domainSeparationTag

def trustedRatioNum : Nat := 1

def trustedRatioDen : Nat := 3

def untrustedRatioNum : Nat := 2

def untrustedRatioDen : Nat := 3

structure Define (sha256 : Bytes → Bytes) (c : Circuit Q) : Prop where
  inputs : VerifyInputs sha256 c.header c.inputsHash c.trustedValRoot
  trusted : Verify g c.trustedInput (c.message g) c.trustedValRoot (trustedRatioNum : F) (trustedRatioDen : F)
  untrusted : Verify g c.untrustedInput (c.message g) c.header.validatorsHash (untrustedRatioNum : F)
    (untrustedRatioDen : F)

end Circuit

end UnionVoyager.Light.CometBls
