import UnionVoyager.Light.Types
import UnionVoyager.Light.CometBls

/-!
# Four encodings of the public input

The public input of the CometBLS circuit is the sha256 of eight words, without its first byte: of
the prover (`getInputsHash` in `galoisd/grpc/server.go`), the circuit (`VerifyInputs`) and the two
verifiers (`public_inputs` of `cometbls-groth16-verifier`, `internalVerifyZKP` of
`CometblsClient.sol`).

Go's big integers are written by absolute value and panic when they do not fit, gnark reduces what
it is assigned modulo the order of the field, Rust refuses negative numbers, and Solidity's types
have none.
-/

namespace UnionVoyager.Light.CometBls

open Lib Gnark

/-- A 32-byte word (`H256`, `bytes32`). -/
abbrev Word := { b : Bytes // b.length = 32 }

/-- `ChainId` of `cometbls-light-client-types`: at most 31 bytes. -/
structure ChainId where
  str : String
  length_le : (utf8 str).length ≤ 31

def ChainId.union1 : ChainId := ⟨"union-1", by decide⟩

def ChainId.bytes (c : ChainId) : Bytes := utf8 c.str

/-- `into_fixed_bytes`, the `bytes31` a client stores. -/
def ChainId.intoFixedBytes (c : ChainId) : Bytes := List.replicate (31 - c.bytes.length) 0 ++ c.bytes

structure LightHeader where
  height : BoundedI64
  time : Timestamp
  validatorsHash : Word
  nextValidatorsHash : Word
  appHash : Word
  deriving DecidableEq

/-! ## The prover -/

/-- `FillBytes` of a big integer into 32 bytes: its absolute value, and a panic if that is too large. -/
def fillBytes (x : Int) : Option Bytes := if x.natAbs < 256 ^ 32 then some (beBytes 32 x.natAbs) else none

/-- The fields of `types.Header` that enter the public input. -/
structure GoHeader where
  height : Int
  unix : Int
  nanosecond : Int
  validatorsHash : Bytes
  nextValidatorsHash : Bytes
  appHash : Bytes

def LightHeader.toGo (h : LightHeader) : GoHeader where
  height := h.height.inner
  unix := h.time.seconds
  nanosecond := h.time.nanos
  validatorsHash := h.validatorsHash
  nextValidatorsHash := h.nextValidatorsHash
  appHash := h.appHash

/-- The buffer of `getInputsHash`; `none` is a panic. -/
def goInputs (chainID : Bytes) (h : GoHeader) (trustedValidatorsHash : Bytes) : Option Bytes := do
  let chainID ← fillBytes (beNat chainID)
  let height ← fillBytes h.height
  let unix ← fillBytes h.unix
  let nanosecond ← fillBytes h.nanosecond
  let validatorsHash ← fillBytes (beNat h.validatorsHash)
  let nextValidatorsHash ← fillBytes (beNat h.nextValidatorsHash)
  let trusted ← fillBytes (beNat trustedValidatorsHash)
  pure (chainID ++ height ++ unix ++ nanosecond ++ validatorsHash ++ nextValidatorsHash ++
    h.appHash ++ trusted)

def getInputsHash (sha256 : Bytes → Bytes) (chainID : Bytes) (h : GoHeader) (trustedValidatorsHash : Bytes) :
    Option Bytes := do
  pure ((sha256 (← goInputs chainID h trustedValidatorsHash)).drop 1)

/-- How a witness is assigned bytes: as a big-endian number, reduced. -/
def assignBytes (b : Bytes) : F := (beNat b : F)

def uncons (b : Bytes) : UnconsHash := ⟨((b.headD 0).toNat : F), assignBytes b.tail⟩

/-- The witness `Prove` assigns, over the fields of the header that do not enter the public input. -/
def assignHeader (chainID : Bytes) (h : GoHeader) (other : BlockHeader) : BlockHeader :=
  { other with
    chainID := assignBytes chainID
    height := (h.height : F)
    timeSecs := (h.unix : F)
    timeNanos := (h.nanosecond : F)
    validatorsHash := assignBytes h.validatorsHash
    nextValidatorsHash := assignBytes h.nextValidatorsHash
    appHash := uncons h.appHash }

/-! ## The verifiers -/

/-- The `Error` of `cometbls-groth16-verifier`, as far as `public_inputs` returns it, and a panic. -/
inductive Error where
  | invalidPublicInput
  | invalidCommitment
  | invalidHeight
  | invalidTimestamp
  | panic
  deriving DecidableEq

/-- `u64::try_from(x)`, as the bytes of an `U256`. -/
def u64Word (x : Int) (e : Error) : Except Error Bytes :=
  if 0 ≤ x ∧ x < 2 ^ 64 then .ok (beBytes 32 x.toNat) else .error e

/-- What `public_inputs` feeds to the hash. -/
def rustInputs (chainId : ChainId) (trustedValidatorsHash : Word) (header : LightHeader) :
    Except Error Bytes := do
  ensure (chainId.bytes.length ≤ 32) .panic
  let chainIdWord := List.replicate (32 - chainId.bytes.length) 0 ++ chainId.bytes
  let height ← u64Word header.height.inner .invalidHeight
  let seconds ← u64Word header.time.seconds .invalidTimestamp
  let nanos ← u64Word header.time.nanos .invalidTimestamp
  pure (chainIdWord ++ height ++ seconds ++ nanos ++ header.validatorsHash.val ++
    header.nextValidatorsHash.val ++ header.appHash.val ++ trustedValidatorsHash.val)

def decodeScalar (x : Nat) : Except Error F := if x < R then .ok (x : F) else .error .invalidPublicInput

/-- `public_inputs`, with the result of `hash_commitment` on the proof. -/
def publicInputs (sha256 : Bytes → Bytes) (chainId : ChainId) (trustedValidatorsHash : Word)
    (header : LightHeader) (commitmentHash : Except Error Nat) : Except Error (F × F) := do
  let commitmentHash ← commitmentHash
  let inputsHash := (sha256 (← rustInputs chainId trustedValidatorsHash header)).set 0 0
  let input ← decodeScalar (beNat inputsHash)
  let commitment ← decodeScalar commitmentHash
  pure (input, commitment)

/-- `SignedHeader` of `CometblsClient.sol`. -/
structure SolSignedHeader where
  height : UInt64
  secs : UInt64
  nanos : UInt64
  validatorsHash : Word
  nextValidatorsHash : Word
  appHash : Word
  deriving DecidableEq

/-- `From<Header> for SolHeader`: seconds before the epoch are clamped to it. -/
def LightHeader.toSol (h : LightHeader) : SolSignedHeader where
  height := UInt64.ofNat h.height.inner
  secs := UInt64.ofNat h.time.seconds.toNat
  nanos := UInt64.ofNat h.time.nanos.toNat
  validatorsHash := h.validatorsHash
  nextValidatorsHash := h.nextValidatorsHash
  appHash := h.appHash

/-- What `internalVerifyZKP` packs. -/
def solInputs (chainId : Bytes) (trustedValidatorsHash : Word) (h : SolSignedHeader) : Bytes :=
  beBytes 32 (beNat chainId) ++ beBytes 32 h.height.toNat ++ beBytes 32 h.secs.toNat ++
    beBytes 32 h.nanos.toNat ++
    h.validatorsHash.val ++ h.nextValidatorsHash.val ++ h.appHash.val ++ trustedValidatorsHash.val

/-- The first public input of `internalVerifyZKP`, a `bytes31` chain id given. -/
def solInput (sha256 : Bytes → Bytes) (chainId : Bytes) (trustedValidatorsHash : Word)
    (h : SolSignedHeader) : F :=
  (beNat ((sha256 (solInputs chainId trustedValidatorsHash h)).set 0 0) : F)

end UnionVoyager.Light.CometBls
