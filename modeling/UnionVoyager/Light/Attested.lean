import Mathlib.Data.List.AList
import UnionVoyager.Light.Types

/-!
# The attested light client

`cosmwasm/lightclient/attested`: the messages by which attestors put values on record (`execute.rs`) and the
queries of the client that read them (`client.rs`).

The typed stores of `depolama` are functions; their encoded keys are injective, and none of their
prefixes starts another.  Outside the repository are the `bincode` encoding of an attestation and
the host's `ed25519_verify` (`Host`).  Anyone may send a restricted message here.  A panic aborts a
message as an error does.
-/

namespace UnionVoyager.Light.Attested

open Lib Function

/-- A 64-byte signature. -/
abbrev H512 := Bytes

/-- `consensus_primitives::Timestamp`, in nanoseconds. -/
abbrev Timestamp := UInt64

inductive AttestationValue where
  | nonExistence
  | existence (value : Bytes)
  deriving DecidableEq

structure Attestation where
  chainId : String
  height : UInt64
  timestamp : Timestamp
  key : Bytes
  value : AttestationValue
  deriving DecidableEq

structure AttestationKey where
  chainId : String
  height : UInt64
  key : Bytes
  deriving DecidableEq

def Attestation.attestationKey (a : Attestation) : AttestationKey := ⟨a.chainId, a.height, a.key⟩

structure NonZeroU8 where
  get : UInt8
  ne_zero : get ≠ 0

/-- `BTreeMap<H256, H512>`; nothing depends on its order. -/
abbrev Signatures := AList fun _ : H256 => H512

structure State where
  quorum : String → Option NonZeroU8
  attestors : String × H256 → Bool
  pendingAttestations : Attestation → Option Signatures
  attestations : AttestationKey → Option AttestationValue
  attestationAttestors : Attestation → Option Signatures
  heightTimestamps : String × UInt64 → Option Timestamp

def State.init : State where
  quorum _ := none
  attestors _ := false
  pendingAttestations _ := none
  attestations _ := none
  attestationAttestors _ := none
  heightTimestamps _ := none

inductive Error where
  | invalidAttestor (chainId : String) (attestor : H256)
  | inconsistentTimestamp (chainId : String) (height : UInt64)
      (timestamp previouslyAttestedTimestamp : Timestamp)
  | alreadyAttested (chainId : String) (height : UInt64) (timestamp : Timestamp) (key : Bytes)
      (value : AttestationValue)
  | invalidSignature
  | attestationAlreadyReceived (chainId : String)
  | attestorAlreadyExists (chainId : String) (attestor : H256)
  | quorumNotReached (chainId : String) (quorum : NonZeroU8) (current : UInt8)
  | invalidTimestamp (chainId : String) (height : UInt64) (attestedTimestamp timestamp : Timestamp)
  | attestationNotFound (chainId : String) (height : UInt64) (key : Bytes)
  | invalidAttestedValue (chainId : String) (height : UInt64) (key : Bytes)
      (attested value : AttestationValue)
  /-- A store has no value under a key that is read, or `ed25519_verify` refuses its input. -/
  | std
  /-- The assertion in `check_quorum`. -/
  | panic

inductive Event where
  | attestationSubmitted (attestation : Attestation) (attestor : H256) (signature : H512)
  | quorumReached (attestation : Attestation) (quorum : NonZeroU8)
  | quorumUpdated (chainId : String) (quorum : NonZeroU8)
  | attestorAdded (chainId : String) (attestor : H256)
  | attestorRemoved (chainId : String) (attestor : H256)

structure Host where
  encode : Attestation → Bytes
  /-- Message, signature and public key; `none` is an error. -/
  ed25519Verify : Bytes → H512 → H256 → Option Bool

/-! ## `execute.rs` -/

section Execute

variable (host : Host) (s : State)

/-- The `try_fold` over the signatures, with its wrapping addition. -/
def totalValidSignatures (chainId : String) (signatures : Signatures) : UInt8 :=
  signatures.entries.foldl (fun total e => total + if s.attestors (chainId, e.1) then 1 else 0) 0

/-- What a quorum writes, under the timestamp `upsert` keeps. -/
def State.confirm (signatures : Signatures) (a : Attestation) (timestamp : Timestamp) : State :=
  { s with
    pendingAttestations := update s.pendingAttestations a none
    attestations := update s.attestations a.attestationKey (some a.value)
    attestationAttestors := update s.attestationAttestors a (some signatures)
    heightTimestamps := update s.heightTimestamps (a.chainId, a.height) (some timestamp) }

/-- The closure of the `upsert`: the timestamp of the height, which has to be that of the attestation. -/
def upsertTimestamp (a : Attestation) : Except Error Timestamp :=
  match s.heightTimestamps (a.chainId, a.height) with
  | some timestamp => do
    ensure (timestamp = a.timestamp) .panic
    pure timestamp
  | none => pure a.timestamp

def checkQuorum (signatures : Signatures) (a : Attestation) :
    Except Error (State × Except (NonZeroU8 × UInt8) Event) := do
  let quorum ← orErr (s.quorum a.chainId) .std
  let total := totalValidSignatures s a.chainId signatures
  if quorum.get ≤ total then
    let timestamp ← upsertTimestamp s a
    pure (s.confirm signatures a timestamp, .ok (.quorumReached a quorum))
  else
    pure (s, .error (quorum, total))

/-- The first check of `attest` on the stores: a height has one timestamp. -/
def checkTimestamp (a : Attestation) : Except Error Unit :=
  match s.heightTimestamps (a.chainId, a.height) with
  | some previous => ensure (previous = a.timestamp)
      (.inconsistentTimestamp a.chainId a.height a.timestamp previous)
  | none => pure ()

/-- The second one: a key has one value. -/
def checkNotAttested (a : Attestation) : Except Error Unit :=
  match s.attestations a.attestationKey with
  | some value => throw (.alreadyAttested a.chainId a.height a.timestamp a.key value)
  | none => pure ()

def attest (a : Attestation) (attestor : H256) (signature : H512) : Except Error (State × List Event) := do
  ensure (s.attestors (a.chainId, attestor) = true) (.invalidAttestor a.chainId attestor)
  checkTimestamp s a
  checkNotAttested s a
  let valid ← orErr (host.ed25519Verify (host.encode a) signature attestor) .std
  ensure (valid = true) .invalidSignature
  let signatures := (s.pendingAttestations a).getD ∅
  ensure (signatures.lookup attestor = none) (.attestationAlreadyReceived a.chainId)
  let signatures := signatures.insert attestor signature
  let submitted := Event.attestationSubmitted a attestor signature
  match ← checkQuorum s signatures a with
  | (s', .ok event) => pure (s', [submitted, event])
  | (s', .error _) =>
    pure ({ s' with pendingAttestations := update s'.pendingAttestations a (some signatures) }, [submitted])

def confirmAttestation (a : Attestation) : Except Error (State × List Event) := do
  let signatures := (s.pendingAttestations a).getD ∅
  match ← checkQuorum s signatures a with
  | (s', .ok event) => pure (s', [event])
  | (_, .error (quorum, current)) => throw (.quorumNotReached a.chainId quorum current)

def setQuorum (chainId : String) (newQuorum : NonZeroU8) : Except Error (State × List Event) :=
  pure ({ s with quorum := update s.quorum chainId (some newQuorum) }, [.quorumUpdated chainId newQuorum])

def addAttestor (chainId : String) (newAttestor : H256) : Except Error (State × List Event) := do
  ensure (s.attestors (chainId, newAttestor) = false) (.attestorAlreadyExists chainId newAttestor)
  pure ({ s with attestors := update s.attestors (chainId, newAttestor) true },
    [.attestorAdded chainId newAttestor])

def removeAttestor (chainId : String) (oldAttestor : H256) : Except Error (State × List Event) := do
  ensure (s.attestors (chainId, oldAttestor) = true) (.invalidAttestor chainId oldAttestor)
  pure ({ s with attestors := update s.attestors (chainId, oldAttestor) false },
    [.attestorRemoved chainId oldAttestor])

end Execute

/-- `ExecuteMsg` with the restricted messages. -/
inductive ExecuteMsg where
  | attest (attestation : Attestation) (attestor : H256) (signature : H512)
  | confirmAttestation (attestation : Attestation)
  | setQuorum (chainId : String) (newQuorum : NonZeroU8)
  | addAttestor (chainId : String) (newAttestor : H256)
  | removeAttestor (chainId : String) (oldAttestor : H256)

def execute (host : Host) (s : State) : ExecuteMsg → Except Error (State × List Event)
  | .attest a attestor signature => attest host s a attestor signature
  | .confirmAttestation a => confirmAttestation s a
  | .setQuorum chainId newQuorum => setQuorum s chainId newQuorum
  | .addAttestor chainId newAttestor => addAttestor s chainId newAttestor
  | .removeAttestor chainId oldAttestor => removeAttestor s chainId oldAttestor

/-! ## `client.rs` -/

structure ClientState where
  chainId : String
  latestHeight : UInt64

section Client

variable (s : State) (clientState : ClientState)

def verifyAttestation (chainId : String) (height : UInt64) (key : Bytes) (value : AttestationValue) :
    Except Error Unit := do
  let attested ← orErr (s.attestations ⟨chainId, height, key⟩) (.attestationNotFound chainId height key)
  match attested, value with
  | .existence attested, .existence value =>
    ensure (value = attested) (.invalidAttestedValue chainId height key (.existence attested)
      (.existence value))
  | .nonExistence, .nonExistence => pure ()
  | attested, value => throw (.invalidAttestedValue chainId height key attested value)

def verifyMembership (height : UInt64) (key value : Bytes) : Except Error Unit :=
  verifyAttestation s clientState.chainId height key (.existence value)

def verifyNonMembership (height : UInt64) (key : Bytes) : Except Error Unit :=
  verifyAttestation s clientState.chainId height key .nonExistence

end Client

end UnionVoyager.Light.Attested
