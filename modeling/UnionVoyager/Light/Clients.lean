import UnionVoyager.Core.Trusted
import UnionVoyager.Ics23.Verify
import UnionVoyager.Light.CometBlsClient
import UnionVoyager.Light.EthereumClient
import UnionVoyager.Light.Gno
import UnionVoyager.Light.Tendermint

/-!
# The clients as contracts

`impl IbcClient` of the tendermint, gno, cometbls and ethereum light clients: which stored values
their checks are run on, and what becomes of the results.  Client states are kept in bincode,
consensus states in the ABI of ethereum; both encodings are parameters that read back what they
wrote.

* `proofChecks` of each — **which part of the client state a proof is checked against**.
-/

namespace UnionVoyager.Light

open Lib Option Ics23
open Core (IbcClientCtx)

/-- An encoding; `encode` may panic. -/
structure Encoding (α : Type) where
  encode : α → Option Bytes
  decode : Bytes → Option α
  decode_encode : ∀ {a b}, encode a = some b → decode b = some a

/-- `SolConsensusState`, alike for tendermint, gno and cometbls. -/
structure SolConsensusState where
  timestamp : UInt64
  root : H256
  nextValidatorsHash : H256
  deriving DecidableEq

/-- `env.block.time`, an `u64` of nanoseconds. -/
def blockTime (ctx : IbcClientCtx) : UInt64 := UInt64.ofNat ctx.blockTime

def MAX_TIMESTAMP : Timestamp := ⟨TIMESTAMP_SECONDS_MAX, NANOS_MAX, by decide, by decide⟩

/-- `is_client_expired` of tendermint and of gno. -/
def isClientExpired (consensusStateTimestamp : Timestamp) (trustingPeriod : Duration)
    (currentBlockTime : Timestamp) : Bool :=
  match consensusStateTimestamp.checkedAdd trustingPeriod with
  | some sum => decide (sum < currentBlockTime)
  | none => true

/-- `status` of tendermint and of gno, from the timestamp of the latest consensus state. -/
def statusOf (latest : Option Timestamp) (frozenHeight : Option Height) (trustingPeriod : Duration)
    (now : UInt64) : Core.Status :=
  match latest with
  | none => .frozen
  | some timestamp =>
    if (frozenHeight.map Height.height).getD 0 ≠ 0 then .frozen
    else if isClientExpired timestamp trustingPeriod ((Timestamp.ofCosmwasm now).getD MAX_TIMESTAMP)
      then .expired
    else .active

/-- `as_unix_nanos`, or a panic. -/
def asUnixNanos (time : Timestamp) : Option UInt64 := (CometBlsClient.asUnixNanos time).toOption

def IBC_UNION_COSMWASM_COMMITMENT_PREFIX : Bytes := [0]

/-- The path of a key of the IBC contract in the state of a cosmos chain. -/
def wasmPath (contractAddress : H256) (key : Bytes) : List Bytes :=
  [utf8 "wasm", [3] ++ contractAddress ++ IBC_UNION_COSMWASM_COMMITMENT_PREFIX ++ key]

/-- Reads the client state and the consensus state, and runs a check on them. -/
def checkStored {α β : Type} (clientState : Option α) (consensusState : Option β)
    (check : α → β → Bool) : Bool :=
  match clientState, consensusState with
  | some cs, some cons => check cs cons
  | _, _ => false

theorem checkStored_iff {α β ρ : Type} (clientState : Option α) (consensusState : Option β)
    (root : α → ρ) (check : ρ → β → Bool) :
    checkStored clientState consensusState (fun cs cons => check (root cs) cons) = true ↔
      ∃ cons, consensusState = some cons ∧ (clientState.map root).any (fun r => check r cons) = true := by
  cases clientState with
  | none => simp [checkStored]
  | some cs => cases consensusState <;> simp [checkStored]

/-! ## Tendermint -/

variable {ctx : IbcClientCtx} {caller relayer : Core.Addr}

variable {p : Params} {header : Header}

namespace Tendermint

/-- The client state with what the verifier of headers does not read. -/
structure StoredClientState extends ClientState where
  frozenHeight : Option Height
  contractAddress : H256
  deriving DecidableEq

/-- What the contract is built on. -/
structure Params where
  codec : Codec
  sha256 : Bytes → H256
  ed25519 : HostFns
  /-- With the feature `bls`. -/
  bls12381 : Option HostFns
  hashes : Hashes
  bincode : Encoding StoredClientState
  abi : Encoding SolConsensusState
  decodeHeader : Bytes → Option Header
  decodeStateProof : Bytes → Option (List CommitmentProof)

def encodeConsensusState (p : Params) (c : ConsensusState) : Option Bytes := do
  let timestamp ← asUnixNanos c.timestamp
  p.abi.encode ⟨timestamp, c.root, c.nextValidatorsHash⟩

/-- `try_from_unix_nanos` of an `u64` never fails, `ofCosmwasm` is the same conversion. -/
def decodeConsensusState (p : Params) (b : Bytes) : Option ConsensusState := do
  let c ← p.abi.decode b
  let timestamp ← Timestamp.ofCosmwasm c.timestamp
  pure ⟨timestamp, c.root, c.nextValidatorsHash⟩

section

variable (p : Params) (contractAddress root : H256) (key : Bytes)
  (storageProof : List CommitmentProof)

def verifyMembership (value : Bytes) : Bool :=
  (IbcApi.verifyMembership p.hashes storageProof SDK_SPECS root (wasmPath contractAddress key)
    value).toOption.isSome

def verifyNonMembership : Bool :=
  (IbcApi.verifyNonMembership p.hashes storageProof SDK_SPECS root (wasmPath contractAddress
    key)).toOption.isSome

end

/-- The verifier is chosen by the key of the first validator. -/
def signatureVerifier (p : Params) (header : Header) : Option HostFns :=
  match header.validatorSet.validators.head?.map Validator.pubKey with
  | some (.bls12381 _) => p.bls12381
  | some (.ed25519 _) => some p.ed25519
  | _ => none

/-- `TendermintLightClient`. -/
def client (p : Params) : Core.IbcClient where
  Header := Header
  Misbehaviour := Header
  ClientState := StoredClientState
  ConsensusState := ConsensusState
  StateProof := List CommitmentProof
  decodeHeader := p.decodeHeader
  decodeMisbehaviour := p.decodeHeader
  decodeStateProof := p.decodeStateProof
  decodeClientState := p.bincode.decode
  encodeClientState := p.bincode.encode
  decodeConsensusState := decodeConsensusState p
  encodeConsensusState := encodeConsensusState p
  verifyMembership ctx height key storageProof value :=
    checkStored (ctx.readSelfClientState p.bincode.decode)
      (ctx.readSelfConsensusState (decodeConsensusState p) height) fun clientState consensusState =>
        verifyMembership p clientState.contractAddress consensusState.root key storageProof value
  verifyNonMembership ctx height key storageProof :=
    checkStored (ctx.readSelfClientState p.bincode.decode)
      (ctx.readSelfConsensusState (decodeConsensusState p) height) fun clientState consensusState =>
        verifyNonMembership p clientState.contractAddress consensusState.root key storageProof
  getTimestamp consensusState := (asUnixNanos consensusState.timestamp).map UInt64.toNat
  status ctx clientState :=
    let latest := ctx.readSelfConsensusState (decodeConsensusState p)
      (UInt64.ofNat clientState.latestHeight.height)
    statusOf (latest.map ConsensusState.timestamp) clientState.frozenHeight
      clientState.trustingPeriod (blockTime ctx)
  verifyHeader ctx _ header _ := do
    let clientState ← ctx.readSelfClientState p.bincode.decode
    let consensusState ←
      ctx.readSelfConsensusState (decodeConsensusState p) (UInt64.ofNat header.trustedHeight.height)
    let host ← signatureVerifier p header
    let update ←
      (verifyHeader p.codec p.sha256 host clientState.toClientState consensusState header
        (blockTime ctx)).toOption
    pure {
      height := UInt64.ofNat update.height
      clientState := update.clientState.map fun cs => { clientState with toClientState := cs }
      consensusState := update.consensusState
      storageWrites := [] }
  -- not implemented
  misbehaviour _ _ _ _ := none

theorem client_verifyHeader {u : Core.StateUpdate StoredClientState ConsensusState}
    (h : (client p).verifyHeader ctx caller header relayer = some u) : ∃ cs cons host update,
      ctx.readSelfClientState p.bincode.decode = some cs ∧
      ctx.readSelfConsensusState (decodeConsensusState p)
        (UInt64.ofNat header.trustedHeight.height) = some cons ∧
      signatureVerifier p header = some host ∧
      verifyHeader p.codec p.sha256 host cs.toClientState cons header (blockTime ctx) = .ok update ∧
      u = ⟨UInt64.ofNat update.height, update.clientState.map fun base => { cs with toClientState := base },
        update.consensusState, []⟩ := by
  simp only [client, bind_eq_bind, bind_eq_some_iff, toOption_eq_some, pure_def,
    Option.some.injEq] at h
  obtain ⟨cs, hcs, cons, hcons, host, hhost, update, hupd, rfl⟩ := h
  exact ⟨cs, cons, host, update, hcs, hcons, hhost, hupd, rfl⟩

/-- A proof is checked against the address of the contract. -/
def proofChecks (p : Params) : (client p).ProofChecks where
  Root := H256
  root := StoredClientState.contractAddress
  membership root cons key proof value :=
    root.any fun contractAddress => verifyMembership p contractAddress cons.root key proof value
  nonMembership root cons key proof :=
    root.any fun contractAddress => verifyNonMembership p contractAddress cons.root key proof
  verifyMembership_iff ctx height key proof value :=
    checkStored_iff (ctx.readSelfClientState p.bincode.decode)
      (ctx.readSelfConsensusState (decodeConsensusState p) height)
      StoredClientState.contractAddress fun r cons => verifyMembership p r cons.root key proof value
  verifyNonMembership_iff ctx height key proof :=
    checkStored_iff (ctx.readSelfClientState p.bincode.decode)
      (ctx.readSelfConsensusState (decodeConsensusState p) height)
      StoredClientState.contractAddress fun r cons => verifyNonMembership p r cons.root key proof
  decode_encode := p.bincode.decode_encode
  verifyHeader_root := by
    intro ctx caller header relayer u cs' h hcs
    obtain ⟨cs, cons, host, update, hread, -, -, -, rfl⟩ := client_verifyHeader h
    obtain ⟨base, -, rfl⟩ := Option.map_eq_some_iff.mp hcs
    exact ⟨cs, hread, rfl⟩
  misbehaviour_root h := nomatch h

end Tendermint

/-! ## Gno -/

namespace Gno

structure StoredClientState extends ClientState where
  frozenHeight : Option Height
  proofSpecs : List ProofSpec
  realm : String

structure Params where
  codec : Codec
  sha256 : Bytes → H256
  verifySignature : PublicKey → Bytes → Bytes → Bool
  hashes : Hashes
  bincode : Encoding StoredClientState
  abi : Encoding SolConsensusState
  decodeHeader : Bytes → Option Header
  decodeStateProof : Bytes → Option (List CommitmentProof)

def encodeConsensusState (p : Params) (c : ConsensusState) : Option Bytes := do
  let timestamp ← asUnixNanos c.timestamp
  p.abi.encode ⟨timestamp, c.root, c.nextValidatorsHash⟩

def decodeConsensusState (p : Params) (b : Bytes) : Option ConsensusState := do
  let c ← p.abi.decode b
  let timestamp ← Timestamp.ofCosmwasm c.timestamp
  pure ⟨timestamp, c.root, c.nextValidatorsHash⟩

/-- A lower case hexadecimal digit. -/
def hexDigit (n : UInt8) : UInt8 := if n < 10 then 48 + n else 87 + n

/-- `Bytes<HexUnprefixed>` as text. -/
def hexUnprefixed (b : Bytes) : Bytes := b.flatMap fun x => [hexDigit (x / 16), hexDigit (x % 16)]

def gnovmStoreKey (realm : String) (key : Bytes) : Bytes :=
  utf8 "/pv/vm:" ++ utf8 realm ++ utf8 ":" ++ hexUnprefixed key

section

variable (p : Params) (realm : String) (proofSpecs : List ProofSpec) (root : H256)
  (key : Bytes) (storageProof : List CommitmentProof)

def verifyMembership (value : Bytes) : Bool :=
  (IbcApi.verifyMembership p.hashes storageProof proofSpecs root [utf8 "main", gnovmStoreKey realm key]
    value).toOption.isSome

def verifyNonMembership : Bool :=
  (IbcApi.verifyNonMembership p.hashes storageProof proofSpecs root [utf8 "main",
    gnovmStoreKey realm key]).toOption.isSome

end

/-- `GnoLightClient`. -/
def client (p : Params) : Core.IbcClient where
  Header := Header
  Misbehaviour := Header
  ClientState := StoredClientState
  ConsensusState := ConsensusState
  StateProof := List CommitmentProof
  decodeHeader := p.decodeHeader
  decodeMisbehaviour := p.decodeHeader
  decodeStateProof := p.decodeStateProof
  decodeClientState := p.bincode.decode
  encodeClientState := p.bincode.encode
  decodeConsensusState := decodeConsensusState p
  encodeConsensusState := encodeConsensusState p
  verifyMembership ctx height key storageProof value :=
    checkStored (ctx.readSelfClientState p.bincode.decode)
      (ctx.readSelfConsensusState (decodeConsensusState p) height) fun clientState consensusState =>
        verifyMembership p clientState.realm clientState.proofSpecs consensusState.root key storageProof value
  verifyNonMembership ctx height key storageProof :=
    checkStored (ctx.readSelfClientState p.bincode.decode)
      (ctx.readSelfConsensusState (decodeConsensusState p) height) fun clientState consensusState =>
        verifyNonMembership p clientState.realm clientState.proofSpecs consensusState.root key storageProof
  getTimestamp consensusState := (asUnixNanos consensusState.timestamp).map UInt64.toNat
  status ctx clientState :=
    let latest := ctx.readSelfConsensusState (decodeConsensusState p)
      (UInt64.ofNat clientState.latestHeight.height)
    statusOf (latest.map ConsensusState.timestamp) clientState.frozenHeight
      clientState.trustingPeriod (blockTime ctx)
  verifyHeader ctx _ header _ := do
    let clientState ← ctx.readSelfClientState p.bincode.decode
    let consensusState ←
      ctx.readSelfConsensusState (decodeConsensusState p) (UInt64.ofNat header.trustedHeight.height)
    let update ← (verifyHeader p.codec p.sha256 p.verifySignature clientState.toClientState
      consensusState header (blockTime ctx)).toOption
    pure {
      height := UInt64.ofNat update.height
      clientState := update.clientState.map fun cs => { clientState with toClientState := cs }
      consensusState := update.consensusState
      storageWrites := [] }
  -- `todo!()`
  misbehaviour _ _ _ _ := none

theorem client_verifyHeader {u : Core.StateUpdate StoredClientState ConsensusState}
    (h : (client p).verifyHeader ctx caller header relayer = some u) : ∃ cs cons update,
      ctx.readSelfClientState p.bincode.decode = some cs ∧
      ctx.readSelfConsensusState (decodeConsensusState p)
        (UInt64.ofNat header.trustedHeight.height) = some cons ∧
      verifyHeader p.codec p.sha256 p.verifySignature cs.toClientState cons header (blockTime ctx) =
        .ok update ∧
      u = ⟨UInt64.ofNat update.height, update.clientState.map fun base => { cs with toClientState := base },
        update.consensusState, []⟩ := by
  simp only [client, bind_eq_bind, bind_eq_some_iff, toOption_eq_some, pure_def,
    Option.some.injEq] at h
  obtain ⟨cs, hcs, cons, hcons, update, hupd, rfl⟩ := h
  exact ⟨cs, cons, update, hcs, hcons, hupd, rfl⟩

/-- A proof is checked against the realm, with the specs of the client state. -/
def proofChecks (p : Params) : (client p).ProofChecks where
  Root := String × List ProofSpec
  root cs := (cs.realm, cs.proofSpecs)
  membership root cons key proof value :=
    root.any fun (r : String × List ProofSpec) => verifyMembership p r.1 r.2 cons.root key proof value
  nonMembership root cons key proof :=
    root.any fun (r : String × List ProofSpec) => verifyNonMembership p r.1 r.2 cons.root key proof
  verifyMembership_iff ctx height key proof value :=
    checkStored_iff (ctx.readSelfClientState p.bincode.decode)
      (ctx.readSelfConsensusState (decodeConsensusState p) height)
      (fun cs : StoredClientState => (cs.realm, cs.proofSpecs)) fun r cons =>
        verifyMembership p r.1 r.2 cons.root key proof value
  verifyNonMembership_iff ctx height key proof :=
    checkStored_iff (ctx.readSelfClientState p.bincode.decode)
      (ctx.readSelfConsensusState (decodeConsensusState p) height)
      (fun cs : StoredClientState => (cs.realm, cs.proofSpecs)) fun r cons =>
        verifyNonMembership p r.1 r.2 cons.root key proof
  decode_encode := p.bincode.decode_encode
  verifyHeader_root := by
    intro ctx caller header relayer u cs' h hcs
    obtain ⟨cs, cons, update, hread, -, -, rfl⟩ := client_verifyHeader h
    obtain ⟨base, -, rfl⟩ := Option.map_eq_some_iff.mp hcs
    exact ⟨cs, hread, rfl⟩
  misbehaviour_root h := nomatch h

end Gno

/-! ## CometBLS -/

variable {cs' : ClientState}

namespace CometBlsClient

open CometBls

structure Params where
  verifyZkp : ZkpVerifier
  hashes : Hashes
  bincode : Encoding ClientState
  abi : Encoding SolConsensusState
  decodeHeader : Bytes → Option Header
  decodeMisbehaviour : Bytes → Option Misbehaviour
  decodeStateProof : Bytes → Option (List CommitmentProof)

/-- A `bytes32` of the ABI. -/
def toWord (b : Bytes) : Option Word := if h : b.length = 32 then some ⟨b, h⟩ else none

def encodeConsensusState (p : Params) (c : ConsensusState) : Option Bytes :=
  p.abi.encode ⟨c.timestamp, c.appHash.val, c.nextValidatorsHash.val⟩

def decodeConsensusState (p : Params) (b : Bytes) : Option ConsensusState := do
  let c ← p.abi.decode b
  let appHash ← toWord c.root
  let nextValidatorsHash ← toWord c.nextValidatorsHash
  pure ⟨c.timestamp, appHash, nextValidatorsHash⟩

section

variable (p : Params) (contractAddress appHash : Word) (key : Bytes)
  (storageProof : List CommitmentProof)

def verifyMembership (value : Bytes) : Bool :=
  (IbcApi.verifyMembership p.hashes storageProof SDK_SPECS appHash.val
    (wasmPath contractAddress.val key) value).toOption.isSome

def verifyNonMembership : Bool :=
  (IbcApi.verifyNonMembership p.hashes storageProof SDK_SPECS appHash.val
    (wasmPath contractAddress.val key)).toOption.isSome

end

/-- `CometblsLightClient`. -/
def client (p : Params) : Core.IbcClient where
  Header := Header
  Misbehaviour := Misbehaviour
  ClientState := ClientState
  ConsensusState := ConsensusState
  StateProof := List CommitmentProof
  decodeHeader := p.decodeHeader
  decodeMisbehaviour := p.decodeMisbehaviour
  decodeStateProof := p.decodeStateProof
  decodeClientState := p.bincode.decode
  encodeClientState := p.bincode.encode
  decodeConsensusState := decodeConsensusState p
  encodeConsensusState := encodeConsensusState p
  verifyMembership ctx height key storageProof value :=
    checkStored (ctx.readSelfClientState p.bincode.decode)
      (ctx.readSelfConsensusState (decodeConsensusState p) height) fun clientState consensusState =>
        verifyMembership p clientState.contractAddress consensusState.appHash key storageProof value
  verifyNonMembership ctx height key storageProof :=
    checkStored (ctx.readSelfClientState p.bincode.decode)
      (ctx.readSelfConsensusState (decodeConsensusState p) height) fun clientState consensusState =>
        verifyNonMembership p clientState.contractAddress consensusState.appHash key storageProof
  getTimestamp consensusState := some consensusState.timestamp.toNat
  status ctx clientState :=
    if Height.number clientState.frozenHeight ≠ 0 then .frozen
    else
      match ctx.readSelfConsensusState (decodeConsensusState p) (Height.number clientState.latestHeight) with
      | none => .expired
      | some consensusState =>
        if isClientExpired consensusState.timestamp clientState.trustingPeriod (blockTime ctx) then .expired
        else .active
  verifyHeader ctx _ header _ := do
    let clientState ← ctx.readSelfClientState p.bincode.decode
    let consensusState ←
      ctx.readSelfConsensusState (decodeConsensusState p) (Height.number header.trustedHeight)
    let headerHeight := LightHeader.heightNumber header.signedHeader
    -- if the update is already happened, we just do noop
    match ctx.readSelfConsensusState (decodeConsensusState p) headerHeight with
    | some stored => pure ⟨headerHeight, none, stored, []⟩
    | none =>
      let update ← (acceptHeader p.verifyZkp (blockTime ctx) clientState consensusState header).toOption
      pure ⟨update.height, update.clientState, update.consensusState, []⟩
  misbehaviour ctx _ m _ := do
    let clientState ← ctx.readSelfClientState p.bincode.decode
    (misbehaviour p.verifyZkp (blockTime ctx) clientState
      (ctx.readSelfConsensusState (decodeConsensusState p)) m).toOption

theorem decode_encode_consensusState {c : ConsensusState} {b : Bytes}
    (h : encodeConsensusState p c = some b) : decodeConsensusState p b = some c := by
  simp only [decodeConsensusState, p.abi.decode_encode h, toWord, c.appHash.prop, c.nextValidatorsHash.prop,
    bind_eq_bind, bind_some, dite_true]
  rfl

theorem client_verifyHeader {u : Core.StateUpdate ClientState ConsensusState}
    (h : (client p).verifyHeader ctx caller header relayer = some u) : ∃ cs cons,
      ctx.readSelfClientState p.bincode.decode = some cs ∧
      ctx.readSelfConsensusState (decodeConsensusState p) (Height.number header.trustedHeight) = some cons ∧
      ((∃ stored, ctx.readSelfConsensusState (decodeConsensusState p)
          (LightHeader.heightNumber header.signedHeader) =
          some stored ∧ u = ⟨LightHeader.heightNumber header.signedHeader, none, stored, []⟩) ∨
        ∃ update, ctx.readSelfConsensusState (decodeConsensusState p)
            (LightHeader.heightNumber header.signedHeader) = none ∧
          acceptHeader p.verifyZkp (blockTime ctx) cs cons header = .ok update ∧
          u = ⟨update.height, update.clientState, update.consensusState, []⟩) := by
  simp only [client, bind_eq_bind, bind_eq_some_iff] at h
  obtain ⟨cs, hcs, cons, hcons, h⟩ := h
  refine ⟨cs, cons, hcs, hcons, ?_⟩
  split at h
  · rename_i stored hstored
    cases h
    exact .inl ⟨stored, hstored, rfl⟩
  · rename_i hnone
    simp only [bind_eq_some_iff, toOption_eq_some, pure_def, Option.some.injEq] at h
    obtain ⟨update, hupd, rfl⟩ := h
    exact .inr ⟨update, hnone, hupd, rfl⟩

theorem client_misbehaviour {m : Misbehaviour} (h : (client p).misbehaviour ctx caller m relayer = some cs') :
    ∃ cs, ctx.readSelfClientState p.bincode.decode = some cs ∧
      cs' = { cs with frozenHeight := FROZEN_HEIGHT } := by
  simp only [client, bind_eq_bind, bind_eq_some_iff, toOption_eq_some] at h
  obtain ⟨cs, hcs, h⟩ := h
  simp only [misbehaviour, bind_eq_ok, orErr_eq_ok, pure_eq_ok] at h
  obtain ⟨_, -, _, -, _, -, rfl⟩ := h
  exact ⟨cs, hcs, rfl⟩

theorem acceptHeader_contractAddress {verifyZkp : ZkpVerifier} {now : UInt64} {cs : ClientState}
    {cons : ConsensusState} {update : StateUpdate}
      (h : acceptHeader verifyZkp now cs cons header = .ok update)
    (hcs : update.clientState = some cs') : cs'.contractAddress = cs.contractAddress := by
  simp only [acceptHeader, updateState, bind_eq_ok, pure_eq_ok] at h
  obtain ⟨_, -, timestamp, -, rfl⟩ := h
  simp only at hcs
  split at hcs
  · cases hcs
    rfl
  · cases hcs

/-- A proof is checked against the address of the contract. -/
def proofChecks (p : Params) : (client p).ProofChecks where
  Root := Word
  root := ClientState.contractAddress
  membership root cons key proof value :=
    root.any fun contractAddress => verifyMembership p contractAddress cons.appHash key proof value
  nonMembership root cons key proof :=
    root.any fun contractAddress => verifyNonMembership p contractAddress cons.appHash key proof
  verifyMembership_iff ctx height key proof value :=
    checkStored_iff (ctx.readSelfClientState p.bincode.decode)
      (ctx.readSelfConsensusState (decodeConsensusState p) height)
      ClientState.contractAddress fun r cons => verifyMembership p r cons.appHash key proof value
  verifyNonMembership_iff ctx height key proof :=
    checkStored_iff (ctx.readSelfClientState p.bincode.decode)
      (ctx.readSelfConsensusState (decodeConsensusState p) height)
      ClientState.contractAddress fun r cons => verifyNonMembership p r cons.appHash key proof
  decode_encode := p.bincode.decode_encode
  verifyHeader_root := by
    intro ctx caller header relayer u cs' h hcs
    obtain ⟨cs, cons, hread, -, ⟨stored, -, rfl⟩ | ⟨update, -, hupdate, rfl⟩⟩ := client_verifyHeader h
    · cases hcs
    · exact ⟨cs, hread, acceptHeader_contractAddress hupdate hcs⟩
  misbehaviour_root h := by
    obtain ⟨cs, hread, rfl⟩ := client_misbehaviour h
    exact ⟨cs, hread, rfl⟩

end CometBlsClient

/-! ## Ethereum -/

namespace Ethereum

structure Params where
  host : Host
  bincode : Encoding ClientState
  abi : Encoding ConsensusState
  decodeHeader : Bytes → Option Header
  decodeMisbehaviour : Bytes → Option Misbehaviour
  decodeStateProof : Bytes → Option EvmStorage.StorageProof
  /-- Of `SyncCommitteeStore`. -/
  decodeSyncCommittee : Bytes → Option InverseSyncCommittee
  /-- The words of the store, for a committee. -/
  encodeSyncCommittee : InverseSyncCommittee → Bytes

/-- `raw_key` in `SyncCommitteeStore`. -/
def committeeKey (period : Period) : Bytes := utf8 "sync_committee" ++ [0] ++ beBytes 8 period

/-- `read_self_storage`. -/
def readSyncCommittee (p : Params) (ctx : IbcClientCtx) (period : Period) : Option InverseSyncCommittee :=
  (ctx.host.clientStore (ctx.clientId, committeeKey period)).bind p.decodeSyncCommittee

/-- What the contract reads of the core, once it has the client state. -/
def readStore (p : Params) (ctx : IbcClientCtx) (clientState : ClientState) : Store where
  clientState
  consensusState height := ctx.readSelfConsensusState p.abi.decode (UInt64.ofNat height)
  syncCommittee := readSyncCommittee p ctx

def storageRoots (p : Params) (ctx : IbcClientCtx) (height : UInt64) : Option EvmStorage.Mpt.ConsensusState :=
  (ctx.readSelfConsensusState p.abi.decode height).map fun c => ⟨c.storageRoot⟩

/-- `env.block.time.seconds()`. -/
def blockSeconds (ctx : IbcClientCtx) : Nat := (blockTime ctx).toNat / 1000000000

/-- `EthereumLightClient`. -/
def client (p : Params) : Core.IbcClient where
  Header := Header
  Misbehaviour := Misbehaviour
  ClientState := ClientState
  ConsensusState := ConsensusState
  StateProof := EvmStorage.StorageProof
  decodeHeader := p.decodeHeader
  decodeMisbehaviour := p.decodeMisbehaviour
  decodeStateProof := p.decodeStateProof
  decodeClientState := p.bincode.decode
  encodeClientState := p.bincode.encode
  decodeConsensusState := p.abi.decode
  encodeConsensusState := p.abi.encode
  verifyMembership ctx height key storageProof value :=
    (EvmStorage.Ethereum.verifyMembership p.host.evmStorage (storageRoots p ctx) height key storageProof
      value).toOption.isSome
  verifyNonMembership ctx height key storageProof :=
    (EvmStorage.Ethereum.verifyNonMembership p.host.evmStorage (storageRoots p ctx) height key
      storageProof).toOption.isSome
  getTimestamp consensusState := some consensusState.timestamp
  status _ clientState := if clientState.frozenHeight.height ≠ 0 then .frozen else .active
  verifyHeader ctx _ header _ := do
    let clientState ← ctx.readSelfClientState p.bincode.decode
    let update ← (verifyHeader p.host (readStore p ctx clientState) (blockSeconds ctx) header).toOption
    pure {
      height := UInt64.ofNat update.height
      clientState := update.clientState
      consensusState := update.consensusState
      storageWrites := update.storageWrites.map fun w => (committeeKey w.1, p.encodeSyncCommittee w.2) }
  misbehaviour ctx _ m _ := do
    let clientState ← ctx.readSelfClientState p.bincode.decode
    (misbehaviour p.host (readStore p ctx clientState) (blockSeconds ctx) m).toOption

theorem client_misbehaviour {m : Misbehaviour} (h : (client p).misbehaviour ctx caller m relayer = some cs') :
    ∃ cs, ctx.readSelfClientState p.bincode.decode = some cs ∧
      cs' = { cs with frozenHeight := FROZEN_HEIGHT } := by
  simp only [client, bind_eq_bind, bind_eq_some_iff, toOption_eq_some] at h
  obtain ⟨cs, hcs, h⟩ := h
  simp only [misbehaviour, bind_eq_ok, orErr_eq_ok, pure_eq_ok] at h
  obtain ⟨_, -, _, -, rfl⟩ := h
  exact ⟨cs, hcs, rfl⟩

/-- A proof is checked without the client state. -/
def proofChecks (p : Params) : (client p).ProofChecks where
  Root := Unit
  root _ := ()
  membership _ cons key proof value :=
    (EvmStorage.Mpt.verifyMembershipAt p.host.evmStorage key cons.storageRoot proof value).toOption.isSome
  nonMembership _ cons key proof :=
    (EvmStorage.Mpt.verifyNonMembershipAt p.host.evmStorage key cons.storageRoot proof).toOption.isSome
  verifyMembership_iff ctx height key proof value := by
    show (EvmStorage.Mpt.verifyMembership p.host.evmStorage (storageRoots p ctx) height key proof
      value).toOption.isSome = true ↔ ∃ cons, ctx.readSelfConsensusState p.abi.decode height = some cons ∧ _
    unfold EvmStorage.Mpt.verifyMembership storageRoots
    cases ctx.readSelfConsensusState p.abi.decode height with
    | none => simp [orErr, Except.toOption]
    | some cons => simp [orErr]
  verifyNonMembership_iff ctx height key proof := by
    show (EvmStorage.Mpt.verifyNonMembership p.host.evmStorage (storageRoots p ctx) height key
      proof).toOption.isSome = true ↔ ∃ cons, ctx.readSelfConsensusState p.abi.decode height = some cons ∧ _
    unfold EvmStorage.Mpt.verifyNonMembership storageRoots
    cases ctx.readSelfConsensusState p.abi.decode height with
    | none => simp [orErr, Except.toOption]
    | some cons => simp [orErr]
  decode_encode := p.bincode.decode_encode
  verifyHeader_root := by
    intro ctx caller header relayer u cs' h hcs
    obtain ⟨cs, hread, -⟩ := Option.bind_eq_some_iff.mp h
    exact ⟨cs, hread, rfl⟩
  misbehaviour_root h := by
    obtain ⟨cs, hread, -⟩ := client_misbehaviour h
    exact ⟨cs, hread, rfl⟩

end Ethereum

end UnionVoyager.Light
