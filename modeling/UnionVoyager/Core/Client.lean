import UnionVoyager.Core.State

/-!
# Client handlers of the IBC core contract

`register_client`, `create_client`, `init_client` (shared with `ForceUpdateClient`),
`update_client`, `misbehaviour`, `migrate_state`, `commit_membership_proof` and
`commit_non_membership_proof` of `cosmwasm/core/src/contract.rs`, in the order of reads, queries
and writes of the source.
-/

namespace UnionVoyager.Core

open Lib Function

/-- `deps.storage.write::<ClientStates>`. -/
def writeClientState (s : State) (i : ClientId) (b : Bytes) : State :=
  { s with clientStates := update s.clientStates i (some b) }

/-- `if let Some(b) = answer { write::<ClientStates>(i, b) }`. -/
def overwriteClientState (s : State) (i : ClientId) (answer : Option Bytes) : State :=
  match answer with
  | some b => writeClientState s i b
  | none => s

/-- `deps.storage.write::<ClientConsensusStates>`. -/
def writeConsensusState (s : State) (i : ClientId) (h : Height) (b : Bytes) : State :=
  { s with clientConsensusStates := update s.clientConsensusStates (i, h) (some b) }

/-- The loop writing a light client's storage writes under its client id. -/
def writeClientStore (s : State) (i : ClientId) (writes : List (Bytes × Bytes)) : State :=
  { s with clientStore := writes.foldl (fun m kv => update m (i, kv.1) (some kv.2)) s.clientStore }

def registerClient (env : Env) (s : State) (clientType clientAddress : String) :
    Result (State × Response) := do
  let address ← addrValidate env clientAddress
  require (s.clientRegistry clientType = none) .clientTypeAlreadyExists
  return ({ s with clientRegistry := update s.clientRegistry clientType (some address) },
    .event (.registerClient clientType address))

section

variable (H : Hashing) (env : Env) (s : State) (info : MessageInfo)

/-- `init_client`.  The state is overwritten if `VerifyCreation` answers with another one; the
    commitment is made of the bytes of the message. -/
def initClient (clientStateBytes consensusStateBytes : Bytes) (relayer impl : Addr)
    (clientId : ClientId) : Result (State × VerifyCreationResponse × Height) := do
  let s := writeClientState s clientId clientStateBytes
  let latestHeight ← queryLightClient impl (.getLatestHeight clientId)
    (env.querier.getLatestHeight impl clientId)
  let s := writeConsensusState s clientId latestHeight consensusStateBytes
  let q : VerifyCreationQuery := ⟨info.sender, clientId, relayer⟩
  let response ← queryLightClient impl (.verifyCreation q) (env.querier.verifyCreation impl q)
  let s := overwriteClientState s clientId response.clientStateBytes
  let s := storeCommit s ((StorePath.clientState clientId).key H) (commit H clientStateBytes)
  let s := storeCommit s ((StorePath.consensusState clientId latestHeight).key H)
    (commit H consensusStateBytes)
  let s := writeClientStore s clientId response.storageWrites
  return (s, response, latestHeight)

def createClient (clientType : String) (clientStateBytes consensusStateBytes : Bytes)
    (relayer : String) : Result (State × Response) := do
  let relayer ← addrValidate env relayer
  let impl ← read "client_registry" (s.clientRegistry clientType)
  let (clientId, s) ← nextClientId s
  let s := { s with clientTypes := update s.clientTypes clientId (some clientType) }
  let s := { s with clientImpls := update s.clientImpls clientId (some impl) }
  let (s, response, _) ←
    initClient H env s info clientStateBytes consensusStateBytes relayer impl clientId
  return (s, ⟨response.events.map (fun e =>
    .createLensClient clientId e.l1ClientId e.l2ClientId e.l2ChainId) ++
      [.createClient clientId clientType response.counterpartyChainId], [], none⟩)

/-- The `ForceUpdateClient` arm of `execute`. -/
def forceUpdateClient (clientId : ClientId) (clientStateBytes consensusStateBytes : Bytes) :
    Result (State × Response) := do
  let impl ← clientImpl s clientId
  let (s, _, height) ←
    initClient H env s info clientStateBytes consensusStateBytes info.sender impl clientId
  return (s, .event (.forceUpdateClient clientId height))

def updateClient (clientId : ClientId) (clientMessage : Bytes) (relayer : String) :
    Result (State × Response) := do
  let relayer ← addrValidate env relayer
  let impl ← clientImpl s clientId
  let status ← queryLightClient impl (.getStatus clientId) (env.querier.getStatus impl clientId)
  require (status = .active) (.clientNotActive clientId status)
  let s := { s with queryStore := some clientMessage }
  let q : UpdateStateQuery := ⟨info.sender, clientId, relayer⟩
  let u ← queryLightClient impl (.updateState q) (env.querier.updateState impl q)
  let s := { s with queryStore := none }
  let s := match u.clientStateBytes with
    | some b => writeClientState
        (storeCommit s ((StorePath.clientState clientId).key H) (commit H b)) clientId b
    | none => s
  let s := storeCommit s ((StorePath.consensusState clientId u.height).key H)
    (commit H u.consensusStateBytes)
  let s := writeConsensusState s clientId u.height u.consensusStateBytes
  let s := writeClientStore s clientId u.storageWrites
  return (s, .event (.updateClient clientId u.height))

def misbehaviour (clientId : ClientId) (clientMessage : Bytes) (relayer : String) :
    Result (State × Response) := do
  let relayer ← addrValidate env relayer
  let impl ← clientImpl s clientId
  let status ← queryLightClient impl (.getStatus clientId) (env.querier.getStatus impl clientId)
  require (status = .active) (.clientNotActive clientId status)
  let s := { s with queryStore := some clientMessage }
  let q : MisbehaviourQuery := ⟨info.sender, clientId, relayer⟩
  let m ← queryLightClient impl (.misbehaviour q) (env.querier.misbehaviour impl q)
  let s := { s with queryStore := none }
  let s := storeCommit s ((StorePath.clientState clientId).key H) (commit H m.clientStateBytes)
  let s := writeClientState s clientId m.clientStateBytes
  return (s, .event (.misbehaviour clientId))

end

def migrateState (H : Hashing) (s : State) (sender : Addr) (clientId : ClientId)
    (clientState consensusState : Bytes) (height : Height) : Result (State × Response) := do
  let clientAddr ← read "client_impls" (s.clientImpls clientId)
  require (clientAddr = sender) (.unauthorizedMigration clientId sender clientAddr)
  require ((s.clientStates clientId).isSome = true) (.cannotMigrateWithNoClientState clientId)
  let s := writeClientState s clientId clientState
  let s := storeCommit s ((StorePath.clientState clientId).key H) (commit H clientState)
  require ((s.clientConsensusStates (clientId, height)).isSome = true)
    (.cannotMigrateWithNoConsensusState clientId height)
  let s := writeConsensusState s clientId height consensusState
  let s := storeCommit s ((StorePath.consensusState clientId height).key H) (commit H consensusState)
  return (s, ⟨[], [], none⟩)

def commitMembershipProof (H : Hashing) (env : Env) (s : State) (clientId : ClientId)
    (proofHeight : Height) (proof path value : Bytes) : Result (State × Response) := do
  let impl ← clientImpl s clientId
  verifyMembership env impl ⟨clientId, proofHeight, proof, path, value⟩
  return (storeCommit s ((StorePath.membershipProof clientId proofHeight path).key H) (commit H value),
    .event (.commitMembershipProof clientId proofHeight path value))

def commitNonMembershipProof (H : Hashing) (env : Env) (s : State) (clientId : ClientId)
    (proofHeight : Height) (proof path : Bytes) : Result (State × Response) := do
  let impl ← clientImpl s clientId
  verifyNonMembership env impl ⟨clientId, proofHeight, proof, path⟩
  return (storeCommit s ((StorePath.nonMembershipProof clientId proofHeight path).key H)
      NON_MEMBERSHIP_COMMITMENT_VALUE,
    .event (.commitNonMembershipProof clientId proofHeight path))

end UnionVoyager.Core
