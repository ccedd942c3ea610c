import UnionVoyager.Core.Execute

/-!
# Light client contracts

`cosmwasm/core/light-client-interface`: the trait a light client implements, and the answers of its
contract to the queries about a client that exists.  A light client keeps nothing of its own: it
reads the stores of the core.
-/

namespace UnionVoyager.Core

open Lib

/-- The stores of the core that light clients read. -/
structure HostStores where
  clientStates : ClientId → Option Bytes
  clientConsensusStates : ClientId × Height → Option Bytes
  clientStore : ClientId × Bytes → Option Bytes
  clientImpls : ClientId → Option Addr
  queryStore : Option Bytes

def State.hostStores (s : State) : HostStores :=
  ⟨s.clientStates, s.clientConsensusStates, s.clientStore, s.clientImpls, s.queryStore⟩

structure IbcClientCtx where
  clientId : ClientId
  host : HostStores
  blockTime : Timestamp

structure StateUpdate (ClientState ConsensusState : Type) where
  height : Height
  clientState : Option ClientState
  consensusState : ConsensusState
  storageWrites : List (Bytes × Bytes)

/-- `trait IbcClient`.  An error or a panic is `none`, or `false`. -/
structure IbcClient where
  Header : Type
  Misbehaviour : Type
  ClientState : Type
  ConsensusState : Type
  StateProof : Type
  decodeHeader : Bytes → Option Header
  decodeMisbehaviour : Bytes → Option Misbehaviour
  decodeStateProof : Bytes → Option StateProof
  decodeClientState : Bytes → Option ClientState
  encodeClientState : ClientState → Option Bytes
  decodeConsensusState : Bytes → Option ConsensusState
  encodeConsensusState : ConsensusState → Option Bytes
  verifyMembership : IbcClientCtx → Height → Bytes → StateProof → Bytes → Bool
  verifyNonMembership : IbcClientCtx → Height → Bytes → StateProof → Bool
  getTimestamp : ConsensusState → Option Timestamp
  status : IbcClientCtx → ClientState → Status
  verifyHeader : IbcClientCtx → Addr → Header → Addr → Option (StateUpdate ClientState ConsensusState)
  misbehaviour : IbcClientCtx → Addr → Misbehaviour → Addr → Option ClientState

def IbcClientCtx.readSelfClientState (ctx : IbcClientCtx) {ClientState : Type}
    (decode : Bytes → Option ClientState) : Option ClientState :=
  (ctx.host.clientStates ctx.clientId).bind decode

/-- `self.read_self_consensus_state(height)`. -/
def IbcClientCtx.readSelfConsensusState (ctx : IbcClientCtx) {ConsensusState : Type}
    (decode : Bytes → Option ConsensusState) (height : Height) : Option ConsensusState :=
  (ctx.host.clientConsensusStates (ctx.clientId, height)).bind decode

namespace IbcClient

variable (T : IbcClient)

def readClientState (host : HostStores) (clientId : ClientId) : Option T.ClientState :=
  (host.clientStates clientId).bind T.decodeClientState

def readConsensusState (host : HostStores) (clientId : ClientId) (height : Height) :
    Option T.ConsensusState :=
  (host.clientConsensusStates (clientId, height)).bind T.decodeConsensusState

/-! ## `query` -/

variable (ctx : IbcClientCtx)

/-- `GetTimestamp`. -/
def queryTimestamp (height : Height) : Option Timestamp :=
  (T.readConsensusState ctx.host ctx.clientId height).bind T.getTimestamp

/-- `GetStatus`. -/
def queryStatus : Option Status := (T.readClientState ctx.host ctx.clientId).map (T.status ctx)

variable (paused : Bool)

/-- `VerifyMembership`: like every verification, refused while the contract is paused. -/
def queryVerifyMembership (q : VerifyMembershipQuery) : Bool :=
  !paused && (T.decodeStateProof q.proof).any fun proof =>
    T.verifyMembership ctx q.height q.path proof q.value

def queryVerifyNonMembership (q : VerifyNonMembershipQuery) : Bool :=
  !paused && (T.decodeStateProof q.proof).any fun proof => T.verifyNonMembership ctx q.height q.path proof

/-- `client_state.map(|cs| cs.encode_as::<T::Encoding>())`. -/
def encodeOverwrite : Option T.ClientState → Option (Option Bytes)
  | none => some none
  | some clientState => (T.encodeClientState clientState).map some

/-- `UpdateState`: the header is in the query store of the core. -/
def queryUpdateState (q : UpdateStateQuery) : Option UpdateStateResponse := do
  guard (paused = false)
  let message ← ctx.host.queryStore
  let header ← T.decodeHeader message
  let update ← T.verifyHeader ctx q.caller header q.relayer
  let clientStateBytes ← T.encodeOverwrite update.clientState
  let consensusStateBytes ← T.encodeConsensusState update.consensusState
  pure ⟨update.height, clientStateBytes, consensusStateBytes, update.storageWrites⟩

def queryMisbehaviour (q : MisbehaviourQuery) : Option MisbehaviourResponse := do
  guard (paused = false)
  let message ← ctx.host.queryStore
  let misbehaviour ← T.decodeMisbehaviour message
  let clientState ← T.misbehaviour ctx q.caller misbehaviour q.relayer
  let clientStateBytes ← T.encodeClientState clientState
  pure ⟨clientStateBytes⟩

end IbcClient

/-- The stores while the light client is asked about a message for it. -/
def State.asked (s : State) (clientMessage : Bytes) : HostStores :=
  { s.hostStores with queryStore := some clientMessage }

/-- The contract at `impl` is one of `T`, and answers the core in the state `s`. -/
structure Answers (T : IbcClient) (paused : Bool) (impl : Addr) (s : State) (i : Input) : Prop where
  timestamp : ∀ c h, i.env.querier.getTimestamp impl c h =
    T.queryTimestamp ⟨c, s.hostStores, i.env.blockTime⟩ h
  status : ∀ c, i.env.querier.getStatus impl c = T.queryStatus ⟨c, s.hostStores, i.env.blockTime⟩
  membership : ∀ q, i.env.querier.verifyMembership impl q =
    T.queryVerifyMembership ⟨q.clientId, s.hostStores, i.env.blockTime⟩ paused q
  nonMembership : ∀ q, i.env.querier.verifyNonMembership impl q =
    T.queryVerifyNonMembership ⟨q.clientId, s.hostStores, i.env.blockTime⟩ paused q
  updateState : ∀ c m r, i.msg = .restricted (.updateClient c m r) → ∀ q, i.env.querier.updateState impl q =
    T.queryUpdateState ⟨q.clientId, s.asked m, i.env.blockTime⟩ paused q
  misbehaviour : ∀ c m r, i.msg = .restricted (.misbehaviour c m r) → ∀ q, i.env.querier.misbehaviour impl q =
    T.queryMisbehaviour ⟨q.clientId, s.asked m, i.env.blockTime⟩ paused q

/-- The client `c` is one of a contract built on the trait.  Such a contract sends the core no message, so no
    `MigrateState` for `c` comes from it. -/
def HostedBy (T : IbcClient) (c : ClientId) (s : State) (i : Input) : Prop :=
  ∀ impl, s.clientImpls c = some impl → (∃ paused, Answers T paused impl s i) ∧
    ∀ cs cons h, i.msg = .migrateState c cs cons h → i.info.sender ≠ impl

namespace IbcClient

variable {T : IbcClient} {ctx : IbcClientCtx} {paused : Bool}

theorem queryUpdateState_eq_some {q : UpdateStateQuery} {u : UpdateStateResponse} :
    T.queryUpdateState ctx paused q = some u ↔ paused = false ∧ ∃ message header update cs b,
      ctx.host.queryStore = some message ∧ T.decodeHeader message = some header ∧
      T.verifyHeader ctx q.caller header q.relayer = some update ∧
        T.encodeOverwrite update.clientState = some cs ∧
      T.encodeConsensusState update.consensusState = some b ∧
        u = ⟨update.height, cs, b, update.storageWrites⟩ := by
  simp only [queryUpdateState, guard, Option.bind_eq_bind, Option.bind_eq_some_iff, Option.pure_def,
    Option.some.injEq]
  constructor
  · rintro ⟨_, hguard, message, hmessage, header, hheader, update, hupd, cs, hcs, b, hb, rfl⟩
    split at hguard
    · exact ⟨‹_›, message, header, update, cs, b, hmessage, hheader, hupd, hcs, hb, rfl⟩
    · cases hguard
  · rintro ⟨rfl, message, header, update, cs, b, hmessage, hheader, hupd, hcs, hb, rfl⟩
    exact ⟨(), rfl, message, hmessage, header, hheader, update, hupd, cs, hcs, b, hb, rfl⟩

theorem queryMisbehaviour_eq_some {q : MisbehaviourQuery} {m : MisbehaviourResponse} :
    T.queryMisbehaviour ctx paused q = some m ↔ paused = false ∧ ∃ message misbehaviour clientState b,
      ctx.host.queryStore = some message ∧ T.decodeMisbehaviour message = some misbehaviour ∧
      T.misbehaviour ctx q.caller misbehaviour q.relayer = some clientState ∧
      T.encodeClientState clientState = some b ∧ m = ⟨b⟩ := by
  simp only [queryMisbehaviour, guard, Option.bind_eq_bind, Option.bind_eq_some_iff,
    Option.pure_def, Option.some.injEq]
  constructor
  · rintro ⟨_, hguard, message, hmessage, misbehaviour, hdecode, clientState, hstate, b, hb, rfl⟩
    split at hguard
    · exact ⟨‹_›, message, misbehaviour, clientState, b, hmessage, hdecode, hstate, hb, rfl⟩
    · cases hguard
  · rintro ⟨rfl, message, misbehaviour, clientState, b, hmessage, hdecode, hstate, hb, rfl⟩
    exact ⟨(), rfl, message, hmessage, misbehaviour, hdecode, clientState, hstate, b, hb, rfl⟩

theorem encodeOverwrite_eq_some {o : Option T.ClientState} {b : Option Bytes}
    (h : T.encodeOverwrite o = some b) :
    (o = none ∧ b = none) ∨ ∃ cs b', o = some cs ∧ T.encodeClientState cs = some b' ∧ b = some b' := by
  unfold encodeOverwrite at h
  split at h
  · cases h
    exact .inl ⟨rfl, rfl⟩
  · obtain ⟨b', hb', rfl⟩ := Option.map_eq_some_iff.mp h
    exact .inr ⟨_, b', rfl, hb', rfl⟩

end IbcClient

end UnionVoyager.Core
