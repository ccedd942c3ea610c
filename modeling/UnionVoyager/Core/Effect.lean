import UnionVoyager.Core.LightClient
import UnionVoyager.Lib.Loop

/-!
# What one message can do

`Effect` says once, for every message the core accepts, what was checked, what the storage is
afterwards and which messages are dispatched.  Every invariant of the core is proved by cases on
it, so no invariant proof unfolds a handler.

* `execute_effect` — **an accepted message has an effect**.
* `Effect.clients` — only a client message writes the stores of the clients.
-/

namespace UnionVoyager.Core

open Lib Function

/-- The light client of `i` accepts a proof that the counterparty maps `path` to `value`. -/
def Proven (env : Env) (i : ClientId) (h : Height) (path value : Bytes) : Prop :=
  ∃ impl proof, env.querier.verifyMembership impl ⟨i, h, proof, path, value⟩ = true

/-- The light client of `i` accepts a proof that the counterparty maps `path` to nothing. -/
def ProvenAbsent (env : Env) (i : ClientId) (h : Height) (path : Bytes) : Prop :=
  ∃ impl proof, env.querier.verifyNonMembership impl ⟨i, h, proof, path⟩ = true

/-- Every client id with an entry in one of the client stores is below the next client id. -/
structure ClientsAllocated (s : State) : Prop where
  types : ∀ i, (s.clientTypes i).isSome → i.raw.get < s.nextClientId.raw.get
  impls : ∀ i, (s.clientImpls i).isSome → i.raw.get < s.nextClientId.raw.get
  states : ∀ i, (s.clientStates i).isSome → i.raw.get < s.nextClientId.raw.get
  consensus : ∀ i h, (s.clientConsensusStates (i, h)).isSome → i.raw.get < s.nextClientId.raw.get

/-- A key of the provable store that belongs to a client. -/
def IsClientKey (H : Hashing) (k : H256) : Prop :=
  (∃ i, k = (StorePath.clientState i).key H) ∨ ∃ i h, k = (StorePath.consensusState i h).key H

/-- What a client handler leaves alone: the handshake stores, and every commitment that is not a
    client's.  It allocates no id out of order. -/
structure ClientFrame (H : Hashing) (s s' : State) : Prop where
  nextConnectionId : s'.nextConnectionId = s.nextConnectionId
  nextChannelId : s'.nextChannelId = s.nextChannelId
  queryStore : s.queryStore = none → s'.queryStore = none
  channelOwner : s'.channelOwner = s.channelOwner
  channels : s'.channels = s.channels
  contractChannels : s'.contractChannels = s.contractChannels
  connections : s'.connections = s.connections
  commitments : ∀ k, ¬ IsClientKey H k → s'.commitments k = s.commitments k
  persist : ∀ k, (s.commitments k).isSome → (s'.commitments k).isSome
  allocated : ClientsAllocated s → ClientsAllocated s'

/-- The storage `init_client` leaves, given the answers of the light client. -/
def clientInitialised (H : Hashing) (s : State) (i : ClientId) (clientState consensusState : Bytes)
    (n : Height) (v : VerifyCreationResponse) : State :=
  let s := writeConsensusState (writeClientState s i clientState) i n consensusState
  let s := overwriteClientState s i v.clientStateBytes
  let s := storeCommit s ((StorePath.clientState i).key H) (commit H clientState)
  let s := storeCommit s ((StorePath.consensusState i n).key H) (commit H consensusState)
  writeClientStore s i v.storageWrites

/-- The storage after `next_client_id` and the two writes that register the new client. -/
def clientAllocated (s : State) (n : ClientId) (ty : String) (impl : Addr) : State :=
  { s with
    nextClientId := n
    clientTypes := update s.clientTypes s.nextClientId (some ty)
    clientImpls := update s.clientImpls s.nextClientId (some impl) }

/-- The storage `update_client` leaves, given the answer of the light client. -/
def clientUpdated (H : Hashing) (s : State) (i : ClientId) (u : UpdateStateResponse) : State :=
  let s := match u.clientStateBytes with
    | some b => writeClientState (storeCommit s ((StorePath.clientState i).key H) (commit H b)) i b
    | none => s
  let s := storeCommit s ((StorePath.consensusState i u.height).key H) (commit H u.consensusStateBytes)
  writeClientStore (writeConsensusState s i u.height u.consensusStateBytes) i u.storageWrites

/-- The answer to the `VerifyCreation` query of `init_client`, which is asked after the height. -/
def initAnswer (env : Env) (info : MessageInfo) (relayer impl : Addr) (i : ClientId) :
    Option VerifyCreationResponse := do
  let _ ← env.querier.getLatestHeight impl i
  env.querier.verifyCreation impl ⟨info.sender, i, relayer⟩

/-- The client state of a message that creates or replaces a client, and the answer to `VerifyCreation`
    that the message is given, if it gets that far. -/
def creationAnswer (env : Env) (s : State) (info : MessageInfo) :
    ExecuteMsg → Option (Bytes × VerifyCreationResponse)
  | .restricted (.createClient ty cs _ relayer) =>
    if env.validAddr relayer then do
      let impl ← s.clientRegistry ty
      let _ ← s.nextClientId.checkedAdd 1
      let answer ← initAnswer env info relayer impl s.nextClientId
      return (cs, answer)
    else
      none
  | .restricted (.forceUpdateClient i cs _) => do
    let impl ← s.clientImpls i
    let answer ← initAnswer env info info.sender impl i
    return (cs, answer)
  | _ => none

/-- What an accepted client message wrote. -/
inductive ClientEffect (H : Hashing) (env : Env) (info : MessageInfo) (s : State) : ExecuteMsg → State → Prop
  | registerClient {m : ExecuteMsg} {ty : String} {a : Addr} :
      ClientEffect H env info s m { s with clientRegistry := update s.clientRegistry ty (some a) }
  | createClient {ty relayer : String} {cs cons : Bytes} {impl : Addr} {n : ClientId}
      {height : Height} {v : VerifyCreationResponse} : s.nextClientId.checkedAdd 1 = some n →
      creationAnswer env s info (.restricted (.createClient ty cs cons relayer)) = some (cs, v) →
      ClientEffect H env info s (.restricted (.createClient ty cs cons relayer))
        (clientInitialised H (clientAllocated s n ty impl) s.nextClientId cs cons height v)
  | forceUpdateClient {i : ClientId} {cs cons : Bytes} {impl : Addr} {height : Height}
      {v : VerifyCreationResponse} : s.clientImpls i = some impl →
      creationAnswer env s info (.restricted (.forceUpdateClient i cs cons)) = some (cs, v) →
      ClientEffect H env info s (.restricted (.forceUpdateClient i cs cons))
        (clientInitialised H s i cs cons height v)
  | updateClient {i : ClientId} {message : Bytes} {relayer impl : Addr} {u : UpdateStateResponse} :
      s.clientImpls i = some impl → env.querier.getStatus impl i = some .active →
      env.querier.updateState impl ⟨info.sender, i, relayer⟩ = some u →
      ClientEffect H env info s (.restricted (.updateClient i message relayer))
        (clientUpdated H { s with queryStore := none } i u)
  | misbehaviour {i : ClientId} {message : Bytes} {relayer impl : Addr} {m : MisbehaviourResponse} :
      s.clientImpls i = some impl → env.querier.getStatus impl i = some .active →
      env.querier.misbehaviour impl ⟨info.sender, i, relayer⟩ = some m →
      ClientEffect H env info s (.restricted (.misbehaviour i message relayer))
        (writeClientState (storeCommit { s with queryStore := none }
          ((StorePath.clientState i).key H) (commit H m.clientStateBytes)) i m.clientStateBytes)
  | migrateState {i : ClientId} {cs cons : Bytes} {n : Height} : s.clientImpls i = some info.sender →
      ClientEffect H env info s (.migrateState i cs cons n)
        (storeCommit (writeConsensusState (storeCommit (writeClientState s i cs)
            ((StorePath.clientState i).key H) (commit H cs)) i n cons)
          ((StorePath.consensusState i n).key H) (commit H cons))

/-- One iteration of `process_receive` over the batch `ps` on channel `d`. -/
inductive ReceiveStep (H : Hashing) (env : Env) (info : MessageInfo) (ps : List Packet)
    (d : ChannelId) (port relayer : Addr) (intent : Bool) : State → List Dispatch → State → Prop
  | already {s : State} {p : Packet} : p ∈ ps → p.destinationChannelId = d →
      (s.commitments (receiptsKey H [p])).isSome → ReceiveStep H env info ps d port relayer intent s [] s
  | fresh {s : State} {p : Packet} {msg : Bytes} : p ∈ ps → p.destinationChannelId = d →
      env.blockTime < p.timeoutTimestamp → s.commitments (receiptsKey H [p]) = none →
      ReceiveStep H env info ps d port relayer intent s
        [(receiveOutput H info d port relayer intent p msg).2]
        (storeCommit s (receiptsKey H [p]) COMMITMENT_MAGIC)

/-- One iteration of `acknowledge_packet`. -/
inductive AcknowledgeStep (H : Hashing) (info : MessageInfo) (port relayer : Addr) :
    State → List Dispatch → State → Prop
  | mark {s : State} {p : Packet} {ack : Bytes} : s.commitments (packetsKey H [p]) = some COMMITMENT_MAGIC →
      AcknowledgeStep H info port relayer s
        [⟨port, .onAcknowledgementPacket info.sender p ack relayer, []⟩]
        (storeCommit s (packetsKey H [p]) COMMITMENT_MAGIC_ACK)

/-- What an accepted message checked, wrote and dispatched. -/
inductive Effect (H : Hashing) (env : Env) (info : MessageInfo) (s : State) : ExecuteMsg → State →
      List Dispatch → Prop
  | delayed {m : ExecuteMsg} : Effect H env info s m s []
  | client {m : ExecuteMsg} {s' : State} : ClientEffect H env info s m s' → Effect H env info s m s' []
  | membershipProof {m : ExecuteMsg} {i : ClientId} {h : Height} {path value : Bytes} : Effect H env info s m
        (storeCommit s ((StorePath.membershipProof i h path).key H) (commit H value)) []
  | nonMembershipProof {m : ExecuteMsg} {i : ClientId} {h : Height} {path : Bytes} : Effect H env info s m
        (storeCommit s ((StorePath.nonMembershipProof i h path).key H)
          NON_MEMBERSHIP_COMMITMENT_VALUE) []
  | connectionOpenInit {m : ExecuteMsg} {i j : ClientId} {n : ConnectionId} :
      s.nextConnectionId.checkedAdd 1 = some n →
      Effect H env info s m (s.addConnection H n ⟨.init, i, j, none⟩) []
  | connectionOpenTry {m : ExecuteMsg} {i j : ClientId} {d n : ConnectionId} {h : Height} :
      s.nextConnectionId.checkedAdd 1 = some n →
      (m.isForce = false →
        Proven env i h ((StorePath.connection d).key H) (commitConnection H ⟨.init, j, i, none⟩)) →
      Effect H env info s m (s.addConnection H n ⟨.tryOpen, i, j, some d⟩) []
  | connectionOpenAck {m : ExecuteMsg} {c : Connection} {i d : ConnectionId} {h : Height} :
      s.connections i = some c → c.state = .init →
      (m.isForce = false →
        Proven env c.clientId h ((StorePath.connection d).key H)
          (commitConnection H ⟨.tryOpen, c.counterpartyClientId, c.clientId, some i⟩)) →
      Effect H env info s m
        (saveConnection H s i { c with state := .open, counterpartyConnectionId := some d }) []
  | connectionOpenConfirm {m : ExecuteMsg} {c : Connection} {i d : ConnectionId} {h : Height} :
      s.connections i = some c → c.state = .tryOpen → c.counterpartyConnectionId = some d →
      (m.isForce = false →
        Proven env c.clientId h ((StorePath.connection d).key H)
          (commitConnection H ⟨.open, c.counterpartyClientId, c.clientId, some i⟩)) →
      Effect H env info s m (saveConnection H s i { c with state := .open }) []
  | channelOpenInit {m : ExecuteMsg} {c : Connection} {i : ConnectionId} {n : ChannelId}
      {port relayer : Addr} {cport : Bytes} {version : String} :
      s.connections i = some c → c.state = .open → s.nextChannelId.checkedAdd 1 = some n →
      Effect H env info s m (s.addChannel H n port ⟨.init, i, none, cport, version⟩)
        [⟨port, .onChannelOpenInit info.sender i s.nextChannelId version relayer, []⟩]
  | channelOpenTry {m : ExecuteMsg} {c : Connection} {ch : Channel} {d : ConnectionId}
      {t n : ChannelId} {port relayer : Addr} {cversion : String} {h : Height} :
      ch.state = .tryOpen → s.connections ch.connectionId = some c → c.state = .open →
      c.counterpartyConnectionId = some d → ch.counterpartyChannelId = some t →
      s.nextChannelId.checkedAdd 1 = some n →
      (m.isForce = false →
        Proven env c.clientId h ((StorePath.channel t).key H)
          (commitChannel H ⟨.init, d, none, utf8 port, cversion⟩)) →
      Effect H env info s m (s.addChannel H n port ch)
        [⟨port, .onChannelOpenTry info.sender ch.connectionId s.nextChannelId ch.version cversion
          relayer, []⟩]
  | channelOpenAck {m : ExecuteMsg} {c : Connection} {ch : Channel} {d : ConnectionId}
      {i t : ChannelId} {port relayer : Addr} {cversion : String} {h : Height} :
      s.channels i = some ch → ch.state = .init → s.connections ch.connectionId = some c →
      c.state = .open → s.channelOwner i = some port → c.counterpartyConnectionId = some d →
      (m.isForce = false →
        Proven env c.clientId h ((StorePath.channel t).key H)
          (commitChannel H ⟨.tryOpen, d, some i, utf8 port, cversion⟩)) →
      Effect H env info s m
        (saveChannel H s i { ch with
          state := .open, version := cversion, counterpartyChannelId := some t })
        [⟨port, .onChannelOpenAck info.sender i t cversion relayer, []⟩]
  | channelOpenConfirm {m : ExecuteMsg} {c : Connection} {ch : Channel} {d : ConnectionId}
      {i t : ChannelId} {port relayer : Addr} {h : Height} :
      s.channels i = some ch → ch.state = .tryOpen → s.connections ch.connectionId = some c →
      c.state = .open → s.channelOwner i = some port → c.counterpartyConnectionId = some d →
      ch.counterpartyChannelId = some t →
      (m.isForce = false →
        Proven env c.clientId h ((StorePath.channel t).key H)
          (commitChannel H ⟨.open, d, some i, utf8 port, ch.version⟩)) →
      Effect H env info s m (saveChannel H s i { ch with state := .open })
        [⟨port, .onChannelOpenConfirm info.sender i relayer, []⟩]
  | channelCloseInit {ch : Channel} {i t : ChannelId} {port relayer : Addr} :
      s.channels i = some ch → ch.state = .open → s.channelOwner i = some port →
      ch.counterpartyChannelId = some t →
      Effect H env info s (.restricted (.channelCloseInit i relayer))
        (saveChannel H s i { ch with state := .closed })
        [⟨port, .onChannelCloseInit info.sender i relayer, []⟩]
  | channelCloseConfirm {ch : Channel} {i t : ChannelId} {port relayer : Addr} {proof : Bytes}
      {h : Height} :
      s.channels i = some ch → ch.state = .open → s.channelOwner i = some port →
      ch.counterpartyChannelId = some t →
      Effect H env info s (.restricted (.channelCloseConfirm i proof h relayer))
        (saveChannel H s i { ch with state := .closed })
        [⟨port, .onChannelOpenConfirm info.sender i relayer, []⟩]
  | send {m : ExecuteMsg} {ch : Channel} {p : Packet} : s.channels p.sourceChannelId = some ch →
      ch.state = .open → ch.counterpartyChannelId = some p.destinationChannelId →
      s.commitments (packetsKey H [p]) = none →
      Effect H env info s m (storeCommit s (packetsKey H [p]) COMMITMENT_MAGIC) []
  | batchSend {m : ExecuteMsg} {ps : List Packet} : 2 ≤ ps.length →
      (∀ p ∈ ps, s.commitments (packetsKey H [p]) = some COMMITMENT_MAGIC) →
      Effect H env info s m (storeCommit s (packetsKey H ps) COMMITMENT_MAGIC) []
  | batchAcks {m : ExecuteMsg} {ps : List Packet} {acks : List Bytes} : 2 ≤ ps.length →
      Effect H env info s m (storeCommit s (receiptsKey H ps) (commitAcks H acks)) []
  | writeAcknowledgement {m : ExecuteMsg} {p : Packet} {ack : Bytes} :
      s.commitments (receiptsKey H [p]) = some COMMITMENT_MAGIC →
      Effect H env info s m (storeCommit s (receiptsKey H [p]) (commitAck H ack)) []
  | receive {m : ExecuteMsg} {s' : State} {c : Connection} {ch : Channel} {ps : List Packet}
      {d : ChannelId} {port relayer : Addr} {intent : Bool} {h : Height} {msgs : List Dispatch} :
      s.channels d = some ch → ch.state = .open → s.connections ch.connectionId = some c →
      (intent = false → Proven env c.clientId h (packetsKey H ps) COMMITMENT_MAGIC) →
      (intent = false → ∃ rms r pr n, m = .restricted (.packetRecv ps rms r pr n)) →
      Loop (ReceiveStep H env info ps d port relayer intent) s msgs s' →
      Effect H env info s m s' msgs
  | acknowledge {m : ExecuteMsg} {s' : State} {port relayer : Addr} {msgs : List Dispatch} :
      Loop (AcknowledgeStep H info port relayer) s msgs s' → Effect H env info s m s' msgs
  | timeout {m : ExecuteMsg} {c : Connection} {ch : Channel} {p : Packet} {port relayer : Addr}
      {h : Height} {t : Timestamp} {impl : Addr} :
      s.channels p.sourceChannelId = some ch → s.connections ch.connectionId = some c →
      env.querier.getTimestamp impl c.clientId h = some t → p.timeoutTimestamp ≤ t →
      ProvenAbsent env c.clientId h (receiptsKey H [p]) →
      s.commitments (packetsKey H [p]) = some COMMITMENT_MAGIC →
      Effect H env info s m (storeCommit s (packetsKey H [p]) COMMITMENT_MAGIC_ACK)
        [⟨port, .onTimeoutPacket info.sender p relayer, []⟩]

/-- The stores that light clients read, and the next client id, are as before. -/
structure KeepsClients (s s' : State) : Prop where
  stores : s'.hostStores = s.hostStores
  next : s'.nextClientId = s.nextClientId

variable {H : Hashing} {env : Env} {info : MessageInfo} {s s' s'' : State} {r : Response}

/-! ## Client handlers -/

theorem ClientFrame.refl (s : State) : ClientFrame H s s :=
  ⟨rfl, rfl, id, rfl, rfl, rfl, rfl, fun _ _ => rfl, fun _ => id, id⟩

theorem ClientFrame.trans (h : ClientFrame H s s') (h' : ClientFrame H s' s'') : ClientFrame H s s'' where
  nextConnectionId := h'.nextConnectionId.trans h.nextConnectionId
  nextChannelId := h'.nextChannelId.trans h.nextChannelId
  queryStore := h'.queryStore ∘ h.queryStore
  channelOwner := h'.channelOwner.trans h.channelOwner
  channels := h'.channels.trans h.channels
  contractChannels := h'.contractChannels.trans h.contractChannels
  connections := h'.connections.trans h.connections
  commitments k hk := (h'.commitments k hk).trans (h.commitments k hk)
  persist k := h'.persist k ∘ h.persist k
  allocated := h'.allocated ∘ h.allocated

theorem storeCommit_clientFrame {k v : H256} (hk : IsClientKey H k) : ClientFrame H s (storeCommit s k v) :=
  ⟨rfl, rfl, id, rfl, rfl, rfl, rfl,
    fun _ hk' => storeCommit_of_ne (ne_of_mem_of_not_mem (s := {k | IsClientKey H k}) hk hk').symm s v,
    fun _ => storeCommit_isSome, fun h => ⟨h.types, h.impls, h.states, h.consensus⟩⟩

theorem isSome_update {α β : Type} [DecidableEq α] {f : α → Option β} {a x : α} {b : β}
    (h : (update f a (some b) x).isSome) : x = a ∨ (f x).isSome := by
  by_cases hx : x = a
  · exact .inl hx
  · rw [update_of_ne hx] at h
    exact .inr h

variable {i : ClientId}

theorem writeClientState_frame (hi : (s.clientImpls i).isSome) (b : Bytes) :
    ClientFrame H s (writeClientState s i b) := by
  refine ⟨rfl, rfl, id, rfl, rfl, rfl, rfl, fun _ _ => rfl, fun _ => id, fun h => ?_⟩
  refine ⟨h.types, h.impls, fun j hj => ?_, h.consensus⟩
  rcases isSome_update hj with rfl | hj
  · exact h.impls _ hi
  · exact h.states j hj

theorem writeConsensusState_frame (hi : (s.clientImpls i).isSome) (n : Height) (b : Bytes) :
    ClientFrame H s (writeConsensusState s i n b) := by
  refine ⟨rfl, rfl, id, rfl, rfl, rfl, rfl, fun _ _ => rfl, fun _ => id, fun h => ?_⟩
  refine ⟨h.types, h.impls, h.states, fun j m hj => ?_⟩
  rcases isSome_update hj with e | hj
  · cases e
    exact h.impls _ hi
  · exact h.consensus j m hj

theorem writeClientStore_frame (i : ClientId) (ws : List (Bytes × Bytes)) :
    ClientFrame H s (writeClientStore s i ws) :=
  ⟨rfl, rfl, id, rfl, rfl, rfl, rfl, fun _ _ => rfl, fun _ => id, fun h =>
    ⟨h.types, h.impls, h.states, h.consensus⟩⟩

theorem isClientKey_clientState (i : ClientId) : IsClientKey H ((StorePath.clientState i).key H) :=
    .inl ⟨i, rfl⟩

theorem isClientKey_consensusState (i : ClientId) (n : Height) :
    IsClientKey H ((StorePath.consensusState i n).key H) := .inr ⟨i, n, rfl⟩

variable {cs cons proof : Bytes} {n height : Height}

theorem initClient_ok {relayer impl : Addr} {v : VerifyCreationResponse}
    (h : initClient H env s info cs cons relayer impl i = .ok (s', v, n)) :
    initAnswer env info relayer impl i = some v ∧ s' = clientInitialised H s i cs cons n v := by
  simp only [initClient, bind_eq_ok, queryLightClient_eq_ok, pure_eq_ok, Prod.mk.injEq] at h
  obtain ⟨height, hheight, _, hv, rfl, rfl, rfl⟩ := h
  refine ⟨?_, rfl⟩
  rw [initAnswer, hheight]
  exact hv

/-- **`init_client` writes what it is answered.** -/
theorem initClient_of_answer {relayer impl : Addr} {v : VerifyCreationResponse}
    (h : initAnswer env info relayer impl i = some v) :
    ∃ n, initClient H env s info cs cons relayer impl i =
      .ok (clientInitialised H s i cs cons n v, v, n) := by
  obtain ⟨n, hn, hv⟩ := Option.bind_eq_some_iff.mp h
  refine ⟨n, ?_⟩
  simp only [initClient, bind_eq_ok, queryLightClient_eq_ok, pure_eq_ok]
  exact ⟨n, hn, v, hv, rfl⟩

theorem clientInitialised_frame (hi : (s.clientImpls i).isSome) (cs cons : Bytes) (n : Height)
    (v : VerifyCreationResponse) : ClientFrame H s (clientInitialised H s i cs cons n v) := by
  unfold clientInitialised
  refine .trans (.trans (.trans ?_ (storeCommit_clientFrame (isClientKey_clientState i)))
    (storeCommit_clientFrame (isClientKey_consensusState i n))) (writeClientStore_frame i _)
  have hwrites : ClientFrame H s (writeConsensusState (writeClientState s i cs) i n cons) :=
    .trans (writeClientState_frame hi cs)
      (writeConsensusState_frame (s := writeClientState s i cs) hi n cons)
  unfold overwriteClientState
  split
  · exact hwrites.trans (writeClientState_frame
      (s := writeConsensusState (writeClientState s i cs) i n cons) hi _)
  · exact hwrites

theorem ClientId.checkedAdd_get {n : ClientId} {k : Nat} (h : i.checkedAdd k = some n) :
    n.raw.get = i.raw.get + k := by
  unfold ClientId.checkedAdd at h
  obtain ⟨m, hm, rfl⟩ := Option.map_eq_some_iff.mp h
  exact NonZeroU32.checkedAdd_get hm

theorem clientAllocated_frame {n : ClientId} (hn : s.nextClientId.checkedAdd 1 = some n)
    (ty : String) (impl : Addr) : ClientFrame H s (clientAllocated s n ty impl) := by
  refine ⟨rfl, rfl, id, rfl, rfl, rfl, rfl, fun _ _ => rfl, fun _ => id, fun h => ?_⟩
  have hlt : s.nextClientId.raw.get < n.raw.get := by rw [ClientId.checkedAdd_get hn]; omega
  refine ⟨fun i hi => ?_, fun i hi => ?_, fun i hi => (h.states i hi).trans hlt,
    fun i m hi => (h.consensus i m hi).trans hlt⟩
  · rcases isSome_update hi with rfl | hi
    · exact hlt
    · exact (h.types i hi).trans hlt
  · rcases isSome_update hi with rfl | hi
    · exact hlt
    · exact (h.impls i hi).trans hlt

theorem queryStore_frame (s : State) : ClientFrame H s { s with queryStore := none } :=
  ⟨rfl, rfl, fun _ => rfl, rfl, rfl, rfl, rfl, fun _ _ => rfl, fun _ => id,
    fun h => ⟨h.types, h.impls, h.states, h.consensus⟩⟩

theorem clientUpdated_frame (hi : (s.clientImpls i).isSome) (u : UpdateStateResponse) :
    ClientFrame H s (clientUpdated H s i u) := by
  have hstate : ∀ t : State, (t.clientImpls i).isSome → ClientFrame H s t →
      ClientFrame H s (writeClientStore (writeConsensusState (storeCommit t
        ((StorePath.consensusState i u.height).key H) (commit H u.consensusStateBytes)) i u.height
        u.consensusStateBytes) i u.storageWrites) := fun t ht hst =>
    ((hst.trans (storeCommit_clientFrame (isClientKey_consensusState i _))).trans
      (writeConsensusState_frame (s := storeCommit t _ _) ht _ _)).trans (writeClientStore_frame i _)
  unfold clientUpdated
  split
  · exact hstate _ hi ((storeCommit_clientFrame (isClientKey_clientState i)).trans
      (writeClientState_frame (s := storeCommit s _ _) hi _))
  · exact hstate s hi (.refl s)

variable {m : ExecuteMsg}

theorem ClientEffect.frame (h : ClientEffect H env info s m s') : ClientFrame H s s' := by
  cases h with
  | registerClient =>
    exact ⟨rfl, rfl, id, rfl, rfl, rfl, rfl, fun _ _ => rfl, fun _ => id,
      fun h => ⟨h.types, h.impls, h.states, h.consensus⟩⟩
  | createClient hn =>
    exact (clientAllocated_frame hn _ _).trans
      (clientInitialised_frame (by simp [clientAllocated]) ..)
  | forceUpdateClient hi => exact clientInitialised_frame (by simp [hi]) ..
  | updateClient hi => exact (queryStore_frame s).trans (clientUpdated_frame (by simp [hi]) _)
  | @misbehaviour i _ _ _ m hi =>
    exact ((queryStore_frame s).trans (storeCommit_clientFrame (isClientKey_clientState i))).trans
      (writeClientState_frame (by simp [storeCommit, hi]) m.clientStateBytes)
  | @migrateState i cs cons n hi =>
    have hi : (s.clientImpls i).isSome := by simp [hi]
    exact (((writeClientState_frame hi cs).trans
      (storeCommit_clientFrame (isClientKey_clientState i))).trans
      (writeConsensusState_frame (s := storeCommit (writeClientState s i cs) _ _) hi n cons)).trans
      (storeCommit_clientFrame (isClientKey_consensusState i n))

theorem KeepsClients.refl (s : State) : KeepsClients s s := ⟨rfl, rfl⟩

theorem KeepsClients.trans (h : KeepsClients s s') (h' : KeepsClients s' s'') : KeepsClients s s'' :=
  ⟨h'.stores.trans h.stores, h'.next.trans h.next⟩

theorem registerClient_effect {ty a : String} (h : registerClient env s ty a = .ok (s', r)) :
    Effect H env info s m s' r.messages := by
  simp only [registerClient, bind_eq_ok, addrValidate_eq_ok, require_eq_ok, pure_eq_ok, Prod.mk.injEq] at h
  obtain ⟨_, -, _, -, rfl, rfl⟩ := h
  exact .client .registerClient

variable {relayer : String}

theorem createClient_effect {ty : String} (h : createClient H env s info ty cs cons relayer = .ok (s', r)) :
    Effect H env info s (.restricted (.createClient ty cs cons relayer)) s' r.messages := by
  simp only [createClient, bind_eq_ok, addrValidate_eq_ok, read_eq_ok, pure_eq_ok] at h
  obtain ⟨_, ⟨hvalid, rfl⟩, impl, himpl, ⟨i, t⟩, hnext, ⟨u, v, height⟩, hinit, h⟩ := h
  obtain ⟨rfl, n, hn, rfl⟩ := nextClientId_eq_ok.mp hnext
  obtain ⟨hv, rfl⟩ := initClient_ok hinit
  cases h
  exact .client (.createClient hn (by simp [creationAnswer, hvalid, himpl, hn, hv]))

theorem forceUpdateClient_effect (h : forceUpdateClient H env s info i cs cons = .ok (s', r)) :
    Effect H env info s (.restricted (.forceUpdateClient i cs cons)) s' r.messages := by
  simp only [forceUpdateClient, bind_eq_ok, clientImpl_eq_ok, pure_eq_ok] at h
  obtain ⟨impl, himpl, ⟨u, v, height⟩, hinit, h⟩ := h
  obtain ⟨hv, rfl⟩ := initClient_ok hinit
  cases h
  exact .client (.forceUpdateClient himpl (by simp [creationAnswer, himpl, hv]))

theorem updateClient_effect {msg : Bytes} (h : updateClient H env s info i msg relayer = .ok (s', r)) :
    Effect H env info s (.restricted (.updateClient i msg relayer)) s' r.messages := by
  simp only [updateClient, bind_eq_ok, addrValidate_eq_ok, clientImpl_eq_ok, queryLightClient_eq_ok,
    require_eq_ok, pure_eq_ok, Prod.mk.injEq] at h
  obtain ⟨_, ⟨-, rfl⟩, impl, himpl, _, hstatus, _, rfl, u, hu, rfl, rfl⟩ := h
  exact .client (.updateClient himpl hstatus hu)

theorem misbehaviour_effect {msg : Bytes} (h : misbehaviour H env s info i msg relayer = .ok (s', r)) :
    Effect H env info s (.restricted (.misbehaviour i msg relayer)) s' r.messages := by
  simp only [misbehaviour, bind_eq_ok, addrValidate_eq_ok, clientImpl_eq_ok, queryLightClient_eq_ok,
    require_eq_ok, pure_eq_ok, Prod.mk.injEq] at h
  obtain ⟨_, ⟨-, rfl⟩, impl, himpl, _, hstatus, _, rfl, m, hm, rfl, rfl⟩ := h
  exact .client (.misbehaviour himpl hstatus hm)

variable {sender : Addr}

theorem migrateState_effect (h : migrateState H s info.sender i cs cons n = .ok (s', r)) :
    Effect H env info s (.migrateState i cs cons n) s' r.messages := by
  simp only [migrateState, bind_eq_ok, read_eq_ok, require_eq_ok, pure_eq_ok, Prod.mk.injEq] at h
  obtain ⟨impl, himpl, _, rfl, _, -, _, -, rfl, rfl⟩ := h
  exact .client (.migrateState himpl)

theorem ClientFrame.committed (h : ClientFrame H s s') (hH : H.CollisionFree) {p : StorePath}
    (hs : ∀ i, p ≠ .clientState i) (hc : ∀ i n, p ≠ .consensusState i n) :
    Core.committed H s' p = Core.committed H s p := by
  refine h.commitments _ ?_
  rintro (⟨i, hi⟩ | ⟨i, n, hi⟩)
  · exact hs i (StorePath.key_injective hH hi)
  · exact hc i n (StorePath.key_injective hH hi)

/-! ## Handshakes -/

section Handshake

variable {m : ExecuteMsg} {verify : Bool}

theorem connectionOpenInit_effect {j : ClientId} (h : connectionOpenInit H s i j = .ok (s', r)) :
    Effect H env info s m s' r.messages := by
  simp only [connectionOpenInit, bind_eq_ok, pure_eq_ok, Prod.mk.injEq] at h
  obtain ⟨⟨c, t⟩, hnext, rfl, rfl⟩ := h
  obtain ⟨rfl, n, hn, rfl⟩ := nextConnectionId_eq_ok.mp hnext
  exact .connectionOpenInit hn

theorem connectionOpenTry_effect (hm : m.isForce = !verify) {j : ClientId} {d : ConnectionId}
    (h : connectionOpenTry H env s j d i proof height verify = .ok (s', r)) :
    Effect H env info s m s' r.messages := by
  simp only [connectionOpenTry, bind_eq_ok, onlyIf_eq_ok, clientImpl_eq_ok, verifyMembership_eq_ok,
    pure_eq_ok, Prod.mk.injEq] at h
  obtain ⟨⟨c, t⟩, hnext, _, hv, rfl, rfl⟩ := h
  obtain ⟨rfl, n, hn, rfl⟩ := nextConnectionId_eq_ok.mp hnext
  refine .connectionOpenTry (h := height) hn fun hf => ?_
  obtain ⟨impl, -, hp⟩ := hv (by simpa [hf] using hm)
  exact ⟨impl, proof, hp⟩

theorem connectionOpenAck_effect (hm : m.isForce = !verify) {i d : ConnectionId}
    (h : connectionOpenAck H env s i d proof height verify = .ok (s', r)) :
    Effect H env info s m s' r.messages := by
  simp only [connectionOpenAck, bind_eq_ok, read_eq_ok, require_eq_ok, onlyIf_eq_ok,
    clientImpl_eq_ok, verifyMembership_eq_ok, pure_eq_ok, Prod.mk.injEq] at h
  obtain ⟨c, hc, _, hs, _, hv, rfl, rfl⟩ := h
  refine .connectionOpenAck (h := height) hc hs fun hf => ?_
  obtain ⟨impl, -, hp⟩ := hv (by simpa [hf] using hm)
  exact ⟨impl, proof, hp⟩

theorem connectionOpenConfirm_effect (hm : m.isForce = !verify) {i : ConnectionId}
    (h : connectionOpenConfirm H env s i proof height verify = .ok (s', r)) :
    Effect H env info s m s' r.messages := by
  simp only [connectionOpenConfirm, bind_eq_ok, read_eq_ok, require_eq_ok, expect_eq_ok,
    onlyIf_eq_ok, clientImpl_eq_ok, verifyMembership_eq_ok, pure_eq_ok, Prod.mk.injEq] at h
  obtain ⟨c, hc, _, hs, d, hd, _, hv, rfl, rfl⟩ := h
  refine .connectionOpenConfirm (h := height) hc hs hd fun hf => ?_
  obtain ⟨impl, -, hp⟩ := hv (by simpa [hf] using hm)
  exact ⟨impl, proof, hp⟩

theorem channelOpenInit_effect {port version : String} {cport : Bytes} {i : ConnectionId}
    (h : channelOpenInit H env s info port cport i version relayer = .ok (s', r)) :
    Effect H env info s m s' r.messages := by
  simp only [channelOpenInit, bind_eq_ok, addrValidate_eq_ok, ensureConnectionState_eq_ok, pure_eq_ok,
    Prod.mk.injEq] at h
  obtain ⟨_, ⟨-, rfl⟩, _, ⟨-, rfl⟩, c, ⟨hc, hs⟩, ⟨j, ch, t⟩, hcreate, rfl, rfl⟩ := h
  obtain ⟨rfl, rfl, n, hn, rfl⟩ := createChannel_ok hcreate
  exact .channelOpenInit hc hs hn

theorem channelOpenTry_effect (hm : m.isForce = !verify) {port cversion : String} {ch : Channel}
    (h : channelOpenTry H env s info port ch cversion proof height relayer verify = .ok (s', r)) :
    Effect H env info s m s' r.messages := by
  simp only [channelOpenTry, bind_eq_ok, addrValidate_eq_ok, require_eq_ok,
    ensureConnectionState_eq_ok, expect_eq_ok, clientImpl_eq_ok, okOr_eq_ok, onlyIf_eq_ok,
    verifyMembership_eq_ok, pure_eq_ok, Prod.mk.injEq] at h
  obtain ⟨_, ⟨-, rfl⟩, _, hs, c, ⟨hc, hopen⟩, d, hd, impl, -, t, ht, _, hv, _, ⟨-, rfl⟩,
    ⟨j, ch', t'⟩, hcreate, rfl, rfl⟩ := h
  obtain ⟨rfl, rfl, n, hn, rfl⟩ := createChannel_ok hcreate
  exact .channelOpenTry (h := height) hs hc hopen hd ht hn
    fun hf => ⟨impl, proof, hv (by simpa [hf] using hm)⟩

theorem channelOpenAck_effect (hm : m.isForce = !verify) {cversion : String} {i t : ChannelId}
    (h : channelOpenAck H env s info i cversion t proof height relayer verify = .ok (s', r)) :
    Effect H env info s m s' r.messages := by
  simp only [channelOpenAck, bind_eq_ok, addrValidate_eq_ok, read_eq_ok, require_eq_ok,
    ensureConnectionState_eq_ok, expect_eq_ok, clientImpl_eq_ok, onlyIf_eq_ok,
    verifyMembership_eq_ok, pure_eq_ok, Prod.mk.injEq] at h
  obtain ⟨_, ⟨-, rfl⟩, ch, hch, _, hs, c, ⟨hc, hopen⟩, port, hport, d, hd, impl, -, _, hv, rfl, rfl⟩ := h
  exact .channelOpenAck (h := height) hch hs hc hopen hport hd
    fun hf => ⟨impl, proof, hv (by simpa [hf] using hm)⟩

theorem channelOpenConfirm_effect (hm : m.isForce = !verify) {i : ChannelId}
    (h : channelOpenConfirm H env s info i proof height relayer verify = .ok (s', r)) :
    Effect H env info s m s' r.messages := by
  simp only [channelOpenConfirm, bind_eq_ok, addrValidate_eq_ok, read_eq_ok, require_eq_ok,
    ensureConnectionState_eq_ok, expect_eq_ok, clientImpl_eq_ok, onlyIf_eq_ok,
    verifyMembership_eq_ok, pure_eq_ok, Prod.mk.injEq] at h
  obtain ⟨_, ⟨-, rfl⟩, ch, hch, _, hs, c, ⟨hc, hopen⟩, port, hport, d, hd, impl, -, t, ht, _, hv,
    rfl, rfl⟩ := h
  exact .channelOpenConfirm (h := height) hch hs hc hopen hport hd ht
    fun hf => ⟨impl, proof, hv (by simpa [hf] using hm)⟩

theorem channelCloseInit_effect {i : ChannelId} (h : channelCloseInit H env s info i relayer = .ok (s', r)) :
    Effect H env info s (.restricted (.channelCloseInit i relayer)) s' r.messages := by
  simp only [channelCloseInit, bind_eq_ok, addrValidate_eq_ok, read_eq_ok, require_eq_ok,
    ensureConnectionState_eq_ok, expect_eq_ok, pure_eq_ok, Prod.mk.injEq] at h
  obtain ⟨_, ⟨-, rfl⟩, ch, hch, _, hs, c, -, port, hport, t, ht, rfl, rfl⟩ := h
  exact .channelCloseInit hch hs hport ht

theorem channelCloseConfirm_effect {i : ChannelId}
    (h : channelCloseConfirm H env s info i proof height relayer = .ok (s', r)) :
    Effect H env info s (.restricted (.channelCloseConfirm i proof height relayer)) s' r.messages := by
  simp only [channelCloseConfirm, bind_eq_ok, addrValidate_eq_ok, read_eq_ok, require_eq_ok,
    ensureConnectionState_eq_ok, expect_eq_ok, clientImpl_eq_ok, verifyMembership_eq_ok, pure_eq_ok,
    Prod.mk.injEq] at h
  obtain ⟨_, ⟨-, rfl⟩, ch, hch, _, hs, c, -, port, hport, d, -, impl, -, t, ht, _, -, rfl, rfl⟩ := h
  exact .channelCloseConfirm hch hs hport ht

end Handshake

/-! ## Packets -/

section Packets

variable {m : ExecuteMsg}

variable {c : ChannelId}

theorem sendPacket_effect {t : Timestamp} {data : Bytes} (h : sendPacket H s sender c t data = .ok (s', r)) :
    Effect H env info s m s' r.messages := by
  simp only [sendPacket, bind_eq_ok, require_eq_ok, read_eq_ok, ensureChannelState_eq_ok,
    expect_eq_ok, pure_eq_ok, Prod.mk.injEq] at h
  obtain ⟨_, -, port, -, _, -, ch, ⟨hch, hs⟩, d, hd, text, -, _, hnone, rfl, rfl⟩ := h
  exact .send (p := ⟨c, d, data, .mustBeZero, t⟩) hch hs hd hnone

variable {p : Packet}

theorem batchSendOne_ok {b : H256} {es es' : List Event} (h : batchSendOne H s c b es p = .ok es') :
    s.commitments (packetsKey H [p]) = some COMMITMENT_MAGIC := by
  simp only [batchSendOne, bind_eq_ok, require_eq_ok, okOr_eq_ok, readCommit, pure_eq_ok] at h
  obtain ⟨_, -, v, hv, _, rfl, -⟩ := h
  exact hv

variable {ps : List Packet}

theorem batchSend_effect (h : batchSend H s ps = .ok (s', r)) :
    Effect H env info s m s' r.messages := by
  unfold batchSend at h
  split at h
  · simp only [bind_eq_ok, pure_eq_ok, Prod.mk.injEq] at h
    obtain ⟨es, hes, rfl, rfl⟩ := h
    have hall := forall_of_foldlM
      (P := fun p => s.commitments (packetsKey H [p]) = some COMMITMENT_MAGIC)
      (fun _ _ _ hone => batchSendOne_ok hone) hes
    exact .batchSend (by simp) hall
  · cases h

theorem batchAcks_effect {acks : List Bytes} (h : batchAcks H s ps acks = .ok (s', r)) :
    Effect H env info s m s' r.messages := by
  unfold batchAcks at h
  split at h
  · simp only [bind_eq_ok, pure_eq_ok, Prod.mk.injEq] at h
    obtain ⟨es, -, rfl, rfl⟩ := h
    exact .batchAcks (by simp)
  · cases h

theorem writeAcknowledgement_effect {ack : Bytes} (h : writeAcknowledgement H s sender p ack = .ok (s', r)) :
    Effect H env info s m s' r.messages := by
  simp only [writeAcknowledgement, bind_eq_ok, require_eq_ok, read_eq_ok, okOr_eq_ok, readCommit,
    pure_eq_ok, Prod.mk.injEq] at h
  obtain ⟨_, -, _, -, _, -, v, hv, _, rfl, rfl, rfl⟩ := h
  exact .writeAcknowledgement hv

theorem receiveOne_step {d : ChannelId} {port relayer : Addr} {intent : Bool} {acc acc' : State × Response}
    {pm : Packet × Bytes} (hp : pm.1 ∈ ps) (h :
      receiveOne H env info d port relayer intent acc pm = .ok acc') :
    ∃ o, acc'.2.messages = acc.2.messages ++ o ∧
      ReceiveStep H env info ps d port relayer intent acc.1 o acc'.1 := by
  simp only [receiveOne, bind_eq_ok, require_eq_ok] at h
  obtain ⟨_, hd, _, ht, h⟩ := h
  unfold setPacketReceive readCommit at h
  by_cases hr : (acc.1.commitments (receiptsKey H [pm.1])).isSome = true
  · rw [if_pos hr] at h
    obtain rfl := pure_eq_ok.mp h
    exact ⟨[], by simp, .already hp hd hr⟩
  · rw [if_neg hr] at h
    obtain rfl := pure_eq_ok.mp h
    exact ⟨_, rfl, .fresh hp hd ht (by simpa using hr)⟩

theorem processReceive_effect {msgs : List Bytes} {intent : Bool}
    (hm : intent = false → ∃ rms r pr n, m = .restricted (.packetRecv ps rms r pr n))
    (h : processReceive H env s info ps msgs relayer proof height intent = .ok (s', r)) :
    Effect H env info s m s' r.messages := by
  simp only [processReceive, bind_eq_ok, addrValidate_eq_ok, okOr_eq_ok, ensureChannelState_eq_ok,
    ensureConnectionState_eq_ok, onlyIf_eq_ok, clientImpl_eq_ok, verifyMembership_eq_ok,
    read_eq_ok] at h
  obtain ⟨_, ⟨-, rfl⟩, p, -, ch, ⟨hch, hs⟩, c, ⟨hc, -⟩, _, hv, port, -, hloop⟩ := h
  obtain ⟨os, hos, hL⟩ := loop_of_foldlM (σ := State) (ω := Dispatch) Prod.fst (·.2.messages)
    (fun _ pm _ hpm => receiveOne_step (List.of_mem_zip hpm).1) hloop
  rw [show r.messages = os from hos]
  refine .receive (h := height) hch hs hc (fun hi => ?_) hm hL
  obtain ⟨impl, -, hp⟩ := hv (by simp [hi])
  exact ⟨impl, proof, hp⟩

theorem markPacketAsAcknowledged_ok (h : markPacketAsAcknowledged H s p = .ok s') :
    s.commitments (packetsKey H [p]) = some COMMITMENT_MAGIC ∧
      s' = storeCommit s (packetsKey H [p]) COMMITMENT_MAGIC_ACK := by
  simp only [markPacketAsAcknowledged, bind_eq_ok, okOr_eq_ok, require_eq_ok, pure_eq_ok] at h
  obtain ⟨v, hv, _, -, _, rfl, rfl⟩ := h
  exact ⟨hv, rfl⟩

theorem acknowledgeOne_step {port relayer : Addr} {acc acc' : State × Response} {pa : Packet × Bytes}
    (h : acknowledgeOne H info c port relayer acc pa = .ok acc') :
      ∃ o, acc'.2.messages = acc.2.messages ++ o ∧
      AcknowledgeStep H info port relayer acc.1 o acc'.1 := by
  simp only [acknowledgeOne, bind_eq_ok, require_eq_ok, pure_eq_ok] at h
  obtain ⟨_, -, t, hmark, rfl⟩ := h
  obtain ⟨hv, rfl⟩ := markPacketAsAcknowledged_ok hmark
  exact ⟨_, rfl, .mark hv⟩

theorem acknowledgePacket_effect {acks : List Bytes}
    (h : acknowledgePacket H env s info ps acks proof height relayer = .ok (s', r)) :
    Effect H env info s m s' r.messages := by
  simp only [acknowledgePacket, bind_eq_ok] at h
  obtain ⟨_, -, _, -, _, -, _, -, _, -, _, -, port, -, hloop⟩ := h
  obtain ⟨os, hos, hL⟩ := loop_of_foldlM (σ := State) (ω := Dispatch) Prod.fst (·.2.messages)
    (fun _ _ _ _ => acknowledgeOne_step) hloop
  rw [show r.messages = os from hos]
  exact .acknowledge hL

theorem timeoutPacket_effect (h : timeoutPacket H env s info p proof height relayer = .ok (s', r)) :
    Effect H env info s m s' r.messages := by
  simp only [timeoutPacket, getTimestampAtHeight, bind_eq_ok, addrValidate_eq_ok,
    ensureChannelState_eq_ok, ensureConnectionState_eq_ok, clientImpl_eq_ok, queryLightClient_eq_ok,
    require_eq_ok, verifyNonMembership_eq_ok, read_eq_ok, pure_eq_ok, Prod.mk.injEq] at h
  obtain ⟨_, ⟨-, rfl⟩, ch, ⟨hch, -⟩, c, ⟨hc, -⟩, t, ⟨impl, -, ht⟩, _, -, impl', -, _, habs, u, hmark,
    _, -, _, hle, port, -, rfl, rfl⟩ := h
  obtain ⟨hv, rfl⟩ := markPacketAsAcknowledged_ok hmark
  exact .timeout hch hc ht hle ⟨impl', proof, habs⟩ hv

theorem commitMembershipProof_effect {path value : Bytes}
    (h : commitMembershipProof H env s i n proof path value = .ok (s', r)) :
    Effect H env info s m s' r.messages := by
  simp only [commitMembershipProof, bind_eq_ok, pure_eq_ok, Prod.mk.injEq] at h
  obtain ⟨_, -, _, -, rfl, rfl⟩ := h
  exact .membershipProof

theorem commitNonMembershipProof_effect {path : Bytes}
    (h : commitNonMembershipProof H env s i n proof path = .ok (s', r)) :
    Effect H env info s m s' r.messages := by
  simp only [commitNonMembershipProof, bind_eq_ok, pure_eq_ok, Prod.mk.injEq] at h
  obtain ⟨_, -, _, -, rfl, rfl⟩ := h
  exact .nonMembershipProof

end Packets

/-! ## Every message -/

theorem executeRestricted_effect {m : RestrictedExecuteMsg}
    (h : executeRestricted H env s info m = .ok (s', r)) :
    Effect H env info s (.restricted m) s' r.messages := by
  cases m with
  | registerClient => exact registerClient_effect h
  | createClient => exact createClient_effect h
  | updateClient => exact updateClient_effect h
  | forceUpdateClient => exact forceUpdateClient_effect h
  | misbehaviour => exact misbehaviour_effect h
  | connectionOpenInit => exact connectionOpenInit_effect h
  | connectionOpenTry | forceConnectionOpenTry => exact connectionOpenTry_effect rfl h
  | connectionOpenAck | forceConnectionOpenAck => exact connectionOpenAck_effect rfl h
  | connectionOpenConfirm | forceConnectionOpenConfirm => exact connectionOpenConfirm_effect rfl h
  | channelOpenInit => exact channelOpenInit_effect h
  | channelOpenTry | forceChannelOpenTry => exact channelOpenTry_effect rfl h
  | channelOpenAck | forceChannelOpenAck => exact channelOpenAck_effect rfl h
  | channelOpenConfirm | forceChannelOpenConfirm => exact channelOpenConfirm_effect rfl h
  | channelCloseInit => exact channelCloseInit_effect h
  | channelCloseConfirm => exact channelCloseConfirm_effect h
  | packetRecv ps rms r pr n => exact processReceive_effect (fun _ => ⟨rms, r, pr, n, rfl⟩) h
  | packetAck => exact acknowledgePacket_effect h
  | packetTimeout => exact timeoutPacket_effect h
  | intentPacketRecv => exact processReceive_effect (by simp) h
  | batchSend => exact batchSend_effect h
  | batchAcks => exact batchAcks_effect h
  | commitMembershipProof => exact commitMembershipProof_effect h
  | commitNonMembershipProof => exact commitNonMembershipProof_effect h

theorem execute_effect (h : execute H env s info m = .ok (s', r)) :
    Effect H env info s m s' r.messages := by
  cases m with
  | packetSend => exact sendPacket_effect h
  | writeAcknowledgement => exact writeAcknowledgement_effect h
  | migrateState => exact migrateState_effect h
  | restricted m =>
    simp only [execute] at h
    split at h
    · cases h
    · cases h
    · cases h
      exact .delayed
    · exact executeRestricted_effect h

theorem step_cases (H : Hashing) (s : State) (i : Input) :
    step H s i = (s, []) ∨ Effect H i.env i.info s i.msg (step H s i).1 (step H s i).2 := by
  unfold step
  cases h : execute H i.env s i.info i.msg with
  | error e => exact .inl rfl
  | ok sr => exact .inr (execute_effect h)

/-- **Only a client message writes the stores of the clients.** -/
theorem Effect.clients {msgs : List Dispatch} (h : Effect H env info s m s' msgs) :
    KeepsClients s s' ∨ ClientEffect H env info s m s' := by
  cases h with
  | client hf => exact .inr hf
  | receive _ _ _ _ _ hL =>
    refine .inl (hL.state_invariant (fun t o t' hkept hstep => hkept.trans ?_) (.refl s))
    cases hstep with
    | already => exact .refl t
    | fresh => exact ⟨rfl, rfl⟩
  | acknowledge hL =>
    refine .inl (hL.state_invariant (fun t o t' hkept hstep => hkept.trans ?_) (.refl s))
    cases hstep
    exact ⟨rfl, rfl⟩
  | _ => exact .inl ⟨rfl, rfl⟩

theorem step_clients (H : Hashing) (s : State) (i : Input) :
    KeepsClients s (step H s i).1 ∨ ClientEffect H i.env i.info s i.msg (step H s i).1 := by
  rcases step_cases H s i with heq | heffect
  · rw [heq]
    exact .inl (.refl s)
  · exact heffect.clients

theorem step_eq_of_not_immediate {i : Input} {m : RestrictedExecuteMsg} (hm : i.msg = .restricted m)
    (h : i.env.canCall ≠ some .immediate) : (step H s i).1 = s := by
  unfold step
  rw [hm]
  cases hcall : i.env.canCall with
  | none => simp [execute, hcall]
  | some r =>
    cases r with
    | unauthorized | withDelay => simp [execute, hcall]
    | immediate => exact absurd hcall h

end UnionVoyager.Core
