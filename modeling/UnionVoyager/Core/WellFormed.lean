import UnionVoyager.Core.Effect

/-!
# No handler of the core can panic

The handlers rely on facts that other handlers established in earlier transactions.  They are
collected in `WellFormed`, which every message keeps, including the unverified `Force*` messages and
whatever the light clients answer.

* `effect_wellFormed`, `run_wellFormed` — every reachable storage is well formed.
* `execute_noPanic` — on a well-formed storage no message reaches an `expect` or an `assert!`.
-/

namespace UnionVoyager.Core

open Lib Function

/-- What holds of the storage between any two messages. -/
structure WellFormed (s : State) : Prop where
  clients : ClientsAllocated s
  connection_lt : ∀ i, (s.connections i).isSome → i.raw.get < s.nextConnectionId.raw.get
  channel_lt : ∀ i, (s.channels i).isSome → i.raw.get < s.nextChannelId.raw.get
  owner_lt : ∀ i, (s.channelOwner i).isSome → i.raw.get < s.nextChannelId.raw.get
  owned_lt : ∀ a, ∀ i ∈ s.ownedBy a, i.raw.get < s.nextChannelId.raw.get
  connection_counterparty : ∀ i c, s.connections i = some c → c.state ≠ .init →
    c.counterpartyConnectionId.isSome
  channel_counterparty : ∀ i c, s.channels i = some c → c.state ≠ .init →
    c.counterpartyChannelId.isSome
  channel_owner : ∀ i c, s.channels i = some c → ∃ a, s.channelOwner i = some a ∧ i ∈ s.ownedBy a
  channel_connection : ∀ i c, s.channels i = some c → (s.connections c.connectionId).isSome
  queryStore : s.queryStore = none

theorem init_wellFormed : WellFormed State.init := by
  constructor <;> simp [State.init, State.ownedBy]
  constructor <;> simp

variable {H : Hashing} {env : Env} {info : MessageInfo} {s s' : State} {r : Response}

/-! ## Every write keeps it -/

theorem WellFormed.of_commitments (h : WellFormed s) (f : H256 → Option H256) :
    WellFormed { s with commitments := f } :=
  ⟨⟨h.clients.types, h.clients.impls, h.clients.states, h.clients.consensus⟩, h.connection_lt,
    h.channel_lt, h.owner_lt, h.owned_lt, h.connection_counterparty, h.channel_counterparty,
    h.channel_owner, h.channel_connection, h.queryStore⟩

theorem WellFormed.storeCommit (h : WellFormed s) (k v : H256) : WellFormed (storeCommit s k v) :=
    h.of_commitments _

theorem WellFormed.of_clientFrame (h : WellFormed s) (f : ClientFrame H s s') : WellFormed s' where
  clients := f.allocated h.clients
  connection_lt := by rw [f.connections, f.nextConnectionId]; exact h.connection_lt
  channel_lt := by rw [f.channels, f.nextChannelId]; exact h.channel_lt
  owner_lt := by rw [f.channelOwner, f.nextChannelId]; exact h.owner_lt
  owned_lt := by
    unfold State.ownedBy
    rw [f.contractChannels, f.nextChannelId]
    exact h.owned_lt
  connection_counterparty := by rw [f.connections]; exact h.connection_counterparty
  channel_counterparty := by rw [f.channels]; exact h.channel_counterparty
  channel_owner := by
    unfold State.ownedBy
    rw [f.channels, f.channelOwner, f.contractChannels]
    exact h.channel_owner
  channel_connection := by rw [f.channels, f.connections]; exact h.channel_connection
  queryStore := f.queryStore h.queryStore

theorem WellFormed.saveConnection (h : WellFormed s) {i n : ConnectionId} {c : Connection}
    (hi : i.raw.get < n.raw.get) (hn : s.nextConnectionId.raw.get ≤ n.raw.get)
    (hc : c.state ≠ .init → c.counterpartyConnectionId.isSome) :
    WellFormed (saveConnection H { s with nextConnectionId := n } i c) := by
  refine ⟨⟨h.clients.types, h.clients.impls, h.clients.states, h.clients.consensus⟩, fun j hj => ?_,
    h.channel_lt, h.owner_lt, h.owned_lt, fun j d hd => ?_, h.channel_counterparty, h.channel_owner,
    fun j d hd => ?_, h.queryStore⟩
  · rcases isSome_update hj with rfl | hj
    · exact hi
    · exact (h.connection_lt j hj).trans_le hn
  · rcases update_eq_some hd with ⟨-, rfl⟩ | ⟨-, hd⟩
    · exact hc
    · exact h.connection_counterparty j d hd
  · show (update s.connections i (some c) d.connectionId).isSome
    by_cases e : d.connectionId = i
    · simp [e]
    · rw [update_of_ne e]
      exact h.channel_connection j d hd

variable {i : ChannelId} {c : Channel}

theorem WellFormed.saveChannel (h : WellFormed s) {old : Channel} (hold : s.channels i = some old)
    (hconn : c.connectionId = old.connectionId) (hc : c.counterpartyChannelId.isSome) :
    WellFormed (saveChannel H s i c) := by
  refine ⟨⟨h.clients.types, h.clients.impls, h.clients.states, h.clients.consensus⟩, h.connection_lt,
    fun j hj => ?_, h.owner_lt, h.owned_lt, h.connection_counterparty, fun j d hd => ?_,
    fun j d hd => ?_, fun j d hd => ?_, h.queryStore⟩
  · rcases isSome_update hj with rfl | hj
    · exact h.channel_lt j (by simp [hold])
    · exact h.channel_lt j hj
  · rcases update_eq_some hd with ⟨-, rfl⟩ | ⟨-, hd⟩
    · exact fun _ => hc
    · exact h.channel_counterparty j d hd
  · rcases update_eq_some hd with ⟨rfl, -⟩ | ⟨-, hd⟩
    · exact h.channel_owner j old hold
    · exact h.channel_owner j d hd
  · rcases update_eq_some hd with ⟨rfl, rfl⟩ | ⟨-, hd⟩
    · rw [hconn]
      exact h.channel_connection j old hold
    · exact h.channel_connection j d hd

theorem ConnectionId.checkedAdd_get {i n : ConnectionId} {k : Nat} (h : i.checkedAdd k = some n) :
    n.raw.get = i.raw.get + k := by
  unfold ConnectionId.checkedAdd at h
  obtain ⟨m, hm, rfl⟩ := Option.map_eq_some_iff.mp h
  exact NonZeroU32.checkedAdd_get hm

theorem ChannelId.checkedAdd_get {n : ChannelId} {k : Nat} (h : i.checkedAdd k = some n) :
    n.raw.get = i.raw.get + k := by
  unfold ChannelId.checkedAdd at h
  obtain ⟨m, hm, rfl⟩ := Option.map_eq_some_iff.mp h
  exact NonZeroU32.checkedAdd_get hm

theorem ownedBy_addChannel (s : State) (n : ChannelId) (owner a : Addr) (c : Channel) :
    (s.addChannel H n owner c).ownedBy a =
      if a = owner then insert s.nextChannelId (s.ownedBy owner) else s.ownedBy a := by
  show (update s.contractChannels owner _ a).getD ∅ = _
  by_cases ha : a = owner
  · subst ha
    rw [update_self, if_pos rfl]
    rfl
  · rw [update_of_ne ha, if_neg ha]
    rfl

theorem WellFormed.addChannel (h : WellFormed s) {n : ChannelId} (hn : s.nextChannelId.checkedAdd 1 = some n)
    {owner : Addr} (hconn : (s.connections c.connectionId).isSome)
    (hc : c.state ≠ .init → c.counterpartyChannelId.isSome) : WellFormed (s.addChannel H n owner c) := by
  have hlt : s.nextChannelId.raw.get < n.raw.get := by rw [ChannelId.checkedAdd_get hn]; omega
  -- the new channel is in its owner's set; the old ones stay where they were
  have howned : ∀ a, s.ownedBy a ⊆ (s.addChannel H n owner c).ownedBy a := by
    intro a
    rw [ownedBy_addChannel]
    split
    · rename_i ha
      rw [ha]
      exact Finset.subset_insert _ _
    · exact Finset.Subset.refl _
  refine ⟨⟨h.clients.types, h.clients.impls, h.clients.states, h.clients.consensus⟩, h.connection_lt,
    fun j hj => ?_, fun j hj => ?_, fun a j hj => ?_, h.connection_counterparty, fun j d hd => ?_,
    fun j d hd => ?_, fun j d hd => ?_, h.queryStore⟩
  · rcases isSome_update hj with rfl | hj
    · exact hlt
    · exact (h.channel_lt j hj).trans hlt
  · rcases isSome_update hj with rfl | hj
    · exact hlt
    · exact (h.owner_lt j hj).trans hlt
  · show j.raw.get < n.raw.get
    rw [ownedBy_addChannel] at hj
    split at hj
    · rcases Finset.mem_insert.mp hj with rfl | hj
      · exact hlt
      · exact (h.owned_lt owner j hj).trans hlt
    · exact (h.owned_lt a j hj).trans hlt
  · rcases update_eq_some hd with ⟨-, rfl⟩ | ⟨-, hd⟩
    · exact hc
    · exact h.channel_counterparty j d hd
  · rcases update_eq_some hd with ⟨rfl, -⟩ | ⟨hne, hd⟩
    · refine ⟨owner, update_self .., ?_⟩
      rw [ownedBy_addChannel, if_pos rfl]
      exact Finset.mem_insert_self _ _
    · obtain ⟨a, ha, hmem⟩ := h.channel_owner j d hd
      exact ⟨a, (update_of_ne hne ..).trans ha, howned a hmem⟩
  · rcases update_eq_some hd with ⟨-, rfl⟩ | ⟨-, hd⟩
    · exact hconn
    · exact h.channel_connection j d hd

variable {ps : List Packet} {port impl a : Addr} {intent verify : Bool} {msgs : List Dispatch}

variable {relayer : Addr}

theorem WellFormed.loop_receive {d : ChannelId} (h : WellFormed s)
    (hL : Loop (ReceiveStep H env info ps d port relayer intent) s msgs s') : WellFormed s' := by
  refine hL.state_invariant (fun t o t' ht hR => ?_) h
  cases hR with
  | already => exact ht
  | fresh => exact ht.storeCommit _ _

theorem WellFormed.loop_acknowledge (h : WellFormed s)
    (hL : Loop (AcknowledgeStep H info port relayer) s msgs s') : WellFormed s' := by
  refine hL.state_invariant (fun t o t' ht hR => ?_) h
  cases hR
  exact ht.storeCommit _ _

theorem effect_wellFormed {m : ExecuteMsg} (he : Effect H env info s m s' msgs) (h : WellFormed s) :
    WellFormed s' := by
  cases he with
  | delayed => exact h
  | client hf => exact h.of_clientFrame hf.frame
  | membershipProof | nonMembershipProof | send | batchSend | batchAcks | writeAcknowledgement | timeout =>
    exact h.storeCommit _ _
  | connectionOpenInit hn =>
    have := ConnectionId.checkedAdd_get hn
    exact h.saveConnection (by omega) (by omega) (by simp)
  | connectionOpenTry hn _ =>
    have := ConnectionId.checkedAdd_get hn
    exact h.saveConnection (by omega) (by omega) (by simp)
  | connectionOpenAck hc _ _ =>
    exact h.saveConnection (h.connection_lt _ (by simp [hc])) le_rfl (by simp)
  | connectionOpenConfirm hc _ hd _ =>
    exact h.saveConnection (h.connection_lt _ (by simp [hc])) le_rfl (by simp [hd])
  | channelOpenInit hc _ hn => exact h.addChannel hn (by simp [hc]) (by simp)
  | channelOpenTry _ hc _ _ ht hn _ => exact h.addChannel hn (by simp [hc]) (by simp [ht])
  | channelOpenAck hch => exact h.saveChannel hch rfl (by simp)
  | channelOpenConfirm hch _ _ _ _ _ ht => exact h.saveChannel hch rfl (by simp [ht])
  | channelCloseInit hch _ _ ht => exact h.saveChannel hch rfl (by simp [ht])
  | channelCloseConfirm hch _ _ ht => exact h.saveChannel hch rfl (by simp [ht])
  | receive _ _ _ _ _ hL => exact h.loop_receive hL
  | acknowledge hL => exact h.loop_acknowledge hL

theorem step_wellFormed (s : State) (i : Input) (h : WellFormed s) : WellFormed (step H s i).1 := by
  rcases step_cases H s i with he | he
  · rw [he]
    exact h
  · exact effect_wellFormed he h

theorem run_wellFormed (is : List Input) : WellFormed (run H .init is) :=
  Machine.state_invariant step_wellFormed init_wellFormed is

/-! ## The panic sites -/

def Failure.IsPanic : Failure → Prop
  | .err _ => False
  | .panic _ => True

/-- The computation does not panic. -/
abbrev NoPanic {α : Type} (x : Result α) : Prop := Avoids Failure.IsPanic x

variable {e : ContractError}

theorem NoPanic.require {p : Prop} [Decidable p] : NoPanic (Core.require p e) := Avoids.ensure fun _ => id

variable {α : Type}

variable {o : Option α}

theorem NoPanic.okOr : NoPanic (Core.okOr o e) := Avoids.orErr fun _ => id

theorem NoPanic.expect {site : String} (h : o.isSome) : NoPanic (Core.expect o site) :=
  Avoids.orErr fun e => absurd h (by simp [e])

theorem NoPanic.read {store : String} : NoPanic (Core.read store o) := NoPanic.okOr

theorem NoPanic.queryLightClient {q : LightClientQuery} :
    NoPanic (Core.queryLightClient impl q o) := NoPanic.okOr

theorem NoPanic.addrValidate {a : String} : NoPanic (Core.addrValidate env a) := by
  unfold Core.addrValidate
  split
  · exact .ok _
  · exact .error id

theorem NoPanic.ensureConnectionState {i : ConnectionId} : NoPanic (Core.ensureConnectionState s i) :=
  NoPanic.read.bind fun _ _ => NoPanic.require.bind fun _ _ => .pure _

theorem NoPanic.ensureChannelState : NoPanic (Core.ensureChannelState s i) :=
  NoPanic.read.bind fun _ _ => NoPanic.require.bind fun _ _ => .pure _

theorem NoPanic.verifyMembership {q : VerifyMembershipQuery} :
    NoPanic (Core.verifyMembership env impl q) := NoPanic.require

theorem NoPanic.nextClientId : NoPanic (Core.nextClientId s) := NoPanic.okOr.bind fun _ _ => .pure _

theorem NoPanic.nextConnectionId : NoPanic (Core.nextConnectionId s) := NoPanic.okOr.bind fun _ _ => .pure _

theorem NoPanic.nextChannelId : NoPanic (Core.nextChannelId s) := NoPanic.okOr.bind fun _ _ => .pure _

theorem NoPanic.createChannel (h : WellFormed s) {owner : Addr} {state : ChannelState}
    {i : ConnectionId} {cc : Option ChannelId} {port : Bytes} {version : String} :
    NoPanic (Core.createChannel H s owner state i cc port version) := by
  refine NoPanic.nextChannelId.bind fun p hp => ?_
  obtain ⟨j, t⟩ := p
  obtain ⟨rfl, n, hn, rfl⟩ := nextChannelId_eq_ok.mp hp
  refine Avoids.bind ?_ fun _ _ => .pure _
  unfold insertOwned
  split
  · rename_i set hset
    refine Avoids.bind (.ensure fun hmem => ?_) fun _ _ => .pure _
    have howned : s.nextChannelId ∈ s.ownedBy owner := by
      simpa [State.ownedBy, show s.contractChannels owner = some set from hset] using hmem
    exact absurd (h.owned_lt owner _ howned) (Nat.lt_irrefl _)
  · exact .pure _

variable {cs cons proof : Bytes}

theorem NoPanic.initClient {i : ClientId} : NoPanic (Core.initClient H env s info cs cons relayer impl i) :=
  NoPanic.queryLightClient.bind fun _ _ => NoPanic.queryLightClient.bind fun _ _ => .pure _

variable {p : Packet}

theorem NoPanic.markPacketAsAcknowledged : NoPanic (Core.markPacketAsAcknowledged H s p) :=
  NoPanic.okOr.bind fun _ _ => NoPanic.require.bind fun _ _ => NoPanic.require.bind fun _ _ => .pure _

/-! ### Handlers without a panic site -/

theorem registerClient_noPanic {ty a : String} : NoPanic (registerClient env s ty a) :=
  NoPanic.addrValidate.bind fun _ _ => NoPanic.require.bind fun _ _ => .pure _

variable {relayer : String}

theorem createClient_noPanic {ty : String} : NoPanic (createClient H env s info ty cs cons relayer) :=
  NoPanic.addrValidate.bind fun _ _ => NoPanic.read.bind fun _ _ =>
    NoPanic.nextClientId.bind fun _ _ => NoPanic.initClient.bind fun _ _ => .pure _

theorem forceUpdateClient_noPanic {i : ClientId} : NoPanic (forceUpdateClient H env s info i cs cons) :=
  NoPanic.read.bind fun _ _ => NoPanic.initClient.bind fun _ _ => .pure _

theorem updateClient_noPanic {i : ClientId} {msg : Bytes} :
    NoPanic (updateClient H env s info i msg relayer) :=
  NoPanic.addrValidate.bind fun _ _ => NoPanic.read.bind fun _ _ =>
    NoPanic.queryLightClient.bind fun _ _ => NoPanic.require.bind fun _ _ =>
      NoPanic.queryLightClient.bind fun _ _ => .pure _

theorem misbehaviour_noPanic {i : ClientId} {msg : Bytes} :
    NoPanic (misbehaviour H env s info i msg relayer) :=
  NoPanic.addrValidate.bind fun _ _ => NoPanic.read.bind fun _ _ =>
    NoPanic.queryLightClient.bind fun _ _ => NoPanic.require.bind fun _ _ =>
      NoPanic.queryLightClient.bind fun _ _ => .pure _

variable {n : Height}

theorem migrateState_noPanic {i : ClientId} : NoPanic (migrateState H s a i cs cons n) :=
  NoPanic.read.bind fun _ _ => NoPanic.require.bind fun _ _ => NoPanic.require.bind fun _ _ =>
    NoPanic.require.bind fun _ _ => .pure _

theorem connectionOpenInit_noPanic {i j : ClientId} : NoPanic (connectionOpenInit H s i j) :=
  NoPanic.nextConnectionId.bind fun _ _ => .pure _

theorem connectionOpenTry_noPanic {i j : ClientId} {d : ConnectionId} :
    NoPanic (connectionOpenTry H env s j d i proof n verify) :=
  NoPanic.nextConnectionId.bind fun _ _ =>
    (Avoids.onlyIf (NoPanic.read.bind fun _ _ => NoPanic.verifyMembership)).bind fun _ _ => .pure _

theorem connectionOpenAck_noPanic {i d : ConnectionId} :
    NoPanic (connectionOpenAck H env s i d proof n verify) :=
  NoPanic.read.bind fun _ _ => NoPanic.require.bind fun _ _ =>
    (Avoids.onlyIf (NoPanic.read.bind fun _ _ => NoPanic.verifyMembership)).bind fun _ _ => .pure _

theorem batchSend_noPanic : NoPanic (batchSend H s ps) := by
  unfold batchSend
  split
  · refine Avoids.bind (.foldlM (fun _ _ => ?_) _ _) fun _ _ => .pure _
    exact NoPanic.require.bind fun _ _ => NoPanic.okOr.bind fun _ _ =>
      NoPanic.require.bind fun _ _ => .pure _
  · exact .error id

theorem batchAcks_noPanic {acks : List Bytes} : NoPanic (batchAcks H s ps acks) := by
  unfold batchAcks
  split
  · refine Avoids.bind (.foldlM (fun _ _ => NoPanic.require.bind fun _ _ => ?_) _ _) fun _ _ => .pure _
    split
    · exact NoPanic.require.bind fun _ _ => NoPanic.require.bind fun _ _ => .pure _
    · exact .error id
  · exact .error id

theorem writeAcknowledgement_noPanic {ack : Bytes} : NoPanic (writeAcknowledgement H s a p ack) :=
  NoPanic.require.bind fun _ _ => NoPanic.read.bind fun _ _ => NoPanic.require.bind fun _ _ =>
    NoPanic.okOr.bind fun _ _ => NoPanic.require.bind fun _ _ => .pure _

theorem receiveOne_noPanic {d : ChannelId} {relayer : Addr} {acc : State × Response}
    {pm : Packet × Bytes} : NoPanic (receiveOne H env info d port relayer intent acc pm) := by
  refine NoPanic.require.bind fun _ _ => NoPanic.require.bind fun _ _ => ?_
  split
  · exact .pure _
  · exact .pure _

theorem processReceive_noPanic {msgs : List Bytes} :
    NoPanic (processReceive H env s info ps msgs relayer proof n intent) :=
  NoPanic.addrValidate.bind fun _ _ => NoPanic.okOr.bind fun _ _ =>
    NoPanic.ensureChannelState.bind fun _ _ => NoPanic.ensureConnectionState.bind fun _ _ =>
      (Avoids.onlyIf (NoPanic.read.bind fun _ _ => NoPanic.verifyMembership)).bind fun _ _ =>
        NoPanic.read.bind fun _ _ => .foldlM (fun _ _ => receiveOne_noPanic) _ _

theorem acknowledgePacket_noPanic {acks : List Bytes} :
    NoPanic (acknowledgePacket H env s info ps acks proof n relayer) :=
  NoPanic.addrValidate.bind fun _ _ => NoPanic.okOr.bind fun _ _ =>
    NoPanic.ensureChannelState.bind fun _ _ => NoPanic.ensureConnectionState.bind fun _ _ =>
      NoPanic.read.bind fun _ _ => NoPanic.verifyMembership.bind fun _ _ =>
        NoPanic.read.bind fun _ _ => .foldlM (fun _ _ => NoPanic.require.bind fun _ _ =>
          NoPanic.markPacketAsAcknowledged.bind fun _ _ => .pure _) _ _

theorem timeoutPacket_noPanic : NoPanic (timeoutPacket H env s info p proof n relayer) :=
  NoPanic.addrValidate.bind fun _ _ => NoPanic.ensureChannelState.bind fun _ _ =>
    NoPanic.ensureConnectionState.bind fun _ _ =>
      (NoPanic.read.bind fun _ _ => NoPanic.queryLightClient).bind fun _ _ =>
        NoPanic.require.bind fun _ _ => NoPanic.read.bind fun _ _ =>
          NoPanic.require.bind fun _ _ => NoPanic.markPacketAsAcknowledged.bind fun _ _ =>
            NoPanic.require.bind fun _ _ => NoPanic.require.bind fun _ _ =>
              NoPanic.read.bind fun _ _ => .pure _

theorem commitMembershipProof_noPanic {i : ClientId} {path value : Bytes} :
    NoPanic (commitMembershipProof H env s i n proof path value) :=
  NoPanic.read.bind fun _ _ => NoPanic.verifyMembership.bind fun _ _ => .pure _

theorem commitNonMembershipProof_noPanic {i : ClientId} {path : Bytes} :
    NoPanic (commitNonMembershipProof H env s i n proof path) :=
  NoPanic.read.bind fun _ _ => NoPanic.require.bind fun _ _ => .pure _

/-! ### Handlers with a panic site -/

section

variable (h : WellFormed s)

include h

theorem WellFormed.open_counterparty {i : ConnectionId} {c : Connection}
    (hc : ensureConnectionState s i = .ok c) : c.counterpartyConnectionId.isSome := by
  obtain ⟨hi, hs⟩ := ensureConnectionState_eq_ok.mp hc
  exact h.connection_counterparty i c hi (by simp [hs])

theorem WellFormed.past_init {store : String} {state : ChannelState} {u : Unit}
    (hc : read store (s.channels i) = .ok c) (hs : require (c.state = state) e = .ok u)
    (hne : state ≠ .init) : c.counterpartyChannelId.isSome :=
  h.channel_counterparty i c (read_eq_ok.mp hc) (by rw [require_eq_ok.mp hs]; exact hne)

theorem connectionOpenConfirm_noPanic {i : ConnectionId} :
    NoPanic (connectionOpenConfirm H env s i proof n verify) :=
  NoPanic.read.bind fun c hc => NoPanic.require.bind fun _ hs =>
    (NoPanic.expect (h.connection_counterparty i c (read_eq_ok.mp hc)
      (by rw [require_eq_ok.mp hs]; decide))).bind fun _ _ =>
    (Avoids.onlyIf (NoPanic.read.bind fun _ _ => NoPanic.verifyMembership)).bind fun _ _ => .pure _

theorem channelOpenInit_noPanic {port version : String} {cport : Bytes} {i : ConnectionId} :
    NoPanic (channelOpenInit H env s info port cport i version relayer) :=
  NoPanic.addrValidate.bind fun _ _ => NoPanic.addrValidate.bind fun _ _ =>
    NoPanic.ensureConnectionState.bind fun _ _ => (NoPanic.createChannel h).bind fun _ _ => .pure _

theorem channelOpenTry_noPanic {port cversion : String} {ch : Channel} :
    NoPanic (channelOpenTry H env s info port ch cversion proof n relayer verify) :=
  NoPanic.addrValidate.bind fun _ _ => NoPanic.require.bind fun _ _ =>
    NoPanic.ensureConnectionState.bind fun _ hc =>
      (NoPanic.expect (h.open_counterparty hc)).bind fun _ _ => NoPanic.read.bind fun _ _ =>
        NoPanic.okOr.bind fun _ _ => (Avoids.onlyIf NoPanic.verifyMembership).bind fun _ _ =>
          NoPanic.addrValidate.bind fun _ _ => (NoPanic.createChannel h).bind fun _ _ => .pure _

theorem channelOpenAck_noPanic {cversion : String} {t : ChannelId} :
    NoPanic (channelOpenAck H env s info i cversion t proof n relayer verify) :=
  NoPanic.addrValidate.bind fun _ _ => NoPanic.read.bind fun _ _ => NoPanic.require.bind fun _ _ =>
    NoPanic.ensureConnectionState.bind fun _ hc => NoPanic.read.bind fun _ _ =>
      (NoPanic.expect (h.open_counterparty hc)).bind fun _ _ => NoPanic.read.bind fun _ _ =>
        (Avoids.onlyIf NoPanic.verifyMembership).bind fun _ _ => .pure _

theorem channelOpenConfirm_noPanic :
    NoPanic (channelOpenConfirm H env s info i proof n relayer verify) :=
  NoPanic.addrValidate.bind fun _ _ => NoPanic.read.bind fun _ hch => NoPanic.require.bind fun _ hs =>
    NoPanic.ensureConnectionState.bind fun _ hc => NoPanic.read.bind fun _ _ =>
      (NoPanic.expect (h.open_counterparty hc)).bind fun _ _ => NoPanic.read.bind fun _ _ =>
        (NoPanic.expect (h.past_init hch hs (by decide))).bind fun _ _ =>
          (Avoids.onlyIf NoPanic.verifyMembership).bind fun _ _ => .pure _

theorem channelCloseInit_noPanic : NoPanic (channelCloseInit H env s info i relayer) :=
  NoPanic.addrValidate.bind fun _ _ => NoPanic.read.bind fun _ hch => NoPanic.require.bind fun _ hs =>
    NoPanic.ensureConnectionState.bind fun _ _ => NoPanic.read.bind fun _ _ =>
      (NoPanic.expect (h.past_init hch hs (by decide))).bind fun _ _ => .pure _

theorem channelCloseConfirm_noPanic : NoPanic (channelCloseConfirm H env s info i proof n relayer) :=
  NoPanic.addrValidate.bind fun _ _ => NoPanic.read.bind fun _ hch => NoPanic.require.bind fun _ hs =>
    NoPanic.ensureConnectionState.bind fun _ hc => NoPanic.read.bind fun _ _ =>
      (NoPanic.expect (h.open_counterparty hc)).bind fun _ _ => NoPanic.read.bind fun _ _ =>
        (NoPanic.expect (h.past_init hch hs (by decide))).bind fun _ _ =>
          NoPanic.verifyMembership.bind fun _ _ => .pure _

end

theorem sendPacket_noPanic (hjson : H.SerializesPackets) (h : WellFormed s) {t : Timestamp}
    {data : Bytes} : NoPanic (sendPacket H s a i t data) :=
  NoPanic.require.bind fun _ _ => NoPanic.read.bind fun _ _ => NoPanic.require.bind fun _ _ =>
    NoPanic.ensureChannelState.bind fun c hc =>
      (NoPanic.expect (h.channel_counterparty i c (ensureChannelState_eq_ok.mp hc).1
        (by rw [(ensureChannelState_eq_ok.mp hc).2]; decide))).bind fun _ _ =>
      (NoPanic.expect (hjson _)).bind fun _ _ => NoPanic.require.bind fun _ _ => .pure _

theorem executeRestricted_noPanic (h : WellFormed s) (m : RestrictedExecuteMsg) :
    NoPanic (executeRestricted H env s info m) := by
  cases m with
  | registerClient => exact registerClient_noPanic
  | createClient => exact createClient_noPanic
  | updateClient => exact updateClient_noPanic
  | forceUpdateClient => exact forceUpdateClient_noPanic
  | misbehaviour => exact misbehaviour_noPanic
  | connectionOpenInit => exact connectionOpenInit_noPanic
  | connectionOpenTry | forceConnectionOpenTry => exact connectionOpenTry_noPanic
  | connectionOpenAck | forceConnectionOpenAck => exact connectionOpenAck_noPanic
  | connectionOpenConfirm | forceConnectionOpenConfirm => exact connectionOpenConfirm_noPanic h
  | channelOpenInit => exact channelOpenInit_noPanic h
  | channelOpenTry | forceChannelOpenTry => exact channelOpenTry_noPanic h
  | channelOpenAck | forceChannelOpenAck => exact channelOpenAck_noPanic h
  | channelOpenConfirm | forceChannelOpenConfirm => exact channelOpenConfirm_noPanic h
  | channelCloseInit => exact channelCloseInit_noPanic h
  | channelCloseConfirm => exact channelCloseConfirm_noPanic h
  | packetRecv | intentPacketRecv => exact processReceive_noPanic
  | packetAck => exact acknowledgePacket_noPanic
  | packetTimeout => exact timeoutPacket_noPanic
  | batchSend => exact batchSend_noPanic
  | batchAcks => exact batchAcks_noPanic
  | commitMembershipProof => exact commitMembershipProof_noPanic
  | commitNonMembershipProof => exact commitNonMembershipProof_noPanic

theorem execute_noPanic (hjson : H.SerializesPackets) (h : WellFormed s) (m : ExecuteMsg) :
    NoPanic (execute H env s info m) := by
  cases m with
  | packetSend => exact sendPacket_noPanic hjson h
  | writeAcknowledgement => exact writeAcknowledgement_noPanic
  | migrateState => exact migrateState_noPanic
  | restricted m =>
    simp only [execute]
    split
    · exact .error id
    · exact .error id
    · exact .ok _
    · exact executeRestricted_noPanic h m

/-! ## The query -/

/-- The only value ever committed at a non-membership path. -/
def NonMembershipCommitted (H : Hashing) (s : State) : Prop :=
  ∀ i n path v, committed H s (.nonMembershipProof i n path) = some v →
    v = NON_MEMBERSHIP_COMMITMENT_VALUE

theorem NonMembershipCommitted.of_committed (h : NonMembershipCommitted H s)
    (he : ∀ i n path, committed H s' (.nonMembershipProof i n path) =
      committed H s (.nonMembershipProof i n path)) : NonMembershipCommitted H s' := by
  intro i n path v hv
  rw [he] at hv
  exact h i n path v hv

theorem NonMembershipCommitted.storeCommit (hH : H.CollisionFree) (h : NonMembershipCommitted H s)
    {p : StorePath} {v : H256}
    (hp : ∀ i n path, p = .nonMembershipProof i n path → v = NON_MEMBERSHIP_COMMITMENT_VALUE) :
    NonMembershipCommitted H (storeCommit s (p.key H) v) := by
  intro i n path w hw
  rw [committed_storeCommit hH] at hw
  split at hw
  · rename_i hq
    cases hw
    exact hp i n path hq.symm
  · exact h i n path w hw

theorem effect_nonMembershipCommitted (hH : H.CollisionFree) {m : ExecuteMsg}
    (he : Effect H env info s m s' msgs)
    (h : NonMembershipCommitted H s) : NonMembershipCommitted H s' := by
  cases he with
  | delayed => exact h
  | client hf => exact h.of_committed fun i n path => hf.frame.committed hH (by simp) (by simp)
  | membershipProof | send | batchSend | batchAcks | writeAcknowledgement | timeout =>
      exact h.storeCommit hH (by simp)
  | nonMembershipProof => exact h.storeCommit hH fun _ _ _ _ => rfl
  | connectionOpenInit | connectionOpenTry =>
    exact h.of_committed fun i n path => by simp [committed_addConnection hH]
  | connectionOpenAck | connectionOpenConfirm =>
    exact h.of_committed fun i n path => by simp [committed_saveConnection hH]
  | channelOpenInit | channelOpenTry => exact h.of_committed fun i n path => by simp [committed_addChannel hH]
  | channelOpenAck | channelOpenConfirm | channelCloseInit | channelCloseConfirm =>
    exact h.of_committed fun i n path => by simp [committed_saveChannel hH]
  | receive _ _ _ _ _ hL =>
    refine hL.state_invariant (fun t o t' ht hR => ?_) h
    cases hR with
    | already => exact ht
    | fresh => exact ht.storeCommit hH (by simp)
  | acknowledge hL =>
    refine hL.state_invariant (fun t o t' ht hR => ?_) h
    cases hR
    exact ht.storeCommit hH (by simp)

theorem run_nonMembershipCommitted (hH : H.CollisionFree) (is : List Input) :
    NonMembershipCommitted H (run H .init is) := by
  refine Machine.state_invariant (fun s i h => ?_)
    (by simp [NonMembershipCommitted, committed, State.init]) is
  rcases step_cases H s i with he | he
  · rw [he]
    exact h
  · exact effect_nonMembershipCommitted hH he h

theorem getCommittedNonMembershipProof_noPanic (h : NonMembershipCommitted H s) (i : ClientId)
    (n : Height) (path : Bytes) : NoPanic (getCommittedNonMembershipProof H s i n path) := by
  unfold getCommittedNonMembershipProof
  split
  · exact .ok _
  · rename_i v hv
    rw [if_pos (h i n path v hv)]
    exact .ok _

/-- **No panic site is reachable.**  After any list of messages, with any answers of the light
    clients, the storage is well formed, and neither a further message nor the non-membership query
    can panic. -/
theorem reachable_never_panics (H : Hashing) (hH : H.CollisionFree) (hjson : H.SerializesPackets)
    (is : List Input) : WellFormed (run H .init is) ∧
      (∀ env info m site, execute H env (run H .init is) info m ≠ .error (.panic site)) ∧
      ∀ i n path site, getCommittedNonMembershipProof H (run H .init is) i n path ≠ .error (.panic site) :=
  ⟨run_wellFormed is, fun _ _ m _ h => execute_noPanic hjson (run_wellFormed is) m _ h trivial,
        fun i n path _ h =>
      getCommittedNonMembershipProof_noPanic (run_nonMembershipCommitted hH is) i n path _ h trivial⟩

/-- A run that opens one connection. -/
def openInitInputs : List Input :=
  [⟨.permissive .failing, ⟨"relayer", []⟩, .restricted (.connectionOpenInit ⟨.one⟩ ⟨.one⟩)⟩]

/-- The theorem on a storage with one connection. -/
theorem never_panics_with_connection : ((run .ideal .init openInitInputs).connections ⟨.one⟩).isSome ∧
      WellFormed (run .ideal .init openInitInputs) ∧
      ∀ env info m site, execute .ideal env (run .ideal .init openInitInputs) info m ≠
        .error (.panic site) :=
  ⟨by decide, (reachable_never_panics .ideal Hashing.ideal_collisionFree (fun _ => rfl) openInitInputs).1,
    (reachable_never_panics .ideal Hashing.ideal_collisionFree (fun _ => rfl) openInitInputs).2.1⟩

end UnionVoyager.Core
