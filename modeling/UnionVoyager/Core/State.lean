import UnionVoyager.Core.Path
import Mathlib.Data.Finset.Insert

/-!
# Storage of the IBC core contract

The stores of `cosmwasm/core/src/state.rs` as maps, `init`, and the helpers every handler is built
from.  The stores have pairwise different key prefixes, so one map each is faithful.  The stores of
the access-managed mixin are left out: no handler modelled here reads them.
-/

namespace UnionVoyager.Core

open Lib Function

structure State where
  nextClientId : ClientId
  nextConnectionId : ConnectionId
  nextChannelId : ChannelId
  queryStore : Option Bytes
  channelOwner : ChannelId → Option Addr
  channels : ChannelId → Option Channel
  contractChannels : Addr → Option (Finset ChannelId)
  connections : ConnectionId → Option Connection
  clientStates : ClientId → Option Bytes
  clientConsensusStates : ClientId × Height → Option Bytes
  clientRegistry : String → Option Addr
  clientTypes : ClientId → Option String
  clientImpls : ClientId → Option Addr
  clientStore : ClientId × Bytes → Option Bytes
  commitments : H256 → Option H256

/-- `init`: the next ids are `1`, everything else is empty. -/
def State.init : State where
  nextClientId := ⟨.one⟩
  nextConnectionId := ⟨.one⟩
  nextChannelId := ⟨.one⟩
  queryStore := none
  channelOwner _ := none
  channels _ := none
  contractChannels _ := none
  connections _ := none
  clientStates _ := none
  clientConsensusStates _ := none
  clientRegistry _ := none
  clientTypes _ := none
  clientImpls _ := none
  clientStore _ := none
  commitments _ := none

/-- `deps.storage.read::<S>(k)?`. -/
def read {α : Type} (store : String) (o : Option α) : Result α := okOr o (.std (.notFound store))

@[simp] theorem read_eq_ok {α : Type} {store : String} {o : Option α} {a : α} :
    read store o = .ok a ↔ o = some a := okOr_eq_ok

def nextChannelId (s : State) : Result (ChannelId × State) := do
  let v ← okOr (s.nextChannelId.checkedAdd 1) (.std .overflow)
  return (s.nextChannelId, { s with nextChannelId := v })

def nextConnectionId (s : State) : Result (ConnectionId × State) := do
  let v ← okOr (s.nextConnectionId.checkedAdd 1) (.std .overflow)
  return (s.nextConnectionId, { s with nextConnectionId := v })

def nextClientId (s : State) : Result (ClientId × State) := do
  let v ← okOr (s.nextClientId.checkedAdd 1) (.std .overflow)
  return (s.nextClientId, { s with nextClientId := v })

def clientImpl (s : State) (i : ClientId) : Result Addr := read "client_impls" (s.clientImpls i)

def storeCommit (s : State) (key value : H256) : State :=
  { s with commitments := update s.commitments key (some value) }

/-- `read_commit`.  The values of the store are words by its type, as `store_commit` is its only
    writer, so the decoding `expect` of the source has no failing case here. -/
def readCommit (s : State) (key : H256) : Option H256 := s.commitments key

def saveConnection (H : Hashing) (s : State) (i : ConnectionId) (c : Connection) : State :=
  storeCommit { s with connections := update s.connections i (some c) }
    ((StorePath.connection i).key H) (commitConnection H c)

def saveChannel (H : Hashing) (s : State) (i : ChannelId) (c : Channel) : State :=
  storeCommit { s with channels := update s.channels i (some c) }
    ((StorePath.channel i).key H) (commitChannel H c)

/-- The closure of the update of `ContractChannels`. -/
def insertOwned (owned : Option (Finset ChannelId)) (channelId : ChannelId) : Result (Finset ChannelId) :=
  match owned with
  | some set => do
    ensure (channelId ∉ set) (.panic "impossible, channel has been just created")
    return insert channelId set
  | none => return {channelId}

def createChannel (H : Hashing) (s : State) (owner : Addr) (state : ChannelState)
    (connectionId : ConnectionId) (counterpartyChannelId : Option ChannelId)
    (counterpartyPortId : Bytes) (version : String) : Result (ChannelId × Channel × State) := do
  let (channelId, s) ← nextChannelId s
  let channel : Channel := ⟨state, connectionId, counterpartyChannelId, counterpartyPortId, version⟩
  let s := { s with channelOwner := update s.channelOwner channelId (some owner) }
  let owned ← insertOwned (s.contractChannels owner) channelId
  let s := { s with contractChannels := update s.contractChannels owner (some owned) }
  return (channelId, channel, saveChannel H s channelId channel)

def ensureConnectionState (s : State) (i : ConnectionId) : Result Connection := do
  let connection ← read "connections" (s.connections i)
  require (connection.state = .open) (.connectionInvalidState connection.state .open)
  return connection

def ensureChannelState (s : State) (i : ChannelId) : Result Channel := do
  let channel ← read "channels" (s.channels i)
  require (channel.state = .open) (.channelInvalidState channel.state .open)
  return channel

/-- `set_packet_receive`: whether the packet had been received already, and the store after. -/
def setPacketReceive (s : State) (key : H256) : Bool × State :=
  if (readCommit s key).isSome then (true, s) else (false, storeCommit s key COMMITMENT_MAGIC)

/-! ## Queries to the light clients -/

/-- `query_light_client`: the answer, or the error that names the client and the query. -/
def queryLightClient {α : Type} (impl : Addr) (q : LightClientQuery) (answer : Option α) : Result α :=
  okOr answer (.cannotQueryLightClient impl q)

variable {impl : Addr}

@[simp] theorem queryLightClient_eq_ok {α : Type} {q : LightClientQuery} {o : Option α} {a : α} :
    queryLightClient impl q o = .ok a ↔ o = some a := okOr_eq_ok

def verifyMembership (env : Env) (impl : Addr) (q : VerifyMembershipQuery) : Result Unit :=
  require (env.querier.verifyMembership impl q = true)
    (.cannotQueryLightClient impl (.verifyMembership q))

def verifyNonMembership (env : Env) (impl : Addr) (q : VerifyNonMembershipQuery) : Result Unit :=
  require (env.querier.verifyNonMembership impl q = true)
    (.cannotQueryLightClient impl (.verifyNonMembership q))

@[simp] theorem verifyMembership_eq_ok {env : Env} {q : VerifyMembershipQuery} {u : Unit} :
    verifyMembership env impl q = .ok u ↔ env.querier.verifyMembership impl q = true :=
  require_eq_ok

@[simp] theorem verifyNonMembership_eq_ok {env : Env} {q : VerifyNonMembershipQuery} {u : Unit} :
    verifyNonMembership env impl q = .ok u ↔ env.querier.verifyNonMembership impl q = true :=
  require_eq_ok

def getTimestampAtHeight (env : Env) (s : State) (i : ClientId) (h : Height) : Result Timestamp := do
  let impl ← clientImpl s i
  queryLightClient impl (.getTimestamp i h) (env.querier.getTimestamp impl i h)

/-! ## What the helpers do -/

variable {s s' : State}

@[simp] theorem clientImpl_eq_ok {i : ClientId} {a : Addr} :
    clientImpl s i = .ok a ↔ s.clientImpls i = some a := read_eq_ok

@[simp] theorem ensureConnectionState_eq_ok {i : ConnectionId} {c : Connection} :
    ensureConnectionState s i = .ok c ↔ s.connections i = some c ∧ c.state = .open := by
  simp only [ensureConnectionState, bind_eq_ok, read_eq_ok, require_eq_ok, pure_eq_ok]
  constructor
  · rintro ⟨a, ha, -, hs, rfl⟩
    exact ⟨ha, hs⟩
  · rintro ⟨hc, hs⟩
    exact ⟨c, hc, (), hs, rfl⟩

variable {i : ChannelId}

@[simp] theorem ensureChannelState_eq_ok {c : Channel} :
    ensureChannelState s i = .ok c ↔ s.channels i = some c ∧ c.state = .open := by
  simp only [ensureChannelState, bind_eq_ok, read_eq_ok, require_eq_ok, pure_eq_ok]
  constructor
  · rintro ⟨a, ha, -, hs, rfl⟩
    exact ⟨ha, hs⟩
  · rintro ⟨hc, hs⟩
    exact ⟨c, hc, (), hs, rfl⟩

theorem storeCommit_self (s : State) (k v : H256) : (storeCommit s k v).commitments k = some v :=
    update_self ..

theorem storeCommit_of_ne {k k' : H256} (h : k' ≠ k) (s : State) (v : H256) :
    (storeCommit s k v).commitments k' = s.commitments k' := update_of_ne h ..

theorem storeCommit_isSome {k k' : H256} {v : H256} (h : (s.commitments k').isSome) :
    ((storeCommit s k v).commitments k').isSome := by
  by_cases hk : k' = k
  · subst hk; simp [storeCommit_self]
  · rwa [storeCommit_of_ne hk]

theorem nextClientId_eq_ok {i : ClientId} : nextClientId s = .ok (i, s') ↔ i = s.nextClientId ∧
      ∃ n, s.nextClientId.checkedAdd 1 = some n ∧ s' = { s with nextClientId := n } := by
  simp only [nextClientId, bind_eq_ok, okOr_eq_ok, pure_eq_ok, Prod.mk.injEq]
  constructor
  · rintro ⟨n, hn, rfl, rfl⟩
    exact ⟨rfl, n, hn, rfl⟩
  · rintro ⟨rfl, n, hn, rfl⟩
    exact ⟨n, hn, rfl, rfl⟩

theorem nextConnectionId_eq_ok {i : ConnectionId} : nextConnectionId s = .ok (i, s') ↔
      i = s.nextConnectionId ∧
      ∃ n, s.nextConnectionId.checkedAdd 1 = some n ∧ s' = { s with nextConnectionId := n } := by
  simp only [nextConnectionId, bind_eq_ok, okOr_eq_ok, pure_eq_ok, Prod.mk.injEq]
  constructor
  · rintro ⟨n, hn, rfl, rfl⟩
    exact ⟨rfl, n, hn, rfl⟩
  · rintro ⟨rfl, n, hn, rfl⟩
    exact ⟨n, hn, rfl, rfl⟩

theorem nextChannelId_eq_ok : nextChannelId s = .ok (i, s') ↔ i = s.nextChannelId ∧
      ∃ n, s.nextChannelId.checkedAdd 1 = some n ∧ s' = { s with nextChannelId := n } := by
  simp only [nextChannelId, bind_eq_ok, okOr_eq_ok, pure_eq_ok, Prod.mk.injEq]
  constructor
  · rintro ⟨n, hn, rfl, rfl⟩
    exact ⟨rfl, n, hn, rfl⟩
  · rintro ⟨rfl, n, hn, rfl⟩
    exact ⟨n, hn, rfl, rfl⟩

/-- The state after the connection `c` was created under the next id. -/
def State.addConnection (H : Hashing) (s : State) (next : ConnectionId) (c : Connection) : State :=
  saveConnection H { s with nextConnectionId := next } s.nextConnectionId c

/-- The channels of a port, none if it has no entry. -/
def State.ownedBy (s : State) (owner : Addr) : Finset ChannelId := (s.contractChannels owner).getD ∅

/-- The state after the channel `c` of `owner` was created under the next id. -/
def State.addChannel (H : Hashing) (s : State) (next : ChannelId) (owner : Addr) (c : Channel) : State :=
  saveChannel H { s with
      nextChannelId := next
      channelOwner := update s.channelOwner s.nextChannelId (some owner)
      contractChannels := update s.contractChannels owner
        (some (insert s.nextChannelId (s.ownedBy owner))) }
    s.nextChannelId c

variable {H : Hashing}

theorem createChannel_ok {owner : Addr} {state : ChannelState} {connectionId : ConnectionId}
    {cc : Option ChannelId} {port : Bytes} {version : String} {c : Channel}
    (h : createChannel H s owner state connectionId cc port version = .ok (i, c, s')) :
    i = s.nextChannelId ∧ c = ⟨state, connectionId, cc, port, version⟩ ∧
      ∃ n, s.nextChannelId.checkedAdd 1 = some n ∧ s' = s.addChannel H n owner c := by
  unfold createChannel at h
  rw [bind_eq_ok] at h
  obtain ⟨⟨j, t⟩, hnext, h⟩ := h
  obtain ⟨rfl, n, hn, rfl⟩ := nextChannelId_eq_ok.mp hnext
  dsimp only at h
  rw [bind_eq_ok] at h
  obtain ⟨owned, howned, h⟩ := h
  simp only [pure_eq_ok, Prod.mk.injEq] at h
  obtain ⟨rfl, rfl, rfl⟩ := h
  have hset : owned = insert s.nextChannelId (s.ownedBy owner) := by
    unfold insertOwned at howned
    unfold State.ownedBy
    split at howned
    · rename_i set hset
      simp only [bind_eq_ok, ensure_eq_ok, pure_eq_ok] at howned
      obtain ⟨-, -, rfl⟩ := howned
      rw [hset]; rfl
    · rename_i hset
      rw [pure_eq_ok] at howned
      rw [hset, ← howned]; rfl
  exact ⟨rfl, rfl, n, hn, by rw [hset]; rfl⟩

/-! ## The provable store, path by path -/

/-- What the provable store holds at a path. -/
def committed (H : Hashing) (s : State) (p : StorePath) : Option H256 := s.commitments (p.key H)

section

variable (hH : H.CollisionFree)

include hH

theorem committed_storeCommit (s : State) (p q : StorePath) (v : H256) :
    committed H (storeCommit s (p.key H) v) q = if q = p then some v else committed H s q := by
  unfold committed
  split
  · rename_i h
    rw [h, storeCommit_self]
  · rename_i h
    exact storeCommit_of_ne (fun e => h (StorePath.key_injective hH e)) s v

theorem committed_saveConnection (s : State) (i : ConnectionId) (c : Connection) (q : StorePath) :
    committed H (saveConnection H s i c) q =
      if q = .connection i then some (commitConnection H c) else committed H s q :=
  committed_storeCommit hH { s with connections := update s.connections i (some c) } ..

theorem committed_saveChannel (s : State) (i : ChannelId) (c : Channel) (q : StorePath) :
    committed H (saveChannel H s i c) q =
      if q = .channel i then some (commitChannel H c) else committed H s q :=
  committed_storeCommit hH { s with channels := update s.channels i (some c) } ..

theorem committed_addConnection (s : State) (n : ConnectionId) (c : Connection) (q : StorePath) :
    committed H (s.addConnection H n c) q =
      if q = .connection s.nextConnectionId then some (commitConnection H c) else committed H s q :=
  committed_saveConnection hH ..

theorem committed_addChannel (s : State) (n : ChannelId) (owner : Addr) (c : Channel)
    (q : StorePath) : committed H (s.addChannel H n owner c) q =
      if q = .channel s.nextChannelId then some (commitChannel H c) else committed H s q :=
  committed_saveChannel hH ..

end

end UnionVoyager.Core
