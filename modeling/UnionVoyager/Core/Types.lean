import UnionVoyager.Lib.Bytes
import UnionVoyager.Lib.Result

/-!
# Data model of the IBC core contract

The types of `ibc-union-spec` (`types.rs`, `types/connection.rs`, `types/channel.rs`,
`types/packet.rs`), the error type of `cosmwasm/core/src/lib.rs`, and what a handler receives
(`Env`, `MessageInfo`, the querier) and returns (`Response`).

Identifiers are `NonZeroU32`, so the bound and the non-zero fact travel with the value.  A handler
ends in a value, in a `ContractError`, or in a panic (`expect`, `assert!`, `unreachable!`), which
is a failure of its own (`Failure.panic`).
-/

namespace UnionVoyager.Core

open Lib

structure NonZeroU32 where
  get : Nat
  pos : 0 < get
  lt : get < 2 ^ 32
  deriving DecidableEq

def NonZeroU32.one : NonZeroU32 := ⟨1, by decide, by decide⟩

def NonZeroU32.two : NonZeroU32 := ⟨2, by decide, by decide⟩

def NonZeroU32.checkedAdd (n : NonZeroU32) (rhs : Nat) : Option NonZeroU32 :=
  if h : n.get + rhs < 2 ^ 32 then some ⟨n.get + rhs, Nat.add_pos_left n.pos rhs, h⟩ else none

theorem NonZeroU32.ext {m n : NonZeroU32} (h : m.get = n.get) : m = n := by
  cases m; cases n; simp_all

theorem NonZeroU32.checkedAdd_get {n m : NonZeroU32} {rhs : Nat} (h : n.checkedAdd rhs = some m) :
    m.get = n.get + rhs := by
  unfold NonZeroU32.checkedAdd at h
  split at h
  · cases h; rfl
  · cases h

structure ClientId where
  raw : NonZeroU32
  deriving DecidableEq

structure ConnectionId where
  raw : NonZeroU32
  deriving DecidableEq

structure ChannelId where
  raw : NonZeroU32
  deriving DecidableEq

def ClientId.checkedAdd (i : ClientId) (rhs : Nat) : Option ClientId := (i.raw.checkedAdd rhs).map .mk

def ConnectionId.checkedAdd (i : ConnectionId) (rhs : Nat) : Option ConnectionId :=
    (i.raw.checkedAdd rhs).map .mk

def ChannelId.checkedAdd (i : ChannelId) (rhs : Nat) : Option ChannelId := (i.raw.checkedAdd rhs).map .mk

/-- Block heights are `u64`. -/
abbrev Height := UInt64

/-- Nanoseconds since the epoch; only compared, never computed with. -/
abbrev Timestamp := Nat

/-- A validated address; `addr_validate` returns the string it was given. -/
abbrev Addr := String

/-- A 32-byte word.  The length is not part of the type: it is what makes an injective hash
    function (`Hashing.CollisionFree`) possible at all. -/
abbrev H256 := Bytes

inductive ConnectionState where
  | init
  | tryOpen
  | open
  deriving DecidableEq

/-- The `repr(u8)` of a connection state. -/
def ConnectionState.toU8 : ConnectionState → Nat
  | .init => 1
  | .tryOpen => 2
  | .open => 3

structure Connection where
  state : ConnectionState
  clientId : ClientId
  counterpartyClientId : ClientId
  counterpartyConnectionId : Option ConnectionId

inductive ChannelState where
  | init
  | tryOpen
  | open
  | closed
  deriving DecidableEq

/-- The `repr(u8)` of a channel state. -/
def ChannelState.toU8 : ChannelState → Nat
  | .init => 1
  | .tryOpen => 2
  | .open => 3
  | .closed => 4

structure Channel where
  state : ChannelState
  connectionId : ConnectionId
  counterpartyChannelId : Option ChannelId
  counterpartyPortId : Bytes
  version : String

/-- `timeout_height` is the unit type `MustBeZero`. -/
inductive MustBeZero where
  | mustBeZero
  deriving DecidableEq

structure Packet where
  sourceChannelId : ChannelId
  destinationChannelId : ChannelId
  data : Bytes
  timeoutHeight : MustBeZero
  timeoutTimestamp : Timestamp
  deriving DecidableEq

inductive Status where
  | active
  | expired
  | frozen
  deriving DecidableEq

structure Coin where
  denom : String
  amount : Nat
  deriving DecidableEq

/-! ## Light client queries -/

structure VerifyCreationQuery where
  caller : String
  clientId : ClientId
  relayer : String

structure VerifyMembershipQuery where
  clientId : ClientId
  height : Height
  proof : Bytes
  path : Bytes
  value : Bytes

structure VerifyNonMembershipQuery where
  clientId : ClientId
  height : Height
  proof : Bytes
  path : Bytes

structure UpdateStateQuery where
  caller : String
  clientId : ClientId
  relayer : String

structure MisbehaviourQuery where
  caller : String
  clientId : ClientId
  relayer : String

/-- The queries the core sends to a light client contract. -/
inductive LightClientQuery where
  | getTimestamp (clientId : ClientId) (height : Height)
  | getLatestHeight (clientId : ClientId)
  | getStatus (clientId : ClientId)
  | verifyCreation (q : VerifyCreationQuery)
  | verifyMembership (q : VerifyMembershipQuery)
  | verifyNonMembership (q : VerifyNonMembershipQuery)
  | updateState (q : UpdateStateQuery)
  | misbehaviour (q : MisbehaviourQuery)

structure CreateLensClientEvent where
  l1ClientId : ClientId
  l2ClientId : ClientId
  l2ChainId : String

structure VerifyCreationResponse where
  counterpartyChainId : String
  clientStateBytes : Option Bytes
  storageWrites : List (Bytes × Bytes)
  events : List CreateLensClientEvent

structure UpdateStateResponse where
  height : Height
  clientStateBytes : Option Bytes
  consensusStateBytes : Bytes
  storageWrites : List (Bytes × Bytes)

structure MisbehaviourResponse where
  clientStateBytes : Bytes

/-- The answers of the light client contracts; `none` (`false`) is an error of the query. -/
structure Querier where
  getTimestamp : Addr → ClientId → Height → Option Timestamp
  getLatestHeight : Addr → ClientId → Option Height
  getStatus : Addr → ClientId → Option Status
  verifyCreation : Addr → VerifyCreationQuery → Option VerifyCreationResponse
  verifyMembership : Addr → VerifyMembershipQuery → Bool
  verifyNonMembership : Addr → VerifyNonMembershipQuery → Bool
  updateState : Addr → UpdateStateQuery → Option UpdateStateResponse
  misbehaviour : Addr → MisbehaviourQuery → Option MisbehaviourResponse

/-! ## Errors -/

inductive StdError where
  | notFound (store : String)
  | overflow
  | invalidAddress (addr : String)
  | querierFailed

inductive ContractError where
  | std (e : StdError)
  | accessManagedUnauthorized (caller : Addr)
  | clientTypeAlreadyExists
  | counterpartyChannelIdInvalid
  | connectionInvalidState (got expected : ConnectionState)
  | channelInvalidState (got expected : ChannelState)
  | receivedTimedOutPacketTimestamp (timeoutTimestamp currentTimestamp : Timestamp)
  | unauthorized (channelId : ChannelId) (owner caller : Addr)
  | packetNotReceived
  | alreadyAcknowledged
  | timeoutMustBeSet
  | timeoutTimestampNotReached
  | packetAlreadyAcknowledged
  | packetCommitmentNotFound
  | timeoutProofTimestampNotFound
  | notEnoughPackets
  | acknowledgementIsEmpty
  | acknowledgementMismatch (found expected : H256)
  | packetCommitmentAlreadyExist
  | unauthorizedMigration (clientId : ClientId) (caller client : Addr)
  | cannotMigrateWithNoClientState (clientId : ClientId)
  | cannotMigrateWithNoConsensusState (clientId : ClientId) (height : Height)
  | cannotQueryLightClient (clientImpl : Addr) (query : LightClientQuery)
  | clientNotActive (clientId : ClientId) (status : Status)
  | batchSameChannelOnly

/-- How a handler can fail: with an error of the contract, or by panicking at a named site. -/
inductive Failure where
  | err (e : ContractError)
  | panic (site : String)

abbrev Result (α : Type) := Except Failure α

def expect {α : Type} (o : Option α) (site : String) : Result α := orErr o (.panic site)

/-- `return Err(e)` unless `p`. -/
def require (p : Prop) [Decidable p] (e : ContractError) : Result Unit := ensure p (.err e)

/-- `ok_or(e)?`. -/
def okOr {α : Type} (o : Option α) (e : ContractError) : Result α := orErr o (.err e)

@[simp] theorem expect_eq_ok {α : Type} {o : Option α} {site : String} {a : α} :
    expect o site = .ok a ↔ o = some a := orErr_eq_ok

@[simp] theorem require_eq_ok {p : Prop} [Decidable p] {e : ContractError} {u : Unit} :
    require p e = .ok u ↔ p := ensure_eq_ok

@[simp] theorem okOr_eq_ok {α : Type} {o : Option α} {e : ContractError} {a : α} :
    okOr o e = .ok a ↔ o = some a := orErr_eq_ok

/-! ## Messages to the apps, events, responses -/

/-- `ibc_union_msg::module::IbcUnionMsg`: the callbacks of an IBC app. -/
inductive IbcUnionMsg where
  | onChannelOpenInit (caller : String) (connectionId : ConnectionId) (channelId : ChannelId)
      (version : String) (relayer : String)
  | onChannelOpenTry (caller : String) (connectionId : ConnectionId) (channelId : ChannelId)
      (version counterpartyVersion : String) (relayer : String)
  | onChannelOpenAck (caller : String) (channelId counterpartyChannelId : ChannelId)
      (counterpartyVersion : String) (relayer : String)
  | onChannelOpenConfirm (caller : String) (channelId : ChannelId) (relayer : String)
  | onChannelCloseInit (caller : String) (channelId : ChannelId) (relayer : String)
  | onChannelCloseConfirm (caller : String) (channelId : ChannelId) (relayer : String)
  | onIntentRecvPacket (caller : String) (packet : Packet) (marketMaker : String)
      (marketMakerMsg : Bytes)
  | onRecvPacket (caller : String) (packet : Packet) (relayer : String) (relayerMsg : Bytes)
  | onAcknowledgementPacket (caller : String) (packet : Packet) (acknowledgement : Bytes)
      (relayer : String)
  | onTimeoutPacket (caller : String) (packet : Packet) (relayer : String)
  deriving DecidableEq

/-- `wasm_execute(contract, ModuleMsg::IbcUnionMsg(msg), funds)`. -/
structure Dispatch where
  contract : Addr
  msg : IbcUnionMsg
  funds : List Coin
  deriving DecidableEq

/-- The events of `events.rs`. -/
inductive Event where
  | registerClient (clientType : String) (clientAddress : Addr)
  | createClient (clientId : ClientId) (clientType counterpartyChainId : String)
  | createLensClient (clientId l1ClientId l2ClientId : ClientId) (l2ChainId : String)
  | updateClient (clientId : ClientId) (counterpartyHeight : Height)
  | forceUpdateClient (clientId : ClientId) (counterpartyHeight : Height)
  | misbehaviour (clientId : ClientId)
  | connectionOpenInit (connectionId : ConnectionId) (clientId counterpartyClientId : ClientId)
  | connectionOpenTry (connectionId : ConnectionId) (clientId counterpartyClientId : ClientId)
      (counterpartyConnectionId : ConnectionId)
  | connectionOpenAck (connectionId : ConnectionId) (clientId counterpartyClientId : ClientId)
      (counterpartyConnectionId : ConnectionId)
  | connectionOpenConfirm (connectionId : ConnectionId) (clientId counterpartyClientId : ClientId)
      (counterpartyConnectionId : ConnectionId)
  | channelOpenInit (portId : Addr) (channelId : ChannelId) (counterpartyPortId : Bytes)
      (connectionId : ConnectionId) (version : String)
  | channelOpenTry (portId : Addr) (channelId : ChannelId) (counterpartyPortId : Bytes)
      (counterpartyChannelId : ChannelId) (connectionId : ConnectionId) (counterpartyVersion : String)
  | channelOpenAck (portId : Addr) (channelId : ChannelId) (counterpartyPortId : Bytes)
      (counterpartyChannelId : ChannelId) (connectionId : ConnectionId)
  | channelOpenConfirm (portId : Addr) (channelId : ChannelId) (counterpartyPortId : Bytes)
      (counterpartyChannelId : ChannelId) (connectionId : ConnectionId)
  | channelCloseInit (portId : Addr) (channelId : ChannelId) (counterpartyPortId : Bytes)
      (counterpartyChannelId : ChannelId)
  | channelCloseConfirm (portId : Addr) (channelId : ChannelId) (counterpartyPortId : Bytes)
      (counterpartyChannelId : ChannelId)
  | packetSend (packet : Packet) (channelId : ChannelId) (packetHash : H256)
  | batchSend (channelId : ChannelId) (packetHash batchHash : H256)
  | batchAcks (channelId : ChannelId) (packetHash batchHash : H256)
  | packetRecv (channelId : ChannelId) (packetHash : H256) (maker : Addr) (makerMsg : Bytes)
  | intentPacketRecv (channelId : ChannelId) (packetHash : H256) (maker : Addr) (makerMsg : Bytes)
  | packetAck (channelId : ChannelId) (packetHash : H256) (acknowledgement : Bytes) (maker : Addr)
  | writeAck (channelId : ChannelId) (packetHash : H256) (acknowledgement : Bytes)
  | timeoutPacket (channelId : ChannelId) (packetHash : H256) (maker : Addr)
  | commitMembershipProof (clientId : ClientId) (proofHeight : Height) (path value : Bytes)
  | commitNonMembershipProof (clientId : ClientId) (proofHeight : Height) (path : Bytes)

/-- A handler's response: events, messages to run next, and (for `send_packet`) the text of the sent
    packet as return data. -/
structure Response where
  events : List Event
  messages : List Dispatch
  data : Option Bytes

def Response.event (e : Event) : Response := ⟨[e], [], none⟩

structure MessageInfo where
  sender : Addr
  funds : List Coin

/-- The access manager's answer to `CanCall`. -/
inductive CanCall where
  | immediate
  | unauthorized
  | withDelay

/-- The chain a contract runs on, as one message sees it: the address check of the API, the block
    time, the access manager's answer for this message (`none`: the query fails) and the light
    clients. -/
structure Env where
  validAddr : String → Bool
  blockTime : Timestamp
  canCall : Option CanCall
  querier : Querier

def addrValidate (env : Env) (s : String) : Result Addr :=
  if env.validAddr s then .ok s else .error (.err (.std (.invalidAddress s)))

@[simp] theorem addrValidate_eq_ok {env : Env} {s a : String} :
    addrValidate env s = .ok a ↔ env.validAddr s = true ∧ a = s := by
  unfold addrValidate
  by_cases h : env.validAddr s = true
  · rw [if_pos h, Except.ok.injEq]
    exact ⟨fun e => ⟨h, e.symm⟩, fun e => e.2.symm⟩
  · simp [h]

end UnionVoyager.Core
