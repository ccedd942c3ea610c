import UnionVoyager.Core.State

/-!
# Connection and channel handshakes of the IBC core contract

The four connection steps, the four channel opening steps and the two closing steps of
`cosmwasm/core/src/contract.rs`.  `verify` is `false` for the `Force*` variants, which skip the
proof and nothing else.
-/

namespace UnionVoyager.Core

open Lib Function

/-! ## Connections -/

def connectionOpenInit (H : Hashing) (s : State) (clientId counterpartyClientId : ClientId) :
    Result (State × Response) := do
  let (connectionId, s) ← nextConnectionId s
  let connection : Connection := ⟨.init, clientId, counterpartyClientId, none⟩
  return (saveConnection H s connectionId connection,
    .event (.connectionOpenInit connectionId clientId counterpartyClientId))

def connectionOpenTry (H : Hashing) (env : Env) (s : State) (counterpartyClientId : ClientId)
    (counterpartyConnectionId : ConnectionId) (clientId : ClientId) (proofInit : Bytes)
    (proofHeight : Height) (verify : Bool) : Result (State × Response) := do
  let (connectionId, s) ← nextConnectionId s
  let connection : Connection := ⟨.tryOpen, clientId, counterpartyClientId, some counterpartyConnectionId⟩
  let expectedConnection : Connection := ⟨.init, counterpartyClientId, clientId, none⟩
  onlyIf verify do
    let impl ← clientImpl s clientId
    verifyMembership env impl ⟨clientId, proofHeight, proofInit,
      (StorePath.connection counterpartyConnectionId).key H, commitConnection H expectedConnection⟩
  return (saveConnection H s connectionId connection,
    .event (.connectionOpenTry connectionId clientId counterpartyClientId counterpartyConnectionId))

def connectionOpenAck (H : Hashing) (env : Env) (s : State) (connectionId : ConnectionId)
    (counterpartyConnectionId : ConnectionId) (proofTry : Bytes) (proofHeight : Height)
    (verify : Bool) : Result (State × Response) := do
  let connection ← read "connections" (s.connections connectionId)
  require (connection.state = .init) (.connectionInvalidState connection.state .init)
  onlyIf verify do
    let expectedConnection : Connection :=
      ⟨.tryOpen, connection.counterpartyClientId, connection.clientId, some connectionId⟩
    let impl ← clientImpl s connection.clientId
    verifyMembership env impl ⟨connection.clientId, proofHeight, proofTry,
      (StorePath.connection counterpartyConnectionId).key H, commitConnection H expectedConnection⟩
  let connection := { connection with
    state := .open, counterpartyConnectionId := some counterpartyConnectionId }
  return (saveConnection H s connectionId connection,
    .event (.connectionOpenAck connectionId connection.clientId connection.counterpartyClientId
      counterpartyConnectionId))

def connectionOpenConfirm (H : Hashing) (env : Env) (s : State) (connectionId : ConnectionId)
    (proofAck : Bytes) (proofHeight : Height) (verify : Bool) : Result (State × Response) := do
  let connection ← read "connections" (s.connections connectionId)
  require (connection.state = .tryOpen) (.connectionInvalidState connection.state .tryOpen)
  let expectedConnection : Connection :=
    ⟨.open, connection.counterpartyClientId, connection.clientId, some connectionId⟩
  let counterpartyConnectionId ← expect connection.counterpartyConnectionId
    "state is open, counterparty exists; qed;"
  onlyIf verify do
    let impl ← clientImpl s connection.clientId
    verifyMembership env impl ⟨connection.clientId, proofHeight, proofAck,
      (StorePath.connection counterpartyConnectionId).key H, commitConnection H expectedConnection⟩
  let connection := { connection with state := .open }
  return (saveConnection H s connectionId connection,
    .event (.connectionOpenConfirm connectionId connection.clientId connection.counterpartyClientId
      counterpartyConnectionId))

/-! ## Channels -/

def channelOpenInit (H : Hashing) (env : Env) (s : State) (info : MessageInfo) (portId : String)
    (counterpartyPortId : Bytes) (connectionId : ConnectionId) (version relayer : String) :
    Result (State × Response) := do
  let relayer ← addrValidate env relayer
  let portId ← addrValidate env portId
  let _ ← ensureConnectionState s connectionId
  let (channelId, _, s) ← createChannel H s portId .init connectionId none counterpartyPortId version
  return (s, ⟨[.channelOpenInit portId channelId counterpartyPortId connectionId version],
    [⟨portId, .onChannelOpenInit info.sender connectionId channelId version relayer, []⟩], none⟩)

/-- The channel to create comes whole from the message; only its state and that it names a
    counterparty channel are checked. -/
def channelOpenTry (H : Hashing) (env : Env) (s : State) (info : MessageInfo) (portId : String)
    (channel : Channel) (counterpartyVersion : String) (proofInit : Bytes) (proofHeight : Height)
    (relayer : String) (verify : Bool) : Result (State × Response) := do
  let relayer ← addrValidate env relayer
  require (channel.state = .tryOpen) (.channelInvalidState channel.state .tryOpen)
  let connection ← ensureConnectionState s channel.connectionId
  let counterpartyConnectionId ← expect connection.counterpartyConnectionId "connection is open; qed;"
  let expectedChannel : Channel := ⟨.init, counterpartyConnectionId, none, utf8 portId, counterpartyVersion⟩
  let impl ← clientImpl s connection.clientId
  let counterpartyChannelId ← okOr channel.counterpartyChannelId .counterpartyChannelIdInvalid
  onlyIf verify <|
    verifyMembership env impl ⟨connection.clientId, proofHeight, proofInit,
      (StorePath.channel counterpartyChannelId).key H, commitChannel H expectedChannel⟩
  let portId ← addrValidate env portId
  let (channelId, channel, s) ← createChannel H s portId channel.state channel.connectionId
    channel.counterpartyChannelId channel.counterpartyPortId channel.version
  return (s, ⟨[.channelOpenTry portId channelId channel.counterpartyPortId counterpartyChannelId
      channel.connectionId counterpartyVersion],
    [⟨portId, .onChannelOpenTry info.sender channel.connectionId channelId channel.version
      counterpartyVersion relayer, []⟩], none⟩)

section

variable (H : Hashing) (env : Env) (s : State) (info : MessageInfo) (channelId : ChannelId)

/-- The version of the counterparty replaces the version of the init step. -/
def channelOpenAck (counterpartyVersion : String) (counterpartyChannelId : ChannelId)
    (proofTry : Bytes) (proofHeight : Height) (relayer : String) (verify : Bool) :
    Result (State × Response) := do
  let relayer ← addrValidate env relayer
  let channel ← read "channels" (s.channels channelId)
  require (channel.state = .init) (.channelInvalidState channel.state .init)
  let connection ← ensureConnectionState s channel.connectionId
  let portId ← read "channel_owner" (s.channelOwner channelId)
  let counterpartyConnectionId ← expect connection.counterpartyConnectionId "connection is open; qed;"
  let expectedChannel : Channel :=
    ⟨.tryOpen, counterpartyConnectionId, some channelId, utf8 portId, counterpartyVersion⟩
  let impl ← clientImpl s connection.clientId
  onlyIf verify <|
    verifyMembership env impl ⟨connection.clientId, proofHeight, proofTry,
      (StorePath.channel counterpartyChannelId).key H, commitChannel H expectedChannel⟩
  let channel := { channel with
    state := .open, version := counterpartyVersion,
    counterpartyChannelId := some counterpartyChannelId }
  return (saveChannel H s channelId channel,
    ⟨[.channelOpenAck portId channelId channel.counterpartyPortId counterpartyChannelId
      channel.connectionId],
    [⟨portId, .onChannelOpenAck info.sender channelId counterpartyChannelId counterpartyVersion
      relayer, []⟩], none⟩)

def channelOpenConfirm (proofAck : Bytes) (proofHeight : Height) (relayer : String)
    (verify : Bool) : Result (State × Response) := do
  let relayer ← addrValidate env relayer
  let channel ← read "channels" (s.channels channelId)
  require (channel.state = .tryOpen) (.channelInvalidState channel.state .tryOpen)
  let connection ← ensureConnectionState s channel.connectionId
  let portId ← read "channel_owner" (s.channelOwner channelId)
  let counterpartyConnectionId ← expect connection.counterpartyConnectionId "connection is open; qed;"
  let expectedChannel : Channel :=
    ⟨.open, counterpartyConnectionId, some channelId, utf8 portId, channel.version⟩
  let impl ← clientImpl s connection.clientId
  let counterpartyChannelId ← expect channel.counterpartyChannelId "channel state is try open; qed;"
  onlyIf verify <|
    verifyMembership env impl ⟨connection.clientId, proofHeight, proofAck,
      (StorePath.channel counterpartyChannelId).key H, commitChannel H expectedChannel⟩
  let channel := { channel with state := .open }
  return (saveChannel H s channelId channel,
    ⟨[.channelOpenConfirm portId channelId channel.counterpartyPortId counterpartyChannelId
      channel.connectionId],
    [⟨portId, .onChannelOpenConfirm info.sender channelId relayer, []⟩], none⟩)

def channelCloseInit (relayer : String) : Result (State × Response) := do
  let relayer ← addrValidate env relayer
  let channel ← read "channels" (s.channels channelId)
  require (channel.state = .open) (.channelInvalidState channel.state .open)
  let _ ← ensureConnectionState s channel.connectionId
  let channel := { channel with state := .closed }
  let s := saveChannel H s channelId channel
  let portId ← read "channel_owner" (s.channelOwner channelId)
  let counterpartyChannelId ← expect channel.counterpartyChannelId "channel is open; qed;"
  return (s, ⟨[.channelCloseInit portId channelId channel.counterpartyPortId counterpartyChannelId],
    [⟨portId, .onChannelCloseInit info.sender channelId relayer, []⟩], none⟩)

/-- The message built at the end is `OnChannelOpenConfirm`, as in the source. -/
def channelCloseConfirm (proofInit : Bytes) (proofHeight : Height) (relayer : String) :
    Result (State × Response) := do
  let relayer ← addrValidate env relayer
  let channel ← read "channels" (s.channels channelId)
  require (channel.state = .open) (.channelInvalidState channel.state .open)
  let connection ← ensureConnectionState s channel.connectionId
  let portId ← read "channel_owner" (s.channelOwner channelId)
  let counterpartyConnectionId ← expect connection.counterpartyConnectionId "connection is open; qed;"
  let expectedChannel : Channel :=
    ⟨.closed, counterpartyConnectionId, some channelId, utf8 portId, channel.version⟩
  let impl ← clientImpl s connection.clientId
  let counterpartyChannelId ← expect channel.counterpartyChannelId "channel is open; qed;"
  verifyMembership env impl ⟨connection.clientId, proofHeight, proofInit,
    (StorePath.channel counterpartyChannelId).key H, commitChannel H expectedChannel⟩
  let channel := { channel with state := .closed }
  let s := { s with channels := update s.channels channelId (some channel) }
  let s := storeCommit s ((StorePath.channel channelId).key H) (commitChannel H channel)
  return (s, ⟨[.channelCloseConfirm portId channelId channel.counterpartyPortId counterpartyChannelId],
    [⟨portId, .onChannelOpenConfirm info.sender channelId relayer, []⟩], none⟩)

end

end UnionVoyager.Core
