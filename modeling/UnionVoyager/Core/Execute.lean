import UnionVoyager.Core.Client
import UnionVoyager.Core.Handshake
import UnionVoyager.Core.Packet
import UnionVoyager.Lib.Machine

/-!
# Entry points of the IBC core contract

`execute` with every message of `ibc_union_msg::msg::ExecuteMsg` that reaches the stores of the
core, the one query with an `unreachable!` arm, and runs: a message that fails leaves no trace, as
the host discards the storage writes and the messages of a failed transaction.

A restricted message is executed if the access manager answers `Immediate`; with a delay it comes
back later as a message of its own.
-/

namespace UnionVoyager.Core

open Lib

inductive RestrictedExecuteMsg where
  | registerClient (clientType clientAddress : String)
  | createClient (clientType : String) (clientStateBytes consensusStateBytes : Bytes)
      (relayer : String)
  | updateClient (clientId : ClientId) (clientMessage : Bytes) (relayer : String)
  | forceUpdateClient (clientId : ClientId) (clientStateBytes consensusStateBytes : Bytes)
  | misbehaviour (clientId : ClientId) (clientMessage : Bytes) (relayer : String)
  | connectionOpenInit (clientId counterpartyClientId : ClientId)
  | connectionOpenTry (counterpartyClientId : ClientId) (counterpartyConnectionId : ConnectionId)
      (clientId : ClientId) (proofInit : Bytes) (proofHeight : Height)
  | forceConnectionOpenTry (counterpartyClientId : ClientId)
      (counterpartyConnectionId : ConnectionId) (clientId : ClientId) (proofInit : Bytes)
      (proofHeight : Height)
  | connectionOpenAck (connectionId counterpartyConnectionId : ConnectionId) (proofTry : Bytes)
      (proofHeight : Height)
  | forceConnectionOpenAck (connectionId counterpartyConnectionId : ConnectionId)
      (proofTry : Bytes) (proofHeight : Height)
  | connectionOpenConfirm (connectionId : ConnectionId) (proofAck : Bytes) (proofHeight : Height)
  | forceConnectionOpenConfirm (connectionId : ConnectionId) (proofAck : Bytes)
      (proofHeight : Height)
  | channelOpenInit (portId : String) (counterpartyPortId : Bytes) (connectionId : ConnectionId)
      (version relayer : String)
  | channelOpenTry (portId : String) (channel : Channel) (counterpartyVersion : String)
      (proofInit : Bytes) (proofHeight : Height) (relayer : String)
  | forceChannelOpenTry (portId : String) (channel : Channel) (counterpartyVersion : String)
      (proofInit : Bytes) (proofHeight : Height) (relayer : String)
  | channelOpenAck (channelId : ChannelId) (counterpartyVersion : String)
      (counterpartyChannelId : ChannelId) (proofTry : Bytes) (proofHeight : Height)
      (relayer : String)
  | forceChannelOpenAck (channelId : ChannelId) (counterpartyVersion : String)
      (counterpartyChannelId : ChannelId) (proofTry : Bytes) (proofHeight : Height)
      (relayer : String)
  | channelOpenConfirm (channelId : ChannelId) (proofAck : Bytes) (proofHeight : Height)
      (relayer : String)
  | forceChannelOpenConfirm (channelId : ChannelId) (proofAck : Bytes) (proofHeight : Height)
      (relayer : String)
  | channelCloseInit (channelId : ChannelId) (relayer : String)
  | channelCloseConfirm (channelId : ChannelId) (proofInit : Bytes) (proofHeight : Height)
      (relayer : String)
  | packetRecv (packets : List Packet) (relayerMsgs : List Bytes) (relayer : String)
      (proof : Bytes) (proofHeight : Height)
  | packetAck (packets : List Packet) (acknowledgements : List Bytes) (proof : Bytes)
      (proofHeight : Height) (relayer : String)
  | packetTimeout (packet : Packet) (proof : Bytes) (proofHeight : Height) (relayer : String)
  | intentPacketRecv (packets : List Packet) (marketMakerMsgs : List Bytes) (marketMaker : String)
  | batchSend (packets : List Packet)
  | batchAcks (packets : List Packet) (acks : List Bytes)
  | commitMembershipProof (clientId : ClientId) (proofHeight : Height) (proof path value : Bytes)
  | commitNonMembershipProof (clientId : ClientId) (proofHeight : Height) (proof path : Bytes)

inductive ExecuteMsg where
  | packetSend (sourceChannelId : ChannelId) (timeoutTimestamp : Timestamp) (data : Bytes)
  | writeAcknowledgement (packet : Packet) (acknowledgement : Bytes)
  | migrateState (clientId : ClientId) (clientState consensusState : Bytes) (height : Height)
  | restricted (msg : RestrictedExecuteMsg)

/-- Whether a message is one of the unverified `Force*` variants. -/
def RestrictedExecuteMsg.isForce : RestrictedExecuteMsg → Bool
  | .forceUpdateClient .. => true
  | .forceConnectionOpenTry .. => true
  | .forceConnectionOpenAck .. => true
  | .forceConnectionOpenConfirm .. => true
  | .forceChannelOpenTry .. => true
  | .forceChannelOpenAck .. => true
  | .forceChannelOpenConfirm .. => true
  | _ => false

def ExecuteMsg.isForce : ExecuteMsg → Bool
  | .restricted m => m.isForce
  | _ => false

/-- The inner `match` of the `Restricted` arm. -/
def executeRestricted (H : Hashing) (env : Env) (s : State) (info : MessageInfo) :
    RestrictedExecuteMsg → Result (State × Response)
  | .registerClient ty a => registerClient env s ty a
  | .createClient ty cs cons r => createClient H env s info ty cs cons r
  | .updateClient i m r => updateClient H env s info i m r
  | .forceUpdateClient i cs cons => forceUpdateClient H env s info i cs cons
  | .misbehaviour i m r => misbehaviour H env s info i m r
  | .connectionOpenInit i j => connectionOpenInit H s i j
  | .connectionOpenTry j d i p h => connectionOpenTry H env s j d i p h true
  | .forceConnectionOpenTry j d i p h => connectionOpenTry H env s j d i p h false
  | .connectionOpenAck c d p h => connectionOpenAck H env s c d p h true
  | .forceConnectionOpenAck c d p h => connectionOpenAck H env s c d p h false
  | .connectionOpenConfirm c p h => connectionOpenConfirm H env s c p h true
  | .forceConnectionOpenConfirm c p h => connectionOpenConfirm H env s c p h false
  | .channelOpenInit port cport c v r => channelOpenInit H env s info port cport c v r
  | .channelOpenTry port ch cv p h r => channelOpenTry H env s info port ch cv p h r true
  | .forceChannelOpenTry port ch cv p h r => channelOpenTry H env s info port ch cv p h r false
  | .channelOpenAck c cv d p h r => channelOpenAck H env s info c cv d p h r true
  | .forceChannelOpenAck c cv d p h r => channelOpenAck H env s info c cv d p h r false
  | .channelOpenConfirm c p h r => channelOpenConfirm H env s info c p h r true
  | .forceChannelOpenConfirm c p h r => channelOpenConfirm H env s info c p h r false
  | .channelCloseInit c r => channelCloseInit H env s info c r
  | .channelCloseConfirm c p h r => channelCloseConfirm H env s info c p h r
  | .packetRecv ps ms r p h => processReceive H env s info ps ms r p h false
  | .packetAck ps acks p h r => acknowledgePacket H env s info ps acks p h r
  | .packetTimeout p pr h r => timeoutPacket H env s info p pr h r
  | .intentPacketRecv ps ms mm => processReceive H env s info ps ms mm [] 0 true
  | .batchSend ps => batchSend H s ps
  | .batchAcks ps acks => batchAcks H s ps acks
  | .commitMembershipProof i h pr p v => commitMembershipProof H env s i h pr p v
  | .commitNonMembershipProof i h pr p => commitNonMembershipProof H env s i h pr p

def execute (H : Hashing) (env : Env) (s : State) (info : MessageInfo) : ExecuteMsg →
      Result (State × Response)
  | .packetSend c t d => sendPacket H s info.sender c t d
  | .writeAcknowledgement p a => writeAcknowledgement H s info.sender p a
  | .migrateState i cs cons h => migrateState H s info.sender i cs cons h
  | .restricted m =>
    match env.canCall with
    | none => .error (.err (.std .querierFailed))
    | some .unauthorized => .error (.err (.accessManagedUnauthorized info.sender))
    | some .withDelay => .ok (s, ⟨[], [], none⟩)
    | some .immediate => executeRestricted H env s info m

/-- `query(GetCommittedNonMembershipProof)`. -/
def getCommittedNonMembershipProof (H : Hashing) (s : State) (clientId : ClientId)
    (proofHeight : Height) (path : Bytes) : Result Bool :=
  match readCommit s ((StorePath.nonMembershipProof clientId proofHeight path).key H) with
  | none => .ok false
  | some c => if c = NON_MEMBERSHIP_COMMITMENT_VALUE then .ok true else .error (.panic "unreachable")

/-- One incoming message with everything the contract can see while it runs. -/
structure Input where
  env : Env
  info : MessageInfo
  msg : ExecuteMsg

/-- The storage and the dispatched messages after an input; a failure changes nothing. -/
def step (H : Hashing) (s : State) (i : Input) : State × List Dispatch :=
  match execute H i.env s i.info i.msg with
  | .ok (s', r) => (s', r.messages)
  | .error _ => (s, [])

def run (H : Hashing) (s : State) (is : List Input) : State := Machine.run (step H) s is

/-- Everything dispatched to the apps by a list of inputs, in order. -/
def trace (H : Hashing) (s : State) (is : List Input) : List Dispatch := Machine.trace (step H) s is

end UnionVoyager.Core
