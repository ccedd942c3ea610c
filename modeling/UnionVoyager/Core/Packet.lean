import UnionVoyager.Core.State

/-!
# Packet handlers of the IBC core contract

`send_packet`, `batch_send`, `process_receive` (`PacketRecv` and `IntentPacketRecv`),
`write_acknowledgement`, `batch_acks`, `acknowledge_packet` and `timeout_packet` of
`cosmwasm/core/src/contract.rs`.

A `for` loop of the source is `List.foldlM` of its body over the same list, with the storage and
the response built so far as the accumulator; `zip` stops at the shorter list, as in Rust.
-/

namespace UnionVoyager.Core

open Lib Function

section

variable (H : Hashing) (s : State)

/-- The packet is also the return data, as JSON. -/
def sendPacket (sender : Addr) (sourceChannelId : ChannelId) (timeoutTimestamp : Timestamp)
    (data : Bytes) : Result (State × Response) := do
  require (timeoutTimestamp ≠ 0) .timeoutMustBeSet
  let portId ← read "channel_owner" (s.channelOwner sourceChannelId)
  require (portId = sender) (.unauthorized sourceChannelId portId sender)
  let channel ← ensureChannelState s sourceChannelId
  let destinationChannelId ← expect channel.counterpartyChannelId "channel is open; qed;"
  let packet : Packet := ⟨sourceChannelId, destinationChannelId, data, .mustBeZero, timeoutTimestamp⟩
  let serializedPacket ← expect (H.packetToString packet) "packet serialization is infallible; qed;"
  require (readCommit s (packetsKey H [packet]) = none) .packetCommitmentAlreadyExist
  return (storeCommit s (packetsKey H [packet]) COMMITMENT_MAGIC,
    ⟨[.packetSend packet sourceChannelId (packet.hash H)], [], some serializedPacket⟩)

/-- The body of the loop of `batch_send`. -/
def batchSendOne (channelId : ChannelId) (batchHash : H256) (events : List Event)
    (packet : Packet) : Result (List Event) := do
  let events := events ++ [.batchSend channelId (packet.hash H) batchHash]
  require (packet.sourceChannelId = channelId) .batchSameChannelOnly
  let commitment ← okOr (readCommit s (packetsKey H [packet])) .packetCommitmentNotFound
  require (commitment = COMMITMENT_MAGIC) .packetCommitmentNotFound
  return events

def batchSend (packets : List Packet) : Result (State × Response) := do
  match packets with
  | first :: _ :: _ =>
    let events ← packets.foldlM
      (batchSendOne H s first.sourceChannelId (commitPackets H packets)) []
    return (storeCommit s (packetsKey H packets) COMMITMENT_MAGIC, ⟨events, [], none⟩)
  | _ => throw (.err .notEnoughPackets)

/-- The body of the loop of `batch_acks`. -/
def batchAcksOne (channelId : ChannelId) (batchHash : H256) (events : List Event)
    (pa : Packet × Bytes) : Result (List Event) := do
  let events := events ++ [.batchAcks channelId (commitPackets H [pa.1]) batchHash]
  require (pa.1.destinationChannelId = channelId) .batchSameChannelOnly
  match readCommit s (receiptsKey H [pa.1]) with
  | some ackCommitment =>
    require (ackCommitment ≠ COMMITMENT_MAGIC) .acknowledgementIsEmpty
    require (ackCommitment = commitAck H pa.2)
      (.acknowledgementMismatch ackCommitment (commitAck H pa.2))
    return events
  | none => throw (.err .packetCommitmentNotFound)

def batchAcks (packets : List Packet) (acks : List Bytes) : Result (State × Response) := do
  match packets with
  | first :: _ :: _ =>
    let events ← (packets.zip acks).foldlM
      (batchAcksOne H s first.destinationChannelId (commitPackets H packets)) []
    return (storeCommit s (receiptsKey H packets) (commitAcks H acks), ⟨events, [], none⟩)
  | _ => throw (.err .notEnoughPackets)

end

/-- The event and the message for one packet of `process_receive`; only a proven packet passes the
    caller's funds on. -/
def receiveOutput (H : Hashing) (info : MessageInfo) (destinationChannelId : ChannelId)
    (portId relayer : Addr) (intent : Bool) (packet : Packet) (relayerMsg : Bytes) :
    Event × Dispatch :=
  if intent then
    (.intentPacketRecv destinationChannelId (packet.hash H) relayer relayerMsg,
      ⟨portId, .onIntentRecvPacket info.sender packet relayer relayerMsg, []⟩)
  else
    (.packetRecv destinationChannelId (packet.hash H) relayer relayerMsg,
      ⟨portId, .onRecvPacket info.sender packet relayer relayerMsg, info.funds⟩)

/-- The body of the loop of `process_receive`. -/
def receiveOne (H : Hashing) (env : Env) (info : MessageInfo) (destinationChannelId : ChannelId)
    (portId relayer : Addr) (intent : Bool) (acc : State × Response) (pm : Packet × Bytes) :
    Result (State × Response) := do
  require (pm.1.destinationChannelId = destinationChannelId) .batchSameChannelOnly
  require (env.blockTime < pm.1.timeoutTimestamp)
    (.receivedTimedOutPacketTimestamp pm.1.timeoutTimestamp env.blockTime)
  match setPacketReceive acc.1 (receiptsKey H [pm.1]) with
  | (true, s) => return (s, acc.2)
  | (false, s) =>
    let (event, message) := receiveOutput H info destinationChannelId portId relayer intent pm.1 pm.2
    return (s, ⟨acc.2.events ++ [event], acc.2.messages ++ [message], none⟩)

def processReceive (H : Hashing) (env : Env) (s : State) (info : MessageInfo)
    (packets : List Packet) (relayerMsgs : List Bytes) (relayer : String) (proof : Bytes)
    (proofHeight : Height) (intent : Bool) : Result (State × Response) := do
  let relayer ← addrValidate env relayer
  let first ← okOr packets.head? .notEnoughPackets
  let channel ← ensureChannelState s first.destinationChannelId
  let connection ← ensureConnectionState s channel.connectionId
  onlyIf (!intent) do
    let impl ← clientImpl s connection.clientId
    verifyMembership env impl ⟨connection.clientId, proofHeight, proof, packetsKey H packets,
      COMMITMENT_MAGIC⟩
  let portId ← read "channel_owner" (s.channelOwner first.destinationChannelId)
  (packets.zip relayerMsgs).foldlM
    (receiveOne H env info first.destinationChannelId portId relayer intent) (s, ⟨[], [], none⟩)

def writeAcknowledgement (H : Hashing) (s : State) (sender : Addr) (packet : Packet)
    (acknowledgement : Bytes) : Result (State × Response) := do
  require (acknowledgement ≠ []) .acknowledgementIsEmpty
  let portId ← read "channel_owner" (s.channelOwner packet.destinationChannelId)
  require (portId = sender) (.unauthorized packet.destinationChannelId portId sender)
  let commitment ← okOr (readCommit s (receiptsKey H [packet])) .packetNotReceived
  require (commitment = COMMITMENT_MAGIC) .alreadyAcknowledged
  return (storeCommit s (receiptsKey H [packet]) (commitAck H acknowledgement),
    .event (.writeAck packet.destinationChannelId (packet.hash H) acknowledgement))

def markPacketAsAcknowledged (H : Hashing) (s : State) (packet : Packet) : Result State := do
  let commitment ← okOr (s.commitments (packetsKey H [packet])) .packetCommitmentNotFound
  require (commitment ≠ COMMITMENT_MAGIC_ACK) .packetAlreadyAcknowledged
  require (commitment = COMMITMENT_MAGIC) .packetCommitmentNotFound
  return storeCommit s (packetsKey H [packet]) COMMITMENT_MAGIC_ACK

/-- The body of the loop of `acknowledge_packet`. -/
def acknowledgeOne (H : Hashing) (info : MessageInfo) (sourceChannelId : ChannelId)
    (portId relayer : Addr) (acc : State × Response) (pa : Packet × Bytes) :
    Result (State × Response) := do
  require (pa.1.sourceChannelId = sourceChannelId) .batchSameChannelOnly
  let s ← markPacketAsAcknowledged H acc.1 pa.1
  return (s, ⟨acc.2.events ++ [.packetAck sourceChannelId (pa.1.hash H) pa.2 relayer],
    acc.2.messages ++ [⟨portId, .onAcknowledgementPacket info.sender pa.1 pa.2 relayer, []⟩], none⟩)

def acknowledgePacket (H : Hashing) (env : Env) (s : State) (info : MessageInfo)
    (packets : List Packet) (acknowledgements : List Bytes) (proof : Bytes) (proofHeight : Height)
    (relayer : String) : Result (State × Response) := do
  let relayer ← addrValidate env relayer
  let first ← okOr packets.head? .notEnoughPackets
  let channel ← ensureChannelState s first.sourceChannelId
  let connection ← ensureConnectionState s channel.connectionId
  let impl ← clientImpl s connection.clientId
  verifyMembership env impl ⟨connection.clientId, proofHeight, proof, receiptsKey H packets,
    commitAcks H acknowledgements⟩
  let portId ← read "channel_owner" (s.channelOwner first.sourceChannelId)
  (packets.zip acknowledgements).foldlM
    (acknowledgeOne H info first.sourceChannelId portId relayer) (s, ⟨[], [], none⟩)

/-- The commitment is marked before the timeout itself is checked; a failed check undoes the mark
    with the rest of the transaction. -/
def timeoutPacket (H : Hashing) (env : Env) (s : State) (info : MessageInfo) (packet : Packet)
    (proof : Bytes) (proofHeight : Height) (relayer : String) : Result (State × Response) := do
  let relayer ← addrValidate env relayer
  let channel ← ensureChannelState s packet.sourceChannelId
  let connection ← ensureConnectionState s channel.connectionId
  let proofTimestamp ← getTimestampAtHeight env s connection.clientId proofHeight
  require (proofTimestamp ≠ 0) .timeoutProofTimestampNotFound
  let impl ← clientImpl s connection.clientId
  verifyNonMembership env impl ⟨connection.clientId, proofHeight, proof, receiptsKey H [packet]⟩
  let s ← markPacketAsAcknowledged H s packet
  require (packet.timeoutTimestamp ≠ 0) .timeoutMustBeSet
  require (packet.timeoutTimestamp ≤ proofTimestamp) .timeoutTimestampNotReached
  let portId ← read "channel_owner" (s.channelOwner packet.sourceChannelId)
  return (s, ⟨[.timeoutPacket packet.sourceChannelId (commitPackets H [packet]) relayer],
    [⟨portId, .onTimeoutPacket info.sender packet relayer, []⟩], none⟩)

end UnionVoyager.Core
