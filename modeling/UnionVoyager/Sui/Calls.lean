import UnionVoyager.Sui.Zkgm

/-!
# The public functions of zkgm on Sui

A packet is sent, received, acknowledged or timed out in several calls of one transaction, which hand on a
context that cannot be dropped.  One call of `recvPacket`, `acknowledgePacket` or `timeoutPacket` handles at
most one token order, since it has one coin type.
-/

namespace UnionVoyager.Sui

open Lib
open Zkgm (U256 AckData Acknowledgement OP_BATCH OP_TOKEN_ORDER INSTR_VERSION_0 TAG_ACK_SUCCESS)

/-! ## Contexts -/

structure SendCtx where
  channelId : UInt32
  salt : Bytes
  instructions : List Instruction

structure ZkgmPacketCtx where
  instructionSet : List Instruction
  cursor : Nat
  acks : List AckData
  path : U256
  salt : Bytes
  failure : Bool
  isBatch : Bool

structure RecvCtx where
  packetCtxs : List ZkgmPacketCtx
  packets : List Packet
  cursor : Nat

structure ZkgmPacketAckCtx where
  instructionSet : List Instruction
  cursor : Nat
  path : U256
  salt : Bytes

structure AckCtx where
  packetCtxs : List ZkgmPacketAckCtx
  packets : List Packet
  cursor : Nat
  acks : List Acknowledgement

structure TimeoutCtx where
  packetCtx : ZkgmPacketAckCtx
  packet : Packet

section Calls

variable (env : Env)

/-! ## Sending -/

def beginSend (channelId : UInt32) (salt : Bytes) : SendCtx := ⟨channelId, salt, []⟩

def sendWithCoin (w : World) (t : CoinType) (value : Nat) (instruction : Instruction) (ctx : SendCtx) :
    Result (SendCtx × World) := do
  let w ← verifyInternal env w t value ctx.channelId 0 instruction
  pure ({ ctx with instructions := ctx.instructions ++ [instruction] }, w)

/-- The instruction `end_send` makes of those of its context. -/
def joinInstructions (instructions : List Instruction) : Result Instruction :=
  match instructions with
  | [] => .error .vm
  | [instruction] => .ok instruction
  | _ => do
    assert (instructions.all fun i => isAllowedBatchInstruction i.opcode) EInvalidBatchInstruction
    pure (.mk INSTR_VERSION_0 OP_BATCH (.batch instructions))

def endSend (w : World) (clock timeoutHeight timeoutTimestamp : Nat) (ctx : SendCtx) :
    Result (Packet × World) := do
  let instruction ← joinInstructions ctx.instructions
  let data := ZkgmPacket.encode ctx.salt 0 instruction
  let (packet, ibc) ← w.ibc.sendPacket env clock ctx.channelId timeoutHeight timeoutTimestamp data
  pure (packet, { w with ibc := ibc })

/-! ## Receiving -/

/-- `extract_batch`: the instructions, whether they are a batch, and a code. -/
def extractBatch : Instruction → Result (List Instruction × Bool × Nat)
  | .mk version opcode operand =>
    if opcode = OP_BATCH then
      if version ≠ INSTR_VERSION_0 then .ok ([], false, EUnsupportedVersion)
      else
        match operand with
        | .batch instructions =>
          if instructions.all fun i => isAllowedBatchInstruction i.opcode then .ok (instructions, true, 0)
          else .ok ([], false, EInvalidBatchInstruction)
        | _ => .error .vm
    else .ok ([.mk version opcode operand], false, 0)

def beginRecvPacket (p : Packet) : Result ZkgmPacketCtx := do
  let zkgmPacket ← ZkgmPacket.decode env p.data
  let (instructionSet, isBatch, err) ← extractBatch zkgmPacket.instruction
  pure {
    instructionSet := instructionSet
    cursor := 0
    acks := []
    path := zkgmPacket.path
    salt := zkgmPacket.salt
    failure := err ≠ 0
    isBatch := isBatch }

def beginRecv (packets : List Packet) : Result RecvCtx := do
  let packetCtxs ← packets.mapM (beginRecvPacket env)
  pure ⟨packetCtxs, packets, 0⟩

/-- One turn of the loop of `recv_packet`. -/
def recvInstruction (w : World) (t : CoinType) (clock : Nat) (packet : Packet) (relayer : Address)
    (relayerMsg : Bytes)
    (instruction : Instruction) (ctx : ZkgmPacketCtx) : Result (ZkgmPacketCtx × World) :=
  if ctx.failure then .ok ({ ctx with cursor := ctx.cursor + 1 }, w)
  else do
    let ((ack, err), w) ←
      executeInternal env w t clock packet ctx.salt ctx.path relayer relayerMsg false instruction
    if err ≠ 0 then pure ({ ctx with cursor := ctx.cursor + 1, failure := true }, w)
    else pure ({ ctx with cursor := ctx.cursor + 1, acks := ctx.acks ++ [ack] }, w)

/-- The loop, over the instructions from the cursor on: it stops before a second token order. -/
def recvInstructions (t : CoinType) (clock : Nat) (packet : Packet) (relayer : Address) (relayerMsg : Bytes) :
    List Instruction → Bool → ZkgmPacketCtx → World → Result (ZkgmPacketCtx × World)
  | [], _, ctx, w => .ok (ctx, w)
  | instruction :: rest, typeIsUsed, ctx, w =>
    if instruction.opcode = OP_TOKEN_ORDER ∧ typeIsUsed then .ok (ctx, w)
    else do
      let (ctx, w) ← recvInstruction env w t clock packet relayer relayerMsg instruction ctx
      recvInstructions t clock packet relayer relayerMsg rest
        (typeIsUsed || instruction.opcode == OP_TOKEN_ORDER) ctx w

def recvPacket (w : World) (t : CoinType) (clock : Nat) (relayer : Address) (relayerMsg : Bytes)
    (ctx : RecvCtx) : Result (RecvCtx × World) := do
  let packet ← orErr ctx.packets[ctx.cursor]? .vm
  let packetCtx ← orErr ctx.packetCtxs[ctx.cursor]? .vm
  let remaining := packetCtx.instructionSet.drop packetCtx.cursor
  let (packetCtx, w) ← recvInstructions env t clock packet relayer relayerMsg remaining false packetCtx w
  let cursor := if packetCtx.cursor = packetCtx.instructionSet.length then ctx.cursor + 1 else ctx.cursor
  pure ({ ctx with packetCtxs := ctx.packetCtxs.set ctx.cursor packetCtx, cursor := cursor }, w)

/-- The acknowledgement `end_recv` writes for a packet. -/
def ZkgmPacketCtx.acknowledgement (ctx : ZkgmPacketCtx) : Result Acknowledgement :=
  if ctx.failure then .ok .failure
  else if ctx.isBatch then .ok (.success (.batchAck ctx.acks))
  else
    match ctx.acks with
    | [ack] => .ok (.success ack)
    | _ => .error (.code EAckSizeMismatching)

def endRecv (w : World) (clock : Nat) (relayerMsg : Bytes) (verified : Bool) (ctx : RecvCtx) :
    Result World := do
  assert (ctx.cursor = ctx.packetCtxs.length) EExecutionNotComplete
  let finalPacket ← orErr ctx.packetCtxs.getLast? .arithmetic
  assert (finalPacket.cursor = finalPacket.instructionSet.length) EExecutionNotComplete
  let acks ← ctx.packetCtxs.mapM ZkgmPacketCtx.acknowledgement
  let ibc ← w.ibc.recvPacket env clock ctx.packets [relayerMsg] acks verified
  pure { w with ibc := ibc }

/-! ## Acknowledgements -/

def beginAckPacket (p : Packet) : Result ZkgmPacketAckCtx := do
  let zkgmPacket ← ZkgmPacket.decode env p.data
  let (instructionSet, _, err) ← extractBatch zkgmPacket.instruction
  assert (err = 0) err
  pure ⟨instructionSet, 0, zkgmPacket.path, zkgmPacket.salt⟩

/-- `ack::decode`. -/
def decodeAck : Acknowledgement → Result (U256 × AckData)
  | .ack tag innerAck => .ok (tag, innerAck)
  | .other _ => .error .vm

def beginAck (packets : List Packet) (acks : List Acknowledgement) : Result AckCtx := do
  let packetCtxs ← packets.mapM (beginAckPacket env)
  ensure (packets.length ≤ acks.length) .vm
  let _ ← (acks.take packets.length).mapM decodeAck
  pure ⟨packetCtxs, packets, 0, acks⟩

/-- `batch_ack::decode`. -/
def decodeBatchAck : AckData → Result (List AckData)
  | .batchAck acknowledgements => .ok acknowledgements
  | _ => .error .vm

/-- The parent of a forwarded packet that is completed, if there is one: it is looked up by the hash
    of the packet, and `execute_forward` stored it under the key of the commitment. -/
def parentOf (w : World) (packet : Packet) (salt : Bytes) : Result (Option Packet) := do
  if ← isForwardedPacket salt then pure (w.store.inFlightPacket (env.commitPacket packet)) else pure none

/-- The parent gets its acknowledgement and is no longer in flight. -/
def acknowledgeParent (w : World) (packet parent : Packet) (ack : Acknowledgement) : Result World := do
  let store :=
    { w.store with inFlightPacket := Function.update w.store.inFlightPacket (env.commitPacket packet) none }
  let ibc ← w.ibc.writeAcknowledgement env parent ack
  pure { w with store := store, ibc := ibc }

/-- The loop that `acknowledge_packet` and `timeout_packet` share, over the instructions from the
    cursor on: the parent of a forwarded packet gets `parentAck`, and without one the instruction is
    handled here. -/
def completeInstructions (packet : Packet) (parentAck : Acknowledgement)
    (handle : ZkgmPacketAckCtx → World → Instruction → Result World) :
    List Instruction → Bool → ZkgmPacketAckCtx → World → Result (ZkgmPacketAckCtx × World)
  | [], _, ctx, w => .ok (ctx, w)
  | instruction :: rest, typeIsExhausted, ctx, w =>
    if instruction.opcode = OP_TOKEN_ORDER ∧ typeIsExhausted then .ok (ctx, w)
    else do
      let w ← match ← parentOf env w packet ctx.salt with
        | some parent => acknowledgeParent env w packet parent parentAck
        | none => handle ctx w instruction
      completeInstructions packet parentAck handle rest
        (typeIsExhausted || instruction.opcode == OP_TOKEN_ORDER)
        { ctx with cursor := ctx.cursor + 1 } w

/-- The acknowledgements of the instructions of a packet, if it has more than one. -/
def batchAcksOf (ctx : ZkgmPacketAckCtx) (innerAck : AckData) : Result (Option (List AckData)) :=
  if 1 < ctx.instructionSet.length then do pure (some (← decodeBatchAck innerAck)) else pure none

def innerAckAt (batchAcks : Option (List AckData)) (tag : U256) (innerAck : AckData)
    (cursor : Nat) : Result AckData :=
  match batchAcks with
  | some acks => if tag = TAG_ACK_SUCCESS then orErr acks[cursor]? .vm else .ok innerAck
  | none => .ok innerAck

/-- What the loop of `acknowledge_packet` does with an instruction. -/
def ackInstruction (t : CoinType) (packet : Packet) (tag : U256) (innerAck : AckData)
    (batchAcks : Option (List AckData))
    (ctx : ZkgmPacketAckCtx) (w : World) (instruction : Instruction) : Result World := do
  let inner ← innerAckAt batchAcks tag innerAck ctx.cursor
  acknowledgeInternal w t packet ctx.path (tag == TAG_ACK_SUCCESS) inner instruction

def acknowledgePacket (w : World) (t : CoinType) (ctx : AckCtx) : Result (AckCtx × World) := do
  let packet ← orErr ctx.packets[ctx.cursor]? .vm
  let ack ← orErr ctx.acks[ctx.cursor]? .vm
  let (tag, innerAck) ← decodeAck ack
  let packetCtx ← orErr ctx.packetCtxs[ctx.cursor]? .vm
  let batchAcks ← batchAcksOf packetCtx innerAck
  let remaining := packetCtx.instructionSet.drop packetCtx.cursor
  let (packetCtx, w) ← completeInstructions env packet ack
    (ackInstruction t packet tag innerAck batchAcks) remaining false packetCtx w
  let cursor := if packetCtx.cursor = packetCtx.instructionSet.length then ctx.cursor + 1 else ctx.cursor
  pure ({ ctx with packetCtxs := ctx.packetCtxs.set ctx.cursor packetCtx, cursor := cursor }, w)

def endAck (w : World) (verified : Bool) (ctx : AckCtx) : Result World := do
  assert (ctx.cursor = ctx.packetCtxs.length) EExecutionNotComplete
  let finalPacket ← orErr ctx.packetCtxs.getLast? .arithmetic
  assert (finalPacket.cursor = finalPacket.instructionSet.length) EExecutionNotComplete
  let ibc ← w.ibc.acknowledgePacket env ctx.packets verified
  pure { w with ibc := ibc }

/-! ## Timeouts -/

def beginTimeout (p : Packet) : Result TimeoutCtx := do
  let packetCtx ← beginAckPacket env p
  pure ⟨packetCtx, p⟩

def timeoutPacket (w : World) (t : CoinType) (ctx : TimeoutCtx) : Result (TimeoutCtx × World) := do
  assert (ctx.packetCtx.cursor < ctx.packetCtx.instructionSet.length) EExecutionAlreadyComplete
  let remaining := ctx.packetCtx.instructionSet.drop ctx.packetCtx.cursor
  let (packetCtx, w) ← completeInstructions env ctx.packet .failure
    (fun packetCtx w instruction => timeoutInternal w t ctx.packet packetCtx.path instruction) remaining false
    ctx.packetCtx w
  pure ({ ctx with packetCtx := packetCtx }, w)

def endTimeout (w : World) (proofTimestamp : Nat) (verified : Bool) (ctx : TimeoutCtx) : Result World := do
  assert (ctx.packetCtx.cursor = ctx.packetCtx.instructionSet.length) EExecutionNotComplete
  let ibc ← w.ibc.timeoutPacket env ctx.packet proofTimestamp verified
  pure { w with ibc := ibc }

end Calls

end UnionVoyager.Sui
