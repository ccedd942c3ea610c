import UnionVoyager.Zkgm.State

/-!
# Completing: acknowledgements and timeouts on the sender

`timeout_packet`, `acknowledge_packet`, the two recursive dispatchers behind them and the refunds of
`ucs03-zkgm/src/contract.rs`.  The salt is threaded through both dispatchers of the source and read by
no branch; it is left out here.

* `Payout` — what the sending chain does to settle one order.
* `refund_payout`, `acknowledgeTokenOrderV1_payout` and their kind — each function that settles an
  order does that.
-/

namespace UnionVoyager.Zkgm

open Lib
open Core (ChannelId Addr)

/-- `Response::new().add_message(make_wasm_msg(msg, minter, vec![]))`. -/
def minterMsg (s : State) (msg : MinterMsg) : SubMsg := (CosmosMsg.minter ⟨s.tokenMinter, msg, []⟩).plain

/-! ## Refunds -/

def refund (env : Env) (path : U256) (sourceChannel : ChannelId) (order : TokenOrderV1) (s : State) :
    Result (State × Response) := do
  let sender ← validateAddr env order.sender .invalidSender .unableToValidateSender
  let baseAmount ← toU128 order.baseAmount
  let baseDenom ← okOr (fromUtf8 order.baseToken) .invalidBaseToken
  if baseAmount > 0 then
    if order.baseTokenPath ≠ 0 then
      pure (s, [minterMsg s (.mintTokens baseDenom baseAmount sender)])
    else
      let s ← decreaseChannelBalanceV2 s sourceChannel path baseDenom order.quoteToken baseAmount
      pure (s, [minterMsg s (.unescrow baseDenom sender baseAmount)])
  else
    pure (s, [])

def refundV2 (env : Env) (path : U256) (sourceChannel : ChannelId) (order : TokenOrderV2) (s : State) :
    Result (State × Response) := do
  let sender ← validateAddr env order.sender .invalidSender .unableToValidateSender
  let baseDenom ← okOr (fromUtf8 order.baseToken) .invalidBaseToken
  let baseAmount ← toU128 order.baseAmount
  if order.kind = TOKEN_ORDER_KIND_UNESCROW then
    pure (s, [minterMsg s (.mintTokens baseDenom baseAmount sender)])
  else
    let s ← decreaseChannelBalanceV2 s sourceChannel path baseDenom order.quoteToken baseAmount
    pure (s, [minterMsg s (.unescrow baseDenom sender baseAmount)])

/-! ## Acknowledgements -/

/-- `orderAck` is `None` for a failed packet. -/
def acknowledgeTokenOrderV2 (env : Env) (packet : Packet) (path : U256) (order : TokenOrderV2)
    (orderAck : Option (U256 × Bytes)) (s : State) : Result (State × Response) :=
  match orderAck with
  | none => refundV2 env path packet.sourceChannelId order s
  | some (fillType, ackMarketMaker) =>
    if fillType = FILL_TYPE_PROTOCOL then
      .ok (s, [])
    else if fillType = FILL_TYPE_MARKETMAKER then do
      let baseDenom ← okOr (fromUtf8 order.baseToken) .invalidBaseToken
      let baseAmount ← toU128 order.baseAmount
      if baseAmount ≠ 0 then
        if order.kind = TOKEN_ORDER_KIND_UNESCROW then
          let marketMaker ← validateAddr env ackMarketMaker .invalidReceiver
            .unableToValidateMarketMaker
          pure (s, [minterMsg s (.mintTokens baseDenom baseAmount marketMaker)])
        else
          let s ← decreaseChannelBalanceV2 s packet.sourceChannelId path baseDenom order.quoteToken
            baseAmount
          let burnAddress ← okOr env.burnAddress .std
          if ackMarketMaker = utf8 burnAddress then
            pure (s, [minterMsg s (.burnTokens baseDenom baseAmount s.tokenMinter s.tokenMinter)])
          else
            let marketMaker ← validateAddr env ackMarketMaker .invalidReceiver
              .unableToValidateMarketMaker
            pure (s, [minterMsg s (.unescrow baseDenom marketMaker baseAmount)])
      else
        pure (s, [])
    else
      .error (.err (.invalidFillType fillType))

def acknowledgeTokenOrderV1 (env : Env) (packet : Packet) (path : U256) (order : TokenOrderV1)
    (orderAck : Option (U256 × Bytes)) (s : State) : Result (State × Response) :=
  match orderAck with
  | none => refund env path packet.sourceChannelId order s
  | some (fillType, ackMarketMaker) =>
    if fillType = FILL_TYPE_PROTOCOL then
      .ok (s, [])
    else if fillType = FILL_TYPE_MARKETMAKER then do
      let marketMaker ← validateAddr env ackMarketMaker .invalidReceiver .unableToValidateMarketMaker
      let baseDenom ← okOr (fromUtf8 order.baseToken) .invalidBaseToken
      let baseAmount ← toU128 order.baseAmount
      if order.baseTokenPath ≠ 0 then
        pure (s, [minterMsg s (.mintTokens baseDenom baseAmount marketMaker)])
      else
        let s ← decreaseChannelBalanceV2 s packet.sourceChannelId path baseDenom order.quoteToken
          baseAmount
        pure (s, [minterMsg s (.unescrow baseDenom marketMaker baseAmount)])
    else
      .error (.err (.invalidFillType fillType))

/-- The virtual packet of a eureka call. -/
def callPacket (packet : Packet) (path : U256) (call : Call) : Packet where
  sourceChannelId := packet.sourceChannelId
  destinationChannelId := packet.destinationChannelId
  data := .callCalldata path call.sender call.contractCalldata
  timeoutHeight := .mustBeZero
  timeoutTimestamp := packet.timeoutTimestamp

def acknowledgeCall (env : Env) (caller : Addr) (packet : Packet) (relayer : Addr) (path : U256)
    (call : Call) (successful : Bool) (ack : AckData) (s : State) : Result (State × Response) :=
  if successful && call.eureka then do
    let sender ← validateAddr env call.sender .invalidSender .unableToValidateSender
    pure (s, [(CosmosMsg.contract sender
      (.onAcknowledgementPacket caller (callPacket packet path call) ack relayer)).plain])
  else
    .ok (s, [])

/-- `TokenOrderAck::abi_decode_params_validate`, made only for a successful packet. -/
def decodeTokenOrderAck (successful : Bool) (ack : AckData) : Result (Option (U256 × Bytes)) :=
  if successful then
    match ack with
    | .tokenOrderAck fillType marketMaker => .ok (some (fillType, marketMaker))
    | _ => .error (.err .alloy)
  else
    .ok none

/-- `BatchAck::abi_decode_params_validate`, made only for a successful packet. -/
def decodeBatchAck (successful : Bool) (ack : AckData) : Result (Option (List AckData)) :=
  if successful then
    match ack with
    | .batchAck acknowledgements => .ok (some acknowledgements)
    | _ => .error (.err .alloy)
  else
    .ok none

/-- The acknowledgement of the next instruction of a batch, and those after it.  Indexing past the
    list panics. -/
def nextAck : Option (List AckData) → Result (AckData × Option (List AckData))
  | none => .ok (.raw [], none)
  | some [] => .error (.panic "index out of bounds")
  | some (ack :: acks) => .ok (ack, some acks)

mutual

def acknowledgeInternal (env : Env) (caller : Addr) (packet : Packet) (relayer : Addr) :
    U256 → Instruction → Bool → AckData → State → Result (State × Response)
  | path, .mk version opcode operand, successful, ack, s =>
    if opcode = OP_TOKEN_ORDER then
      if version = INSTR_VERSION_1 then
        match operand with
        | .tokenOrderV1 order => do
          let orderAck ← decodeTokenOrderAck successful ack
          acknowledgeTokenOrderV1 env packet path order orderAck s
        | _ => .error (.err .alloy)
      else if version = INSTR_VERSION_2 then
        match operand with
        | .tokenOrderV2 order => do
          let orderAck ← decodeTokenOrderAck successful ack
          acknowledgeTokenOrderV2 env packet path order orderAck s
        | _ => .error (.err .alloy)
      else
        .error (.err (.unsupportedVersion version))
    else if opcode = OP_BATCH then
      if version > INSTR_VERSION_0 then
        .error (.err (.unsupportedVersion version))
      else
        match operand with
        | .batch instructions => do
          let batchAck ← decodeBatchAck successful ack
          acknowledgeBatch env caller packet relayer path instructions successful batchAck s
        | _ => .error (.err .alloy)
    else if opcode = OP_CALL then
      if version > INSTR_VERSION_0 then
        .error (.err (.unsupportedVersion version))
      else
        match operand with
        | .call call => acknowledgeCall env caller packet relayer path call successful ack s
        | _ => .error (.err .alloy)
    else
      .error (.err (.unknownOpcode opcode))

/-- The loop over the instructions of a batch. -/
def acknowledgeBatch (env : Env) (caller : Addr) (packet : Packet) (relayer : Addr) :
    U256 → List Instruction → Bool → Option (List AckData) → State → Result (State × Response)
  | _, [], _, _, s => .ok (s, [])
  | path, instruction :: instructions, successful, acks, s => do
    let (ack, acks) ← nextAck acks
    let (s, messages) ← acknowledgeInternal env caller packet relayer path instruction successful ack s
    let (s, rest) ← acknowledgeBatch env caller packet relayer path instructions successful acks s
    pure (s, messages ++ rest)

end

def acknowledgePacket (env : Env) (caller : Addr) (packet : Packet) (relayer : Addr)
    (ack : Acknowledgement) (s : State) : Result (State × Response) :=
  match packet.data with
  | .zkgm zkgmPacket =>
    let key := packet.commitmentKey env.hashing
    match (if isForwardedPacket zkgmPacket.salt then s.inFlightPacket key else none) with
    | some parentPacket =>
      .ok ({ s with inFlightPacket := Function.update s.inFlightPacket key none },
        [(CosmosMsg.writeAcknowledgement parentPacket ack).plain])
    | none =>
      match ack with
      | .ack tag innerAck =>
        acknowledgeInternal env caller packet relayer zkgmPacket.path zkgmPacket.instruction
          (tag == TAG_ACK_SUCCESS) innerAck s
      | .other _ => .error (.err .alloy)
  | _ => .error (.err .alloy)

/-! ## Timeouts -/

def timeoutCall (env : Env) (caller : Addr) (packet : Packet) (relayer : Addr) (path : U256)
    (call : Call) (s : State) : Result (State × Response) :=
  if call.eureka then do
    let sender ← validateAddr env call.sender .invalidSender .unableToValidateSender
    pure (s, [(CosmosMsg.contract sender
      (.onTimeoutPacket caller (callPacket packet path call) relayer)).plain])
  else
    .ok (s, [])

mutual

def timeoutInternal (env : Env) (caller : Addr) (packet : Packet) (relayer : Addr) :
    U256 → Instruction → State → Result (State × Response)
  | path, .mk version opcode operand, s =>
    if opcode = OP_TOKEN_ORDER then
      if version = INSTR_VERSION_1 then
        match operand with
        | .tokenOrderV1 order => refund env path packet.sourceChannelId order s
        | _ => .error (.err .alloy)
      else if version = INSTR_VERSION_2 then
        match operand with
        | .tokenOrderV2 order => refundV2 env path packet.sourceChannelId order s
        | _ => .error (.err .alloy)
      else
        .error (.err (.unsupportedVersion version))
    else if opcode = OP_BATCH then
      if version > INSTR_VERSION_0 then
        .error (.err (.unsupportedVersion version))
      else
        match operand with
        | .batch instructions => timeoutBatch env caller packet relayer path instructions s
        | _ => .error (.err .alloy)
    else if opcode = OP_CALL then
      if version > INSTR_VERSION_0 then
        .error (.err (.unsupportedVersion version))
      else
        match operand with
        | .call call => timeoutCall env caller packet relayer path call s
        | _ => .error (.err .alloy)
    else
      .error (.err (.unknownOpcode opcode))

/-- The loop over the instructions of a batch. -/
def timeoutBatch (env : Env) (caller : Addr) (packet : Packet) (relayer : Addr) :
    U256 → List Instruction → State → Result (State × Response)
  | _, [], s => .ok (s, [])
  | path, instruction :: instructions, s => do
    let (s, messages) ← timeoutInternal env caller packet relayer path instruction s
    let (s, rest) ← timeoutBatch env caller packet relayer path instructions s
    pure (s, messages ++ rest)

end

def timeoutPacket (env : Env) (caller : Addr) (packet : Packet) (relayer : Addr) (s : State) :
    Result (State × Response) :=
  match packet.data with
  | .zkgm zkgmPacket =>
    let key := packet.commitmentKey env.hashing
    match (if isForwardedPacket zkgmPacket.salt then s.inFlightPacket key else none) with
    | some parentPacket =>
      .ok ({ s with inFlightPacket := Function.update s.inFlightPacket key none },
        [(CosmosMsg.writeAcknowledgement parentPacket .failure).plain])
    | none =>
      timeoutInternal env caller packet relayer zkgmPacket.path zkgmPacket.instruction s
  | _ => .error (.err .alloy)

end UnionVoyager.Zkgm
