import UnionVoyager.Zkgm.Complete
import UnionVoyager.Zkgm.Send

/-!
# Receiving: execution of an instruction

`execute_packet`, `execute_internal` and the `execute_*`, `*_fill*` functions of
`ucs03-zkgm/src/contract.rs`.  The arguments every one of them hands on are the record `Execution`;
storage and remaining funds are threaded.
-/

namespace UnionVoyager.Zkgm

open Lib Function
open Core (ChannelId Timestamp Addr Coin)

/-- Who brought the packet, and under which path it is executed. -/
structure Execution where
  caller : Addr
  packet : Packet
  relayer : Addr
  relayerMsg : Bytes
  path : U256
  intent : Bool

/-- Storage and remaining funds, as the execution walks through an instruction. -/
abbrev Step := State × Coins × Response

/-- `Response::new().add_message(wasm_execute(env.contract.address, InternalWriteAck { ack }))`. -/
def writeAck (ack : AckData) : SubMsg := (CosmosMsg.internalWriteAck ack).plain

def protocolAck : AckData := .tokenOrderAck FILL_TYPE_PROTOCOL []

def makerAck (marketMaker : Bytes) : AckData := .tokenOrderAck FILL_TYPE_MARKETMAKER marketMaker

/-! ## Market maker fills -/

/-- The relayer hands the quote amount to the minter, which releases it to the receiver. -/
def fillMessages (s : State) (caller : Addr) (quoteToken : String) (receiver : Addr)
    (quoteAmount : Nat) (fundsToEscrow : List Coin) : List MinterCall :=
  if quoteAmount > 0 then
    [⟨s.tokenMinter, .escrow caller quoteToken s.tokenMinter quoteAmount, fundsToEscrow⟩,
      ⟨s.tokenMinter, .unescrow quoteToken receiver quoteAmount, []⟩]
  else
    []

def relayerFill (messages : List MinterCall) : SubMsg :=
    ⟨.internalBatch messages, some (.always, .mmRelayerFill)⟩

def marketMakerFill (x : Execution) (quoteAmount : Nat) (quoteToken : String) (receiver : Addr)
    (s : State) (funds : Coins) : Result Step := do
  let (funds, fundsToEscrow) ← funds.take quoteToken quoteAmount
  let s := { s with marketMaker := some x.relayerMsg }
  pure (s, funds, [relayerFill (fillMessages s x.caller quoteToken receiver quoteAmount fundsToEscrow)])

def relayerMarketMakerFillV2 (env : Env) (x : Execution) (order : TokenOrderV2) (s : State)
    (funds : Coins) : Result Step := do
  let quoteToken ← okOr (fromUtf8 order.quoteToken) .invalidQuoteToken
  let receiver ← validateAddr env order.receiver .invalidReceiver .unableToValidateReceiver
  let quoteAmount ← toU128 order.quoteAmount
  let (funds, fundsToEscrow) ← funds.take quoteToken quoteAmount
  pure (s, funds, [relayerFill (fillMessages s x.caller quoteToken receiver quoteAmount fundsToEscrow)])

def solverMarketMakerFillV2 (x : Execution) (order : TokenOrderV2) (s : State) (funds : Coins) :
    Result Step := do
  let metadata ← okOr order.metadata.asSolver .alloy
  let solver ← okOr (fromUtf8 metadata.solverAddress) .invalidSolverAddress
  pure (s, funds, [⟨.solver solver ⟨x.packet, order, x.path, x.caller, x.relayer, x.relayerMsg,
    x.intent⟩, some (.always, .mmSolverFill)⟩])

def marketMakerFillV2 (env : Env) (x : Execution) (order : TokenOrderV2) (s : State)
    (funds : Coins) : Result Step :=
  if order.kind = TOKEN_ORDER_KIND_SOLVE then
    solverMarketMakerFillV2 x order s funds
  else
    relayerMarketMakerFillV2 env x order { s with marketMaker := some x.relayerMsg } funds

/-! ## Protocol fills -/

/-- `make_wasm_msg(msg, minter, vec![])`. -/
def minterCall (s : State) (msg : MinterMsg) : MinterCall := ⟨s.tokenMinter, msg, []⟩

/-- `if amount > 0 { messages.push(..) }`. -/
def callIf (amount : Nat) (call : MinterCall) : List MinterCall := if amount > 0 then [call] else []

/-- The quote amount is minted to the receiver, the fee to the relayer. -/
def mintCalls (s : State) (denom : String) (receiver relayer : Addr) (quoteAmount fee : Nat) :
    List MinterCall :=
  callIf quoteAmount (minterCall s (.mintTokens denom quoteAmount receiver)) ++
    callIf fee (minterCall s (.mintTokens denom fee relayer))

/-- The quote amount is released to the receiver, the fee to the relayer. -/
def unescrowCalls (s : State) (denom : String) (receiver relayer : Addr) (quoteAmount fee : Nat) :
    List MinterCall :=
  callIf quoteAmount (minterCall s (.unescrow denom receiver quoteAmount)) ++
    callIf fee (minterCall s (.unescrow denom relayer fee))

/-- The calls of the minter, then the acknowledgement of a protocol fill. -/
def protocolFill (calls : List MinterCall) : Response :=
  calls.map (fun c => (CosmosMsg.minter c).plain) ++ [writeAck protocolAck]

/-- The first V1 order for a wrapped token creates it and records its origin. -/
def deployV1 (x : Execution) (order : TokenOrderV1) (wrapped : String) (s : State) :
    Result (State × List MinterCall) :=
  if (s.hashToForeignToken wrapped).isSome then
    .ok (s, [])
  else do
    let origin ← updateChannelPath x.path x.packet.destinationChannelId
    pure ({ s with
        hashToForeignToken := update s.hashToForeignToken wrapped (some order.baseToken)
        tokenOrigin := update s.tokenOrigin wrapped (some origin) },
      [minterCall s (.createDenom wrapped order.baseTokenName order.baseTokenSymbol
        order.baseTokenDecimals x.path x.packet.destinationChannelId order.baseToken)])

def executeTokenOrderV1 (env : Env) (x : Execution) (order : TokenOrderV1) (s : State)
    (funds : Coins) : Result Step := do
  let quoteToken ← okOr (fromUtf8 order.quoteToken) .invalidQuoteToken
  let receiver ← validateAddr env order.receiver .invalidReceiver .unableToValidateReceiver
  let baseAmount ← toU128 order.baseAmount
  let quoteAmount ← toU128 order.quoteAmount
  if x.intent then
    marketMakerFill x quoteAmount quoteToken receiver s funds
  else
    let feeAmount := baseAmount - quoteAmount
    let wrapped ← okOr (env.predictWrappedToken x.path x.packet.destinationChannelId order.baseToken)
      .std
    if quoteToken = wrapped ∧ quoteAmount ≤ baseAmount then
      let s ← rateLimit s wrapped quoteAmount env.now
      let (s, deploy) ← deployV1 x order wrapped s
      pure (s, funds, protocolFill (deploy ++ mintCalls s wrapped receiver x.relayer quoteAmount feeAmount))
    else if order.baseTokenPath ≠ 0 ∧ quoteAmount ≤ baseAmount then
      let s ← rateLimit s quoteToken quoteAmount env.now
      let reversed ← reverseChannelPath x.path
      let s ← decreaseChannelBalanceV2 s x.packet.destinationChannelId reversed quoteToken
        order.baseToken baseAmount
      pure (s, funds, protocolFill (unescrowCalls s quoteToken receiver x.relayer quoteAmount feeAmount))
    else
      marketMakerFill x quoteAmount quoteToken receiver s funds

/-- The asset can only be deployed if the metadata preimage is provided. -/
def deployV2 (env : Env) (x : Execution) (order : TokenOrderV2) (wrapped : String)
    (metadata : Option TokenMetadata) (canDeploy : Bool) (s : State) :
    Result (State × List MinterCall) :=
  match metadata with
  | some metadata =>
    if canDeploy && !(s.hashToForeignToken wrapped).isSome then do
      let origin ← updateChannelPath x.path x.packet.destinationChannelId
      pure ({ s with
          hashToForeignToken := update s.hashToForeignToken wrapped (some order.baseToken)
          tokenOrigin := update s.tokenOrigin wrapped (some origin)
          metadataImageOf := update s.metadataImageOf wrapped
            (some (env.hashing.metadataImage metadata)) },
        [minterCall s (.createDenomV2 wrapped x.path x.packet.destinationChannelId order.baseToken
          metadata.implementation metadata.initializer)])
    else
      .ok (s, [])
  | none => .ok (s, [])

def protocolFillMint (env : Env) (x : Execution) (order : TokenOrderV2) (wrapped : String)
    (receiver : Addr) (baseAmount quoteAmount : Nat) (metadata : Option TokenMetadata)
    (canDeploy : Bool) (s : State) (funds : Coins) : Result Step := do
  require (quoteAmount ≤ baseAmount) .amountOverflow
  let feeAmount := baseAmount - quoteAmount
  let (s, deploy) ← deployV2 env x order wrapped metadata canDeploy s
  pure (s, funds, protocolFill (deploy ++ mintCalls s wrapped receiver x.relayer quoteAmount feeAmount))

def protocolFillUnescrowV2 (x : Execution) (baseToken : Bytes) (quoteToken : String)
    (receiver : Addr) (baseAmount quoteAmount : Nat) (s : State) (funds : Coins) : Result Step := do
  require (quoteAmount ≤ baseAmount) .amountOverflow
  let feeAmount := baseAmount - quoteAmount
  let reversed ← reverseChannelPath x.path
  let s ← decreaseChannelBalanceV2 s x.packet.destinationChannelId reversed quoteToken baseToken
    baseAmount
  pure (s, funds, protocolFill (unescrowCalls s quoteToken receiver x.relayer quoteAmount feeAmount))

/-- The wrapped token a V2 order may be filled with by the protocol, if there is one. -/
def wrappedTokenV2 (env : Env) (x : Execution) (order : TokenOrderV2) (quoteToken : String)
    (s : State) : Result (Option String) :=
  if order.kind = TOKEN_ORDER_KIND_ESCROW then do
    let metadataImage := (s.metadataImageOf quoteToken).getD 0
    if metadataImage = 0 then
      let wrapped ← okOr
        (env.predictWrappedToken x.path x.packet.destinationChannelId order.baseToken) .std
      pure (some wrapped)
    else
      let wrapped ← okOr (env.predictWrappedTokenFromMetadataImageV2 x.path
        x.packet.destinationChannelId order.baseToken metadataImage) .std
      pure (some wrapped)
  else if order.kind = TOKEN_ORDER_KIND_INITIALIZE then
    match order.metadata.asToken with
    | some metadata => do
      let wrapped ← okOr (env.predictWrappedTokenFromMetadataImageV2 x.path
        x.packet.destinationChannelId order.baseToken (env.hashing.metadataImage metadata)) .std
      require (quoteToken = wrapped) .invalidTokenOrderKind
      pure (some wrapped)
    | none => .ok none
  else
    .ok none

def executeTokenOrderV2 (env : Env) (x : Execution) (order : TokenOrderV2) (s : State)
    (funds : Coins) : Result Step := do
  let quoteToken ← okOr (fromUtf8 order.quoteToken) .invalidQuoteToken
  let receiver ← validateAddr env order.receiver .invalidReceiver .unableToValidateReceiver
  if x.intent = true ∨ order.kind = TOKEN_ORDER_KIND_SOLVE then
    marketMakerFillV2 env x order s funds
  else if order.kind = TOKEN_ORDER_KIND_UNESCROW ∧ order.quoteAmount ≤ order.baseAmount then
    let baseAmount ← toU128 order.baseAmount
    let quoteAmount ← toU128 order.quoteAmount
    let s ← rateLimit s quoteToken quoteAmount env.now
    protocolFillUnescrowV2 x order.baseToken quoteToken receiver baseAmount quoteAmount s funds
  else
    let wrapped ← wrappedTokenV2 env x order quoteToken s
    if wrapped = some quoteToken ∧ order.quoteAmount ≤ order.baseAmount then
      let baseAmount ← toU128 order.baseAmount
      let quoteAmount ← toU128 order.quoteAmount
      let s ← rateLimit s quoteToken quoteAmount env.now
      protocolFillMint env x order quoteToken receiver baseAmount quoteAmount order.metadata.asToken
        (order.kind == TOKEN_ORDER_KIND_INITIALIZE) s funds
    else
      marketMakerFillV2 env x order s funds

/-! ## Calls and forwards -/

/-- The proxy account a call is made to is set up first, once per packet. -/
def createProxy (env : Env) (x : Execution) (call : Call) (target predicted : Addr) (s : State) :
    State × Response :=
  let salt : CallProxySalt := ⟨x.path, x.packet.destinationChannelId, call.sender⟩
  if predicted = target ∧ env.contractExists target = false ∧ s.createdProxyAccount = none then
    ({ s with createdProxyAccount := some salt },
        [(CosmosMsg.account (.instantiate2 s.config.dummyCodeId salt)).plain,
        (CosmosMsg.account (.migrate predicted s.config.cwAccountCodeId salt)).plain,
        (CosmosMsg.account (.updateAdmin predicted predicted)).plain])
  else
    (s, [])

def executeCall (env : Env) (x : Execution) (call : Call) (s : State) (funds : Coins) : Result Step := do
  let target ← validateAddr env call.contractAddress .invalidContractAddress
    .unableToValidateCallTarget
  let predicted ← okOr
    (env.predictCallProxyAccount ⟨x.path, x.packet.destinationChannelId, call.sender⟩) .std
  let (s, account) := createProxy env x call target predicted s
  if call.eureka then
    let msg : CallMsg :=
      if x.intent then
        .onIntentRecvPacket x.caller (callPacket x.packet x.path call) x.relayer x.relayerMsg
      else
        .onRecvPacket x.caller (callPacket x.packet x.path call) x.relayer x.relayerMsg
    pure (s, funds, account ++ [⟨.contract target msg, some (.success, .call)⟩])
  else
    let msg : CallMsg :=
      if x.intent then
        .onIntentZkgm x.caller x.path x.packet.sourceChannelId x.packet.destinationChannelId
          call.sender call.contractCalldata x.relayer x.relayerMsg
      else
        .onZkgm x.caller x.path x.packet.sourceChannelId x.packet.destinationChannelId
          call.sender call.contractCalldata x.relayer x.relayerMsg
    pure (s, funds, account ++ [(CosmosMsg.contract target msg).plain,
      writeAck (.raw (Core.word TAG_ACK_SUCCESS.toNat))])

def executeForward (env : Env) (x : Execution) (salt : U256) (forwardPath : U256)
    (timeoutTimestamp : Timestamp) (instruction : Instruction) (s : State) (funds : Coins) :
    Result Step := do
  require (isAllowedForwardInstruction instruction.opcode = true) .invalidForwardInstruction
  if x.intent then
    pure (s, funds, [writeAck (.raw ACK_ERR_ONLY_MAKER)])
  else
    let (tailPath, previous) ← dequeueChannelFromPath forwardPath
    let previousDestinationChannelId ← okOr previous
      (.invalidForwardDestinationChannelId none x.packet.destinationChannelId)
    let (continuationPath, next) ← dequeueChannelFromPath tailPath
    let nextSourceChannelId ← okOr next .missingForwardSourceChannelId
    require (x.packet.destinationChannelId = previousDestinationChannelId)
      (.invalidForwardDestinationChannelId (some previousDestinationChannelId)
        x.packet.destinationChannelId)
    let nextInstruction : Instruction :=
      if continuationPath = 0 then
        instruction
      else
        .mk INSTR_VERSION_0 OP_FORWARD (.forward continuationPath 0 timeoutTimestamp instruction)
    let path ← updateChannelPath x.path previousDestinationChannelId
    let nextPath ← updateChannelPath path nextSourceChannelId
    pure (s, funds, [
      ⟨.packetSend ⟨nextSourceChannelId, timeoutTimestamp,
        .zkgm ⟨deriveForwardSalt env.hashing salt, nextPath, nextInstruction⟩⟩,
        some (.success, .forward)⟩,
      writeAck (.raw [])])

/-! ## Dispatch -/

mutual

def executeInternal (env : Env) (x : Execution) : U256 → Instruction → State → Coins → Result Step
  | salt, .mk version opcode operand, s, funds =>
    if opcode = OP_TOKEN_ORDER then
      if version = INSTR_VERSION_1 then
        match operand with
        | .tokenOrderV1 order => executeTokenOrderV1 env x order s funds
        | _ => .error (.err .alloy)
      else if version = INSTR_VERSION_2 then
        match operand with
        | .tokenOrderV2 order => executeTokenOrderV2 env x order s funds
        | _ => .error (.err .alloy)
      else
        .error (.err (.unsupportedVersion version))
    else if opcode = OP_BATCH then
      if version > INSTR_VERSION_0 then
        .error (.err (.unsupportedVersion version))
      else
        match operand with
        | .batch instructions =>
          executeBatch env x salt 0 instructions
            { s with executingPacketIsBatch := some instructions.length } funds
        | _ => .error (.err .alloy)
    else if opcode = OP_CALL then
      if version > INSTR_VERSION_0 then
        .error (.err (.unsupportedVersion version))
      else
        match operand with
        | .call call => executeCall env x call s funds
        | _ => .error (.err .alloy)
    else if opcode = OP_FORWARD then
      if version > INSTR_VERSION_0 then
        .error (.err (.unsupportedVersion version))
      else
        match operand with
        | .forward path _ timeoutTimestamp instruction =>
          executeForward env x salt path timeoutTimestamp instruction s funds
        | _ => .error (.err .alloy)
    else
      .error (.err (.unknownOpcode opcode))

/-- The loop of `execute_batch`, at the instruction with the given index. -/
def executeBatch (env : Env) (x : Execution) : U256 → Nat → List Instruction → State → Coins → Result Step
  | _, _, [], s, funds => .ok (s, funds, [])
  | salt, index, instruction :: instructions, s, funds =>
    if isAllowedBatchInstruction instruction.opcode then do
      let (s, funds, messages) ← executeInternal env x (deriveBatchSalt env.hashing index salt)
        instruction s funds
      let (s, funds, rest) ← executeBatch env x salt (index + 1) instructions s funds
      pure (s, funds, messages ++ rest)
    else
      .error (.err .invalidBatchInstruction)

end

def executePacket (env : Env) (caller : Addr) (packet : Packet) (relayer : Addr) (relayerMsg : Bytes)
    (intent : Bool) (funds : List Coin) (s : State) : Result (State × Response) :=
  match packet.data with
  | .zkgm zkgmPacket => do
    let (s, _, messages) ← executeInternal env
      ⟨caller, packet, relayer, relayerMsg, zkgmPacket.path, intent⟩ zkgmPacket.salt
      zkgmPacket.instruction s (Coins.ofList funds)
    pure ({ s with createdProxyAccount := none }, messages)
  | _ => .error (.err .alloy)

end UnionVoyager.Zkgm
