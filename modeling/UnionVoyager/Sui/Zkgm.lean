import UnionVoyager.Sui.State

/-!
# The instructions of zkgm on Sui

What `zkgm.move` does with one instruction: when it is sent (`verifyInternal`), received
(`executeInternal`), acknowledged (`acknowledgeInternal`) and timed out (`timeoutInternal`).  The coin
type `t` is the type argument the caller chose.

Executing returns an acknowledgement and a code, as in the source: an error code is a value here, and what
was done before it stays done.
-/

namespace UnionVoyager.Sui

open Lib Function
open Zkgm (U256 AckData Acknowledgement OP_FORWARD OP_CALL OP_BATCH OP_TOKEN_ORDER INSTR_VERSION_0
  INSTR_VERSION_2
  TOKEN_ORDER_KIND_INITIALIZE TOKEN_ORDER_KIND_ESCROW TOKEN_ORDER_KIND_UNESCROW TOKEN_ORDER_KIND_SOLVE
  FILL_TYPE_PROTOCOL FILL_TYPE_MARKETMAKER)

def EUnsupportedVersion : Nat := 35001
def EUnknownSyscall : Nat := 35002
def EInvalidAmount : Nat := 35003
def EInvalidFillType : Nat := 35004
def ENoCallOperation : Nat := 35005
def EInvalidForwardInstruction : Nat := 35006
def ENoCoinInBag : Nat := 35007
def EChannelBalancePairNotFound : Nat := 35008
def EAnotherTokenIsRegistered : Nat := 35009
def EInvalidBatchInstruction : Nat := 35010
def EInvalidForwardDestinationChannelId : Nat := 35011
def EInvalidTokenOrderKind : Nat := 35012
def EUnwrapBaseAmountSmallerThanQuoteAmount : Nat := 35013
def EUnwrapMetadataInvalid : Nat := 35014
def EInvalidMetadata : Nat := 35015
def EInvalidUnescrow : Nat := 35016
def EAckSizeMismatching : Nat := 35017
def EExecutionNotComplete : Nat := 35018
def EInvalidSolverAddress : Nat := 35019
def EInvalidQuoteToken : Nat := 35020
def EExecutionAlreadyComplete : Nat := 35021
def EInvalidReceiver : Nat := 35022

def OWNED_VAULT_OBJECT_KEY : Bytes := utf8 "ucs03-zkgm-owned-vault"
def ESCROW_VAULT_OBJECT_KEY : Bytes := utf8 "ucs03-zkgm-escrow-vault"
def ESCROW_VAULT_OBJECT_KEY_ADDR : Bytes := ESCROW_VAULT_OBJECT_KEY ++ List.replicate 9 0
def ZERO_ADDRESS : Address := List.replicate 32 0
def ACK_ERR_ONLYMAKER : Bytes := utf8 "DEADC0DE"

/-! ## The store -/

/-- `decrease_outstanding`: a code, and the store. -/
def decreaseOutstanding (s : RelayStore) (pair : ChannelBalancePair) (amount : Nat) : Nat × RelayStore :=
  match s.channelBalance pair with
  | none => (EChannelBalancePairNotFound, s)
  | some balance =>
    if balance < amount then (EInvalidAmount, s)
    else (0, { s with channelBalance := update s.channelBalance pair (some (balance - amount)) })

def increaseOutstanding (s : RelayStore) (pair : ChannelBalancePair) (amount : Nat) : Result RelayStore := do
  let balance := (s.channelBalance pair).getD 0 + amount
  ensure (balance < 2 ^ 256) .arithmetic
  pure { s with channelBalance := update s.channelBalance pair (some balance) }

def distributeCoin (w : World) (t : CoinType) (receiver : Address) (amount : Nat) : Result (Nat × World) := do
  match ← splitCoin w.store t amount with
  | none => pure (ENoCoinInBag, w)
  | some store => pure (0, { w with store := store, transfers := w.transfers ++ [⟨receiver, t, amount⟩] })

/-- `if (amount > 0) { distribute_coin(..) }`, with code 0 for nothing to distribute. -/
def distributeIfPositive (w : World) (t : CoinType) (receiver : Address) (amount : Nat) :
    Result (Nat × World) :=
  if 0 < amount then distributeCoin w t receiver amount else .ok (0, w)

def saveTokenOrigin (s : RelayStore) (wrappedToken : Bytes) (path : U256) (channelId : UInt32) :
    Result RelayStore := do
  let updatedChannelPath ← updateChannelPath path channelId
  match s.tokenOrigin wrappedToken with
  | none => pure { s with tokenOrigin := update s.tokenOrigin wrappedToken (some updatedChannelPath) }
  | some _ => pure s

section Instructions

variable (env : Env)

def claimWrappedDenom (w : World) (t : CoinType) (wrappedDenom : Bytes)
    (metadata : Option TokenMetadata) : Result (Bool × World) :=
  match w.store.wrappedDenomToT wrappedDenom with
  | some claimed => .ok (claimed == t, w)
  | none =>
    match metadata with
    | none => .ok (false, w)
    | some metadata => do
      let suiMetadata ← orErr (env.decodeSuiTokenMetadata metadata.initializer) .vm
      let m ← w.vault.getMetadata t
      if m ≠ suiMetadata then pure (false, w)
      else
        let store := { w.store with wrappedDenomToT := update w.store.wrappedDenomToT wrappedDenom (some t) }
        pure (true, { w with store := store })

/-! ## Sending -/

/-- `verify_token_order`: the coin handed in has type `t` and value `value`. -/
def verifyTokenOrder (w : World) (t : CoinType) (value : Nat) (channelId : UInt32) (path : U256)
    (order : TokenOrderV2) : Result World :=
  if order.kind = TOKEN_ORDER_KIND_UNESCROW then do
    let origin := (w.store.tokenOrigin order.baseToken).getD 0
    let (intermediateChannelPath, destinationChannelId) ← popChannelFromPath origin
    let reversed ← reverseChannelPath intermediateChannelPath
    assert (order.metadata.length = 32) EInvalidMetadata
    let wrappedToken :=
      computeSaltFromMetadataImage env intermediateChannelPath channelId order.quoteToken order.metadata
    assert (order.baseToken = wrappedToken ∧ path = reversed ∧ destinationChannelId = channelId)
      EInvalidUnescrow
    ensure (w.store.ownedVaultCap = true) .vm
    w.burn t value
  else do
    let store ← increaseOutstanding w.store ⟨channelId, path, order.baseToken, order.quoteToken⟩
      order.baseAmount
    let store ← saveCoinToBag store t value
    pure { w with store := store }

/-- `verify_internal`; it never gives the coin back. -/
def verifyInternal (w : World) (t : CoinType) (value : Nat) (channelId : UInt32) (path : U256) :
    Instruction → Result World
  | .mk version opcode operand =>
    if opcode = OP_TOKEN_ORDER then do
      assert (version = INSTR_VERSION_2) EUnsupportedVersion
      match operand with
      | .tokenOrder order => verifyTokenOrder env w t value channelId path order
      | _ => .error .vm
    else if opcode = OP_FORWARD then do
      assert (version = INSTR_VERSION_0) EUnsupportedVersion
      match operand with
      | .forward forwardPath _ _ instruction => do
        assert (isAllowedForward instruction.opcode) EInvalidForwardInstruction
        verifyInternal w t value channelId forwardPath instruction
      | _ => .error .vm
    else if opcode = OP_CALL then .error (.code ENoCallOperation)
    else .error (.code EUnknownSyscall)

/-! ## Receiving -/

/-- The acknowledgement of an instruction and a code. -/
abbrev Answer := AckData × Nat

/-- `(vector::empty(), code)`. -/
def refused (code : Nat) : Answer := (.raw [], code)

/-- The vault that is asked to solve an order. -/
def solveWith (w : World) (solver : Bytes) (t : CoinType) (packet : Packet) (order : TokenOrderV2)
    (path : U256) (relayer : Address) (intent : Bool) : Result ((Bytes × Nat) × World) :=
  if solver = OWNED_VAULT_OBJECT_KEY then do
    ensure (w.store.ownedVaultCap = true) .vm
    w.ownedSolve env t packet order path relayer intent
  else if solver = ESCROW_VAULT_OBJECT_KEY then do
    ensure (w.store.escrowVaultCap = true) .vm
    w.escrowSolve env t packet order path relayer intent
  else .ok (([], EInvalidSolverAddress), w)

def solverFill (w : World) (t : CoinType) (packet : Packet) (order : TokenOrderV2) (path : U256)
    (relayer : Address) (intent : Bool) : Result (Answer × World) := do
  let metadata ← orErr (env.decodeSolverMetadata order.metadata) .vm
  if typeNameToQuoteToken t ≠ order.quoteToken then pure (refused EInvalidQuoteToken, w)
  else
    let ((res, err), w) ← solveWith env w metadata.solverAddress t packet order path relayer intent
    if err ≠ 0 then pure (refused err, w) else pure ((.tokenOrderAck FILL_TYPE_MARKETMAKER res, 0), w)

/-- `market_maker_fill`: an order that names no solver is paid out of the store. -/
def marketMakerFill (w : World) (t : CoinType) (packet : Packet) (relayer : Address)
    (relayerMsg : Bytes) (path : U256)
    (receiver : Address) (order : TokenOrderV2) (intent : Bool) : Result (Answer × World) :=
  if order.kind = TOKEN_ORDER_KIND_SOLVE then solverFill env w t packet order path relayer intent
  else do
    let quoteAmount ← asU64 order.quoteAmount
    let (err, w) ← distributeIfPositive w t receiver quoteAmount
    if err ≠ 0 then pure (refused err, w) else pure ((.tokenOrderAck FILL_TYPE_MARKETMAKER relayerMsg, 0), w)

def protocolFillMint (w : World) (t : CoinType) (wrappedToken : Bytes) (receiver relayer : Address)
    (order : TokenOrderV2) (metadata : Option TokenMetadata) : Result (Answer × World) := do
  ensure (order.quoteAmount ≤ order.baseAmount) .arithmetic
  let fee ← asU64 (order.baseAmount - order.quoteAmount)
  let (claimed, w) ← claimWrappedDenom env w t wrappedToken metadata
  if ¬ claimed then pure (refused EAnotherTokenIsRegistered, w)
  else
    let w ← w.ifPositive order.quoteAmount do
      ensure (w.store.ownedVaultCap = true) .vm
      w.mint t (← asU64 order.quoteAmount) receiver
    let w ← w.ifPositive fee do
      ensure (w.store.ownedVaultCap = true) .vm
      w.mint t fee relayer
    pure ((.tokenOrderAck FILL_TYPE_PROTOCOL [], 0), w)

/-- `protocol_fill_unescrow`: without a balance that covers the order it answers nothing, with the code of a
    success. -/
def protocolFillUnescrow (w : World) (t : CoinType) (channelId : UInt32) (path : U256)
    (baseToken quoteToken : Bytes)
    (receiver relayer : Address) (baseAmount quoteAmount : Nat) : Result (Answer × World) := do
  ensure (quoteAmount ≤ baseAmount) .arithmetic
  let fee := baseAmount - quoteAmount
  let reversed ← reverseChannelPath path
  let (code, store) := decreaseOutstanding w.store ⟨channelId, reversed, quoteToken, baseToken⟩ baseAmount
  if code ≠ 0 then pure (refused 0, w)
  else
    let w := { w with store := store }
    let (err, w) ← distributeIfPositive w t receiver quoteAmount
    if err ≠ 0 then pure (refused err, w)
    else
      let (err, w) ← distributeIfPositive w t relayer fee
      if err ≠ 0 then pure (refused err, w) else pure ((.tokenOrderAck FILL_TYPE_PROTOCOL [], 0), w)

/-- The token an order is wrapped into, with the metadata of an order that initialises it, or the code
    returned. -/
def wrappedTokenOf (packet : Packet) (path : U256) (order : TokenOrderV2) :
    Result (Except Nat (Bytes × Option TokenMetadata)) :=
  if order.kind = TOKEN_ORDER_KIND_ESCROW then
    if order.metadata.length ≠ 32 then .ok (.error EUnwrapMetadataInvalid)
    else .ok (.ok (computeSaltFromMetadataImage env path packet.destinationChannelId order.baseToken
      order.metadata, none))
  else if order.kind = TOKEN_ORDER_KIND_INITIALIZE then do
    let metadata ← orErr (env.decodeTokenMetadata order.metadata) .vm
    pure (.ok (computeSalt env path packet.destinationChannelId order.baseToken order.metadata,
      some metadata))
  else .ok (.error EInvalidTokenOrderKind)

def executeTokenOrder (w : World) (t : CoinType) (packet : Packet) (relayer : Address) (relayerMsg : Bytes)
    (path : U256) (order : TokenOrderV2) (intent : Bool) : Result (Answer × World) :=
  if order.receiver.length ≠ 32 then .ok (refused EInvalidReceiver, w)
  else do
    let receiver ← peelAddress order.receiver
    if intent ∨ order.kind = TOKEN_ORDER_KIND_SOLVE then
      marketMakerFill env w t packet relayer relayerMsg path receiver order intent
    else if order.kind = TOKEN_ORDER_KIND_UNESCROW then
      if order.baseAmount < order.quoteAmount then pure (refused EUnwrapBaseAmountSmallerThanQuoteAmount, w)
      else
        protocolFillUnescrow w t packet.destinationChannelId path order.baseToken order.quoteToken
          receiver relayer (← asU64 order.baseAmount) (← asU64 order.quoteAmount)
    else
      match ← wrappedTokenOf env packet path order with
      | .error code => pure (refused code, w)
      | .ok (wrappedToken, metadata) =>
        if order.quoteToken = wrappedToken ∧ order.quoteAmount ≤ order.baseAmount then do
          let store ← saveTokenOrigin w.store wrappedToken path packet.destinationChannelId
          protocolFillMint env { w with store := store } t wrappedToken receiver relayer order metadata
        else marketMakerFill env w t packet relayer relayerMsg path receiver order intent

def executeForward (w : World) (clock : Nat) (packet : Packet) (salt : Bytes) (path : U256)
    (version : UInt8) (forwardPath : U256) (timeoutHeight timeoutTimestamp : Nat)
    (instruction : Instruction) (intent : Bool) : Result (Answer × World) :=
  if ¬ isAllowedForward instruction.opcode then .ok (refused EInvalidForwardInstruction, w)
  else if intent then .ok ((.raw ACK_ERR_ONLYMAKER, 0), w)
  else do
    let (tailPath, previousDestinationChannelId) ← dequeueChannelFromPath forwardPath
    let (continuationPath, nextSourceChannelId) ← dequeueChannelFromPath tailPath
    if packet.destinationChannelId ≠ previousDestinationChannelId then
      pure (refused EInvalidForwardDestinationChannelId, w)
    else
      let nextInstruction : Instruction :=
        if continuationPath = 0 then instruction
        else .mk version OP_FORWARD (.forward continuationPath timeoutHeight timeoutTimestamp instruction)
      let nextPath ← updateChannelPath (← updateChannelPath path previousDestinationChannelId)
        nextSourceChannelId
      let data := ZkgmPacket.encode (← deriveForwardSalt env salt) nextPath nextInstruction
      let (sentPacket, ibc) ← w.ibc.sendPacket env clock nextSourceChannelId timeoutHeight
        timeoutTimestamp data
      ensure (w.store.inFlightPacket (env.packetKey sentPacket) = none) .vm
      let store :=
        { w.store with
          inFlightPacket := update w.store.inFlightPacket (env.packetKey sentPacket) (some packet) }
      pure ((.raw [], 0), { w with ibc := ibc, store := store })

def executeInternal (w : World) (t : CoinType) (clock : Nat) (packet : Packet) (salt : Bytes) (path : U256)
    (relayer : Address) (relayerMsg : Bytes) (intent : Bool) : Instruction → Result (Answer × World)
  | .mk version opcode operand =>
    if opcode = OP_TOKEN_ORDER then
      if version ≠ INSTR_VERSION_2 then .ok (refused EUnsupportedVersion, w)
      else
        match operand with
        | .tokenOrder order => executeTokenOrder env w t packet relayer relayerMsg path order intent
        | _ => .error .vm
    else if opcode = OP_FORWARD then
      if version ≠ INSTR_VERSION_0 then .ok (refused EUnsupportedVersion, w)
      else
        match operand with
        | .forward forwardPath timeoutHeight timeoutTimestamp instruction =>
          executeForward env w clock packet salt path version forwardPath timeoutHeight
            timeoutTimestamp instruction intent
        | _ => .error .vm
    else if opcode = OP_CALL then .ok (refused ENoCallOperation, w)
    else .ok (refused EUnknownSyscall, w)

/-! ## Acknowledgements and timeouts -/

section

variable (w : World) (t : CoinType) (sourceChannel : UInt32) (path : U256) (order : TokenOrderV2)

/-- `refund`: the codes of the two calls are dropped. -/
def refund : Result World := do
  let sender ← peelAddress order.sender
  if order.kind = TOKEN_ORDER_KIND_UNESCROW then do
    ensure (w.store.ownedVaultCap = true) .vm
    w.mint t (← asU64 order.baseAmount) sender
  else do
    let (_, store) :=
      decreaseOutstanding w.store ⟨sourceChannel, path, order.baseToken, order.quoteToken⟩ order.baseAmount
    let (_, w) ← distributeCoin { w with store := store } t sender (← asU64 order.baseAmount)
    pure w

/-- What `acknowledge_token_order` does for the market maker of an order that was escrowed. -/
def settle (marketMaker : Address) : Result World := do
  let (code, store) :=
    decreaseOutstanding w.store ⟨sourceChannel, path, order.baseToken, order.quoteToken⟩ order.baseAmount
  assert (code = 0) code
  let w := { w with store := store }
  if marketMaker = ZERO_ADDRESS then do
    let store ← orErr (← splitCoin w.store t (← asU64 order.baseAmount)) .vm
    ensure (w.store.ownedVaultCap = true) .vm
    World.burn { w with store := store } t order.baseAmount
  else if marketMaker = ESCROW_VAULT_OBJECT_KEY_ADDR then do
    let store ← orErr (← splitCoin w.store t (← asU64 order.baseAmount)) (.code ENoCoinInBag)
    ensure (w.store.escrowVaultCap = true) .vm
    World.escrowCoin { w with store := store } t order.baseAmount
  else do
    let (err, w) ← distributeCoin w t marketMaker (← asU64 order.baseAmount)
    assert (err = 0) err
    pure w

end

def acknowledgeTokenOrder (w : World) (t : CoinType) (packet : Packet) (path : U256)
    (order : TokenOrderV2) (success : Bool) (ack : AckData) : Result World :=
  if success then
    match ack with
    | .tokenOrderAck fillType marketMaker =>
      if fillType = FILL_TYPE_PROTOCOL then .ok w
      else if fillType = FILL_TYPE_MARKETMAKER then do
        let marketMaker ← peelAddress marketMaker
        if order.kind = TOKEN_ORDER_KIND_UNESCROW then do
          ensure (w.store.ownedVaultCap = true) .vm
          w.mint t (← asU64 order.baseAmount) marketMaker
        else settle w t packet.sourceChannelId path order marketMaker
      else .error (.code EInvalidFillType)
    | _ => .error .vm
  else refund w t packet.sourceChannelId path order

/-- `acknowledge_internal`; the instruction of a forward is acknowledged with the path of the forward. -/
def acknowledgeInternal (w : World) (t : CoinType) (packet : Packet) (path : U256) (success : Bool)
    (ack : AckData) : Instruction → Result World
  | .mk version opcode operand =>
    if opcode = OP_TOKEN_ORDER then do
      assert (version = INSTR_VERSION_2) EUnsupportedVersion
      match operand with
      | .tokenOrder order => acknowledgeTokenOrder w t packet path order success ack
      | _ => .error .vm
    else if opcode = OP_FORWARD then do
      assert (version = INSTR_VERSION_0) EUnsupportedVersion
      match operand with
      | .forward forwardPath _ _ instruction =>
          acknowledgeInternal w t packet forwardPath success ack instruction
      | _ => .error .vm
    else if opcode = OP_CALL then .error (.code ENoCallOperation)
    else .error (.code EUnknownSyscall)

/-- `timeout_internal`; the instruction of a forward times out with the path of the packet. -/
def timeoutInternal (w : World) (t : CoinType) (packet : Packet) (path : U256) : Instruction → Result World
  | .mk version opcode operand =>
    if opcode = OP_TOKEN_ORDER then do
      assert (version = INSTR_VERSION_2) EUnsupportedVersion
      match operand with
      | .tokenOrder order => refund w t packet.sourceChannelId path order
      | _ => .error .vm
    else if opcode = OP_FORWARD then do
      assert (version = INSTR_VERSION_0) EUnsupportedVersion
      match operand with
      | .forward _ _ _ instruction => timeoutInternal w t packet path instruction
      | _ => .error .vm
    else if opcode = OP_CALL then .error (.code ENoCallOperation)
    else .error (.code EUnknownSyscall)

end Instructions

end UnionVoyager.Sui
