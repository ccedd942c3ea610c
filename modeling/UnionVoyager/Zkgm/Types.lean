import UnionVoyager.Core.Path
import Mathlib.Data.BitVec

/-!
# Data model of the zkgm app

The types of `ucs03-zkgm/src/com.rs`, the error type of `lib.rs`, and the messages the contract
sends: to itself, to the token minter, to the IBC host, to called contracts and to solvers.

Wherever the source holds bytes that `abi_encode_params` wrote and `abi_decode_params_validate`
reads, the model holds the value: validated decoding accepts the encoding of the value it returns
only, so an operand is the encoding of one value of the type its opcode and version select, or it
does not decode (`Operand.other`).
-/

namespace UnionVoyager.Zkgm

open Lib
open Core (ChannelId NonZeroU32 Timestamp Addr H256 Coin MustBeZero)

abbrev U256 := BitVec 256

/-! ## Instructions -/

structure TokenOrderV1 where
  sender : Bytes
  receiver : Bytes
  baseToken : Bytes
  baseAmount : Nat
  baseTokenSymbol : String
  baseTokenName : String
  baseTokenDecimals : UInt8
  baseTokenPath : U256
  quoteToken : Bytes
  quoteAmount : Nat

/-- The metadata of an order: `TokenMetadata` and `SolverMetadata` are both a pair of byte strings,
    so what decodes as one decodes as the other. -/
inductive OrderMetadata where
  | pair (first second : Bytes)
  | other (bytes : Bytes)

structure TokenMetadata where
  implementation : Bytes
  initializer : Bytes

structure SolverMetadata where
  solverAddress : Bytes
  metadata : Bytes

def OrderMetadata.asToken : OrderMetadata → Option TokenMetadata
  | .pair a b => some ⟨a, b⟩
  | .other _ => none

def OrderMetadata.asSolver : OrderMetadata → Option SolverMetadata
  | .pair a b => some ⟨a, b⟩
  | .other _ => none

structure TokenOrderV2 where
  sender : Bytes
  receiver : Bytes
  baseToken : Bytes
  baseAmount : Nat
  quoteToken : Bytes
  quoteAmount : Nat
  kind : UInt8
  metadata : OrderMetadata

structure Call where
  sender : Bytes
  eureka : Bool
  contractAddress : Bytes
  contractCalldata : Bytes

mutual

inductive Instruction where
  | mk (version opcode : UInt8) (operand : Operand)

inductive Operand where
  | forward (path : U256) (timeoutHeight timeoutTimestamp : Nat) (instruction : Instruction)
  | call (call : Call)
  | batch (instructions : List Instruction)
  | tokenOrderV1 (order : TokenOrderV1)
  | tokenOrderV2 (order : TokenOrderV2)
  | other (bytes : Bytes)

end

def Instruction.opcode : Instruction → UInt8
  | .mk _ opcode _ => opcode

def INSTR_VERSION_0 : UInt8 := 0x00
def INSTR_VERSION_1 : UInt8 := 0x01
def INSTR_VERSION_2 : UInt8 := 0x02

def OP_FORWARD : UInt8 := 0x00
def OP_CALL : UInt8 := 0x01
def OP_BATCH : UInt8 := 0x02
def OP_TOKEN_ORDER : UInt8 := 0x03

def TOKEN_ORDER_KIND_INITIALIZE : UInt8 := 0x00
def TOKEN_ORDER_KIND_ESCROW : UInt8 := 0x01
def TOKEN_ORDER_KIND_UNESCROW : UInt8 := 0x02
def TOKEN_ORDER_KIND_SOLVE : UInt8 := 0x03

/-! ## Packets and acknowledgements -/

structure ZkgmPacket where
  salt : U256
  path : U256
  instruction : Instruction

/-- Packet data: an encoded `ZkgmPacket`, the `encode_call_calldata` of a virtual packet, or bytes
    that are neither. -/
inductive Data where
  | zkgm (packet : ZkgmPacket)
  | callCalldata (path : U256) (sender calldata : Bytes)
  | other (bytes : Bytes)

structure Packet where
  sourceChannelId : ChannelId
  destinationChannelId : ChannelId
  data : Data
  timeoutHeight : MustBeZero
  timeoutTimestamp : Timestamp

/-- The acknowledgement of one instruction: the bytes a contract answered with, a `TokenOrderAck`
    or a `BatchAck`. -/
inductive AckData where
  | raw (bytes : Bytes)
  | tokenOrderAck (fillType : U256) (marketMaker : Bytes)
  | batchAck (acknowledgements : List AckData)

/-- The acknowledgement of a packet: an encoded `Ack`, or bytes that are not one. -/
inductive Acknowledgement where
  | ack (tag : U256) (innerAck : AckData)
  | other (bytes : Bytes)

def TAG_ACK_FAILURE : U256 := 0
def TAG_ACK_SUCCESS : U256 := 1

def FILL_TYPE_PROTOCOL : U256 := 0xB0CAD0
def FILL_TYPE_MARKETMAKER : U256 := 0xD1CEC45E

def ACK_ERR_ONLY_MAKER : Bytes := [0xDE, 0xAD, 0xC0, 0xDE]

/-- `ack.is_empty()`; the other two forms encode to at least one word. -/
def AckData.isEmpty : AckData → Bool
  | .raw b => b.isEmpty
  | .tokenOrderAck _ _ => false
  | .batchAck _ => false

/-- `ack == ACK_ERR_ONLY_MAKER`; the other two forms encode to more than four bytes. -/
def AckData.isOnlyMaker : AckData → Bool
  | .raw b => b == ACK_ERR_ONLY_MAKER
  | .tokenOrderAck _ _ => false
  | .batchAck _ => false

/-- `Ack { tag: TAG_ACK_FAILURE, inner_ack: Default::default() }`. -/
def Acknowledgement.failure : Acknowledgement := .ack TAG_ACK_FAILURE (.raw [])

/-- `Ack { tag: TAG_ACK_SUCCESS, inner_ack }`. -/
def Acknowledgement.success (innerAck : AckData) : Acknowledgement := .ack TAG_ACK_SUCCESS innerAck

/-! ## Errors -/

/-- The errors of `ContractError` the modelled functions return. -/
inductive ContractError where
  | std
  | onlyIbcHost
  | onlySelf
  | alloy
  | unsupportedVersion (version : UInt8)
  | unknownOpcode (opcode : UInt8)
  | onlyMaker
  | alreadyExecuting
  | amountOverflow
  | invalidQuoteToken
  | invalidSolverAddress
  | invalidBaseToken
  | invalidChannelBalance
  | invalidReceiver
  | invalidSender
  | unableToValidateReceiver
  | unableToValidateMarketMaker
  | unableToValidateSender
  | invalidContractAddress
  | unableToValidateCallTarget
  | invalidForwardDestinationChannelId (actual : Option ChannelId) (expected : ChannelId)
  | missingForwardSourceChannelId
  | forwardedPacketMissingInReply
  | couldNotDeserializeSentPacket
  | asyncCallUnsupported
  | callError
  | channelPathIsFull (path : U256) (nextHopIndex : Nat)
  | invalidAssetOrigin (actual expected : U256)
  | invalidAssetName (expected found : String)
  | invalidAssetSymbol (expected found : String)
  | invalidAssetDecimals (expected found : UInt8)
  | invalidBatchInstruction
  | invalidForwardInstruction
  | invalidCallSender
  | batchMustBeSync
  | invalidTokenOrderKind
  | invalidTokenOrderUnescrow
  | invalidFillType (fillType : U256)
  | tokenBucketIsAbsent (token : String)
  | rateLimitExceeded
  deriving DecidableEq

/-- How a message can fail: with an error of the contract, by a panic at a named site, or because a
    contract it was sent to failed. -/
inductive Failure where
  | err (e : ContractError)
  | panic (site : String)
  | external
  | outOfFuel
  deriving DecidableEq

abbrev Result (α : Type) := Except Failure α

/-- `return Err(e)` unless `p`. -/
def require (p : Prop) [Decidable p] (e : ContractError) : Result Unit := ensure p (.err e)

/-- `ok_or(e)?`. -/
def okOr {α : Type} (o : Option α) (e : ContractError) : Result α := orErr o (.err e)

@[simp] theorem require_eq_ok {p : Prop} [Decidable p] {e : ContractError} {u : Unit} :
    require p e = .ok u ↔ p := ensure_eq_ok

@[simp] theorem okOr_eq_ok {α : Type} {o : Option α} {e : ContractError} {a : α} :
    okOr o e = .ok a ↔ o = some a := orErr_eq_ok

/-! ## Messages -/

/-- `LocalTokenMsg` and `WrappedTokenMsg` of the token minter. -/
inductive MinterMsg where
  | escrow (sender denom recipient : String) (amount : Nat)
  | unescrow (denom recipient : String) (amount : Nat)
  | createDenom (subdenom name symbol : String) (decimals : UInt8) (path : U256)
      (channelId : ChannelId) (token : Bytes)
  | createDenomV2 (subdenom : String) (path : U256) (channelId : ChannelId) (token : Bytes)
      (implementation initializer : Bytes)
  | mintTokens (denom : String) (amount : Nat) (mintToAddress : Addr)
  | burnTokens (denom : String) (amount : Nat) (burnFromAddress sender : Addr)

/-- `make_wasm_msg(msg, minter, funds)`. -/
structure MinterCall where
  minter : Addr
  msg : MinterMsg
  funds : List Coin

structure MsgSendPacket where
  sourceChannelId : ChannelId
  timeoutTimestamp : Timestamp
  data : Data

/-- What zkgm sends to a called contract, or back to the contract that made a call. -/
inductive CallMsg where
  | onRecvPacket (caller : Addr) (packet : Packet) (relayer : Addr) (relayerMsg : Bytes)
  | onIntentRecvPacket (caller : Addr) (packet : Packet) (marketMaker : Addr) (marketMakerMsg : Bytes)
  | onZkgm (caller : Addr) (path : U256) (sourceChannelId destinationChannelId : ChannelId)
      (sender message : Bytes) (relayer : Addr) (relayerMsg : Bytes)
  | onIntentZkgm (caller : Addr) (path : U256) (sourceChannelId destinationChannelId : ChannelId)
      (sender message : Bytes) (marketMaker : Addr) (marketMakerMsg : Bytes)
  | onAcknowledgementPacket (caller : Addr) (packet : Packet) (acknowledgement : AckData)
      (relayer : Addr)
  | onTimeoutPacket (caller : Addr) (packet : Packet) (relayer : Addr)

structure DoSolve where
  packet : Packet
  order : TokenOrderV2
  path : U256
  caller : Addr
  relayer : Addr
  relayerMsg : Bytes
  intent : Bool

structure CallProxySalt where
  path : U256
  channelId : ChannelId
  sender : Bytes

/-- The three messages that set up a proxy account. -/
inductive AccountMsg where
  | instantiate2 (codeId : Nat) (salt : CallProxySalt)
  | migrate (contract : Addr) (newCodeId : Nat) (salt : CallProxySalt)
  | updateAdmin (contract admin : Addr)

/-- A message of a response.  The messages of an `InternalBatch` are always calls of the minter. -/
inductive CosmosMsg where
  | minter (call : MinterCall)
  | packetSend (msg : MsgSendPacket)
  | writeAcknowledgement (packet : Packet) (acknowledgement : Acknowledgement)
  | contract (address : Addr) (msg : CallMsg)
  | solver (address : String) (msg : DoSolve)
  | account (msg : AccountMsg)
  | internalExecutePacket (caller : Addr) (packet : Packet) (relayer : Addr) (relayerMsg : Bytes)
      (intent : Bool) (funds : List Coin)
  | internalWriteAck (ack : AckData)
  | internalBatch (messages : List MinterCall)

inductive ReplyId where
  | execute
  | forward
  | call
  | mmRelayerFill
  | mmSolverFill
  deriving DecidableEq

inductive ReplyOn where
  | always
  | success

/-- A message with the reply that was asked for, if any (`reply_never`). -/
structure SubMsg where
  msg : CosmosMsg
  reply : Option (ReplyOn × ReplyId)

/-- The messages of a response, in order. -/
abbrev Response := List SubMsg

/-- `add_message`. -/
def CosmosMsg.plain (msg : CosmosMsg) : SubMsg := ⟨msg, none⟩

end UnionVoyager.Zkgm
