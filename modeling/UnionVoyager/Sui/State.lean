import UnionVoyager.Sui.Types

/-!
# The objects zkgm works on

`RelayStore` of `zkgm.move` with its coins, the two vaults (`owned_vault`, `escrow_vault`), and the
part of the IBC store that concerns the packets of zkgm.  Every function takes the objects it may
change as a `World` and returns them.

Whether a light client accepts a proof is an argument of the calls.
-/

namespace UnionVoyager.Sui

open Lib Function
open Zkgm (U256 AckData Acknowledgement)

structure ChannelBalancePair where
  channel : UInt32
  path : U256
  token : Bytes
  metadataImage : Bytes
  deriving DecidableEq

/-- `RelayStore`; of `object_store` the coins by their type, and whether the caps of the vaults are in it. -/
structure RelayStore where
  inFlightPacket : Bytes → Option Packet
  channelBalance : ChannelBalancePair → Option Nat
  tokenOrigin : Bytes → Option U256
  wrappedDenomToT : Bytes → Option CoinType
  bag : CoinType → Option Nat
  ownedVaultCap : Bool
  escrowVaultCap : Bool

structure FungibleLane where
  token : Bytes
  path : U256
  channel : UInt32
  baseToken : Bytes

/-- `TreasuryCapWithMetadata`: the supply a cap governs. -/
structure Treasury where
  supply : Nat
  metadata : Metadata

structure OwnedVault where
  tokenTypeToTreasury : CoinType → Option Treasury
  intentWhitelists : Bytes → Bytes → Bool
  fungibleCounterparties : FungibleLane → Option Bytes

structure EscrowVault where
  coinBag : CoinType → Option Nat
  intentWhitelists : Bytes → Bytes → Bool
  fungibleCounterparties : FungibleLane → Option Bytes

/-- The commitment of a packet that was sent. -/
inductive Commitment where
  | magic
  | magicAck
  deriving DecidableEq

/-- `IBCStore`: the open channels of zkgm with their counterparties, numbered from one on, and the
    commitments of the packets sent and received, the latter with their acknowledgements. -/
structure IBCStore where
  channels : UInt32 → Option UInt32
  fromOne : channels 0 = none
  sent : Bytes → Option Commitment
  received : Bytes → Option (Option Acknowledgement)

/-- A coin sent to an address. -/
structure Transfer where
  recipient : Address
  coinType : CoinType
  amount : Nat
  deriving DecidableEq

/-- The objects, and the coins that were sent to addresses so far. -/
structure World where
  store : RelayStore
  vault : OwnedVault
  escrow : EscrowVault
  ibc : IBCStore
  transfers : List Transfer

/-! ## Coins of the store -/

/-- `save_coin_to_bag`, with the check of `coin::join` that the sum is an `u64`. -/
def saveCoinToBag (s : RelayStore) (t : CoinType) (value : Nat) : Result RelayStore := do
  let sum ← asU64 ((s.bag t).getD 0 + value)
  pure { s with bag := update s.bag t (some sum) }

/-- `split_coin`: `none` if there is no coin of the type; `coin::split` aborts if it is too small. -/
def splitCoin (s : RelayStore) (t : CoinType) (amount : Nat) : Result (Option RelayStore) :=
  match s.bag t with
  | none => .ok none
  | some value =>
    if amount ≤ value then .ok (some { s with bag := update s.bag t (some (value - amount)) })
    else .error .vm

/-! ## Owned vault -/

def E_NO_TREASURY_CAPABILITY : Nat := 5

def OwnedVault.setSupply (v : OwnedVault) (t : CoinType) (c : Treasury) (supply : Nat) : OwnedVault :=
  { v with tokenTypeToTreasury := update v.tokenTypeToTreasury t (some { c with supply := supply }) }

def OwnedVault.getMetadata (v : OwnedVault) (t : CoinType) : Result Metadata := do
  let c ← orErr (v.tokenTypeToTreasury t) .vm
  pure c.metadata

section Vaults

variable (w : World)

def World.burn (t : CoinType) (value : Nat) : Result World := do
  let c ← orErr (w.vault.tokenTypeToTreasury t) (.code E_NO_TREASURY_CAPABILITY)
  ensure (value ≤ c.supply) .vm
  pure { w with vault := w.vault.setSupply t c (c.supply - value) }

/-- `mint`; `balance::increase_supply` wants the new supply below the largest `u64`. -/
def World.mint (t : CoinType) (amount : Nat) (recipient : Address) : Result World := do
  let c ← orErr (w.vault.tokenTypeToTreasury t) (.code E_NO_TREASURY_CAPABILITY)
  ensure (c.supply + amount < 2 ^ 64 - 1) .vm
  pure { w with
    vault := w.vault.setSupply t c (c.supply + amount)
    transfers := w.transfers ++ [⟨recipient, t, amount⟩] }

/-- `unescrow` of the escrow vault. -/
def World.unescrow (t : CoinType) (amount : Nat) (recipient : Address) : Result World := do
  let value ← orErr (w.escrow.coinBag t) .vm
  ensure (amount ≤ value) .vm
  pure { w with
    escrow := { w.escrow with coinBag := update w.escrow.coinBag t (some (value - amount)) }
    transfers := w.transfers ++ [⟨recipient, t, amount⟩] }

/-- `escrow` of the escrow vault. -/
def World.escrowCoin (t : CoinType) (value : Nat) : Result World := do
  let sum ← asU64 ((w.escrow.coinBag t).getD 0 + value)
  pure { w with escrow := { w.escrow with coinBag := update w.escrow.coinBag t (some sum) } }

end Vaults

def E_INVALID_QUOTE_TOKEN : Nat := 6
def E_INTENT_WHITELISTED_ONLY : Nat := 3
def E_BASE_AMOUNT_MUST_COVER_QUOTE_AMOUNT : Nat := 4
def E_ONLY_MAKER : Nat := 0xdeadc0de

/-- The checks that `solve` of both vaults makes: the beneficiary of the lane, or the code it returns. -/
def solveLane (env : Env) (intentWhitelists : Bytes → Bytes → Bool)
    (counterparties : FungibleLane → Option Bytes)
    (t : CoinType) (packet : Packet) (order : TokenOrderV2) (path : U256) (intent : Bool) :
      Except Nat Bytes :=
  if typeNameToQuoteToken t ≠ order.quoteToken then .error E_INVALID_QUOTE_TOKEN
  else if intent ∧ ¬ intentWhitelists order.quoteToken (env.commitPacket packet) then
    .error E_INTENT_WHITELISTED_ONLY
  else
    match counterparties ⟨order.quoteToken, path, packet.destinationChannelId, order.baseToken⟩ with
    | none => .error E_ONLY_MAKER
    | some beneficiary =>
      if order.baseAmount < order.quoteAmount then .error E_BASE_AMOUNT_MUST_COVER_QUOTE_AMOUNT
      else .ok beneficiary

/-- `if (amount > 0) { .. }`. -/
def World.ifPositive (w : World) (amount : Nat) (x : Result World) : Result World :=
    if 0 < amount then x else .ok w

/-- The payments both vaults make: the fee to the relayer, then the quote amount to the receiver. -/
def payOrder (pay : World → Nat → Address → Result World) (w : World) (order : TokenOrderV2)
    (relayer : Address) : Result World := do
  let fee := order.baseAmount - order.quoteAmount
  let w ← w.ifPositive fee do pay w (← asU64 fee) relayer
  w.ifPositive order.quoteAmount do
    let receiver ← peelAddress order.receiver
    pay w (← asU64 order.quoteAmount) receiver

section

variable (env : Env) (w : World) (t : CoinType) (packet : Packet) (order : TokenOrderV2)
  (path : U256) (relayer : Address) (intent : Bool)

/-- `solve` of the owned vault: what it pays is minted. -/
def World.ownedSolve : Result ((Bytes × Nat) × World) :=
  match solveLane env w.vault.intentWhitelists w.vault.fungibleCounterparties t packet order path intent with
  | .error code => .ok (([], code), w)
  | .ok beneficiary => do
    let _ ← orErr (w.vault.tokenTypeToTreasury t) (.code E_NO_TREASURY_CAPABILITY)
    let w ← payOrder (fun w => w.mint t) w order relayer
    pure ((beneficiary, 0), w)

/-- `solve` of the escrow vault: what it pays are its own coins. -/
def World.escrowSolve : Result ((Bytes × Nat) × World) :=
  match solveLane env w.escrow.intentWhitelists w.escrow.fungibleCounterparties t packet order path
    intent with
  | .error code => .ok (([], code), w)
  | .ok beneficiary => do
    let w ← payOrder (fun w => w.unescrow t) w order relayer
    pure ((beneficiary, 0), w)

end

/-! ## IBC store -/

def EAckLenMismatch : Nat := 10401
def EMakerMsgLenMismatch : Nat := 10402
def EPacketCommitmentNotFound : Nat := 10403
def EPacketAlreadyAcknowledged : Nat := 10404
def EAckAlreadyExist : Nat := 10405
def EPacketNotReceived : Nat := 10406
def EAlreadyReceived : Nat := 10408
def ETimestampTimeout : Nat := 10409
def ETimeoutHeightNotSupported : Nat := 10410
def EBatchSameChannelOnly : Nat := 10411
def EChannelNotFound : Nat := 10415
def ENotEnoughPackets : Nat := 10416
def EPacketAlreadySent : Nat := 10417
def EAcknowledgementIsEmpty : Nat := 10418
def ETimestampTimeoutNotReached : Nat := 10419
def ETimeoutMustBeSet : Nat := 10420
def ELatestTimestampNotFound : Nat := 10421

/-- The key a packet that was sent is committed under. -/
def Env.packetKey (env : Env) (p : Packet) : Bytes := env.batchPacketsCommitmentKey (env.commitPacket p)

/-- The key a packet that was received is committed under. -/
def Env.receiptKey (env : Env) (p : Packet) : Bytes := env.batchReceiptsCommitmentKey (env.commitPacket p)

/-- Only bytes that are no encoded acknowledgement can be empty. -/
def Acknowledgement.isEmpty : Acknowledgement → Bool
  | .ack _ _ => false
  | .other bytes => bytes.isEmpty

section IBCStore

variable (env : Env) (i : IBCStore)

/-- `send_packet`; `clock` is in milliseconds. -/
def IBCStore.sendPacket (clock : Nat) (sourceChannel : UInt32)
    (timeoutHeight timeoutTimestamp : Nat) (data : Data) : Result (Packet × IBCStore) := do
  let counterparty ← orErr (i.channels sourceChannel) (.code EChannelNotFound)
  assert (timeoutHeight = 0) ETimeoutHeightNotSupported
  assert ((← asU64 (clock * 1000000)) < timeoutTimestamp) ETimestampTimeout
  let packet : Packet := ⟨sourceChannel, counterparty, data, timeoutHeight, timeoutTimestamp⟩
  assert (i.sent (env.packetKey packet) = none) EPacketAlreadySent
  pure (packet, { i with sent := update i.sent (env.packetKey packet) (some .magic) })

def IBCStore.innerWriteAcknowledgement (key : Bytes) (ack : Acknowledgement) : Result IBCStore := do
  let commitment ← orErr (i.received key) (.code EPacketNotReceived)
  assert (commitment.isNone) EAckAlreadyExist
  pure { i with received := update i.received key (some (some ack)) }

/-- The body of the loop of `process_receive`. -/
def IBCStore.receive (clock : Nat) (destinationChannel : UInt32) (p : Packet) (ack : Acknowledgement) :
    Result IBCStore := do
  assert (p.destinationChannelId = destinationChannel) EBatchSameChannelOnly
  assert (p.timeoutHeight = 0) ETimeoutHeightNotSupported
  assert ((← asU64 (clock * 1000000)) < p.timeoutTimestamp) ETimestampTimeout
  assert (i.received (env.receiptKey p) = none) EAlreadyReceived
  let i := { i with received := update i.received (env.receiptKey p) (some none) }
  if Acknowledgement.isEmpty ack then pure i else i.innerWriteAcknowledgement (env.receiptKey p) ack

/-- `recv_packet`; `verified` is the answer of the light client. -/
def IBCStore.recvPacket (clock : Nat) (packets : List Packet) (makerMsgs : List Bytes)
    (acknowledgements : List Acknowledgement) (verified : Bool) : Result IBCStore := do
  let first ← orErr packets.head? (.code ENotEnoughPackets)
  assert (packets.length = acknowledgements.length) EAckLenMismatch
  assert (packets.length = makerMsgs.length) EMakerMsgLenMismatch
  let _ ← orErr (i.channels first.destinationChannelId) (.code EChannelNotFound)
  ensure (verified = true) .vm
  (packets.zip acknowledgements).foldlM (fun i (p, ack) =>
    i.receive env clock first.destinationChannelId p ack) i

def IBCStore.writeAcknowledgement (p : Packet) (ack : Acknowledgement) : Result IBCStore := do
  assert (¬ Acknowledgement.isEmpty ack) EAcknowledgementIsEmpty
  let _ ← orErr (i.channels p.destinationChannelId) (.code EChannelNotFound)
  i.innerWriteAcknowledgement (env.receiptKey p) ack

def IBCStore.setPacketAcknowledged (key : Bytes) : Result IBCStore := do
  let commitment ← orErr (i.sent key) (.code EPacketCommitmentNotFound)
  assert (commitment = .magic) EPacketAlreadyAcknowledged
  pure { i with sent := update i.sent key (some .magicAck) }

def IBCStore.acknowledgePacket (packets : List Packet) (verified : Bool) : Result IBCStore := do
  let first ← orErr packets.head? (.code ENotEnoughPackets)
  let _ ← orErr (i.channels first.sourceChannelId) (.code EChannelNotFound)
  ensure (verified = true) .vm
  packets.foldlM (fun i p => do
    assert (p.sourceChannelId = first.sourceChannelId) EBatchSameChannelOnly
    i.setPacketAcknowledged (env.packetKey p)) i

/-- `timeout_packet`; `proofTimestamp` is the time the light client has for the height of the proof. -/
def IBCStore.timeoutPacket (p : Packet) (proofTimestamp : Nat) (verified : Bool) : Result IBCStore := do
  let _ ← orErr (i.channels p.sourceChannelId) (.code EChannelNotFound)
  assert (proofTimestamp ≠ 0) ELatestTimestampNotFound
  ensure (verified = true) .vm
  assert (p.timeoutTimestamp ≠ 0) ETimeoutMustBeSet
  assert (p.timeoutTimestamp < proofTimestamp) ETimestampTimeoutNotReached
  i.setPacketAcknowledged (env.packetKey p)

end IBCStore

end UnionVoyager.Sui
