import UnionVoyager.Lib.Escrow
import UnionVoyager.Sui.Calls

/-!
# Transactions of zkgm on Sui

A state is the world with the contexts the current transaction still holds, and beside it a record of what was
taken for the packets sent and of what was given back for those refunded.  A step is one call of a public
function by anyone.  A transaction that aborts leaves the state it began in.

* `State`, `Call`, `step` — the machine.
-/

namespace UnionVoyager.Sui

open Lib
open Zkgm (U256 AckData Acknowledgement OP_FORWARD OP_TOKEN_ORDER INSTR_VERSION_0 INSTR_VERSION_2
  TOKEN_ORDER_KIND_UNESCROW TOKEN_ORDER_KIND_SOLVE FILL_TYPE_MARKETMAKER TAG_ACK_SUCCESS)

/-! ## What is taken for an instruction -/

/-- The order of an instruction, also inside a forward. -/
def Instruction.order : Instruction → Option TokenOrderV2
  | .mk _ _ (.tokenOrder order) => some order
  | .mk _ _ (.forward _ _ _ instruction) => instruction.order
  | .mk _ _ (.batch _) => none
  | .mk _ _ (.other _) => none

/-- The path its balance is under, for an instruction under `path`. -/
def Instruction.orderPath (path : U256) : Instruction → U256
  | .mk _ _ (.tokenOrder _) => path
  | .mk _ _ (.forward forwardPath _ _ instruction) => instruction.orderPath forwardPath
  | .mk _ _ (.batch _) => path
  | .mk _ _ (.other _) => path

/-- An order with the balance it is under and the type of the coin it was called with. -/
structure Taking where
  channel : UInt32
  path : U256
  order : TokenOrderV2
  coinType : CoinType

def Taking.key (k : Taking) : ChannelBalancePair := ⟨k.channel, k.path, k.order.baseToken, k.order.quoteToken⟩

def takingOf (channel : UInt32) (path : U256) (instruction : Instruction) (t : CoinType) : Option Taking :=
  instruction.order.map fun order => ⟨channel, instruction.orderPath path, order, t⟩

/-- For a timeout, which does not go by the path of a forward. -/
def timeoutTakingOf (channel : UInt32) (path : U256) (instruction : Instruction) (t : CoinType) :
    Option Taking :=
  instruction.order.map fun order => ⟨channel, path, order, t⟩

/-! ## The machine -/

/-- A context of the current transaction, with what was taken or given back under it; a context of
    acknowledgements by the position of the packet. -/
inductive Open where
  | send (ctx : SendCtx) (takings : List Taking)
  | recv (ctx : RecvCtx)
  | ack (ctx : AckCtx) (takings : Nat → List Taking)
  | timeout (ctx : TimeoutCtx) (takings : List Taking)

structure State where
  world : World
  opened : List Open
  sent : List (Packet × List Taking)
  /-- Packets that failed or timed out, with what was given back for each. -/
  refunded : List (Packet × List Taking)

inductive Call where
  | beginSend (channelId : UInt32) (salt : Bytes)
  | sendWithCoin (i : Nat) (t : CoinType) (value : Nat) (instruction : Instruction)
  | endSend (i clock timeoutHeight timeoutTimestamp : Nat)
  | beginRecv (packets : List Packet)
  | recvPacket (i : Nat) (t : CoinType) (clock : Nat) (relayer : Address) (relayerMsg : Bytes)
  | endRecv (i clock : Nat) (relayerMsg : Bytes) (verified : Bool)
  | beginAck (packets : List Packet) (acks : List Acknowledgement)
  | acknowledgePacket (i : Nat) (t : CoinType)
  | endAck (i : Nat) (verified : Bool)
  | beginTimeout (packet : Packet)
  | timeoutPacket (i : Nat) (t : CoinType)
  | endTimeout (i proofTimestamp : Nat) (verified : Bool)
  /-- Whatever happens to the vaults and the channels outside of zkgm, and the registration of the caps. -/
  | outside (vault : OwnedVault) (escrow : EscrowVault) (channels : UInt32 → Option UInt32)
      (fromOne : channels 0 = none) (ownedVaultCap escrowVaultCap : Bool)

def passed (before after : ZkgmPacketAckCtx) : List Instruction :=
  (before.instructionSet.drop before.cursor).take (after.cursor - before.cursor)

/-- What an acknowledged context gave back for the packets that failed. -/
def AckCtx.refunds (ctx : AckCtx) (takings : Nat → List Taking) : List (Packet × List Taking) :=
  ctx.packets.zipIdx.filterMap fun (p, j) =>
    match ctx.acks[j]? with
    | some (.ack tag _) => if tag = TAG_ACK_SUCCESS then none else some (p, takings j)
    | _ => none

section Step

variable (env : Env)

/-- What a call of `acknowledge_packet` adds to the record of its context. -/
def ackTakings (before after : AckCtx) (t : CoinType) (takings : Nat → List Taking) : Nat → List Taking :=
  match before.packets[before.cursor]?, before.packetCtxs[before.cursor]?,
    after.packetCtxs[before.cursor]? with
  | some packet, some ctx, some ctx' =>
    Function.update takings before.cursor (takings before.cursor ++
      (passed ctx ctx').filterMap fun i => takingOf packet.sourceChannelId ctx.path i t)
  | _, _, _ => takings

def step (s : State) : Call → Result State
  | .beginSend channelId salt => .ok { s with opened := s.opened ++ [.send (beginSend channelId salt) []] }
  | .sendWithCoin i t value instruction =>
    match s.opened[i]? with
    | some (.send ctx takings) => do
      let (ctx', w) ← sendWithCoin env s.world t value instruction ctx
      let taken := (takingOf ctx.channelId 0 instruction t).toList
      pure { s with world := w, opened := s.opened.set i (.send ctx' (takings ++ taken)) }
    | _ => .error .vm
  | .endSend i clock timeoutHeight timeoutTimestamp =>
    match s.opened[i]? with
    | some (.send ctx takings) => do
      let (packet, w) ← endSend env s.world clock timeoutHeight timeoutTimestamp ctx
      pure { s with world := w, opened := s.opened.eraseIdx i, sent := s.sent ++ [(packet, takings)] }
    | _ => .error .vm
  | .beginRecv packets => do
    let ctx ← beginRecv env packets
    pure { s with opened := s.opened ++ [.recv ctx] }
  | .recvPacket i t clock relayer relayerMsg =>
    match s.opened[i]? with
    | some (.recv ctx) => do
      let (ctx', w) ← recvPacket env s.world t clock relayer relayerMsg ctx
      pure { s with world := w, opened := s.opened.set i (.recv ctx') }
    | _ => .error .vm
  | .endRecv i clock relayerMsg verified =>
    match s.opened[i]? with
    | some (.recv ctx) => do
      let w ← endRecv env s.world clock relayerMsg verified ctx
      pure { s with world := w, opened := s.opened.eraseIdx i }
    | _ => .error .vm
  | .beginAck packets acks => do
    let ctx ← beginAck env packets acks
    pure { s with opened := s.opened ++ [.ack ctx fun _ => []] }
  | .acknowledgePacket i t =>
    match s.opened[i]? with
    | some (.ack ctx takings) => do
      let (ctx', w) ← acknowledgePacket env s.world t ctx
      pure { s with world := w, opened := s.opened.set i (.ack ctx' (ackTakings ctx ctx' t takings)) }
    | _ => .error .vm
  | .endAck i verified =>
    match s.opened[i]? with
    | some (.ack ctx takings) => do
      let w ← endAck env s.world verified ctx
      pure { s with
        world := w
        opened := s.opened.eraseIdx i
        refunded := s.refunded ++ ctx.refunds takings }
    | _ => .error .vm
  | .beginTimeout packet => do
    let ctx ← beginTimeout env packet
    pure { s with opened := s.opened ++ [.timeout ctx []] }
  | .timeoutPacket i t =>
    match s.opened[i]? with
    | some (.timeout ctx takings) => do
      let (ctx', w) ← timeoutPacket env s.world t ctx
      let given := (passed ctx.packetCtx ctx'.packetCtx).filterMap fun i =>
        timeoutTakingOf ctx.packet.sourceChannelId ctx.packetCtx.path i t
      pure { s with world := w, opened := s.opened.set i (.timeout ctx' (takings ++ given)) }
    | _ => .error .vm
  | .endTimeout i proofTimestamp verified =>
    match s.opened[i]? with
    | some (.timeout ctx takings) => do
      let w ← endTimeout env s.world proofTimestamp verified ctx
      pure { s with
        world := w
        opened := s.opened.eraseIdx i
        refunded := s.refunded ++ [(ctx.packet, takings)] }
    | _ => .error .vm
  | .outside vault escrow channels fromOne ownedVaultCap escrowVaultCap =>
    .ok { s with
      world := { s.world with
        vault := vault
        escrow := escrow
        store := { s.world.store with ownedVaultCap := ownedVaultCap, escrowVaultCap := escrowVaultCap }
        ibc := { s.world.ibc with channels := channels, fromOne := fromOne } } }

end Step

/-! ## Calls that fit their orders -/

/-- The coin type an order is about: the one its base token names, or the one that was claimed for its wrapped
    token. -/
def Owns (s : RelayStore) (order : TokenOrderV2) (t : CoinType) : Prop :=
  if order.kind = TOKEN_ORDER_KIND_UNESCROW then s.wrappedDenomToT order.baseToken = some t
  else order.baseToken = typeNameToQuoteToken t

/-- The balance is there and large enough. -/
def Covers (s : RelayStore) (pair : ChannelBalancePair) (amount : Nat) : Prop :=
  ∃ balance, s.channelBalance pair = some balance ∧ amount ≤ balance

/-- The coin handed in is that of the order. -/
def SendFits (s : RelayStore) (t : CoinType) (value : Nat) (instruction : Instruction) : Prop :=
  ∀ order, instruction.order = some order → value = order.baseAmount ∧ Owns s order t

/-- An order that is received asks for the coin type it names, and not for coins of the store if it is for a
    market maker. -/
def ExecuteFits (env : Env) (w : World) (t : CoinType) (packet : Packet) (path : U256) : Instruction → Prop
  | .mk _ _ (.tokenOrder order) =>
    if order.kind = TOKEN_ORDER_KIND_UNESCROW then
      ∀ reversed, reverseChannelPath path = .ok reversed →
        Covers w.store ⟨packet.destinationChannelId, reversed, order.quoteToken, order.baseToken⟩
          order.baseAmount →
        order.quoteToken = typeNameToQuoteToken t
    else
      order.kind = TOKEN_ORDER_KIND_SOLVE ∨ order.quoteAmount = 0 ∨ w.store.bag t = none ∨
        ∀ wrapped metadata, wrappedTokenOf env packet path order = .ok (.ok (wrapped, metadata)) →
          order.quoteToken = wrapped ∧ order.quoteAmount ≤ order.baseAmount
  | _ => True

/-- An order that is acknowledged is settled in its coin type, and refunded from a balance that covers it. -/
def AckFits (s : RelayStore) (t : CoinType) (channel : UInt32) (path : U256) (success : Bool)
    (ack : AckData) (instruction : Instruction) : Prop :=
  ∀ order, instruction.order = some order →
    (success = true → ∀ maker, ack = .tokenOrderAck FILL_TYPE_MARKETMAKER maker → Owns s order t) ∧
    (success = false → Owns s order t ∧ (order.kind ≠ TOKEN_ORDER_KIND_UNESCROW →
      Covers s ⟨channel, instruction.orderPath path, order.baseToken, order.quoteToken⟩ order.baseAmount))

/-- An order that times out is refunded in its coin type, from a balance that covers it, and its
    path is that of the packet. -/
def TimeoutFits (s : RelayStore) (t : CoinType) (channel : UInt32) (path : U256)
    (instruction : Instruction) : Prop :=
  ∀ order, instruction.order = some order →
    Owns s order t ∧ instruction.orderPath path = path ∧ (order.kind ≠ TOKEN_ORDER_KIND_UNESCROW →
      Covers s ⟨channel, path, order.baseToken, order.quoteToken⟩ order.baseAmount)

/-- The packet whose turn it is, with its context. -/
def RecvCtx.current (ctx : RecvCtx) : Option (Packet × ZkgmPacketCtx) := do
  pure (← ctx.packets[ctx.cursor]?, ← ctx.packetCtxs[ctx.cursor]?)

def AckCtx.current (ctx : AckCtx) : Option (Packet × ZkgmPacketAckCtx) := do
  pure (← ctx.packets[ctx.cursor]?, ← ctx.packetCtxs[ctx.cursor]?)

/-- Whether the packet whose turn it is succeeded, and the acknowledgement of the instruction at its
    cursor. -/
def AckCtx.answer (ctx : AckCtx) : Result (Bool × AckData) := do
  let (tag, innerAck) ← decodeAck (← orErr ctx.acks[ctx.cursor]? .vm)
  let packetCtx ← orErr ctx.packetCtxs[ctx.cursor]? .vm
  let inner ← innerAckAt (← batchAcksOf packetCtx innerAck) tag innerAck packetCtx.cursor
  pure (tag == TAG_ACK_SUCCESS, inner)

/-- The condition on a call: its coins are those of its order, and a salt fills one word. -/
def Fits (env : Env) (s : State) : Call → Prop
  | .sendWithCoin _ t value instruction => SendFits s.world.store t value instruction
  | .endSend i _ _ _ => ∀ ctx takings, s.opened[i]? = some (.send ctx takings) →
    0 < ctx.salt.length ∧ ctx.salt.length ≤ 32
  | .recvPacket i t _ _ _ => ∀ ctx packet packetCtx, s.opened[i]? = some (.recv ctx) →
    ctx.current = some (packet, packetCtx) → packetCtx.failure = false →
    ∀ instruction, packetCtx.instructionSet[packetCtx.cursor]? = some instruction →
      ExecuteFits env s.world t packet packetCtx.path instruction
  | .acknowledgePacket i t => ∀ ctx takings packet packetCtx success ack,
    s.opened[i]? = some (.ack ctx takings) →
    ctx.current = some (packet, packetCtx) → ctx.answer = .ok (success, ack) →
    ∀ instruction, packetCtx.instructionSet[packetCtx.cursor]? = some instruction →
      AckFits s.world.store t packet.sourceChannelId packetCtx.path success ack instruction
  | .timeoutPacket i t => ∀ ctx takings, s.opened[i]? = some (.timeout ctx takings) →
    ∀ instruction, ctx.packetCtx.instructionSet[ctx.packetCtx.cursor]? = some instruction →
      TimeoutFits s.world.store t ctx.packet.sourceChannelId ctx.packetCtx.path instruction
  | _ => True

/-- The IBC store is faithful: a packet that is completed has no key in common with another one sent. -/
def Faithful (env : Env) (s : State) : Call → Prop
  | .endAck i _ => ∀ ctx takings, s.opened[i]? = some (.ack ctx takings) → ∀ p ∈ ctx.packets, ∀ r ∈ s.sent,
    env.packetKey r.1 = env.packetKey p → r.1 = p
  | .endTimeout i _ _ => ∀ ctx takings, s.opened[i]? = some (.timeout ctx takings) → ∀ r ∈ s.sent,
    env.packetKey r.1 = env.packetKey ctx.packet → r.1 = ctx.packet
  | _ => True

def RelayStore.empty : RelayStore where
  inFlightPacket _ := none
  channelBalance _ := none
  tokenOrigin _ := none
  wrappedDenomToT _ := none
  bag _ := none
  ownedVaultCap := false
  escrowVaultCap := false

/-- The states that calls which fit lead to, from the publication of zkgm on. -/
inductive Reachable (env : Env) : State → Prop
  | init (w : World) : w.store = .empty → (∀ key, w.ibc.sent key = none) → Reachable env ⟨w, [], [], []⟩
  | call {s s' : State} {c : Call} : Reachable env s → Fits env s c → Faithful env s c →
    step env s c = .ok s' → Reachable env s'

end UnionVoyager.Sui
