import UnionVoyager.Lib.Varint
import UnionVoyager.Zkgm.Receive

/-!
# The contract and its runtime

The entry points `execute` and `reply` of `ucs03-zkgm/src/contract.rs`, and how a CosmWasm chain
runs the messages of a response: one after the other, each with everything it causes; a failing
message is undone, and it fails its parent unless a reply was asked for.  The data of a called
contract reach a reply as the chain wraps them (`executeContractResponse`).

What the contracts zkgm sends messages to do is a parameter, `Outside`.  A called contract or a solver
may come back to zkgm while its message runs, so it also gets the storage; `Keeps` says what it cannot
touch there while a packet is executed.
-/

namespace UnionVoyager.Zkgm

open Lib
open Core (ChannelId Timestamp Addr Coin)

/-! ## Entry points -/

/-- The messages of `ExecuteMsg` that move packets. -/
inductive ExecuteMsg where
  | onRecvPacket (caller : String) (packet : Packet) (relayer : String) (relayerMsg : Bytes)
  | onIntentRecvPacket (caller : String) (packet : Packet) (marketMaker : String)
      (marketMakerMsg : Bytes)
  | onAcknowledgementPacket (caller : String) (packet : Packet) (acknowledgement : Acknowledgement)
      (relayer : String)
  | onTimeoutPacket (caller : String) (packet : Packet) (relayer : String)
  | internalExecutePacket (caller : Addr) (packet : Packet) (relayer : Addr) (relayerMsg : Bytes)
      (intent : Bool)
  | internalWriteAck (ack : AckData)
  | internalBatch (messages : List MinterCall)
  | send (channelId : ChannelId) (timeoutTimestamp : Timestamp) (salt : U256)
      (instruction : Instruction)

/-- `deps.api.addr_validate(s)?`. -/
def addrValidate (env : Env) (s : String) : Result Addr := do
  require (env.validAddr s = true) .std
  pure s

def dispatchExecutePacket (env : Env) (info : MessageInfo) (caller : String) (packet : Packet)
    (relayer : String) (relayerMsg : Bytes) (intent : Bool) (s : State) :
    Result (State × Response) := do
  let caller ← addrValidate env caller
  let relayer ← addrValidate env relayer
  require (s.executingPacket.isNone = true) .alreadyExecuting
  pure ({ s with executingPacket := some packet },
    [⟨.internalExecutePacket caller packet relayer relayerMsg intent info.funds, some (.always, .execute)⟩])

def internalWriteAck (ack : AckData) (s : State) : State :=
  match s.executingPacketIsBatch with
  | some _ => { s with batchExecutionAcks := some ((s.batchExecutionAcks.getD []) ++ [ack]) }
  | none => { s with executionAck := some ack }

def execute (env : Env) (info : MessageInfo) (msg : ExecuteMsg) (s : State) : Result (State × Response) :=
  match msg with
  | .onRecvPacket caller packet relayer relayerMsg => do
    require (info.sender = s.config.ibcHost) .onlyIbcHost
    dispatchExecutePacket env info caller packet relayer relayerMsg false s
  | .onIntentRecvPacket caller packet marketMaker marketMakerMsg => do
    require (info.sender = s.config.ibcHost) .onlyIbcHost
    dispatchExecutePacket env info caller packet marketMaker marketMakerMsg true s
  | .onAcknowledgementPacket caller packet ack relayer => do
    require (info.sender = s.config.ibcHost) .onlyIbcHost
    let caller ← addrValidate env caller
    let relayer ← addrValidate env relayer
    acknowledgePacket env caller packet relayer ack s
  | .onTimeoutPacket caller packet relayer => do
    require (info.sender = s.config.ibcHost) .onlyIbcHost
    let caller ← addrValidate env caller
    let relayer ← addrValidate env relayer
    timeoutPacket env caller packet relayer s
  | .internalExecutePacket caller packet relayer relayerMsg intent => do
    require (info.sender = env.contractAddress) .onlySelf
    executePacket env caller packet relayer relayerMsg intent info.funds s
  | .internalWriteAck ack => do
    require (info.sender = env.contractAddress) .onlySelf
    pure (internalWriteAck ack s, [])
  | .internalBatch messages => do
    require (info.sender = env.contractAddress) .onlySelf
    pure (s, messages.map fun m => (CosmosMsg.minter m).plain)
  | .send channelId timeoutTimestamp salt instruction =>
    send env info channelId timeoutTimestamp salt instruction s

/-! ## The text of a packet -/

/-- A JSON text from its first byte that is no blank. -/
def skipBlank : Bytes → Bytes := List.dropWhile fun c => c = 9 || c = 10 || c = 13 || c = 32

/-- The text begins like a struct: with the elements of an array, or with a field name or the end of
    an object. -/
def opensStruct (text : Bytes) : Bool :=
  match skipBlank text with
  | [] => false
  | c :: rest =>
    if c = 0x7b then (skipBlank rest).head? = some 0x22 || (skipBlank rest).head? = some 0x7d else c = 0x5b

theorem packetText_cons (a b c d e : Bytes) :
    ∃ rest, Core.packetText a b c d e = 0x7b :: rest ∧ 94 ≤ (0x7b :: rest : Bytes).length := by
  refine ⟨(Core.packetText a b c d e).tail, rfl, ?_⟩
  have hlen : (Core.packetText a b c d e).length = 95 +
      (a.length + b.length + c.length + d.length + e.length) := by
    simp only [Core.packetText, List.length_append]
    have h₁ : (utf8 "\x7b\"source_channel_id\":").length = 21 := rfl
    have h₂ : (utf8 ",\"destination_channel_id\":").length = 26 := rfl
    have h₃ : (utf8 ",\"data\":").length = 8 := rfl
    have h₄ : (utf8 ",\"timeout_height\":").length = 18 := rfl
    have h₅ : (utf8 ",\"timeout_timestamp\":").length = 21 := rfl
    have h₆ : (utf8 "\x7d").length = 1 := rfl
    omega
  show 94 ≤ (Core.packetText a b c d e).length
  omega

/-- How `serde_json_wasm` writes a packet, and what a text it reads as one begins with. -/
structure Hashing.Json (H : Hashing) : Prop where
  writes : ∀ p text, H.packetToString p = some text →
    ∃ source destination data height timestamp,
      text = Core.packetText source destination data height timestamp
  reads : ∀ text p, H.packetFromSlice text = some p → opensStruct text = true

/-! ## Replies -/

/-- What a message that succeeded reports back: its data, and the market maker a solver names in its
    events. -/
structure ReplyData where
  data : Bytes
  marketMaker : Option Bytes

def ReplyData.none : ReplyData := ⟨[], .none⟩

/-- The protobuf message `MsgExecuteContractResponse`, in which the chain hands the data of a called
    contract to the reply. -/
def executeContractResponse (data : Bytes) : Bytes :=
  if data = [] then [] else 0x0a :: (leb128 data.length ++ data)

@[simp] theorem isEmpty_executeContractResponse (data : Bytes) :
    (executeContractResponse data).isEmpty = data.isEmpty := by
  cases data <;> rfl

/-- **The message with the text of a packet in it is no text of a packet**: its first byte is a blank,
    the length after it neither a blank nor a bracket, or the bracket that the text begins with. -/
theorem opensStruct_executeContractResponse (a b c d e : Bytes) :
    opensStruct (executeContractResponse (Core.packetText a b c d e)) = false := by
  obtain ⟨rest, htext, hlen⟩ := packetText_cons a b c d e
  rw [htext]
  have hskip : ∀ x : UInt8, x.toNat ≠ 9 → x.toNat ≠ 10 → x.toNat ≠ 13 → x.toNat ≠ 32 → ∀ l : Bytes,
      skipBlank (x :: l) = x :: l := by
    intro x h₁ h₂ h₃ h₄ l
    refine List.dropWhile_cons_of_neg ?_
    simp only [Bool.or_eq_true, decide_eq_true_eq, not_or]
    refine ⟨⟨⟨?_, ?_⟩, ?_⟩, ?_⟩ <;> rintro rfl <;> contradiction
  -- the byte of the length that comes first
  obtain ⟨x, l, hx, hlarge⟩ : ∃ (x : UInt8) (l : Bytes),
      leb128 (0x7b :: rest).length = x :: l ∧ (l = [] ∨ 128 ≤ x.toNat) ∧ 94 ≤ x.toNat := by
    by_cases hsmall : (0x7b :: rest : Bytes).length < 128
    · refine ⟨_, [], leb128_small hsmall, .inl rfl, ?_⟩
      rwa [toNat_ofNat_of_lt (by omega)]
    · have hn : 128 ≤ (0x7b :: rest : Bytes).length := by omega
      have hbyte : (UInt8.ofNat ((0x7b :: rest : Bytes).length % 128 + 128)).toNat =
          (0x7b :: rest : Bytes).length % 128 + 128 := toNat_ofNat_of_lt (by omega)
      exact ⟨_, _, leb128_large hn, .inr (by omega), by omega⟩
  have hfirst : skipBlank (executeContractResponse (0x7b :: rest)) = x :: (l ++ 0x7b :: rest) := by
    show skipBlank (leb128 (0x7b :: rest).length ++ 0x7b :: rest) = _
    rw [hx, List.cons_append, hskip x (by omega) (by omega) (by omega) (by omega)]
  simp only [opensStruct, hfirst]
  split
  · rename_i hbrace
    subst hbrace
    rcases hlarge.1 with rfl | h
    · rfl
    · exact absurd h (by decide)
  · have hne : x ≠ 0x5b := by
      rintro rfl
      exact absurd hlarge.2 (by decide)
    simpa using hne

/-- The loop over the acknowledgements of a batch. -/
def checkAcks : List AckData → Result Unit
  | [] => .ok ()
  | ack :: acks =>
    if ack.isEmpty then
      .error (.err .batchMustBeSync)
    else if ack.isOnlyMaker then
      .error (.err .onlyMaker)
    else
      checkAcks acks

/-- The acknowledgement an execution left in the storage, which is cleared. -/
def collectAck (s : State) : Result (State × AckData) :=
  match s.executingPacketIsBatch with
  | some expectedAcks => do
    let acks ← okOr s.batchExecutionAcks .std
    require (acks.length = expectedAcks) .batchMustBeSync
    checkAcks acks
    pure ({ s with executingPacketIsBatch := none, batchExecutionAcks := none }, .batchAck acks)
  | none => do
    let ack ← okOr s.executionAck .std
    require (ack.isOnlyMaker = false) .onlyMaker
    pure ({ s with executionAck := none }, ack)

/-- `EXECUTE_REPLY_ID`. -/
def replyExecute (result : Option ReplyData) (s : State) : Result (State × Response) := do
  let packet ← okOr s.executingPacket .std
  let s := { s with executingPacket := none }
  match result with
  | some _ =>
    let (s, ack) ← collectAck s
    if ack.isEmpty then
      -- asynchronous, nothing is written
      pure (s, [])
    else
      pure (s, [(CosmosMsg.writeAcknowledgement packet (.success ack)).plain])
  | none => pure (s, [(CosmosMsg.writeAcknowledgement packet .failure).plain])

/-- `FORWARD_REPLY_ID`. -/
def replyForward (env : Env) (result : Option ReplyData) (s : State) : Result (State × Response) :=
  match result with
  | some reply => do
    let sentPacket ← okOr (env.hashing.packetFromSlice reply.data) .couldNotDeserializeSentPacket
    let key := sentPacket.commitmentKey env.hashing
    pure ({ s with inFlightPacket := Function.update s.inFlightPacket key (some sentPacket) }, [])
  | none => .error (.err .forwardedPacketMissingInReply)

/-- `CALL_REPLY_ID`. -/
def replyCall (result : Option ReplyData) (s : State) : Result (State × Response) :=
  match result with
  | some reply => do
    require (reply.data.isEmpty = false) .asyncCallUnsupported
    pure (s, [writeAck (.raw reply.data)])
  | none => .error (.err .callError)

/-- `MM_RELAYER_FILL_REPLY_ID`. -/
def replyRelayerFill (result : Option ReplyData) (s : State) : Result (State × Response) := do
  let marketMaker ← okOr s.marketMaker .std
  let s := { s with marketMaker := none }
  match result with
  | some _ => pure (s, [writeAck (makerAck marketMaker)])
  | none => pure (s, [writeAck (.raw ACK_ERR_ONLY_MAKER)])

/-- `MM_SOLVER_FILL_REPLY_ID`. -/
def replySolverFill (result : Option ReplyData) (s : State) : Result (State × Response) :=
  match result with
  | some ⟨_, some marketMaker⟩ => .ok (s, [writeAck (makerAck marketMaker)])
  | _ => .ok (s, [writeAck (.raw ACK_ERR_ONLY_MAKER)])

/-- `reply`; `none` is the error of the message. -/
def reply (env : Env) (id : ReplyId) (result : Option ReplyData) (s : State) : Result (State × Response) :=
  match id with
  | .execute => replyExecute result s
  | .forward => replyForward env result s
  | .call => replyCall result s
  | .mmRelayerFill => replyRelayerFill result s
  | .mmSolverFill => replySolverFill result s

/-! ## The other contracts -/

/-- The storage items that carry one execution through its messages and replies. -/
structure Slots where
  executingPacket : Option Packet
  executingPacketIsBatch : Option Nat
  executionAck : Option AckData
  batchExecutionAcks : Option (List AckData)
  marketMaker : Option Bytes

def State.slots (s : State) : Slots :=
  ⟨s.executingPacket, s.executingPacketIsBatch, s.executionAck, s.batchExecutionAcks, s.marketMaker⟩

/-- No packet is in execution. -/
def Idle (s : State) : Prop := s.slots = ⟨none, none, none, none, none⟩

/-- What a message that comes back to zkgm while a packet is executed leaves as it is: another packet
    is refused, so the slots are not written. -/
structure Keeps (s s' : State) : Prop where
  config : s'.config = s.config
  slots : s'.slots = s.slots

/-- The minter, the IBC host, called contracts, solvers and the account factory, over a state `X` of
    their own.  `none` is a failure.  Between executions a called contract may have a packet executed;
    zkgm is idle again when it returns. -/
structure Outside (X : Type) where
  minter : X → MinterCall → Option X
  packetSend : X → MsgSendPacket → Option (X × Packet)
  writeAcknowledgement : X → Packet → Acknowledgement → Option X
  contract : State → X → Addr → CallMsg → Option (State × X × Bytes)
  solver : State → X → String → DoSolve → Option (State × X × Option Bytes)
  account : X → AccountMsg → Option X
  contract_keeps : ∀ {s x a m s' x' d}, s.executingPacket ≠ none →
    contract s x a m = some (s', x', d) → Keeps s s'
  solver_keeps : ∀ {s x a m s' x' d}, s.executingPacket ≠ none →
    solver s x a m = some (s', x', d) → Keeps s s'
  contract_idle : ∀ {s x a m s' x' d}, Idle s → contract s x a m = some (s', x', d) → Idle s'

/-- What the IBC host was asked to do in a transaction, and did. -/
inductive HostEvent where
  | sent (packet : Packet)
  | acked (packet : Packet) (acknowledgement : Acknowledgement)

structure World (X : Type) where
  state : State
  ext : X
  log : List HostEvent

/-! ## Running messages -/

section Run

variable {X : Type}

/-- A message that zkgm sends to another contract; a message to itself is not one.  Only the replies to
    a forward and to a call look at the data; the host returns the JSON text of the packet it sent. -/
def runExternal (out : Outside X) (env : Env) (w : World X) : CosmosMsg → Option (World X × ReplyData)
  | .minter call => (out.minter w.ext call).map fun x => ({ w with ext := x }, .none)
  | .packetSend msg => do
      let (x, packet) ← out.packetSend w.ext msg
      let data ← env.hashing.packetToString (packet.toCore env.hashing)
      some ({ w with ext := x, log := w.log ++ [.sent packet] }, ⟨executeContractResponse data, none⟩)
  | .writeAcknowledgement packet ack => (out.writeAcknowledgement w.ext packet ack).map fun x =>
      ({ w with ext := x, log := w.log ++ [.acked packet ack] }, .none)
  | .contract address msg => (out.contract w.state w.ext address msg).map fun r =>
      ({ w with state := r.1, ext := r.2.1 }, ⟨executeContractResponse r.2.2, none⟩)
  | .solver address msg => (out.solver w.state w.ext address msg).map fun r =>
      ({ w with state := r.1, ext := r.2.1 }, ⟨[], r.2.2⟩)
  | .account msg => (out.account w.ext msg).map fun x => ({ w with ext := x }, .none)
  | .internalExecutePacket .. => none
  | .internalWriteAck .. => none
  | .internalBatch .. => none

/-- A message zkgm sends to itself, with the sender and the funds it then sees. -/
def selfMsg (env : Env) : CosmosMsg → Option (MessageInfo × ExecuteMsg)
  | .internalExecutePacket caller packet relayer relayerMsg intent funds =>
    some (⟨env.contractAddress, funds⟩, .internalExecutePacket caller packet relayer relayerMsg intent)
  | .internalWriteAck ack => some (⟨env.contractAddress, []⟩, .internalWriteAck ack)
  | .internalBatch messages => some (⟨env.contractAddress, []⟩, .internalBatch messages)
  | _ => none

/-- The message itself: to zkgm, with the messages of its response, or to another contract. -/
def runMsg (out : Outside X) (env : Env) (run : World X → SubMsg → Result (World X)) (w : World X)
    (msg : CosmosMsg) : Result (World X × ReplyData) :=
  match selfMsg env msg with
  | some (info, msg) => do
    let (s, messages) ← execute env info msg w.state
    let w ← messages.foldlM run { w with state := s }
    pure (w, .none)
  | none => orErr (runExternal out env w msg) .external

/-- The reply that was asked for, with the messages of its response. -/
def runReply (env : Env) (run : World X → SubMsg → Result (World X)) (w : World X) (id : ReplyId)
    (result : Option ReplyData) : Result (World X) := do
  let (s, messages) ← reply env id result w.state
  messages.foldlM run { w with state := s }

/-- One message of a response with everything it causes.  The fuel bounds how deep messages nest. -/
def runSub (out : Outside X) (env : Env) : Nat → World X → SubMsg → Result (World X)
  | 0, _, _ => .error .outOfFuel
  | fuel + 1, w, sub =>
    match runMsg out env (runSub out env fuel) w sub.msg, sub.reply with
    | .ok (w, data), some (_, id) => runReply env (runSub out env fuel) w id (some data)
    | .ok (w, _), none => .ok w
    -- the message is undone
    | .error _, some (.always, id) => runReply env (runSub out env fuel) w id none
    | .error e, _ => .error e

/-- Zkgm's own messages nest three deep: a packet's execution, a fill, the minter. -/
def NESTING : Nat := 4

def runAll (out : Outside X) (env : Env) (messages : Response) (w : World X) : Result (World X) :=
  messages.foldlM (runSub out env NESTING) w

def transact (out : Outside X) (env : Env) (info : MessageInfo) (msg : ExecuteMsg) (w : World X) :
    Result (World X) := do
  let (s, messages) ← execute env info msg w.state
  runAll out env messages { w with state := s, log := [] }

end Run

end UnionVoyager.Zkgm
