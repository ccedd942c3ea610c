import UnionVoyager.Zkgm.State

/-!
# Sending: verification of an instruction

`send`, `verify_internal` and the `verify_*` functions of `ucs03-zkgm/src/contract.rs`.  The source
passes the storage, the remaining funds and the response by reference; they are threaded here as one
value, `Walk`.

* `verifyTokenOrderV1_cases`, `verifyTokenOrderV2_cases` — a verified order is burned or escrowed.
* `verifyCall_eq_ok` — a verified call names the sender of the message.
-/

namespace UnionVoyager.Zkgm

open Lib
open Core (ChannelId Timestamp Addr Coin)

/-- Storage, remaining funds and response, as the verification walks through an instruction. -/
structure Walk where
  state : State
  funds : Coins
  response : Response

/-- `response.add_message(make_wasm_msg(msg, minter, funds))`. -/
def Walk.push (w : Walk) (msg : MinterMsg) (funds : List Coin) : Walk :=
  { w with response := w.response ++ [(CosmosMsg.minter ⟨w.state.tokenMinter, msg, funds⟩).plain] }

/-- The intermediate path and the destination channel of a token's origin. -/
def originOf (s : State) (denom : String) : U256 × Option ChannelId :=
  match s.tokenOrigin denom with
  | some origin => popChannelFromPath origin
  | none => (0, none)

def verifyTokenOrderV2 (env : Env) (info : MessageInfo) (channelId : ChannelId) (path : U256)
    (order : TokenOrderV2) (w : Walk) : Result Walk := do
  let baseTokenStr ← okOr (fromUtf8 order.baseToken) .invalidBaseToken
  let minter := w.state.tokenMinter
  if order.kind = TOKEN_ORDER_KIND_UNESCROW then
    let intermediateChannelPath := (originOf w.state baseTokenStr).1
    let destinationChannelId := (originOf w.state baseTokenStr).2
    let reversed ← reverseChannelPath intermediateChannelPath
    let wrappedTokenV1 ← okOr
      (env.predictWrappedToken intermediateChannelPath channelId order.quoteToken) .std
    let metadataImage := (w.state.metadataImageOf baseTokenStr).getD 0
    let wrappedTokenV2 ← okOr (env.predictWrappedTokenFromMetadataImageV2 intermediateChannelPath
      channelId order.quoteToken metadataImage) .std
    require ((baseTokenStr = wrappedTokenV1 ∨ baseTokenStr = wrappedTokenV2) ∧ path = reversed ∧
      destinationChannelId = some channelId) .invalidTokenOrderUnescrow
    let (funds, fundsToBurn) ← w.funds.take baseTokenStr order.baseAmount
    let amount ← toU128 order.baseAmount
    pure ({ w with funds := funds }.push (.burnTokens baseTokenStr amount minter info.sender) fundsToBurn)
  else
    let state ← increaseChannelBalanceV2 w.state channelId path baseTokenStr order.quoteToken
      order.baseAmount
    let (funds, fundsToEscrow) ← w.funds.take baseTokenStr order.baseAmount
    let amount ← toU128 order.baseAmount
    pure ({ w with state := state, funds := funds }.push
      (.escrow info.sender baseTokenStr minter amount) fundsToEscrow)

def verifyTokenOrderV1 (env : Env) (info : MessageInfo) (channelId : ChannelId) (path : U256)
    (order : TokenOrderV1) (w : Walk) : Result Walk := do
  let baseTokenStr ← okOr (fromUtf8 order.baseToken) .invalidBaseToken
  let minter := w.state.tokenMinter
  let (name, symbol, decimals) ← okOr (env.metadata baseTokenStr) .std
  require (name = order.baseTokenName) (.invalidAssetName name order.baseTokenName)
  require (symbol = order.baseTokenSymbol) (.invalidAssetSymbol symbol order.baseTokenSymbol)
  require (decimals = order.baseTokenDecimals)
    (.invalidAssetDecimals decimals order.baseTokenDecimals)
  let wrappedToken ← okOr (env.predictWrappedToken path channelId order.quoteToken) .std
  let origin := (w.state.tokenOrigin baseTokenStr).getD 0
  let intermediatePath := (originOf w.state baseTokenStr).1
  let destinationChannelId := (originOf w.state baseTokenStr).2
  let reversed ← reverseChannelPath intermediatePath
  let (funds, fundsToAttach) ← w.funds.takeNonZero baseTokenStr order.baseAmount
  if path = reversed ∧ destinationChannelId = some channelId ∧ baseTokenStr = wrappedToken then
    require (origin = order.baseTokenPath) (.invalidAssetOrigin order.baseTokenPath origin)
    let amount ← toU128 order.baseAmount
    pure ({ w with funds := funds }.push (.burnTokens baseTokenStr amount minter info.sender)
      fundsToAttach)
  else
    require (order.baseTokenPath = 0) (.invalidAssetOrigin order.baseTokenPath 0)
    let state ← increaseChannelBalanceV2 w.state channelId path baseTokenStr order.quoteToken
      order.baseAmount
    let amount ← toU128 order.baseAmount
    pure ({ w with state := state, funds := funds }.push
      (.escrow info.sender baseTokenStr minter amount) fundsToAttach)

def verifyCall (info : MessageInfo) (call : Call) : Result Unit := do
  let callSender ← okOr (fromUtf8 call.sender) .invalidSender
  require (callSender = info.sender) .invalidCallSender

def isAllowedBatchInstruction (opcode : UInt8) : Bool := opcode == OP_CALL || opcode == OP_TOKEN_ORDER

def isAllowedForwardInstruction (opcode : UInt8) : Bool :=
  opcode == OP_CALL || opcode == OP_TOKEN_ORDER || opcode == OP_BATCH

mutual

def verifyInternal (env : Env) (info : MessageInfo) (channelId : ChannelId) : U256 → Instruction →
      Walk → Result Walk
  | path, .mk version opcode operand, w =>
    if opcode = OP_TOKEN_ORDER then
      if version = INSTR_VERSION_1 then
        match operand with
        | .tokenOrderV1 order => verifyTokenOrderV1 env info channelId path order w
        | _ => .error (.err .alloy)
      else if version = INSTR_VERSION_2 then
        match operand with
        | .tokenOrderV2 order => verifyTokenOrderV2 env info channelId path order w
        | _ => .error (.err .alloy)
      else
        .error (.err (.unsupportedVersion version))
    else if opcode = OP_BATCH then
      if version > INSTR_VERSION_0 then
        .error (.err (.unsupportedVersion version))
      else
        match operand with
        | .batch instructions => verifyBatch env info channelId path instructions w
        | _ => .error (.err .alloy)
    else if opcode = OP_FORWARD then
      if version > INSTR_VERSION_0 then
        .error (.err (.unsupportedVersion version))
      else
        match operand with
        -- `verify_forward`: the sub-instruction is verified under the path of the forward
        | .forward forwardPath _ _ instruction =>
          if isAllowedForwardInstruction instruction.opcode then
            verifyInternal env info channelId forwardPath instruction w
          else
            .error (.err .invalidForwardInstruction)
        | _ => .error (.err .alloy)
    else if opcode = OP_CALL then
      if version > INSTR_VERSION_0 then
        .error (.err (.unsupportedVersion version))
      else
        match operand with
        | .call call => do
          verifyCall info call
          pure w
        | _ => .error (.err .alloy)
    else
      .error (.err (.unknownOpcode opcode))

def verifyBatch (env : Env) (info : MessageInfo) (channelId : ChannelId) : U256 → List Instruction →
      Walk → Result Walk
  | _, [], w => .ok w
  | path, instruction :: instructions, w =>
    if isAllowedBatchInstruction instruction.opcode then do
      let w ← verifyInternal env info channelId path instruction w
      verifyBatch env info channelId path instructions w
    else
      .error (.err .invalidBatchInstruction)

end

def send (env : Env) (info : MessageInfo) (channelId : ChannelId) (timeoutTimestamp : Timestamp)
    (salt : U256) (instruction : Instruction) (s : State) : Result (State × Response) := do
  let w ← verifyInternal env info channelId 0 instruction ⟨s, Coins.ofList info.funds, []⟩
  let hashedSalt := env.hashing.hashSendSalt info.sender salt
  pure (w.state, w.response ++ [(CosmosMsg.packetSend
    ⟨channelId, timeoutTimestamp, .zkgm ⟨hashedSalt, 0, instruction⟩⟩).plain])

/-! ## What a verified instruction did -/

section Specs

variable {env : Env} {info : MessageInfo} {channelId : ChannelId} {path : U256} {w w' : Walk}

theorem verifyTokenOrderV2_cases {order : TokenOrderV2}
    (h : verifyTokenOrderV2 env info channelId path order w = .ok w') :
    ∃ base funds coins, order.baseToken = utf8 base ∧ order.baseAmount < 2 ^ 128 ∧
      w.funds.Takes base order.baseAmount funds coins ∧
      ((order.kind = TOKEN_ORDER_KIND_UNESCROW ∧
          (env.predictWrappedToken (originOf w.state base).1 channelId order.quoteToken = some base ∨
            ∃ image, env.predictWrappedTokenFromMetadataImageV2 (originOf w.state base).1 channelId
              order.quoteToken image = some base) ∧
          reverseChannelPath (originOf w.state base).1 = .ok path ∧
          w' = { w with funds := funds }.push
            (.burnTokens base order.baseAmount w.state.tokenMinter info.sender) coins) ∨
        (order.kind ≠ TOKEN_ORDER_KIND_UNESCROW ∧
          w' = { w with
            state := w.state.setBalance ⟨channelId, path, base, order.quoteToken⟩
              (w.state.balance ⟨channelId, path, base, order.quoteToken⟩ + order.baseAmount)
            funds := funds }.push
              (.escrow info.sender base w.state.tokenMinter order.baseAmount) coins)) := by
  unfold verifyTokenOrderV2 at h
  simp only [bind_eq_ok, okOr_eq_ok, fromUtf8_eq_some] at h
  obtain ⟨base, hbase, h⟩ := h
  split at h
  · rename_i hkind
    simp only [bind_eq_ok, okOr_eq_ok, require_eq_ok, toU128_eq_ok, pure_eq_ok] at h
    obtain ⟨reversed, hrev, t1, h1, t2, h2, _, ⟨hun, hpath, -⟩, fc, hfc, amount, ⟨hlt, rfl⟩, rfl⟩ := h
    refine ⟨base, fc.1, fc.2, hbase, hlt, Coins.takes_of_take hfc, .inl ⟨hkind, ?_, ?_, rfl⟩⟩
    · rcases hun with rfl | rfl
      · exact .inl h1
      · exact .inr ⟨_, h2⟩
    · rw [hrev, hpath]
  · rename_i hkind
    simp only [bind_eq_ok, toU128_eq_ok, pure_eq_ok] at h
    obtain ⟨s, hs, fc, hfc, amount, ⟨hlt, rfl⟩, rfl⟩ := h
    have hs' := increaseChannelBalanceV2_eq_ok hs
    subst hs'
    exact ⟨base, fc.1, fc.2, hbase, hlt, Coins.takes_of_take hfc, .inr ⟨hkind, rfl⟩⟩

theorem verifyTokenOrderV1_cases {order : TokenOrderV1}
    (h : verifyTokenOrderV1 env info channelId path order w = .ok w') :
    ∃ base funds coins, order.baseToken = utf8 base ∧ order.baseAmount < 2 ^ 128 ∧
      w.funds.Takes base order.baseAmount funds coins ∧
      ((order.baseTokenPath ≠ 0 ∧
          env.predictWrappedToken path channelId order.quoteToken = some base ∧
          w' = { w with funds := funds }.push
            (.burnTokens base order.baseAmount w.state.tokenMinter info.sender) coins) ∨
        (order.baseTokenPath = 0 ∧
          w' = { w with
            state := w.state.setBalance ⟨channelId, path, base, order.quoteToken⟩
              (w.state.balance ⟨channelId, path, base, order.quoteToken⟩ + order.baseAmount)
            funds := funds }.push
              (.escrow info.sender base w.state.tokenMinter order.baseAmount) coins)) := by
  unfold verifyTokenOrderV1 at h
  simp only [bind_eq_ok, okOr_eq_ok, fromUtf8_eq_some, require_eq_ok] at h
  obtain ⟨base, hbase, md, -, -, -, -, -, -, -, wrapped, hwrapped, reversed, -, fc, hfc, h⟩ := h
  split at h
  · rename_i hun
    obtain ⟨-, hdest, rfl⟩ := hun
    simp only [bind_eq_ok, require_eq_ok, toU128_eq_ok, pure_eq_ok] at h
    obtain ⟨_, horigin, amount, ⟨hlt, rfl⟩, rfl⟩ := h
    refine ⟨base, fc.1, fc.2, hbase, hlt, Coins.takes_of_takeNonZero hfc, .inl ⟨?_, hwrapped, rfl⟩⟩
    -- an origin of zero has no destination channel
    intro hzero
    rw [hzero] at horigin
    unfold originOf at hdest
    cases ho : w.state.tokenOrigin base with
    | none =>
      rw [ho] at hdest
      cases hdest
    | some origin =>
      rw [ho] at hdest horigin
      simp only [Option.getD_some] at horigin
      rw [horigin] at hdest
      cases hdest
  · simp only [bind_eq_ok, require_eq_ok, toU128_eq_ok, pure_eq_ok] at h
    obtain ⟨_, hzero, s, hs, amount, ⟨hlt, rfl⟩, rfl⟩ := h
    have hs' := increaseChannelBalanceV2_eq_ok hs
    subst hs'
    exact ⟨base, fc.1, fc.2, hbase, hlt, Coins.takes_of_takeNonZero hfc, .inr ⟨hzero, rfl⟩⟩

theorem verifyCall_eq_ok {call : Call} {u : Unit} : verifyCall info call = .ok u ↔
      call.sender = utf8 info.sender := by
  unfold verifyCall
  simp only [bind_eq_ok, okOr_eq_ok, fromUtf8_eq_some, require_eq_ok]
  constructor
  · rintro ⟨s, hs, rfl⟩
    exact hs
  · intro h
    exact ⟨info.sender, h, rfl⟩

end Specs

end UnionVoyager.Zkgm
