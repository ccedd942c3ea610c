import UnionVoyager.Lst.Hub

/-!
# What each message does to the hub

* `bond_eq_ok`, `unbond_eq_ok`, …: when a handler succeeds, and the response it then gives.
* `Effect`: what a message does to the batches and to the unstake requests; `execute_effect` reads it off
  a message that succeeds.
-/

namespace UnionVoyager.Lst

open Lib Function

variable {stakerHash : Addr → H256} {env : Env} {s : Hub} {total : List DecCoin}
    {info : MessageInfo} {r : Response}

/-! ## One handler at a time -/

/-- The stores after a bond. -/
def Hub.afterBond (s : Hub) (amount mint : Nat) : Hub :=
  { s with accountingState := { s.accountingState with
      totalBondedNativeTokens := s.accountingState.totalBondedNativeTokens + amount
      totalIssuedLst := s.accountingState.totalIssuedLst + mint } }

theorem bond_eq_ok {mintTo : Addr} {minMint : Nat} : bond s total info mintTo minMint = .ok r ↔
    s.stopped = false ∧ ∃ amount assets mint, 0 < amount ∧
      info.funds = [⟨s.config.nativeTokenDenom, amount⟩] ∧
      s.config.minimumLiquidStakeAmount ≤ amount ∧
      totalAssets s.accountingState s.config.nativeTokenDenom total = .ok assets ∧
      assetsToShares assets s.accountingState.totalIssuedLst amount = .ok mint ∧ 0 < mint ∧
      s.accountingState.totalBondedNativeTokens + amount < 2 ^ 128 ∧
      s.accountingState.totalIssuedLst + mint < 2 ^ 128 ∧ minMint ≤ mint ∧
      r = ⟨s.afterBond amount mint,
        [.wasm s.stakerAddress (.staker .stake) info.funds,
          .wasm s.lstAddress (.cw20 (.mint mintTo mint)) []],
        [.bond mintTo info.sender amount mint]⟩ := by
  simp only [bond, ensureNotStopped, bind_eq_ok, ensure_eq_ok, mapError_eq_ok, mustPay_eq_ok,
    u128_eq_ok, pure_eq_ok]
  constructor
  · rintro ⟨-, hs, amount, ⟨hpos, hfunds⟩, -, hmin, assets, hassets, mint, hmint, -, hm, -,
      ⟨hb, rfl⟩, -, ⟨hi, rfl⟩, -, hslip, rfl⟩
    exact ⟨hs, amount, assets, mint, hpos, hfunds, hmin, hassets, hmint, hm, hb, hi, hslip, rfl⟩
  · rintro ⟨hs, amount, assets, mint, hpos, hfunds, hmin, hassets, hmint, hm, hb, hi, hslip, rfl⟩
    exact ⟨(), hs, amount, ⟨hpos, hfunds⟩, (), hmin, assets, hassets, mint, hmint, (), hm, _,
      ⟨hb, rfl⟩, _, ⟨hi, rfl⟩, (), hslip, rfl⟩

/-- The stores after a request of `sender` for `amount` more, of which `request` is the total. -/
def Hub.afterUnbond (s : Hub) (key : UnstakeRequestKey) (request : UnstakeRequest) (amount : Nat) : Hub :=
  { s with
    unstakeRequests := update s.unstakeRequests key (some request)
    unstakeRequestsByStakerHash := update s.unstakeRequestsByStakerHash key (some request)
    currentPendingBatch := { s.currentPendingBatch with
      totalLstToBurn := s.currentPendingBatch.totalLstToBurn + amount
      unstakeRequestsCount :=
        s.currentPendingBatch.unstakeRequestsCount + if (s.unstakeRequests key).isNone then 1 else 0 } }

/-- The key of the requests of an account in the pending batch. -/
def Hub.pendingKey (stakerHash : Addr → H256) (s : Hub) (staker : Addr) : UnstakeRequestKey :=
  ⟨s.currentPendingBatch.batchId, stakerHash staker⟩

theorem unbond_eq_ok {amount : Nat} : unbond stakerHash env s info amount = .ok r ↔
    info.funds = [] ∧ s.stopped = false ∧ ∃ request,
        upsertRequest s.currentPendingBatch.batchId info.sender amount
        (s.unstakeRequests (s.pendingKey stakerHash info.sender)) = .ok request ∧
      s.currentPendingBatch.totalLstToBurn + amount < 2 ^ 128 ∧
      (s.afterUnbond (s.pendingKey stakerHash info.sender) request
        amount).currentPendingBatch.unstakeRequestsCount < 2 ^ 64 ∧
      r = ⟨s.afterUnbond (s.pendingKey stakerHash info.sender) request amount,
        [.wasm s.lstAddress (.cw20 (.transferFrom info.sender env.contract amount)) []],
        [.unbond info.sender s.currentPendingBatch.batchId amount
          (s.unstakeRequests (s.pendingKey stakerHash info.sender)).isNone]⟩ := by
  simp only [unbond, ensureNotStopped, bind_eq_ok, ensure_eq_ok, mapError_eq_ok, nonpayable_eq_ok, u128_eq_ok,
    u64_eq_ok, pure_eq_ok]
  constructor
  · rintro ⟨-, hf, -, hs, request, hreq, -, ⟨ht, rfl⟩, -, ⟨hc, rfl⟩, rfl⟩
    exact ⟨hf, hs, request, hreq, ht, hc, rfl⟩
  · rintro ⟨hf, hs, request, hreq, ht, hc, rfl⟩
    exact ⟨(), hf, (), hs, request, hreq, _, ⟨ht, rfl⟩, _, ⟨hc, rfl⟩, rfl⟩

theorem upsertRequest_eq_ok {batchId : BatchId} {sender : Addr} {amount : Nat} {o : Option UnstakeRequest}
    {request : UnstakeRequest} : upsertRequest batchId sender amount o = .ok request ↔
      request = ⟨batchId, sender, (o.elim 0 UnstakeRequest.amount) + amount⟩ ∧
        ∀ old, o = some old → old.batchId = batchId ∧ old.staker = sender ∧
          old.amount + amount < 2 ^ 128 := by
  cases o with
  | none =>
    rw [upsertRequest, pure_eq_ok]
    simp [eq_comm]
  | some old =>
    simp only [upsertRequest, bind_eq_ok, ensure_eq_ok, u128_eq_ok, pure_eq_ok, Option.elim_some,
      Option.some.injEq, forall_eq']
    constructor
    · rintro ⟨-, hb, -, hs, -, ⟨hlt, rfl⟩, rfl⟩
      exact ⟨by rw [hb, hs], hb, hs, hlt⟩
    · rintro ⟨rfl, hb, hs, hlt⟩
      exact ⟨(), hb, (), hs, _, ⟨hlt, rfl⟩, by rw [hb, hs]⟩

def Hub.submission (env : Env) (s : Hub) (unbondAmount : Nat) : SubmittedBatch :=
  ⟨s.currentPendingBatch.totalLstToBurn, s.currentPendingBatch.unstakeRequestsCount,
    env.now + s.config.unbondingPeriodSeconds, unbondAmount⟩

/-- The stores after the pending batch is submitted. -/
def Hub.afterSubmit (env : Env) (s : Hub) (unbondAmount : Nat) : Hub :=
  { s with
    accountingState := { s.accountingState with
      totalBondedNativeTokens := s.accountingState.totalBondedNativeTokens - unbondAmount
      totalIssuedLst := s.accountingState.totalIssuedLst - s.currentPendingBatch.totalLstToBurn }
    submittedBatches := update s.submittedBatches s.currentPendingBatch.batchId
      (some (s.submission env unbondAmount))
    currentPendingBatch := .new (s.currentPendingBatch.batchId + 1) (env.now + s.config.batchPeriodSeconds) }

theorem submitBatch_eq_ok : submitBatch env s total info = .ok r ↔
    info.funds = [] ∧ s.stopped = false ∧ s.currentPendingBatch.submitTime ≤ env.now ∧
      0 < s.currentPendingBatch.unstakeRequestsCount ∧
      s.currentPendingBatch.totalLstToBurn ≤ s.accountingState.totalIssuedLst ∧ ∃ assets unbondAmount,
      totalAssets s.accountingState s.config.nativeTokenDenom total = .ok assets ∧
      sharesToAssets assets s.accountingState.totalIssuedLst s.currentPendingBatch.totalLstToBurn =
        .ok unbondAmount ∧
      unbondAmount ≤ s.accountingState.totalBondedNativeTokens ∧
      env.now + s.config.unbondingPeriodSeconds < 2 ^ 64 ∧ s.currentPendingBatch.batchId + 1 < 2 ^ 64 ∧
      env.now + s.config.batchPeriodSeconds < 2 ^ 64 ∧
      r = ⟨s.afterSubmit env unbondAmount, [.wasm s.stakerAddress (.staker (.unstake unbondAmount)) [],
         .wasm s.lstAddress (.cw20 (.burn s.currentPendingBatch.totalLstToBurn)) []],
        [.submitBatch s.currentPendingBatch.batchId s.currentPendingBatch.totalLstToBurn unbondAmount
          s.config.unbondingPeriodSeconds]⟩ := by
  simp only [submitBatch, ensureNotStopped, bind_eq_ok, ensure_eq_ok, mapError_eq_ok, nonpayable_eq_ok,
    checkedSub_eq_ok, u64_eq_ok, pure_eq_ok]
  constructor
  · rintro ⟨-, hf, -, hs, -, ht, -, hc, -, ⟨hl, rfl⟩, assets, ha, u, hu, -, ⟨hub, rfl⟩, -,
      ⟨h1, rfl⟩, -, ⟨h2, rfl⟩, -, ⟨h3, rfl⟩, rfl⟩
    exact ⟨hf, hs, ht, hc, hl, assets, u, ha, hu, hub, h1, h2, h3, rfl⟩
  · rintro ⟨hf, hs, ht, hc, hl, assets, u, ha, hu, hub, h1, h2, h3, rfl⟩
    exact ⟨(), hf, (), hs, (), ht, (), hc, _, ⟨hl, rfl⟩, assets, ha, u, hu, _, ⟨hub, rfl⟩, _,
      ⟨h1, rfl⟩, _, ⟨h2, rfl⟩, _, ⟨h3, rfl⟩, rfl⟩

/-- What the protocol keeps of rewards. -/
def Hub.protocolFee (s : Hub) (receivedRewards : Nat) : Nat :=
  s.protocolFeeConfig.feeRate * receivedRewards / FEE_RATE_DENOMINATOR

/-- The stores after rewards came in. -/
def Hub.afterRewards (s : Hub) (receivedRewards : Nat) : Hub :=
  { s with accountingState := { s.accountingState with
      totalBondedNativeTokens :=
        s.accountingState.totalBondedNativeTokens + (receivedRewards - s.protocolFee receivedRewards)
      totalRewardAmount := s.accountingState.totalRewardAmount + receivedRewards } }

theorem receiveRewards_eq_ok : receiveRewards s info = .ok r ↔
    s.stopped = false ∧ ∃ rewards, 0 < rewards ∧ info.funds = [⟨s.config.nativeTokenDenom, rewards⟩] ∧
      s.protocolFee rewards < 2 ^ 128 ∧ s.protocolFee rewards ≠ 0 ∧ s.protocolFee rewards ≤ rewards ∧
      s.accountingState.totalIssuedLst ≠ 0 ∧
      s.accountingState.totalBondedNativeTokens + (rewards - s.protocolFee rewards) < 2 ^ 128 ∧
      s.accountingState.totalRewardAmount + rewards < 2 ^ 128 ∧
      r = ⟨s.afterRewards rewards,
        [.wasm s.stakerAddress (.staker .stake)
         [⟨s.config.nativeTokenDenom, rewards - s.protocolFee rewards⟩],
         .bankSend s.protocolFeeConfig.feeRecipient [⟨s.config.nativeTokenDenom, s.protocolFee rewards⟩]],
        [.receiveRewards rewards (rewards - s.protocolFee rewards) (s.protocolFee rewards)]⟩ := by
  simp only [receiveRewards, ensureNotStopped, bind_eq_ok, ensure_eq_ok, mapError_eq_ok, mustPay_eq_ok,
    multiplyRatio_eq_ok, checkedSub_eq_ok, u128_eq_ok, pure_eq_ok]
  constructor
  · rintro ⟨-, hs, rewards, ⟨hpos, hf⟩, -, ⟨-, hlt, rfl⟩, -, hne, -, ⟨hle, rfl⟩, -,
      hi, -, ⟨h1, rfl⟩, -, ⟨h2, rfl⟩, rfl⟩
    exact ⟨hs, rewards, hpos, hf, hlt, hne, hle, hi, h1, h2, rfl⟩
  · rintro ⟨hs, rewards, hpos, hf, hlt, hne, hle, hi, h1, h2, rfl⟩
    exact ⟨(), hs, rewards, ⟨hpos, hf⟩, _, ⟨by decide, hlt, rfl⟩, (), hne, _, ⟨hle, rfl⟩, (), hi, _,
      ⟨h1, rfl⟩, _, ⟨h2, rfl⟩, rfl⟩

theorem rebase_eq_ok : rebase s info = .ok r ↔ info.funds = [] ∧ s.stopped = false ∧
    r = ⟨s, [.wasm s.stakerAddress (.staker .rebase) []], [.rebase info.sender]⟩ := by
  simp only [rebase, ensureNotStopped, bind_eq_ok, ensure_eq_ok, mapError_eq_ok, nonpayable_eq_ok, pure_eq_ok]
  constructor
  · rintro ⟨-, hf, -, hs, rfl⟩
    exact ⟨hf, hs, rfl⟩
  · rintro ⟨hf, hs, rfl⟩
    exact ⟨(), hf, (), hs, rfl⟩

/-- The stores after the tokens of a submitted batch came in. -/
def Hub.afterReceive (s : Hub) (batchId : BatchId) (batch : SubmittedBatch) : Hub :=
  { s with
    submittedBatches := update s.submittedBatches batchId none
    receivedBatches := update s.receivedBatches batchId
      (some ⟨batch.totalLstToBurn, batch.unstakeRequestsCount, batch.expectedNativeUnstaked⟩) }

theorem receiveUnstakedTokens_eq_ok {batchId : BatchId} : receiveUnstakedTokens env s info batchId = .ok r ↔
    s.stopped = false ∧ ∃ batch, s.submittedBatches batchId = some batch ∧ batch.receiveTime ≤ env.now ∧
      0 < batch.expectedNativeUnstaked ∧
      info.funds = [⟨s.config.nativeTokenDenom, batch.expectedNativeUnstaked⟩] ∧
      r = ⟨s.afterReceive batchId batch, [],
        [.receiveUnstakedTokens batchId batch.expectedNativeUnstaked]⟩ := by
  simp only [receiveUnstakedTokens, ensureNotStopped, bind_eq_ok, ensure_eq_ok, mapError_eq_ok, mustPay_eq_ok,
    orErr_eq_ok, pure_eq_ok]
  constructor
  · rintro ⟨-, hs, _, ⟨hpos, hf⟩, batch, hb, -, ht, -, rfl, rfl⟩
    exact ⟨hs, batch, hb, ht, hpos, hf, rfl⟩
  · rintro ⟨hs, batch, hb, ht, hpos, hf, rfl⟩
    exact ⟨(), hs, _, ⟨hpos, hf⟩, batch, hb, (), ht, (), rfl, rfl⟩

/-- The stores after a request is paid. -/
def Hub.afterWithdraw (s : Hub) (key : UnstakeRequestKey) : Hub :=
  { s with
    unstakeRequests := update s.unstakeRequests key none
    unstakeRequestsByStakerHash := update s.unstakeRequestsByStakerHash key none }

/-- What a request of `amount` gets out of a received batch. -/
def ReceivedBatch.payout (batch : ReceivedBatch) (amount : Nat) : Nat :=
  batch.receivedNativeUnstaked * amount / batch.totalLstToBurn

theorem withdraw_eq_ok {batchId : BatchId} {withdrawTo : Addr} :
      withdraw stakerHash s info batchId withdrawTo = .ok r ↔
      info.funds = [] ∧ s.stopped = false ∧ ∃ batch request, s.receivedBatches batchId = some batch ∧
        s.unstakeRequests ⟨batchId, stakerHash info.sender⟩ = some request ∧ 0 < batch.totalLstToBurn ∧
        batch.payout request.amount < 2 ^ 128 ∧
        r = ⟨s.afterWithdraw ⟨batchId, stakerHash info.sender⟩,
          [.bankSend withdrawTo [⟨s.config.nativeTokenDenom, batch.payout request.amount⟩]],
          [.withdraw info.sender batchId withdrawTo (batch.payout request.amount)]⟩ := by
  simp only [withdraw, ensureNotStopped, bind_eq_ok, ensure_eq_ok, mapError_eq_ok, nonpayable_eq_ok,
    orErr_eq_ok, multiplyRatio_eq_ok, pure_eq_ok]
  constructor
  · rintro ⟨-, hf, -, hs, batch, hb, request, hr, -, ⟨hpos, hlt, rfl⟩, rfl⟩
    exact ⟨hf, hs, batch, request, hb, hr, hpos, hlt, rfl⟩
  · rintro ⟨hf, hs, batch, request, hb, hr, hpos, hlt, rfl⟩
    exact ⟨(), hf, (), hs, batch, hb, request, hr, _, ⟨hpos, hlt, rfl⟩, rfl⟩

theorem receiveBatch_eq_ok {batchId : BatchId} : receiveBatch env s info batchId = .ok r ↔
    info.funds = [] ∧ s.stopped = false ∧ ∃ batch, s.submittedBatches batchId = some batch ∧
      batch.receiveTime ≤ env.now ∧
      r = ⟨s, [.wasm s.stakerAddress (.staker (.receiveUnstakedTokens batchId)) []],
        [.receiveBatch batchId batch.expectedNativeUnstaked]⟩ := by
  simp only [receiveBatch, ensureNotStopped, bind_eq_ok, ensure_eq_ok, mapError_eq_ok,
    nonpayable_eq_ok, orErr_eq_ok, pure_eq_ok]
  constructor
  · rintro ⟨-, hf, -, hs, batch, hb, -, ht, rfl⟩
    exact ⟨hf, hs, batch, hb, ht, rfl⟩
  · rintro ⟨hf, hs, batch, hb, ht, rfl⟩
    exact ⟨(), hf, (), hs, batch, hb, (), ht, rfl⟩

/-! ## Fields after a message -/

section Fields

variable (env : Env) (s : Hub) (key : UnstakeRequestKey) (request : UnstakeRequest) (batch : SubmittedBatch)
  (batchId : BatchId) (amount : Nat)

@[simp] theorem afterSubmit_submitted : (s.afterSubmit env amount).submittedBatches =
    update s.submittedBatches s.currentPendingBatch.batchId (some (s.submission env amount)) := rfl
@[simp] theorem afterSubmit_received : (s.afterSubmit env amount).receivedBatches = s.receivedBatches := rfl
@[simp] theorem afterReceive_submitted : (s.afterReceive batchId batch).submittedBatches =
    update s.submittedBatches batchId none := rfl
@[simp] theorem afterReceive_received : (s.afterReceive batchId batch).receivedBatches =
    update s.receivedBatches batchId
      (some ⟨batch.totalLstToBurn, batch.unstakeRequestsCount, batch.expectedNativeUnstaked⟩) := rfl
@[simp] theorem afterUnbond_submitted : (s.afterUnbond key request amount).submittedBatches =
      s.submittedBatches := rfl
@[simp] theorem afterUnbond_received : (s.afterUnbond key request amount).receivedBatches =
      s.receivedBatches := rfl
@[simp] theorem afterUnbond_requests : (s.afterUnbond key request amount).unstakeRequests =
    update s.unstakeRequests key (some request) := rfl
@[simp] theorem afterUnbond_requestsByHash : (s.afterUnbond key request amount).unstakeRequestsByStakerHash =
    update s.unstakeRequestsByStakerHash key (some request) := rfl
@[simp] theorem afterUnbond_batchId :
    (s.afterUnbond key request amount).currentPendingBatch.batchId = s.currentPendingBatch.batchId := rfl
@[simp] theorem afterWithdraw_received : (s.afterWithdraw key).receivedBatches = s.receivedBatches := rfl
@[simp] theorem afterWithdraw_requests : (s.afterWithdraw key).unstakeRequests =
      update s.unstakeRequests key none :=
  rfl
@[simp] theorem afterWithdraw_requestsByHash : (s.afterWithdraw key).unstakeRequestsByStakerHash =
    update s.unstakeRequestsByStakerHash key none := rfl

end Fields

/-! ## Batches and requests -/

/-- How much of a denomination leaves with the messages. -/
def outflow (denom : String) (messages : List CosmosMsg) : Nat :=
    (messages.map fun m => amountOf denom m.coins).sum

@[simp] theorem outflow_nil (denom : String) : outflow denom [] = 0 := rfl

@[simp] theorem outflow_cons (denom : String) (m : CosmosMsg) (ms : List CosmosMsg) :
    outflow denom (m :: ms) = amountOf denom m.coins + outflow denom ms := List.sum_cons

@[simp] theorem outflow_append (denom : String) (ms ms' : List CosmosMsg) :
    outflow denom (ms ++ ms') = outflow denom ms + outflow denom ms' := by
  simp [outflow]

/-- The events that tell of requests and of what is paid for them. -/
def Event.ofRequest : Event → Bool
  | .unbond .. => true
  | .withdraw .. => true
  | _ => false

/-- Batches, requests and the native token are as before. -/
structure Hub.SameBatches (s s' : Hub) : Prop where
  denom : s'.config.nativeTokenDenom = s.config.nativeTokenDenom
  pending : s'.currentPendingBatch = s.currentPendingBatch
  submitted : s'.submittedBatches = s.submittedBatches
  received : s'.receivedBatches = s.receivedBatches
  requests : s'.unstakeRequests = s.unstakeRequests
  requestsByHash : s'.unstakeRequestsByStakerHash = s.unstakeRequestsByStakerHash

/-- What is fixed in a submitted batch: its total and its number of requests. -/
def SubmittedBatch.fixed (b : SubmittedBatch) : Nat × Nat := (b.totalLstToBurn, b.unstakeRequestsCount)

/-- **What a message does to the batches and to the unstake requests.** -/
inductive Effect (stakerHash : Addr → H256) (env : Env) (s : Hub) (info : MessageInfo) (r : Response) : Prop
  | still (same : s.SameBatches r.hub)
      (flow : outflow s.config.nativeTokenDenom r.messages ≤ amountOf s.config.nativeTokenDenom info.funds)
      (quiet : ∀ e ∈ r.events, e.ofRequest = false)
  | unbond (amount : Nat) (request : UnstakeRequest)
      (upsert : upsertRequest s.currentPendingBatch.batchId info.sender amount
        (s.unstakeRequests (s.pendingKey stakerHash info.sender)) = .ok request)
      (hub : r.hub = s.afterUnbond (s.pendingKey stakerHash info.sender) request amount)
      (flow : outflow s.config.nativeTokenDenom r.messages = 0)
      (events : r.events = [.unbond info.sender s.currentPendingBatch.batchId amount
        (s.unstakeRequests (s.pendingKey stakerHash info.sender)).isNone])
  | submit (unbondAmount : Nat) (hub : r.hub = s.afterSubmit env unbondAmount)
      (flow : outflow s.config.nativeTokenDenom r.messages = 0)
      (quiet : ∀ e ∈ r.events, e.ofRequest = false)
  | receive (batchId : BatchId) (batch : SubmittedBatch) (submitted : s.submittedBatches batchId = some batch)
      (funds : amountOf s.config.nativeTokenDenom info.funds = batch.expectedNativeUnstaked)
      (hub : r.hub = s.afterReceive batchId batch)
      (flow : outflow s.config.nativeTokenDenom r.messages = 0)
      (quiet : ∀ e ∈ r.events, e.ofRequest = false)
  | withdraw (batchId : BatchId) (withdrawTo : Addr) (batch : ReceivedBatch) (request : UnstakeRequest)
      (received : s.receivedBatches batchId = some batch)
      (stored : s.unstakeRequests ⟨batchId, stakerHash info.sender⟩ = some request)
      (positive : 0 < batch.totalLstToBurn)
      (hub : r.hub = s.afterWithdraw ⟨batchId, stakerHash info.sender⟩)
      (flow : outflow s.config.nativeTokenDenom r.messages = batch.payout request.amount)
      (events : r.events = [.withdraw info.sender batchId withdrawTo (batch.payout request.amount)])
  | slash (submitted : BatchId → Option SubmittedBatch)
      (hub : r.hub = { s with submittedBatches := submitted })
      (fixed : ∀ b, (submitted b).map SubmittedBatch.fixed = (s.submittedBatches b).map SubmittedBatch.fixed)
      (flow : outflow s.config.nativeTokenDenom r.messages = 0)
      (quiet : ∀ e ∈ r.events, e.ofRequest = false)

theorem slashBatch_fixed {submitted submitted' : BatchId → Option SubmittedBatch}
    {expected : BatchExpectedAmount}
    (h : slashBatch submitted expected = .ok submitted') (b : BatchId) :
    (submitted' b).map SubmittedBatch.fixed = (submitted b).map SubmittedBatch.fixed := by
  simp only [slashBatch, bind_eq_ok, orErr_eq_ok, pure_eq_ok] at h
  obtain ⟨batch, hbatch, rfl⟩ := h
  by_cases hb : b = expected.batchId
  · subst hb
    rw [update_self, hbatch]
    rfl
  · rw [update_of_ne hb]

theorem slashBatches_fixed : ∀ (expected : List BatchExpectedAmount)
    {submitted submitted' : BatchId → Option SubmittedBatch},
    expected.foldlM slashBatch submitted = .ok submitted' → ∀ b,
      (submitted' b).map SubmittedBatch.fixed = (submitted b).map SubmittedBatch.fixed
  | [], submitted, submitted', h, b => by
    rw [List.foldlM_nil, pure_eq_ok] at h
    rw [h]
  | e :: es, submitted, submitted', h, b => by
    rw [List.foldlM_cons, bind_eq_ok] at h
    obtain ⟨mid, hmid, hrest⟩ := h
    rw [slashBatches_fixed es hrest b, slashBatch_fixed hmid b]

def ExecuteMsg.isUpdateConfig : ExecuteMsg → Bool
  | .updateConfig .. => true
  | _ => false

/-- An accepted message has an effect, and only `update_config` touches the two configurations. -/
theorem execute_effect {msg : ExecuteMsg} (h : s.execute stakerHash env total info msg = .ok r) :
    Effect stakerHash env s info r ∧ (msg.isUpdateConfig = false →
      r.hub.config = s.config ∧ r.hub.protocolFeeConfig = s.protocolFeeConfig) := by
  have hkept : s.config = s.config ∧ s.protocolFeeConfig = s.protocolFeeConfig := ⟨rfl, rfl⟩
  cases msg with
  | bond mintTo minMint =>
    obtain ⟨-, amount, assets, mint, -, hfunds, -, -, -, -, -, -, -, rfl⟩ := bond_eq_ok.mp h
    refine ⟨.still ⟨rfl, rfl, rfl, rfl, rfl, rfl⟩ ?_ (by simp [Event.ofRequest]), fun _ => hkept⟩
    simp [CosmosMsg.coins]
  | unbond amount =>
    obtain ⟨-, -, request, hupsert, -, -, rfl⟩ := unbond_eq_ok.mp h
    exact ⟨.unbond amount request hupsert rfl rfl rfl, fun _ => hkept⟩
  | submitBatch =>
    obtain ⟨-, -, -, -, -, assets, unbondAmount, -, -, -, -, -, -, rfl⟩ := submitBatch_eq_ok.mp h
    exact ⟨.submit unbondAmount rfl rfl (by simp [Event.ofRequest]), fun _ => hkept⟩
  | receiveRewards =>
    obtain ⟨-, rewards, -, hfunds, -, -, hle, -, -, -, rfl⟩ := receiveRewards_eq_ok.mp h
    refine ⟨.still ⟨rfl, rfl, rfl, rfl, rfl, rfl⟩ ?_ (by simp [Event.ofRequest]), fun _ => hkept⟩
    simp only [outflow_cons, outflow_nil, CosmosMsg.coins, amountOf_singleton, hfunds]
    omega
  | rebase =>
    obtain ⟨-, -, rfl⟩ := rebase_eq_ok.mp h
    exact ⟨.still ⟨rfl, rfl, rfl, rfl, rfl, rfl⟩ (by simp [CosmosMsg.coins])
      (by simp [Event.ofRequest]), fun _ => hkept⟩
  | receiveBatch batchId =>
    obtain ⟨-, -, batch, -, -, rfl⟩ := receiveBatch_eq_ok.mp h
    exact ⟨.still ⟨rfl, rfl, rfl, rfl, rfl, rfl⟩ (by simp [CosmosMsg.coins])
      (by simp [Event.ofRequest]), fun _ => hkept⟩
  | receiveUnstakedTokens batchId =>
    obtain ⟨-, batch, hb, -, -, hfunds, rfl⟩ := receiveUnstakedTokens_eq_ok.mp h
    exact ⟨.receive batchId batch hb (by rw [hfunds, amountOf_singleton]) rfl rfl
      (by simp [Event.ofRequest]), fun _ => hkept⟩
  | withdraw withdrawTo batchId =>
    obtain ⟨-, -, batch, request, hb, hr, hpos, -, rfl⟩ := withdraw_eq_ok.mp h
    exact ⟨.withdraw batchId withdrawTo batch request hb hr hpos rfl (by simp [CosmosMsg.coins])
      rfl, fun _ => hkept⟩
  | transferOwnership newOwner =>
    simp only [Hub.execute, transferOwnership, ensureAdmin, bind_eq_ok, pure_eq_ok] at h
    obtain ⟨-, -, -, -, minTime, -, rfl⟩ := h
    exact ⟨.still ⟨rfl, rfl, rfl, rfl, rfl, rfl⟩ (by simp) (by simp [Event.ofRequest]), fun _ => hkept⟩
  | acceptOwnership =>
    simp only [Hub.execute, acceptOwnership, bind_eq_ok, pure_eq_ok] at h
    obtain ⟨-, -, owner, -, -, -, -, -, rfl⟩ := h
    exact ⟨.still ⟨rfl, rfl, rfl, rfl, rfl, rfl⟩ (by simp) (by simp [Event.ofRequest]), fun _ => hkept⟩
  | revokeOwnershipTransfer =>
    simp only [Hub.execute, revokeOwnershipTransfer, bind_eq_ok, pure_eq_ok] at h
    obtain ⟨-, -, -, -, rfl⟩ := h
    exact ⟨.still ⟨rfl, rfl, rfl, rfl, rfl, rfl⟩ (by simp) (by simp [Event.ofRequest]), fun _ => hkept⟩
  | updateConfig fee monitors batchPeriod unbondingPeriod =>
    simp only [Hub.execute, updateConfig, bind_eq_ok, pure_eq_ok] at h
    obtain ⟨-, -, -, -, rfl⟩ := h
    exact ⟨.still ⟨rfl, rfl, rfl, rfl, rfl, rfl⟩ (by simp) (by simp [Event.ofRequest]),
      fun hother => by cases hother⟩
  | circuitBreaker =>
    simp only [Hub.execute, circuitBreaker, bind_eq_ok, pure_eq_ok] at h
    obtain ⟨-, -, -, -, -, -, rfl⟩ := h
    exact ⟨.still ⟨rfl, rfl, rfl, rfl, rfl, rfl⟩ (by simp) (by simp [Event.ofRequest]), fun _ => hkept⟩
  | resumeContract accounting =>
    simp only [Hub.execute, resumeContract, bind_eq_ok, pure_eq_ok] at h
    obtain ⟨-, -, -, -, -, -, rfl⟩ := h
    exact ⟨.still ⟨rfl, rfl, rfl, rfl, rfl, rfl⟩ (by simp) (by simp [Event.ofRequest]), fun _ => hkept⟩
  | slashBatches newAmounts =>
    simp only [Hub.execute, slashBatches, bind_eq_ok, pure_eq_ok] at h
    obtain ⟨-, -, -, -, -, -, submitted, hsub, rfl⟩ := h
    exact ⟨.slash submitted rfl (slashBatches_fixed newAmounts hsub) rfl
      (by simp [Event.ofRequest]), fun _ => hkept⟩

end UnionVoyager.Lst
