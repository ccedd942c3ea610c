import UnionVoyager.Lst.Types

/-!
# The liquid staking hub

The stores of `cosmwasm/lst/src/state.rs` as maps, `init` of `contract.rs`, and every handler of
`execute.rs`.  A handler reads the stores and the message, and ends in new stores with the messages it
hands to the host and the events of `event.rs`, or in an error.

The one query a handler makes is for the rewards the staker can claim; its answer is the argument
`total`.  `stakerHash` is `sha256` of the address.
-/

namespace UnionVoyager.Lst

open Lib Function

def FEE_RATE_DENOMINATOR : Nat := 100000

/-- 7 days. -/
def OWNERSHIP_CLAIM_DELAY_PERIOD_SECONDS : Nat := 60 * 60 * 24 * 7

structure Hub where
  stopped : Bool
  config : Config
  protocolFeeConfig : ProtocolFeeConfig
  accountingState : AccountingState
  admin : Addr
  pendingOwner : Option PendingOwner
  monitors : List Addr
  stakerAddress : Addr
  lstAddress : Addr
  currentPendingBatch : PendingBatch
  submittedBatches : BatchId → Option SubmittedBatch
  receivedBatches : BatchId → Option ReceivedBatch
  unstakeRequests : UnstakeRequestKey → Option UnstakeRequest
  unstakeRequestsByStakerHash : UnstakeRequestKey → Option UnstakeRequest

structure InitMsg where
  nativeTokenDenom : String
  minimumLiquidStakeAmount : Nat
  stakerAddress : Addr
  protocolFeeConfig : ProtocolFeeConfig
  lstAddress : Addr
  batchPeriodSeconds : Nat
  unbondingPeriodSeconds : Nat
  monitors : List Addr
  admin : Addr

def Hub.init (env : Env) (msg : InitMsg) : ContractResult Hub := do
  ensure (msg.batchPeriodSeconds ≤ msg.unbondingPeriodSeconds)
    (.batchPeriodLargerThanUnbondingPeriod msg.batchPeriodSeconds msg.unbondingPeriodSeconds)
  ensure (msg.protocolFeeConfig.feeRate ≤ FEE_RATE_DENOMINATOR) .invalidProtocolFeeRate
  let submitTime ← u64 (env.now + msg.batchPeriodSeconds) "overflow"
  return {
    stopped := false
    config := ⟨msg.nativeTokenDenom, msg.minimumLiquidStakeAmount, msg.batchPeriodSeconds,
      msg.unbondingPeriodSeconds⟩
    protocolFeeConfig := msg.protocolFeeConfig
    accountingState := ⟨0, 0, 0⟩
    admin := msg.admin
    pendingOwner := none
    monitors := msg.monitors
    stakerAddress := msg.stakerAddress
    lstAddress := msg.lstAddress
    currentPendingBatch := .new .one submitTime
    submittedBatches := fun _ => none
    receivedBatches := fun _ => none
    unstakeRequests := fun _ => none
    unstakeRequestsByStakerHash := fun _ => none }

inductive Event where
  | bond (mintToAddress sender : Addr) (inAmount mintAmount : Nat)
  | unbond (staker : Addr) (batch : BatchId) (amount : Nat) (isNewRequest : Bool)
  | submitBatch (batchId : BatchId) (batchTotal expectedUnstaked currentUnbondingPeriod : Nat)
  | receiveRewards (amount amountAfterProtocolFee protocolFee : Nat)
  | rebase (caller : Addr)
  | receiveUnstakedTokens (batch : BatchId) (amount : Nat)
  | withdraw (staker : Addr) (batchId : BatchId) (withdrawToAddress : Addr) (amount : Nat)
  | transferOwnership (newOwner previousOwner : Addr)
  | revokeOwnershipTransfer
  | acceptOwnership (newOwner : Addr)
  | updateConfig (protocolFeeConfig : Option ProtocolFeeConfig) (monitors : Option (List Addr))
      (batchPeriodSeconds unbondingPeriodSeconds : Option Nat)
  | circuitBreaker (breaker : Addr)
  | resumeContract (accountingState : AccountingState)
  | slashBatch (batchId : BatchId) (amount : Nat)
  | receiveBatch (batchId : BatchId) (amount : Nat)

structure Response where
  hub : Hub
  messages : List CosmosMsg
  events : List Event

abbrev Handled := ContractResult Response

def ensureStopped (s : Hub) : ContractResult Unit := ensure (s.stopped = true) .notStopped

def ensureNotStopped (s : Hub) : ContractResult Unit := ensure (s.stopped = false) .stopped

def ensureAdmin (s : Hub) (info : MessageInfo) : ContractResult Unit :=
  ensure (s.admin = info.sender) (.unauthorized info.sender)

def bond (s : Hub) (total : List DecCoin) (info : MessageInfo) (mintToAddress : Addr) (minMintAmount : Nat) :
    Handled := do
  ensureNotStopped s
  let bondAmount ← (mustPay info s.config.nativeTokenDenom).mapError .payment
  ensure (s.config.minimumLiquidStakeAmount ≤ bondAmount)
    (.minimumLiquidStakeAmount s.config.minimumLiquidStakeAmount bondAmount)
  let totalAssets ← totalAssets s.accountingState s.config.nativeTokenDenom total
  let mintAmount ← assetsToShares totalAssets s.accountingState.totalIssuedLst bondAmount
  ensure (0 < mintAmount) .computedMintAmountIsZero
  let totalBonded ← u128 (s.accountingState.totalBondedNativeTokens + bondAmount) "overflow"
  let totalIssued ← u128 (s.accountingState.totalIssuedLst + mintAmount) "overflow"
  ensure (minMintAmount ≤ mintAmount) (.slippageNotMet minMintAmount mintAmount)
  return {
    hub := { s with accountingState :=
      { s.accountingState with totalBondedNativeTokens := totalBonded, totalIssuedLst := totalIssued } }
    messages :=
      [.wasm s.stakerAddress (.staker .stake) info.funds,
       .wasm s.lstAddress (.cw20 (.mint mintToAddress mintAmount)) []]
    events := [.bond mintToAddress info.sender bondAmount mintAmount] }

/-- The closure of the upsert in `unbond`. -/
def upsertRequest (batchId : BatchId) (sender : Addr) (unbondAmount : Nat) :
    Option UnstakeRequest → ContractResult UnstakeRequest
  | some r => do
    ensure (r.batchId = batchId) (.panic "assertion failed: r.batch_id == current_pending_batch.batch_id")
    ensure (r.staker = sender) (.panic "assertion failed: r.staker == info.sender")
    let amount ← u128 (r.amount + unbondAmount) "overflow"
    return ⟨r.batchId, r.staker, amount⟩
  | none => return ⟨batchId, sender, unbondAmount⟩

def unbond (stakerHash : Addr → H256) (env : Env) (s : Hub) (info : MessageInfo)
    (unbondAmount : Nat) : Handled := do
  (nonpayable info).mapError .payment
  ensureNotStopped s
  let batch := s.currentPendingBatch
  let key : UnstakeRequestKey := ⟨batch.batchId, stakerHash info.sender⟩
  let request ← upsertRequest batch.batchId info.sender unbondAmount (s.unstakeRequests key)
  let totalLstToBurn ← u128 (batch.totalLstToBurn + unbondAmount) "overflow"
  let isNewRequest := (s.unstakeRequests key).isNone
  let unstakeRequestsCount ←
    u64 (batch.unstakeRequestsCount + if isNewRequest then 1 else 0) "overflow"
  return {
    hub := { s with
      unstakeRequests := update s.unstakeRequests key (some request)
      unstakeRequestsByStakerHash := update s.unstakeRequestsByStakerHash key (some request)
      currentPendingBatch := { batch with totalLstToBurn, unstakeRequestsCount } }
    messages := [.wasm s.lstAddress (.cw20 (.transferFrom info.sender env.contract unbondAmount)) []]
    events := [.unbond info.sender batch.batchId unbondAmount isNewRequest] }

def submitBatch (env : Env) (s : Hub) (total : List DecCoin) (info : MessageInfo) : Handled := do
  (nonpayable info).mapError .payment
  ensureNotStopped s
  let batch := s.currentPendingBatch
  ensure (batch.submitTime ≤ env.now) (.batchNotReady env.now batch.submitTime)
  ensure (0 < batch.unstakeRequestsCount) (.noUnstakeRequestsInCurrentBatch batch.batchId)
  let accounting := s.accountingState
  let newTotalIssuedLst ← checkedSub accounting.totalIssuedLst batch.totalLstToBurn
    (.invalidUnstakeAmount accounting.totalIssuedLst batch.totalLstToBurn)
  let totalAssets ← totalAssets accounting s.config.nativeTokenDenom total
  let unbondAmount ← sharesToAssets totalAssets accounting.totalIssuedLst batch.totalLstToBurn
  let newTotalBonded ← checkedSub accounting.totalBondedNativeTokens unbondAmount
    (.attemptedToUnbondMoreThanBonded unbondAmount accounting.totalBondedNativeTokens)
  let receiveTime ← u64 (env.now + s.config.unbondingPeriodSeconds) "overflow"
  let nextBatchId ← u64 (batch.batchId + 1) "holy batches, batman"
  let submitTime ← u64 (env.now + s.config.batchPeriodSeconds) "overflow"
  let submitted : SubmittedBatch :=
    ⟨batch.totalLstToBurn, batch.unstakeRequestsCount, receiveTime, unbondAmount⟩
  return {
    hub := { s with
      accountingState :=
        { accounting with totalBondedNativeTokens := newTotalBonded, totalIssuedLst := newTotalIssuedLst }
      submittedBatches := update s.submittedBatches batch.batchId (some submitted)
      currentPendingBatch := .new nextBatchId submitTime }
    messages :=
      [.wasm s.stakerAddress (.staker (.unstake unbondAmount)) [],
       .wasm s.lstAddress (.cw20 (.burn batch.totalLstToBurn)) []]
    events := [.submitBatch batch.batchId batch.totalLstToBurn unbondAmount s.config.unbondingPeriodSeconds] }

def receiveRewards (s : Hub) (info : MessageInfo) : Handled := do
  ensureNotStopped s
  let receivedRewards ← (mustPay info s.config.nativeTokenDenom).mapError .payment
  let protocolFee ← multiplyRatio s.protocolFeeConfig.feeRate receivedRewards FEE_RATE_DENOMINATOR
  ensure (protocolFee ≠ 0) (.computedFeesAreZero receivedRewards)
  let amountAfterProtocolFee ← checkedSub receivedRewards protocolFee
    (.panic "protocol_fee is <= received_rewards; qed;")
  let accounting := s.accountingState
  ensure (accounting.totalIssuedLst ≠ 0) .noLiquidStake
  let totalBonded ← u128 (accounting.totalBondedNativeTokens + amountAfterProtocolFee) "overflow"
  let totalReward ← u128 (accounting.totalRewardAmount + receivedRewards) "overflow"
  return {
    hub := { s with accountingState :=
      { accounting with totalBondedNativeTokens := totalBonded, totalRewardAmount := totalReward } }
    messages :=
      [.wasm s.stakerAddress (.staker .stake) [⟨s.config.nativeTokenDenom, amountAfterProtocolFee⟩],
       .bankSend s.protocolFeeConfig.feeRecipient [⟨s.config.nativeTokenDenom, protocolFee⟩]]
    events := [.receiveRewards receivedRewards amountAfterProtocolFee protocolFee] }

def rebase (s : Hub) (info : MessageInfo) : Handled := do
  (nonpayable info).mapError .payment
  ensureNotStopped s
  return {
    hub := s
    messages := [.wasm s.stakerAddress (.staker .rebase) []]
    events := [.rebase info.sender] }

def receiveUnstakedTokens (env : Env) (s : Hub) (info : MessageInfo) (batchId : BatchId) : Handled := do
  ensureNotStopped s
  let receivedNativeAmount ← (mustPay info s.config.nativeTokenDenom).mapError .payment
  let batch ← orErr (s.submittedBatches batchId) (.batchNotFound batchId)
  ensure (batch.receiveTime ≤ env.now) (.batchNotReady env.now batch.receiveTime)
  ensure (batch.expectedNativeUnstaked = receivedNativeAmount)
    (.receivedWrongBatchAmount batchId batch.expectedNativeUnstaked receivedNativeAmount)
  let received : ReceivedBatch := ⟨batch.totalLstToBurn, batch.unstakeRequestsCount, receivedNativeAmount⟩
  return {
    hub := { s with
      submittedBatches := update s.submittedBatches batchId none
      receivedBatches := update s.receivedBatches batchId (some received) }
    messages := []
    events := [.receiveUnstakedTokens batchId receivedNativeAmount] }

def withdraw (stakerHash : Addr → H256) (s : Hub) (info : MessageInfo) (batchId : BatchId)
    (withdrawToAddress : Addr) : Handled := do
  (nonpayable info).mapError .payment
  ensureNotStopped s
  let batch ← orErr (s.receivedBatches batchId) (.batchNotYetReceived batchId)
  let key : UnstakeRequestKey := ⟨batchId, stakerHash info.sender⟩
  let request ← orErr (s.unstakeRequests key) (.noRequestInBatch batchId info.sender)
  let amount ← multiplyRatio batch.receivedNativeUnstaked request.amount batch.totalLstToBurn
  return {
    hub := { s with
      unstakeRequests := update s.unstakeRequests key none
      unstakeRequestsByStakerHash := update s.unstakeRequestsByStakerHash key none }
    messages := [.bankSend withdrawToAddress [⟨s.config.nativeTokenDenom, amount⟩]]
    events := [.withdraw info.sender batchId withdrawToAddress amount] }

def transferOwnership (env : Env) (s : Hub) (info : MessageInfo) (newOwner : Addr) : Handled := do
  (nonpayable info).mapError .payment
  ensureAdmin s info
  let minTime ← u64 (env.now + OWNERSHIP_CLAIM_DELAY_PERIOD_SECONDS) "overflow"
  return ⟨{ s with pendingOwner := some ⟨newOwner, minTime⟩ }, [], [.transferOwnership newOwner info.sender]⟩

def revokeOwnershipTransfer (s : Hub) (info : MessageInfo) : Handled := do
  (nonpayable info).mapError .payment
  ensureAdmin s info
  return ⟨{ s with pendingOwner := none }, [], [.revokeOwnershipTransfer]⟩

def acceptOwnership (env : Env) (s : Hub) (info : MessageInfo) : Handled := do
  (nonpayable info).mapError .payment
  let pendingOwner ← orErr s.pendingOwner .noPendingOwner
  ensure (pendingOwner.address = info.sender) .callerIsNotPendingOwner
  ensure (pendingOwner.ownerTransferMinTimeSeconds ≤ env.now)
    (.ownershipTransferNotReady env.now pendingOwner.ownerTransferMinTimeSeconds)
  return ⟨{ s with pendingOwner := none, admin := info.sender }, [], [.acceptOwnership info.sender]⟩

def updateConfig (s : Hub) (info : MessageInfo) (protocolFeeConfig : Option ProtocolFeeConfig)
    (monitors : Option (List Addr)) (batchPeriodSeconds unbondingPeriodSeconds : Option Nat) : Handled := do
  (nonpayable info).mapError .payment
  ensureAdmin s info
  return {
    hub := { s with
      protocolFeeConfig := protocolFeeConfig.getD s.protocolFeeConfig
      monitors := monitors.getD s.monitors
      config := { s.config with
        batchPeriodSeconds := batchPeriodSeconds.getD s.config.batchPeriodSeconds
        unbondingPeriodSeconds := unbondingPeriodSeconds.getD s.config.unbondingPeriodSeconds } }
    messages := []
    events := [.updateConfig protocolFeeConfig monitors batchPeriodSeconds unbondingPeriodSeconds] }

def circuitBreaker (s : Hub) (info : MessageInfo) : Handled := do
  (nonpayable info).mapError .payment
  ensureNotStopped s
  ensure (s.admin = info.sender ∨ info.sender ∈ s.monitors) (.unauthorized info.sender)
  return ⟨{ s with stopped := true }, [], [.circuitBreaker info.sender]⟩

def resumeContract (s : Hub) (info : MessageInfo) (newAccountingState : AccountingState) : Handled := do
  (nonpayable info).mapError .payment
  ensureAdmin s info
  ensureStopped s
  return {
    hub := { s with stopped := false, accountingState := newAccountingState }
    messages := []
    events := [.resumeContract newAccountingState] }

/-- One turn of the loop of `slash_batches`. -/
def slashBatch (submitted : BatchId → Option SubmittedBatch) (expected : BatchExpectedAmount) :
    ContractResult (BatchId → Option SubmittedBatch) := do
  let batch ← orErr (submitted expected.batchId) .notFound
  return update submitted expected.batchId
    (some { batch with expectedNativeUnstaked := expected.expectedNativeAmount })

def slashBatches (s : Hub) (info : MessageInfo) (expectedAmounts : List BatchExpectedAmount) : Handled := do
  (nonpayable info).mapError .payment
  ensureAdmin s info
  ensureStopped s
  let submittedBatches ← expectedAmounts.foldlM slashBatch s.submittedBatches
  return {
    hub := { s with submittedBatches }
    messages := []
    events := expectedAmounts.map fun e => .slashBatch e.batchId e.expectedNativeAmount }

def receiveBatch (env : Env) (s : Hub) (info : MessageInfo) (batchId : BatchId) : Handled := do
  (nonpayable info).mapError .payment
  ensureNotStopped s
  let batch ← orErr (s.submittedBatches batchId) (.batchNotFound batchId)
  ensure (batch.receiveTime ≤ env.now) (.batchNotReady env.now batch.receiveTime)
  return {
    hub := s
    messages := [.wasm s.stakerAddress (.staker (.receiveUnstakedTokens batchId)) []]
    events := [.receiveBatch batchId batch.expectedNativeUnstaked] }

def Hub.execute (stakerHash : Addr → H256) (env : Env) (s : Hub) (total : List DecCoin) (info : MessageInfo) :
    ExecuteMsg → Handled
  | .bond mintToAddress minMintAmount => bond s total info mintToAddress minMintAmount
  | .unbond amount => unbond stakerHash env s info amount
  | .submitBatch => submitBatch env s total info
  | .withdraw withdrawToAddress batchId => withdraw stakerHash s info batchId withdrawToAddress
  | .transferOwnership newOwner => transferOwnership env s info newOwner
  | .acceptOwnership => acceptOwnership env s info
  | .revokeOwnershipTransfer => revokeOwnershipTransfer s info
  | .updateConfig protocolFeeConfig monitors batchPeriodSeconds unbondingPeriodSeconds =>
    updateConfig s info protocolFeeConfig monitors batchPeriodSeconds unbondingPeriodSeconds
  | .receiveRewards => receiveRewards s info
  | .rebase => rebase s info
  | .receiveBatch batchId => receiveBatch env s info batchId
  | .receiveUnstakedTokens batchId => receiveUnstakedTokens env s info batchId
  | .circuitBreaker => circuitBreaker s info
  | .resumeContract newAccountingState => resumeContract s info newAccountingState
  | .slashBatches newAmounts => slashBatches s info newAmounts

/-! ## A hub to evaluate on -/

def sampleInit : InitMsg where
  nativeTokenDenom := "au"
  minimumLiquidStakeAmount := 1
  stakerAddress := "staker"
  protocolFeeConfig := ⟨10000, "treasury"⟩
  lstAddress := "lst"
  batchPeriodSeconds := 10
  unbondingPeriodSeconds := 20
  monitors := []
  admin := "admin"

def sampleHub : Hub where
  stopped := false
  config := ⟨"au", 1, 10, 20⟩
  protocolFeeConfig := ⟨10000, "treasury"⟩
  accountingState := ⟨0, 0, 0⟩
  admin := "admin"
  pendingOwner := none
  monitors := []
  stakerAddress := "staker"
  lstAddress := "lst"
  currentPendingBatch := .new .one 10
  submittedBatches := fun _ => none
  receivedBatches := fun _ => none
  unstakeRequests := fun _ => none
  unstakeRequestsByStakerHash := fun _ => none

theorem sampleHub_init : Hub.init ⟨0, "hub"⟩ sampleInit = .ok sampleHub := rfl

end UnionVoyager.Lst
