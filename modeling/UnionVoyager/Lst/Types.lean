import UnionVoyager.Lib.Bytes
import UnionVoyager.Lib.Result

/-!
# Data model of the liquid staking hub

The types of `cosmwasm/lst/src/types.rs`, the messages of `msg.rs`, the errors of `error.rs`, what a
handler receives from the host, and the conversions of `helpers.rs`.

Amounts are `u128` and times are `u64` in the source.  Here they are natural numbers, and every
operation that the source checks is checked: a result that does not fit is a panic, as the source
unwraps it.
-/

namespace UnionVoyager.Lst

open Lib

abbrev Addr := String

abbrev H256 := Bytes

/-- `BatchId`, a `NonZeroU64`; the first one is `BatchId.one`. -/
abbrev BatchId := Nat

def BatchId.one : BatchId := 1

structure Coin where
  denom : String
  amount : Nat
  deriving DecidableEq

/-- An amount with eighteen decimals, in units of the last one. -/
structure DecCoin where
  denom : String
  atomics : Nat

def DecCoin.toUintFloor (c : DecCoin) : Nat := c.atomics / 10 ^ 18

structure MessageInfo where
  sender : Addr
  funds : List Coin

/-- The block time in seconds, and the address of the contract that runs. -/
structure Env where
  now : Nat
  contract : Addr

inductive PaymentError where
  | missingDenom (denom : String)
  | multipleDenoms
  | noFunds
  | nonPayable
  deriving DecidableEq

/-- `ContractError`, and the panics of the handlers. -/
inductive ContractError where
  | notFound
  | payment (e : PaymentError)
  | unauthorized (sender : Addr)
  | noPendingOwner
  | callerIsNotPendingOwner
  | ownershipTransferNotReady (nowSeconds claimableAtSeconds : Nat)
  | minimumLiquidStakeAmount (minimumStakeAmount sentAmount : Nat)
  | computedMintAmountIsZero
  | batchNotReady (now readyAt : Nat)
  | noUnstakeRequestsInCurrentBatch (batchId : BatchId)
  | batchNotFound (batchId : BatchId)
  | receivedWrongBatchAmount (batchId : BatchId) (expected received : Nat)
  | batchNotYetReceived (batchId : BatchId)
  | noRequestInBatch (batchId : BatchId) (staker : Addr)
  | invalidUnstakeAmount (totalIssuedLst amountToUnstake : Nat)
  | stopped
  | notStopped
  | computedFeesAreZero (receivedRewards : Nat)
  | noLiquidStake
  | slippageNotMet (minMintAmount actual : Nat)
  | invalidProtocolFeeRate
  | batchPeriodLargerThanUnbondingPeriod (batchPeriodSeconds unbondingPeriodSeconds : Nat)
  | attemptedToUnbondMoreThanBonded (unbondAmount totalBondedNativeTokens : Nat)
  | panic (msg : String)
  deriving DecidableEq

abbrev ContractResult := Except ContractError

def oneCoin (info : MessageInfo) : Except PaymentError Coin :=
  match info.funds with
  | [] => .error .noFunds
  | [coin] => if coin.amount = 0 then .error .noFunds else .ok coin
  | _ :: _ :: _ => .error .multipleDenoms

def mustPay (info : MessageInfo) (denom : String) : Except PaymentError Nat := do
  let coin ← oneCoin info
  if coin.denom ≠ denom then .error (.missingDenom denom) else .ok coin.amount

def nonpayable (info : MessageInfo) : Except PaymentError Unit := ensure (info.funds = []) .nonPayable

theorem mustPay_eq_ok {info : MessageInfo} {denom : String} {amount : Nat} :
    mustPay info denom = .ok amount ↔ 0 < amount ∧ info.funds = [⟨denom, amount⟩] := by
  unfold mustPay oneCoin
  split
  · rename_i h
    simp [h]
  · rename_i coin h
    rw [h]
    split
    · rename_i hzero
      simp only [error_bind, reduceCtorEq, List.cons.injEq, and_true, false_iff, not_and]
      rintro hpos rfl
      simp at hzero
      omega
    · rename_i hpos
      rw [ok_bind]
      obtain ⟨d, a⟩ := coin
      split
      · rename_i hne
        simp only [reduceCtorEq, List.cons.injEq, Coin.mk.injEq, and_true, false_iff, not_and]
        intro _ hd
        exact absurd hd hne
      · rename_i hd
        simp only [ne_eq, Decidable.not_not] at hd hpos
        simp only [Except.ok.injEq, List.cons.injEq, Coin.mk.injEq, and_true]
        constructor
        · rintro rfl
          exact ⟨Nat.pos_of_ne_zero hpos, hd, rfl⟩
        · exact fun h => h.2.2
  · rename_i h
    simp [h]

@[simp] theorem nonpayable_eq_ok {info : MessageInfo} {u : Unit} :
    nonpayable info = .ok u ↔ info.funds = [] := ensure_eq_ok

/-! ## Checked arithmetic -/

/-- A `u128`, or the panic of the `expect` behind it. -/
def u128 (n : Nat) (msg : String) : ContractResult Nat :=
  if n < 2 ^ 128 then .ok n else .error (.panic msg)

/-- A `u64`, or the panic of the `expect` behind it. -/
def u64 (n : Nat) (msg : String) : ContractResult Nat :=
  if n < 2 ^ 64 then .ok n else .error (.panic msg)

@[simp] theorem u128_eq_ok {n m : Nat} {msg : String} : u128 n msg = .ok m ↔ n < 2 ^ 128 ∧ n = m := by
  unfold u128
  split
  · rename_i h
    rw [Except.ok.injEq]
    exact ⟨fun heq => ⟨h, heq⟩, And.right⟩
  · rename_i h
    exact ⟨nofun, fun heq => absurd heq.1 h⟩

@[simp] theorem u64_eq_ok {n m : Nat} {msg : String} : u64 n msg = .ok m ↔ n < 2 ^ 64 ∧ n = m := by
  unfold u64
  split
  · rename_i h
    rw [Except.ok.injEq]
    exact ⟨fun heq => ⟨h, heq⟩, And.right⟩
  · rename_i h
    exact ⟨nofun, fun heq => absurd heq.1 h⟩

/-- `a.checked_sub(b)`, with the error or the panic the caller makes of a negative result. -/
def checkedSub (a b : Nat) (e : ContractError) : ContractResult Nat :=
  if b ≤ a then .ok (a - b) else .error e

@[simp] theorem checkedSub_eq_ok {a b c : Nat} {e : ContractError} : checkedSub a b e = .ok c ↔
      b ≤ a ∧ a - b = c := by
  by_cases h : b ≤ a <;> simp [checkedSub, h]

/-- `Uint128::multiply_ratio`: the product is taken in 256 bits, and both failures are panics. -/
def multiplyRatio (x numerator denominator : Nat) : ContractResult Nat :=
  if denominator = 0 then .error (.panic "Denominator must not be zero")
  else u128 (x * numerator / denominator) "Multiplication overflow"

@[simp] theorem multiplyRatio_eq_ok {x n d y : Nat} :
    multiplyRatio x n d = .ok y ↔ 0 < d ∧ x * n / d < 2 ^ 128 ∧ x * n / d = y := by
  unfold multiplyRatio
  split
  · simp_all
  · rw [u128_eq_ok]
    omega

/-! ## Records of the stores -/

structure PendingBatch where
  batchId : BatchId
  totalLstToBurn : Nat
  unstakeRequestsCount : Nat
  submitTime : Nat

def PendingBatch.new (batchId : BatchId) (submitTime : Nat) : PendingBatch where
  batchId := batchId
  totalLstToBurn := 0
  unstakeRequestsCount := 0
  submitTime := submitTime

structure SubmittedBatch where
  totalLstToBurn : Nat
  unstakeRequestsCount : Nat
  receiveTime : Nat
  expectedNativeUnstaked : Nat

structure ReceivedBatch where
  totalLstToBurn : Nat
  unstakeRequestsCount : Nat
  receivedNativeUnstaked : Nat

structure BatchExpectedAmount where
  batchId : BatchId
  expectedNativeAmount : Nat
  deriving DecidableEq

structure Config where
  nativeTokenDenom : String
  minimumLiquidStakeAmount : Nat
  batchPeriodSeconds : Nat
  unbondingPeriodSeconds : Nat

structure ProtocolFeeConfig where
  feeRate : Nat
  feeRecipient : Addr
  deriving DecidableEq

structure AccountingState where
  totalBondedNativeTokens : Nat
  totalIssuedLst : Nat
  totalRewardAmount : Nat
  deriving DecidableEq

structure PendingOwner where
  address : Addr
  ownerTransferMinTimeSeconds : Nat

structure UnstakeRequestKey where
  batchId : BatchId
  stakerHash : H256
  deriving DecidableEq

structure UnstakeRequest where
  batchId : BatchId
  staker : Addr
  amount : Nat

/-! ## Messages -/

inductive ExecuteMsg where
  | bond (mintToAddress : Addr) (minMintAmount : Nat)
  | unbond (amount : Nat)
  | withdraw (withdrawToAddress : Addr) (batchId : BatchId)
  | submitBatch
  | transferOwnership (newOwner : Addr)
  | acceptOwnership
  | revokeOwnershipTransfer
  | updateConfig (protocolFeeConfig : Option ProtocolFeeConfig) (monitors : Option (List Addr))
      (batchPeriodSeconds unbondingPeriodSeconds : Option Nat)
  | receiveRewards
  | rebase
  | receiveBatch (batchId : BatchId)
  | receiveUnstakedTokens (batchId : BatchId)
  | circuitBreaker
  | resumeContract (accountingState : AccountingState)
  | slashBatches (newAmounts : List BatchExpectedAmount)
  deriving DecidableEq

/-- `StakerExecuteMsg`, what the hub asks of the staker. -/
inductive StakerExecuteMsg where
  | stake
  | unstake (amount : Nat)
  | rebase
  | receiveUnstakedTokens (batchId : BatchId)
  deriving DecidableEq

/-- The messages of the LST token (`cw20`). -/
inductive Cw20ExecuteMsg where
  | transfer (recipient : Addr) (amount : Nat)
  | burn (amount : Nat)
  | mint (recipient : Addr) (amount : Nat)
  | increaseAllowance (spender : Addr) (amount : Nat)
  | transferFrom (owner recipient : Addr) (amount : Nat)
  deriving DecidableEq

inductive WasmMsg where
  | hub (msg : ExecuteMsg)
  | staker (msg : StakerExecuteMsg)
  | cw20 (msg : Cw20ExecuteMsg)
  deriving DecidableEq

/-- The messages a contract hands to the host: to another contract, to the bank, and to the staking
    and distribution modules. -/
inductive CosmosMsg where
  | wasm (contract : Addr) (msg : WasmMsg) (funds : List Coin)
  | bankSend (toAddress : Addr) (amount : List Coin)
  | delegate (validator : String) (amount : Coin)
  | undelegate (validator : String) (amount : Coin)
  | withdrawDelegatorReward (validator : String)
  deriving DecidableEq

/-- The coins that leave the sender of a message with it. -/
def CosmosMsg.coins : CosmosMsg → List Coin
  | .wasm _ _ funds => funds
  | .bankSend _ amount => amount
  | .delegate _ amount => [amount]
  | .undelegate _ _ => []
  | .withdrawDelegatorReward _ => []

/-- How much of a denomination is among the coins. -/
def amountOf (denom : String) (coins : List Coin) : Nat :=
    ((coins.filter fun c => c.denom = denom).map Coin.amount).sum

@[simp] theorem amountOf_nil (denom : String) : amountOf denom [] = 0 := rfl

@[simp] theorem amountOf_singleton (denom : String) (amount : Nat) :
    amountOf denom [⟨denom, amount⟩] = amount := by
  simp [amountOf]

/-! ## Conversions -/

def assetsToShares (totalAssets totalShares assets : Nat) : ContractResult Nat :=
  if totalAssets = 0 then .ok assets else multiplyRatio assets totalShares totalAssets

def sharesToAssets (totalAssets totalShares shares : Nat) : ContractResult Nat :=
  if shares = 0 then .ok 0 else multiplyRatio shares totalAssets totalShares

/-- `total_pending_rewards`, from the total that the distribution module reports.  The sum is taken
    in 256 bits; it and the conversion to `u128` fail with one text. -/
def totalPendingRewards (nativeTokenDenom : String) (total : List DecCoin) : ContractResult Nat :=
  u128 (((total.filter fun c => c.denom = nativeTokenDenom).map DecCoin.atomics).sum / 10 ^ 18)
    "too many tokens"

def totalAssets (state : AccountingState) (nativeTokenDenom : String) (total : List DecCoin) :
    ContractResult Nat := do
  let pending ← totalPendingRewards nativeTokenDenom total
  u128 (state.totalBondedNativeTokens + pending) "overflow"

end UnionVoyager.Lst
