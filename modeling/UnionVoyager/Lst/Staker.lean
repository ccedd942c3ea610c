import UnionVoyager.Lst.Hub
import UnionVoyager.Lib.Rounding

/-!
# The staker

`cosmwasm/lst-staker/src/lib.rs`: the contract that delegates for the hub.  It keeps the address of the hub
and the shares of the validators, and asks the hub and the distribution module (`Querier`).  The messages
of its administrator are left out, so both never change.
-/

namespace UnionVoyager.Lst

open Lib

/-- The store `Validators`.  `set_validators` refuses shares that sum to more than a `u128`. -/
structure Validators where
  entries : List (String × Nat)
  nodup : (entries.map Prod.fst).Nodup
  fits : (entries.map Prod.snd).sum < 2 ^ 128

/-- Two validators of equal shares. -/
def Validators.sample : Validators := ⟨[("v1", 1), ("v2", 1)], by decide, by decide⟩

theorem Validators.sample_nodup : ["v1", "v2"].Nodup := sample.nodup

structure Staker where
  lstHub : Addr
  validators : Validators

/-- The fold over the shares; its `expect` cannot fail, as the sum was checked. -/
def Validators.totalShares (v : Validators) : Nat := (v.entries.map Prod.snd).sum

structure DelegatorReward where
  validatorAddress : String
  reward : List DecCoin

inductive Batch where
  | pending (batch : PendingBatch)
  | submitted (batch : SubmittedBatch)
  | received (batch : ReceivedBatch)

/-- `query_batch` of the hub. -/
def Hub.queryBatch (s : Hub) (batchId : BatchId) : Option Batch :=
  match s.receivedBatches batchId, s.submittedBatches batchId with
  | some batch, _ => some (.received batch)
  | none, some batch => some (.submitted batch)
  | none, none => if s.currentPendingBatch.batchId =
      batchId then some (.pending s.currentPendingBatch) else none

/-- What the staker asks for: the configuration and the batches of the hub, and its own rewards. -/
structure Querier where
  nativeTokenDenom : String
  batch : BatchId → Option Batch
  rewards : List DelegatorReward

inductive StakerError where
  | onlyLstHub (sender : Addr)
  | payment (e : PaymentError)
  | batchStillPending (batchId : BatchId)
  | batchAlreadyReceived (batchId : BatchId)
  | batchNotReady (now readyAt : Nat)
  | std
  | arithmetic (e : ContractError)
  deriving DecidableEq

abbrev StakerResult := Except StakerError

def ensureLstHub (s : Staker) (info : MessageInfo) : StakerResult Unit :=
  ensure (info.sender = s.lstHub) (.onlyLstHub info.sender)

def calculateValidatorDelegation (totalAmountToStake shares totalShares : Nat) : StakerResult Nat :=
  (multiplyRatio totalAmountToStake shares totalShares).mapError .arithmetic

/-- The coins of a denomination in the rewards of one validator, each rounded down. -/
def DelegatorReward.claimable (denom : String) (d : DelegatorReward) : Nat :=
  ((d.reward.filter fun c => c.denom = denom).map DecCoin.toUintFloor).sum

/-- `withdraw_all_rewards`: what can be claimed, and the messages that claim it.  The individual rewards
    are rounded down, not their sum. -/
def withdrawAllRewards (q : Querier) : StakerResult (Nat × List CosmosMsg) := do
  let totalPendingRewards ←
    (u128 (q.rewards.map (DelegatorReward.claimable q.nativeTokenDenom)).sum
      "too many tokens").mapError .arithmetic
  let messages := q.rewards.filterMap fun d =>
    if d.reward.any (fun c => c.denom = q.nativeTokenDenom) then some
      (.withdrawDelegatorReward d.validatorAddress)
    else none
  return (totalPendingRewards, messages)

def Validators.parts (v : Validators) (amount : Nat) : StakerResult (List (String × Nat)) :=
  v.entries.mapM fun entry => do
    let part ← calculateValidatorDelegation amount entry.2 v.totalShares
    return (entry.1, part)

def Staker.stake (s : Staker) (q : Querier) (info : MessageInfo) : StakerResult (List CosmosMsg) := do
  let amountToStake ← (mustPay info q.nativeTokenDenom).mapError .payment
  let (totalPendingRewards, withdrawMsgs) ← withdrawAllRewards q
  let totalAmountToStake ← (u128 (amountToStake + totalPendingRewards) "overflow").mapError .arithmetic
  let parts ← s.validators.parts totalAmountToStake
  return withdrawMsgs ++ parts.map fun part => .delegate part.1 ⟨q.nativeTokenDenom, part.2⟩

def Staker.rebase (s : Staker) (q : Querier) : StakerResult (List CosmosMsg) := do
  let (totalPendingRewards, withdrawMsgs) ← withdrawAllRewards q
  return withdrawMsgs ++ [.wasm s.lstHub (.hub .receiveRewards) [⟨q.nativeTokenDenom, totalPendingRewards⟩]]

/-- Rewards are claimed first, so that they do not sit in the contract after the tokens are unstaked. -/
def Staker.unstake (s : Staker) (q : Querier) (amount : Nat) : StakerResult (List CosmosMsg) := do
  let rebaseMsgs ← s.rebase q
  let parts ← s.validators.parts amount
  return rebaseMsgs ++ parts.map fun part => .undelegate part.1 ⟨q.nativeTokenDenom, part.2⟩

def Staker.receiveUnstakedTokens (env : Env) (s : Staker) (q : Querier) (batchId : BatchId) :
    StakerResult (List CosmosMsg) := do
  let batch ← orErr (q.batch batchId) .std
  match batch with
  | .submitted batch =>
    ensure (batch.receiveTime ≤ env.now) (.batchNotReady env.now batch.receiveTime)
    return [.wasm s.lstHub (.hub (.receiveUnstakedTokens batchId))
      [⟨q.nativeTokenDenom, batch.expectedNativeUnstaked⟩]]
  | .pending _ => .error (.batchStillPending batchId)
  | .received _ => .error (.batchAlreadyReceived batchId)

def Staker.execute (env : Env) (s : Staker) (q : Querier) (info : MessageInfo) (msg : StakerExecuteMsg) :
    StakerResult (List CosmosMsg) := do
  ensureLstHub s info
  match msg with
  | .stake => s.stake q info
  | .unstake amount => s.unstake q amount
  | .rebase => s.rebase q
  | .receiveUnstakedTokens batchId => s.receiveUnstakedTokens env q batchId

/-! ## Pending rewards

The hub rounds down the sum of the rewards, the staker sums what it has rounded down. -/

/-- The coins of a denomination, in parts of `10 ^ 18`. -/
def atomicsOf (denom : String) (coins : List DecCoin) : List Nat :=
  (coins.filter fun c => c.denom = denom).map DecCoin.atomics

/-- What the messages are paid: for a validator, its reward in the denomination, rounded down. -/
def paidOut (q : Querier) (msgs : List CosmosMsg) : Nat :=
  ((q.rewards.filter fun d => .withdrawDelegatorReward d.validatorAddress ∈ msgs).map fun d =>
    (atomicsOf q.nativeTokenDenom d.reward).sum / 10 ^ 18).sum

variable {q : Querier} {claimed : Nat} {msgs : List CosmosMsg}

theorem claimable_eq (denom : String) (d : DelegatorReward) :
    d.claimable denom = ((atomicsOf denom d.reward).map (· / 10 ^ 18)).sum := by
  simp only [DelegatorReward.claimable, atomicsOf, List.map_map]
  rfl

theorem sum_claimable (denom : String) (rewards : List DelegatorReward) :
    (rewards.map (DelegatorReward.claimable denom)).sum =
      ((atomicsOf denom (rewards.flatMap DelegatorReward.reward)).map (· / 10 ^ 18)).sum := by
  induction rewards with
  | nil => rfl
  | cons d rewards ih =>
    rw [List.map_cons, List.sum_cons, ih, claimable_eq]
    simp only [atomicsOf, List.flatMap_cons, List.filter_append, List.map_append, List.sum_append]

theorem withdrawAllRewards_eq (h : withdrawAllRewards q = .ok (claimed, msgs)) :
    claimed = (q.rewards.map (DelegatorReward.claimable q.nativeTokenDenom)).sum ∧ claimed < 2 ^ 128 ∧
      ∀ d ∈ q.rewards, (.withdrawDelegatorReward d.validatorAddress ∈ msgs ∨
        d.claimable q.nativeTokenDenom = 0) := by
  simp only [withdrawAllRewards, bind_eq_ok, mapError_eq_ok, u128_eq_ok, pure_eq_ok, Prod.mk.injEq] at h
  obtain ⟨_, ⟨hlt, rfl⟩, rfl, rfl⟩ := h
  refine ⟨rfl, hlt, ?_⟩
  intro d hd
  by_cases hany : d.reward.any (fun c => c.denom = q.nativeTokenDenom) = true
  · exact .inl (List.mem_filterMap.mpr ⟨d, hd, if_pos hany⟩)
  · refine .inr ?_
    have hnone : d.reward.filter (fun c => c.denom = q.nativeTokenDenom) = [] := by
      rw [List.filter_eq_nil_iff]
      intro c hc hdenom
      exact hany (List.any_eq_true.mpr ⟨c, hc, hdenom⟩)
    rw [DelegatorReward.claimable, hnone]
    rfl

theorem claimed_le_paidOut (h : withdrawAllRewards q = .ok (claimed, msgs)) : claimed ≤ paidOut q msgs := by
  obtain ⟨rfl, -, hmsgs⟩ := withdrawAllRewards_eq h
  unfold paidOut
  generalize q.rewards = rewards at hmsgs ⊢
  induction rewards with
  | nil => exact Nat.le_refl 0
  | cons d rewards ih =>
    obtain ⟨hd, hrest⟩ := List.forall_mem_cons.mp hmsgs
    have hle := sum_div_le (atomicsOf q.nativeTokenDenom d.reward) (10 ^ 18)
    rw [← claimable_eq] at hle
    have hih := ih hrest
    rw [List.filter_cons]
    split
    · simp only [List.map_cons, List.sum_cons]
      omega
    · rename_i hnot
      have hzero := hd.resolve_left (by simpa using hnot)
      simp only [List.map_cons, List.sum_cons]
      omega

/-- **The hub and the staker agree on the pending rewards iff the fractions of all rewards add up to
    less than one token**; the messages of the staker are paid what it forwards in any case. -/
theorem pending_agrees_iff {total : List DecCoin}
    (htotal : ∀ denom, (atomicsOf denom total).sum =
      (atomicsOf denom (q.rewards.flatMap DelegatorReward.reward)).sum)
    (h : withdrawAllRewards q = .ok (claimed, msgs)) :
    totalPendingRewards q.nativeTokenDenom total = .ok claimed ∧ claimed ≤ paidOut q msgs ↔
      ((atomicsOf q.nativeTokenDenom (q.rewards.flatMap DelegatorReward.reward)).map
        (· % 10 ^ 18)).sum < 10 ^ 18 := by
  have hpaid := claimed_le_paidOut h
  obtain ⟨hclaimed, hlt, -⟩ := withdrawAllRewards_eq h
  have hsum := sum_div_eq (d := 10 ^ 18) (by decide)
    (atomicsOf q.nativeTokenDenom (q.rewards.flatMap DelegatorReward.reward))
  have hzero := Nat.div_eq_zero_iff (a := ((atomicsOf q.nativeTokenDenom
    (q.rewards.flatMap DelegatorReward.reward)).map (· % 10 ^ 18)).sum) (b := 10 ^ 18)
  rw [sum_claimable] at hclaimed
  have hpending : totalPendingRewards q.nativeTokenDenom total =
      u128 ((atomicsOf q.nativeTokenDenom (q.rewards.flatMap DelegatorReward.reward)).sum / 10 ^ 18)
        "too many tokens" := by
    rw [← htotal]
    rfl
  rw [hpending, u128_eq_ok, hsum, ← hclaimed]
  omega

namespace Sample

/-- One and a half tokens at one validator, a half at another. -/
def halves : Querier where
  nativeTokenDenom := "au"
  batch _ := none
  rewards := [⟨"val-1", [⟨"au", 1500000000000000000⟩]⟩, ⟨"val-2", [⟨"au", 500000000000000000⟩]⟩]

def single : Querier := { halves with rewards := [⟨"val-1", [⟨"au", 1500000000000000000⟩]⟩] }

end Sample

open Sample in
theorem pending_agrees_single : totalPendingRewards "au" [⟨"au", 1500000000000000000⟩] = .ok 1 ∧
    1 ≤ paidOut single [.withdrawDelegatorReward "val-1"] :=
  Iff.mpr (pending_agrees_iff (q := single) (fun _ => rfl) rfl) (by decide)

open Sample in
/-- The hub counts two tokens, of which the staker claims one. -/
theorem halves_disagree : totalPendingRewards "au" [⟨"au", 2000000000000000000⟩] = .ok 2 ∧
    withdrawAllRewards halves =
      .ok (1, [.withdrawDelegatorReward "val-1", .withdrawDelegatorReward "val-2"]) :=
  ⟨rfl, rfl⟩

end UnionVoyager.Lst
