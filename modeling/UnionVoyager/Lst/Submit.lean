import UnionVoyager.Lst.Reachable

/-!
# When a ready batch can be submitted

The submission prices the batch with the rewards that are pending, has the staker claim them, and takes them
back through `receive_rewards`, which refuses rewards that are too small and a hub without LST.
-/

namespace UnionVoyager.Lst

open Lib

variable {stakerHash : Addr → H256} {w : World}

/-- What is left of the claimable rewards for staking. -/
def World.restaked (w : World) : Nat := w.chain.claimable - w.hub.protocolFee w.chain.claimable

/-- The condition under which a ready batch goes through. -/
structure World.Settleable (w : World) : Prop where
  /-- What the batch is worth is bonded. -/
  bonded : w.unbondAmount ≤ w.hub.accountingState.totalBondedNativeTokens
  /-- There are rewards to claim, of which the fee takes a part and leaves a part. -/
  fee_pos : 0 < w.hub.protocolFee w.chain.claimable
  fee_lt : w.hub.protocolFee w.chain.claimable < w.chain.claimable
  /-- Every validator gets a part of what is staked again, and gives a part of what is unstaked. -/
  restaked : w.staker.validators.Reached w.restaked
  unstaked : w.staker.validators.Reached w.unbondAmount
  /-- No validator has to give more than it has. -/
  delegated : ∀ v, partOf (w.staker.validators.split w.unbondAmount) v ≤
    w.chain.delegations v + partOf (w.staker.validators.split w.restaked) v
  /-- No sum overflows. -/
  assets_fit : w.assets < 2 ^ 128
  bonded_fits : w.hub.accountingState.totalBondedNativeTokens - w.unbondAmount + w.restaked < 2 ^ 128
  rewards_fit : w.hub.accountingState.totalRewardAmount + w.chain.claimable < 2 ^ 128
  receiveTime : w.chain.now + w.hub.config.unbondingPeriodSeconds < 2 ^ 64
  batchId : w.hub.currentPendingBatch.batchId + 1 < 2 ^ 64
  submitTime : w.chain.now + w.hub.config.batchPeriodSeconds < 2 ^ 64

theorem rebased_delegations (w : World) (v : String) : w.rebased.chain.delegations v =
    w.chain.delegations v + partOf (w.staker.validators.split w.restaked) v := by
  have hclaimable : (w.claimed.credited w.stakerAddr w.chain.claimable).chain.claimable = 0 :=
    claim_claimable _ w.stakerAddr
  have hdelegations : w.rebased.chain.delegations v = w.chain.delegations v +
      partOf (w.staker.validators.split
      (w.restaked + (w.claimed.credited w.stakerAddr w.chain.claimable).chain.claimable)) v := rfl
  rw [hdelegations, hclaimable, Nat.add_zero]

theorem closed_claimable (w : World) : w.closed.claimed.chain.claimable = 0 := claim_claimable _ w.stakerAddr

theorem World.Settleable.remaining (hsettle : w.Settleable) (h : Orderly w) :
    w.hub.currentPendingBatch.totalLstToBurn < w.hub.accountingState.totalIssuedLst := by
  refine lt_of_le_of_ne h.custody.held_le fun heq => ?_
  have hpending : w.chain.pending = 0 := by
    by_cases hzero : w.hub.accountingState.totalIssuedLst = 0
    · have hassets := h.assets_eq_zero hzero
      rw [World.assets] at hassets
      omega
    · have hall : w.unbondAmount = w.assets := by
        rw [World.unbondAmount, heq, Nat.mul_div_cancel_left _ (Nat.pos_of_ne_zero hzero)]
      have hbonded := hsettle.bonded
      rw [hall, World.assets] at hbonded
      omega
  have hclaimable := claimable_le_pending w.chain
  have hfee := hsettle.fee_lt
  omega

section Ready

variable (hready : w.hub.currentPendingBatch.submitTime ≤ w.chain.now)
  (hrequested : 0 < w.hub.currentPendingBatch.unstakeRequestsCount)

include hready hrequested

theorem World.Settleable.submittable (hsettle : w.Settleable) (h : Orderly w) : w.Submittable where
  running := h.running
  ready := hready
  requested := hrequested
  issued := h.custody.held_le
  assets := hsettle.assets_fit
  bonded := hsettle.bonded
  receiveTime := hsettle.receiveTime
  batchId := hsettle.batchId
  submitTime := hsettle.submitTime
  held := h.custody.holds
  supply := h.custody.holds.trans (counted_le h.custody.counted _)
  unstakeable := by
    refine ⟨⟨h.running, ?_, hsettle.fee_pos, hsettle.fee_lt, ?_, hsettle.bonded_fits,
      hsettle.rewards_fit, ?_, ?_⟩, hsettle.unstaked, ?_⟩
    · -- the staker has just claimed them
      change w.chain.claimable ≤ Function.update w.chain.bank w.stakerAddr _ w.stakerAddr
      rw [Function.update_self]
      exact Nat.le_add_left ..
    · change w.hub.accountingState.totalIssuedLst - w.hub.currentPendingBatch.totalLstToBurn ≠ 0
      have hremaining := hsettle.remaining h
      omega
    · rw [closed_claimable]
      exact (Nat.le_add_left _ _).trans_lt hsettle.bonded_fits
    · rw [closed_claimable]
      exact hsettle.restaked
    · intro v
      rw [rebased_delegations]
      exact hsettle.delegated v

omit hready hrequested in
theorem World.Submittable.settleable (h : w.Submittable) : w.Settleable where
  bonded := h.bonded
  fee_pos := h.unstakeable.rewardable.fee_pos
  fee_lt := h.unstakeable.rewardable.fee_lt
  restaked := by
    have hreached := h.unstakeable.rewardable.reached
    rw [closed_claimable] at hreached
    exact hreached
  unstaked := h.unstakeable.reached
  delegated := by
    intro v
    have hdelegated := h.unstakeable.delegated v
    rw [rebased_delegations] at hdelegated
    exact hdelegated
  assets_fit := h.assets
  bonded_fits := h.unstakeable.rewardable.bonded
  rewards_fit := h.unstakeable.rewardable.total
  receiveTime := h.receiveTime
  batchId := h.batchId
  submitTime := h.submitTime

/-- **A ready batch is submitted, with all messages that follow, iff it is settleable**, in every
    state that is reached without the administrator.  More LST than there are is never asked for. -/
theorem submit_iff (h : Reachable stakerHash w) (sender : Addr) :
    ((∃ w', w.transact stakerHash sender w.hubAddr (.hub .submitBatch) [] = .ok w') ↔ w.Settleable) ∧
      w.hub.currentPendingBatch.totalLstToBurn ≤ w.hub.accountingState.totalIssuedLst := by
  have horderly := reachable_orderly h
  refine ⟨⟨?_, ?_⟩, horderly.custody.held_le⟩
  · rintro ⟨w', hrun⟩
    rw [transact_eq] at hrun
    exact ((submit_eq_ok horderly.linked).mp hrun).2.1.settleable
  · intro hsettle
    refine ⟨w.submitted, ?_⟩
    rw [transact_eq]
    exact (submit_eq_ok horderly.linked).mpr ⟨rfl, hsettle.submittable hready hrequested horderly, rfl⟩

end Ready

/-- The error of a transaction that fails. -/
def TxError.of : TxResult World → Option TxError
  | .ok _ => none
  | .error e => some e

theorem exists_ok {x : TxResult World} (h : TxError.of x = none) : ∃ w', x = .ok w' := by
  cases x with
  | ok w' => exact ⟨w', rfl⟩
  | error e => cases h

theorem submit_iff_sample : (sampleRequested 100 100).Settleable :=
  (submit_iff (by decide) (by decide) (sampleRequested_reachable 100 100) "bob").1.mp
    (exists_ok (by decide))

/-- The submission of the batch of `sampleRequested` fails, and how. -/
def sampleFailure (amount rewards : Nat) : Option TxError :=
  TxError.of ((sampleRequested amount rewards).transact (fun _ => []) "bob" "hub" (.hub .submitBatch) [])

/-- **Ready batches that cannot be submitted**: there are no rewards, the fee on them is zero, the
    batch burns all LST or, with large rewards, most of it. -/
theorem submit_refused : (∀ amount rewards, Reachable (fun _ => []) (sampleRequested amount rewards)) ∧
      sampleFailure 100 0 = some (.hub (.payment .noFunds)) ∧
      sampleFailure 100 5 = some (.hub (.computedFeesAreZero 5)) ∧
      sampleFailure 1000 100 = some (.hub (.attemptedToUnbondMoreThanBonded 1100 1000)) ∧
      sampleFailure 900 1000 = some (.hub (.attemptedToUnbondMoreThanBonded 1800 1000)) :=
  ⟨sampleRequested_reachable, by decide, by decide, by decide, by decide⟩

end UnionVoyager.Lst
