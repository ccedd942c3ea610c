import UnionVoyager.Lst.Transactions
import UnionVoyager.Lst.Token

/-!
# What the messages of accounts do

* `submit_eq_ok` — when a batch is submitted together with everything that follows, and the state it ends in.
-/

namespace UnionVoyager.Lst

open Lib Function List

variable {stakerHash : Addr → H256} {w w' : World} {sender contract : Addr} {funds : List Coin} {d : Nat}
  {batchId : BatchId}

/-- `total_assets` of the hub: what is bonded and what is pending with the staker. -/
def World.assets (w : World) : Nat := w.hub.accountingState.totalBondedNativeTokens + w.chain.pending

theorem totalAssets_eq_ok {assets : Nat} :
    totalAssets w.hub.accountingState w.chain.denom w.chain.totalRewards = .ok assets ↔
      w.assets < 2 ^ 128 ∧ assets = w.assets := by
  simp only [totalAssets, totalPendingRewards_eq, bind_eq_ok, u128_eq_ok, World.assets]
  constructor
  · rintro ⟨_, ⟨-, rfl⟩, hlt, rfl⟩
    exact ⟨hlt, rfl⟩
  · rintro ⟨hlt, rfl⟩
    exact ⟨_, ⟨by omega, rfl⟩, hlt, rfl⟩

theorem token_eq_ok {msg : Cw20ExecuteMsg} :
    dispatch stakerHash (d + 1) w sender (.wasm w.lstAddr (.cw20 msg) []) = .ok w' ↔
      ∃ t, w.lst.execute sender msg = .ok t ∧ w' = w.withLst t := by
  simp only [dispatch_wasm, handle_cw20, amountOf_nil, received_nil]
  constructor
  · rintro ⟨_, _, ⟨-, -, t, ht, rfl, rfl⟩, hrun⟩
    rw [foldlM_nil, pure_eq_ok] at hrun
    exact ⟨t, ht, hrun.symm⟩
  · rintro ⟨t, ht, rfl⟩
    exact ⟨_, _, ⟨Nat.zero_le _, trivial, t, ht, rfl, rfl⟩, rfl⟩

/-! ## Bonds -/

/-- `amount` of `sender` was bonded, and `mint` LST were minted for it. -/
def World.bonded (w : World) (sender : Addr) (amount : Nat) (mintTo : Addr) (mint : Nat) : World :=
  let w₁ := (w.withChain (w.chain.moved sender w.hubAddr amount)).withHub (w.hub.afterBond amount mint)
  (w₁.staked amount).withLst (w.lst.minted mintTo mint)

theorem Linked.bond (hw : Linked w) (sender : Addr) (amount mint : Nat) :
    Linked ((w.withChain (w.chain.moved sender w.hubAddr amount)).withHub (w.hub.afterBond amount mint)) :=
  (hw.withChain (c := w.chain.moved sender w.hubAddr amount) rfl rfl).withHub
    (s := w.hub.afterBond amount mint) rfl rfl rfl

theorem bond_run (hw : Linked w) {mintTo : Addr} {minMint : Nat}
    (h : dispatch stakerHash (d + 3) w sender
      (.wasm w.hubAddr (.hub (.bond mintTo minMint)) funds) = .ok w') :
    ∃ amount mint, funds = [⟨w.chain.denom, amount⟩] ∧
      assetsToShares w.assets w.hub.accountingState.totalIssuedLst amount = .ok mint ∧ 0 < mint ∧
      w' = w.bonded sender amount mintTo mint := by
  simp only [dispatch_wasm, handle_hub, Hub.execute, bond_eq_ok, totalAssets_eq_ok, hw.denom, hw.hub_staker,
    hw.hub_lst] at h
  obtain ⟨_, _, ⟨-, -, _, ⟨-, amount, _, mint, -, rfl, -, ⟨-, rfl⟩, hmint, hpos, -, -, -, rfl⟩, rfl,
    rfl⟩, hrun⟩ := h
  simp only [foldlM_cons, foldlM_nil, bind_eq_ok, pure_eq_ok, received_coin] at hrun
  obtain ⟨_, hstake, _, hmint', rfl⟩ := hrun
  obtain ⟨-, rfl⟩ := (stake_eq_ok (hw.bond sender amount mint)).mp hstake
  obtain ⟨t, ht, rfl⟩ := token_eq_ok.mp hmint'
  obtain ⟨-, -, rfl⟩ := mint_eq_ok.mp ht
  exact ⟨amount, mint, rfl, hmint, hpos, rfl⟩

/-! ## Batches -/

/-- What the hub asks the staker to unstake for the pending batch. -/
def World.unbondAmount (w : World) : Nat :=
  w.hub.currentPendingBatch.totalLstToBurn * w.assets / w.hub.accountingState.totalIssuedLst

def World.env (w : World) : Env := ⟨w.chain.now, w.hubAddr⟩

/-- The hub has closed the pending batch, and has told nobody. -/
def World.closed (w : World) : World := w.withHub (w.hub.afterSubmit w.env w.unbondAmount)

/-- The pending batch was submitted, unstaked and burned. -/
def World.submitted (w : World) : World :=
  (w.closed.unstaked w.unbondAmount).withLst (w.lst.burned w.hubAddr w.hub.currentPendingBatch.totalLstToBurn)

/-- When the pending batch can be submitted, with everything that follows. -/
structure World.Submittable (w : World) : Prop where
  running : w.hub.stopped = false
  ready : w.hub.currentPendingBatch.submitTime ≤ w.chain.now
  requested : 0 < w.hub.currentPendingBatch.unstakeRequestsCount
  issued : w.hub.currentPendingBatch.totalLstToBurn ≤ w.hub.accountingState.totalIssuedLst
  assets : w.assets < 2 ^ 128
  bonded : w.unbondAmount ≤ w.hub.accountingState.totalBondedNativeTokens
  receiveTime : w.chain.now + w.hub.config.unbondingPeriodSeconds < 2 ^ 64
  batchId : w.hub.currentPendingBatch.batchId + 1 < 2 ^ 64
  submitTime : w.chain.now + w.hub.config.batchPeriodSeconds < 2 ^ 64
  unstakeable : w.closed.Unstakeable w.unbondAmount
  held : w.hub.currentPendingBatch.totalLstToBurn ≤ w.lst.balances w.hubAddr
  supply : w.hub.currentPendingBatch.totalLstToBurn ≤ w.lst.totalSupply

theorem Linked.closed (hw : Linked w) : Linked w.closed := hw.withHub rfl rfl rfl

theorem sharesToAssets_eq_ok {assets issued shares amount : Nat} (hassets : assets < 2 ^ 128)
    (hle : shares ≤ issued) :
    sharesToAssets assets issued shares = .ok amount ↔ amount = shares * assets / issued := by
  unfold sharesToAssets
  split
  · rename_i hzero
    rw [hzero, Nat.zero_mul, Nat.zero_div, Except.ok.injEq]
    exact eq_comm
  · rename_i hne
    have hbound : shares * assets / issued ≤ assets := Nat.div_le_of_le_mul (Nat.mul_le_mul_right assets hle)
    rw [multiplyRatio_eq_ok]
    constructor
    · rintro ⟨-, -, rfl⟩
      rfl
    · rintro rfl
      exact ⟨by omega, hbound.trans_lt hassets, rfl⟩

theorem unbondAmount_le
    (h : w.hub.currentPendingBatch.totalLstToBurn ≤ w.hub.accountingState.totalIssuedLst) :
    w.unbondAmount ≤ w.assets :=
  Nat.div_le_of_le_mul (Nat.mul_le_mul_right _ h)

theorem submit_eq_ok (hw : Linked w) :
    dispatch stakerHash (d + 5) w sender (.wasm w.hubAddr (.hub .submitBatch) funds) = .ok w' ↔
      funds = [] ∧ w.Submittable ∧ w' = w.submitted := by
  have hunstake {w' : World} (hle : w.unbondAmount < 2 ^ 128) : dispatch stakerHash (d + 4) w.closed w.hubAddr
      (.wasm w.stakerAddr (.staker (.unstake w.unbondAmount)) []) = .ok w' ↔ _ :=
    unstake_eq_ok hw.closed hle
  have hburn {w' : World} : dispatch stakerHash (d + 4) (w.closed.unstaked w.unbondAmount) w.hubAddr
      (.wasm w.lstAddr (.cw20 (.burn w.hub.currentPendingBatch.totalLstToBurn)) []) = .ok w' ↔ _ :=
    token_eq_ok (w := w.closed.unstaked w.unbondAmount)
  simp only [dispatch_wasm, handle_hub, Hub.execute, submitBatch_eq_ok, hw.denom, hw.hub_staker, hw.hub_lst]
  constructor
  · rintro ⟨_, _, ⟨-, -, _, ⟨rfl, hs, hready, hcount, hissued, _, u, hassets, hu, hbonded, h1, h2,
      h3, rfl⟩, rfl, rfl⟩, hrun⟩
    obtain ⟨hlt, rfl⟩ := totalAssets_eq_ok.mp hassets
    obtain rfl := (sharesToAssets_eq_ok hlt hissued).mp hu
    simp only [foldlM_cons, foldlM_nil, bind_eq_ok, pure_eq_ok, received_nil] at hrun
    obtain ⟨_, hfirst, _, hsecond, rfl⟩ := hrun
    obtain ⟨hunstakeable, rfl⟩ := (hunstake ((unbondAmount_le hissued).trans_lt hlt)).mp hfirst
    obtain ⟨t, ht, rfl⟩ := hburn.mp hsecond
    obtain ⟨hheld, hsupply, rfl⟩ := burn_eq_ok.mp ht
    exact ⟨rfl, ⟨hs, hready, hcount, hissued, hlt, hbonded, h1, h2, h3, hunstakeable, hheld, hsupply⟩, rfl⟩
  · rintro ⟨rfl, h, rfl⟩
    have hlt := (unbondAmount_le h.issued).trans_lt h.assets
    refine ⟨_, _, ⟨Nat.zero_le _, trivial, _, ⟨rfl, h.running, h.ready, h.requested, h.issued, _, _,
      totalAssets_eq_ok.mpr ⟨h.assets, rfl⟩, (sharesToAssets_eq_ok h.assets h.issued).mpr rfl,
        h.bonded, h.receiveTime,
      h.batchId, h.submitTime, rfl⟩, rfl, rfl⟩, ?_⟩
    simp only [foldlM_cons, foldlM_nil, bind_eq_ok, pure_eq_ok, received_nil]
    exact ⟨_, (hunstake hlt).mpr ⟨h.unstakeable, rfl⟩, _,
      hburn.mpr ⟨_, burn_eq_ok.mpr ⟨h.held, h.supply, rfl⟩, rfl⟩, rfl⟩

/-! ## Requests, payments and rebases -/

/-- `amount` LST of `sender` are with the hub, for a request. -/
def World.unbonded (w : World) (stakerHash : Addr → H256) (sender : Addr) (amount : Nat)
    (request : UnstakeRequest) (allowance : Nat) : World :=
  (w.withHub (w.hub.afterUnbond (w.hub.pendingKey stakerHash sender) request amount)).withLst
    ((w.lst.allowed sender w.hubAddr (allowance - amount)).moved sender w.hubAddr amount)

theorem unbond_run (hw : Linked w) {amount : Nat}
    (h : dispatch stakerHash (d + 2) w sender (.wasm w.hubAddr (.hub (.unbond amount)) funds) = .ok w') :
    ∃ request allowance, amount ≤ w.lst.balances sender ∧
      w' = w.unbonded stakerHash sender amount request allowance := by
  simp only [dispatch_wasm, handle_hub, Hub.execute, unbond_eq_ok, hw.hub_lst] at h
  obtain ⟨_, _, ⟨-, -, _, ⟨rfl, -, request, -, -, -, rfl⟩, rfl, rfl⟩, hrun⟩ := h
  simp only [foldlM_cons, foldlM_nil, bind_eq_ok, pure_eq_ok, received_nil] at hrun
  obtain ⟨_, htoken, rfl⟩ := hrun
  obtain ⟨t, ht, rfl⟩ := token_eq_ok.mp htoken
  obtain ⟨allowance, -, -, hle, rfl⟩ := transferFrom_eq_ok.mp ht
  exact ⟨request, allowance, hle, rfl⟩

/-- `payer` paid what is expected for a submitted batch. -/
def World.paid (w : World) (payer : Addr) (batchId : BatchId) (batch : SubmittedBatch) : World :=
  (w.withChain (w.chain.moved payer w.hubAddr batch.expectedNativeUnstaked)).withHub
    (w.hub.afterReceive batchId batch)

theorem receiveUnstaked_run (hw : Linked w) (h : dispatch stakerHash (d + 1) w sender
    (.wasm w.hubAddr (.hub (.receiveUnstakedTokens batchId)) funds) = .ok w') :
    ∃ batch, w' = w.paid sender batchId batch := by
  simp only [dispatch_wasm, handle_hub, Hub.execute, receiveUnstakedTokens_eq_ok, hw.denom] at h
  obtain ⟨_, _, ⟨-, -, _, ⟨-, batch, -, -, -, rfl, rfl⟩, rfl, rfl⟩, hrun⟩ := h
  simp only [foldlM_nil, pure_eq_ok, received_coin] at hrun
  exact ⟨batch, hrun.symm⟩

theorem receiveBatch_run (hw : Linked w)
    (h : dispatch stakerHash (d + 3) w sender
      (.wasm w.hubAddr (.hub (.receiveBatch batchId)) funds) = .ok w') :
    ∃ batch, w' = w.paid w.stakerAddr batchId batch := by
  simp only [dispatch_wasm (d := d + 2), handle_hub, Hub.execute, receiveBatch_eq_ok, hw.hub_staker] at h
  obtain ⟨_, _, ⟨-, -, _, ⟨rfl, -, batch, -, -, rfl⟩, rfl, rfl⟩, hrun⟩ := h
  simp only [foldlM_cons, foldlM_nil, bind_eq_ok, pure_eq_ok, received_nil, dispatch_wasm,
    handle_staker] at hrun
  obtain ⟨_, ⟨_, _, ⟨-, -, hmsgs, rfl⟩, hrun⟩, rfl⟩ := hrun
  obtain ⟨expected, rfl⟩ := receiveUnstaked_messages hmsgs
  simp only [foldlM_cons, foldlM_nil, bind_eq_ok, pure_eq_ok] at hrun
  obtain ⟨_, hreceive, rfl⟩ := hrun
  have hself : w.withHub w.hub = w := rfl
  have hhub : (w.withHub w.hub).staker.lstHub = w.hubAddr := hw.staker_hub
  rw [hhub, hself] at hreceive
  exact receiveUnstaked_run hw hreceive

/-- A request was paid. -/
def World.withdrawn (w : World) (key : UnstakeRequestKey) (withdrawTo : Addr) (amount : Nat) : World :=
  (w.withHub (w.hub.afterWithdraw key)).withChain (w.chain.moved w.hubAddr withdrawTo amount)

theorem withdraw_run (hw : Linked w) {withdrawTo : Addr} (h : dispatch stakerHash (d + 2) w sender
    (.wasm w.hubAddr (.hub (.withdraw withdrawTo batchId)) funds) = .ok w') :
    ∃ key amount, w' = w.withdrawn key withdrawTo amount := by
  simp only [dispatch_wasm, handle_hub, Hub.execute, withdraw_eq_ok, hw.denom] at h
  obtain ⟨_, _, ⟨-, -, _, ⟨rfl, -, batch, request, -, -, -, -, rfl⟩, rfl, rfl⟩, hrun⟩ := h
  simp only [foldlM_cons, foldlM_nil, bind_eq_ok, pure_eq_ok, received_nil] at hrun
  obtain ⟨_, hsend, rfl⟩ := hrun
  obtain ⟨-, -, rfl⟩ := (fee_eq_ok (w := w.withHub _)).mp hsend
  exact ⟨_, _, rfl⟩

theorem rebase_run (hw : Linked w)
    (h : dispatch stakerHash (d + 5) w sender (.wasm w.hubAddr (.hub .rebase) funds) = .ok w') :
    w.claimed.Rewardable w.stakerAddr w.chain.claimable ∧ w' = w.rebased := by
  simp only [dispatch_wasm (d := d + 4), handle_hub, Hub.execute, rebase_eq_ok, hw.hub_staker] at h
  obtain ⟨_, _, ⟨-, -, _, ⟨rfl, -, rfl⟩, rfl, rfl⟩, hrun⟩ := h
  simp only [foldlM_cons, foldlM_nil, bind_eq_ok, pure_eq_ok, received_nil] at hrun
  obtain ⟨_, hrebase, rfl⟩ := hrun
  exact (staker_rebase_eq_ok hw).mp hrebase

/-! ## Any message of an account -/

/-- What a message of `sender` does to the system. -/
inductive Outcome (stakerHash : Addr → H256) (w : World) (sender : Addr) : WasmMsg → World → Prop
  | bond {mintTo : Addr} {minMint : Nat} (amount mint : Nat)
      (shares : assetsToShares w.assets w.hub.accountingState.totalIssuedLst amount = .ok mint)
        (positive : 0 < mint) :
      Outcome stakerHash w sender (.hub (.bond mintTo minMint)) (w.bonded sender amount mintTo mint)
  | unbond {amount : Nat} (request : UnstakeRequest) (allowance : Nat)
      (owned : amount ≤ w.lst.balances sender) :
      Outcome stakerHash w sender (.hub (.unbond amount))
        (w.unbonded stakerHash sender amount request allowance)
  | submitBatch (submittable : w.Submittable) : Outcome stakerHash w sender (.hub .submitBatch) w.submitted
  | receiveRewards (rewards : Nat) (rewardable : w.Rewardable sender rewards) :
      Outcome stakerHash w sender (.hub .receiveRewards) (w.rewarded sender rewards)
  | rebase (rewardable : w.claimed.Rewardable w.stakerAddr w.chain.claimable) :
      Outcome stakerHash w sender (.hub .rebase) w.rebased
  | receiveBatch {batchId : BatchId} (batch : SubmittedBatch) :
      Outcome stakerHash w sender (.hub (.receiveBatch batchId)) (w.paid w.stakerAddr batchId batch)
  | receiveUnstakedTokens {batchId : BatchId} (batch : SubmittedBatch) :
      Outcome stakerHash w sender (.hub (.receiveUnstakedTokens batchId)) (w.paid sender batchId batch)
  | withdraw {batchId : BatchId} {withdrawTo : Addr} (key : UnstakeRequestKey) (amount : Nat) :
      Outcome stakerHash w sender (.hub (.withdraw withdrawTo batchId)) (w.withdrawn key withdrawTo amount)
  | token {msg : Cw20ExecuteMsg} (t : Cw20) (amount : Nat) (executed : w.lst.execute sender msg = .ok t) :
      Outcome stakerHash w sender (.cw20 msg)
        ((w.withChain (w.chain.moved sender w.lstAddr amount)).withLst t)

theorem transact_eq (msg : WasmMsg) : w.transact stakerHash sender contract msg funds =
    dispatch stakerHash (495 + 5) w sender (.wasm contract msg funds) := rfl

theorem hub_contract {msg : ExecuteMsg}
    (h : dispatch stakerHash (d + 1) w sender (.wasm contract (.hub msg) funds) = .ok w') :
      contract = w.hubAddr := by
  simp only [dispatch_wasm, handle_hub] at h
  obtain ⟨_, _, ⟨-, hcontract, -⟩, -⟩ := h
  exact hcontract

theorem transact_outcome (hw : Linked w) (hsender : sender ≠ w.hubAddr) {msg : WasmMsg}
    (hadmin : (Act.execute sender contract msg funds).isAdmin = false)
    (h : w.transact stakerHash sender contract msg funds = .ok w') : Outcome stakerHash w sender msg w' := by
  rw [transact_eq] at h
  cases msg with
  | hub msg =>
    obtain rfl := hub_contract h
    cases msg with
    | bond mintTo minMint =>
      obtain ⟨amount, mint, -, hshares, hpos, rfl⟩ := bond_run hw h
      exact .bond amount mint hshares hpos
    | unbond amount =>
      obtain ⟨request, allowance, howned, rfl⟩ := unbond_run hw h
      exact .unbond request allowance howned
    | submitBatch =>
      obtain ⟨-, hsubmittable, rfl⟩ := (submit_eq_ok hw).mp h
      exact .submitBatch hsubmittable
    | receiveRewards =>
      obtain ⟨rewards, -, hreward, rfl⟩ := (rewards_eq_ok hw).mp h
      exact .receiveRewards rewards hreward
    | rebase =>
      obtain ⟨hreward, rfl⟩ := rebase_run hw h
      exact .rebase hreward
    | receiveBatch batchId =>
      obtain ⟨batch, rfl⟩ := receiveBatch_run hw h
      exact .receiveBatch batch
    | receiveUnstakedTokens batchId =>
      obtain ⟨batch, rfl⟩ := receiveUnstaked_run hw h
      exact .receiveUnstakedTokens batch
    | withdraw withdrawTo batchId =>
      obtain ⟨key, amount, rfl⟩ := withdraw_run hw h
      exact .withdraw key amount
    | _ => cases hadmin
  | staker msg =>
    simp only [dispatch_wasm, handle_staker] at h
    obtain ⟨_, _, ⟨-, -, hmsgs, -⟩, -⟩ := h
    exact absurd ((staker_sender hmsgs).trans hw.staker_hub) hsender
  | cw20 msg =>
    simp only [dispatch_wasm, handle_cw20] at h
    obtain ⟨_, _, ⟨-, rfl, t, ht, rfl, rfl⟩, hrun⟩ := h
    rw [foldlM_nil, pure_eq_ok] at hrun
    subst hrun
    exact .token t _ ht

end UnionVoyager.Lst
