import UnionVoyager.Lst.Reachable

/-!
# The value of a share

`total_assets / total_issued_lst`, compared by cross-multiplication.

* `bonded_value`, `submitted_value` — what a bond and the submission of a batch leave of it.
-/

namespace UnionVoyager.Lst

open Lib

variable {stakerHash : Addr → H256} {w w' : World}

@[simp] theorem claim_pending (c : Chain) (a : Addr) : (c.claim a).pending = 0 := by
  have hsum : ((c.claim a).validatorSet.map (c.claim a).rewards).sum = 0 := by
    apply List.sum_eq_zero
    intro n hn
    obtain ⟨v, hv, rfl⟩ := List.mem_map.mp hn
    exact if_pos hv
  rw [Chain.pending, hsum, Nat.zero_div]

theorem bonded_assets (w : World) (sender : Addr) (amount : Nat) (mintTo : Addr) (mint : Nat) :
    (w.bonded sender amount mintTo mint).assets = w.hub.accountingState.totalBondedNativeTokens + amount := by
  have hpending : (w.bonded sender amount mintTo mint).chain.pending = 0 := claim_pending _ w.stakerAddr
  rw [World.assets, hpending]
  rfl

theorem mint_le {assets issued amount mint : Nat}
    (h : assetsToShares assets issued amount = .ok mint) : assets * mint ≤ amount * issued := by
  unfold assetsToShares at h
  split at h
  · rename_i hzero
    rw [hzero, Nat.zero_mul]
    exact Nat.zero_le _
  · obtain ⟨-, -, rfl⟩ := multiplyRatio_eq_ok.mp h
    exact Nat.mul_div_le ..

theorem bonded_value {amount mint : Nat}
    (h : assetsToShares w.assets w.hub.accountingState.totalIssuedLst amount = .ok mint)
      (sender mintTo : Addr) :
    w.assets * (w.hub.accountingState.totalIssuedLst + mint) ≤
      ((w.bonded sender amount mintTo mint).assets + w.chain.pending) *
        w.hub.accountingState.totalIssuedLst := by
  have hmint := mint_le h
  have hassets : (w.bonded sender amount mintTo mint).assets + w.chain.pending = w.assets + amount := by
    rw [bonded_assets, World.assets]
    omega
  rw [hassets, Nat.mul_add, Nat.add_mul]
  exact Nat.add_le_add_left hmint _

/-- What the claim of rewards costs the holders: the fee, and the fractions. -/
def World.claimCost (w : World) : Nat := w.hub.protocolFee w.chain.claimable +
    (w.chain.pending - w.chain.claimable)

theorem submitted_assets (w : World) : w.submitted.assets = w.hub.accountingState.totalBondedNativeTokens -
    w.unbondAmount + (w.chain.claimable - w.hub.protocolFee w.chain.claimable) := by
  have hpending : w.submitted.chain.pending = 0 := claim_pending _ w.stakerAddr
  rw [World.assets, hpending]
  rfl

theorem submitted_value (h : w.Submittable) :
    w.assets * (w.hub.accountingState.totalIssuedLst - w.hub.currentPendingBatch.totalLstToBurn) ≤
      (w.submitted.assets + w.claimCost) * w.hub.accountingState.totalIssuedLst := by
  have hfee : w.hub.protocolFee w.chain.claimable < w.chain.claimable := h.unstakeable.rewardable.fee_lt
  have hbonded := h.bonded
  have hclaimable := claimable_le_pending w.chain
  have hassets : w.submitted.assets + w.claimCost = w.assets - w.unbondAmount := by
    rw [submitted_assets, World.claimCost, World.assets]
    omega
  have hunbond : w.unbondAmount * w.hub.accountingState.totalIssuedLst ≤
      w.assets * w.hub.currentPendingBatch.totalLstToBurn := by
    rw [Nat.mul_comm w.assets]
    exact Nat.div_mul_le_self ..
  rw [hassets, Nat.mul_sub, Nat.sub_mul]
  exact Nat.sub_le_sub_left hunbond _

/-- The messages of holders. -/
def ExecuteMsg.isHolders : ExecuteMsg → Bool
  | .bond .. => true
  | .unbond _ => true
  | .submitBatch => true
  | .receiveBatch _ => true
  | .withdraw .. => true
  | _ => false

/-- What of the assets may be gone after a message of a holder. -/
def World.cost (w : World) : ExecuteMsg → Nat
  | .bond .. => w.chain.pending
  | .submitBatch => w.claimCost
  | _ => 0

theorem Outcome.value {sender : Addr} {msg : ExecuteMsg} (hmsg : msg.isHolders = true)
    (h : Outcome stakerHash w sender (.hub msg) w') :
    w.assets * w'.hub.accountingState.totalIssuedLst ≤
      (w'.assets + w.cost msg) * w.hub.accountingState.totalIssuedLst := by
  cases h with
  | bond amount mint hshares hpos => exact bonded_value hshares sender _
  | unbond | receiveBatch | withdraw => exact Nat.le_refl _
  | submitBatch hsubmittable => exact submitted_value hsubmittable
  | receiveRewards | rebase | receiveUnstakedTokens => cases hmsg

/-- **No message of a holder lowers the value of a share by more than its cost**: nothing for
    unbonding, receiving and withdrawing, the fee and the fractions for submitting a batch, and what
    was pending for bonding. -/
theorem value_kept (h : Reachable stakerHash w) {sender contract : Addr} {funds : List Coin}
    {msg : ExecuteMsg} (hmsg : msg.isHolders = true) :
    let w' := w.act stakerHash (.execute sender contract (.hub msg) funds)
    w.assets * w'.hub.accountingState.totalIssuedLst ≤
      (w'.assets + w.cost msg) * w.hub.accountingState.totalIssuedLst := by
  have hsame : w.assets * w.hub.accountingState.totalIssuedLst ≤
      (w.assets + w.cost msg) * w.hub.accountingState.totalIssuedLst :=
    Nat.mul_le_mul_right _ (Nat.le_add_right ..)
  have hadmin : (Act.execute sender contract (.hub msg) funds).isAdmin = false := by
    cases msg <;> first | rfl | cases hmsg
  simp only [World.act]
  split
  · exact hsame
  · rename_i hsender
    split
    · rename_i w' hrun
      have hne : sender ≠ w.hubAddr := fun heq => hsender (.inl heq)
      exact (transact_outcome (reachable_orderly h).linked hne hadmin hrun).value hmsg
    · exact hsame

/-- Alice has bonded 1000 and a validator has earned 5.  Her next bond has the 5 staked and counted
    by nobody. -/
theorem value_kept_sample :
    let w := sampleWorld.run (fun _ => []) [sampleBond 1000, .accrue "v1" (5 * 10 ^ 18)]
    let w' := w.act (fun _ => []) (sampleBond 1000)
    w.cost (.bond "alice" 0) = 5 ∧ w.assets * w'.hub.accountingState.totalIssuedLst ≤
      (w'.assets + w.cost (.bond "alice" 0)) * w.hub.accountingState.totalIssuedLst :=
  ⟨by decide, value_kept (sample_reachable (by decide)) rfl⟩

/-- A share is worth less in `w'` than in `w`. -/
def ValueFalls (w w' : World) : Prop :=
  w'.assets * w.hub.accountingState.totalIssuedLst < w.assets * w'.hub.accountingState.totalIssuedLst

instance (w w' : World) : Decidable (ValueFalls w w') := inferInstanceAs (Decidable (_ < _))

/-- **The value of a share goes down** from 1100/1000 to 980/900 when the batch is submitted, by the
    fee, and from 1100/1000 to 2000/1909 when Alice bonds again, as the rewards are no longer
    counted. -/
theorem value_lost :
    Reachable (fun _ => []) (sampleRequested 100 100) ∧
      0 < (sampleRequested 100 100).hub.accountingState.totalIssuedLst ∧
      ValueFalls (sampleRequested 100 100) ((sampleRequested 100 100).act (fun _ => []) sampleSubmit) ∧
      ValueFalls (sampleRequested 100 100) ((sampleRequested 100 100).act (fun _ => []) (sampleBond 1000)) :=
  ⟨sampleRequested_reachable 100 100, by decide, by decide, by decide⟩

end UnionVoyager.Lst
