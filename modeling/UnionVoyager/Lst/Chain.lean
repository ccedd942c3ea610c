import UnionVoyager.Lst.Staker

/-!
# Bank, staking and distribution

What the host chain keeps for the contracts: balances of the native token, and the delegations, rewards and
unbondings of the staker.  Rewards have eighteen decimals; paying them out drops the fraction.  Amounts of
zero are refused, as the modules of the chain refuse them.  There is no slashing.

* `claimAll_eq`, `delegateAll_eq_ok`, `undelegateAll_eq_ok` — what the messages of the staker do together.
-/

namespace UnionVoyager.Lst

open Lib Function List

structure Chain where
  denom : String
  validatorSet : List String
  nodup : validatorSet.Nodup
  unbondingTime : Nat
  now : Nat
  bank : Addr → Nat
  delegations : String → Nat
  /-- In units of the eighteenth decimal. -/
  rewards : String → Nat
  /-- The time at which an unbonding matures, and its amount. -/
  unbondings : List (Nat × Nat)

inductive HostError where
  | insufficientFunds
  | invalidCoins
  | invalidAmount
  | unknownValidator
  | notEnoughDelegation
  | notTheDelegator
  | noContract
  | callDepth
  deriving DecidableEq

abbrev HostResult := Except HostError

/-! ## Single messages -/

def Chain.moved (c : Chain) (sender recipient : Addr) (amount : Nat) : Chain :=
  { c with
    bank :=
      let bank := update c.bank sender (c.bank sender - amount)
      update bank recipient (bank recipient + amount) }

def Chain.pay (c : Chain) (sender recipient : Addr) (amount : Nat) : HostResult Chain := do
  ensure (amount ≤ c.bank sender) .insufficientFunds
  return c.moved sender recipient amount

/-- `MsgSend`. -/
def Chain.send (c : Chain) (sender recipient : Addr) (coins : List Coin) : HostResult Chain := do
  ensure (coins ≠ [] ∧ ∀ coin ∈ coins, 0 < coin.amount) .invalidCoins
  c.pay sender recipient (amountOf c.denom coins)

/-- `MsgDelegate`. -/
def Chain.delegate (c : Chain) (delegator : Addr) (validator : String) (amount : Nat) : HostResult Chain := do
  ensure (validator ∈ c.validatorSet) .unknownValidator
  ensure (0 < amount) .invalidAmount
  ensure (amount ≤ c.bank delegator) .insufficientFunds
  return { c with
    bank := update c.bank delegator (c.bank delegator - amount)
    delegations := update c.delegations validator (c.delegations validator + amount) }

/-- `MsgUndelegate`. -/
def Chain.undelegate (c : Chain) (validator : String) (amount : Nat) : HostResult Chain := do
  ensure (0 < amount) .invalidAmount
  ensure (amount ≤ c.delegations validator) .notEnoughDelegation
  return { c with
    delegations := update c.delegations validator (c.delegations validator - amount)
    unbondings := c.unbondings ++ [(c.now + c.unbondingTime, amount)] }

/-- `MsgWithdrawDelegatorReward`. -/
def Chain.withdrawReward (c : Chain) (delegator : Addr) (validator : String) : Chain :=
  { c with
    bank := update c.bank delegator (c.bank delegator + c.rewards validator / 10 ^ 18)
    rewards := update c.rewards validator 0 }

/-- The answer to the query of `total` rewards. -/
def Chain.totalRewards (c : Chain) : List DecCoin :=
  if (c.validatorSet.map c.rewards).sum = 0 then [] else [⟨c.denom, (c.validatorSet.map c.rewards).sum⟩]

/-- The answer to the query of the rewards from each validator. -/
def Chain.delegatorRewards (c : Chain) : List DelegatorReward :=
  c.validatorSet.map fun v => ⟨v, if c.rewards v = 0 then [] else [⟨c.denom, c.rewards v⟩]⟩

/-- Time passes, and unbondings that have matured are paid out. -/
def Chain.block (c : Chain) (delegator : Addr) (now : Nat) : Chain :=
  { c with
    now := now
    bank := update c.bank delegator
      (c.bank delegator + ((c.unbondings.filter fun u => u.1 ≤ now).map Prod.snd).sum)
    unbondings := c.unbondings.filter fun u => now < u.1 }

/-- A validator earns rewards for its delegation. -/
def Chain.accrue (c : Chain) (validator : String) (atomics : Nat) : Chain :=
  if 0 < c.delegations validator then
    { c with rewards := update c.rewards validator (c.rewards validator + atomics) }
  else c

/-! ## Rewards -/

/-- What the hub counts as pending: the sum, rounded down. -/
def Chain.pending (c : Chain) : Nat := (c.validatorSet.map c.rewards).sum / 10 ^ 18

/-- What the staker can claim: every reward rounded down. -/
def Chain.claimable (c : Chain) : Nat := (c.validatorSet.map fun v => c.rewards v / 10 ^ 18).sum

theorem claimable_le_pending (c : Chain) : c.claimable ≤ c.pending := by
  have h := sum_div_le (c.validatorSet.map c.rewards) (10 ^ 18)
  rwa [map_map] at h

theorem totalPendingRewards_eq (c : Chain) :
    totalPendingRewards c.denom c.totalRewards = u128 c.pending "too many tokens" := by
  unfold totalPendingRewards Chain.totalRewards Chain.pending
  split
  · rename_i h
    rw [h]
    rfl
  · simp

/-- The messages that claim all rewards. -/
def Chain.claimMsgs (c : Chain) : List CosmosMsg :=
  (c.validatorSet.filter fun v => c.rewards v ≠ 0).map .withdrawDelegatorReward

theorem claimable_entry (c : Chain) (v : String) : DelegatorReward.claimable c.denom
    ⟨v, if c.rewards v = 0 then [] else [⟨c.denom, c.rewards v⟩]⟩ = c.rewards v / 10 ^ 18 := by
  unfold DelegatorReward.claimable
  split
  · rename_i h
    rw [h]
    rfl
  · simp [DecCoin.toUintFloor]

theorem withdrawAllRewards_eq_ok {c : Chain} {batch : BatchId → Option Batch} {claimed : Nat}
    {msgs : List CosmosMsg} :
    withdrawAllRewards ⟨c.denom, batch, c.delegatorRewards⟩ = .ok (claimed, msgs) ↔
      c.claimable < 2 ^ 128 ∧ claimed = c.claimable ∧ msgs = c.claimMsgs := by
  have hsum : (c.delegatorRewards.map (DelegatorReward.claimable c.denom)).sum = c.claimable := by
    unfold Chain.delegatorRewards Chain.claimable
    rw [map_map]
    congr 1
    apply map_congr_left
    intro v _
    exact claimable_entry c v
  have hmsgs : (c.delegatorRewards.filterMap fun d =>
      if d.reward.any (fun coin => coin.denom = c.denom) then
        some (CosmosMsg.withdrawDelegatorReward d.validatorAddress)
      else none) = c.claimMsgs := by
    unfold Chain.delegatorRewards Chain.claimMsgs
    rw [filterMap_map]
    induction c.validatorSet with
    | nil => rfl
    | cons v vs ih =>
      by_cases hv : c.rewards v = 0 <;> simp_all
  simp only [withdrawAllRewards, bind_eq_ok, mapError_eq_ok, u128_eq_ok, pure_eq_ok, hsum, hmsgs,
    Prod.mk.injEq]
  constructor
  · rintro ⟨_, ⟨hlt, rfl⟩, rfl, rfl⟩
    exact ⟨hlt, rfl, rfl⟩
  · rintro ⟨hlt, rfl, rfl⟩
    exact ⟨_, ⟨hlt, rfl⟩, rfl, rfl⟩

/-- All rewards are claimed. -/
def Chain.claim (c : Chain) (delegator : Addr) : Chain :=
  { c with
    bank := update c.bank delegator (c.bank delegator + c.claimable)
    rewards := fun v => if v ∈ c.validatorSet then 0 else c.rewards v }

theorem foldl_withdrawReward (delegator : Addr) : ∀ (l : List String), l.Nodup → ∀ c : Chain,
    (l.filter fun v => c.rewards v ≠ 0).foldl (fun c v => c.withdrawReward delegator v) c = { c with
        bank := update c.bank delegator (c.bank delegator + (l.map fun v => c.rewards v / 10 ^ 18).sum)
        rewards := fun v => if v ∈ l then 0 else c.rewards v }
  | [], _, c => by simp
  | v :: l, hnodup, c => by
    obtain ⟨hv, hl⟩ := List.nodup_cons.mp hnodup
    by_cases hzero : c.rewards v = 0
    · have hskip : ((v :: l).filter fun v => c.rewards v ≠ 0) = l.filter fun v => c.rewards v ≠ 0 := by
        simp [hzero]
      rw [hskip, foldl_withdrawReward delegator l hl c]
      congr 1
      · rw [map_cons, sum_cons, hzero, Nat.zero_div, Nat.zero_add]
      · funext v'
        by_cases hv' : v' = v
        · subst hv'
          simp [hzero]
        · simp [hv']
    · -- the rewards of the others are as before
      have hfilter : (l.filter fun v' => c.rewards v' ≠ 0) =
          l.filter fun v' => (c.withdrawReward delegator v).rewards v' ≠ 0 := by
        apply filter_congr
        intro v' hmem
        have hne : v' ≠ v := fun heq => hv (heq ▸ hmem)
        simp [Chain.withdrawReward, update_of_ne hne]
      have hsum : (l.map fun v' => (c.withdrawReward delegator v).rewards v' / 10 ^ 18) =
          l.map fun v' => c.rewards v' / 10 ^ 18 := by
        apply map_congr_left
        intro v' hmem
        have hne : v' ≠ v := fun heq => hv (heq ▸ hmem)
        simp [Chain.withdrawReward, update_of_ne hne]
      have hcons : ((v :: l).filter fun v => c.rewards v ≠ 0) = v :: l.filter fun v => c.rewards v ≠ 0 := by
        simp [hzero]
      rw [hcons, foldl_cons, hfilter, foldl_withdrawReward delegator l hl, hsum]
      congr 1
      · rw [map_cons, sum_cons, ← Nat.add_assoc]
        simp [Chain.withdrawReward]
      · funext v'
        by_cases hv' : v' = v
        · subst hv'
          simp [Chain.withdrawReward]
        · simp [Chain.withdrawReward, hv']

theorem foldl_claim (c : Chain) (delegator : Addr) :
    (c.validatorSet.filter fun v => c.rewards v ≠ 0).foldl (fun c v => c.withdrawReward delegator v) c =
      c.claim delegator :=
  foldl_withdrawReward delegator c.validatorSet c.nodup c

/-! ## Delegations -/

/-- What of a list of parts goes to one validator. -/
def partOf (parts : List (String × Nat)) (v : String) : Nat :=
    ((parts.filter fun p => p.1 = v).map Prod.snd).sum

@[simp] theorem partOf_nil (v : String) : partOf [] v = 0 := rfl

theorem partOf_cons (p : String × Nat) (parts : List (String × Nat)) (v : String) :
    partOf (p :: parts) v = (if p.1 = v then p.2 else 0) + partOf parts v := by
  unfold partOf
  by_cases h : p.1 = v <;> simp [h]

def sumParts (parts : List (String × Nat)) : Nat := (parts.map Prod.snd).sum

@[simp] theorem sumParts_nil : sumParts [] = 0 := rfl

@[simp] theorem sumParts_cons (p : String × Nat) (parts : List (String × Nat)) :
    sumParts (p :: parts) = p.2 + sumParts parts := sum_cons

def Chain.delegated (c : Chain) (delegator : Addr) (parts : List (String × Nat)) : Chain :=
  { c with
    bank := update c.bank delegator (c.bank delegator - sumParts parts)
    delegations := fun v => c.delegations v + partOf parts v }

def Chain.undelegated (c : Chain) (parts : List (String × Nat)) : Chain :=
  { c with
    delegations := fun v => c.delegations v - partOf parts v
    unbondings := c.unbondings ++ parts.map fun p => (c.now + c.unbondingTime, p.2) }

theorem delegate_eq_ok {c c' : Chain} {delegator : Addr} {v : String} {amount : Nat} :
    c.delegate delegator v amount = .ok c' ↔
      v ∈ c.validatorSet ∧ 0 < amount ∧ amount ≤ c.bank delegator ∧
        c' = c.delegated delegator [(v, amount)] := by
  have hresult : c.delegated delegator [(v, amount)] = { c with
      bank := update c.bank delegator (c.bank delegator - amount)
      delegations := update c.delegations v (c.delegations v + amount) } := by
    unfold Chain.delegated
    congr 1
    funext v'
    rw [partOf_cons, partOf_nil, Nat.add_zero]
    by_cases hv : v' = v
    · subst hv
      simp
    · rw [update_of_ne hv, if_neg fun heq => hv heq.symm, Nat.add_zero]
  simp only [Chain.delegate, bind_eq_ok, ensure_eq_ok, pure_eq_ok, hresult]
  constructor
  · rintro ⟨-, hv, -, hpos, -, hle, rfl⟩
    exact ⟨hv, hpos, hle, rfl⟩
  · rintro ⟨hv, hpos, hle, rfl⟩
    exact ⟨(), hv, (), hpos, (), hle, rfl⟩

theorem undelegate_eq_ok {c c' : Chain} {v : String} {amount : Nat} : c.undelegate v amount = .ok c' ↔
    0 < amount ∧ amount ≤ c.delegations v ∧ c' = c.undelegated [(v, amount)] := by
  have hresult : c.undelegated [(v, amount)] = { c with
      delegations := update c.delegations v (c.delegations v - amount)
      unbondings := c.unbondings ++ [(c.now + c.unbondingTime, amount)] } := by
    unfold Chain.undelegated
    congr 1
    funext v'
    rw [partOf_cons, partOf_nil, Nat.add_zero]
    by_cases hv : v' = v
    · subst hv
      simp
    · rw [update_of_ne hv, if_neg fun heq => hv heq.symm, Nat.sub_zero]
  simp only [Chain.undelegate, bind_eq_ok, ensure_eq_ok, pure_eq_ok, hresult]
  constructor
  · rintro ⟨-, hpos, -, hle, rfl⟩
    exact ⟨hpos, hle, rfl⟩
  · rintro ⟨hpos, hle, rfl⟩
    exact ⟨(), hpos, (), hle, rfl⟩

theorem delegated_cons (c : Chain) (delegator : Addr) (p : String × Nat) (parts : List (String × Nat)) :
    (c.delegated delegator [p]).delegated delegator parts = c.delegated delegator (p :: parts) := by
  unfold Chain.delegated
  congr 1
  · simp [Nat.sub_sub]
  · funext v
    simp only [partOf_cons, partOf_nil, Nat.add_zero, Nat.add_assoc]

theorem undelegated_cons (c : Chain) (p : String × Nat) (parts : List (String × Nat)) :
    (c.undelegated [p]).undelegated parts = c.undelegated (p :: parts) := by
  unfold Chain.undelegated
  congr 1
  · funext v
    simp only [partOf_cons, partOf_nil, Nat.add_zero, Nat.sub_sub]
  · simp

theorem delegateAll_eq_ok {delegator : Addr} : ∀ (parts : List (String × Nat)) {c c' : Chain},
    parts.foldlM (fun c p => c.delegate delegator p.1 p.2) c = .ok c' ↔
      (∀ p ∈ parts, p.1 ∈ c.validatorSet ∧ 0 < p.2) ∧ sumParts parts ≤ c.bank delegator ∧
        c' = c.delegated delegator parts
  | [], c, c' => by
    have hnone : c.delegated delegator [] = c := by simp [Chain.delegated]
    rw [foldlM_nil, pure_eq_ok, hnone]
    simp [eq_comm]
  | p :: parts, c, c' => by
    rw [foldlM_cons, bind_eq_ok]
    simp only [delegate_eq_ok, forall_mem_cons, sumParts_cons]
    constructor
    · rintro ⟨_, ⟨hv, hpos, hle, rfl⟩, hrest⟩
      obtain ⟨hall, hsum, rfl⟩ := (delegateAll_eq_ok parts).mp hrest
      refine ⟨⟨⟨hv, hpos⟩, hall⟩, ?_, delegated_cons ..⟩
      have hbank : (c.delegated delegator [p]).bank delegator = c.bank delegator - p.2 :=
        by simp [Chain.delegated]
      rw [hbank] at hsum
      omega
    · rintro ⟨⟨⟨hv, hpos⟩, hall⟩, hsum, rfl⟩
      refine ⟨_, ⟨hv, hpos, by omega, rfl⟩, (delegateAll_eq_ok parts).mpr
        ⟨hall, ?_, (delegated_cons ..).symm⟩⟩
      have hbank : (c.delegated delegator [p]).bank delegator = c.bank delegator - p.2 :=
        by simp [Chain.delegated]
      rw [hbank]
      omega

theorem undelegateAll_eq_ok : ∀ (parts : List (String × Nat)) {c c' : Chain},
    parts.foldlM (fun c p => c.undelegate p.1 p.2) c = .ok c' ↔
      (∀ p ∈ parts, 0 < p.2) ∧ (∀ v, partOf parts v ≤ c.delegations v) ∧ c' = c.undelegated parts
  | [], c, c' => by
    have hnone : c.undelegated [] = c := by simp [Chain.undelegated]
    rw [foldlM_nil, pure_eq_ok, hnone]
    simp [eq_comm]
  | p :: parts, c, c' => by
    rw [foldlM_cons, bind_eq_ok]
    simp only [undelegate_eq_ok, forall_mem_cons]
    have hleft : ∀ v, (c.undelegated [p]).delegations v = c.delegations v - if p.1 = v then p.2 else 0 := by
      intro v
      simp only [Chain.undelegated, partOf_cons, partOf_nil, Nat.add_zero]
    constructor
    · rintro ⟨_, ⟨hpos, hle, rfl⟩, hrest⟩
      obtain ⟨hall, hparts, rfl⟩ := (undelegateAll_eq_ok parts).mp hrest
      refine ⟨⟨hpos, hall⟩, ?_, undelegated_cons ..⟩
      intro v
      have hv := hparts v
      rw [hleft] at hv
      rw [partOf_cons]
      split at hv
      · rename_i heq
        subst heq
        rw [if_pos rfl]
        omega
      · rename_i hne
        rw [if_neg hne]
        omega
    · rintro ⟨⟨hpos, hall⟩, hparts, rfl⟩
      have hp := hparts p.1
      rw [partOf_cons, if_pos rfl] at hp
      refine ⟨_, ⟨hpos, by omega, rfl⟩, (undelegateAll_eq_ok parts).mpr
        ⟨hall, ?_, (undelegated_cons ..).symm⟩⟩
      intro v
      have hv := hparts v
      rw [partOf_cons] at hv
      rw [hleft]
      omega

end UnionVoyager.Lst
