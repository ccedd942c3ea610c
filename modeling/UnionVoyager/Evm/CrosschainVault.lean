import UnionVoyager.Evm.Basic
import UnionVoyager.Lib.Machine
import Mathlib.Tactic.Ring

/-!
# The crosschain vault

A vault of one asset whose shares are an ERC4626 token.  A solve lends the base amount of an order to the
counterparty of its lane and pays the receiver, the protocol and the relayer; the counterparty repays.

* `Solved`, `solve_effect` — what a solve pays and records; `repay_effect` — what a repayment does.
* `Owed` — the deployed capital is the sum of the debts.
-/

namespace UnionVoyager.Evm.CrosschainVault

open Lib Lib.Machine Function Ledger

/-! ## The contract -/

inductive VaultError where
  | onlyZkgm
  | intentWhitelistedOnly
  | baseAmountMustCoverQuoteAmount
  | counterpartyIsNotFungible
  | fool
  | respectMinFee
  | repayingTooMuch
  | unauthorized
  | exceededMax
  | invalidReceiver
  | insufficientBalance
  | insufficientAllowance

abbrev Result := Except (Revert VaultError)

structure FungibleCounterparty where
  bpsFee : Nat
  bpsProtocolFee : Nat
  protocolFeeBeneficiary : Address
  debt : Nat
  debtAccount : Bytes

/-- The storage of the vault with that of its shares, and the storage of the asset. -/
structure State (T : Type) where
  fungibleCounterparties : Lane → FungibleCounterparty
  intentWhitelist : Bytes32 → Bool
  zkgm : Address
  quoteToken : Address
  deployedCapital : Nat
  totalSupply : Nat
  shares : Address → Nat
  allowance : (owner spender : Address) → Nat
  asset : T

/-- The conversions of an ERC4626 vault, given its supply of shares and its assets: they round in its favour,
and count one share and one asset more than there are. -/
structure Erc4626 where
  previewDeposit : (totalSupply totalAssets assets : Nat) → Nat
  previewMint : (totalSupply totalAssets shares : Nat) → Nat
  previewWithdraw : (totalSupply totalAssets assets : Nat) → Nat
  previewRedeem : (totalSupply totalAssets shares : Nat) → Nat
  deposit_le : ∀ S A n, previewDeposit S A n * (A + 1) ≤ n * (S + 1)
  mint_le : ∀ S A n, n * (A + 1) ≤ previewMint S A n * (S + 1)
  withdraw_le : ∀ S A n, n * (S + 1) ≤ previewWithdraw S A n * (A + 1)
  redeem_le : ∀ S A n, previewRedeem S A n * (S + 1) ≤ n * (A + 1)

/-- What is outside of the contract. -/
structure Env (T : Type) where
  self : Address
  erc20 : Erc20 T
  erc4626 : Erc4626
  commitPacket : IBCPacket → Bytes32

variable {T : Type} (env : Env T)

def BPS_SCALE : Nat := 1000000

/-- `_fee`; `mulDiv` has the product in full and reverts if the quotient does not fit. -/
def fee (amount bps : Nat) : Result Nat := checked 256 (amount * bps / BPS_SCALE)

section

variable (s : State T)

def balance : Nat := env.erc20.balanceOf s.asset env.self

def totalAssets : Result Nat := checked 256 (balance env s + s.deployedCapital)

def increaseDeployedCapital (amount : Nat) : Result (State T) := do
  let deployedCapital ← checked 256 (s.deployedCapital + amount)
  pure { s with deployedCapital := deployedCapital }

def deployCapital (beneficiary : Address) (amount : Nat) : Result (State T) :=
  if 0 < amount then do
    let asset ← orErr (env.erc20.transfer s.asset env.self beneficiary amount) .failedCall
    increaseDeployedCapital { s with asset := asset } amount
  else
    .ok s

def setDebt (l : Lane) (debt : Nat) : State T :=
  { s with
    fungibleCounterparties := update s.fungibleCounterparties l
      { s.fungibleCounterparties l with debt := debt } }

def accountDebt (l : Lane) (amount : Nat) : Result (State T) := do
  let debt ← checked 256 ((s.fungibleCounterparties l).debt + amount)
  pure (setDebt s l debt)

def repay (sender : Address) (l : Lane) (amount : Nat) : Result (State T) := do
  let counterparty := s.fungibleCounterparties l
  ensure (counterparty.debtAccount ≠ []) (.custom .counterpartyIsNotFungible)
  ensure (amount ≤ counterparty.debt) (.custom .repayingTooMuch)
  let asset ← orErr (env.erc20.transferFrom s.asset env.self sender env.self amount) .failedCall
  let s := { s with asset := asset }
  let debt ← checkedSub counterparty.debt amount
  let s := setDebt s l debt
  let deployedCapital ← checkedSub s.deployedCapital amount
  pure { s with deployedCapital := deployedCapital }

def solve (sender : Address) (packet : IBCPacket) (order : TokenOrderV2) (path : BitVec 256)
    (relayer : Address) (intent : Bool) : Result (State T × Bytes) := do
  ensure (sender = s.zkgm) (.custom .onlyZkgm)
  onlyIf intent (ensure (s.intentWhitelist (env.commitPacket packet) = true) (.custom .intentWhitelistedOnly))
  let lane := laneOf packet order path
  let counterparty := s.fungibleCounterparties lane
  ensure (counterparty.debtAccount ≠ []) (.custom .counterpartyIsNotFungible)
  ensure (order.quoteToken = encodePacked s.quoteToken) (.custom .fool)
  ensure (order.quoteAmount ≤ order.baseAmount) (.custom .baseAmountMustCoverQuoteAmount)
  let expectedVaultFee ← fee order.baseAmount counterparty.bpsFee
  let expectedProtocolFee ← fee order.baseAmount counterparty.bpsProtocolFee
  let expectedMinimumFee ← checked 256 (expectedVaultFee + expectedProtocolFee)
  let actualFee := order.baseAmount - order.quoteAmount
  ensure (expectedMinimumFee ≤ actualFee) (.custom .respectMinFee)
  let s ← deployCapital env s (toAddress order.receiver) order.quoteAmount
  let s ← deployCapital env s counterparty.protocolFeeBeneficiary expectedProtocolFee
  let s ← increaseDeployedCapital s expectedVaultFee
  let s ← deployCapital env s relayer (actualFee - expectedMinimumFee)
  let s ← accountDebt s lane order.baseAmount
  pure (s, counterparty.debtAccount)

end

/-! ### Shares -/

section

variable (s : State T)

def mintShares (receiver : Address) (amount : Nat) : Result (State T) := do
  ensure (receiver ≠ 0) (.custom .invalidReceiver)
  let totalSupply ← checked 256 (s.totalSupply + amount)
  pure { s with totalSupply := totalSupply, shares := credited s.shares receiver amount }

/-- The allowance of the largest number stays as it is. -/
def spendAllowance (owner spender : Address) (amount : Nat) : Result (State T) :=
  if s.allowance owner spender = 2 ^ 256 - 1 then
    .ok s
  else do
    ensure (amount ≤ s.allowance owner spender) (.custom .insufficientAllowance)
    pure { s with
      allowance := update s.allowance owner
        (update (s.allowance owner) spender (s.allowance owner spender - amount)) }

def spendUnlessOwner (owner spender : Address) (amount : Nat) : Result (State T) :=
  if spender = owner then .ok s else spendAllowance s owner spender amount

def burnShares (owner : Address) (amount : Nat) : Result (State T) := do
  ensure (amount ≤ s.shares owner) (.custom .insufficientBalance)
  let totalSupply ← checkedSub s.totalSupply amount
  pure { s with totalSupply := totalSupply, shares := update s.shares owner (s.shares owner - amount) }

/-- `_deposit`: the assets come in before the shares are minted. -/
def depositWith (sender receiver : Address) (assets shares : Nat) : Result (State T) := do
  let asset ← orErr (env.erc20.transferFrom s.asset env.self sender env.self assets) .failedCall
  mintShares { s with asset := asset } receiver shares

/-- `_withdraw`: the shares are burned before the assets go out. -/
def withdrawWith (sender receiver owner : Address) (assets shares : Nat) : Result (State T) := do
  let s ← spendUnlessOwner s owner sender shares
  let s ← burnShares s owner shares
  let asset ← orErr (env.erc20.transfer s.asset env.self receiver assets) .failedCall
  pure { s with asset := asset }

def deposit (sender receiver : Address) (assets : Nat) : Result (State T) := do
  let total ← totalAssets env s
  depositWith env s sender receiver assets (env.erc4626.previewDeposit s.totalSupply total assets)

def mint (sender receiver : Address) (shares : Nat) : Result (State T) := do
  let total ← totalAssets env s
  depositWith env s sender receiver (env.erc4626.previewMint s.totalSupply total shares) shares

def withdraw (sender receiver owner : Address) (assets : Nat) : Result (State T) := do
  let total ← totalAssets env s
  ensure (assets ≤ env.erc4626.previewRedeem s.totalSupply total (s.shares owner)) (.custom .exceededMax)
  withdrawWith env s sender receiver owner assets (env.erc4626.previewWithdraw s.totalSupply total assets)

def redeem (sender receiver owner : Address) (shares : Nat) : Result (State T) := do
  let total ← totalAssets env s
  ensure (shares ≤ s.shares owner) (.custom .exceededMax)
  withdrawWith env s sender receiver owner (env.erc4626.previewRedeem s.totalSupply total shares) shares

end

/-! ### Transactions -/

/-- One transaction; `permitted` is what the authority answers to `restricted`.  Between the
transactions of the vault the shares and the asset may change hands. -/
inductive Op (T : Type) where
  | solve (sender : Address) (packet : IBCPacket) (order : TokenOrderV2) (path : BitVec 256)
      (relayer : Address) (intent : Bool)
  | repay (sender : Address) (lane : Lane) (amount : Nat)
  | deposit (sender receiver : Address) (assets : Nat)
  | mint (sender receiver : Address) (shares : Nat)
  | withdraw (sender receiver owner : Address) (assets : Nat)
  | redeem (sender receiver owner : Address) (shares : Nat)
  | setFungibleCounterparty (permitted : Bool) (lane : Lane) (counterparty : FungibleCounterparty)
  | whitelistIntent (permitted : Bool) (packetHashes : List Bytes32) (whitelist : Bool)
  | moveShares (shares : Address → Nat) (allowance : Address → Address → Nat)
  | moveAsset (asset : T)

def next (s : State T) : Op T → State T
  | .solve sender packet order path relayer intent =>
    transact s (Prod.fst <$> solve env s sender packet order path relayer intent)
  | .repay sender lane amount => transact s (repay env s sender lane amount)
  | .deposit sender receiver assets => transact s (deposit env s sender receiver assets)
  | .mint sender receiver shares => transact s (mint env s sender receiver shares)
  | .withdraw sender receiver owner assets => transact s (withdraw env s sender receiver owner assets)
  | .redeem sender receiver owner shares => transact s (redeem env s sender receiver owner shares)
  | .setFungibleCounterparty permitted lane counterparty =>
    if permitted then
      { s with fungibleCounterparties := update s.fungibleCounterparties lane counterparty }
    else
      s
  | .whitelistIntent permitted packetHashes whitelist =>
    if permitted then
      { s with intentWhitelist := fun h => if h ∈ packetHashes then whitelist else s.intentWhitelist h }
    else
      s
  | .moveShares shares allowance => { s with shares := shares, allowance := allowance }
  | .moveAsset asset => { s with asset := asset }

/-- The vault as it was initialised. -/
def init (zkgm quoteToken : Address) (asset : T) : State T where
  fungibleCounterparties _ := ⟨0, 0, 0, 0, []⟩
  intentWhitelist _ := false
  zkgm := zkgm
  quoteToken := quoteToken
  deployedCapital := 0
  totalSupply := 0
  shares _ := 0
  allowance _ _ := 0
  asset := asset

/-! ## What the transactions do -/

variable {env}

/-- What is recorded as debt, lane by lane. -/
def debts (s : State T) (l : Lane) : Nat := (s.fungibleCounterparties l).debt

variable (env) in
/-- The assets of the vault: what it holds and what it is owed. -/
def assets (s : State T) : Nat := balance env s + s.deployedCapital

variable {amount n shares : Nat}

@[simp] theorem fee_eq_ok {bps : Nat} :
    fee amount bps = .ok n ↔ amount * bps / BPS_SCALE < 2 ^ 256 ∧ amount * bps / BPS_SCALE = n :=
      checked_eq_ok

variable {s s' : State T}

@[simp] theorem totalAssets_eq_ok :
    totalAssets env s = .ok n ↔ assets env s < 2 ^ 256 ∧ assets env s = n := checked_eq_ok

/-- Capital was paid to a beneficiary and counted; nothing else happened. -/
structure Deployed (env : Env T) (beneficiary : Address) (amount : Nat) (s s' : State T) : Prop where
  counterparties : s'.fungibleCounterparties = s.fungibleCounterparties
  supply : s'.totalSupply = s.totalSupply
  capital : s'.deployedCapital = s.deployedCapital + amount
  covered : amount ≤ balance env s
  paid : env.erc20.balanceOf s'.asset = moved (env.erc20.balanceOf s.asset) env.self beneficiary amount

theorem deployCapital_eq_ok {beneficiary : Address} (h : deployCapital env s beneficiary amount = .ok s') :
    Deployed env beneficiary amount s s' := by
  unfold deployCapital at h
  split at h
  · simp only [bind_eq_ok, orErr_eq_ok, increaseDeployedCapital, checked_eq_ok, pure_eq_ok] at h
    obtain ⟨asset, hasset, _, ⟨-, rfl⟩, rfl⟩ := h
    obtain ⟨hcovered, hpaid⟩ := env.erc20.transfer_moves hasset
    exact ⟨rfl, rfl, rfl, hcovered, hpaid⟩
  · have hzero : amount = 0 := by omega
    cases h
    subst hzero
    refine ⟨rfl, rfl, rfl, Nat.zero_le _, ?_⟩
    funext a
    rw [moved, credited_apply, Nat.sub_zero, update_eq_self]
    split <;> rfl

theorem Deployed.assets_le {beneficiary : Address} (h : Deployed env beneficiary amount s s') :
    assets env s ≤ assets env s' := by
  have hmoved : balance env s' + amount = balance env s + if beneficiary = env.self then amount else 0 := by
    unfold balance
    rw [h.paid]
    exact moved_add beneficiary h.covered
  unfold assets
  rw [h.capital]
  omega

/-- The fees of an order: what the vault and the protocol take, and what is left to the relayer. -/
structure Fees (counterparty : FungibleCounterparty) (order : TokenOrderV2)
    (vaultFee protocolFee relayerFee : Nat) : Prop where
  vault : vaultFee = order.baseAmount * counterparty.bpsFee / BPS_SCALE
  protocol : protocolFee = order.baseAmount * counterparty.bpsProtocolFee / BPS_SCALE
  sum : order.quoteAmount + protocolFee + relayerFee + vaultFee = order.baseAmount

/-- What a successful solve of an order on the lane did. -/
structure Solved (env : Env T) (lane : Lane) (relayer : Address) (order : TokenOrderV2)
    (s s' : State T) (vaultFee protocolFee relayerFee : Nat) : Prop where
  fees : Fees (s.fungibleCounterparties lane) order vaultFee protocolFee relayerFee
  /-- The receiver, the protocol and the relayer are paid, one after the other. -/
  paid : env.erc20.balanceOf s'.asset =
    moved (moved (moved (env.erc20.balanceOf s.asset) env.self (toAddress order.receiver)
      order.quoteAmount) env.self (s.fungibleCounterparties lane).protocolFeeBeneficiary protocolFee)
      env.self relayer relayerFee
  debt : debts s' = credited (debts s) lane order.baseAmount
  capital : s'.deployedCapital = s.deployedCapital + order.baseAmount
  supply : s'.totalSupply = s.totalSupply
  assets_le : assets env s + vaultFee ≤ assets env s'

theorem debts_setDebt (s : State T) (l : Lane) (debt : Nat) :
    debts (setDebt s l debt) = update (debts s) l debt := by
  funext x
  unfold debts setDebt
  by_cases hx : x = l
  · subst hx
    simp
  · simp [update_of_ne hx]

@[simp] theorem setDebt_deployedCapital (s : State T) (l : Lane) (debt : Nat) :
    (setDebt s l debt).deployedCapital = s.deployedCapital := rfl

@[simp] theorem assets_setDebt (s : State T) (l : Lane) (debt : Nat) :
    assets env (setDebt s l debt) = assets env s := rfl

variable {sender : Address}

theorem solve_effect {relayer : Address} {packet : IBCPacket} {order : TokenOrderV2} {path : BitVec 256}
    {intent : Bool} {r : State T × Bytes} (h : solve env s sender packet order path relayer intent = .ok r) :
    ∃ vaultFee protocolFee relayerFee,
      Solved env (laneOf packet order path) relayer order s r.1 vaultFee protocolFee relayerFee := by
  simp only [solve, bind_eq_ok, onlyIf_eq_ok, ensure_eq_ok, pure_eq_ok, fee_eq_ok, checked_eq_ok] at h
  obtain ⟨_, -, _, -, _, -, _, -, _, hcovered, vaultFee, ⟨-, hvault⟩, protocolFee, ⟨-, hprotocol⟩,
    _, ⟨-, rfl⟩, _, hminimum, s₁, h₁, s₂, h₂, s₃, h₃, s₄, h₄, s₅, h₅, rfl⟩ := h
  have h₁ := deployCapital_eq_ok h₁
  have h₂ := deployCapital_eq_ok h₂
  have h₄ := deployCapital_eq_ok h₄
  simp only [increaseDeployedCapital, bind_eq_ok, checked_eq_ok, pure_eq_ok] at h₃
  obtain ⟨_, ⟨-, rfl⟩, rfl⟩ := h₃
  simp only [accountDebt, bind_eq_ok, checked_eq_ok, pure_eq_ok] at h₅
  obtain ⟨_, ⟨-, rfl⟩, rfl⟩ := h₅
  have hcounterparties : s₄.fungibleCounterparties = s.fungibleCounterparties :=
    h₄.counterparties.trans (h₂.counterparties.trans h₁.counterparties)
  have hdebts : debts s₄ = debts s := by
    funext l
    unfold debts
    rw [hcounterparties]
  refine ⟨vaultFee, protocolFee, order.baseAmount - order.quoteAmount - (vaultFee + protocolFee), ?_⟩
  refine ⟨⟨hvault.symm, hprotocol.symm, by omega⟩, ?_, ?_, ?_, ?_, ?_⟩
  · have hfirst := h₁.paid
    have hsecond := h₂.paid
    have hthird : env.erc20.balanceOf s₄.asset = _ := h₄.paid
    rw [hfirst] at hsecond
    rw [hsecond] at hthird
    exact hthird
  · rw [debts_setDebt, credited, hdebts, hcounterparties]
    rfl
  · have hthird : s₄.deployedCapital = s₂.deployedCapital + vaultFee +
        (order.baseAmount - order.quoteAmount - (vaultFee + protocolFee)) := h₄.capital
    rw [setDebt_deployedCapital, hthird, h₂.capital, h₁.capital]
    omega
  · exact h₄.supply.trans (h₂.supply.trans h₁.supply)
  · have hfirst := h₁.assets_le
    have hsecond := h₂.assets_le
    have hfourth : assets env s₂ + vaultFee ≤ assets env s₄ := by
      have hle := h₄.assets_le
      have hmore : assets env { s₂ with deployedCapital := s₂.deployedCapital + vaultFee } =
          assets env s₂ + vaultFee :=
        (Nat.add_assoc _ _ _).symm
      rwa [hmore] at hle
    rw [assets_setDebt]
    omega

/-- What a successful repayment did. -/
structure Repaid (env : Env T) (sender : Address) (lane : Lane) (amount : Nat) (s s' : State T) : Prop where
  le_debt : amount ≤ debts s lane
  le_capital : amount ≤ s.deployedCapital
  debt : debts s' = update (debts s) lane (debts s lane - amount)
  capital : s'.deployedCapital = s.deployedCapital - amount
  covered : amount ≤ env.erc20.balanceOf s.asset sender
  paid : env.erc20.balanceOf s'.asset = moved (env.erc20.balanceOf s.asset) sender env.self amount
  supply : s'.totalSupply = s.totalSupply

theorem repay_effect {lane : Lane} (h : repay env s sender lane amount = .ok s') :
    Repaid env sender lane amount s s' := by
  simp only [repay, bind_eq_ok, ensure_eq_ok, orErr_eq_ok, checkedSub_eq_ok, pure_eq_ok] at h
  obtain ⟨_, -, _, hdebt, asset, hasset, _, ⟨-, rfl⟩, _, ⟨hcapital, rfl⟩, rfl⟩ := h
  obtain ⟨hcovered, hpaid⟩ := env.erc20.transferFrom_moves hasset
  exact ⟨hdebt, hcapital, debts_setDebt _ _ _, rfl, hcovered, hpaid, rfl⟩

/-- **A repayment leaves the assets as they are.** -/
theorem Repaid.assets_eq {lane : Lane} (h : Repaid env sender lane amount s s')
    (hsender : sender ≠ env.self) : assets env s' = assets env s := by
  have hbal : balance env s' = balance env s + amount := by
    unfold balance
    rw [h.paid, moved_of_ne _ _ _ (Ne.symm hsender), if_pos rfl]
  have hcapital := h.capital
  have hle := h.le_capital
  unfold assets
  omega

/-! ### Shares -/

/-- Nothing that the debts are about has changed. -/
structure SameDebts (s s' : State T) : Prop where
  debt : debts s' = debts s
  capital : s'.deployedCapital = s.deployedCapital

/-- A share is worth no less in `s'` than in `s`, counting one asset and one share more than there are. -/
def Worth (env : Env T) (s s' : State T) : Prop :=
  (assets env s + 1) * (s'.totalSupply + 1) ≤ (assets env s' + 1) * (s.totalSupply + 1)

theorem Worth.refl (s : State T) : Worth env s s := Nat.le_refl _

theorem Worth.trans {s₁ : State T} (h : Worth env s s₁) (h' : Worth env s₁ s') : Worth env s s' := by
  unfold Worth at h h' ⊢
  generalize assets env s + 1 = a at h ⊢
  generalize assets env s₁ + 1 = a₁ at h h'
  generalize assets env s' + 1 = a' at h' ⊢
  have hpos : 0 < s₁.totalSupply + 1 := Nat.succ_pos _
  generalize s₁.totalSupply + 1 = n₁ at h h' hpos
  generalize s.totalSupply + 1 = n at h ⊢
  generalize s'.totalSupply + 1 = n' at h' ⊢
  refine Nat.le_of_mul_le_mul_right ?_ hpos
  calc a * n' * n₁ = a * n₁ * n' := Nat.mul_right_comm a n' n₁
    _ ≤ a₁ * n * n' := Nat.mul_le_mul_right n' h
    _ = a₁ * n' * n := Nat.mul_right_comm a₁ n n'
    _ ≤ a' * n₁ * n := Nat.mul_le_mul_right n h'
    _ = a' * n * n₁ := Nat.mul_right_comm a' n₁ n

theorem Worth.of_le (hsupply : s'.totalSupply = s.totalSupply) (h : assets env s ≤ assets env s') :
    Worth env s s' := by
  unfold Worth
  rw [hsupply]
  exact Nat.mul_le_mul_right _ (Nat.succ_le_succ h)

theorem Worth.of_deposit (hassets : assets env s' = assets env s + n)
    (hsupply : s'.totalSupply = s.totalSupply + shares)
    (h : shares * (assets env s + 1) ≤ n * (s.totalSupply + 1)) : Worth env s s' := by
  unfold Worth
  rw [hassets, hsupply]
  calc (assets env s + 1) * (s.totalSupply + shares + 1)
      = (assets env s + 1) * (s.totalSupply + 1) + shares * (assets env s + 1) := by ring
    _ ≤ (assets env s + 1) * (s.totalSupply + 1) + n * (s.totalSupply + 1) := Nat.add_le_add_left h _
    _ = (assets env s + n + 1) * (s.totalSupply + 1) := by ring

theorem Worth.of_withdrawal (hassets : assets env s ≤ assets env s' + n)
    (hsupply : s'.totalSupply + shares = s.totalSupply)
    (h : n * (s.totalSupply + 1) ≤ shares * (assets env s + 1)) : Worth env s s' := by
  unfold Worth
  have hle : (assets env s + 1) * (s.totalSupply + 1) ≤
      (assets env s' + 1) * (s.totalSupply + 1) + n * (s.totalSupply + 1) := by
    rw [← Nat.add_mul]
    exact Nat.mul_le_mul_right _ (by omega)
  have hsplit : (assets env s + 1) * (s.totalSupply + 1) =
      (assets env s + 1) * (s'.totalSupply + 1) + shares * (assets env s + 1) := by
    rw [← hsupply]
    ring
  omega

theorem depositWith_effect {receiver : Address} (hsender : sender ≠ env.self)
    (h : depositWith env s sender receiver n shares = .ok s') :
    SameDebts s s' ∧ assets env s' = assets env s + n ∧ s'.totalSupply = s.totalSupply + shares := by
  simp only [depositWith, mintShares, bind_eq_ok, orErr_eq_ok, ensure_eq_ok, checked_eq_ok, pure_eq_ok] at h
  obtain ⟨asset, hasset, _, -, _, ⟨-, rfl⟩, rfl⟩ := h
  obtain ⟨-, hpaid⟩ := env.erc20.transferFrom_moves hasset
  refine ⟨⟨rfl, rfl⟩, ?_, rfl⟩
  unfold assets balance
  simp only [hpaid, moved_of_ne _ _ _ (Ne.symm hsender), if_true]
  exact Nat.add_right_comm _ _ _

theorem spendUnlessOwner_effect {owner spender : Address}
    (h : spendUnlessOwner s owner spender amount = .ok s') :
    ∃ allowance, s' = { s with allowance := allowance } := by
  unfold spendUnlessOwner spendAllowance at h
  split at h
  · cases h
    exact ⟨s.allowance, rfl⟩
  · split at h
    · cases h
      exact ⟨s.allowance, rfl⟩
    · simp only [bind_eq_ok, pure_eq_ok] at h
      obtain ⟨_, -, rfl⟩ := h
      exact ⟨_, rfl⟩

theorem withdrawWith_effect {receiver owner : Address}
    (h : withdrawWith env s sender receiver owner n shares = .ok s') :
    SameDebts s s' ∧ assets env s ≤ assets env s' + n ∧ s'.totalSupply + shares = s.totalSupply := by
  simp only [withdrawWith, bind_eq_ok, orErr_eq_ok, pure_eq_ok] at h
  obtain ⟨s₁, hspent, s₂, hburned, asset, hasset, rfl⟩ := h
  obtain ⟨allowance, rfl⟩ := spendUnlessOwner_effect hspent
  simp only [burnShares, bind_eq_ok, ensure_eq_ok, checkedSub_eq_ok, pure_eq_ok] at hburned
  obtain ⟨_, -, _, ⟨hsupply, rfl⟩, rfl⟩ := hburned
  obtain ⟨hcovered, hpaid⟩ := env.erc20.transfer_moves hasset
  refine ⟨⟨rfl, rfl⟩, ?_, Nat.sub_add_cancel hsupply⟩
  have hmoved := moved_add receiver hcovered
  unfold assets balance
  rw [hpaid]
  dsimp only at hmoved hcovered ⊢
  omega

variable (env)

def step (s : State T) (op : Op T) : State T × List Unit := (next env s op, [])

/-- The vault does not call itself, a counterparty is reconfigured without changing its debt, and the asset
of the vault leaves it only through its own transactions. -/
def Allowed (s : State T) : Op T → Prop
  | .repay sender _ _ => sender ≠ env.self
  | .deposit sender _ _ => sender ≠ env.self
  | .mint sender _ _ => sender ≠ env.self
  | .setFungibleCounterparty permitted lane counterparty => permitted = true →
      counterparty.debt = debts s lane
  | .moveAsset asset => balance env s ≤ env.erc20.balanceOf asset env.self
  | _ => True

variable {env}

/-- What one transaction keeps. -/
structure Keeps (env : Env T) (s s' : State T) : Prop where
  owed : Totals (debts s) s.deployedCapital → Totals (debts s') s'.deployedCapital
  worth : Worth env s s'

theorem Keeps.refl (s : State T) : Keeps env s s := ⟨id, .refl s⟩

theorem SameDebts.owed (h : SameDebts s s') (howed : Totals (debts s) s.deployedCapital) :
    Totals (debts s') s'.deployedCapital := by
  rw [h.debt, h.capital]
  exact howed

theorem Keeps.transact {x : Result (State T)} (h : ∀ s', x = .ok s' → Keeps env s s') :
    Keeps env s (transact s x) := by
  cases x with
  | error e => exact .refl s
  | ok s' => exact h s' rfl

/-- **One transaction keeps the debts accounted for and the worth of a share.** -/
theorem next_keeps {op : Op T} (hop : Allowed env s op) : Keeps env s (next env s op) := by
  cases op with
  | solve sender packet order path relayer intent =>
    refine Keeps.transact ?_
    intro s' h
    obtain ⟨r, hsolve, rfl⟩ := map_eq_ok.mp h
    obtain ⟨vaultFee, protocolFee, relayerFee, hsolved⟩ := solve_effect hsolve
    refine ⟨?_, .of_le hsolved.supply (Nat.le_trans (Nat.le_add_right _ _) hsolved.assets_le)⟩
    intro howed
    rw [hsolved.debt, hsolved.capital]
    exact howed.credited _ _
  | repay sender lane amount =>
    refine Keeps.transact ?_
    intro s' h
    have hrepaid := repay_effect h
    refine ⟨?_, .of_le hrepaid.supply (Nat.le_of_eq (hrepaid.assets_eq hop).symm)⟩
    intro howed
    rw [hrepaid.debt, hrepaid.capital]
    exact howed.debited hrepaid.le_debt
  | deposit sender receiver n =>
    refine Keeps.transact ?_
    intro s' h
    simp only [deposit, bind_eq_ok, totalAssets_eq_ok] at h
    obtain ⟨_, ⟨-, rfl⟩, h⟩ := h
    obtain ⟨hsame, hassets, hsupply⟩ := depositWith_effect hop h
    exact ⟨hsame.owed, .of_deposit hassets hsupply (env.erc4626.deposit_le _ _ _)⟩
  | mint sender receiver shares =>
    refine Keeps.transact ?_
    intro s' h
    simp only [mint, bind_eq_ok, totalAssets_eq_ok] at h
    obtain ⟨_, ⟨-, rfl⟩, h⟩ := h
    obtain ⟨hsame, hassets, hsupply⟩ := depositWith_effect hop h
    exact ⟨hsame.owed, .of_deposit hassets hsupply (env.erc4626.mint_le _ _ _)⟩
  | withdraw sender receiver owner n =>
    refine Keeps.transact ?_
    intro s' h
    simp only [withdraw, bind_eq_ok, totalAssets_eq_ok] at h
    obtain ⟨_, ⟨-, rfl⟩, _, -, h⟩ := h
    obtain ⟨hsame, hassets, hsupply⟩ := withdrawWith_effect h
    exact ⟨hsame.owed, .of_withdrawal hassets hsupply (env.erc4626.withdraw_le _ _ _)⟩
  | redeem sender receiver owner shares =>
    refine Keeps.transact ?_
    intro s' h
    simp only [redeem, bind_eq_ok, totalAssets_eq_ok] at h
    obtain ⟨_, ⟨-, rfl⟩, _, -, h⟩ := h
    obtain ⟨hsame, hassets, hsupply⟩ := withdrawWith_effect h
    exact ⟨hsame.owed, .of_withdrawal hassets hsupply (env.erc4626.redeem_le _ _ _)⟩
  | setFungibleCounterparty permitted lane counterparty =>
    simp only [next]
    split
    · rename_i hpermitted
      have hsame : SameDebts s { s with
          fungibleCounterparties := update s.fungibleCounterparties lane counterparty } := by
        refine ⟨?_, rfl⟩
        funext l
        simp only [debts]
        by_cases hl : l = lane
        · subst hl
          rw [update_self]
          exact hop hpermitted
        · rw [update_of_ne hl]
      exact ⟨hsame.owed, .of_le rfl (Nat.le_refl _)⟩
    · exact .refl s
  | whitelistIntent permitted packetHashes whitelist =>
    simp only [next]
    split
    · exact ⟨id, .of_le rfl (Nat.le_refl _)⟩
    · exact .refl s
  | moveShares shares allowance => exact ⟨id, .of_le rfl (Nat.le_refl _)⟩
  | moveAsset asset => exact ⟨id, .of_le rfl (Nat.add_le_add_right hop _)⟩

theorem owed_run {ops : List (Op T)} (howed : Totals (debts s) s.deployedCapital)
    (h : Meets (step env) (Allowed env) s ops) :
    Totals (debts (run (step env) s ops)) (run (step env) s ops).deployedCapital :=
  invariant_of_meets (I := fun s _ => Totals (debts s) s.deployedCapital)
    (fun _ _ _ hs hop => (next_keeps hop).owed hs) howed h

theorem worth_run {ops : List (Op T)} (h : Meets (step env) (Allowed env) s ops) :
    Worth env s (run (step env) s ops) :=
  invariant_of_meets (I := fun s' _ => Worth env s s') (fun _ _ _ hs hop => hs.trans (next_keeps hop).worth)
    (.refl s) h

/-- **The subtraction in `repay` never underflows.** -/
theorem repay_ne_arithmetic (howed : Totals (debts s) s.deployedCapital) (sender : Address)
    (lane : Lane) (amount : Nat) : repay env s sender lane amount ≠ .error .arithmetic := by
  intro h
  unfold repay at h
  by_cases hacct : (s.fungibleCounterparties lane).debtAccount ≠ []
  · by_cases hdebt : amount ≤ (s.fungibleCounterparties lane).debt
    · have hcapital : amount ≤ s.deployedCapital := Nat.le_trans hdebt (howed.le lane)
      cases htransf : env.erc20.transferFrom s.asset env.self sender env.self amount with
      | none => simp [ensure, hacct, hdebt, htransf, orErr] at h
      | some asset => simp [ensure, hacct, hdebt, htransf, orErr, checkedSub, setDebt, hcapital] at h
    · simp [ensure, hacct, hdebt] at h
  · simp [ensure, hacct] at h

/-- What holds in a run from the state `s`, for every way to cut it. -/
structure Accounted (env : Env T) (s : State T) (ops : List (Op T)) : Prop where
  /-- The deployed capital is the sum of the debts of all counterparties. -/
  owed : ∀ past rest, ops = past ++ rest →
    Totals (debts (run (step env) s past)) (run (step env) s past).deployedCapital
  repayable : ∀ past rest, ops = past ++ rest → ∀ sender lane amount,
    repay env (run (step env) s past) sender lane amount ≠ .error .arithmetic
  solved : ∀ past sender packet order path relayer intent rest,
    ops = past ++ .solve sender packet order path relayer intent :: rest →
    ∀ r, solve env (run (step env) s past) sender packet order path relayer intent = .ok r →
    ∃ vaultFee protocolFee relayerFee,
      Solved env (laneOf packet order path) relayer order (run (step env) s past) r.1 vaultFee
        protocolFee relayerFee
  repaid : ∀ past sender lane amount rest, ops = past ++ .repay sender lane amount :: rest →
    ∀ s', repay env (run (step env) s past) sender lane amount = .ok s' →
    assets env s' = assets env (run (step env) s past)
  worth : ∀ past mid rest, ops = past ++ mid ++ rest →
    Worth env (run (step env) s past) (run (step env) s (past ++ mid))

/-- **The accounts of the vault are right along every run.** -/
theorem accounted (env : Env T) {zkgm quoteToken : Address} {asset : T} {ops : List (Op T)}
    (hallowed : Meets (step env) (Allowed env) (init zkgm quoteToken asset) ops) :
    Accounted env (init zkgm quoteToken asset) ops := by
  have howed : ∀ past rest, ops = past ++ rest →
      Totals (debts (run (step env) (init zkgm quoteToken asset) past))
        (run (step env) (init zkgm quoteToken asset) past).deployedCapital := by
    rintro past rest rfl
    exact owed_run Totals.zero ((meets_append _ _ _).mp hallowed).1
  refine ⟨howed, ?_, ?_, ?_, ?_⟩
  · intro past rest hops sender lane amount
    exact repay_ne_arithmetic (howed past rest hops) sender lane amount
  · intro past sender packet order path relayer intent rest _ r hsolve
    exact solve_effect hsolve
  · intro past sender lane amount rest hops s' hrepay
    exact (repay_effect hrepay).assets_eq ((meets_iff ops _).mp hallowed past _ rest hops)
  · rintro past mid rest rfl
    obtain ⟨hpast, -⟩ := (meets_append _ _ _).mp hallowed
    rw [run_append]
    exact worth_run ((meets_append _ _ _).mp hpast).2

/-! ## A deposit that is rounded -/

theorem le_ceil_mul (a b : Nat) : a ≤ (a + b) / (b + 1) * (b + 1) := by
  have hdiv := Nat.div_add_mod (a + b) (b + 1)
  have hmod : (a + b) % (b + 1) < b + 1 := Nat.mod_lt _ (Nat.succ_pos b)
  rw [Nat.mul_comm] at hdiv
  omega

/-- The conversions of the OpenZeppelin vault. -/
def openZeppelin : Erc4626 where
  previewDeposit S A n := n * (S + 1) / (A + 1)
  previewMint S A n := (n * (A + 1) + S) / (S + 1)
  previewWithdraw S A n := (n * (S + 1) + A) / (A + 1)
  previewRedeem S A n := n * (A + 1) / (S + 1)
  deposit_le _ _ _ := Nat.div_mul_le_self _ _
  mint_le _ _ _ := le_ceil_mul _ _
  withdraw_le _ _ _ := le_ceil_mul _ _
  redeem_le _ _ _ := Nat.div_mul_le_self _ _

namespace Sample

def contract : Env Standard where
  self := 9
  erc20 := standard
  erc4626 := openZeppelin
  commitPacket _ := 0

/-- An account with a hundred tokens that the vault may take. -/
def funded : Standard := { (Standard.empty.mint 6 100).getD .empty with allowance := fun _ _ => 100 }

def start : State Standard := init 2 3 funded

def order : TokenOrderV2 where
  sender := [1]
  receiver := encodePacked 6
  baseToken := [5]
  baseAmount := 2
  quoteToken := encodePacked 3
  quoteAmount := 0
  kind := 3
  metadata := []

/-- One share for one token, and an order that is all fee for the vault. -/
def profit : List (Op Standard) :=
  [.setFungibleCounterparty true ⟨0, 1, [5]⟩ ⟨BPS_SCALE, 0, 0, 0, [7]⟩, .deposit 6 6 1,
    .solve 2 ⟨3, 1, [], 0, 0⟩ order 0 8 false]

end Sample

open Sample in
theorem accounted_sample :
    Accounted contract start (profit ++ [.deposit 6 6 2, .repay 6 ⟨0, 1, [5]⟩ 2]) :=
  accounted contract (by
    refine ⟨fun _ => rfl, ?_, trivial, ?_, ?_, trivial⟩ <;> exact (by decide : (6 : Address) ≠ 9))

open Sample in
/-- **A deposit may lower the bare quotient**: three assets for one share, then five for two. -/
theorem share_diluted :
    Meets (step contract) (Allowed contract) start (profit ++ [.deposit 6 6 2]) ∧
    ¬ assets contract (run (step contract) start profit) *
        (run (step contract) start (profit ++ [.deposit 6 6 2])).totalSupply ≤
      assets contract (run (step contract) start (profit ++ [.deposit 6 6 2])) *
        (run (step contract) start profit).totalSupply := by
  refine ⟨?_, by decide⟩
  refine ⟨fun _ => rfl, ?_, trivial, ?_, trivial⟩ <;> exact (by decide : (6 : Address) ≠ 9)

end UnionVoyager.Evm.CrosschainVault
