import UnionVoyager.Evm.EscrowVault

/-!
# The escrow vault in CosmWasm

The solver of `Evm.EscrowVault` on the other side: its denoms are strings, its amounts have 128 bits, and its
payments are messages that are carried out after the call.

* `Fillable`, `doSolve_of_fillable`, `doSolve_of_not_fillable` — when a solve returns, fails and panics.
* `deliver_payments` — when its messages are carried out; `step_doSolve` — the whole transaction.
-/

namespace UnionVoyager.Cw.EscrowVault

open Lib Function
open Evm (IBCPacket TokenOrderV2 Lane laneOf Bytes32)
open Evm.EscrowVault (Outcome Covered paid)

abbrev Addr := String

inductive ContractError where
  | baseAmountMustCoverQuoteAmount
  | onlyZkgm
  | invalidReceiver
  | intentMustBeWhitelisted
  | laneIsNotFungible (channelId : UInt32)
  | invalidQuoteToken
  | invalidFill (quoteToken escrowedDenom : String)

/-- How a call ends that does not return. -/
inductive Failure where
  | error (e : ContractError)
  | panic

abbrev Result := Except Failure

structure FungibleLane where
  counterpartyBeneficiary : Bytes
  escrowedDenom : String
  isCw20 : Bool

structure Storage where
  zkgm : Addr
  fungibleCounterparty : Lane → Option FungibleLane
  intentWhitelist : Bytes32 → Option Bool

inductive CosmosMsg where
  /-- `Cw20ExecuteMsg::Transfer` -/
  | transfer (contract : String) (recipient : Addr) (amount : Nat)
  | bankSend (toAddress : Addr) (amount : Nat) (denom : String)

/-- The chain: the address of the vault, the addresses that are valid, and those of contracts. -/
structure Env where
  contract : Addr
  addrValidate : String → Bool
  isContract : String → Bool
  commitPackets : IBCPacket → Bytes32

variable (env : Env)

/-- `try_into().expect("impossible")`, from 256 to 128 bits. -/
def expectU128 (n : Nat) : Result Nat := if n < 2 ^ 128 then .ok n else .error .panic

def pushTransfer (lane : FungibleLane) (messages : List CosmosMsg) (recipient : Addr)
    (amount : Nat) : List CosmosMsg :=
  if amount = 0 then messages
  else if lane.isCw20 then messages ++ [.transfer lane.escrowedDenom recipient amount]
  else messages ++ [.bankSend recipient amount lane.escrowedDenom]

/-- The arguments of `DoSolve`. -/
structure DoSolve where
  sender : Addr
  packet : IBCPacket
  order : TokenOrderV2
  path : BitVec 256
  relayer : Addr
  intent : Bool

def ensureZkgm (s : Storage) (sender : Addr) : Result Unit := ensure (sender = s.zkgm) (.error .onlyZkgm)

/-- The entry of a whitelisted packet is used up. -/
def useIntent (s : Storage) (packet : IBCPacket) (intent : Bool) : Result Storage :=
  if intent then
    if (s.intentWhitelist (env.commitPackets packet)).getD false then
      .ok { s with intentWhitelist := update s.intentWhitelist (env.commitPackets packet) none }
    else
      .error (.error .intentMustBeWhitelisted)
  else
    .ok s

def doSolve (s : Storage) (c : DoSolve) : Result (Storage × List CosmosMsg × Bytes) := do
  ensureZkgm s c.sender
  let s ← useIntent env s c.packet c.intent
  let lane ← orErr (s.fungibleCounterparty (laneOf c.packet c.order c.path))
    (.error (.laneIsNotFungible c.packet.destinationChannelId))
  let quoteToken ← orErr (fromUtf8 c.order.quoteToken) (.error .invalidQuoteToken)
  ensure (quoteToken = lane.escrowedDenom) (.error (.invalidFill quoteToken lane.escrowedDenom))
  ensure (c.order.quoteAmount ≤ c.order.baseAmount) (.error .baseAmountMustCoverQuoteAmount)
  let fee ← expectU128 (c.order.baseAmount - c.order.quoteAmount)
  let messages := pushTransfer lane [] c.relayer fee
  let receiver ← orErr (fromUtf8 c.order.receiver) (.error .invalidReceiver)
  ensure (env.addrValidate receiver = true) (.error .invalidReceiver)
  let quoteAmount ← expectU128 c.order.quoteAmount
  let messages := pushTransfer lane messages receiver quoteAmount
  pure (s, messages, lane.counterpartyBeneficiary)

def setFungibleCounterparty (s : Storage) (l : Lane) (counterpartyBeneficiary : Bytes)
    (escrowedDenom : String) : Storage :=
  { s with
    fungibleCounterparty := update s.fungibleCounterparty l
      (some ⟨counterpartyBeneficiary, escrowedDenom, env.isContract escrowedDenom⟩) }

def whitelistIntents (s : Storage) (hashesWhitelist : List (Bytes32 × Bool)) : Storage :=
  hashesWhitelist.foldl (fun s p => { s with intentWhitelist := update s.intentWhitelist p.1 (some p.2) }) s

/-! ## Transactions -/

/-- The storage of the vault, and the balances of each denom, a cw20 token being its contract. -/
structure World where
  storage : Storage
  balances : (denom : String) → Addr → Nat

def pay (b : String → Addr → Nat) (denom : String) (recipient : Addr) (amount : Nat) :
    Option (String → Addr → Nat) :=
  if amount ≤ b denom env.contract then
    some (update b denom (Ledger.moved (b denom) env.contract recipient amount))
  else
    none

def deliver (b : String → Addr → Nat) : CosmosMsg → Option (String → Addr → Nat)
  | .transfer contract recipient amount => pay env b contract recipient amount
  | .bankSend toAddress amount denom => pay env b denom toAddress amount

/-- One transaction; `permitted` is what the authority answers to `ensure_can_call`. -/
inductive Op where
  | setFungibleCounterparty (permitted : Bool) (lane : Lane) (counterpartyBeneficiary : Bytes)
      (escrowedDenom : String)
  | whitelistIntents (permitted : Bool) (hashesWhitelist : List (Bytes32 × Bool))
  | doSolve (c : DoSolve)
  | deposit (denom : String) (account : Addr) (amount : Nat)

/-- A call with the messages that it returns, all or nothing. -/
def step (w : World) : Op → World × List Outcome
  | .setFungibleCounterparty permitted lane beneficiary denom =>
    if permitted then
      ({ w with storage := setFungibleCounterparty env w.storage lane beneficiary denom }, [.done])
    else
      (w, [.failed])
  | .whitelistIntents permitted hashes =>
    if permitted then ({ w with storage := whitelistIntents w.storage hashes }, [.done]) else (w, [.failed])
  | .doSolve c =>
    match doSolve env w.storage c with
    | .ok (storage, messages, beneficiary) =>
      match messages.foldlM (deliver env) w.balances with
      | some balances => (⟨storage, balances⟩, [.solved beneficiary])
      | none => (w, [.failed])
    | .error .panic => (w, [.panicked])
    | .error (.error _) => (w, [.failed])
  | .deposit denom account amount =>
    ({ w with balances := update w.balances denom (Ledger.credited (w.balances denom) account amount) },
      [.done])

def init (zkgm : Addr) : World where
  storage :=
    { zkgm := zkgm
      fungibleCounterparty := fun _ => none
      intentWhitelist := fun _ => none }
  balances _ _ := 0

/-! ## What a solve does -/

theorem expectU128_of_lt {n : Nat} (h : n < 2 ^ 128) : expectU128 n = .ok n := if_pos h

theorem expectU128_of_ge {n : Nat} (h : ¬ n < 2 ^ 128) : expectU128 n = .error .panic := if_neg h

/-- The order passes the checks, on the lane `lane`. -/
structure Fillable (s : Storage) (c : DoSolve) (lane : FungibleLane) : Prop where
  zkgm : c.sender = s.zkgm
  whitelisted : c.intent = true → (s.intentWhitelist (env.commitPackets c.packet)).getD false = true
  registered : s.fungibleCounterparty (laneOf c.packet c.order c.path) = some lane
  quoteToken : c.order.quoteToken = utf8 lane.escrowedDenom
  covers : c.order.quoteAmount ≤ c.order.baseAmount

def afterSolve (s : Storage) (c : DoSolve) : Storage :=
  if c.intent then
    { s with intentWhitelist := update s.intentWhitelist (env.commitPackets c.packet) none }
  else
    s

def Fits (order : TokenOrderV2) : Prop := order.baseAmount - order.quoteAmount < 2 ^ 128 ∧
      order.quoteAmount < 2 ^ 128

instance (order : TokenOrderV2) : Decidable (Fits order) :=
  inferInstanceAs (Decidable (order.baseAmount - order.quoteAmount < 2 ^ 128 ∧ order.quoteAmount < 2 ^ 128))

/-- The messages of a solve. -/
def payments (lane : FungibleLane) (order : TokenOrderV2) (relayer receiver : Addr) : List CosmosMsg :=
  pushTransfer lane (pushTransfer lane [] relayer (order.baseAmount - order.quoteAmount)) receiver
    order.quoteAmount

variable {s : Storage} {c : DoSolve}

theorem useIntent_eq
    (h : c.intent = true → (s.intentWhitelist (env.commitPackets c.packet)).getD false = true) :
    useIntent env s c.packet c.intent = .ok (afterSolve env s c) := by
  unfold useIntent afterSolve
  split
  · rename_i hintent
    rw [if_pos (h hintent)]
  · rfl

@[simp] theorem afterSolve_fungibleCounterparty (s : Storage) (c : DoSolve) :
    (afterSolve env s c).fungibleCounterparty = s.fungibleCounterparty := by
  unfold afterSolve
  split <;> rfl

theorem doSolve_of_fillable {lane : FungibleLane} {receiver : Addr} (h : Fillable env s c lane)
    (hreceiver : c.order.receiver = utf8 receiver) (hvalid : env.addrValidate receiver = true) :
      doSolve env s c = if Fits c.order then
        .ok (afterSolve env s c, payments lane c.order c.relayer receiver, lane.counterpartyBeneficiary)
      else
        .error .panic := by
  have hquote : fromUtf8 c.order.quoteToken = some lane.escrowedDenom := fromUtf8_eq_some.mpr h.quoteToken
  have hto : fromUtf8 c.order.receiver = some receiver := fromUtf8_eq_some.mpr hreceiver
  simp only [doSolve, ensureZkgm, ensure, h.zkgm, h.covers, h.registered, hquote, hto, hvalid,
    useIntent_eq env h.whitelisted, afterSolve_fungibleCounterparty, orErr, if_true, ok_bind]
  by_cases hfee : c.order.baseAmount - c.order.quoteAmount < 2 ^ 128
  · rw [expectU128_of_lt hfee, ok_bind]
    by_cases hamount : c.order.quoteAmount < 2 ^ 128
    · have hfits : Fits c.order := ⟨hfee, hamount⟩
      rw [expectU128_of_lt hamount, ok_bind, if_pos hfits]
      rfl
    · have hfits : ¬ Fits c.order := fun h => hamount h.2
      rw [expectU128_of_ge hamount, if_neg hfits]
      rfl
  · have hfits : ¬ Fits c.order := fun h => hfee h.1
    rw [expectU128_of_ge hfee, if_neg hfits]
    rfl

theorem doSolve_of_not_fillable (h : ∀ lane, ¬ Fillable env s c lane) :
    ∃ e, doSolve env s c = .error (.error e) := by
  unfold doSolve
  by_cases hzkgm : c.sender = s.zkgm
  case neg =>
    exact ⟨.onlyZkgm, by simp [ensureZkgm, ensure, hzkgm]⟩
  by_cases hintent : c.intent = true → (s.intentWhitelist (env.commitPackets c.packet)).getD false = true
  case neg =>
    obtain ⟨hi, hw⟩ := Classical.not_imp.mp hintent
    exact ⟨.intentMustBeWhitelisted, by simp [ensureZkgm, ensure, hzkgm, useIntent, hi, hw]⟩
  simp only [ensureZkgm, ensure, hzkgm, useIntent_eq env hintent, if_true, ok_bind,
    afterSolve_fungibleCounterparty]
  cases hlane : s.fungibleCounterparty (laneOf c.packet c.order c.path) with
  | none => exact ⟨_, rfl⟩
  | some lane =>
    cases hquote : fromUtf8 c.order.quoteToken with
    | none => exact ⟨.invalidQuoteToken, rfl⟩
    | some quoteToken =>
      by_cases hdenom : quoteToken = lane.escrowedDenom
      case neg =>
        exact ⟨.invalidFill quoteToken lane.escrowedDenom, by simp [orErr, hdenom]⟩
      by_cases hcovers : c.order.quoteAmount ≤ c.order.baseAmount
      case neg =>
        exact ⟨.baseAmountMustCoverQuoteAmount, by simp [orErr, hdenom, hcovers]⟩
      subst hdenom
      exact absurd ⟨hzkgm, hintent, hlane, fromUtf8_eq_some.mp hquote, hcovers⟩ (h lane)

/-! ### Its payments -/

theorem pay_of_le {b : String → Addr → Nat} {denom : String} {amount : Nat}
    (h : amount ≤ b denom env.contract) (recipient : Addr) : pay env b denom recipient amount =
      some (update b denom (Ledger.moved (b denom) env.contract recipient amount)) := if_pos h

theorem pay_of_not_le {b : String → Addr → Nat} {denom : String} {amount : Nat}
    (h : ¬ amount ≤ b denom env.contract)
    (recipient : Addr) : pay env b denom recipient amount = none := if_neg h

theorem deliver_pushTransfer (lane : FungibleLane) (messages : List CosmosMsg) (recipient : Addr)
    (amount : Nat) (b : String → Addr → Nat) :
    (pushTransfer lane messages recipient amount).foldlM (deliver env) b =
      (messages.foldlM (deliver env) b).bind fun b => pay env b lane.escrowedDenom recipient amount := by
  unfold pushTransfer
  split
  · rename_i hzero
    subst hzero
    have hnone : ∀ b : String → Addr → Nat, pay env b lane.escrowedDenom recipient 0 = some b := by
      intro b
      rw [pay_of_le env (Nat.zero_le _), Ledger.moved_zero, update_eq_self]
    simp only [hnone]
    exact (Option.bind_fun_some _).symm
  · split
    · rw [List.foldlM_append]
      simp only [List.foldlM_cons, List.foldlM_nil, bind_pure, deliver]
      rfl
    · rw [List.foldlM_append]
      simp only [List.foldlM_cons, List.foldlM_nil, bind_pure, deliver]
      rfl

theorem deliver_payments (lane : FungibleLane) (order : TokenOrderV2) (relayer receiver : Addr)
    (b : String → Addr → Nat) :
    (payments lane order relayer receiver).foldlM (deliver env) b =
      if Covered (b lane.escrowedDenom) env.contract relayer (order.baseAmount - order.quoteAmount)
          order.quoteAmount then
        some (update b lane.escrowedDenom
          (paid (b lane.escrowedDenom) env.contract relayer receiver (order.baseAmount - order.quoteAmount)
            order.quoteAmount))
      else
        none := by
  rw [payments, deliver_pushTransfer, deliver_pushTransfer]
  by_cases hone : order.baseAmount - order.quoteAmount ≤ b lane.escrowedDenom env.contract
  · show ((pay env b lane.escrowedDenom relayer _).bind fun b => pay env b lane.escrowedDenom receiver _) = _
    rw [pay_of_le env hone, Option.bind_some]
    by_cases htwo : order.quoteAmount ≤ Ledger.moved (b lane.escrowedDenom) env.contract relayer
        (order.baseAmount - order.quoteAmount) env.contract
    · rw [if_pos ⟨hone, htwo⟩, pay_of_le env (by rwa [update_self])]
      simp only [paid, update_self, update_idem]
    · rw [if_neg fun h => htwo h.2, pay_of_not_le env (by rwa [update_self])]
  · show ((pay env b lane.escrowedDenom relayer _).bind fun b => pay env b lane.escrowedDenom receiver _) = _
    rw [pay_of_not_le env hone, Option.bind_none, if_neg fun h => hone h.1]

theorem step_doSolve {w : World} {lane : FungibleLane} {receiver : Addr} (h : Fillable env w.storage c lane)
    (hreceiver : c.order.receiver = utf8 receiver) (hvalid : env.addrValidate receiver = true) :
      (Fits c.order ∧
      Covered (w.balances lane.escrowedDenom) env.contract c.relayer
        (c.order.baseAmount - c.order.quoteAmount) c.order.quoteAmount ∧
      step env w (.doSolve c) = (⟨afterSolve env w.storage c, update w.balances lane.escrowedDenom
          (paid (w.balances lane.escrowedDenom) env.contract c.relayer receiver
            (c.order.baseAmount - c.order.quoteAmount) c.order.quoteAmount)⟩,
          [.solved lane.counterpartyBeneficiary])) ∨
    (Fits c.order ∧
      ¬ Covered (w.balances lane.escrowedDenom) env.contract c.relayer
        (c.order.baseAmount - c.order.quoteAmount) c.order.quoteAmount ∧
      step env w (.doSolve c) = (w, [.failed])) ∨
    (¬ Fits c.order ∧ step env w (.doSolve c) = (w, [.panicked])) := by
  have hsolve := doSolve_of_fillable env h hreceiver hvalid
  have hpaid := deliver_payments env lane c.order c.relayer receiver w.balances
  by_cases hfits : Fits c.order
  · rw [if_pos hfits] at hsolve
    by_cases hcov : Covered (w.balances lane.escrowedDenom) env.contract c.relayer
        (c.order.baseAmount - c.order.quoteAmount) c.order.quoteAmount
    · rw [if_pos hcov] at hpaid
      exact .inl ⟨hfits, hcov, by simp only [step, hsolve, hpaid]⟩
    · rw [if_neg hcov] at hpaid
      exact .inr (.inl ⟨hfits, hcov, by simp only [step, hsolve, hpaid]⟩)
  · rw [if_neg hfits] at hsolve
    exact .inr (.inr ⟨hfits, by simp only [step, hsolve]⟩)

theorem step_doSolve_of_not_fillable {w : World} (h : ∀ lane, ¬ Fillable env w.storage c lane) :
    step env w (.doSolve c) = (w, [.failed]) := by
  obtain ⟨e, he⟩ := doSolve_of_not_fillable env h
  simp only [step, he]

end UnionVoyager.Cw.EscrowVault
