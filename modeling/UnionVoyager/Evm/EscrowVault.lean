import UnionVoyager.Evm.Basic

/-!
# The escrow vault in Solidity

A solver that pays orders out of the tokens it holds: the quote amount to the receiver, the rest of the base
amount to the relayer.

* `solve` — the contract; `step` — one transaction, with what its caller sees.
* `Fillable`, `solve_eq` — a solve goes through iff the order passes the checks and the vault covers
  the payments.
-/

namespace UnionVoyager.Evm.EscrowVault

open Lib Function

inductive VaultError where
  | onlyZkgm
  | intentWhitelistedOnly
  | counterpartyIsNotFungible
  | baseAmountMustCoverQuoteAmount
  | invalidQuoteToken
  | transferFailed

abbrev Result := Except (Revert VaultError)

structure FungibleCounterparty where
  /-- the market maker on the counterparty chain -/
  beneficiary : Bytes
  escrowedToken : Address

def NATIVE_TOKEN : Address := 0xEeeeeEeeeEeEeeEeEeEeeEEEeeeeEeeeeeeeEEeE

/-- The storage of the vault, and the balances of each token. -/
structure State where
  zkgm : Address
  fungibleCounterparties : Lane → FungibleCounterparty
  intentWhitelist : Bytes32 → Bool
  balances : (token : Address) → Address → Nat

structure Env where
  self : Address
  commitPacket : IBCPacket → Bytes32

variable (env : Env)

def setFungibleCounterparty (s : State) (l : Lane) (counterparty : FungibleCounterparty) : State :=
  { s with fungibleCounterparties := update s.fungibleCounterparties l counterparty }

def whitelistIntent (s : State) (packetHashes : List Bytes32) (whitelist : Bool) : State :=
  packetHashes.foldl (fun s h => { s with intentWhitelist := update s.intentWhitelist h whitelist }) s

/-- Tokens pay what they are told to if the vault has it. -/
def unescrow (s : State) (token receiver : Address) (amount : Nat) : Result State :=
  if amount = 0 then
    .ok s
  else if amount ≤ s.balances token env.self then
    .ok { s with
      balances := update s.balances token (Ledger.moved (s.balances token) env.self receiver amount) }
  else
    .error (if token = NATIVE_TOKEN then .custom .transferFailed else .failedCall)

def verifyOrderAndGetCounterparty (s : State) (l : Lane) (order : TokenOrderV2) :
    Result FungibleCounterparty := do
  let counterparty := s.fungibleCounterparties l
  ensure (counterparty.beneficiary.length ≠ 0) (.custom .counterpartyIsNotFungible)
  ensure (order.quoteToken = encodePacked counterparty.escrowedToken) (.custom .invalidQuoteToken)
  ensure (order.quoteAmount ≤ order.baseAmount) (.custom .baseAmountMustCoverQuoteAmount)
  pure counterparty

/-- The arguments of a solve. -/
structure Solve where
  sender : Address
  packet : IBCPacket
  order : TokenOrderV2
  path : BitVec 256
  relayer : Address
  intent : Bool

def solve (s : State) (c : Solve) : Result (State × Bytes) := do
  ensure (c.sender = s.zkgm) (.custom .onlyZkgm)
  onlyIf c.intent (ensure (s.intentWhitelist (env.commitPacket c.packet) = true)
    (.custom .intentWhitelistedOnly))
  let counterparty ← verifyOrderAndGetCounterparty s (laneOf c.packet c.order c.path) c.order
  let s ← unescrow env s counterparty.escrowedToken (toAddress c.order.receiver) c.order.quoteAmount
  let fee ← checkedSub c.order.baseAmount c.order.quoteAmount
  let s ← unescrow env s counterparty.escrowedToken c.relayer fee
  pure (s, counterparty.beneficiary)

/-- What the caller sees. -/
inductive Outcome where
  | done
  | solved (beneficiary : Bytes)
  | failed
  | panicked
  deriving DecidableEq

/-- One transaction; `permitted` is what the authority answers to `restricted`.  A change of the
whitelist is one call for each hash.  Tokens come in from outside. -/
inductive Op where
  | setFungibleCounterparty (permitted : Bool) (lane : Lane) (counterparty : FungibleCounterparty)
  | whitelistIntents (permitted : Bool) (hashes : List (Bytes32 × Bool))
  | solve (c : Solve)
  | deposit (token account : Address) (amount : Nat)

def step (s : State) : Op → State × List Outcome
  | .setFungibleCounterparty permitted lane counterparty =>
    if permitted then (setFungibleCounterparty s lane counterparty, [.done]) else (s, [.failed])
  | .whitelistIntents permitted hashes =>
    if permitted then (hashes.foldl (fun s p => whitelistIntent s [p.1] p.2) s, [.done]) else (s, [.failed])
  | .solve c =>
    match solve env s c with
    | .ok (s', beneficiary) => (s', [.solved beneficiary])
    | .error _ => (s, [.failed])
  | .deposit token account amount =>
    ({ s with balances := update s.balances token (Ledger.credited (s.balances token) account amount) },
      [.done])

def init (zkgm : Address) : State where
  zkgm := zkgm
  fungibleCounterparties _ := ⟨[], 0⟩
  intentWhitelist _ := false
  balances _ _ := 0

/-! ## What a solve does -/

/-- The first payment goes through, and then the second one. -/
def Covered {A : Type} [DecidableEq A] (b : A → Nat) (self : A) (first : A) (m n : Nat) : Prop :=
  m ≤ b self ∧ n ≤ Ledger.moved b self first m self

instance {A : Type} [DecidableEq A] (b : A → Nat) (self first : A) (m n : Nat) :
    Decidable (Covered b self first m n) :=
  inferInstanceAs (Decidable (m ≤ b self ∧ n ≤ Ledger.moved b self first m self))

/-- The balances after two payments. -/
def paid {A : Type} [DecidableEq A] (b : A → Nat) (self first second : A) (m n : Nat) : A → Nat :=
  Ledger.moved (Ledger.moved b self first m) self second n

/-- The order passes the checks on its caller, its intent, its quote token and its amounts. -/
structure Fillable (s : State) (c : Solve) : Prop where
  zkgm : c.sender = s.zkgm
  whitelisted : c.intent = true → s.intentWhitelist (env.commitPacket c.packet) = true
  quoteToken : c.order.quoteToken =
    encodePacked (s.fungibleCounterparties (laneOf c.packet c.order c.path)).escrowedToken
  covers : c.order.quoteAmount ≤ c.order.baseAmount

theorem unescrow_eq_ok {s s' : State} {token receiver : Address} {amount : Nat} :
    unescrow env s token receiver amount = .ok s' ↔
      amount ≤ s.balances token env.self ∧
      { s with
        balances := update s.balances token (Ledger.moved (s.balances token) env.self receiver
          amount) } = s' := by
  unfold unescrow
  split
  · rename_i hzero
    subst hzero
    rw [Ledger.moved_zero, update_eq_self]
    simp
  · split
    · rename_i hle
      simp [hle]
    · rename_i hle
      simp [hle]

def afterSolve (s : State) (c : Solve) : State :=
  let token := (s.fungibleCounterparties (laneOf c.packet c.order c.path)).escrowedToken
  { s with
    balances := update s.balances token
      (paid (s.balances token) env.self (toAddress c.order.receiver) c.relayer c.order.quoteAmount
        (c.order.baseAmount - c.order.quoteAmount)) }

/-- **A solve goes through iff the order passes the checks, its lane has a beneficiary, and the
vault covers the quote amount and then the fee.** -/
theorem solve_eq_ok {s : State} {c : Solve} {r : State × Bytes} : solve env s c = .ok r ↔
      Fillable env s c ∧ (s.fungibleCounterparties (laneOf c.packet c.order c.path)).beneficiary ≠ [] ∧
      Covered (s.balances (s.fungibleCounterparties (laneOf c.packet c.order c.path)).escrowedToken) env.self
        (toAddress c.order.receiver) c.order.quoteAmount (c.order.baseAmount - c.order.quoteAmount) ∧
      (afterSolve env s c, (s.fungibleCounterparties (laneOf c.packet c.order c.path)).beneficiary) = r := by
  simp only [solve, verifyOrderAndGetCounterparty, bind_eq_ok, ensure_eq_ok, onlyIf_eq_ok, pure_eq_ok,
    unescrow_eq_ok, checkedSub_eq_ok]
  constructor
  · rintro ⟨-, hzkgm, -, hintent, _, ⟨-, hne, -, hquote, -, hle, rfl⟩, s₁, ⟨hone, rfl⟩, _, ⟨-, rfl⟩,
      s₂, ⟨htwo, rfl⟩, hr⟩
    refine ⟨⟨hzkgm, hintent, hquote, hle⟩, fun h => hne (List.length_eq_zero_iff.mpr h), ?_, ?_⟩
    · refine ⟨hone, ?_⟩
      simpa using htwo
    · rw [← hr]
      simp only [afterSolve, paid, update_self, update_idem]
  · rintro ⟨⟨hzkgm, hintent, hquote, hle⟩, hne, ⟨hone, htwo⟩, hr⟩
    refine ⟨(), hzkgm, (), hintent, _, ⟨(), fun h => hne (List.length_eq_zero_iff.mp h), (), hquote,
      (), hle, rfl⟩, _, ⟨hone, rfl⟩, _, ⟨hle, rfl⟩, _, ⟨?_, rfl⟩, ?_⟩
    · simpa using htwo
    · rw [← hr]
      simp only [afterSolve, paid, update_self, update_idem]

end UnionVoyager.Evm.EscrowVault
