import UnionVoyager.Evm.Basic
import UnionVoyager.Lib.Limiter

/-!
# The lane limit of the universal token

A solve mints the quote amount to the receiver and the rest of the base amount to the relayer.  The bucket
of the lane is charged with the quote amount.

* `solve_effect` — what a solve draws and mints, and for whom.
* `lane_quotes_le` — **the quote amounts of a lane keep within its limit.**
-/

namespace UnionVoyager.Evm.UnionversalToken

open Lib Lib.Machine Function

/-! ## The contract -/

inductive TokenError where
  | onlyZkgm
  | intentWhitelistedOnly
  | counterpartyIsNotFungible
  | baseAmountMustCoverQuoteAmount
  | fool
  | unauthorized
  | zeroCapacity
  | zeroRefillRate
  | rateLimitExceeded
  | invalidReceiver
  | insufficientBalance

abbrev Result := Except (Revert TokenError)

structure Bucket where
  capacity : Nat
  available : Nat
  refillRate : Nat
  lastRefill : Nat
  deriving DecidableEq

def U256_MAX : Nat := 2 ^ 256 - 1

def saturatingMul (a b : Nat) : Nat := min (a * b) U256_MAX

def saturatingAdd (a b : Nat) : Nat := min (a + b) U256_MAX

namespace Bucket

def clampToCapacity (capacity amount : Nat) : Nat := if capacity < amount then capacity else amount

def refill (b : Bucket) (now : Nat) : Result Bucket :=
  if b.capacity ≤ b.available then
    .ok { b with lastRefill := now }
  else do
    let elapsed ← checkedSub now b.lastRefill
    let toRefill := saturatingMul b.refillRate elapsed
    if 0 < toRefill then
      pure { b with
        available := clampToCapacity b.capacity (saturatingAdd b.available toRefill)
        lastRefill := now }
    else
      pure b

def rateLimit (b : Bucket) (amount now : Nat) : Result Bucket :=
  if amount = 0 then
    .ok b
  else do
    let b ← b.refill now
    ensure (amount ≤ b.available) (.custom .rateLimitExceeded)
    pure { b with available := b.available - amount }

/-- `_setBucketConfig` -/
def setConfig (b : Bucket) (capacity refillRate : Nat) (reset : Bool) (now : Nat) : Result Bucket := do
  ensure (capacity ≠ 0) (.custom .zeroCapacity)
  ensure (refillRate ≠ 0) (.custom .zeroRefillRate)
  let b := { b with capacity := capacity, refillRate := refillRate }
  pure (if b.lastRefill = 0 ∨ reset = true then { b with available := capacity, lastRefill := now } else b)

end Bucket

structure State where
  /-- `block.timestamp` -/
  timestamp : Nat
  zkgm : Address
  /-- The beneficiary of each lane; an empty one stands for no counterparty. -/
  fungibleCounterparties : Lane → Bytes
  intentWhitelist : Bytes32 → Bool
  buckets : Bytes → Bucket
  totalSupply : Nat
  balances : Address → Nat

/-- What is outside of the contract: its address, the hash of a packet, and the 20 bytes kept of a hash. -/
structure Env where
  self : Address
  commitPacket : IBCPacket → Bytes32
  hash20 : Bytes → Bytes

variable (env : Env)

def getRateLimitAddress (l : Lane) : Bytes := env.hash20 l.abiEncode

section

variable (s : State)

/-- `_mint` of the ERC20 -/
def mintTo (receiver : Address) (amount : Nat) : Result State := do
  ensure (receiver ≠ 0) (.custom .invalidReceiver)
  let totalSupply ← checked 256 (s.totalSupply + amount)
  pure { s with totalSupply := totalSupply, balances := Ledger.credited s.balances receiver amount }

def onlyZkgm (sender : Address) : Result Unit := ensure (sender = s.zkgm) (.custom .onlyZkgm)

def mint (sender receiver : Address) (amount : Nat) : Result State := do
  onlyZkgm s sender
  mintTo s receiver amount

def burn (sender owner : Address) (amount : Nat) : Result State := do
  onlyZkgm s sender
  ensure (amount ≤ s.balances owner) (.custom .insufficientBalance)
  pure { s with
    totalSupply := s.totalSupply - amount
    balances := update s.balances owner (s.balances owner - amount) }

def setBucketConfig (l : Lane) (capacity refillRate : Nat) (reset : Bool) : Result State := do
  let address := getRateLimitAddress env l
  let b ← (s.buckets address).setConfig capacity refillRate reset s.timestamp
  pure { s with buckets := update s.buckets address b }

def setFungibleCounterparty (l : Lane) (beneficiary : Bytes) (capacity refillRate : Nat) :
    Result State :=
  setBucketConfig env
    { s with fungibleCounterparties := update s.fungibleCounterparties l beneficiary } l capacity refillRate
    false

def whitelistIntent (packetHashes : List Bytes32) (whitelist : Bool) : State :=
  { s with intentWhitelist := fun h => if h ∈ packetHashes then whitelist else s.intentWhitelist h }

/-- `if (amount > 0) _mint(receiver, amount)` -/
def mintIfPositive (receiver : Address) (amount : Nat) : Result State :=
  if 0 < amount then mintTo s receiver amount else .ok s

def solve (sender : Address) (packet : IBCPacket) (order : TokenOrderV2) (path : BitVec 256)
    (relayer : Address) (intent : Bool) : Result (State × Bytes) := do
  onlyZkgm s sender
  onlyIf intent (ensure (s.intentWhitelist (env.commitPacket packet) = true) (.custom .intentWhitelistedOnly))
  let lane := laneOf packet order path
  let beneficiary := s.fungibleCounterparties lane
  ensure (beneficiary ≠ []) (.custom .counterpartyIsNotFungible)
  ensure (order.quoteToken = encodePacked env.self) (.custom .fool)
  ensure (order.quoteAmount ≤ order.baseAmount) (.custom .baseAmountMustCoverQuoteAmount)
  let address := getRateLimitAddress env lane
  let b ← (s.buckets address).rateLimit order.quoteAmount s.timestamp
  let s := { s with buckets := update s.buckets address b }
  let fee := order.baseAmount - order.quoteAmount
  let s ← mintIfPositive s relayer fee
  let s ← mintIfPositive s (toAddress order.receiver) order.quoteAmount
  pure (s, beneficiary)

end

/-- One transaction, or the next block; `permitted` is what the authority answers to `restricted`. -/
inductive Op where
  | block (timestamp : Nat)
  | solve (sender : Address) (packet : IBCPacket) (order : TokenOrderV2) (path : BitVec 256)
      (relayer : Address) (intent : Bool)
  | mint (sender receiver : Address) (amount : Nat)
  | burn (sender owner : Address) (amount : Nat)
  | setFungibleCounterparty (permitted : Bool) (lane : Lane) (beneficiary : Bytes) (capacity refillRate : Nat)
  | setBucketConfig (permitted : Bool) (lane : Lane) (capacity refillRate : Nat) (reset : Bool)
  | whitelistIntent (permitted : Bool) (packetHashes : List Bytes32) (whitelist : Bool)

/-- `x` under the modifier `restricted`. -/
def restricted {α : Type} (permitted : Bool) (x : Result α) : Result α := do
  ensure (permitted = true) (.custom .unauthorized)
  x

def next (s : State) : Op → State
  | .block timestamp => { s with timestamp := timestamp }
  | .solve sender packet order path relayer intent =>
    transact s ((solve env s sender packet order path relayer intent).map Prod.fst)
  | .mint sender receiver amount => transact s (mint s sender receiver amount)
  | .burn sender owner amount => transact s (burn s sender owner amount)
  | .setFungibleCounterparty permitted lane beneficiary capacity refillRate =>
    transact s (restricted permitted (setFungibleCounterparty env s lane beneficiary capacity refillRate))
  | .setBucketConfig permitted lane capacity refillRate reset =>
    transact s (restricted permitted (setBucketConfig env s lane capacity refillRate reset))
  | .whitelistIntent permitted packetHashes whitelist =>
    transact s (restricted permitted (.ok (whitelistIntent s packetHashes whitelist)))

/-! ## The bucket -/

def solidityLimiter : Limiter Bucket (Revert TokenError) where
  capacity := Bucket.capacity
  available := Bucket.available
  refillRate := Bucket.refillRate
  lastRefill := Bucket.lastRefill
  charge := Bucket.rateLimit
  configure b capacity refillRate reset now := (b.setConfig capacity refillRate reset now).toOption

structure Draws (now amount : Nat) (b b' : Bucket) : Prop where
  capacity : b'.capacity = b.capacity
  refillRate : b'.refillRate = b.refillRate
  level : solidityLimiter.level b' now + amount ≤ solidityLimiter.level b now

theorem Draws.refl (now : Nat) (b : Bucket) : Draws now 0 b b := ⟨rfl, rfl, Nat.le_refl _⟩

theorem Bucket.refill_draws {b b' : Bucket} {now : Nat} (h : b.refill now = .ok b') :
    Draws now 0 b b' ∧ b'.refillRate * (now - b'.lastRefill) = 0 := by
  unfold Bucket.refill at h
  split at h
  · cases h
    refine ⟨⟨rfl, rfl, ?_⟩, ?_⟩
    · simp only [Limiter.level, solidityLimiter, Nat.sub_self, Nat.mul_zero, Nat.add_zero]
      omega
    · simp only [Nat.sub_self, Nat.mul_zero]
  · rename_i hbelow
    simp only [bind_eq_ok, checkedSub_eq_ok] at h
    obtain ⟨_, ⟨-, rfl⟩, h⟩ := h
    split at h
    · have hadded : saturatingAdd b.available (saturatingMul b.refillRate (now - b.lastRefill)) ≤
          b.available + b.refillRate * (now - b.lastRefill) := by
        unfold saturatingAdd saturatingMul
        omega
      obtain rfl := pure_eq_ok.mp h
      refine ⟨⟨rfl, rfl, ?_⟩, ?_⟩
      · simp only [Limiter.level, solidityLimiter, Bucket.clampToCapacity, Nat.sub_self, Nat.mul_zero,
          Nat.add_zero]
        split <;> omega
      · simp only [Nat.sub_self, Nat.mul_zero]
    · rename_i hnothing
      have hzero : b.refillRate * (now - b.lastRefill) = 0 := by
        unfold saturatingMul U256_MAX at hnothing
        omega
      obtain rfl := pure_eq_ok.mp h
      exact ⟨.refl _ _, hzero⟩

variable {amount : Nat}

theorem Bucket.rateLimit_draws {b b' : Bucket} {now : Nat} (h : b.rateLimit amount now = .ok b') :
    Draws now amount b b' := by
  unfold Bucket.rateLimit at h
  split at h
  · rename_i hzero
    cases h
    subst hzero
    exact .refl _ _
  · simp only [bind_eq_ok, ensure_eq_ok, pure_eq_ok] at h
    obtain ⟨b₁, hrefill, _, hle, rfl⟩ := h
    obtain ⟨hdraws, hnone⟩ := Bucket.refill_draws hrefill
    refine ⟨hdraws.capacity, hdraws.refillRate, ?_⟩
    have hold := hdraws.level
    simp only [Limiter.level, solidityLimiter, hnone] at hold ⊢
    omega

/-! ## What a solve draws and mints -/

variable {env}

/-- The token was minted: the supply and the balance of the receiver grew by the amount. -/
structure Minted (receiver : Address) (amount : Nat) (s s' : State) : Prop where
  timestamp : s'.timestamp = s.timestamp
  buckets : s'.buckets = s.buckets
  supply : s'.totalSupply = s.totalSupply + amount
  balances : s'.balances = Ledger.credited s.balances receiver amount

variable {s s' : State}

theorem mintTo_eq_ok {receiver : Address} (h : mintTo s receiver amount = .ok s') :
    Minted receiver amount s s' := by
  simp only [mintTo, bind_eq_ok, ensure_eq_ok, checked_eq_ok, pure_eq_ok] at h
  obtain ⟨_, -, _, ⟨-, rfl⟩, rfl⟩ := h
  exact ⟨rfl, rfl, rfl, rfl⟩

theorem mintIfPositive_eq_ok {receiver : Address} (h : mintIfPositive s receiver amount = .ok s') :
    Minted receiver amount s s' := by
  unfold mintIfPositive at h
  split at h
  · exact mintTo_eq_ok h
  · have hzero : amount = 0 := by omega
    cases h
    subst hzero
    exact ⟨rfl, rfl, rfl, by simp [Ledger.credited]⟩

/-- What a successful solve of an order on the lane did. -/
structure Solved (env : Env) (lane : Lane) (relayer : Address) (order : TokenOrderV2)
    (s s' : State) : Prop where
  covered : order.quoteAmount ≤ order.baseAmount
  timestamp : s'.timestamp = s.timestamp
  drawn : ∃ b, Draws s.timestamp order.quoteAmount (s.buckets (getRateLimitAddress env lane)) b ∧
    s'.buckets = update s.buckets (getRateLimitAddress env lane) b
  supply : s'.totalSupply = s.totalSupply + order.quoteAmount + (order.baseAmount - order.quoteAmount)
  balances : s'.balances = Ledger.credited
    (Ledger.credited s.balances relayer (order.baseAmount - order.quoteAmount)) (toAddress order.receiver)
    order.quoteAmount

theorem solve_effect {sender relayer : Address} {packet : IBCPacket} {order : TokenOrderV2}
    {path : BitVec 256}
    {intent : Bool} {r : State × Bytes} (h : solve env s sender packet order path relayer intent = .ok r) :
    Solved env (laneOf packet order path) relayer order s r.1 := by
  simp only [solve, bind_eq_ok, onlyIf_eq_ok, ensure_eq_ok, pure_eq_ok] at h
  obtain ⟨_, -, _, -, _, -, _, -, _, hcovered, b, hb, s₁, hfee, s₂, hquote, rfl⟩ := h
  have hfee := mintIfPositive_eq_ok hfee
  have hquote := mintIfPositive_eq_ok hquote
  refine ⟨hcovered, ?_, ⟨b, Bucket.rateLimit_draws hb, ?_⟩, ?_, ?_⟩
  · rw [hquote.timestamp, hfee.timestamp]
  · rw [hquote.buckets, hfee.buckets]
  · rw [hquote.supply, hfee.supply, Nat.add_right_comm]
  · rw [hquote.balances, hfee.balances]

/-- A solve that went through, and the storage before and after it. -/
structure Fill where
  lane : Lane
  order : TokenOrderV2
  relayer : Address
  before : State
  after : State

namespace Fill

variable (f : Fill)

def quote : Nat := f.order.quoteAmount

def fee : Nat := f.order.baseAmount - f.order.quoteAmount

/-- By how much the supply grew. -/
def minted : Nat := f.after.totalSupply - f.before.totalSupply

/-- The relayer got the fee, the receiver the quote amount, and nobody else got anything. -/
structure Pays : Prop where
  covered : f.order.quoteAmount ≤ f.order.baseAmount
  supply : f.after.totalSupply = f.before.totalSupply + f.quote + f.fee
  balances : f.after.balances = Ledger.credited (Ledger.credited f.before.balances f.relayer f.fee)
    (toAddress f.order.receiver) f.quote

end Fill

variable (env)

/-- The fill of a transaction that went through. -/
def fillOf (s : State) : Op → List Fill
  | .solve sender packet order path relayer intent =>
    match solve env s sender packet order path relayer intent with
    | .ok (s', _) => [⟨laneOf packet order path, order, relayer, s, s'⟩]
    | .error _ => []
  | _ => []

def step (s : State) (op : Op) : State × List Fill := (next env s op, fillOf env s op)

def Fill.onLane (lane : Lane) (amount : Fill → Nat) (f : Fill) : Nat := if f.lane = lane then amount f else 0

def totalOn (lane : Lane) (amount : Fill → Nat) (fills : List Fill) : Nat :=
    (fills.map (Fill.onLane lane amount)).sum

/-- Time does not go back, and the bucket of the lane is not reconfigured. -/
def Allowed (lane : Lane) (s : State) : Op → Prop
  | .block timestamp => s.timestamp ≤ timestamp
  | .setFungibleCounterparty permitted l _ _ _ => permitted = true → l ≠ lane
  | .setBucketConfig permitted l _ _ _ => permitted = true → l ≠ lane
  | _ => True

instance (lane : Lane) (s : State) : (op : Op) → Decidable (Allowed lane s op)
  | .block _ => inferInstanceAs (Decidable (_ ≤ _))
  | .setFungibleCounterparty _ _ _ _ _ => inferInstanceAs (Decidable (_ = _ → _ ≠ _))
  | .setBucketConfig _ _ _ _ _ => inferInstanceAs (Decidable (_ = _ → _ ≠ _))
  | .solve .. | .mint .. | .burn .. | .whitelistIntent .. => inferInstanceAs (Decidable True)

variable {env}

variable {op : Op}

theorem fillOf_pays {f : Fill} (h : f ∈ fillOf env s op) : f.Pays := by
  cases op with
  | solve sender packet order path relayer intent =>
    simp only [fillOf] at h
    split at h
    · rename_i s' beneficiary hsolve
      have hsolved := solve_effect hsolve
      obtain rfl := List.mem_singleton.mp h
      exact ⟨hsolved.covered, hsolved.supply, hsolved.balances⟩
    · cases h
  | _ => cases h

theorem getRateLimitAddress_injective (hhash : Injective env.hash20) :
    Injective (getRateLimitAddress env) := hhash.comp Lane.abiEncode_injective

theorem setBucketConfig_others {l : Lane} {capacity refillRate : Nat} {reset : Bool}
    (h : setBucketConfig env s l capacity refillRate reset = .ok s') : s'.timestamp = s.timestamp ∧
    ∀ address, address ≠ getRateLimitAddress env l → s'.buckets address = s.buckets address := by
  simp only [setBucketConfig, bind_eq_ok, pure_eq_ok] at h
  obtain ⟨b, -, rfl⟩ := h
  exact ⟨rfl, fun address hne => update_of_ne hne _ _⟩

section

variable (hhash : Injective env.hash20)

include hhash

theorem step_bucket {lane : Lane} (h : Allowed lane s op) :
    (∃ amount, totalOn lane Fill.quote (fillOf env s op) = amount ∧ (next env s op).timestamp = s.timestamp ∧
      Draws s.timestamp amount (s.buckets (getRateLimitAddress env lane))
        ((next env s op).buckets (getRateLimitAddress env lane))) ∨
    (∃ timestamp, op = .block timestamp) := by
  cases op with
  | block timestamp => exact .inr ⟨timestamp, rfl⟩
  | solve sender packet order path relayer intent =>
    refine .inl ⟨_, rfl, ?_⟩
    simp only [fillOf, next]
    cases hsolve : solve env s sender packet order path relayer intent with
    | error e => exact ⟨rfl, .refl _ _⟩
    | ok r =>
      have hsolved := solve_effect hsolve
      obtain ⟨b, hdraws, hbuckets⟩ := hsolved.drawn
      simp only [Except.map, transact_ok, hsolved.timestamp, hbuckets, true_and, totalOn,
        List.map_cons, List.map_nil, List.sum_singleton, Fill.onLane]
      by_cases hlane : laneOf packet order path = lane
      · subst hlane
        rw [update_self, if_pos rfl]
        exact hdraws
      · have hne : getRateLimitAddress env lane ≠ getRateLimitAddress env (laneOf packet order path) :=
          fun heq => hlane (getRateLimitAddress_injective hhash heq).symm
        rw [update_of_ne hne, if_neg hlane]
        exact .refl _ _
  | mint sender receiver amount =>
    refine .inl ⟨_, rfl, ?_⟩
    simp only [next]
    cases hmint : mint s sender receiver amount with
    | error e => exact ⟨rfl, .refl _ _⟩
    | ok s' =>
      simp only [mint, bind_eq_ok] at hmint
      obtain ⟨_, -, hminted⟩ := hmint
      have hminted := mintTo_eq_ok hminted
      refine ⟨hminted.timestamp, ?_⟩
      rw [transact_ok, hminted.buckets]
      exact .refl _ _
  | burn sender owner amount =>
    refine .inl ⟨_, rfl, ?_⟩
    simp only [next]
    cases hburn : burn s sender owner amount with
    | error e => exact ⟨rfl, .refl _ _⟩
    | ok s' =>
      simp only [burn, bind_eq_ok, pure_eq_ok] at hburn
      obtain ⟨_, -, _, -, rfl⟩ := hburn
      exact ⟨rfl, .refl _ _⟩
  | setFungibleCounterparty permitted l beneficiary capacity refillRate =>
    refine .inl ⟨_, rfl, ?_⟩
    simp only [next]
    cases hset : restricted permitted (setFungibleCounterparty env s l beneficiary capacity refillRate) with
    | error e => exact ⟨rfl, .refl _ _⟩
    | ok s' =>
      simp only [restricted, bind_eq_ok, ensure_eq_ok, setFungibleCounterparty] at hset
      obtain ⟨_, hpermitted, hset⟩ := hset
      obtain ⟨htime, hothers⟩ := setBucketConfig_others hset
      refine ⟨htime, ?_⟩
      rw [transact_ok, hothers _ fun heq => h hpermitted (getRateLimitAddress_injective hhash heq).symm]
      exact .refl _ _
  | setBucketConfig permitted l capacity refillRate reset =>
    refine .inl ⟨_, rfl, ?_⟩
    simp only [next]
    cases hset : restricted permitted (setBucketConfig env s l capacity refillRate reset) with
    | error e => exact ⟨rfl, .refl _ _⟩
    | ok s' =>
      simp only [restricted, bind_eq_ok, ensure_eq_ok] at hset
      obtain ⟨_, hpermitted, hset⟩ := hset
      obtain ⟨htime, hothers⟩ := setBucketConfig_others hset
      refine ⟨htime, ?_⟩
      rw [transact_ok, hothers _ fun heq => h hpermitted (getRateLimitAddress_injective hhash heq).symm]
      exact .refl _ _
  | whitelistIntent permitted packetHashes whitelist =>
    refine .inl ⟨_, rfl, ?_⟩
    simp only [next]
    cases hset : restricted permitted (.ok (whitelistIntent s packetHashes whitelist)) with
    | error e => exact ⟨rfl, .refl _ _⟩
    | ok s' =>
      simp only [restricted, bind_eq_ok] at hset
      obtain ⟨_, -, hset⟩ := hset
      cases hset
      exact ⟨rfl, .refl _ _⟩

theorem step_level {lane : Lane} (h : Allowed lane s op) :
    let b := s.buckets (getRateLimitAddress env lane)
    let s' := next env s op
    let b' := s'.buckets (getRateLimitAddress env lane)
    b'.capacity = b.capacity ∧ b'.refillRate = b.refillRate ∧ s.timestamp ≤ s'.timestamp ∧
    solidityLimiter.level b' s'.timestamp + totalOn lane Fill.quote (fillOf env s op) ≤
      solidityLimiter.level b s.timestamp + b.refillRate * (s'.timestamp - s.timestamp) := by
  dsimp only
  rcases step_bucket hhash h with ⟨amount, hamount, htime, hdraws⟩ | ⟨timestamp, rfl⟩
  · refine ⟨hdraws.capacity, hdraws.refillRate, Nat.le_of_eq htime.symm, ?_⟩
    rw [htime, hamount]
    exact Nat.le_trans hdraws.level (Nat.le_add_right _ _)
  · exact ⟨rfl, rfl, h, solidityLimiter.level_later _ _ _⟩

theorem run_timestamp {lane : Lane} {ops : List Op} (h : Meets (step env) (Allowed lane) s ops) :
    s.timestamp ≤ (run (step env) s ops).timestamp := by
  refine invariant_of_meets (I := fun s' _ => s.timestamp ≤ s'.timestamp) ?_ (Nat.le_refl _) h
  intro s' _ op hle hop
  exact Nat.le_trans hle (step_level hhash hop).2.2.1

theorem quotes_le_level {lane : Lane} {ops : List Op} (h : Meets (step env) (Allowed lane) s ops) :
    let b := s.buckets (getRateLimitAddress env lane)
    totalOn lane Fill.quote (trace (step env) s ops) ≤
      solidityLimiter.level b s.timestamp + b.refillRate *
        ((run (step env) s ops).timestamp - s.timestamp) := by
  intro b
  have hsum := trace_sum_le (I := fun s' => (s'.buckets (getRateLimitAddress env lane)).refillRate =
    b.refillRate)
    (fun s' => solidityLimiter.level (s'.buckets (getRateLimitAddress env lane)) s'.timestamp)
    (fun s' => b.refillRate * s'.timestamp) (Fill.onLane lane Fill.quote) ?_ ?_ ops s rfl h
  · have htime := run_timestamp hhash h
    have hgain := Nat.mul_sub b.refillRate (run (step env) s ops).timestamp s.timestamp
    have hmono := Nat.mul_le_mul_left b.refillRate htime
    have hstart : solidityLimiter.level (s.buckets (getRateLimitAddress env lane)) s.timestamp =
        solidityLimiter.level b s.timestamp := rfl
    unfold totalOn
    omega
  · intro s' op hs' hop
    exact (step_level hhash hop).2.1.trans hs'
  · intro s' op hs' hop
    obtain ⟨-, -, hle, hlevel⟩ := step_level hhash hop
    rw [hs', Nat.mul_sub] at hlevel
    have hmono := Nat.mul_le_mul_left b.refillRate hle
    simp only [step]
    unfold totalOn at hlevel
    omega

end

theorem totalOn_minted (lane : Lane) {fills : List Fill} (h : ∀ f ∈ fills, f.Pays) :
    totalOn lane Fill.minted fills = totalOn lane Fill.quote fills + totalOn lane Fill.fee fills := by
  induction fills with
  | nil => rfl
  | cons f fills ih =>
    have hf := (h f (List.mem_cons_self ..)).supply
    have hfills := ih fun g hg => h g (List.mem_cons_of_mem f hg)
    have hminted : f.minted = f.quote + f.fee := by
      unfold Fill.minted
      omega
    simp only [totalOn, List.map_cons, List.sum_cons, Fill.onLane] at hfills ⊢
    split <;> omega

theorem pays_of_mem_trace {ops : List Op} {f : Fill} (h : f ∈ trace (step env) s ops) : f.Pays := by
  obtain ⟨past, op, rest, -, hmem⟩ := (mem_trace ops s).mp h
  exact fillOf_pays hmem

/-- **The lane limit.**  Every fill mints the quote amount to the receiver and the fee to the
relayer; the quote amounts are bounded, and no other lane draws from the bucket. -/
theorem lane_quotes_le (env : Env) (hhash : Injective env.hash20) (lane : Lane) {s : State}
    {ops : List Op} (h : Meets (step env) (Allowed lane) s ops) :
    let b := s.buckets (getRateLimitAddress env lane)
    let fills := trace (step env) s ops
    (∀ f ∈ fills, f.Pays) ∧
    totalOn lane Fill.minted fills = totalOn lane Fill.quote fills + totalOn lane Fill.fee fills ∧
    totalOn lane Fill.quote fills ≤
      max b.capacity b.available + b.refillRate * ((run (step env) s ops).timestamp - s.timestamp) ∧
    ∀ other, other ≠ lane → getRateLimitAddress env other ≠ getRateLimitAddress env lane := by
  have hpays : ∀ f ∈ trace (step env) s ops, f.Pays := fun f hf => pays_of_mem_trace hf
  refine ⟨hpays, totalOn_minted lane hpays, ?_, fun other hne heq =>
    hne (getRateLimitAddress_injective hhash heq)⟩
  exact Nat.le_trans (quotes_le_level hhash h) (Nat.add_le_add_right (solidityLimiter.level_le _ _) _)

/-! ## An order that is all fee -/

namespace Sample

def lane : Lane := ⟨0, 1, [5]⟩

def contract : Env where
  self := 9
  commitPacket _ := 0
  hash20 b := b

/-- The lane has a full bucket of ten tokens, and nobody else is registered. -/
def start : State where
  timestamp := 100
  zkgm := 2
  fungibleCounterparties l := if l = lane then [7] else []
  intentWhitelist _ := false
  buckets _ := ⟨10, 10, 1, 100⟩
  totalSupply := 0
  balances _ := 0

def packet : IBCPacket := ⟨3, 1, [], 0, 0⟩

def order (baseAmount quoteAmount : Nat) : TokenOrderV2 where
  sender := [1]
  receiver := encodePacked 6
  baseToken := [5]
  baseAmount := baseAmount
  quoteToken := encodePacked 9
  quoteAmount := quoteAmount
  kind := 3
  metadata := []

def solves (baseAmount quoteAmount : Nat) : List Op :=
    [.solve 2 packet (order baseAmount quoteAmount) 0 8 false]

end Sample

open Sample in
theorem lane_quotes_le_sample :
    (∀ f ∈ trace (step contract) start (solves 11 10), f.Pays) ∧
    totalOn lane Fill.quote (trace (step contract) start (solves 11 10)) = 10 ∧
    totalOn lane Fill.quote (trace (step contract) start (solves 11 10)) ≤ 10 := by
  have hallowed : Meets (step contract) (Allowed lane) start (solves 11 10) := by decide
  obtain ⟨hpays, -, hquotes, -⟩ := lane_quotes_le contract (fun _ _ h => h) lane hallowed
  have hbound : max (start.buckets (getRateLimitAddress contract lane)).capacity
      (start.buckets (getRateLimitAddress contract lane)).available +
      (start.buckets (getRateLimitAddress contract lane)).refillRate *
      ((run (step contract) start (solves 11 10)).timestamp - start.timestamp) = 10 := by
    decide
  exact ⟨hpays, by decide, hbound ▸ hquotes⟩

open Sample in
/-- **The fees are not charged**: at one time an order mints any amount on a lane that holds ten. -/
theorem fee_not_limited : Meets (step contract) (Allowed lane) start (solves 1000 0) ∧
    (start.buckets (getRateLimitAddress contract lane)).available = 10 ∧
    ¬ totalOn lane Fill.minted (trace (step contract) start (solves 1000 0)) ≤
      10 + 1 * ((run (step contract) start (solves 1000 0)).timestamp - start.timestamp) := by
  decide

end UnionVoyager.Evm.UnionversalToken
