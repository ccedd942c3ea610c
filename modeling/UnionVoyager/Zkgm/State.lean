import UnionVoyager.Zkgm.Path

/-!
# Storage of the zkgm app

The items and maps of `ucs03-zkgm/src/state.rs`, the chain as a message sees it, and the helpers that
read and write one map: the channel balances, the token buckets, the attached funds.

* `decreaseChannelBalanceV2_eq_ok`, `increaseChannelBalanceV2_eq_ok` — what a balance update does.
-/

namespace UnionVoyager.Zkgm

open Lib Function
open Core (ChannelId Addr H256 Coin)

/-! ## Hashes and the chain -/

/-- What is hashed or encoded outside the repository: the encoder of packet data, the reader of a
    packet's JSON text and `keccak256` at the preimages of zkgm. -/
structure Hashing extends Core.Hashing where
  encodeData : Data → Bytes
  /-- `serde_json_wasm::from_slice::<Packet>`. -/
  packetFromSlice : Bytes → Option Packet
  /-- `keccak256((sender, salt).abi_encode())`. -/
  hashSendSalt : Addr → U256 → U256
  /-- `keccak256((index, salt).abi_encode())`. -/
  hashBatchSalt : Nat → U256 → U256
  /-- `keccak256(salt.abi_encode())`. -/
  hashForwardSalt : U256 → U256
  /-- `keccak256(metadata.abi_encode_params())`. -/
  metadataImage : TokenMetadata → U256

def deriveBatchSalt (H : Hashing) (index : Nat) (salt : U256) : U256 := H.hashBatchSalt index salt

def deriveForwardSalt (H : Hashing) (salt : U256) : U256 := tintForwardSalt (H.hashForwardSalt salt)

/-- The packet as the IBC host sees it. -/
def Packet.toCore (H : Hashing) (p : Packet) : Core.Packet :=
  ⟨p.sourceChannelId, p.destinationChannelId, H.encodeData p.data, p.timeoutHeight, p.timeoutTimestamp⟩

/-- `BatchPacketsPath::from_packets(slice::from_ref(&packet)).key()`. -/
def Packet.commitmentKey (H : Hashing) (p : Packet) : H256 := Core.packetsKey H.toHashing [p.toCore H]

/-- The chain as one message sees it: its addresses, its clock, and the answers of the contracts
    that are queried (`none`: the query fails). -/
structure Env where
  validAddr : String → Bool
  contractAddress : Addr
  now : Nat
  burnAddress : Option Addr
  hashing : Hashing
  predictWrappedToken : U256 → ChannelId → Bytes → Option String
  predictWrappedTokenFromMetadataImageV2 : U256 → ChannelId → Bytes → U256 → Option String
  /-- name, symbol and decimals of a denom. -/
  metadata : String → Option (String × String × UInt8)
  predictCallProxyAccount : CallProxySalt → Option Addr
  /-- `query_wasm_contract_info` does not fail. -/
  contractExists : Addr → Bool

structure MessageInfo where
  sender : Addr
  funds : List Coin

/-- `addr_validate` of UTF-8 bytes, with the error for each of the two failures. -/
def validateAddr (env : Env) (bytes : Bytes) (notUtf8 notAddr : ContractError) : Result Addr := do
  let s ← okOr (fromUtf8 bytes) notUtf8
  require (env.validAddr s = true) notAddr
  pure s

def Env.ValidAddr (env : Env) (bytes : Bytes) : Prop := ∃ s, bytes = utf8 s ∧ env.validAddr s = true

@[simp] theorem validateAddr_eq_ok {env : Env} {b : Bytes} {e e' : ContractError} {a : Addr} :
    validateAddr env b e e' = .ok a ↔ b = utf8 a ∧ env.validAddr a = true := by
  unfold validateAddr
  simp only [bind_eq_ok, okOr_eq_ok, fromUtf8_eq_some, require_eq_ok, pure_eq_ok]
  constructor
  · rintro ⟨s, hs, _, hv, rfl⟩
    exact ⟨hs, hv⟩
  · rintro ⟨hs, hv⟩
    exact ⟨a, hs, (), hv, rfl⟩

/-! ## Storage -/

structure Config where
  ibcHost : Addr
  rateLimitDisabled : Bool
  dummyCodeId : Nat
  cwAccountCodeId : Nat

structure TokenBucket where
  capacity : Nat
  available : Nat
  refillRate : Nat
  lastRefill : Nat
  deriving DecidableEq

/-- The key of `CHANNEL_BALANCE_V2`. -/
structure BalanceKey where
  channelId : ChannelId
  path : U256
  baseToken : String
  quoteToken : Bytes
  deriving DecidableEq

structure State where
  config : Config
  tokenMinter : Addr
  tokenOrigin : String → Option U256
  channelBalanceV2 : BalanceKey → Option Nat
  metadataImageOf : String → Option U256
  executingPacket : Option Packet
  executingPacketIsBatch : Option Nat
  executionAck : Option AckData
  batchExecutionAcks : Option (List AckData)
  hashToForeignToken : String → Option Bytes
  inFlightPacket : H256 → Option Packet
  marketMaker : Option Bytes
  tokenBucket : String → Option TokenBucket
  createdProxyAccount : Option CallProxySalt

/-- The storage after `init`. -/
def State.init (config : Config) (tokenMinter : Addr) : State where
  config := config
  tokenMinter := tokenMinter
  tokenOrigin _ := none
  channelBalanceV2 _ := none
  metadataImageOf _ := none
  executingPacket := none
  executingPacketIsBatch := none
  executionAck := none
  batchExecutionAcks := none
  hashToForeignToken _ := none
  inFlightPacket _ := none
  marketMaker := none
  tokenBucket _ := none
  createdProxyAccount := none

/-! ## Amounts -/

/-- `u128::try_from(amount)`. -/
def toU128 (amount : Nat) : Result Nat :=
  if amount < 2 ^ 128 then .ok amount else .error (.err .amountOverflow)

@[simp] theorem toU128_eq_ok {n m : Nat} : toU128 n = .ok m ↔ n < 2 ^ 128 ∧ m = n := by
  unfold toU128
  split <;> simp_all [eq_comm]

/-- The coins sent along a message, by denom. -/
abbrev Coins := String → Nat

/-- `Coins::try_from`. -/
def Coins.ofList (funds : List Coin) : Coins :=
  fun denom => ((funds.filter fun c => c.denom = denom).map Coin.amount).sum

def Coins.sub (funds : Coins) (coin : Coin) : Result Coins :=
  if coin.amount ≤ funds coin.denom then
    .ok (update funds coin.denom (funds coin.denom - coin.amount))
  else
    .error (.err .std)

/-- The native coins for one order: none if no coin of the denom was sent, else exactly `amount`. -/
def Coins.take (funds : Coins) (denom : String) (amount : Nat) : Result (Coins × List Coin) :=
  if funds denom = 0 then
    .ok (funds, [])
  else do
    let amount ← toU128 amount
    let rest ← funds.sub ⟨denom, amount⟩
    pure (rest, [⟨denom, amount⟩])

/-- The native coins for a V1 order, which takes none if its amount is zero. -/
def Coins.takeNonZero (funds : Coins) (denom : String) (amount : Nat) : Result (Coins × List Coin) :=
  if amount = 0 then .ok (funds, []) else funds.take denom amount

/-- What one order takes of the coins that are left: none, or exactly its amount. -/
inductive Coins.Takes (funds : Coins) (denom : String) (amount : Nat) : Coins → List Coin → Prop
  | none (h : funds denom = 0 ∨ amount = 0) : Takes funds denom amount funds []
  | coin (hsome : funds denom ≠ 0) (hle : amount ≤ funds denom) :
      Takes funds denom amount (update funds denom (funds denom - amount)) [⟨denom, amount⟩]

variable {denom : String} {funds : Coins} {amount : Nat}

theorem Coins.takes_of_take {r : Coins × List Coin} (h : funds.take denom amount = .ok r) :
    funds.Takes denom amount r.1 r.2 := by
  unfold Coins.take at h
  split at h
  · rename_i hzero
    cases h
    exact .none (.inl hzero)
  · rename_i hsome
    simp only [bind_eq_ok, toU128_eq_ok, pure_eq_ok] at h
    obtain ⟨n, ⟨-, rfl⟩, rest, hrest, rfl⟩ := h
    unfold Coins.sub at hrest
    split at hrest
    · rename_i hle
      cases hrest
      exact .coin hsome hle
    · cases hrest

theorem Coins.takes_of_takeNonZero {r : Coins × List Coin}
    (h : funds.takeNonZero denom amount = .ok r) : funds.Takes denom amount r.1 r.2 := by
  unfold Coins.takeNonZero at h
  split at h
  · rename_i hzero
    cases h
    exact .none (.inr hzero)
  · exact Coins.takes_of_take h

theorem Coins.Takes.coins {rest : Coins} {coins : List Coin}
    (h : funds.Takes denom amount rest coins) : coins = [] ∨ coins = [⟨denom, amount⟩] := by
  cases h with
  | none => exact .inl rfl
  | coin => exact .inr rfl

theorem Coins.ofList_append (a b : List Coin) (d : String) :
    Coins.ofList (a ++ b) d = Coins.ofList a d + Coins.ofList b d := by
  simp [Coins.ofList]

theorem Coins.ofList_single (c : Coin) (d : String) :
    Coins.ofList [c] d = if c.denom = d then c.amount else 0 := by
  unfold Coins.ofList
  by_cases h : c.denom = d <;> simp [h]

theorem Coins.Takes.took {rest : Coins} {coins : List Coin}
    (h : funds.Takes denom amount rest coins) (d : String) :
    Coins.ofList coins d + rest d = funds d ∧ rest d = funds d - if denom = d then amount else 0 := by
  cases h with
  | none h =>
    refine ⟨Nat.zero_add _, ?_⟩
    by_cases hd : denom = d
    · subst hd
      rw [if_pos rfl]
      omega
    · rw [if_neg hd, Nat.sub_zero]
  | coin hsome hle =>
    rw [Coins.ofList_single]
    by_cases hd : denom = d
    · subst hd
      rw [if_pos rfl, update_self]
      exact ⟨Nat.add_sub_cancel' hle, rfl⟩
    · rw [update_of_ne (Ne.symm hd)]
      simp [hd]

/-! ## Channel balances -/

/-- The storage with the balance of one key overwritten. -/
def State.setBalance (s : State) (k : BalanceKey) (amount : Nat) : State :=
  { s with channelBalanceV2 := update s.channelBalanceV2 k (some amount) }

/-- The recorded balance; an absent entry counts as nothing. -/
def State.balance (s : State) (k : BalanceKey) : Nat := (s.channelBalanceV2 k).getD 0

section

variable (s : State) (channelId : ChannelId) (path : U256) (baseToken : String) (quoteToken : Bytes)
  (amount : Nat)

def decreaseChannelBalanceV2 : Result State :=
  match s.channelBalanceV2 ⟨channelId, path, baseToken, quoteToken⟩ with
  | some value =>
    if amount ≤ value then
      .ok (s.setBalance ⟨channelId, path, baseToken, quoteToken⟩ (value - amount))
    else
      .error (.err .invalidChannelBalance)
  | none => .error (.err .invalidChannelBalance)

def increaseChannelBalanceV2 : Result State :=
  match s.channelBalanceV2 ⟨channelId, path, baseToken, quoteToken⟩ with
  | some value =>
    if value + amount < 2 ^ 256 then
      .ok (s.setBalance ⟨channelId, path, baseToken, quoteToken⟩ (value + amount))
    else
      .error (.err .invalidChannelBalance)
  | none =>
    .ok (s.setBalance ⟨channelId, path, baseToken, quoteToken⟩ amount)

end

theorem decreaseChannelBalanceV2_eq_ok {s s' : State} {c : ChannelId} {p : U256} {b : String}
    {q : Bytes} {n : Nat} :
    decreaseChannelBalanceV2 s c p b q n = .ok s' ↔
      ∃ v, s.channelBalanceV2 ⟨c, p, b, q⟩ = some v ∧ n ≤ v ∧ s' = s.setBalance ⟨c, p, b, q⟩ (v - n) := by
  unfold decreaseChannelBalanceV2
  cases h : s.channelBalanceV2 ⟨c, p, b, q⟩ with
  | none => simp
  | some v =>
    simp only [Option.some.injEq]
    by_cases hn : n ≤ v
    · simp [hn, eq_comm]
    · simp [hn]

theorem increaseChannelBalanceV2_eq_ok {s s' : State} {c : ChannelId} {p : U256} {b : String}
    {q : Bytes} {n : Nat} (h : increaseChannelBalanceV2 s c p b q n = .ok s') :
    s' = s.setBalance ⟨c, p, b, q⟩ (s.balance ⟨c, p, b, q⟩ + n) := by
  unfold increaseChannelBalanceV2 at h
  unfold State.balance
  cases hv : s.channelBalanceV2 ⟨c, p, b, q⟩ with
  | none =>
    rw [hv] at h
    cases h
    simp
  | some v =>
    rw [hv] at h
    simp only at h
    split at h
    · cases h
      simp
    · cases h

/-! ## Rate limit -/

def TokenBucket.refill (b : TokenBucket) (now : Nat) : Result TokenBucket :=
  if b.available ≥ b.capacity then
    .ok { b with lastRefill := now }
  else if now < b.lastRefill then
    .error (.panic "attempt to subtract with overflow")
  else
    let toRefill := min (b.refillRate * (now - b.lastRefill)) (2 ^ 256 - 1)
    if toRefill = 0 then
      .ok b
    else
      .ok { b with
        available := min b.capacity (min (b.available + toRefill) (2 ^ 256 - 1))
        lastRefill := now }

def TokenBucket.rateLimit (b : TokenBucket) (amount now : Nat) : Result TokenBucket :=
  if amount = 0 then
    .ok b
  else do
    let b ← b.refill now
    require (amount ≤ b.available) .rateLimitExceeded
    pure { b with available := b.available - amount }

def rateLimit (s : State) (denom : String) (amount now : Nat) : Result State :=
  if s.config.rateLimitDisabled then
    .ok s
  else do
    let bucket ← okOr (s.tokenBucket denom) (.tokenBucketIsAbsent denom)
    let bucket ← bucket.rateLimit amount now
    pure { s with tokenBucket := update s.tokenBucket denom (some bucket) }

theorem rateLimit_frame {s s' : State} {d : String} {n now : Nat} (h : rateLimit s d n now = .ok s') :
    ∃ buckets, s' = { s with tokenBucket := buckets } := by
  unfold rateLimit at h
  split at h
  · cases h
    exact ⟨s.tokenBucket, rfl⟩
  · simp only [bind_eq_ok, pure_eq_ok] at h
    obtain ⟨b, -, b', -, rfl⟩ := h
    exact ⟨_, rfl⟩

end UnionVoyager.Zkgm
