import UnionVoyager.Lib.Bytes
import UnionVoyager.Lib.Ledger
import UnionVoyager.Lib.Result

/-!
# Solidity: checked arithmetic, transactions and token contracts

* `checked`, `checkedSub`, `checkedDiv` — the arithmetic of Solidity 0.8.
* `laneOf` — the lanes that the counterparties of the solvers are registered under.
-/

namespace UnionVoyager.Evm

open Lib

abbrev Address := BitVec 160

abbrev Bytes32 := BitVec 256

instance lawfulBEqBytes32 : LawfulBEq Bytes32 := inferInstance

/-- Why a call reverts; `ε` are the errors the contract declares. -/
inductive Revert (ε : Type) where
  /-- `Panic(0x11)` -/
  | arithmetic
  /-- `Panic(0x12)` -/
  | divisionByZero
  /-- the callee has no code, or reverted -/
  | failedCall
  | custom (e : ε)

variable {ε : Type}

/-! ## Checked arithmetic -/

/-- A result of `w` bits; a larger one panics. -/
def checked (w n : Nat) : Except (Revert ε) Nat := if n < 2 ^ w then .ok n else .error .arithmetic

def checkedSub (a b : Nat) : Except (Revert ε) Nat := if b ≤ a then .ok (a - b) else .error .arithmetic

def checkedDiv (a b : Nat) : Except (Revert ε) Nat := if b = 0 then .error .divisionByZero else .ok (a / b)

@[simp] theorem checked_eq_ok {w n m : Nat} : (checked w n : Except (Revert ε) Nat) = .ok m ↔
      n < 2 ^ w ∧ n = m := by
  by_cases h : n < 2 ^ w <;> simp [checked, h]

theorem checked_of_lt {w n : Nat} (h : n < 2 ^ w) : (checked w n : Except (Revert ε) Nat) = .ok n := if_pos h

@[simp] theorem checkedSub_eq_ok {a b m : Nat} :
    (checkedSub a b : Except (Revert ε) Nat) = .ok m ↔ b ≤ a ∧ a - b = m := by
  by_cases h : b ≤ a <;> simp [checkedSub, h]

@[simp] theorem checkedDiv_eq_ok {a b m : Nat} :
    (checkedDiv a b : Except (Revert ε) Nat) = .ok m ↔ b ≠ 0 ∧ a / b = m := by
  by_cases h : b = 0 <;> simp [checkedDiv, h]

/-! ## Transactions -/

/-- The state after a transaction: one that reverts changes nothing. -/
def transact {σ : Type} (s : σ) : Except (Revert ε) σ → σ
  | .ok s' => s'
  | .error _ => s

@[simp] theorem transact_ok {σ : Type} (s s' : σ) : transact s (.ok s' : Except (Revert ε) σ) = s' := rfl

theorem transact_cases {σ : Type} (s : σ) (x : Except (Revert ε) σ) : x = .ok (transact s x) ∨
      transact s x = s := by
  cases x with
  | ok s' => exact .inl rfl
  | error e => exact .inr rfl

/-! ## Token contracts -/

/-- A token contract with the storage `T`, as its callers see it: a call that does not revert has moved
exactly what it was told to. -/
structure Erc20 (T : Type) where
  balanceOf : T → Address → Nat
  transfer : T → (sender receiver : Address) → Nat → Option T
  transferFrom : T → (spender sender receiver : Address) → Nat → Option T
  balanceOf_lt : ∀ t a, balanceOf t a < 2 ^ 256
  transfer_moves : ∀ {t t' : T} {src dst : Address} {n : Nat}, transfer t src dst n = some t' →
    n ≤ balanceOf t src ∧ balanceOf t' = Ledger.moved (balanceOf t) src dst n
  transferFrom_moves : ∀ {t t' : T} {spender src dst : Address} {n : Nat},
    transferFrom t spender src dst n = some t' →
    n ≤ balanceOf t src ∧ balanceOf t' = Ledger.moved (balanceOf t) src dst n

/-- The storage of a plain token. -/
structure Standard where
  balances : Address → Nat
  allowance : (owner spender : Address) → Nat
  balances_lt : ∀ a, balances a < 2 ^ 256

namespace Standard

def empty : Standard := ⟨fun _ => 0, fun _ _ => 0, fun _ => by decide⟩

/-- New tokens for an account. -/
def mint (t : Standard) (a : Address) (n : Nat) : Option Standard :=
  if h : t.balances a + n < 2 ^ 256 then
    some { t with
      balances := Ledger.credited t.balances a n
      balances_lt := by
        intro x
        rw [Ledger.credited_apply]
        split
        · rename_i hx
          exact hx ▸ h
        · exact t.balances_lt x }
  else
    none

theorem moved_lt (t : Standard) (src dst : Address) (n : Nat)
    (h : Ledger.moved t.balances src dst n dst < 2 ^ 256)
    (x : Address) : Ledger.moved t.balances src dst n x < 2 ^ 256 := by
  by_cases hdst : dst = x
  · exact hdst ▸ h
  · have hx : Ledger.moved t.balances src dst n x ≤ t.balances x := by
      rw [Ledger.moved, Ledger.credited_apply, if_neg hdst]
      by_cases hsrc : x = src
      · rw [hsrc, Function.update_self]
        omega
      · rw [Function.update_of_ne hsrc]
        omega
    exact Nat.lt_of_le_of_lt hx (t.balances_lt x)

def transfer (t : Standard) (src dst : Address) (n : Nat) : Option Standard :=
  if h : n ≤ t.balances src ∧ Ledger.moved t.balances src dst n dst < 2 ^ 256 then
    some { t with balances := Ledger.moved t.balances src dst n, balances_lt := t.moved_lt src dst n h.2 }
  else
    none

def transferFrom (t : Standard) (spender src dst : Address) (n : Nat) : Option Standard :=
  if n ≤ t.allowance src spender then
    (t.transfer src dst n).map fun t' => { t' with
      allowance := fun owner s =>
        if owner = src ∧ s = spender then t.allowance src spender - n else t.allowance owner s }
  else
    none

theorem transfer_moves {t t' : Standard} {src dst : Address} {n : Nat} (h : t.transfer src dst n = some t') :
    n ≤ t.balances src ∧ t'.balances = Ledger.moved t.balances src dst n := by
  unfold transfer at h
  split at h
  · rename_i hpaid
    obtain rfl := Option.some.inj h
    exact ⟨hpaid.1, rfl⟩
  · cases h

theorem transferFrom_moves {t t' : Standard} {spender src dst : Address} {n : Nat}
    (h : t.transferFrom spender src dst n = some t') :
    n ≤ t.balances src ∧ t'.balances = Ledger.moved t.balances src dst n := by
  unfold transferFrom at h
  split at h
  · obtain ⟨t₁, hmoved, rfl⟩ := Option.map_eq_some_iff.mp h
    have hpaid := transfer_moves hmoved
    exact hpaid
  · cases h

end Standard

def standard : Erc20 Standard where
  balanceOf t := t.balances
  transfer := Standard.transfer
  transferFrom := Standard.transferFrom
  balanceOf_lt t a := t.balances_lt a
  transfer_moves := Standard.transfer_moves
  transferFrom_moves := Standard.transferFrom_moves

/-! ## Orders and lanes -/

structure IBCPacket where
  sourceChannelId : UInt32
  destinationChannelId : UInt32
  data : Bytes
  timeoutHeight : UInt64
  timeoutTimestamp : UInt64

structure TokenOrderV2 where
  sender : Bytes
  receiver : Bytes
  baseToken : Bytes
  baseAmount : Nat
  quoteToken : Bytes
  quoteAmount : Nat
  kind : UInt8
  metadata : Bytes

/-- `(path, channelId, baseToken)` -/
structure Lane where
  path : BitVec 256
  channelId : UInt32
  baseToken : Bytes
  deriving DecidableEq

def laneOf (packet : IBCPacket) (order : TokenOrderV2) (path : BitVec 256) : Lane :=
  ⟨path, packet.destinationChannelId, order.baseToken⟩

/-- `abi.encodePacked` of an address. -/
def encodePacked (a : Address) : Bytes := beBytes 20 a.toNat

/-- `address(bytes20(b))`: the first 20 bytes, with zeros after a shorter string. -/
def toAddress (b : Bytes) : Address := BitVec.ofNat 160 (beNat ((b ++ List.replicate 20 0).take 20))

/-- The zeros after a string of this length, up to a whole word. -/
def padding (n : Nat) : Nat := (n + 31) / 32 * 32 - n

/-- `abi.encode(path, channelId, baseToken)`: the two numbers, the offset of the string, its length and its
bytes. -/
def Lane.abiEncode (l : Lane) : Bytes :=
  beBytes 32 l.path.toNat ++ (beBytes 32 l.channelId.toNat ++ (beBytes 32 0x60 ++
    (beBytes 32 (l.baseToken.length % 2 ^ 256) ++
      (l.baseToken ++ List.replicate (padding l.baseToken.length) 0))))

theorem padded_inj {m n : Nat} (hpadded : m + padding m = n + padding n)
    (hmod : m % 2 ^ 256 = n % 2 ^ 256) : m = n := by
  unfold padding at hpadded
  omega

theorem Lane.abiEncode_injective : Function.Injective Lane.abiEncode := by
  intro l l' h
  unfold Lane.abiEncode at h
  obtain ⟨hpath, h⟩ := List.append_inj h (by simp)
  obtain ⟨hchan, h⟩ := List.append_inj h (by simp)
  obtain ⟨-, h⟩ := List.append_inj h (by simp)
  obtain ⟨hlen, htail⟩ := List.append_inj h (by simp)
  have hpath : l.path = l'.path :=
    BitVec.eq_of_toNat_eq
      (beBytes_inj 32 (by have := l.path.isLt; omega) (by have := l'.path.isLt; omega) hpath)
  have hchan : l.channelId = l'.channelId :=
    UInt32.toNat_inj.mp (beBytes_inj 32 (by have := l.channelId.toNat_lt; omega)
      (by have := l'.channelId.toNat_lt; omega) hchan)
  have hlen : l.baseToken.length = l'.baseToken.length := by
    refine padded_inj ?_ (beBytes_inj 32 (by omega) (by omega) hlen)
    simpa using congrArg List.length htail
  obtain ⟨htoken, -⟩ := List.append_inj htail hlen
  rcases l with ⟨path, channelId, baseToken⟩
  rcases l' with ⟨path', channelId', baseToken'⟩
  simp only at hpath hchan htoken
  rw [hpath, hchan, htoken]

end UnionVoyager.Evm
