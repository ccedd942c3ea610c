import UnionVoyager.Lib.Result
import UnionVoyager.Lib.Bytes
import UnionVoyager.Lib.Merkle
import Mathlib.Algebra.Ring.Int.Defs

/-!
# Times, fractions and merkle trees of the light clients

What the tendermint and the gno client share: the bounded integers of `unionlabs::bounded`, the
protobuf `Timestamp` and `Duration` of `unionlabs`, the trust level, and the merkle root of a list of
leaves (`merkle.rs` of both verifiers).  `sha256` is a parameter: nothing below depends on how it works.
-/

namespace UnionVoyager.Light

open Lib List

/-- A 32-byte word. -/
abbrev H256 := Bytes

/-- A 20-byte address. -/
abbrev H160 := Bytes

/-- `BoundedI64<0, { i64::MAX }>`. -/
structure BoundedI64 where
  inner : Nat
  lt : inner < 2 ^ 63
  deriving DecidableEq

def BoundedI64.ofNat (n : Nat) : BoundedI64 := ⟨n % 2 ^ 63, Nat.mod_lt n (by decide)⟩

/-- `BoundedI32<0, { i32::MAX }>`. -/
structure BoundedI32 where
  inner : Nat
  lt : inner < 2 ^ 31

def BoundedI32.ofNat (n : Nat) : BoundedI32 := ⟨n % 2 ^ 31, Nat.mod_lt n (by decide)⟩

structure U256 where
  toNat : Nat
  lt : toNat < 2 ^ 256
  deriving DecidableEq

def U256.ZERO : U256 := ⟨0, by decide⟩

/-- `U256` into `u64`, when it fits. -/
def U256.toU64 (n : U256) : Option UInt64 := if n.toNat < 2 ^ 64 then some (UInt64.ofNat n.toNat) else none

/-! ## Timestamps -/

def TIMESTAMP_SECONDS_MAX : Int := 253402300799

def TIMESTAMP_SECONDS_MIN : Int := -62135596800

def NANOS_PER_SECOND : Int := 1000000000

def NANOS_MAX : Int := NANOS_PER_SECOND - 1

structure Timestamp where
  seconds : Int
  nanos : Int
  seconds_bounds : TIMESTAMP_SECONDS_MIN ≤ seconds ∧ seconds ≤ TIMESTAMP_SECONDS_MAX
  nanos_bounds : 0 ≤ nanos ∧ nanos ≤ NANOS_MAX
  deriving DecidableEq

/-- `Ord for Timestamp`: by seconds, then by nanoseconds. -/
instance : LT Timestamp where
  lt a b := a.seconds < b.seconds ∨ (a.seconds = b.seconds ∧ a.nanos < b.nanos)

instance (a b : Timestamp) : Decidable (a < b) :=
  inferInstanceAs (Decidable (a.seconds < b.seconds ∨ (a.seconds = b.seconds ∧ a.nanos < b.nanos)))

def Timestamp.atSecond (seconds : Nat) : Timestamp :=
  ⟨(seconds % 2 ^ 32 : Nat), 0, by unfold TIMESTAMP_SECONDS_MIN TIMESTAMP_SECONDS_MAX; omega, by decide⟩

/-- The seconds and nanoseconds as a `Timestamp`, when both are in range. -/
def Timestamp.tryNew (seconds nanos : Int) : Option Timestamp :=
  if h : (TIMESTAMP_SECONDS_MIN ≤ seconds ∧ seconds ≤ TIMESTAMP_SECONDS_MAX) ∧ 0 ≤ nanos ∧
      nanos ≤ NANOS_MAX then
    some ⟨seconds, nanos, h.1, h.2⟩
  else none

/-- `TryFrom<cosmwasm_std::Timestamp>`: the block time is an `u64` of nanoseconds. -/
def Timestamp.ofCosmwasm (nanos : UInt64) : Option Timestamp :=
  Timestamp.tryNew (nanos.toNat / 1000000000 : Nat) (nanos.toNat % 1000000000 : Nat)

theorem Timestamp.ofCosmwasm_isSome (nanos : UInt64) : (Timestamp.ofCosmwasm nanos).isSome := by
  have hlt := nanos.toNat_lt
  unfold Timestamp.ofCosmwasm Timestamp.tryNew
  rw [dif_pos]
  · rfl
  · simp only [TIMESTAMP_SECONDS_MIN, TIMESTAMP_SECONDS_MAX, NANOS_MAX, NANOS_PER_SECOND]
    omega

def DURATION_MAX_SECONDS : Int := 315576000000

/-- A span of time in nanoseconds. -/
structure Duration where
  inner : Int
  bounds : -(DURATION_MAX_SECONDS * NANOS_PER_SECOND + NANOS_MAX) ≤ inner ∧
    inner ≤ DURATION_MAX_SECONDS * NANOS_PER_SECOND + NANOS_MAX
  deriving DecidableEq

def Duration.ofNanos (n : Nat) : Duration :=
  ⟨(n % 2 ^ 64 : Nat), by unfold DURATION_MAX_SECONDS NANOS_MAX NANOS_PER_SECOND; omega⟩

/-- Rust's `/` and `%` round towards zero, so both parts carry the sign of the span. -/
def Duration.seconds (d : Duration) : Int := d.inner.tdiv NANOS_PER_SECOND

def Duration.nanos (d : Duration) : Int := d.inner.tmod NANOS_PER_SECOND

/-- `Timestamp::checked_add`; the seconds cannot leave the range of an `i64`. -/
def Timestamp.checkedAdd (t : Timestamp) (d : Duration) : Option Timestamp :=
  let seconds := t.seconds + d.seconds
  let nanos := t.nanos + d.nanos
  if nanos < 0 then Timestamp.tryNew (seconds - 1) (nanos + (NANOS_MAX + 1))
  else if NANOS_MAX < nanos then Timestamp.tryNew (seconds + 1) (nanos - (NANOS_MAX + 1))
  else Timestamp.tryNew seconds nanos

/-! ## Heights and fractions -/

/-- `Fraction`: an `u64` over a `NonZeroU64`. -/
structure Fraction where
  numerator : Nat
  denominator : Nat
  numerator_lt : numerator < 2 ^ 64
  denominator_pos : 0 < denominator
  denominator_lt : denominator < 2 ^ 64

instance decidableEqFraction : DecidableEq Fraction := fun a b =>
  decidable_of_iff (a.numerator = b.numerator ∧ a.denominator = b.denominator) (by cases a; cases b; simp)

def Fraction.oneThird : Fraction := ⟨1, 3, by decide, by decide, by decide⟩

/-- `Height`: revision number and revision height, each an `u64`. -/
structure Height where
  revision : Nat
  height : Nat
  revision_lt : revision < 2 ^ 64
  height_lt : height < 2 ^ 64
  deriving DecidableEq

/-- `Height::new_with_revision`. -/
def Height.newWithRevision (revision height : UInt64) : Height :=
  ⟨revision.toNat, height.toNat, revision.toNat_lt, height.toNat_lt⟩

/-- `Height::new`. -/
def Height.new (height : UInt64) : Height := newWithRevision 0 height

/-! ## Merkle root of a list of leaves -/

section Merkle

variable (sha256 : Bytes → H256)

def LEAF_PREFIX : Bytes := [0]

def INNER_PREFIX : Bytes := [1]

def EMPTY_SHA256 : H256 :=
  [0xe3, 0xb0, 0xc4, 0x42, 0x98, 0xfc, 0x1c, 0x14, 0x9a, 0xfb, 0xf4, 0xc8, 0x99, 0x6f, 0xb9, 0x24,
   0x27, 0xae, 0x41, 0xe4, 0x64, 0x9b, 0x93, 0x4c, 0xa4, 0x95, 0x99, 0x1b, 0x78, 0x52, 0xb8, 0x55]

def leafHash (leaf : Bytes) : H256 := sha256 (LEAF_PREFIX ++ leaf)

def innerHash (left right : H256) : H256 := sha256 (INNER_PREFIX ++ left ++ right)

/-- The source hashes each level over the front of the same vector, behind what it still has to read. -/
def calculateMerkleRoot (leaves : List Bytes) : H256 :=
  (levels (innerHash sha256) leaves.length (leaves.map (leafHash sha256))).headD EMPTY_SHA256

/-- The inner loop from `i` on, over the first `leavesSize` hashes of the vector; an index out of
    range panics. -/
def hashPairs (leavesSize : Nat) (leaves : List H256) (i : Nat) : Option (List H256 × Nat) :=
  if i < leavesSize then
    if i + 1 < leavesSize then do
      let hash := innerHash sha256 (← leaves[i]?) (← leaves[i + 1]?)
      hashPairs leavesSize (leaves.set (i / 2) hash) (i + 2)
    else do
      let front ← leaves[i / 2]?
      let last ← leaves[i]?
      hashPairs leavesSize ((leaves.set (i / 2) last).set i front) (i + 2)
  else
    some (leaves, i / 2)
termination_by leavesSize - i

/-- The outer loop, at most `fuel` times. -/
def hashLevels : Nat → Nat → List H256 → Option H256
  | 0, _, _ => none
  | fuel + 1, leavesSize, leaves =>
    if leavesSize = 1 then
      leaves[0]?
    else do
      let (leaves, leavesSize) ← hashPairs sha256 leavesSize leaves 0
      hashLevels fuel leavesSize leaves

/-- `calculate_merkle_root` with the writes to its vector. -/
def calculateMerkleRootInPlace (leaves : List Bytes) : Option H256 :=
  if leaves.isEmpty then some EMPTY_SHA256
  else hashLevels sha256 leaves.length leaves.length (leaves.map (leafHash sha256))

/-- The root of RFC 6962: the list is split at the largest power of two below its length. -/
def merkleTreeHash (leaves : List Bytes) : H256 :=
  splitRoot (innerHash sha256) (sha256 []) (leaves.map (leafHash sha256))

variable {sha256}

/-- Below `k` is the next level, from `2 * k` on the old one. -/
theorem hashPairs_eq (level v : List H256) (k : Nat) (hk : k ≤ (level.length + 1) / 2)
    (hfront : ∀ j < k, v[j]? = (nextLevel (innerHash sha256) level)[j]?)
    (hrest : ∀ j, 2 * k ≤ j → j < level.length → v[j]? = level[j]?) :
    ∃ v', hashPairs sha256 level.length v (2 * k) = some (v', (level.length + 1) / 2) ∧
      ∀ j < (level.length + 1) / 2, v'[j]? = (nextLevel (innerHash sha256) level)[j]? := by
  induction hd : (level.length + 1) / 2 - k generalizing k v with
  | zero =>
    obtain rfl : k = (level.length + 1) / 2 := by omega
    rw [hashPairs, if_neg (by omega), Nat.mul_div_cancel_left _ (by omega)]
    exact ⟨v, rfl, hfront⟩
  | succ d ih =>
    have hlt : 2 * k < level.length := by omega
    obtain ⟨left, hleft⟩ : ∃ left, level[2 * k]? = some left := ⟨_, getElem?_eq_getElem hlt⟩
    have hnext := nextLevel_getElem? (innerHash sha256) level k
    have hread := (hrest (2 * k) (Nat.le_refl _) hlt).trans hleft
    have hv : 2 * k < v.length := (List.getElem?_eq_some_iff.mp hread).1
    rw [hashPairs, if_pos hlt, Nat.mul_div_cancel_left k (by omega : 0 < 2), hread]
    by_cases hpair : 2 * k + 1 < level.length
    · obtain ⟨right, hright⟩ : ∃ right, level[2 * k + 1]? = some right := ⟨_, getElem?_eq_getElem hpair⟩
      rw [if_pos hpair, hrest (2 * k + 1) (by omega) hpair, hright]
      rw [hleft, hright] at hnext
      apply ih _ (k + 1) (by omega) _ _ (by omega)
      · intro j hj
        rcases Nat.lt_succ_iff_lt_or_eq.mp hj with hj | rfl
        · rw [getElem?_set_ne (by omega), hfront j hj]
        · rw [getElem?_set_self (by omega), hnext]
      · intro j hj hlast
        rw [getElem?_set_ne (by omega), hrest j (by omega) hlast]
    · rw [if_neg hpair, getElem?_eq_getElem (by omega : k < v.length)]
      rw [hleft, getElem?_eq_none (by omega : level.length ≤ 2 * k + 1)] at hnext
      apply ih _ (k + 1) (by omega) _ _ (by omega)
      · intro j hj
        rcases Nat.lt_succ_iff_lt_or_eq.mp hj with hj | rfl
        · rw [getElem?_set_ne (by omega), getElem?_set_ne (by omega), hfront j hj]
        · rw [hnext]
          -- the first hash of the vector is swapped with itself
          rcases Nat.eq_zero_or_pos j with rfl | hj
          · rw [Nat.mul_zero, getElem?_set_self (by simpa using hv)]
            exact (getElem?_eq_getElem hv).symm.trans hread
          · rw [getElem?_set_ne (by omega), getElem?_set_self (by omega)]
      · intro j hj hlast
        omega

theorem hashLevels_eq (fuel : Nat) (level v : List H256) (hfuel : level.length ≤ fuel)
    (hne : level ≠ []) (hv : ∀ j < level.length, v[j]? = level[j]?) :
    hashLevels sha256 fuel level.length v = (levels (innerHash sha256) fuel level).head? := by
  have hpos := List.length_pos_iff.mpr hne
  induction fuel generalizing level v with
  | zero => omega
  | succ fuel ih =>
    rw [hashLevels, levels]
    split
    case isTrue h => rw [hv 0 hpos, head?_eq_getElem?]
    case isFalse h =>
      obtain ⟨v', heq, hv'⟩ := hashPairs_eq level v 0 (Nat.zero_le _) (fun j hj => by omega) fun j _
        hj => hv j hj
      have hlen := nextLevel_length (innerHash sha256) level
      rw [← hlen] at hv' heq
      rw [Nat.mul_zero] at heq
      rw [heq]
      exact ih _ v' (by omega) (ne_nil_of_length_pos (by omega)) hv' (by omega)

theorem calculateMerkleRootInPlace_eq (leaves : List Bytes) :
    calculateMerkleRootInPlace sha256 leaves = some (calculateMerkleRoot sha256 leaves) := by
  cases leaves with
  | nil => rfl
  | cons leaf rest =>
    have hne : (leaf :: rest).map (leafHash sha256) ≠ [] := cons_ne_nil _ _
    obtain ⟨root, hroot⟩ := levels_singleton (innerHash sha256) _ _ hne (Nat.le_refl _)
    have heq := @hashLevels_eq sha256 _ _ _ (Nat.le_refl _) hne fun _ _ => rfl
    rw [hroot, length_map] at heq
    rw [length_map] at hroot
    rw [calculateMerkleRoot, hroot]
    exact heq

theorem calculateMerkleRoot_eq_merkleTreeHash (hempty : sha256 [] = EMPTY_SHA256)
    (leaves : List Bytes) : calculateMerkleRoot sha256 leaves = merkleTreeHash sha256 leaves := by
  cases leaves with
  | nil =>
    rw [merkleTreeHash, map_nil, splitRoot]
    exact hempty.symm
  | cons leaf rest =>
    have hlevels := levels_eq_splitRoot (innerHash sha256) (sha256 []) ((leaf :: rest).map (leafHash sha256))
      (cons_ne_nil _ _)
    rw [length_map] at hlevels
    rw [calculateMerkleRoot, hlevels]
    rfl

end Merkle

end UnionVoyager.Light
