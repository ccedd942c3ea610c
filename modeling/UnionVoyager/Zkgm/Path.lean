import UnionVoyager.Zkgm.Types

/-!
# Channel paths and salts

A path is a 256-bit word of up to eight 32-bit channel ids, the first hop in the lowest slot.  The
functions are those at the end of `ucs03-zkgm/src/contract.rs`.

* `updateChannelPath_lt` — a path with one more hop is a larger number, so a forwarded packet never
  carries the path of the packet that caused it.
* `eq_zero_of_reverseChannelPath` — a token whose reversed origin is the empty path came directly.
-/

namespace UnionVoyager.Zkgm

open Lib
open Core (ChannelId NonZeroU32)

def ChannelId.fromRaw (n : Nat) : Option ChannelId :=
  if h : 0 < n ∧ n < 2 ^ 32 then some ⟨⟨n, h.1, h.2⟩⟩ else none

def U32_MAX : U256 := 0xFFFFFFFF

/-- `256 - path.leading_zeros()`, for a path other than zero. -/
def bitLength (path : U256) : Nat := path.toNat.log2 + 1

def dequeueChannelFromPath (path : U256) : Result (U256 × Option ChannelId) :=
  if path = 0 then
    .ok (0, none)
  else do
    let head ← orErr (ChannelId.fromRaw (path &&& U32_MAX).toNat)
      (.panic "value is > 0 as path is > 0; qed;")
    pure (path >>> 32, some head)

def getChannelFromPath (path : U256) (index : Nat) : Option ChannelId :=
  ChannelId.fromRaw ((path >>> (32 * index)) &&& U32_MAX).toNat

def makePathFromChannel (channelId : ChannelId) (index : Nat) : U256 :=
  BitVec.ofNat 256 channelId.raw.get <<< (32 * index)

/-- The last channel of a path, and the path without it. -/
def popChannelFromPath (path : U256) : U256 × Option ChannelId :=
  if path = 0 then
    (0, none)
  else
    let highestIndex := (bitLength path - 1) / 32
    (path &&& ~~~(U32_MAX <<< (highestIndex * 32)), getChannelFromPath path highestIndex)

def updateChannelPath (path : U256) (nextChannelId : ChannelId) : Result U256 :=
  if path = 0 then
    .ok (BitVec.ofNat 256 nextChannelId.raw.get)
  else
    let nextHopIndex := bitLength path / 32 + 1
    if nextHopIndex > 7 then
      .error (.err (.channelPathIsFull path nextHopIndex))
    else
      .ok (makePathFromChannel nextChannelId nextHopIndex ||| path)

/-- `if let Some(channel_id) = head { .. }` in the loop below. -/
def pushHead (reversed : U256) : Option ChannelId → Result U256
  | some channelId => updateChannelPath reversed channelId
  | none => .ok reversed

/-- The loop of `reverse_channel_path`. -/
def reverseLoop : Nat → U256 → U256 → Result U256
  | 0, _, _ => .error .outOfFuel
  | fuel + 1, path, reversed => do
    let (tail, head) := popChannelFromPath path
    let reversed ← pushHead reversed head
    if tail = 0 then pure reversed else reverseLoop fuel tail reversed

/-- Each turn of the loop clears the highest of at most eight slots. -/
def reverseChannelPath (path : U256) : Result U256 := reverseLoop 8 path 0

/-! ## Longer paths -/

theorem makePathFromChannel_toNat (c : ChannelId) {i : Nat} (hi : i ≤ 7) :
    (makePathFromChannel c i).toNat = c.raw.get * 2 ^ (32 * i) := by
  have hc : c.raw.get < 2 ^ 32 := c.raw.lt
  have hp : 2 ^ (32 * i) ≤ 2 ^ 224 := Nat.pow_le_pow_right (by omega) (by omega)
  have hm : c.raw.get * 2 ^ (32 * i) < 2 ^ 256 := by
    calc c.raw.get * 2 ^ (32 * i) ≤ c.raw.get * 2 ^ 224 := Nat.mul_le_mul_left _ hp
      _ < 2 ^ 32 * 2 ^ 224 := Nat.mul_lt_mul_of_pos_right hc (Nat.two_pow_pos 224)
      _ = 2 ^ 256 := by decide
  unfold makePathFromChannel
  rw [BitVec.toNat_shiftLeft, BitVec.toNat_ofNat, Nat.mod_eq_of_lt (by omega : c.raw.get < 2 ^ 256),
    Nat.shiftLeft_eq, Nat.mod_eq_of_lt hm]

theorem updateChannelPath_lt {path next : U256} {c : ChannelId}
    (h : updateChannelPath path c = .ok next) : path.toNat < next.toNat := by
  unfold updateChannelPath at h
  by_cases h0 : path = 0
  · rw [if_pos h0] at h
    cases h
    have hc : c.raw.get < 2 ^ 256 := lt_trans c.raw.lt (by decide)
    rw [h0, BitVec.toNat_ofNat, Nat.mod_eq_of_lt hc]
    exact c.raw.pos
  · rw [if_neg h0] at h
    simp only at h
    split at h
    · cases h
    · rename_i hi
      cases h
      have hpow := makePathFromChannel_toNat c (i := bitLength path / 32 + 1) (by omega)
      -- the new slot starts above the highest bit of the path
      have hlt : path.toNat < 2 ^ (32 * (bitLength path / 32 + 1)) := by
        have hlog : path.toNat < 2 ^ bitLength path := Nat.lt_log2_self
        refine lt_of_lt_of_le hlog (Nat.pow_le_pow_right (by omega) ?_)
        omega
      have hor := Nat.left_le_or (n := c.raw.get * 2 ^ (32 * (bitLength path / 32 + 1)))
        (m := path.toNat)
      rw [BitVec.toNat_or, hpow]
      have hone : 2 ^ (32 * (bitLength path / 32 + 1)) ≤
          c.raw.get * 2 ^ (32 * (bitLength path / 32 + 1)) := Nat.le_mul_of_pos_left _ c.raw.pos
      omega

theorem popChannelFromPath_isSome {path : U256} (h : path ≠ 0) :
    ∃ c, (popChannelFromPath path).2 = some c := by
  have hpos : path.toNat ≠ 0 := by
    intro h0
    exact h (BitVec.eq_of_toNat_eq (by simpa using h0))
  have hidx : bitLength path - 1 = path.toNat.log2 := by
    unfold bitLength
    omega
  -- the chunk that holds the highest bit, as a number
  have hchunk : (path >>> (32 * (path.toNat.log2 / 32)) &&& U32_MAX).toNat =
      path.toNat / 2 ^ (32 * (path.toNat.log2 / 32)) := by
    have hlt : path.toNat / 2 ^ (32 * (path.toNat.log2 / 32)) < 2 ^ 32 := by
      rw [Nat.div_lt_iff_lt_mul (Nat.two_pow_pos _), ← Nat.pow_add]
      refine lt_of_lt_of_le Nat.lt_log2_self (Nat.pow_le_pow_right (by omega) ?_)
      omega
    have hmask : U32_MAX.toNat = 2 ^ 32 - 1 := by decide
    rw [BitVec.toNat_and, BitVec.toNat_ushiftRight, Nat.shiftRight_eq_div_pow, hmask,
      Nat.and_two_pow_sub_one_eq_mod, Nat.mod_eq_of_lt hlt]
  have hge : 0 < path.toNat / 2 ^ (32 * (path.toNat.log2 / 32)) := by
    refine Nat.div_pos (le_trans (Nat.pow_le_pow_right (by omega) ?_) (Nat.log2_self_le hpos))
      (Nat.two_pow_pos _)
    omega
  have hlt : path.toNat / 2 ^ (32 * (path.toNat.log2 / 32)) < 2 ^ 32 := by
    rw [← hchunk, BitVec.toNat_and]
    exact lt_of_le_of_lt Nat.and_le_right (by decide)
  refine ⟨⟨⟨_, hge, hlt⟩⟩, ?_⟩
  unfold popChannelFromPath
  rw [if_neg h]
  simp only [getChannelFromPath, hidx, hchunk]
  unfold ChannelId.fromRaw
  rw [dif_pos ⟨hge, hlt⟩]

theorem reverseLoop_le {path reversed r : U256} :
    ∀ {fuel : Nat}, reverseLoop fuel path reversed = .ok r → reversed.toNat ≤ r.toNat := by
  intro fuel
  induction fuel generalizing path reversed with
  | zero =>
    intro h
    cases h
  | succ fuel ih =>
    intro h
    simp only [reverseLoop, bind_eq_ok] at h
    obtain ⟨next, hnext, h⟩ := h
    have hle : reversed.toNat ≤ next.toNat := by
      cases hhead : (popChannelFromPath path).2 with
      | some c =>
        rw [hhead] at hnext
        exact le_of_lt (updateChannelPath_lt hnext)
      | none =>
        rw [hhead] at hnext
        cases hnext
        exact le_refl _
    split at h
    · simp only [pure_eq_ok] at h
      rw [← h]
      exact hle
    · exact le_trans hle (ih h)

theorem eq_zero_of_reverseChannelPath {path : U256} (h : reverseChannelPath path = .ok 0) : path = 0 := by
  by_contra hne
  obtain ⟨c, hc⟩ := popChannelFromPath_isSome hne
  unfold reverseChannelPath at h
  rw [reverseLoop] at h
  simp only [bind_eq_ok, hc] at h
  obtain ⟨next, hnext, h⟩ := h
  have hpos := updateChannelPath_lt hnext
  have hle : next.toNat ≤ (0 : U256).toNat := by
    split at h
    · simp only [pure_eq_ok] at h
      rw [h]
    · exact reverseLoop_le h
  omega

/-! ## Salts -/

def FORWARD_SALT_MAGIC : U256 := 0xC0DE00000000000000000000000000000000000000000000000000000000BABE

def tintForwardSalt (salt : U256) : U256 := FORWARD_SALT_MAGIC ||| (salt &&& ~~~FORWARD_SALT_MAGIC)

def isForwardedPacket (salt : U256) : Bool := (salt &&& FORWARD_SALT_MAGIC) == FORWARD_SALT_MAGIC

end UnionVoyager.Zkgm
