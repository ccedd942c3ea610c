import UnionVoyager.Lib.Bits
import UnionVoyager.Sui.Types
import UnionVoyager.Zkgm.PathLaws

/-!
# Path and salt helpers on Sui

The helpers find the highest bit of a path by halving it, as the Solidity contract does with `fls`,
so that appending agrees with it on every path.  Taking a hop off is written with conversions and
shift amounts that abort in Move where Solidity and Rust truncate; and `tint_forward_salt` gives
back the bytes of the salt in the wrong order.

* `helpers_update`, `helpers_dequeue_iff`, `helpers_pop_iff`, `helpers_reverse_iff` — the laws, one by one.
* `isForwardedPacket_derive_iff` — which derived salts are recognised.
-/

namespace UnionVoyager.Sui

open Lib List Zkgm
open Core (ChannelId)
open Zkgm (U256 PathOps cosmwasm pathOf pathValue toUint32 SmallIds)

/-- The functions on paths of the Sui contract; `none` is an abort. -/
def helpers : PathOps where
  update path c := (updateChannelPath path (toUint32 c)).toOption
  dequeue path :=
    (dequeueChannelFromPath path).toOption.map fun (tail, head) => (tail, ChannelId.fromRaw head.toNat)
  pop path := (popChannelFromPath path).toOption.map fun (tail, head) => (tail, ChannelId.fromRaw head.toNat)
  reverse path := (reverseChannelPath path).toOption

/-! ## Appending -/

theorem fls_eq (x : U256) : fls x = Solidity.fls x := by
  unfold fls Solidity.fls
  split
  · rfl
  · next hx =>
    have hne : x.toNat ≠ 0 := fun h => hx (BitVec.eq_of_toNat_eq h)
    have hhalved := foldl_halve (k := 8) (r := 0) hne x.isLt
    rw [Nat.zero_add] at hhalved
    exact hhalved

theorem updateChannelPath_toOption (path : U256) (id : UInt32) :
    (updateChannelPath path id).toOption = Solidity.updateChannelPath path id := by
  unfold updateChannelPath Solidity.updateChannelPath
  rw [fls_eq]
  split
  · rfl
  · simp only [gt_iff_lt, Nat.mul_comm 32]
    split <;> rfl

theorem helpers_update : helpers.update = solidity.update := by
  funext path c
  exact updateChannelPath_toOption path (toUint32 c)

/-! ## Taking a hop off -/

variable {hops : List ChannelId}

theorem helpers_dequeue_iff (hlen : hops.length ≤ 8) :
    helpers.dequeue (pathOf hops) = some (pathOf hops.tail, hops.head?) ↔ hops.length ≤ 1 := by
  match hops, hlen with
  | [], _ => exact iff_of_true rfl (Nat.zero_le 1)
  | [c], hlen =>
    have hc : c.raw.get < 2 ^ 32 := c.raw.lt
    have hfits : (pathOf [c]).toNat < 2 ^ 32 := by
      rw [pathOf_toNat hlen, pathValue_cons]
      exact hc
    have hsolidity : Solidity.dequeueChannelFromPath (pathOf [c]) = (pathOf [], toUint32 c) :=
      Solidity.dequeueChannelFromPath_pathOf (by decide)
    refine iff_of_true ?_ (le_refl 1)
    have hok : dequeueChannelFromPath (pathOf [c]) = .ok (pathOf [], toUint32 c) := by
      unfold dequeueChannelFromPath
      rw [if_pos hfits, ← hsolidity]
      rfl
    simp only [helpers, hok]
    show some (pathOf [], ChannelId.fromRaw (toUint32 c).toNat) = _
    rw [fromRaw_toUint32]
    rfl
  | c :: d :: hops, hlen =>
    have hd := d.raw.pos
    have hwide : ¬ (pathOf (c :: d :: hops)).toNat < 2 ^ 32 := by
      rw [pathOf_toNat hlen, pathValue_cons, pathValue_cons]
      omega
    have habort : dequeueChannelFromPath (pathOf (c :: d :: hops)) = .error .arithmetic := by
      unfold dequeueChannelFromPath
      rw [if_neg hwide]
    refine iff_of_false ?_ (by simp)
    simp only [helpers, habort]
    nofun

theorem popChannelFromPath_single (c : ChannelId) : popChannelFromPath (pathOf [c]) = .error .arithmetic := by
  have hslot : fls (pathOf [c]) / 32 = 0 := by
    have hshort : ([] : List ChannelId).length < 8 := by decide
    rw [fls_eq]
    exact Solidity.fls_pathOf hshort
  unfold popChannelFromPath
  rw [if_neg (pathOf_ne_zero (by simp) (by simp)), hslot]
  rfl

theorem popChannelFromPath_concat {init : List ChannelId} {c : ChannelId} (hne : init ≠ [])
    (hlen : init.length < 8) :
    popChannelFromPath (pathOf (init ++ [c])) = .ok (pathOf init, toUint32 c) := by
  have hpos := List.length_pos_iff.mpr hne
  have hslot : fls (pathOf (init ++ [c])) / 32 = init.length := by
    rw [fls_eq]
    exact Solidity.fls_pathOf hlen
  have hnonzero : pathOf (init ++ [c]) ≠ 0 := pathOf_ne_zero (by simp; omega) (by simp)
  have hsolidity := Solidity.popChannelFromPath_pathOf (c := c) hlen
  unfold Solidity.popChannelFromPath at hsolidity
  rw [if_neg hnonzero, ← fls_eq, hslot] at hsolidity
  unfold popChannelFromPath
  rw [if_neg hnonzero, hslot]
  simp only
  rw [if_pos (by omega)]
  exact congrArg Except.ok hsolidity

theorem helpers_pop_iff (hlen : hops.length ≤ 8) :
    helpers.pop (pathOf hops) = some (pathOf hops.dropLast, hops.getLast?) ↔ hops.length ≠ 1 := by
  rcases eq_nil_or_concat' hops with rfl | ⟨init, c, rfl⟩
  · exact iff_of_true rfl (by decide)
  · by_cases hinit : init = []
    · subst hinit
      refine iff_of_false ?_ (by simp)
      simp only [helpers, nil_append, popChannelFromPath_single]
      nofun
    · have hpos := List.length_pos_iff.mpr hinit
      simp only [length_append, length_singleton] at hlen ⊢
      refine iff_of_true ?_ (by omega)
      simp only [helpers, popChannelFromPath_concat hinit (show init.length < 8 by omega), dropLast_concat,
        getLast?_concat]
      show some (pathOf init, ChannelId.fromRaw (toUint32 c).toNat) = _
      rw [fromRaw_toUint32]

theorem reverseLoop_aborts (fuel : Nat) (hlen : hops.length ≤ 8) (hne : hops ≠ []) (acc : U256) :
    (reverseLoop fuel (pathOf hops) acc).toOption = none := by
  induction fuel generalizing hops acc with
  | zero => rfl
  | succ fuel ih =>
    obtain ⟨init, c, rfl⟩ := (eq_nil_or_concat' hops).resolve_left hne
    rw [reverseLoop]
    by_cases hinit : init = []
    · subst hinit
      rw [nil_append, popChannelFromPath_single]
      rfl
    · simp only [length_append, length_singleton] at hlen
      rw [popChannelFromPath_concat hinit (by omega)]
      show ((updateChannelPath acc (toUint32 c)).bind fun next =>
        if pathOf init = 0 then .ok next else reverseLoop fuel (pathOf init) next).toOption = none
      cases updateChannelPath acc (toUint32 c) with
      | error abort => rfl
      | ok next =>
        show (if pathOf init = 0 then _ else _ : Result U256).toOption = none
        rw [if_neg (pathOf_ne_zero (by omega) hinit)]
        exact ih (by omega) hinit next

theorem helpers_reverse_iff (hlen : hops.length ≤ 8) :
    helpers.reverse (pathOf hops) = some (pathOf hops.reverse) ↔ hops = [] := by
  by_cases hne : hops = []
  · subst hne
    exact iff_of_true rfl rfl
  · refine iff_of_false ?_ hne
    show (reverseLoop 9 (pathOf hops) 0).toOption ≠ _
    rw [reverseLoop_aborts 9 hlen hne]
    nofun

/-! ## Salts -/

/-- The bits of the magic number that its own bytes, in the other order, do not have: a hash with
    these bits is recognised. -/
structure HasMissingBits (h : Bytes) : Prop where
  last : h.getD 31 0 &&& 0x40 = 0x40
  beforeLast : h.getD 30 0 &&& 0x44 = 0x44
  second : h.getD 1 0 &&& 0x20 = 0x20
  first : h.getD 0 0 &&& 0x3E = 0x3E

/-- The places of these bits: the byte, and the bit in it. -/
def missingBits : List (Nat × Nat) :=
    [(0, 1), (0, 2), (0, 3), (0, 4), (0, 5), (1, 5), (30, 2), (30, 6), (31, 6)]

theorem mem_missingBits_iff : ∀ k < 32, ∀ j < 8, (k, j) ∈ missingBits ↔
    FORWARD_SALT_MAGIC.toNat.testBit (8 * k + j) = true ∧
      FORWARD_SALT_MAGIC.toNat.testBit (8 * (31 - k) + j) = false := by
  decide

theorem and_eq_iff_bits : ∀ x : UInt8,
    (x &&& 0x40 = 0x40 ↔ x.toNat.testBit 6) ∧ (x &&& 0x44 = 0x44 ↔ x.toNat.testBit 2 ∧ x.toNat.testBit 6) ∧
      (x &&& 0x20 = 0x20 ↔ x.toNat.testBit 5) ∧
      (x &&& 0x3E = 0x3E ↔ x.toNat.testBit 1 ∧ x.toNat.testBit 2 ∧ x.toNat.testBit 3 ∧ x.toNat.testBit 4 ∧
        x.toNat.testBit 5) := by
  have hbytes : ∀ n < 256, (UInt8.ofNat n &&& 0x40 = 0x40 ↔ n.testBit 6) ∧
      (UInt8.ofNat n &&& 0x44 = 0x44 ↔ n.testBit 2 ∧ n.testBit 6) ∧
        (UInt8.ofNat n &&& 0x20 = 0x20 ↔ n.testBit 5) ∧
      (UInt8.ofNat n &&& 0x3E = 0x3E ↔ n.testBit 1 ∧ n.testBit 2 ∧ n.testBit 3 ∧ n.testBit 4 ∧
        n.testBit 5) := by
    decide +kernel
  intro x
  have hx := hbytes x.toNat x.toNat_lt
  rwa [UInt8.ofNat_toNat] at hx

theorem hasMissingBits_iff (h : Bytes) :
    HasMissingBits h ↔ ∀ p ∈ missingBits, (h.getD p.1 0).toNat.testBit p.2 = true := by
  have hlast := (and_eq_iff_bits (h.getD 31 0)).1
  have hbeforeLast := (and_eq_iff_bits (h.getD 30 0)).2.1
  have hsecond := (and_eq_iff_bits (h.getD 1 0)).2.2.1
  have hfirst := (and_eq_iff_bits (h.getD 0 0)).2.2.2
  simp only [missingBits, forall_mem_cons, not_mem_nil, false_implies, implies_true, and_true]
  constructor
  · rintro ⟨h31, h30, h1, h0⟩
    obtain ⟨b01, b02, b03, b04, b05⟩ := hfirst.mp h0
    obtain ⟨b302, b306⟩ := hbeforeLast.mp h30
    exact ⟨b01, b02, b03, b04, b05, hsecond.mp h1, b302, b306, hlast.mp h31⟩
  · rintro ⟨b01, b02, b03, b04, b05, b15, b302, b306, b316⟩
    exact ⟨hlast.mpr b316, hbeforeLast.mpr ⟨b302, b306⟩, hsecond.mpr b15,
      hfirst.mpr ⟨b01, b02, b03, b04, b05⟩⟩

theorem and_eq_iff (x m : U256) : x &&& m = m ↔
    ∀ k < 32, ∀ j < 8, m.toNat.testBit (8 * k + j) = true → x.toNat.testBit (8 * k + j) = true := by
  constructor
  · intro h k hk j hj hbit
    rw [← h, BitVec.toNat_and, Nat.testBit_and, Bool.and_eq_true] at hbit
    exact hbit.1
  · intro h
    apply BitVec.eq_of_toNat_eq
    apply Nat.eq_of_testBit_eq
    intro i
    rw [BitVec.toNat_and, Nat.testBit_and]
    cases hbit : m.toNat.testBit i with
    | false => rw [Bool.and_false]
    | true =>
      have hi : i < 256 := by
        by_contra hge
        rw [Nat.testBit_lt_two_pow
          (lt_of_lt_of_le m.isLt (Nat.pow_le_pow_right (by decide) (by omega)))] at hbit
        cases hbit
      have hsplit : 8 * (i / 8) + i % 8 = i := by omega
      have hx := h (i / 8) (by omega) (i % 8) (by omega)
      rw [hsplit] at hx
      rw [hx hbit, Bool.and_true]

variable {b : Bytes}

theorem peelU256_reverse (hb : b.length = 32) : peelU256 b.reverse = .ok (BitVec.ofNat 256 (beNat b)) := by
  have hlen : b.reverse.length = 32 := by rwa [length_reverse]
  have htake : b.reverse.take 32 = b.reverse := take_of_length_le (by omega)
  rw [peelU256, if_pos (by omega), htake, reverse_reverse]

theorem ofNat_beNat (hb : b.length = 32) : (BitVec.ofNat 256 (beNat b)).toNat = beNat b := by
  have hlt := beNat_lt b
  rw [hb] at hlt
  rw [BitVec.toNat_ofNat, Nat.mod_eq_of_lt (lt_of_lt_of_eq hlt (by decide))]

theorem tinted_testBit (s : U256) {i : Nat} (hi : i < 256) :
    (FORWARD_SALT_MAGIC ||| (s &&& ~~~FORWARD_SALT_MAGIC)).toNat.testBit i =
      (FORWARD_SALT_MAGIC.toNat.testBit i || s.toNat.testBit i) := by
  rw [BitVec.testBit_toNat, BitVec.testBit_toNat, BitVec.testBit_toNat, BitVec.getLsbD_or, BitVec.getLsbD_and,
    BitVec.getLsbD_not]
  cases FORWARD_SALT_MAGIC.getLsbD i <;> simp [hi]

theorem reread_testBit {h : Bytes} (hh : h.length = 32) {tinted : Nat} (htinted : tinted < 2 ^ 256)
    (hbits : ∀ i < 256, tinted.testBit i = (FORWARD_SALT_MAGIC.toNat.testBit i || (beNat h).testBit i))
    {k j : Nat} (hk : k < 32) (hj : j < 8) : (beNat (leBytes 32 tinted)).testBit (8 * k + j) =
      (FORWARD_SALT_MAGIC.toNat.testBit (8 * (31 - k) + j) || (h.getD k 0).toNat.testBit j) := by
  have hword : (beBytes 32 tinted).length = 32 := beBytes_length 32 tinted
  have hfits : tinted < 256 ^ 32 := lt_of_lt_of_eq htinted (by decide)
  have hopposite := reverse_getD (b := beBytes 32 tinted) (k := k) (by omega)
  have hback := reverse_getD (b := h) (k := k) (by omega)
  rw [hword] at hopposite
  rw [hh] at hback
  rw [leBytes, beNat_reverse_testBit _ _ hj, ← hopposite, ← hback]
  show ((beBytes 32 tinted).reverse.getD (31 - k) 0).toNat.testBit j = _
  rw [← beNat_testBit _ _ hj, beNat_beBytes 32 hfits, hbits _ (by omega), beNat_testBit _ _ hj]

/-- The salt as the helper computes it, before its bytes are taken. -/
def tinted (h : Bytes) : U256 := FORWARD_SALT_MAGIC ||| (BitVec.ofNat 256 (beNat h) &&& ~~~FORWARD_SALT_MAGIC)

theorem deriveForwardSalt_eq (env : Env) (salt : Bytes) (hkeccak : (env.keccak256 salt).length = 32) :
    deriveForwardSalt env salt = .ok (leBytes 32 (tinted (env.keccak256 salt)).toNat) := by
  unfold deriveForwardSalt tintForwardSalt
  rw [peelU256_reverse hkeccak]
  rfl

theorem isForwardedPacket_iff (hb : b.length = 32) :
    isForwardedPacket b = .ok true ↔ BitVec.ofNat 256 (beNat b) &&& FORWARD_SALT_MAGIC =
      FORWARD_SALT_MAGIC := by
  unfold isForwardedPacket
  rw [peelU256_reverse hb]
  simp only [bind, Except.bind, pure, Except.pure, Except.ok.injEq, beq_iff_eq]

theorem isForwardedPacket_derive_iff (env : Env) (salt : Bytes) (hkeccak : (env.keccak256 salt).length = 32) :
    (deriveForwardSalt env salt).bind isForwardedPacket = .ok true ↔ HasMissingBits (env.keccak256 salt) := by
  have hlen : (leBytes 32 (tinted (env.keccak256 salt)).toNat).length = 32 := by
    rw [leBytes, length_reverse, beBytes_length]
  have hbits : ∀ i < 256, (tinted (env.keccak256 salt)).toNat.testBit i =
      (FORWARD_SALT_MAGIC.toNat.testBit i || (beNat (env.keccak256 salt)).testBit i) := by
    intro i hi
    rw [tinted, tinted_testBit _ hi, ofNat_beNat hkeccak]
  have hfits := (tinted (env.keccak256 salt)).isLt
  rw [deriveForwardSalt_eq env salt hkeccak, Except.bind, isForwardedPacket_iff hlen, and_eq_iff,
    hasMissingBits_iff, ofNat_beNat hlen]
  constructor
  · rintro hall ⟨k, j⟩ hmem
    have hplaces : ∀ p ∈ missingBits, p.1 < 32 ∧ p.2 < 8 := by decide
    obtain ⟨hk, hj⟩ := hplaces _ hmem
    obtain ⟨hmagic, hmissing⟩ := (mem_missingBits_iff k hk j hj).mp hmem
    have hbit := hall k hk j hj hmagic
    rwa [reread_testBit hkeccak hfits hbits hk hj, hmissing, Bool.false_or] at hbit
  · intro hhash k hk j hj hmagic
    rw [reread_testBit hkeccak hfits hbits hk hj]
    cases hopposite : FORWARD_SALT_MAGIC.toNat.testBit (8 * (31 - k) + j) with
    | true => rfl
    | false => exact hhash (k, j) ((mem_missingBits_iff k hk j hj).mpr ⟨hmagic, hopposite⟩)

/-! ## All helpers -/

/-- What the helpers should do on a list of at most eight ids. -/
structure HelperLaws (hops : List ChannelId) : Prop where
  folds : hops.foldlM helpers.update 0 = some (pathOf hops)
  same : hops.foldlM helpers.update 0 = hops.foldlM cosmwasm.update 0
  dequeues : helpers.dequeue (pathOf hops) = some (pathOf hops.tail, hops.head?)
  pops : helpers.pop (pathOf hops) = some (pathOf hops.dropLast, hops.getLast?)
  reverses : helpers.reverse (pathOf hops) = some (pathOf hops.reverse)
  full : hops.length = 8 → ∀ c, helpers.update (pathOf hops) c = none

/-- **The laws hold together on the empty list alone.**  Each function that takes hops off keeps its
own on the lists named here, and a derived salt is recognised when the hash is `HasMissingBits`. -/
theorem helper_laws_iff (env : Env) (hkeccak : ∀ b, (env.keccak256 b).length = 32)
    (hops : List ChannelId) (hlen : hops.length ≤ 8) (salt : Bytes) :
    (HelperLaws hops ↔ hops = []) ∧
      hops.foldlM helpers.update 0 = some (pathOf hops) ∧
      (hops.foldlM helpers.update 0 = hops.foldlM cosmwasm.update 0 ↔ SmallIds hops.dropLast) ∧
      (helpers.dequeue (pathOf hops) = some (pathOf hops.tail, hops.head?) ↔ hops.length ≤ 1) ∧
      (helpers.pop (pathOf hops) = some (pathOf hops.dropLast, hops.getLast?) ↔ hops.length ≠ 1) ∧
      (helpers.reverse (pathOf hops) = some (pathOf hops.reverse) ↔ hops = []) ∧
      (hops.length = 8 → ∀ c, helpers.update (pathOf hops) c = none) ∧
      ((deriveForwardSalt env salt).bind isForwardedPacket = .ok true ↔
        HasMissingBits (env.keccak256 salt)) := by
  have hsolidity := solidity_laws hlen
  have hfolds : hops.foldlM helpers.update 0 = some (pathOf hops) := by
    rw [helpers_update]
    exact hsolidity.folds
  have hfull : hops.length = 8 → ∀ c, helpers.update (pathOf hops) c = none := by
    rw [helpers_update]
    exact hsolidity.full
  have hsame : hops.foldlM helpers.update 0 = hops.foldlM cosmwasm.update 0 ↔ SmallIds hops.dropLast := by
    rw [hfolds, eq_comm]
    exact cosmwasm_folds_iff hlen
  have hreverse := helpers_reverse_iff hlen
  refine ⟨⟨fun h => hreverse.mp h.reverses, ?_⟩, hfolds, hsame, helpers_dequeue_iff hlen,
    helpers_pop_iff hlen, hreverse, hfull, isForwardedPacket_derive_iff env salt (hkeccak salt)⟩
  rintro rfl
  exact ⟨hfolds, rfl, rfl, rfl, rfl, hfull⟩

namespace Sample

/-- `keccak256` of 32 zero bytes. -/
def digest : Bytes :=
  [41, 13, 236, 217, 84, 139, 98, 168, 214, 3, 69, 169, 136, 56, 111, 200, 75, 166, 188, 149, 72,
    64, 8, 246, 54, 47, 147, 22, 14, 243, 229, 99]

def digestEnv : Env where
  keccak256 := fun _ => digest
  commitPacket := fun _ => []
  batchPacketsCommitmentKey := id
  batchReceiptsCommitmentKey := id
  decodeTokenMetadata := fun _ => none
  decodeSolverMetadata := fun _ => none
  decodeSuiTokenMetadata := fun _ => none
  misread := fun _ _ _ => none

end Sample

open Sample Zkgm.Sample in
theorem helper_laws_two : ¬ HelperLaws [one, one] ∧
      helpers.pop (pathOf [one, one]) = some (pathOf [one], some one) ∧
      helpers.dequeue (pathOf [one]) = some (0, some one) ∧
      (deriveForwardSalt digestEnv (replicate 32 0)).bind isForwardedPacket ≠ .ok true := by
  have hkeccak : ∀ b, (digestEnv.keccak256 b).length = 32 := fun _ => rfl
  obtain ⟨hlaws, -, -, -, hpop, -, -, hsalt⟩ :=
    helper_laws_iff digestEnv hkeccak [one, one] (by decide) (replicate 32 0)
  obtain ⟨-, -, -, hdequeue, -⟩ := helper_laws_iff digestEnv hkeccak [one] (by decide) []
  refine ⟨fun h => absurd (hlaws.mp h) (by decide), hpop.mpr (by decide), hdequeue.mpr (by decide),
    fun h => ?_⟩
  exact absurd (hsalt.mp h).first (by decide)

open Sample Zkgm.Sample in
/-- Two ids cannot be dequeued or reversed, one cannot be popped, and the salt derived from 32 zero
    bytes is not recognised. -/
theorem two_hops_abort : dequeueChannelFromPath (pathOf [one, one]) = .error .arithmetic ∧
      popChannelFromPath (pathOf [one]) = .error .arithmetic ∧
      reverseChannelPath (pathOf [one, one]) = .error .arithmetic ∧
      (deriveForwardSalt digestEnv (replicate 32 0)).bind isForwardedPacket = .ok false := by
  decide +kernel

end UnionVoyager.Sui
