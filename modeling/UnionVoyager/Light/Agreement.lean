import UnionVoyager.Light.PublicInput

/-!
# The four encodings of the public input agree

* `unpackBytes_eq` — the bytes the circuit takes of a value are those of its number.
* `goInputs_eq`, `rustInputs_eq`, `solInputs_eq`, `circuitInputs_eq` — each encoding hashes the same words.
* `verifyInputs_iff` — the circuit admits one public input below `2 ^ 248`.
-/

namespace UnionVoyager.Light.CometBls

open Lib Gnark Function List

/-! ## Bytes of a field element -/

theorem fromBinary_bits (v : Nat) : ∀ m k : Nat,
    fromBinary ((List.range m).map fun j => if v.testBit (k + j) then (1 : F) else 0) =
      ((v / 2 ^ k % 2 ^ m : Nat) : F) := by
  intro m
  induction m with
  | zero =>
    intro k
    rw [Nat.pow_zero, Nat.mod_one]
    rfl
  | succ m ih =>
    intro k
    have htail : ((List.range m).map fun j => if v.testBit (k + (j + 1)) then (1 : F) else 0)
        = (List.range m).map fun j => if v.testBit (k + 1 + j) then (1 : F) else 0 := by
      apply map_congr_left
      intro j _
      rw [show k + (j + 1) = k + 1 + j by omega]
    have hbit : (if v.testBit k then (1 : F) else 0) = ((v / 2 ^ k % 2 : Nat) : F) := by
      rw [Nat.testBit_eq_decide_div_mod_eq]
      rcases Nat.mod_two_eq_zero_or_one (v / 2 ^ k) with h | h
      · rw [h]
        rfl
      · rw [h]
        rfl
    have hsplit : v / 2 ^ k % 2 ^ (m + 1) = v / 2 ^ k % 2 + 2 * (v / 2 ^ (k + 1) % 2 ^ m) := by
      rw [Nat.pow_succ, Nat.mul_comm, Nat.mod_mul, Nat.div_div_eq_div_mul, ← Nat.pow_succ]
    rw [range_succ_eq_map, map_cons, map_map, fromBinary, foldr_cons]
    have hih := ih (k + 1)
    rw [fromBinary] at hih
    simp only [comp_def, Nat.add_zero, Nat.succ_eq_add_one]
    rw [htail, hih, hbit, hsplit]
    push_cast
    rfl

variable {n : Nat}

theorem take_drop_toBinary (x : F) {a m : Nat} (h : a + m ≤ n) :
    ((toBinary x n).drop a).take m = (List.range m).map fun j =>
      if x.val.testBit (a + j) then (1 : F) else 0 := by
  apply ext_getElem?
  intro j
  rw [getElem?_take, toBinary, getElem?_drop, getElem?_map, getElem?_map]
  by_cases hj : j < m
  · rw [if_pos hj, getElem?_range hj, getElem?_range (by omega)]
    rfl
  · rw [if_neg hj, getElem?_eq_none (by simpa using hj)]
    rfl

theorem unpack_bytes (x : F) (w : Nat) :
    unpack x (8 * w) 8 = (List.range w).map fun i => ((x.val / 256 ^ i % 256 : Nat) : F) := by
  rw [unpack, if_neg (by decide), repack, Nat.mul_div_cancel_left w (by decide)]
  apply map_congr_left
  intro i hi
  rw [mem_range] at hi
  rw [take_drop_toBinary x (by omega), fromBinary_bits, Nat.mul_comm i 8, Nat.pow_mul]
  rfl

theorem beBytes_eq (w n : Nat) : beBytes w n =
      ((List.range w).map fun i => UInt8.ofNat (n / 256 ^ i % 256)).reverse := by
  induction w generalizing n with
  | zero => rfl
  | succ w ih =>
    rw [beBytes, ih, range_succ_eq_map, map_cons, reverse_cons, map_map]
    congr 2
    · apply map_congr_left
      intro i _
      simp only [comp_def, Nat.succ_eq_add_one]
      rw [Nat.div_div_eq_div_mul, Nat.pow_succ, Nat.mul_comm 256]
    · rw [Nat.pow_zero, Nat.div_one]
      apply UInt8.toNat_inj.mp
      simp

theorem toBytes_unpack (x : F) (w : Nat) : toBytes (unpack x (8 * w) 8).reverse = beBytes w x.val := by
  rw [toBytes, map_reverse, unpack_bytes, map_map, beBytes_eq]
  congr 1
  apply map_congr_left
  intro i _
  have hlt : x.val / 256 ^ i % 256 < R := Nat.lt_trans (Nat.mod_lt _ (by decide)) (by decide)
  simp only [comp_def]
  rw [ZMod.val_natCast_of_lt hlt]

theorem unpackBytes_eq (x : F) : unpackBytes x = beBytes 32 x.val := toBytes_unpack x 32

theorem unpackHash_eq (x : UnconsHash) : unpackHash x = beBytes 1 x.head.val ++ beBytes 31 x.tail.val := by
  have hhead : (unpack x.head 8 8).take 1 = unpack x.head (8 * 1) 8 := by
    rw [show unpack x.head 8 8 = unpack x.head (8 * 1) 8 from rfl, unpack_bytes]
    rfl
  rw [unpackHash, hhead, reverse_append, toBytes, map_append, ← toBytes, ← toBytes,
    toBytes_unpack x.head 1, show unpack x.tail 248 8 = unpack x.tail (8 * 31) 8 from rfl, toBytes_unpack]

/-! ## The words each encoding hashes -/

theorem beNat_zeros (v : Nat) (b : Bytes) : beNat (replicate v 0 ++ b) = beNat b := by
  have hzeros : ∀ v, beNat (replicate v 0) = 0 := by
    intro v
    induction v with
    | zero => rfl
    | succ v ih =>
      rw [replicate_succ', beNat_concat, ih]
      rfl
  rw [beNat, foldl_append]
  have := hzeros v
  rw [beNat] at this
  rw [this]
  rfl

theorem Word.eq_beBytes (w : Word) : beBytes 32 (beNat w.val) = w.val := by
  have := beBytes_beNat w.val
  rwa [w.property] at this

theorem Word.beNat_lt (w : Word) : beNat w.val < 256 ^ 32 := by
  have := Lib.beNat_lt w.val
  rwa [w.property] at this

theorem ChainId.beNat_lt (c : ChainId) : beNat c.bytes < 256 ^ 31 := by
  have h := Lib.beNat_lt c.bytes
  exact Nat.lt_of_lt_of_le h (Nat.pow_le_pow_right (by decide) c.length_le)

/-- The eight words of a header with its chain id and trusted validators. -/
def inputWords (chainId : Nat) (height secs nanos : Nat)
    (validatorsHash nextValidatorsHash appHash trusted : Word) : Bytes :=
  beBytes 32 chainId ++ beBytes 32 height ++ beBytes 32 secs ++ beBytes 32 nanos ++ validatorsHash.val ++
    nextValidatorsHash.val ++ appHash.val ++ trusted.val

def LightHeader.words (h : LightHeader) (chainId : ChainId) (trusted : Word) : Bytes :=
  inputWords (beNat chainId.bytes) h.height.inner h.time.seconds.toNat h.time.nanos.toNat h.validatorsHash
    h.nextValidatorsHash h.appHash trusted

theorem fillBytes_nat (h : n < 256 ^ 32) : fillBytes (n : Int) = some (beBytes 32 n) := by
  rw [fillBytes, Int.natAbs_natCast, if_pos h]

theorem LightHeader.nanos_lt (h : LightHeader) : 0 ≤ h.time.nanos ∧ h.time.nanos < 2 ^ 30 := by
  have := h.time.nanos_bounds
  simp only [NANOS_MAX, NANOS_PER_SECOND] at this
  omega

theorem LightHeader.seconds_lt (h : LightHeader) : -2 ^ 36 < h.time.seconds ∧ h.time.seconds < 2 ^ 38 := by
  have := h.time.seconds_bounds
  simp only [TIMESTAMP_SECONDS_MIN, TIMESTAMP_SECONDS_MAX] at this
  omega

theorem goInputs_isSome (chainId : ChainId) (h : LightHeader) (trusted : Word) :
    ∃ b, goInputs chainId.bytes h.toGo trusted.val = some b := by
  have hfill : ∀ x : Int, x.natAbs < 256 ^ 32 → fillBytes x = some (beBytes 32 x.natAbs) := by
    intro x hx
    rw [fillBytes, if_pos hx]
  have hchain := chainId.beNat_lt
  have hheight := h.height.lt
  have hsecs := h.seconds_lt
  have hnanos := h.nanos_lt
  have hv := h.validatorsHash.beNat_lt
  have hn := h.nextValidatorsHash.beNat_lt
  have ht := trusted.beNat_lt
  simp only [goInputs, LightHeader.toGo]
  rw [hfill _ (by omega), hfill _ (by omega), hfill _ (by omega), hfill _ (by omega), hfill _ (by omega),
    hfill _ (by omega), hfill _ (by omega)]
  exact ⟨_, rfl⟩

variable {h : LightHeader}

theorem goInputs_eq (hsecs : 0 ≤ h.time.seconds) (chainId : ChainId) (trusted : Word) :
    goInputs chainId.bytes h.toGo trusted.val = some (h.words chainId trusted) := by
  have hchain := chainId.beNat_lt
  have hheight := h.height.lt
  have hs := h.seconds_lt
  have hn := h.nanos_lt
  have hsecsNat : h.time.seconds = (h.time.seconds.toNat : Int) := (Int.toNat_of_nonneg hsecs).symm
  have hnanosNat : h.time.nanos = (h.time.nanos.toNat : Int) := (Int.toNat_of_nonneg hn.1).symm
  simp only [goInputs, LightHeader.toGo]
  rw [hsecsNat, hnanosNat, fillBytes_nat (by omega), fillBytes_nat (by omega), fillBytes_nat (by omega),
    fillBytes_nat (by omega), fillBytes_nat h.validatorsHash.beNat_lt,
      fillBytes_nat h.nextValidatorsHash.beNat_lt,
    fillBytes_nat trusted.beNat_lt, Word.eq_beBytes, Word.eq_beBytes, Word.eq_beBytes]
  rfl

theorem chainId_word (c : ChainId) : replicate (32 - c.bytes.length) 0 ++ c.bytes = beBytes 32
    (beNat c.bytes) := by
  have hlen : c.bytes.length ≤ 31 := c.length_le
  have hpad := beBytes_add c.bytes.length (32 - c.bytes.length) (Lib.beNat_lt c.bytes)
  rw [beBytes_beNat, Nat.sub_add_cancel (by omega)] at hpad
  exact hpad.symm

theorem rustInputs_eq (hsecs : 0 ≤ h.time.seconds) (chainId : ChainId) (trusted : Word) :
    rustInputs chainId trusted h = .ok (h.words chainId trusted) := by
  have hlen : chainId.bytes.length ≤ 31 := chainId.length_le
  have hheight := h.height.lt
  have hs := h.seconds_lt
  have hn := h.nanos_lt
  have hword : ∀ (x : Int) (e : Error), 0 ≤ x → x < 2 ^ 64 → u64Word x e = .ok (beBytes 32 x.toNat) := by
    intro x e h₁ h₂
    rw [u64Word, if_pos ⟨h₁, h₂⟩]
  rw [rustInputs, ensure, if_pos (by omega), hword _ _ (by omega) (by omega), hword _ _ hsecs (by omega),
    hword _ _ hn.1 (by omega), chainId_word]
  rfl

theorem rustInputs_error (hsecs : h.time.seconds < 0) (chainId : ChainId) (trusted : Word) :
    rustInputs chainId trusted h = .error .invalidTimestamp := by
  have hlen : chainId.bytes.length ≤ 31 := chainId.length_le
  have hheight := h.height.lt
  have hword : u64Word (h.height.inner : Int) .invalidHeight = .ok (beBytes 32 h.height.inner) := by
    rw [u64Word, if_pos (by omega)]
    rfl
  have hrefused : u64Word h.time.seconds .invalidTimestamp = .error .invalidTimestamp := by
    rw [u64Word, if_neg (by omega)]
  rw [rustInputs, ensure, if_pos (by omega), hword, hrefused]
  rfl

theorem solInputs_eq (hsecs : 0 ≤ h.time.seconds) (chainId : ChainId) (trusted : Word) :
    solInputs chainId.intoFixedBytes trusted h.toSol = h.words chainId trusted := by
  have hheight := h.height.lt
  have hs := h.seconds_lt
  have hn := h.nanos_lt
  have hu64 : ∀ n : Nat, n < 2 ^ 64 → (UInt64.ofNat n).toNat = n := by
    intro n hlt
    rw [UInt64.toNat_ofNat']
    exact Nat.mod_eq_of_lt hlt
  simp only [solInputs, LightHeader.toSol, ChainId.intoFixedBytes]
  rw [beNat_zeros, hu64 _ (by omega), hu64 _ (by omega), hu64 _ (by omega)]
  rfl

/-- A hash that is a field element. -/
def Word.IsElement (w : Word) : Prop := beNat w.val < R

theorem unpackBytes_assign {w : Word} (h : w.IsElement) : unpackBytes (assignBytes w.val) = w.val := by
  rw [unpackBytes_eq, assignBytes, ZMod.val_natCast_of_lt h, w.eq_beBytes]

theorem unpackHash_uncons (w : Word) : unpackHash (uncons w.val) = w.val := by
  obtain ⟨b, hb⟩ := w
  match b, hb with
  | x :: t, hb =>
    have hlen : t.length = 31 := by simpa using hb
    have ht := Lib.beNat_lt t
    rw [hlen] at ht
    have hhead : (((x.toNat : Nat) : F)).val = x.toNat :=
      ZMod.val_natCast_of_lt (Nat.lt_trans x.toNat_lt (by decide))
    have htail : (((beNat t : Nat) : F)).val = beNat t := ZMod.val_natCast_of_lt (Nat.lt_trans ht (by decide))
    have hbytes := beBytes_beNat t
    rw [hlen] at hbytes
    rw [unpackHash_eq]
    simp only [uncons, assignBytes, headD_cons, tail_cons]
    rw [hhead, htail, hbytes]
    simp [beBytes]

variable {trusted : Word}

theorem circuitInputs_eq (hsecs : 0 ≤ h.time.seconds) (chainId : ChainId) (hv : h.validatorsHash.IsElement)
    (hn : h.nextValidatorsHash.IsElement) (ht : trusted.IsElement) (other : BlockHeader) :
    (assignHeader chainId.bytes h.toGo other).inputs (assignBytes trusted.val) = h.words chainId trusted := by
  have hchain := chainId.beNat_lt
  have hheight := h.height.lt
  have hs := h.seconds_lt
  have hnan := h.nanos_lt
  have hnat : ∀ n : Nat, n < 256 ^ 31 → unpackBytes ((n : Nat) : F) = beBytes 32 n := by
    intro n hlt
    rw [unpackBytes_eq, ZMod.val_natCast_of_lt (Nat.lt_trans hlt (by decide))]
  have hint : ∀ x : Int, 0 ≤ x → x < 2 ^ 64 → unpackBytes ((x : Int) : F) = beBytes 32 x.toNat := by
    intro x h₁ h₂
    have hcast : ((x : Int) : F) = ((x.toNat : Nat) : F) := by
      conv_lhs => rw [← Int.toNat_of_nonneg h₁]
      rw [Int.cast_natCast]
    rw [hcast, hnat _ (by omega)]
  simp only [BlockHeader.inputs, assignHeader, LightHeader.toGo]
  rw [unpackBytes_assign hv, unpackBytes_assign hn, unpackBytes_assign ht, unpackHash_uncons,
    hint _ hsecs (by omega),
    hint _ hnan.1 (by omega), hint _ (by omega) (by omega), assignBytes, hnat _ hchain]
  rfl

/-! ## The truncated hash -/

/-- The hash without its most significant byte. -/
def truncated (sha256 : Bytes → Bytes) (b : Bytes) : Bytes := (sha256 b).drop 1

variable {x : F}

section Truncated

variable {hash : Bytes} (hlen : hash.length = 32)

include hlen

theorem beNat_drop_lt : beNat (hash.drop 1) < 256 ^ 31 := by
  have h := Lib.beNat_lt (hash.drop 1)
  rwa [length_drop, hlen] at h

theorem beNat_set_zero : beNat (hash.set 0 0) = beNat (hash.drop 1) := by
  match hash, hlen with
  | x :: t, _ => exact beNat_zeros 1 t

theorem assignBytes_drop_val : (assignBytes (hash.drop 1)).val = beNat (hash.drop 1) :=
  ZMod.val_natCast_of_lt (Nat.lt_trans (beNat_drop_lt hlen) (by decide))

theorem decodeScalar_set_zero : decodeScalar (beNat (hash.set 0 0)) = .ok (assignBytes (hash.drop 1)) := by
  have hlt : beNat (hash.drop 1) < R := Nat.lt_trans (beNat_drop_lt hlen) (by decide)
  rw [beNat_set_zero hlen, decodeScalar, if_pos hlt]
  rfl

theorem bytes_agree_iff (hx : x.val < 256 ^ 31) :
    (∀ i, 1 ≤ i → i < 32 → (unpackBytes x)[i]? = hash[i]?) ↔ x = assignBytes (hash.drop 1) := by
  have hx' : unpackBytes x = 0 :: beBytes 31 x.val := by
    rw [unpackBytes_eq, show 32 = 1 + 31 by rfl, beBytes_add 31 1 hx, replicate_one, singleton_append]
  have hdrop : (hash.drop 1).length = 31 := by rw [length_drop, hlen]
  constructor
  · intro h
    have htail : beBytes 31 x.val = hash.drop 1 := by
      apply ext_getElem?
      intro i
      by_cases hi : i < 31
      · have hbyte := h (i + 1) (by omega) (by omega)
        rw [hx', getElem?_cons_succ] at hbyte
        rw [hbyte, getElem?_drop, Nat.add_comm]
      · rw [getElem?_eq_none (by simpa using hi), getElem?_eq_none (by omega)]
    have hval : x.val = beNat (hash.drop 1) := by rw [← htail, beNat_beBytes 31 hx]
    rw [assignBytes, ← hval, ZMod.natCast_zmod_val]
  · rintro rfl i h₁ h₂
    rw [assignBytes_drop_val hlen] at hx'
    have hbytes := beBytes_beNat (hash.drop 1)
    rw [hdrop] at hbytes
    rw [hx', hbytes]
    match i, h₁ with
    | i + 1, _ => rw [getElem?_cons_succ, getElem?_drop, Nat.add_comm]

end Truncated

/-! ## Agreement -/

section Agreement

variable {sha256 : Bytes → Bytes} (hsha : ∀ b, (sha256 b).length = 32)

include hsha

theorem truncated_val_lt (b : Bytes) : (assignBytes (truncated sha256 b)).val < 256 ^ 31 := by
  rw [truncated, assignBytes_drop_val (hsha b)]
  exact beNat_drop_lt (hsha b)

theorem truncated_inj {a b : Bytes}
    (h : assignBytes (truncated sha256 a) = assignBytes (truncated sha256 b)) :
    truncated sha256 a = truncated sha256 b := by
  have hval : beNat (truncated sha256 a) = beNat (truncated sha256 b) := by
    rw [truncated, truncated, ← assignBytes_drop_val (hsha a), ← assignBytes_drop_val (hsha b)]
    exact congrArg ZMod.val h
  have hlen : ∀ b, (truncated sha256 b).length = 31 := by
    intro b
    rw [truncated, length_drop, hsha]
  have ha := beBytes_beNat (truncated sha256 a)
  have hb := beBytes_beNat (truncated sha256 b)
  rw [hlen] at ha hb
  rw [← ha, ← hb, hval]

theorem publicInputs_eq (hsecs : 0 ≤ h.time.seconds) (chainId : ChainId) (trusted : Word)
    (commitmentHash : Except Error Nat) : publicInputs sha256 chainId trusted h commitmentHash = (do
      let c ← commitmentHash
      pure (assignBytes (truncated sha256 (h.words chainId trusted)), ← decodeScalar c)) := by
  cases commitmentHash with
  | error e => rfl
  | ok c =>
    have hscalar := decodeScalar_set_zero (hsha (h.words chainId trusted))
    simp only [publicInputs, rustInputs_eq hsecs, bind, Except.bind, hscalar]
    rfl

theorem verifyInputs_iff (header : BlockHeader) (root : F) (hx : x.val < 256 ^ 31) :
    VerifyInputs sha256 header x root ↔ (FitsIn header.appHash.head 8 ∧ FitsIn header.appHash.tail 248) ∧
      x = assignBytes (truncated sha256 (header.inputs root)) := by
  rw [truncated, ← bytes_agree_iff (hsha _) hx]
  constructor
  · intro h
    exact ⟨⟨h.appHashHead, h.appHashTail⟩, h.bytes⟩
  · rintro ⟨⟨h₁, h₂⟩, h₃⟩
    exact ⟨h₁, h₂, h₃⟩

end Agreement

/-! ## Binding -/

theorem inputWords_flatten (chainId height secs nanos : Nat) (v n a t : Word) :
    inputWords chainId height secs nanos v n a t =
      [beBytes 32 chainId, beBytes 32 height, beBytes 32 secs, beBytes 32 nanos, v.val, n.val,
        a.val, t.val].flatten := by
  simp [inputWords]

theorem inputs_flatten (header : BlockHeader) (root : F) :
    header.inputs root = [unpackBytes header.chainID, unpackBytes header.height, unpackBytes header.timeSecs,
      unpackBytes header.timeNanos, unpackBytes header.validatorsHash, unpackBytes header.nextValidatorsHash,
      unpackHash header.appHash, unpackBytes root].flatten := by
  simp [BlockHeader.inputs]

theorem inputWords_length (chainId height secs nanos : Nat) (v n a t : Word) :
    ∀ x ∈ [beBytes 32 chainId, beBytes 32 height, beBytes 32 secs, beBytes 32 nanos, v.val, n.val,
      a.val, t.val], x.length = 32 := by
  simp [v.property, n.property, a.property, t.property]

theorem inputs_length (header : BlockHeader) (root : F) :
    ∀ x ∈ [unpackBytes header.chainID, unpackBytes header.height, unpackBytes header.timeSecs,
      unpackBytes header.timeNanos, unpackBytes header.validatorsHash, unpackBytes header.nextValidatorsHash,
      unpackHash header.appHash, unpackBytes root], x.length = 32 := by
  simp [unpackBytes_eq, unpackHash_eq]

theorem inputWords_inj {c c' h h' s s' n' : Nat} {v v' nv nv' a a' t t' : Word}
    (hc : c < 256 ^ 32 ∧ c' < 256 ^ 32)
    (hh : h < 256 ^ 32 ∧ h' < 256 ^ 32) (hs : s < 256 ^ 32 ∧ s' < 256 ^ 32)
      (hn : n < 256 ^ 32 ∧ n' < 256 ^ 32)
    (heq : inputWords c h s n v nv a t = inputWords c' h' s' n' v' nv' a' t') :
    (c = c' ∧ h = h' ∧ s = s' ∧ n = n') ∧ v = v' ∧ nv = nv' ∧ a = a' ∧ t = t' := by
  rw [inputWords_flatten, inputWords_flatten] at heq
  have hwords := flatten_inj (inputWords_length c h s n v nv a t) (inputWords_length c' h' s' n' v' nv' a' t')
    (by simp only [length_cons]) heq
  simp only [List.cons.injEq, and_true] at hwords
  obtain ⟨h₁, h₂, h₃, h₄, h₅, h₆, h₇, h₈⟩ := hwords
  exact ⟨⟨beBytes_inj 32 hc.1 hc.2 h₁, beBytes_inj 32 hh.1 hh.2 h₂, beBytes_inj 32 hs.1 hs.2 h₃,
    beBytes_inj 32 hn.1 hn.2 h₄⟩, Subtype.ext h₅, Subtype.ext h₆, Subtype.ext h₇, Subtype.ext h₈⟩

theorem isElement_of_unpackBytes {w : Word} (h : unpackBytes x = w.val) : w.IsElement := by
  have hlt : x.val < R := ZMod.val_lt x
  have hval : beNat w.val = x.val := by
    rw [← h, unpackBytes_eq]
    exact beNat_beBytes 32 (Nat.lt_trans hlt (by decide))
  rw [Word.IsElement, hval]
  exact hlt

theorem isElement_of_inputs {header : BlockHeader} {root : F} {chainId : ChainId}
    (heq : header.inputs root = h.words chainId trusted) :
    h.validatorsHash.IsElement ∧ h.nextValidatorsHash.IsElement ∧ trusted.IsElement := by
  rw [inputs_flatten, LightHeader.words, inputWords_flatten] at heq
  have hwords := flatten_inj (inputs_length header root) (inputWords_length _ _ _ _ _ _ _ _)
    (by simp only [length_cons]) heq
  simp only [List.cons.injEq, and_true] at hwords
  obtain ⟨-, -, -, -, hv, hn, -, ht⟩ := hwords
  exact ⟨isElement_of_unpackBytes hv, isElement_of_unpackBytes hn, isElement_of_unpackBytes ht⟩

/-- No two of these byte strings collide under the truncated hash. -/
def NoCollision (sha256 : Bytes → Bytes) (s : Set Bytes) : Prop := Set.InjOn (truncated sha256) s

theorem NoCollision.eq {sha256 : Bytes → Bytes} (hsha : ∀ b, (sha256 b).length = 32) {a b : Bytes}
    (h : NoCollision sha256 {a, b})
    (heq : assignBytes (truncated sha256 a) = assignBytes (truncated sha256 b)) : a = b :=
  h (Set.mem_insert a _) (Set.mem_insert_of_mem a rfl) (truncated_inj hsha heq)

theorem words_inj {chainId chainId' : ChainId} {h' : LightHeader} {trusted' : Word}
    (hsecs : 0 ≤ h.time.seconds)
    (hsecs' : 0 ≤ h'.time.seconds) (heq : h.words chainId trusted = h'.words chainId' trusted') :
    chainId.intoFixedBytes = chainId'.intoFixedBytes ∧ h = h' ∧ trusted = trusted' := by
  have hlt : ∀ (c : ChainId) (h : LightHeader), beNat c.bytes < 256 ^ 32 ∧ h.height.inner < 256 ^ 32 ∧
      h.time.seconds.toNat < 256 ^ 32 ∧ h.time.nanos.toNat < 256 ^ 32 := by
    intro c h
    have h₁ := c.beNat_lt
    have h₂ := h.height.lt
    have h₃ := h.seconds_lt
    have h₄ := h.nanos_lt
    omega
  obtain ⟨a₁, a₂, a₃, a₄⟩ := hlt chainId h
  obtain ⟨b₁, b₂, b₃, b₄⟩ := hlt chainId' h'
  obtain ⟨⟨hc, hh, hs, hn⟩, hv, hnv, ha, ht⟩ := inputWords_inj ⟨a₁, b₁⟩ ⟨a₂, b₂⟩ ⟨a₃, b₃⟩ ⟨a₄, b₄⟩ heq
  refine ⟨?_, ?_, ht⟩
  · -- a fixed chain id is the last 31 bytes of its word
    have hfixed : ∀ c : ChainId, c.intoFixedBytes = beBytes 31 (beNat c.bytes) := by
      intro c
      have hlen : c.bytes.length ≤ 31 := c.length_le
      have hpad := beBytes_add c.bytes.length (31 - c.bytes.length) (Lib.beNat_lt c.bytes)
      rw [beBytes_beNat, Nat.sub_add_cancel (by omega)] at hpad
      exact hpad.symm
    rw [hfixed, hfixed, hc]
  · obtain ⟨⟨height, _⟩, ⟨secs, nanos, _, hnanos⟩, v, n, a⟩ := h
    obtain ⟨⟨height', _⟩, ⟨secs', nanos', _, hnanos'⟩, v', n', a'⟩ := h'
    simp only at hh hs hn hv hnv ha hsecs hsecs'
    obtain rfl : secs = secs' := by omega
    obtain rfl : nanos = nanos' := by omega
    subst hh hv hnv ha
    rfl

theorem solInputs_inj {c c' : Bytes} (hc : c.length = 31) (hc' : c'.length = 31) {t t' : Word}
    {s s' : SolSignedHeader} (heq : solInputs c t s = solInputs c' t' s') : c = c' ∧ s = s' ∧ t = t' := by
  have hchain : ∀ b : Bytes, b.length = 31 → beNat b < 256 ^ 32 := by
    intro b hb
    have h := Lib.beNat_lt b
    rw [hb] at h
    exact Nat.lt_trans h (by decide)
  have hu64 : ∀ x : UInt64, x.toNat < 256 ^ 32 := fun x => Nat.lt_trans x.toNat_lt (by decide)
  obtain ⟨⟨h₁, h₂, h₃, h₄⟩, h₅, h₆, h₇, h₈⟩ := inputWords_inj ⟨hchain c hc, hchain c' hc'⟩
    ⟨hu64 s.height, hu64 s'.height⟩ ⟨hu64 s.secs, hu64 s'.secs⟩ ⟨hu64 s.nanos, hu64 s'.nanos⟩ heq
  refine ⟨?_, ?_, h₈⟩
  · rw [← beBytes_beNat c, ← beBytes_beNat c', hc, hc', h₁]
  · obtain ⟨height, secs, nanos, v, n, a⟩ := s
    obtain ⟨height', secs', nanos', v', n', a'⟩ := s'
    simp only at h₂ h₃ h₄ h₅ h₆ h₇
    rw [UInt64.toNat_inj] at h₂ h₃ h₄
    subst h₂ h₃ h₄ h₅ h₆ h₇
    rfl

/-! ## The public input -/

section PublicInput

variable (sha256 : Bytes → Bytes) (chainId : ChainId) (h : LightHeader) (trusted : Word)

/-- The validator sets are named by field elements, as MiMC makes them. -/
structure Elements : Prop where
  validatorsHash : h.validatorsHash.IsElement
  nextValidatorsHash : h.nextValidatorsHash.IsElement
  trusted : trusted.IsElement

/-- What the four make of one header, from the epoch on. -/
structure Agrees (input : F) : Prop where
  below : input.val < 2 ^ 248
  prover : (getInputsHash sha256 chainId.bytes h.toGo trusted.val).map assignBytes = some input
  rust : ∀ commitmentHash, publicInputs sha256 chainId trusted h commitmentHash = (do
    let c ← commitmentHash
    pure (input, ← decodeScalar c))
  solidity : solInput sha256 chainId.intoFixedBytes trusted h.toSol = input
  circuit : Elements h trusted → ∀ (other : BlockHeader) (x : F), x.val < 2 ^ 248 →
    (VerifyInputs sha256 (assignHeader chainId.bytes h.toGo other) x (assignBytes trusted.val) ↔ x = input)
  /-- A hash that is no element has no proof at all. -/
  rejected : ∀ header root, VerifyInputs sha256 header input root →
    NoCollision sha256 {header.inputs root, h.words chainId trusted} → Elements h trusted

variable {sha256 chainId h trusted} {commitmentHash : Except Error Nat}

theorem agrees (hsha : ∀ b, (sha256 b).length = 32) (hsecs : 0 ≤ h.time.seconds) :
    Agrees sha256 chainId h trusted (assignBytes (truncated sha256 (h.words chainId trusted))) where
  below := truncated_val_lt hsha _
  prover := by
    rw [getInputsHash, goInputs_eq hsecs]
    rfl
  rust := publicInputs_eq hsha hsecs chainId trusted
  solidity := by
    rw [solInput, solInputs_eq hsecs, beNat_set_zero (hsha _)]
    rfl
  circuit := by
    intro he other x hx
    have hfits : FitsIn (uncons h.appHash.val).head 8 ∧ FitsIn (uncons h.appHash.val).tail 248 := by
      have htail := Lib.beNat_lt h.appHash.val.tail
      rw [length_tail, h.appHash.property] at htail
      have hhead := UInt8.toNat_lt (h.appHash.val.headD 0)
      constructor
      · rw [FitsIn, uncons, ZMod.val_natCast_of_lt (Nat.lt_trans hhead (by decide))]
        exact hhead
      · rw [FitsIn, uncons, assignBytes, ZMod.val_natCast_of_lt (Nat.lt_trans htail (by decide))]
        exact htail
    rw [verifyInputs_iff hsha _ _ hx, circuitInputs_eq hsecs chainId he.validatorsHash
      he.nextValidatorsHash he.trusted]
    exact and_iff_right hfits
  rejected := by
    intro header root hver hfree
    have hx := ((verifyInputs_iff hsha header root (truncated_val_lt hsha _)).mp hver).2
    obtain ⟨hv, hn, ht⟩ := isElement_of_inputs (hfree.eq hsha hx.symm)
    exact ⟨hv, hn, ht⟩

theorem publicInputs_no_panic (hsha : ∀ b, (sha256 b).length = 32)
    (hc : commitmentHash ≠ .error .panic) : publicInputs sha256 chainId trusted h commitmentHash ≠
      .error .panic := by
  by_cases hsecs : 0 ≤ h.time.seconds
  · rw [publicInputs_eq hsha hsecs]
    cases commitmentHash with
    | error e =>
      intro heq
      cases heq
      exact hc rfl
    | ok c =>
      have hscalar : decodeScalar c = .ok (c : F) ∨ decodeScalar c = .error .invalidPublicInput := by
        rw [decodeScalar]
        exact ite_eq_or_eq _ _ _
      rcases hscalar with hscalar | hscalar <;>
        simp [hscalar, pure, Except.pure]
  · cases commitmentHash with
    | error e =>
      intro heq
      cases heq
      exact hc rfl
    | ok c =>
      simp only [publicInputs, rustInputs_error (Int.not_le.mp hsecs), bind, Except.bind]
      decide

theorem publicInputs_before_epoch (hsecs : h.time.seconds < 0) (commitmentHash : Except Error Nat)
    (r : F × F) : publicInputs sha256 chainId trusted h commitmentHash ≠ .ok r := by
  cases commitmentHash with
  | error e =>
    intro heq
    cases heq
  | ok c =>
    intro heq
    simp only [publicInputs, rustInputs_error hsecs, bind, Except.bind] at heq
    cases heq

theorem publicInputs_ok (hsha : ∀ b, (sha256 b).length = 32) {r : F × F}
    (hr : publicInputs sha256 chainId trusted h commitmentHash = .ok r) :
    0 ≤ h.time.seconds ∧ r.1 = assignBytes (truncated sha256 (h.words chainId trusted)) := by
  by_cases hsecs : 0 ≤ h.time.seconds
  · rw [publicInputs_eq hsha hsecs] at hr
    simp only [bind_eq_ok] at hr
    obtain ⟨c, -, y, -, hy⟩ := hr
    cases hy
    exact ⟨hsecs, rfl⟩
  · exact absurd hr (publicInputs_before_epoch (Int.not_le.mp hsecs) commitmentHash r)

/-- **The public input is one and binds the header.**  Nobody panics; a header from before the epoch
is refused, or no value of the verifier's type; from the epoch on the prover, both verifiers and the
circuit have the same public input; and two headers with one public input are the same. -/
theorem public_input_agrees (hsha : ∀ b, (sha256 b).length = 32) :
    (∃ b, getInputsHash sha256 chainId.bytes h.toGo trusted.val = some b) ∧
    (∀ commitmentHash, commitmentHash ≠ .error .panic →
      publicInputs sha256 chainId trusted h commitmentHash ≠ .error .panic) ∧
    (h.time.seconds < 0 → ∀ commitmentHash r, publicInputs sha256 chainId trusted h commitmentHash ≠ .ok r) ∧
    (0 ≤ h.time.seconds → ∃ input, Agrees sha256 chainId h trusted input) ∧
    (∀ (chainId' : ChainId) (h' : LightHeader) (trusted' : Word) (c c' : Except Error Nat) (r r' : F × F),
      publicInputs sha256 chainId trusted h c = .ok r → publicInputs sha256 chainId' trusted' h' c' = .ok r' →
      NoCollision sha256 {h.words chainId trusted, h'.words chainId' trusted'} → r.1 = r'.1 →
      chainId.intoFixedBytes = chainId'.intoFixedBytes ∧ h = h' ∧ trusted = trusted') ∧
    (∀ (c c' : Bytes) (s s' : SolSignedHeader) (t t' : Word), c.length = 31 → c'.length = 31 →
      NoCollision sha256 {solInputs c t s, solInputs c' t' s'} →
        solInput sha256 c t s = solInput sha256 c' t' s' →
      c = c' ∧ s = s' ∧ t = t') := by
  refine ⟨?_, fun _ hc => publicInputs_no_panic hsha hc, publicInputs_before_epoch,
    fun hsecs => ⟨_, agrees hsha hsecs⟩, ?_, ?_⟩
  · obtain ⟨b, hb⟩ := goInputs_isSome chainId h trusted
    rw [getInputsHash, hb]
    exact ⟨_, rfl⟩
  · intro chainId' h' trusted' c c' r r' hr hr' hfree heq
    obtain ⟨hsecs, hinput⟩ := publicInputs_ok hsha hr
    obtain ⟨hsecs', hinput'⟩ := publicInputs_ok hsha hr'
    rw [hinput, hinput'] at heq
    exact words_inj hsecs hsecs' (hfree.eq hsha heq)
  · intro c c' s s' t t' hc hc' hfree heq
    rw [solInput, solInput, beNat_set_zero (hsha _), beNat_set_zero (hsha _)] at heq
    exact solInputs_inj hc hc' (hfree.eq hsha heq)

end PublicInput

/-! ## Headers at the epoch -/

def testChainId : ChainId := .union1

def word (n : Nat) : Word := ⟨beBytes 32 n, beBytes_length 32 n⟩

def epochHeader (validatorsHash : Word) : LightHeader where
  height := .ofNat 1
  time := .atSecond 0
  validatorsHash := validatorsHash
  nextValidatorsHash := word 2
  appHash := word 3

/-- A stand-in for the hash that tells one string from all others. -/
def marking (a b : Bytes) : Bytes := if b = a then beBytes 32 1 else beBytes 32 0

theorem marking_length (a b : Bytes) : (marking a b).length = 32 := by
  unfold marking
  split <;> exact beBytes_length 32 _

theorem marking_noCollision (a b : Bytes) : NoCollision (marking a) {b, a} := by
  by_cases hab : b = a
  · rw [hab, Set.pair_eq_singleton]
    exact Set.injOn_singleton _ _
  · have hne : truncated (marking a) b ≠ truncated (marking a) a := by
      rw [truncated, truncated, marking, marking, if_neg hab, if_pos rfl]
      decide
    rintro x (rfl | rfl) y (rfl | rfl) heq
    · rfl
    · exact absurd heq hne
    · exact absurd heq.symm hne
    · rfl

theorem word_isElement (hn : n < R) : (word n).IsElement := by
  unfold Word.IsElement word
  rwa [beNat_beBytes 32 (Nat.lt_trans hn (by decide))]

theorem epoch_header_agrees : (∀ b, (marking [] b).length = 32) ∧ Elements (epochHeader (word 1)) (word 4) ∧
      ∃ input, Agrees (marking []) testChainId (epochHeader (word 1)) (word 4) input :=
  ⟨marking_length [], ⟨word_isElement (by decide), word_isElement (by decide), word_isElement (by decide)⟩,
    (public_input_agrees (marking_length [])).2.2.2.1 (by decide)⟩

theorem order_not_element : ¬ (word R).IsElement := by
  unfold Word.IsElement word
  rw [beNat_beBytes 32 (by decide)]
  exact Nat.lt_irrefl R

/-- **A validators hash that is no field element has a public input the circuit does not admit.**
The prover and the verifiers hash it as it is, the circuit hashes its remainder. -/
theorem order_as_validators_hash : ∃ sha256 : Bytes → Bytes, (∀ b, (sha256 b).length = 32) ∧ ∃ input : Bytes,
      getInputsHash sha256 testChainId.bytes (epochHeader (word R)).toGo (word 4).val = some input ∧
      publicInputs sha256 testChainId (word 4) (epochHeader (word R)) (.ok 0) = .ok (assignBytes input, 0) ∧
      ∀ other, ¬ VerifyInputs sha256 (assignHeader testChainId.bytes (epochHeader (word R)).toGo other)
        (assignBytes input) (assignBytes (word 4).val) := by
  have hsecs : 0 ≤ (epochHeader (word R)).time.seconds := Int.le_refl 0
  have hsha := marking_length ((epochHeader (word R)).words testChainId (word 4))
  have hagrees : Agrees _ testChainId (epochHeader (word R)) (word 4) _ := agrees hsha hsecs
  refine ⟨marking ((epochHeader (word R)).words testChainId (word 4)), hsha,
    truncated (marking ((epochHeader (word R)).words testChainId (word 4)))
      ((epochHeader (word R)).words testChainId (word 4)), ?_, ?_, ?_⟩
  · rw [getInputsHash, goInputs_eq hsecs]
    rfl
  · rw [publicInputs_eq hsha hsecs]
    rfl
  · intro other hver
    exact order_not_element (hagrees.rejected _ _ hver (marking_noCollision _ _)).validatorsHash

end UnionVoyager.Light.CometBls
