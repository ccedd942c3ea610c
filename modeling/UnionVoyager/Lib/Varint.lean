import UnionVoyager.Lib.Bytes

/-!
# Base 128 varints
-/

namespace Lib

/-! ## The writer -/

/-- `leb128`, with a bound on the number of continuation bytes. -/
def leb128Aux : Nat → Nat → Bytes
  | 0, n => [UInt8.ofNat n]
  | fuel + 1, n => if n < 128 then [UInt8.ofNat n] else UInt8.ofNat (n % 128 + 128) ::
      leb128Aux fuel (n / 128)

attribute [local grind =] leb128Aux

/-- A number in groups of seven bits, lowest first; all bytes but the last have their high bit set. -/
def leb128 (n : Nat) : Bytes := leb128Aux n n

theorem leb128Aux_eq : ∀ {fuel fuel' n : Nat}, n < 128 ^ (fuel + 1) → n < 128 ^ (fuel' + 1) →
    leb128Aux fuel n = leb128Aux fuel' n
  | 0, 0, _, _, _ => rfl
  | 0, fuel' + 1, n, h, _ => by
    have hn : n < 128 := by simpa using h
    simp [leb128Aux, hn]
  | fuel + 1, 0, n, _, h' => by
    have hn : n < 128 := by simpa using h'
    simp [leb128Aux, hn]
  | fuel + 1, fuel' + 1, n, h, h' => by
    rw [Nat.pow_succ] at h h'
    unfold leb128Aux
    rw [leb128Aux_eq (by omega : n / 128 < 128 ^ (fuel + 1)) (by omega : n / 128 < 128 ^ (fuel' + 1))]

theorem lt_pow_succ (n : Nat) : n < 128 ^ (n + 1) := Nat.lt_trans (Nat.lt_succ_self n)
    (Nat.lt_pow_self (by omega))

variable {n : Nat}

theorem leb128_small (h : n < 128) : leb128 n = [UInt8.ofNat n] := by
  cases n with
  | zero => rfl
  | succ n =>
    show leb128Aux (n + 1) (n + 1) = _
    rw [leb128Aux, if_pos h]

theorem leb128_large (h : 128 ≤ n) : leb128 n = UInt8.ofNat (n % 128 + 128) :: leb128 (n / 128) := by
  obtain ⟨m, rfl⟩ := Nat.exists_eq_add_of_le' (show 1 ≤ n by omega)
  show leb128Aux (m + 1) (m + 1) = _
  rw [leb128Aux, if_neg (by omega)]
  congr 1
  apply leb128Aux_eq _ (lt_pow_succ _)
  have := lt_pow_succ m
  omega

theorem leb128_cases {motive : Nat → Prop} (small : ∀ n, n < 128 → motive n)
    (large : ∀ n, 128 ≤ n → motive (n / 128) → motive n) (n : Nat) : motive n := by
  induction n using Nat.strongRecOn with
  | ind n ih =>
    by_cases h : n < 128
    · exact small n h
    · exact large n (by omega) (ih (n / 128) (by omega))

theorem toNat_ofNat_of_lt (h : n < 256) : (UInt8.ofNat n).toNat = n := by
  rw [UInt8.toNat_ofNat']
  omega

theorem leb128_head (x : Bytes) : (leb128 n ++ x).head? = some 0 ↔ n = 0 := by
  by_cases h : n < 128
  · rw [leb128_small h, List.cons_append, List.head?_cons, Option.some.injEq, ← UInt8.toNat_inj,
      toNat_ofNat_of_lt (by omega)]
    rfl
  · rw [leb128_large (show 128 ≤ n by omega), List.cons_append, List.head?_cons, Option.some.injEq,
      ← UInt8.toNat_inj, toNat_ofNat_of_lt (by omega)]
    show n % 128 + 128 = 0 ↔ n = 0
    omega

/-! ## The reader -/

/-- Read at most this many bytes; the last of them may only be 0 or 1. -/
def decodeVarintAux : Nat → Bytes → Option (Nat × Bytes)
  | 0, _ => none
  | _ + 1, [] => none
  | k + 1, b :: rest =>
    if b.toNat < 128 then
      if k = 0 ∧ 2 ≤ b.toNat then none else some (b.toNat, rest)
    else
      (decodeVarintAux k rest).map fun (n, r) => (b.toNat - 128 + 128 * n, r)

attribute [local grind =] decodeVarintAux

/-- A number of 64 bits and what is left of the input. -/
def decodeVarint : Bytes → Option (Nat × Bytes) := decodeVarintAux 10

theorem decodeVarintAux_append {k : Nat} {b r : Bytes} (h : decodeVarintAux k b = some (n, r))
    (x : Bytes) : decodeVarintAux k (b ++ x) = some (n, r ++ x) := by
  induction k generalizing b n r with
  | zero => cases h
  | succ k ih =>
    match b, h with
    | a :: b, h =>
      rw [decodeVarintAux] at h
      rw [List.cons_append, decodeVarintAux]
      split at h
      case isTrue hlast =>
        rw [if_pos hlast]
        split at h
        case isTrue => cases h
        case isFalse hfit =>
          rw [if_neg hfit]
          cases h
          rfl
      case isFalse hmore =>
        rw [if_neg hmore]
        obtain ⟨⟨m, r'⟩, hm, hout⟩ := Option.map_eq_some_iff.mp h
        cases hout
        rw [ih hm]
        rfl

theorem decodeVarint_append {b r : Bytes} (h : decodeVarint b = some (n, r)) (x : Bytes) :
    decodeVarint (b ++ x) = some (n, r ++ x) := decodeVarintAux_append h x

theorem decodeVarintAux_leb128 (n : Nat) (x : Bytes) : ∀ {k : Nat}, n < 2 * 128 ^ k →
    decodeVarintAux (k + 1) (leb128 n ++ x) = some (n, x) := by
  induction n using leb128_cases with
  | small n h =>
    intro k hk
    rw [leb128_small h, List.cons_append, decodeVarintAux, toNat_ofNat_of_lt (by omega), if_pos h, if_neg]
    · rfl
    · rintro ⟨rfl, h2⟩
      simp only [Nat.pow_zero] at hk
      omega
  | large n h ih =>
    intro k hk
    cases k with
    | zero =>
      simp only [Nat.pow_zero] at hk
      omega
    | succ k =>
      rw [Nat.pow_succ] at hk
      rw [leb128_large h, List.cons_append, decodeVarintAux, toNat_ofNat_of_lt (by omega), if_neg (by omega),
        ih (by omega)]
      show some (n % 128 + 128 - 128 + 128 * (n / 128), x) = some (n, x)
      congr 2
      omega

theorem decodeVarint_leb128 (h : n < 2 ^ 64) (x : Bytes) : decodeVarint (leb128 n ++ x) = some (n, x) :=
  decodeVarintAux_leb128 n x (by omega)

theorem selfDelimiting_leb128 : SelfDelimiting leb128 := by
  intro m n x y h
  -- a reader that is long enough for both
  have hm := decodeVarintAux_leb128 m x (k := m + n) (by
    have := Nat.lt_pow_self (show 1 < 128 by omega) (n := m + n)
    omega)
  have hn := decodeVarintAux_leb128 n y (k := m + n) (by
    have := Nat.lt_pow_self (show 1 < 128 by omega) (n := m + n)
    omega)
  rw [h, hn] at hm
  cases hm
  exact ⟨rfl, rfl⟩

/-! ## Strings behind their length -/

/-- A string behind its length. -/
def lenPrefixed (b : Bytes) : Bytes := leb128 b.length ++ b

theorem lenPrefixed_inj {b c x y : Bytes} (h : lenPrefixed b ++ x = lenPrefixed c ++ y) : b = c ∧ x = y := by
  simp only [lenPrefixed, List.append_assoc] at h
  obtain ⟨hlen, hrest⟩ := selfDelimiting_leb128 _ _ _ _ h
  exact List.append_inj hrest hlen

end Lib
