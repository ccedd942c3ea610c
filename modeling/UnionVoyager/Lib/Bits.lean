import UnionVoyager.Lib.Bytes

/-!
# Bits of numbers and of their bytes

* `beNat_testBit` — a bit of the number of a word is a bit of one of its bytes,
  `beNat_reverse_testBit` of the word read from its other end.
* `halve`, `foldl_halve` — the index of the highest bit, by halving.
-/

namespace Lib

theorem beNat_testBit (b : Bytes) (k : Nat) {j : Nat} (hj : j < 8) :
    (beNat b).testBit (8 * k + j) = (b.reverse.getD k 0).toNat.testBit j := by
  induction b using List.reverseRecOn generalizing k with
  | nil => simp [beNat]
  | append_singleton b x ih =>
    have hx : x.toNat < 2 ^ 8 := x.toNat_lt
    have hpow : beNat b * 256 + x.toNat = 2 ^ 8 * beNat b + x.toNat := by omega
    rw [beNat_concat, hpow, Nat.testBit_two_pow_mul_add _ hx, List.reverse_append]
    cases k with
    | zero =>
      rw [if_pos (by omega)]
      simp
    | succ k =>
      have hsub : 8 * (k + 1) + j - 8 = 8 * k + j := by omega
      rw [if_neg (by omega), hsub, ih]
      rfl

theorem beNat_reverse_testBit (b : Bytes) (k : Nat) {j : Nat} (hj : j < 8) :
    (beNat b.reverse).testBit (8 * k + j) = (b.getD k 0).toNat.testBit j := by
  rw [beNat_testBit _ _ hj, List.reverse_reverse]

theorem reverse_getD {b : Bytes} {k : Nat} (hk : k < b.length) :
    b.reverse.getD (b.length - 1 - k) 0 = b.getD k 0 := by
  have hback : b.length - 1 - (b.length - 1 - k) = k := by omega
  rw [List.getD_eq_getElem?_getD, List.getD_eq_getElem?_getD, List.getElem?_reverse (by omega), hback]

/-! ## The highest bit -/

/-- One turn: `w` bits are shifted out if there is a bit above them. -/
def halve (p : Nat × Nat) (w : Nat) : Nat × Nat := if 2 ^ w - 1 < p.2 then (p.1 + w, p.2 / 2 ^ w) else p

/-- The widths, from the half of `2 ^ k` bits down to one. -/
def halvings : Nat → List Nat
  | 0 => []
  | k + 1 => 2 ^ k :: halvings k

theorem log2_div_two_pow {y w : Nat} (hle : 2 ^ w ≤ y) : (y / 2 ^ w).log2 = y.log2 - w := by
  have hy : y ≠ 0 := by
    have := Nat.two_pow_pos w
    omega
  have hdiv : y / 2 ^ w ≠ 0 := Nat.pos_iff_ne_zero.mp (Nat.div_pos hle (Nat.two_pow_pos w))
  have hlog : w ≤ y.log2 := (Nat.le_log2 hy).mpr hle
  have hbounds := (Nat.log2_eq_iff hy).mp rfl
  have hpow : 2 ^ y.log2 = 2 ^ (y.log2 - w) * 2 ^ w := by
    rw [← Nat.pow_add]
    congr 1
    omega
  rw [Nat.log2_eq_iff hdiv, Nat.le_div_iff_mul_le (Nat.two_pow_pos w),
    Nat.div_lt_iff_lt_mul (Nat.two_pow_pos w),
    ← hpow, Nat.pow_succ, Nat.mul_right_comm, ← hpow, ← Nat.pow_succ]
  exact hbounds

theorem halve_spec {r y w : Nat} (hy : y ≠ 0) (hlt : y < 2 ^ (2 * w)) :
    (halve (r, y) w).1 + (halve (r, y) w).2.log2 = r + y.log2 ∧ (halve (r, y) w).2 ≠ 0 ∧
      (halve (r, y) w).2 < 2 ^ w := by
  unfold halve
  split
  · next hhigh =>
    have hle : 2 ^ w ≤ y := by omega
    have hdiv : 0 < y / 2 ^ w := Nat.div_pos hle (Nat.two_pow_pos w)
    have hlog : w ≤ y.log2 := (Nat.le_log2 hy).mpr hle
    refine ⟨?_, Nat.pos_iff_ne_zero.mp hdiv, ?_⟩
    · show r + w + (y / 2 ^ w).log2 = r + y.log2
      have hshift := log2_div_two_pow hle
      omega
    · show y / 2 ^ w < 2 ^ w
      rw [Nat.div_lt_iff_lt_mul (Nat.two_pow_pos w), ← Nat.pow_add]
      rwa [← Nat.two_mul]
  · next hlow =>
    refine ⟨rfl, hy, ?_⟩
    show y < 2 ^ w
    omega

theorem foldl_halve {k r y : Nat} (hy : y ≠ 0) (hlt : y < 2 ^ 2 ^ k) :
    ((halvings k).foldl halve (r, y)).1 = r + y.log2 := by
  induction k generalizing r y with
  | zero =>
    have hone : y = 1 := by
      simp only [Nat.pow_zero, Nat.pow_one] at hlt
      omega
    subst hone
    rfl
  | succ k ih =>
    rw [Nat.pow_succ, Nat.mul_comm] at hlt
    obtain ⟨hsum, hne, hhalf⟩ := halve_spec (r := r) hy hlt
    show ((halvings k).foldl halve (halve (r, y) (2 ^ k))).1 = _
    rw [← hsum]
    exact ih hne hhalf

end Lib
