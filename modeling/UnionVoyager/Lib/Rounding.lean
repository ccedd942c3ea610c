import Mathlib.Algebra.Order.BigOperators.Group.Finset
import Mathlib.Algebra.BigOperators.Ring.Finset

/-!
# Proportional parts, rounded down

An amount is divided in proportion to weights, and every part is rounded down on its own.

* `sum_parts_le` — the parts of weights that sum to at most the whole are together at most the amount.
-/

namespace Lib

universe u

variable {K : Type u}

theorem sum_parts_le (amount whole : Nat) (weight : K → Nat) (S : Finset K)
    (h : ∑ k ∈ S, weight k ≤ whole) : ∑ k ∈ S, amount * weight k / whole ≤ amount := by
  rcases Nat.eq_zero_or_pos whole with rfl | hpos
  · simp
  · have hmul : whole * ∑ k ∈ S, amount * weight k / whole ≤ amount * ∑ k ∈ S, weight k := by
      rw [Finset.mul_sum, Finset.mul_sum]
      exact Finset.sum_le_sum fun k _ => Nat.mul_div_le _ _
    have hle : amount * ∑ k ∈ S, weight k ≤ whole * amount := by
      rw [Nat.mul_comm whole]
      exact Nat.mul_le_mul_left _ h
    exact Nat.le_of_mul_le_mul_left (hmul.trans hle) hpos

theorem sum_div_le (l : List Nat) (d : Nat) : (l.map (· / d)).sum ≤ l.sum / d := by
  induction l with
  | nil => simp
  | cons x l ih =>
    rw [List.map_cons, List.sum_cons, List.sum_cons]
    exact (Nat.add_le_add_left ih _).trans Nat.div_add_div_le_add_div

theorem sum_div_eq {d : Nat} (hd : 0 < d) (l : List Nat) :
    l.sum / d = (l.map (· / d)).sum + (l.map (· % d)).sum / d := by
  have hsplit : l.sum = d * (l.map (· / d)).sum + (l.map (· % d)).sum := by
    induction l with
    | nil => rfl
    | cons x l ih =>
      have hx := Nat.div_add_mod x d
      simp only [List.map_cons, List.sum_cons, Nat.mul_add]
      omega
  rw [hsplit, Nat.mul_add_div hd]

/-! ## Splitting over shares -/

/-- The part of each share, rounded down. -/
def splits (amount : Nat) (shares : List Nat) : List Nat := shares.map fun s => amount * s / shares.sum

theorem sum_mul_left (amount : Nat) (shares : List Nat) :
    (shares.map (amount * ·)).sum = amount * shares.sum := by
  induction shares with
  | nil => rfl
  | cons s shares ih => rw [List.map_cons, List.sum_cons, List.sum_cons, ih, Nat.mul_add]

theorem splits_sum_le (amount : Nat) (shares : List Nat) : (splits amount shares).sum ≤ amount := by
  have h := sum_div_le (shares.map (amount * ·)) shares.sum
  rw [List.map_map, sum_mul_left] at h
  exact h.trans (Nat.div_le_of_le_mul (Nat.le_of_eq (Nat.mul_comm amount shares.sum)))

/-- What a split leaves over. -/
def dust (amount : Nat) (shares : List Nat) : Nat := amount - (splits amount shares).sum

theorem splits_add_dust (amount : Nat) (shares : List Nat) :
    (splits amount shares).sum + dust amount shares = amount :=
  Nat.add_sub_cancel' (splits_sum_le amount shares)

end Lib
