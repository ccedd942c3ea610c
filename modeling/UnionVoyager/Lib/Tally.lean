import Mathlib.Algebra.Order.BigOperators.Group.Finset
import Mathlib.Algebra.Ring.Nat

/-!
# Weights of members at positions

Votes are counted for the members of a list, each at most once.  Which members were counted is a set of
positions, and what they weigh is a sum over it.

* `weightAt_insert` — counting one more; `weightAt_le` — never more than the whole list.
* `exists_of_quorum` — a quorum has a member that is not bad, where the bad ones weigh less than a third.
-/

namespace Lib

variable {V : Type}

/-- The weight of the members of the list at these positions. -/
def weightAt (w : V → Nat) (vs : List V) (S : Finset Nat) : Nat := ∑ i ∈ S, (vs[i]?).elim 0 w

def totalWeight (w : V → Nat) (vs : List V) : Nat := (vs.map w).sum

variable {w : V → Nat} {vs : List V} {S : Finset Nat}

@[simp] theorem weightAt_empty : weightAt w vs ∅ = 0 := rfl

theorem weightAt_insert {i : Nat} {v : V} (hi : i ∉ S) (hv : vs[i]? = some v) :
    weightAt w vs (insert i S) = weightAt w vs S + w v := by
  rw [weightAt, Finset.sum_insert hi, hv, Nat.add_comm]
  rfl

theorem weightAt_range (vs : List V) : weightAt w vs (Finset.range vs.length) = totalWeight w vs := by
  induction vs with
  | nil => rfl
  | cons v vs ih =>
    rw [weightAt, List.length_cons, Finset.sum_range_succ']
    simp only [List.getElem?_cons_succ, List.getElem?_cons_zero, Option.elim_some]
    simp only [weightAt] at ih
    rw [ih, totalWeight, totalWeight, List.map_cons, List.sum_cons, Nat.add_comm]

theorem weightAt_le (S : Finset Nat) : weightAt w vs S ≤ totalWeight w vs := by
  rw [← weightAt_range]
  apply Finset.sum_le_sum_of_ne_zero
  intro i _ hi
  rw [Finset.mem_range]
  by_contra hge
  rw [List.getElem?_eq_none (by omega)] at hi
  exact hi rfl

theorem weightAt_mono {T : Finset Nat} (h : S ⊆ T) : weightAt w vs S ≤ weightAt w vs T :=
    Finset.sum_le_sum_of_subset h

theorem exists_of_quorum {bad : Nat → Prop} (hquorum : 2 * totalWeight w vs < 3 * weightAt w vs S)
    (hbad : ∀ B : Finset Nat, (∀ i ∈ B, bad i) → 3 * weightAt w vs B < totalWeight w vs) :
      ∃ i ∈ S, ¬ bad i := by
  by_contra hnone
  have hall : ∀ i ∈ S, bad i := by
    intro i hi
    by_contra hgood
    exact hnone ⟨i, hi, hgood⟩
  have hlight := hbad S hall
  omega

end Lib
