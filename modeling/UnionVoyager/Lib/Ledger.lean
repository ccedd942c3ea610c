import Mathlib.Algebra.BigOperators.Group.Finset.Piecewise
import Mathlib.Algebra.Order.BigOperators.Group.Finset
import Mathlib.Algebra.Ring.Nat

/-!
# Balances and transfers

* `moved_of_ne` — what an account that does not pay has afterwards.
* `moved_add` — nothing is made or lost on the way; `moved_comm` — the order of two payments.
* `moved_rename` — balances under other names.
-/

namespace Lib.Ledger

open Function

variable {A : Type} [DecidableEq A]

/-- The balances after an account got `n` more. -/
def credited (b : A → Nat) (a : A) (n : Nat) : A → Nat := Function.update b a (b a + n)

/-- The balances after `n` went from `src` to `dst`. -/
def moved (b : A → Nat) (src dst : A) (n : Nat) : A → Nat :=
    credited (Function.update b src (b src - n)) dst n

theorem credited_apply (b : A → Nat) (a x : A) (n : Nat) :
    credited b a n x = b x + if a = x then n else 0 := by
  unfold credited
  by_cases hx : a = x
  · subst hx
    simp
  · simp [update_of_ne (Ne.symm hx), hx]

variable {src a : A}

theorem moved_of_ne (b : A → Nat) {x : A} (dst : A) (n : Nat) (hx : x ≠ src) :
    moved b src dst n x = b x + if dst = x then n else 0 := by
  rw [moved, credited_apply, update_of_ne hx]

theorem moved_src (b : A → Nat) (src dst : A) (n : Nat) :
    moved b src dst n src = b src - n + if dst = src then n else 0 := by
  rw [moved, credited_apply, update_self]

theorem moved_zero (b : A → Nat) (src dst : A) : moved b src dst 0 = b := by
  funext x
  by_cases hx : x = src
  · subst hx
    simp [moved_src]
  · simp [moved_of_ne b dst 0 hx]

variable {b : A → Nat} {n : Nat}

theorem moved_add (dst : A) (h : n ≤ b src) :
    moved b src dst n src + n = b src + if dst = src then n else 0 := by
  rw [moved_src]
  split <;> omega

/-! ## Balances under other names -/

theorem credited_rename {B : Type} [DecidableEq B] {f : A → B} (hf : Function.Injective f) {b' : B → Nat}
    (h : ∀ x, b' (f x) = b x) (a x : A) (n : Nat) : credited b' (f a) n (f x) = credited b a n x := by
  rw [credited_apply, credited_apply, h]
  simp only [hf.eq_iff]

theorem moved_rename {B : Type} [DecidableEq B] {f : A → B} (hf : Function.Injective f) {b' : B → Nat}
    (h : ∀ x, b' (f x) = b x) (src dst x : A) (n : Nat) :
      moved b' (f src) (f dst) n (f x) = moved b src dst n x := by
  refine credited_rename hf ?_ dst x n
  intro y
  by_cases hy : y = src
  · subst hy
    rw [update_self, update_self, h]
  · rw [update_of_ne hy, update_of_ne (fun heq => hy (hf heq)), h]

theorem moved_comm {x y : A} {m : Nat} (hm : m ≤ b src) (hn : n ≤ moved b src x m src) (hn' : n ≤ b src)
    (hm' : m ≤ moved b src y n src) : moved (moved b src x m) src y n = moved (moved b src y n) src x m := by
  funext z
  by_cases hz : z = src
  · subst hz
    rw [moved_src] at hn hm'
    simp only [moved_src]
    split_ifs at hn hm' ⊢ <;> omega
  · simp only [moved_of_ne _ _ _ hz]
    omega

/-! ## Totals -/

/-- Finitely many accounts have a balance, and the balances add up to `n`. -/
def Totals (b : A → Nat) (n : Nat) : Prop :=
  ∃ accounts : Finset A, (∀ a, a ∉ accounts → b a = 0) ∧ ∑ a ∈ accounts, b a = n

omit [DecidableEq A] in
theorem Totals.zero : Totals (fun _ : A => 0) 0 := ⟨∅, fun _ _ => rfl, rfl⟩

theorem sum_insert_eq {accounts : Finset A} (h : ∀ a, a ∉ accounts → b a = 0) (a : A) :
    ∑ x ∈ insert a accounts, b x = ∑ x ∈ accounts, b x := by
  by_cases ha : a ∈ accounts
  · rw [Finset.insert_eq_of_mem ha]
  · rw [Finset.sum_insert ha, h a ha, Nat.zero_add]

theorem sum_credited {accounts : Finset A} (h : a ∈ accounts) (n : Nat) :
    ∑ x ∈ accounts, credited b a n x = ∑ x ∈ accounts, b x + n := by
  simp only [credited_apply, Finset.sum_add_distrib, Finset.sum_ite_eq, h, if_true]

theorem Totals.credited (h : Totals b n) (a : A) (m : Nat) : Totals (credited b a m) (n + m) := by
  obtain ⟨accounts, hzero, hsum⟩ := h
  refine ⟨insert a accounts, ?_, ?_⟩
  · intro x hx
    rw [Finset.mem_insert, not_or] at hx
    rw [credited_apply, hzero x hx.2, if_neg (Ne.symm hx.1)]
  · rw [sum_credited (Finset.mem_insert_self a accounts), sum_insert_eq hzero, hsum]

theorem Totals.le (h : Totals b n) (a : A) : b a ≤ n := by
  obtain ⟨accounts, hzero, rfl⟩ := h
  by_cases ha : a ∈ accounts
  · exact Finset.single_le_sum (fun x _ => Nat.zero_le (b x)) ha
  · rw [hzero a ha]
    exact Nat.zero_le _

theorem Totals.debited {m : Nat} (h : Totals b n) (hm : m ≤ b a) :
    Totals (Function.update b a (b a - m)) (n - m) := by
  have hback : Ledger.credited (Function.update b a (b a - m)) a m = b := by
    funext x
    rw [credited_apply]
    by_cases hx : a = x
    · subst hx
      rw [update_self, if_pos rfl, Nat.sub_add_cancel hm]
    · rw [update_of_ne (Ne.symm hx), if_neg hx, Nat.add_zero]
  obtain ⟨accounts, hzero, rfl⟩ := h
  refine ⟨insert a accounts, ?_, ?_⟩
  · intro x hx
    rw [Finset.mem_insert, not_or] at hx
    rw [update_of_ne hx.1, hzero x hx.2]
  · have hsum := sum_credited (b := Function.update b a (b a - m)) (Finset.mem_insert_self a accounts) m
    rw [hback, sum_insert_eq hzero] at hsum
    omega

end Lib.Ledger
