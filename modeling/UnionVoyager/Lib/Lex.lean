import Mathlib.Data.List.Basic
import Mathlib.Algebra.Ring.Nat

/-!
# The lexicographic order

* `append_lt_append_iff`, `append_le_append_iff` — what two strings have in common at the front does
  not matter.
* `append_cons_lt` — the first letter in which they differ decides.
* `prefix_of_le_of_le` — what lies between a string and one that it starts starts with it.
* `prefix_of_le_of_lt` — what lies between a string and the next one of its length starts with it.
-/

namespace Lib.Lex

open List

universe u

variable {α : Type u} [LE α] [LT α] [Std.IsLinearOrder α] [Std.LawfulOrderLT α]

omit [Std.IsLinearOrder α] in
theorem append_lt_append_iff (p : List α) {x y : List α} : p ++ x < p ++ y ↔ x < y := by
  induction p with
  | nil => exact Iff.rfl
  | cons a p ih =>
    rw [cons_append, cons_append, cons_lt_cons_iff, ih]
    constructor
    · rintro (h | ⟨-, h⟩)
      · exact absurd h Std.lt_irrefl
      · exact h
    · intro h
      exact .inr ⟨rfl, h⟩

omit [Std.IsLinearOrder α] in
theorem append_le_append_iff (p : List α) {x y : List α} : p ++ x ≤ p ++ y ↔ x ≤ y := by
  rw [← List.not_lt, ← List.not_lt, append_lt_append_iff]

omit [Std.IsLinearOrder α] [Std.LawfulOrderLT α] [LE α] in
theorem append_cons_lt (p : List α) {a b : α} (h : a < b) (x y : List α) : p ++ a :: x < p ++ b :: y := by
  induction p with
  | nil => exact List.cons_lt_cons_iff.mpr (.inl h)
  | cons c p ih => exact List.cons_lt_cons_iff.mpr (.inr ⟨rfl, ih⟩)

omit [Std.IsLinearOrder α] in
theorem le_append (p x : List α) : p ≤ p ++ x := by
  have h := (append_le_append_iff p).mpr (nil_le x)
  rwa [append_nil] at h

theorem prefix_of_le_of_le (p : List α) {x r : List α} (hle : p ≤ r) (hr : r ≤ p ++ x) : p <+: r := by
  induction p generalizing r with
  | nil => exact nil_prefix
  | cons a p ih =>
    cases r with
    | nil => exact absurd (nil_lt_cons a p) (List.not_lt.mpr hle)
    | cons b r =>
      rw [cons_le_cons_iff] at hle
      rw [cons_append, cons_le_cons_iff] at hr
      have hab : a = b := by grind
      subst hab
      have hle' : p ≤ r := by grind
      have hr' : r ≤ p ++ x := by grind
      exact (prefix_cons_inj a).mpr (ih hle' hr')

theorem prefix_of_le_of_lt (p : List α) {a b : α} (hnext : ∀ c, a < c → ¬ c < b) {r : List α}
    (hle : p ++ [a] ≤ r) (hr : r < p ++ [b]) : p ++ [a] <+: r := by
  induction p generalizing r with
  | nil =>
    cases r with
    | nil => exact absurd (nil_lt_cons a []) (List.not_lt.mpr hle)
    | cons c r =>
      rw [nil_append, cons_le_cons_iff] at hle
      rw [nil_append, cons_lt_cons_iff] at hr
      have hac : a = c := by
        rcases hle with hlt | ⟨heq, -⟩
        · rcases hr with hcb | ⟨-, hnil⟩
          · exact absurd hcb (hnext c hlt)
          · exact absurd hnil (not_lt_nil r)
        · exact heq
      subst hac
      exact (prefix_cons_inj a).mpr nil_prefix
  | cons d p ih =>
    cases r with
    | nil => exact absurd (nil_lt_cons d _) (List.not_lt.mpr hle)
    | cons c r =>
      rw [cons_append, cons_le_cons_iff] at hle
      rw [cons_append, cons_lt_cons_iff] at hr
      have hdc : d = c := by grind
      subst hdc
      have hle' : p ++ [a] ≤ r := by grind
      have hr' : r < p ++ [b] := by grind
      exact (prefix_cons_inj d).mpr (ih hle' hr')

end Lib.Lex
