import Mathlib.Algebra.Order.BigOperators.Group.Finset
import Mathlib.Algebra.Ring.Nat

/-!
# Accounts backed by holdings

Accounts carry balances, and each account is in at most one asset.  The accounts are backed if what is held
of an asset covers the balances of all accounts in it, over every finite set of them.

* `Backed.le` — a backed account can be paid out.
* `Backed.shift` — shifts keep accounts backed.
-/

namespace Lib

universe u v

variable {K : Type u} {T : Type v} {asset : K → T → Prop} {balance balance' : K → Nat} {held held' : T → Nat}

/-- What is held of each asset covers every finite set of accounts in it. -/
def Backed (asset : K → T → Prop) (balance : K → Nat) (held : T → Nat) : Prop :=
  ∀ t (S : Finset K), (∀ k ∈ S, asset k t) → ∑ k ∈ S, balance k ≤ held t

theorem Backed.le (h : Backed asset balance held) {k : K} {t : T} (hk : asset k t) : balance k ≤ held t := by
  have hsum := h t {k} (by simpa using hk)
  rwa [Finset.sum_singleton] at hsum

theorem Backed.empty : Backed asset (fun _ => 0) held := by
  intro t S _
  simp

/-- The account `k` and the holding of `t` lose `given` and gain `taken`; nothing else changes. -/
structure Shift (k : K) (t : T) (given taken : Nat) (balance : K → Nat) (held : T → Nat)
    (balance' : K → Nat) (held' : T → Nat) : Prop where
  account : balance' k + given = balance k + taken
  accounts : ∀ k', k' ≠ k → balance' k' = balance k'
  holding : held' t + given = held t + taken
  holdings : ∀ t', t' ≠ t → held' t' = held t'

theorem Backed.shift (h : Backed asset balance held)
    (hunique : ∀ k t u, asset k t → asset k u → t = u) {k : K} {t : T}
    (hk : asset k t) {given taken : Nat} (hshift : Shift k t given taken balance held balance' held') :
    Backed asset balance' held' := by
  classical
  intro u S hS
  have hrest : ∑ k' ∈ S.erase k, balance' k' = ∑ k' ∈ S.erase k, balance k' := by
    apply Finset.sum_congr rfl
    intro k' hk'
    exact hshift.accounts k' (Finset.ne_of_mem_erase hk')
  by_cases hmem : k ∈ S
  · obtain rfl : t = u := hunique k t u hk (hS k hmem)
    have hsum := h t S hS
    have hbal := hshift.account
    have hheld := hshift.holding
    rw [← Finset.add_sum_erase S balance hmem] at hsum
    rw [← Finset.add_sum_erase S balance' hmem, hrest]
    omega
  · rw [Finset.erase_eq_of_notMem hmem] at hrest
    rw [hrest]
    by_cases hut : u = t
    · subst hut
      -- the account `k` is not among those of `S`, but it is in the same asset
      have hsum := h u (insert k S) (by
        intro k' hk'
        rcases Finset.mem_insert.mp hk' with rfl | hk'
        · exact hk
        · exact hS k' hk')
      rw [Finset.sum_insert hmem] at hsum
      have hbal := hshift.account
      have hheld := hshift.holding
      omega
    · rw [hshift.holdings u hut]
      exact h u S hS

theorem Backed.mono (h : Backed asset balance held) (hbalance : ∀ k, balance' k ≤ balance k)
    (hheld : ∀ t, held t ≤ held' t) : Backed asset balance' held' := by
  intro t S hS
  exact ((Finset.sum_le_sum fun k _ => hbalance k).trans (h t S hS)).trans (hheld t)

theorem Backed.congr (h : Backed asset balance held) (hbalance : ∀ k, balance' k = balance k)
    (hheld : ∀ t, held' t = held t) : Backed asset balance' held' := by
  intro t S hS
  rw [hheld t, Finset.sum_congr rfl fun k _ => hbalance k]
  exact h t S hS

end Lib
