import Mathlib.Data.Set.Function
import Mathlib.Data.List.Basic
import Mathlib.Algebra.Ring.Nat

/-!
# Binary merkle trees, level by level

A root is computed by hashing the neighbours of a level until one hash is left; an odd last one is carried
over.  The levels are the hashes of forests, so what a root determines is a tree, and with it its leaves.

* `splitRoot` — the root by splits at powers of two; `levels_eq_splitRoot` — **the same root**.
* `Tree`, `Tree.build` — the forests behind the levels; `levels_map_hash`.
* `Tree.hash_injOn`, `Tree.leaves_eq_of_root_eq` — **a root determines its tree and its leaves**, if no two
  of the inputs hashed for it collide.
-/

namespace Lib

open List

section Levels

variable {D : Type} (inner : D → D → D)

/-- Hash the neighbours of a level. -/
def nextLevel : List D → List D
  | left :: right :: rest => inner left right :: nextLevel rest
  | rest => rest

/-- Hash neighbours until one is left, at most `fuel` times. -/
def levels : Nat → List D → List D
  | 0, level => level
  | fuel + 1, level => if level.length = 1 then level else levels fuel (nextLevel inner level)

theorem nextLevel_length (l : List D) : (nextLevel inner l).length = (l.length + 1) / 2 := by
  fun_induction nextLevel inner l with
  | case1 left right rest ih =>
    simp only [length_cons, ih]
    omega
  | case2 rest h =>
    match rest with
    | [] => simp
    | [_] => simp
    | a :: b :: r => exact absurd rfl (h a b r)

theorem levels_singleton (fuel : Nat) (l : List D) (hl : l ≠ []) (hfuel : l.length ≤ fuel) :
    ∃ root, levels inner fuel l = [root] := by
  induction fuel generalizing l with
  | zero => exact absurd (List.length_eq_zero_iff.mp (by omega)) hl
  | succ fuel ih =>
    rw [levels]
    split
    case isTrue h => exact List.length_eq_one_iff.mp h
    case isFalse h =>
      have hpos := List.length_pos_iff.mpr hl
      have hnext := nextLevel_length inner l
      apply ih
      · intro hnil
        rw [hnil, length_nil] at hnext
        omega
      · omega

theorem nextLevel_getElem? (l : List D) : ∀ k : Nat, (nextLevel inner l)[k]? =
    match l[2 * k]?, l[2 * k + 1]? with
    | some left, some right => some (inner left right)
    | left, _ => left := by
  fun_induction nextLevel inner l with
  | case1 left right rest ih =>
    intro k
    cases k with
    | zero => rfl
    | succ k =>
      have h₁ : 2 * (k + 1) = 2 * k + 1 + 1 := by omega
      rw [h₁]
      simp only [getElem?_cons_succ]
      exact ih k
  | case2 rest h =>
    intro k
    match rest with
    | [] => simp
    | [a] =>
      cases k with
      | zero => rfl
      | succ k =>
        have h₁ : 2 * (k + 1) = 2 * k + 1 + 1 := by omega
        simp [h₁]
    | a :: b :: r => exact absurd rfl (h a b r)

theorem iterate_nextLevel_length (l : List D) (i : Nat) :
    ((nextLevel inner)^[i] l).length = (l.length + 2 ^ i - 1) / 2 ^ i := by
  induction i with
  | zero => simp
  | succ i ih =>
    rw [Function.iterate_succ_apply', nextLevel_length, ih]
    have hp : 0 < 2 ^ i := Nat.two_pow_pos i
    have hdiv : (l.length + 2 ^ i - 1) / 2 ^ i + 1 = (l.length + 2 ^ i - 1 + 2 ^ i) / 2 ^ i :=
      (Nat.add_div_right _ hp).symm
    rw [hdiv, Nat.div_div_eq_div_mul, Nat.pow_succ]
    congr 1
    omega

theorem iterate_nextLevel_singleton (k : Nat) (x : D) : (nextLevel inner)^[k] [x] = [x] := by
  induction k with
  | zero => rfl
  | succ k ih =>
    rw [Function.iterate_succ_apply]
    exact ih

theorem levels_of_iterate {k : Nat} {root : D} (fuel : Nat) (l : List D) (hfuel : l.length ≤ fuel)
    (h : (nextLevel inner)^[k] l = [root]) : levels inner fuel l = [root] := by
  have hnil : ∀ k : Nat, (nextLevel inner)^[k] [] = [] := by
    intro k
    induction k with
    | zero => rfl
    | succ k ih =>
      rw [Function.iterate_succ_apply]
      exact ih
  induction fuel generalizing l k with
  | zero =>
    rw [List.length_eq_zero_iff.mp (Nat.le_zero.mp hfuel), hnil] at h
    cases h
  | succ fuel ih =>
    rw [levels]
    split
    case isTrue hone =>
      obtain ⟨x, rfl⟩ := List.length_eq_one_iff.mp hone
      rwa [iterate_nextLevel_singleton] at h
    case isFalse hmany =>
      cases k with
      | zero => exact absurd (congrArg length h) hmany
      | succ k =>
        have hne : l ≠ [] := by
          rintro rfl
          rw [hnil] at h
          cases h
        have hpos := List.length_pos_iff.mpr hne
        have hnext := nextLevel_length inner l
        rw [Function.iterate_succ_apply] at h
        exact ih (nextLevel inner l) (by omega) h

/-! ## The root by splits -/

section Split

variable (empty : D)

/-- The root of a list that is split at the largest power of two below its length. -/
def splitRoot : List D → D
  | [] => empty
  | [x] => x
  | x :: y :: l =>
    let k := 2 ^ (l.length + 1).log2
    inner (splitRoot ((x :: y :: l).take k)) (splitRoot ((x :: y :: l).drop k))
termination_by l => l.length
decreasing_by
  all_goals
    have hk : 2 ^ (l.length + 1).log2 ≤ l.length + 1 := Nat.log2_self_le (Nat.succ_ne_zero l.length)
    have hpos := Nat.two_pow_pos (l.length + 1).log2
    simp only [length_take, length_drop, length_cons]
    omega

theorem nextLevel_append (l r : List D) (hl : 2 ∣ l.length) :
    nextLevel inner (l ++ r) = nextLevel inner l ++ nextLevel inner r := by
  fun_induction nextLevel inner l with
  | case1 left right rest ih =>
    rw [length_cons, length_cons] at hl
    simp only [cons_append, nextLevel, ih (by omega)]
  | case2 rest h =>
    match rest with
    | [] => rfl
    | [a] => exact absurd hl (by simp)
    | a :: b :: r => exact absurd rfl (h a b r)

theorem iterate_nextLevel_append (k : Nat) (l r : List D) (hl : 2 ^ k ∣ l.length) :
    (nextLevel inner)^[k] (l ++ r) = (nextLevel inner)^[k] l ++ (nextLevel inner)^[k] r := by
  induction k generalizing l r with
  | zero => rfl
  | succ k ih =>
    obtain ⟨m, hm⟩ := hl
    rw [Nat.pow_succ, Nat.mul_right_comm] at hm
    simp only [Function.iterate_succ_apply]
    rw [nextLevel_append inner l r ⟨_, hm.trans (Nat.mul_comm _ 2)⟩]
    apply ih
    rw [nextLevel_length]
    exact ⟨m, by omega⟩

/-- **Level by level and split by split are the same root.** -/
theorem iterate_eq_splitRoot (l : List D) : ∀ k, l ≠ [] → l.length ≤ 2 ^ k →
    (nextLevel inner)^[k] l = [splitRoot inner empty l] := by
  fun_induction splitRoot inner empty l with
  | case1 => exact fun _ hne => absurd rfl hne
  | case2 x => exact fun k _ _ => iterate_nextLevel_singleton inner k x
  | case3 x y l n ihl ihr =>
    intro k _ hk
    have hlow : n ≤ l.length + 1 := Nat.log2_self_le (Nat.succ_ne_zero l.length)
    have hhigh : l.length + 1 < n * 2 := Nat.lt_log2_self
    have hpos : 0 < n := Nat.two_pow_pos _
    rw [length_cons, length_cons] at hk
    have hlt : (l.length + 1).log2 < k := (Nat.pow_lt_pow_iff_right Nat.one_lt_two).mp (by omega : n < 2 ^ k)
    obtain ⟨j, rfl⟩ := Nat.exists_eq_add_of_lt hlt
    have htake : ((x :: y :: l).take n).length = n := by
      simp only [length_take, length_cons]
      omega
    have hdrop : ((x :: y :: l).drop n).length = l.length + 2 - n := by simp
    have hsplit := iterate_nextLevel_append inner (l.length + 1).log2 _ ((x :: y :: l).drop n)
      ⟨1, htake.trans (Nat.mul_one n).symm⟩
    rw [take_append_drop, ihl _ (ne_nil_of_length_pos (by omega)) htake.le,
      ihr _ (ne_nil_of_length_pos (by omega)) (hdrop.trans_le (by omega))] at hsplit
    rw [Nat.add_right_comm, Nat.add_comm _ j, Function.iterate_add_apply,
      Function.iterate_succ_apply', hsplit]
    exact iterate_nextLevel_singleton inner j _

theorem levels_eq_splitRoot (l : List D) (hl : l ≠ []) :
    levels inner l.length l = [splitRoot inner empty l] :=
  levels_of_iterate inner _ l (Nat.le_refl _)
    (iterate_eq_splitRoot inner empty l l.length hl Nat.lt_two_pow_self.le)

end Split

end Levels

/-! ## The tree behind a root -/

inductive Tree (α : Type) where
  | leaf (a : α)
  | node (left right : Tree α)

namespace Tree

variable {α D : Type}

def leaves : Tree α → List α
  | leaf a => [a]
  | node left right => left.leaves ++ right.leaves

/-- The hash of a tree: leaves and inner nodes go through one function, each as an input of its own kind. -/
def hash (h : α ⊕ D × D → D) : Tree α → D
  | leaf a => h (.inl a)
  | node left right => h (.inr (left.hash h, right.hash h))

/-- What is hashed on the way to the root. -/
def inputs (h : α ⊕ D × D → D) : Tree α → Set (α ⊕ D × D)
  | leaf a => {.inl a}
  | node left right => {.inr (left.hash h, right.hash h)} ∪ left.inputs h ∪ right.inputs h

theorem hash_injOn {h : α ⊕ D × D → D} {s t : Tree α}
    (hfree : Set.InjOn h (s.inputs h ∪ t.inputs h)) (heq : s.hash h = t.hash h) : s = t := by
  induction s generalizing t with
  | leaf a =>
    cases t with
    | leaf b =>
      have := hfree (.inl rfl) (.inr rfl) heq
      rw [Sum.inl.inj this]
    | node l r => cases hfree (.inl rfl) (.inr (.inl (.inl rfl))) heq
  | node l r ihl ihr =>
    cases t with
    | leaf b => cases hfree (.inl (.inl (.inl rfl))) (.inr rfl) heq
    | node l' r' =>
      have hpair := Sum.inr.inj (hfree (.inl (.inl (.inl rfl))) (.inr (.inl (.inl rfl))) heq)
      have hl : l = l' := by
        apply ihl _ (Prod.mk.inj hpair).1
        apply hfree.mono
        rintro x (hx | hx)
        · exact .inl (.inl (.inr hx))
        · exact .inr (.inl (.inr hx))
      have hr : r = r' := by
        apply ihr _ (Prod.mk.inj hpair).2
        apply hfree.mono
        rintro x (hx | hx)
        · exact .inl (.inr hx)
        · exact .inr (.inr hx)
      rw [hl, hr]

/-- One pass over a forest. -/
def pairUp : List (Tree α) → List (Tree α)
  | left :: right :: rest => node left right :: pairUp rest
  | rest => rest

theorem pairUp_leaves (ts : List (Tree α)) : (pairUp ts).flatMap leaves = ts.flatMap leaves := by
  fun_induction pairUp ts with
  | case1 left right rest ih => simp [leaves, ih]
  | case2 rest h => rfl

theorem nextLevel_map_hash (h : α ⊕ D × D → D) (ts : List (Tree α)) :
    nextLevel (fun l r => h (.inr (l, r))) (ts.map (hash h)) = (pairUp ts).map (hash h) := by
  fun_induction pairUp ts with
  | case1 left right rest ih =>
    simp only [map_cons, nextLevel, hash]
    rw [ih]
  | case2 rest hrest =>
    match rest with
    | [] => rfl
    | [_] => rfl
    | a :: b :: r => exact absurd rfl (hrest a b r)

/-- The forests behind `levels`. -/
def build : Nat → List (Tree α) → List (Tree α)
  | 0, ts => ts
  | fuel + 1, ts => if ts.length = 1 then ts else build fuel (pairUp ts)

theorem build_leaves (fuel : Nat) (ts : List (Tree α)) :
    (build fuel ts).flatMap leaves = ts.flatMap leaves := by
  induction fuel generalizing ts with
  | zero => rfl
  | succ fuel ih =>
    rw [build]
    split
    · rfl
    · rw [ih, pairUp_leaves]

theorem levels_map_hash (h : α ⊕ D × D → D) (fuel : Nat) (ts : List (Tree α)) :
    levels (fun l r => h (.inr (l, r))) fuel (ts.map (hash h)) = (build fuel ts).map (hash h) := by
  induction fuel generalizing ts with
  | zero => rfl
  | succ fuel ih =>
    rw [levels, build, length_map]
    split
    · rfl
    · rw [nextLevel_map_hash, ih]

/-- What is hashed for the root of a list of leaves. -/
def hashed (h : α ⊕ D × D → D) (as : List α) : Set (α ⊕ D × D) :=
  {x | ∃ t ∈ build as.length (as.map leaf), x ∈ t.inputs h}

theorem leaves_eq_of_root_eq {h : α ⊕ D × D → D} {as bs : List α} {root : D}
    (hfree : Set.InjOn h (hashed h as ∪ hashed h bs))
    (has : levels (fun l r => h (.inr (l, r))) as.length (as.map fun a => h (.inl a)) = [root])
    (hbs : levels (fun l r => h (.inr (l, r))) bs.length (bs.map fun b => h (.inl b)) = [root]) :
      as = bs := by
  have htree : ∀ cs : List α, levels (fun l r => h (.inr (l, r))) cs.length
      (cs.map fun c => h (.inl c)) = [root] →
      ∃ t, build cs.length (cs.map leaf) = [t] ∧ t.hash h = root ∧ t.leaves = cs := by
    intro cs hcs
    have hmap : (cs.map fun c => h (.inl c)) = (cs.map leaf).map (hash h) := by
      rw [map_map]
      rfl
    rw [hmap, levels_map_hash] at hcs
    obtain ⟨t, ht, hroot⟩ := List.map_eq_singleton_iff.mp hcs
    refine ⟨t, ht, hroot, ?_⟩
    have hleaves := build_leaves cs.length (cs.map leaf)
    rw [ht] at hleaves
    simpa [leaves, flatMap_map] using hleaves
  obtain ⟨s, hs, hsroot, hsleaves⟩ := htree as has
  obtain ⟨t, ht, htroot, htleaves⟩ := htree bs hbs
  have heq : s = t := by
    apply hash_injOn _ (hsroot.trans htroot.symm)
    apply hfree.mono
    rintro x (hx | hx)
    · exact .inl ⟨s, by rw [hs]; exact List.mem_singleton.mpr rfl, hx⟩
    · exact .inr ⟨t, by rw [ht]; exact List.mem_singleton.mpr rfl, hx⟩
  rw [← hsleaves, heq, htleaves]

end Tree

end Lib
