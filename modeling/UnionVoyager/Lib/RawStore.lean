import UnionVoyager.Lib.Bytes
import Mathlib.Algebra.BigOperators.Finprod

/-!
# Stores of bytes under keys of bytes

Several maps share one store: the key of an entry is its parts in a row, each but the last one behind
two bytes with its length.
-/

namespace Lib

/-! ## Keys -/

/-- A part of a key that is not its last one. -/
def lengthPrefixed (part : Bytes) : Bytes := beBytes 2 part.length ++ part

/-- The parts of a key in a row, the last one without its length. -/
def joinKey : List Bytes → Bytes → Bytes
  | [], last => last
  | part :: parts, last => lengthPrefixed part ++ joinKey parts last

theorem joinKey_append (ps qs : List Bytes) (last : Bytes) :
    joinKey (ps ++ qs) last = joinKey ps (joinKey qs last) := by
  induction ps with
  | nil => rfl
  | cons p ps ih =>
    show lengthPrefixed p ++ joinKey (ps ++ qs) last = lengthPrefixed p ++ joinKey ps (joinKey qs last)
    rw [ih]

theorem lengthPrefixed_append_inj {a b x y : Bytes} (ha : a.length < 2 ^ 16) (hb : b.length < 2 ^ 16)
    (h : lengthPrefixed a ++ x = lengthPrefixed b ++ y) : a = b ∧ x = y := by
  unfold lengthPrefixed at h
  rw [List.append_assoc, List.append_assoc] at h
  obtain ⟨hlen, hrest⟩ := List.append_inj h (by simp)
  have hlength : a.length = b.length := beBytes_inj 2 (by omega) (by omega) hlen
  exact List.append_inj hrest hlength

theorem joinKey_inj {ps qs : List Bytes} {x y : Bytes} (hps : ∀ p ∈ ps, p.length < 2 ^ 16)
    (hqs : ∀ q ∈ qs, q.length < 2 ^ 16) (hlen : ps.length = qs.length) :
    joinKey ps x = joinKey qs y ↔ ps = qs ∧ x = y := by
  constructor
  · intro h
    induction ps generalizing qs with
    | nil =>
      obtain rfl : qs = [] := List.length_eq_zero_iff.mp hlen.symm
      exact ⟨rfl, h⟩
    | cons p ps ih =>
      match qs, hlen with
      | q :: qs, hlen =>
        obtain ⟨hhead, htail⟩ :=
          lengthPrefixed_append_inj (hps p List.mem_cons_self) (hqs q List.mem_cons_self) h
        obtain ⟨hrest, hlast⟩ := ih (fun p' hp => hps p' (List.mem_cons_of_mem _ hp))
          (fun q' hq => hqs q' (List.mem_cons_of_mem _ hq)) (Nat.succ.inj hlen) htail
        exact ⟨by rw [hhead, hrest], hlast⟩
  · rintro ⟨rfl, rfl⟩
    rfl

/-! ## Stores -/

/-- A finite map from keys to values, both bytes. -/
structure RawStore where
  get : Bytes → Option Bytes
  finite : {k | get k ≠ none}.Finite

namespace RawStore

def empty : RawStore := ⟨fun _ => none, by simp⟩

def set (s : RawStore) (k v : Bytes) : RawStore where
  get := Function.update s.get k (some v)
  finite := by
    apply (s.finite.insert k).subset
    intro x hx
    by_cases hk : x = k
    · exact .inl hk
    · rw [Set.mem_ofPred_eq, Function.update_of_ne hk] at hx
      exact .inr hx

def remove (s : RawStore) (k : Bytes) : RawStore where
  get := Function.update s.get k none
  finite := by
    apply s.finite.subset
    intro x hx
    by_cases hk : x = k
    · subst hk
      simp at hx
    · rwa [Set.mem_ofPred_eq, Function.update_of_ne hk] at hx

@[simp] theorem get_empty (k : Bytes) : empty.get k = none := rfl

theorem get_set (s : RawStore) (k v x : Bytes) : (s.set k v).get x = if x = k then some v else s.get x := by
  unfold set
  by_cases hx : x = k
  · subst hx
    simp
  · simp [hx]

theorem get_remove (s : RawStore) (k x : Bytes) : (s.remove k).get x = if x = k then none else s.get x := by
  unfold remove
  by_cases hx : x = k
  · subst hx
    simp
  · simp [hx]

@[simp] theorem get_set_self (s : RawStore) (k v : Bytes) : (s.set k v).get k = some v := by
  simp [get_set]

@[simp] theorem get_remove_self (s : RawStore) (k : Bytes) : (s.remove k).get k = none := by
  simp [get_remove]

theorem get_set_of_ne {s : RawStore} {k v x : Bytes} (hx : x ≠ k) : (s.set k v).get x = s.get x := by
  simp [get_set, hx]

theorem get_remove_of_ne {s : RawStore} {k x : Bytes} (hx : x ≠ k) : (s.remove k).get x = s.get x := by
  simp [get_remove, hx]

/-! ## Sums over keys -/

section Sum

variable {ι : Type} (value : Bytes → Nat)

/-- What the entry under a key counts for. -/
def amount (s : RawStore) (k : Bytes) : Nat := (s.get k).elim 0 value

/-- What the entries under a family of keys count for together. -/
noncomputable def sumOver (s : RawStore) (keys : ι → Bytes) : Nat := finsum fun i => s.amount value (keys i)

variable {value} {s s' : RawStore} {keys : ι → Bytes}

theorem amount_of_get {k v : Bytes} (h : s.get k = some v) : s.amount value k = value v := by
  rw [amount, h]
  rfl

theorem amount_of_absent {k : Bytes} (h : s.get k = none) : s.amount value k = 0 := by
  rw [amount, h]
  rfl

theorem amount_congr {k : Bytes} (h : s'.get k = s.get k) : s'.amount value k = s.amount value k := by
  rw [amount, amount, h]

theorem sumOver_congr (h : ∀ i, s'.get (keys i) = s.get (keys i)) :
    s'.sumOver value keys = s.sumOver value keys :=
  finsum_congr fun i => amount_congr (h i)

theorem sumOver_of_absent (h : ∀ i, s.get (keys i) = none) : s.sumOver value keys = 0 := by
  unfold sumOver
  simp only [amount_of_absent (h _), finsum_zero]

theorem finite_support (hkeys : Function.Injective keys) :
    (Function.support fun i => s.amount value (keys i)).Finite := by
  apply (s.finite.preimage (f := keys) hkeys.injOn).subset
  intro i hi hnone
  exact hi (amount_of_absent hnone)

/-- **The sum after the entry of one key changed.** -/
theorem sumOver_move (hkeys : Function.Injective keys) (i : ι)
    (h : ∀ j, j ≠ i → s'.get (keys j) = s.get (keys j)) :
    s'.sumOver value keys + s.amount value (keys i) = s.sumOver value keys + s'.amount value (keys i) := by
  classical
  have hfin : (Function.support fun i => s.amount value (keys i)).Finite := finite_support hkeys
  have hsame : ∀ j, j ≠ i → s'.amount value (keys j) = s.amount value (keys j) := fun j hj =>
    amount_congr (h j hj)
  let S := insert i hfin.toFinset
  have hS : (Function.support fun j => s.amount value (keys j)) ⊆ S := by
    intro j hj
    simp only [S, Finset.coe_insert, Set.Finite.coe_toFinset]
    exact .inr hj
  have hS' : (Function.support fun j => s'.amount value (keys j)) ⊆ S := by
    intro j hj
    by_cases hji : j = i
    · simp [S, hji]
    · apply hS
      rwa [Function.mem_support, ← hsame j hji]
  have hi : i ∈ S := Finset.mem_insert_self i _
  have hrest : ∑ j ∈ S.erase i, s'.amount value (keys j) = ∑ j ∈ S.erase i, s.amount value (keys j) :=
    Finset.sum_congr rfl fun j hj => hsame j (Finset.ne_of_mem_erase hj)
  unfold sumOver
  rw [finsum_eq_sum_of_support_subset _ hS, finsum_eq_sum_of_support_subset _ hS',
    ← Finset.add_sum_erase S _ hi, ← Finset.add_sum_erase S (fun j => s.amount value (keys j)) hi, hrest]
  omega

theorem sumOver_set (hkeys : Function.Injective keys) (i : ι) (v : Bytes) :
    (s.set (keys i) v).sumOver value keys + s.amount value (keys i) = s.sumOver value keys + value v := by
  have hmove : (s.set (keys i) v).sumOver value keys + s.amount value (keys i) =
      s.sumOver value keys + (s.set (keys i) v).amount value (keys i) :=
    sumOver_move hkeys i fun j hj => get_set_of_ne (hkeys.ne hj)
  rwa [amount_of_get (get_set_self s (keys i) v)] at hmove

theorem sumOver_remove {k : Bytes} (hk : ∀ i, keys i ≠ k) :
    (s.remove k).sumOver value keys = s.sumOver value keys :=
  sumOver_congr fun i => get_remove_of_ne (hk i)

theorem sumOver_single {i : ι} (h : ∀ j, j ≠ i → s.get (keys j) = none) :
    s.sumOver value keys = s.amount value (keys i) := by
  unfold sumOver
  exact finsum_eq_single _ i fun j hj => amount_of_absent (h j hj)

end Sum

end RawStore

end Lib
