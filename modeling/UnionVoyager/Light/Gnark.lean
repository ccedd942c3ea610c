import Mathlib.Data.ZMod.Basic
import UnionVoyager.Lib.Merkle

/-!
# Gadgets of the circuit

The gadgets of gnark over the scalar field of BN254 with what they mean: those that return a value
as functions, those that assert as propositions.  Over them, the merkle gadget of
`galoisd/pkg/merkle/api.go`.

* `rootHash` — the gadget: an array of fixed length of which `size` leaves count.
* `rootHash_eq` — **it is the merkle root of the first `size` leaf hashes**, whatever the others are.
* `rootHash?_eq` — with its indices checked, the root by splits.
-/

namespace UnionVoyager.Light.Gnark

open Lib List

/-- The order of the scalar field of BN254. -/
def R : Nat := 21888242871839275222246405745257275088548364400416034343698204186575808495617

instance : NeZero R := ⟨by decide⟩

instance : Fact (1 < R) := ⟨by decide⟩

instance two_atLeastTwo : Nat.AtLeastTwo 2 := inferInstance

/-- `frontend.Variable`. -/
abbrev F := ZMod R

def isZero (x : F) : F := if x = 0 then 1 else 0

/-- `Select(b, x, y)`: `x` if `b` is set. -/
def select {α : Type} (b : F) (x y : α) : α := if b = 1 then x else y

/-- `Or` of two bits. -/
def or (a b : F) : F := if a = 1 ∨ b = 1 then 1 else 0

def AssertIsLessOrEqual (a b : F) : Prop := a.val ≤ b.val

def AssertIsBoolean (b : F) : Prop := b = 0 ∨ b = 1

/-- What `ToBinary(x, n)` asserts. -/
def FitsIn (x : F) (n : Nat) : Prop := x.val < 2 ^ n

/-- The bits `ToBinary(x, n)` returns, the least significant one first. -/
def toBinary (x : F) (n : Nat) : List F := (List.range n).map fun i => if x.val.testBit i then 1 else 0

def fromBinary (bits : List F) : F := bits.foldr (fun b acc => b + 2 * acc) 0

/-! ## Small numbers in the field -/

variable {n w : Nat}

theorem cast_eq_zero_iff (hn : n < R) : (n : F) = 0 ↔ n = 0 := by
  rw [ZMod.natCast_eq_zero_iff]
  constructor
  · intro h
    exact Nat.eq_zero_of_dvd_of_lt h hn
  · rintro rfl
    exact dvd_zero R

theorem isZero_cast (hn : n < R) : isZero (n : F) = if n = 0 then 1 else 0 := by
  rw [isZero]
  simp only [cast_eq_zero_iff hn]

theorem cast_pred (hn : n ≠ 0) : (n : F) - 1 = ((n - 1 : Nat) : F) := by
  rw [Nat.cast_sub (Nat.one_le_iff_ne_zero.mpr hn), Nat.cast_one]

@[simp] theorem select_one {α : Type} (x y : α) : select 1 x y = x := if_pos rfl

@[simp] theorem select_zero {α : Type} (x y : α) : select 0 x y = y := if_neg (by decide)

/-! ## The merkle gadget -/

section Merkle

variable (mimc : List F → F)

/-- `LeafHash` of one value. -/
def leafHash (leaf : F) : F := mimc [0, leaf]

def innerHash (left right : F) : F := mimc [1, left, right]

/-- The variables of `RootHash` that its loops assign. -/
structure RootState where
  leafHashes : List F
  size : F
  r : F

/-- The body of the inner loop, for `j = 2 * w`. -/
def rootStep (s : RootState) (w : Nat) : RootState :=
  let left := s.leafHashes.getD (2 * w) 0
  let right := s.leafHashes.getD (2 * w + 1) 0
  let isOrphan := or (isZero s.r) (isZero (s.r - 1))
  let r := select (isZero s.r) s.r (s.r - 1)
  { leafHashes := s.leafHashes.set w (select isOrphan left (innerHash mimc left right))
    size := select (isZero s.size) 0 (select isOrphan s.size (s.size - 1))
    r := select (isZero r) r (r - 1) }

/-- One pass of the outer loop, over the first `count` entries. -/
def rootLevel (count : Nat) (s : RootState) : RootState :=
  (List.range ((count + 1) / 2)).foldl (rootStep mimc) { s with r := s.size }

def rootHash (leafHashes : List F) (size : F) : F :=
  let maxLeaves := leafHashes.length
  let s := (List.range (Nat.clog 2 maxLeaves)).foldl
    (fun s i => rootLevel mimc ((maxLeaves + 2 ^ i - 1) / 2 ^ i) s) ⟨leafHashes, size, size⟩
  select (isZero size) (mimc []) (s.leafHashes.getD 0 0)

/-- What the inner loop has done after `w` rounds on a level `xs`: the first `w` entries of the next
    level are written, the entries from `w` on are still those of `xs`. -/
structure Passed (xs : List F) (w : Nat) (s : RootState) : Prop where
  r : s.r = ((xs.length - 2 * w : Nat) : F)
  size : s.size = ((xs.length - min w (xs.length / 2) : Nat) : F)
  old : ∀ k, w ≤ k → k < xs.length → s.leafHashes[k]? = xs[k]?
  new : ∀ k, k < w → k < (xs.length + 1) / 2 → s.leafHashes[k]? = (nextLevel (innerHash mimc) xs)[k]?

variable {mimc}

variable {xs : List F} {s : RootState}

theorem Passed.start (hsize : s.size = (xs.length : F)) (hold : ∀ k < xs.length, s.leafHashes[k]? = xs[k]?) :
    Passed mimc xs 0 { s with r := s.size } where
  r := hsize
  size := by
    rw [Nat.zero_min]
    exact hsize
  old k _ hk := hold k hk
  new k hk _ := absurd hk (Nat.not_lt_zero k)

theorem Passed.read {k : Nat} (h : Passed mimc xs w s) (hw : w ≤ k) {x : F} (hx : xs[k]? = some x) :
    s.leafHashes.getD k 0 = x := by
  rw [getD_eq_getElem?_getD, h.old k hw (List.getElem?_eq_some_iff.mp hx).1, hx]
  rfl

theorem Passed.next {s' : RootState} (h : Passed mimc xs w s) {x : F}
    (hleaves : s'.leafHashes = s.leafHashes.set w x)
    (hr : s'.r = ((xs.length - 2 * (w + 1) : Nat) : F))
    (hsize : s'.size = ((xs.length - min (w + 1) (xs.length / 2) : Nat) : F))
    (hx : w < (xs.length + 1) / 2 → (nextLevel (innerHash mimc) xs)[w]? = some x) :
      Passed mimc xs (w + 1) s' := by
  refine ⟨hr, hsize, ?_, ?_⟩
  · intro k hk hkl
    rw [hleaves, getElem?_set_ne (by omega)]
    exact h.old k (by omega) hkl
  · intro k hk hkl
    rw [hleaves]
    by_cases hkw : k = w
    · subst hkw
      have hbound : k < s.leafHashes.length := by
        have hold := h.old k (Nat.le_refl k) (by omega)
        have hin : xs[k]? = some xs[k] := getElem?_eq_getElem (by omega)
        rw [hin] at hold
        exact (List.getElem?_eq_some_iff.mp hold).1
      rw [getElem?_set_self hbound, hx hkl]
    · rw [getElem?_set_ne (Ne.symm hkw)]
      exact h.new k (by omega) hkl

/-- **One round of the inner loop**: a pair is hashed, a last one alone is carried over, and when nothing
    is left what is written does not matter. -/
theorem Passed.step (hpos : 0 < xs.length) (hlt : xs.length < R) (h : Passed mimc xs w s) :
    Passed mimc xs (w + 1) (rootStep mimc s w) := by
  have hr : isZero s.r = if xs.length - 2 * w = 0 then 1 else 0 := by rw [h.r, isZero_cast (by omega)]
  have hsize : isZero s.size = 0 := by rw [h.size, isZero_cast (by omega), if_neg (by omega)]
  rcases Nat.lt_trichotomy (2 * w + 1) xs.length with hpair | hlast | hnone
  · have horphan : or (isZero s.r) (isZero (s.r - 1)) = 0 := by
      rw [hr, if_neg (by omega), h.r, cast_pred (by omega), isZero_cast (by omega), if_neg (by omega)]
      decide
    have hleft : xs[2 * w]? = some xs[2 * w] := getElem?_eq_getElem (by omega)
    have hright : xs[2 * w + 1]? = some xs[2 * w + 1] := getElem?_eq_getElem hpair
    apply h.next rfl
    · simp only [rootStep]
      rw [hr, if_neg (by omega), select_zero, h.r, cast_pred (by omega), isZero_cast (by omega),
        if_neg (by omega), select_zero, cast_pred (by omega)]
      rfl
    · simp only [rootStep]
      rw [hsize, select_zero, horphan, select_zero, h.size, cast_pred (by omega)]
      congr 1
      omega
    · intro _
      rw [nextLevel_getElem?, hleft, hright, horphan, select_zero, h.read (by omega) hleft,
        h.read (by omega) hright]
  · have horphan : or (isZero s.r) (isZero (s.r - 1)) = 1 := by
      rw [hr, if_neg (by omega), h.r, cast_pred (by omega), isZero_cast (by omega), if_pos (by omega)]
      decide
    have hleft : xs[2 * w]? = some xs[2 * w] := getElem?_eq_getElem (by omega)
    apply h.next rfl
    · simp only [rootStep]
      rw [hr, if_neg (by omega), select_zero, h.r, cast_pred (by omega), isZero_cast (by omega),
        if_pos (by omega), select_one]
      congr 1
      omega
    · simp only [rootStep]
      rw [hsize, select_zero, horphan, select_one, h.size]
      congr 1
      omega
    · intro _
      have hright : xs[2 * w + 1]? = none := getElem?_eq_none (by omega)
      rw [nextLevel_getElem?, hleft, hright, horphan, select_one, h.read (by omega) hleft]
  · have hzero : isZero s.r = 1 := by rw [hr, if_pos (by omega)]
    have horphan : or (isZero s.r) (isZero (s.r - 1)) = 1 := by rw [hzero, or, if_pos (.inl rfl)]
    apply h.next rfl
    · simp only [rootStep]
      rw [hzero, select_one, hzero, select_one, h.r]
      congr 1
      omega
    · simp only [rootStep]
      rw [hsize, select_zero, horphan, select_one, h.size]
      congr 1
      omega
    · intro hw
      omega

/-- The array holds a level when its first entries are that level and `size` is its length. -/
structure Holds (xs : List F) (s : RootState) : Prop where
  size : s.size = (xs.length : F)
  entries : ∀ k < xs.length, s.leafHashes[k]? = xs[k]?

/-- **One pass of the outer loop** turns a level into the next, if the pass is long enough. -/
theorem Holds.level {count : Nat} (hpos : 0 < xs.length) (hlt : xs.length < R) (hcount : xs.length ≤ count)
    (h : Holds xs s) : Holds (nextLevel (innerHash mimc) xs) (rootLevel mimc count s) := by
  have hpassed : ∀ w, Passed mimc xs w ((List.range w).foldl (rootStep mimc) { s with r := s.size }) := by
    intro w
    induction w with
    | zero => exact Passed.start h.size h.entries
    | succ w ih =>
      rw [range_succ, foldl_append]
      exact ih.step hpos hlt
  have hend := hpassed ((count + 1) / 2)
  have hlen := nextLevel_length (innerHash mimc) xs
  constructor
  · rw [hlen]
    refine hend.size.trans ?_
    congr 1
    omega
  · intro k hk
    exact hend.new k (by omega) (by omega)

theorem rootHash_eq {leafHashes : List F} {size : F} {root : F} (hpos : 0 < xs.length)
    (hle : xs.length ≤ leafHashes.length) (hlt : leafHashes.length < R) (hsize : size = (xs.length : F))
    (hxs : ∀ k < xs.length, leafHashes[k]? = xs[k]?) (hroot : levels (innerHash mimc) xs.length xs = [root]) :
    rootHash mimc leafHashes size = root := by
  have hholds : ∀ i, Holds ((nextLevel (innerHash mimc))^[i] xs) ((List.range i).foldl
      (fun s i => rootLevel mimc ((leafHashes.length + 2 ^ i - 1) / 2 ^ i) s) ⟨leafHashes, size, size⟩) := by
    intro i
    induction i with
    | zero => exact ⟨hsize, hxs⟩
    | succ i ih =>
      have hp : 0 < 2 ^ i := Nat.two_pow_pos i
      have hlen := iterate_nextLevel_length (innerHash mimc) xs i
      have hge : 1 ≤ (xs.length + 2 ^ i - 1) / 2 ^ i := (Nat.le_div_iff_mul_le hp).mpr (by omega)
      have hmono : (xs.length + 2 ^ i - 1) / 2 ^ i ≤ (leafHashes.length + 2 ^ i - 1) / 2 ^ i :=
        Nat.div_le_div_right (by omega)
      have hself : (xs.length + 2 ^ i - 1) / 2 ^ i ≤ xs.length := by
        obtain ⟨n, hn⟩ := Nat.exists_eq_add_of_lt hpos
        have := Nat.le_mul_of_pos_left n hp
        apply Nat.div_le_of_le_mul
        rw [hn, Nat.zero_add, Nat.mul_succ]
        omega
      rw [range_succ, foldl_append, Function.iterate_succ_apply']
      exact ih.level (by omega) (by omega) (by omega)
  have hend := hholds (Nat.clog 2 leafHashes.length)
  have hone : ((nextLevel (innerHash mimc))^[Nat.clog 2 leafHashes.length] xs).length = 1 := by
    have hpow : leafHashes.length ≤ 2 ^ Nat.clog 2 leafHashes.length := Nat.le_pow_clog (by decide) _
    rw [iterate_nextLevel_length]
    apply Nat.div_eq_of_lt_le
    · omega
    · omega
  obtain ⟨last, hlast⟩ := List.length_eq_one_iff.mp hone
  have hsame := levels_of_iterate (innerHash mimc) xs.length xs (Nat.le_refl _) hlast
  rw [hroot, List.cons.injEq] at hsame
  have hentry := hend.entries 0 (by omega)
  have hnonzero : isZero size = 0 := by rw [hsize, isZero_cast (by omega), if_neg (by omega)]
  simp only [rootHash]
  rw [hnonzero, select_zero, getD_eq_getElem?_getD, hentry, hlast, hsame.1]
  rfl

/-! ## The gadget with its indices checked -/

/-- The entries the gadget reads and writes. -/
def accesses (maxLeaves : Nat) : List Nat :=
  (List.range (Nat.clog 2 maxLeaves)).flatMap (fun i =>
    (List.range (((maxLeaves + 2 ^ i - 1) / 2 ^ i + 1) / 2)).flatMap fun w => [2 * w, 2 * w + 1, w]) ++ [0]

variable (mimc) in
/-- `RootHash`, with the panic of an index out of range. -/
def rootHash? (leafHashes : List F) (size : F) : Option F :=
  if ∀ k ∈ accesses leafHashes.length, k < leafHashes.length then some
    (rootHash mimc leafHashes size) else none

theorem accesses_lt {m k : Nat} (hpos : 0 < m) (heven : m % 2 = 0) (hk : k ∈ accesses m) : k < m := by
  simp only [accesses, mem_append, mem_flatMap, mem_range, mem_cons, not_mem_nil, or_false] at hk
  rcases hk with ⟨i, -, w, hw, hk⟩ | hk
  · have hcount : (m + 2 ^ i - 1) / 2 ^ i ≤ m ∧ (i = 0 ∨ (m + 2 ^ i - 1) / 2 ^ i ≤ m / 2) := by
      cases i with
      | zero => simp
      | succ i =>
        have hhalf : (m + 2 ^ (i + 1) - 1) / 2 ^ (i + 1) ≤ m / 2 := by
          have hle : m / 2 ≤ 2 ^ i * (m / 2) := Nat.le_mul_of_pos_left _ (Nat.two_pow_pos i)
          have hmul : (m / 2 + 1) * 2 ^ (i + 1) = 2 * (2 ^ i * (m / 2)) + 2 ^ (i + 1) := by
            rw [Nat.succ_mul, Nat.pow_succ', Nat.mul_comm (m / 2), Nat.mul_assoc]
          apply Nat.le_of_lt_succ
          rw [Nat.div_lt_iff_lt_mul (Nat.two_pow_pos _), hmul]
          have := Nat.two_pow_pos (i + 1)
          omega
        exact ⟨by omega, .inr hhalf⟩
    omega
  · omega

theorem rootHash?_eq {leafHashes : List F} {size : Nat} (hpos : 0 < leafHashes.length)
    (heven : leafHashes.length % 2 = 0) (hint : leafHashes.length < 2 ^ 63)
      (hsize : size ≤ leafHashes.length) :
    rootHash? mimc leafHashes (size : F) = some
      (splitRoot (innerHash mimc) (mimc []) (leafHashes.take size)) := by
  have hR : (2 : Nat) ^ 63 < R := by decide
  rw [rootHash?, if_pos fun k hk => accesses_lt hpos heven hk]
  have hlen : (leafHashes.take size).length = size := by simpa using hsize
  cases size with
  | zero =>
    simp only [rootHash, Nat.cast_zero, isZero, if_true, select_one, take_zero, splitRoot]
  | succ n =>
    have hne : leafHashes.take (n + 1) ≠ [] := ne_nil_of_length_pos (by omega)
    have hlevels := levels_eq_splitRoot (innerHash mimc) (mimc []) (leafHashes.take (n + 1)) hne
    rw [rootHash_eq (by omega) (by omega) (by omega) (by rw [hlen]) ?_ hlevels]
    intro k hk
    exact (getElem?_take_of_lt (by omega)).symm

theorem rootHash?_two : rootHash? sum [5, 6] ((1 : Nat) : F) =
    some (splitRoot (innerHash sum) (sum []) (([5, 6] : List F).take 1)) :=
  rootHash?_eq (by decide) (by decide) (by decide) (by decide)

theorem rootHash?_empty :
    rootHash? sum [] ((0 : Nat) : F) ≠ some (splitRoot (innerHash sum) (sum []) (([] : List F).take 0)) := by
  have hpanic : rootHash? sum [] ((0 : Nat) : F) = none := if_neg (by decide)
  rw [hpanic]
  exact (Option.some_ne_none _).symm

end Merkle

end UnionVoyager.Light.Gnark
