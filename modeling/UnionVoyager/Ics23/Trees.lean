import UnionVoyager.Lib.Evidence

/-!
# The trees of the chain

The IAVL tree of a store and the tendermint tree of the stores' roots, as the chain hashes them, and
which leaf heads and steps can be read in one way only.

* `IavlStep.admits`, `TendermintStep.admits` — a step of the shape is that of an inner node, on one
  of its sides.
* `Hides`, `fits_tendermint` — a head that only starts with the leaf byte may take its key from
  inside another.
-/

namespace UnionVoyager.Ics23

open Lib List

/-! ## The IAVL tree -/

/-- The version of a leaf, a non-negative 64-bit number. -/
structure LeafNumbers where
  version : Nat
  version_lt : version < 2 ^ 63

structure NodeNumbers where
  height : Nat
  size : Nat
  version : Nat
  height_pos : 0 < height
  height_lt : height < 2 ^ 63
  size_lt : size < 2 ^ 63
  version_lt : version < 2 ^ 63

/-- A non-negative number in zigzag encoding. -/
def zigzag (n : Nat) : Bytes := leb128 (2 * n)

abbrev IavlTree := KeyedTree LeafNumbers NodeNumbers

/-- A leaf has height 0 and size 1; hashes stand behind their length. -/
def iavl : Format LeafNumbers NodeNumbers where
  leafHead := fun a => zigzag 0 ++ zigzag 1 ++ zigzag a.version
  nodeHead := fun a => zigzag a.height ++ zigzag a.size ++ zigzag a.version
  child := [32]

/-! ## The tendermint tree -/

abbrev TendermintTree := KeyedTree Unit Unit

def tendermint : Format Unit Unit where
  leafHead := fun _ => [0]
  nodeHead := fun _ => [1]
  child := []

/-! ## Three varints -/

/-- What follows three varints. -/
def skipVarints (b : Bytes) : Option Bytes := do
  let (_, b) ← decodeVarint b
  let (_, b) ← decodeVarint b
  let (_, b) ← decodeVarint b
  some b

theorem skipVarints_append {b r : Bytes} (h : skipVarints b = some r) (x : Bytes) :
    skipVarints (b ++ x) = some (r ++ x) := by
  simp only [skipVarints, Option.bind_eq_bind, Option.bind_eq_some_iff, Prod.exists, Option.some.injEq] at h
  obtain ⟨n₁, r₁, h₁, n₂, r₂, h₂, n₃, r₃, h₃, rfl⟩ := h
  simp [skipVarints, decodeVarint_append h₁, decodeVarint_append h₂, decodeVarint_append h₃]

theorem skipVarints_zigzag {l m n : Nat} (hl : l < 2 ^ 63) (hm : m < 2 ^ 63) (hn : n < 2 ^ 63)
    (x : Bytes) : skipVarints (zigzag l ++ zigzag m ++ zigzag n ++ x) = some x := by
  unfold zigzag
  simp only [append_assoc, skipVarints, Option.bind_eq_bind]
  rw [decodeVarint_leb128 (by omega), Option.bind_some, decodeVarint_leb128 (by omega), Option.bind_some,
    decodeVarint_leb128 (by omega), Option.bind_some]

theorem zigzag_head {n : Nat} (x : Bytes) : (zigzag n ++ x).head? = some 0 ↔ n = 0 := by
  unfold zigzag
  rw [leb128_head]
  omega

theorem iavl_leafInput_head (a : LeafNumbers) (key valueHash : Bytes) :
    (iavl.leafInput a key valueHash).head? = some 0 := by
  show (zigzag 0 ++ zigzag 1 ++ zigzag a.version ++ lenPrefixed key ++ lenPrefixed valueHash).head? = some 0
  simp only [append_assoc]
  exact (zigzag_head _).mpr rfl

theorem iavl_nodeInput_head (a : NodeNumbers) (left right : Bytes) :
    (iavl.nodeInput a left right).head? ≠ some 0 := by
  show (zigzag a.height ++ zigzag a.size ++ zigzag a.version ++ [32] ++ left ++ [32] ++ right).head? ≠ some 0
  simp only [append_assoc]
  rw [Ne, zigzag_head]
  have := a.height_pos
  omega

theorem skipVarints_leafInput (a : LeafNumbers) (key valueHash : Bytes) :
    skipVarints (iavl.leafInput a key valueHash) = some (lenPrefixed key ++ lenPrefixed valueHash) := by
  have := skipVarints_zigzag (show 0 < 2 ^ 63 by omega) (show 1 < 2 ^ 63 by omega) a.version_lt
    (lenPrefixed key ++ lenPrefixed valueHash)
  rw [← this]
  simp only [Format.leafInput, iavl, append_assoc]

theorem skipVarints_nodeInput (a : NodeNumbers) (left right : Bytes) :
    skipVarints (iavl.nodeInput a left right) = some ([32] ++ left ++ [32] ++ right) := by
  rw [← skipVarints_zigzag a.height_lt a.size_lt a.version_lt ([32] ++ left ++ [32] ++ right)]
  simp only [Format.nodeInput, iavl, append_assoc]

/-! ## Steps with one reading -/

/-- Starting with a byte other than 0, and there is one. -/
def NotLeafByte (b : Bytes) : Prop := b ≠ [] ∧ b.head? ≠ some 0

theorem NotLeafByte.append {b : Bytes} (h : NotLeafByte b) (x : Bytes) : (b ++ x).head? ≠ some 0 := by
  obtain ⟨hne, hhead⟩ := h
  rw [head?_append_of_ne_nil _ hne]
  exact hhead

/-- Three varints, then the length byte of the child or that and a whole child before it. -/
structure IavlStep (s : Step) : Prop where
  head : NotLeafByte s.before
  varints : ∃ r, skipVarints s.before = some r ∧ (r.length = 1 ∨ r.length = 34)
  suffix : 33 ∣ s.after.length

theorem IavlStep.admits {s : Step} (h : IavlStep s) : iavl.Admits 32 s where
  not_leaf := by
    intro c a key valueHash _ heq
    have hhead := h.head.append (c ++ s.after)
    rw [← Step.input_eq, heq] at hhead
    exact hhead (iavl_leafInput_head a key valueHash)
  side := by
    intro c a left right hc hleft hright heq
    obtain ⟨r, hr, hlen⟩ := h.varints
    -- behind the varints the two readings leave the same bytes
    have hrest : r ++ (c ++ s.after) = [32] ++ (left ++ ([32] ++ right)) := by
      have hskip := skipVarints_append hr (c ++ s.after)
      rw [← Step.input_eq, heq, skipVarints_nodeInput] at hskip
      simpa only [append_assoc] using (Option.some.inj hskip).symm
    have htotal := congrArg List.length hrest
    simp only [length_append, length_singleton] at htotal
    obtain ⟨n, hn⟩ := h.suffix
    rcases hlen with hlen | hlen
    · left
      obtain ⟨rfl, htail⟩ := append_inj hrest (by rw [hlen]; rfl)
      obtain ⟨rfl, hafter⟩ := append_inj htail (by omega)
      have hbefore : s.before = iavl.nodeHead a ++ [32] := by
        apply Step.before_eq c
        rw [heq, hafter]
        simp only [Format.nodeInput, iavl, append_assoc]
      exact ⟨by cases s; cases hbefore; cases hafter; rfl, rfl⟩
    · right
      have hafter : s.after = [] := List.length_eq_zero_iff.mp (by omega)
      have hsplit : r ++ c = ([32] ++ left ++ [32]) ++ right := by
        simpa only [hafter, append_nil, append_assoc] using hrest
      obtain ⟨-, rfl⟩ := append_inj hsplit (by simp [hlen, hleft])
      have hbefore : s.before = iavl.nodeHead a ++ [32] ++ left ++ [32] := by
        apply Step.before_eq c
        rw [heq, hafter]
        simp only [Format.nodeInput, iavl, append_assoc, append_nil]
      exact ⟨by cases s; cases hbefore; cases hafter; rfl, rfl⟩

/-- The byte of an inner node, or that and a whole child. -/
structure TendermintStep (s : Step) : Prop where
  head : NotLeafByte s.before
  length : s.before.length ≤ 33
  suffix : 32 ∣ s.after.length

theorem TendermintStep.admits {s : Step} (h : TendermintStep s) : tendermint.Admits 32 s where
  not_leaf := by
    intro c a key valueHash _ heq
    have hhead := h.head.append (c ++ s.after)
    rw [← Step.input_eq, heq] at hhead
    exact hhead rfl
  side := by
    intro c a left right hc hleft hright heq
    have hinput : s.before ++ (c ++ s.after) = [1] ++ (left ++ right) := by
      rw [← Step.input_eq, heq]
      simp only [Format.nodeInput, tendermint, append_assoc, nil_append]
    have htotal := congrArg List.length hinput
    simp only [length_append, length_singleton] at htotal
    have hpos : 0 < s.before.length := List.length_pos_iff.mpr h.head.1
    have hlen := h.length
    obtain ⟨n, hn⟩ := h.suffix
    have hside : s.after.length = 32 ∨ s.after.length = 0 := by omega
    rcases hside with hside | hside
    · left
      obtain ⟨hbefore, htail⟩ := append_inj hinput (by simp only [length_singleton]; omega)
      obtain ⟨rfl, hafter⟩ := append_inj htail (by omega)
      exact ⟨by cases s; cases hbefore; cases hafter; rfl, rfl⟩
    · right
      have hafter : s.after = [] := List.length_eq_zero_iff.mp hside
      rw [hafter, append_nil, ← append_assoc] at hinput
      obtain ⟨hbefore, rfl⟩ := append_inj hinput (by simp only [length_append, length_singleton]; omega)
      refine ⟨?_, rfl⟩
      cases s
      cases hbefore
      cases hafter
      simp [Format.rightStep, tendermint]

/-! ## Leaf heads with one reading -/

def LeafByte (b : Bytes) : Prop := b.head? = some 0

theorem LeafByte.append {b : Bytes} (h : LeafByte b) (x : Bytes) : (b ++ x).head? = some 0 := by
  match b, h with
  | _ :: _, h => exact h

variable {H : Bytes → Bytes} {e : Evidence}

theorem start_head (h : LeafByte e.head) : (e.start H).head? = some 0 := by
  unfold Evidence.start
  rw [append_assoc]
  exact h.append _

theorem fits_iavl {keys : List Bytes} (hbyte : LeafByte e.head) (hvarints : skipVarints e.head = some [])
    (hpath : ∀ s ∈ e.path, IavlStep s) : e.Fits iavl H 32 keys where
  not_node := by
    intro a left right _ _ heq
    have hhead := start_head (H := H) hbyte
    rw [heq] at hhead
    exact iavl_nodeInput_head a left right hhead
  leaf := by
    intro a key valueHash _ _ heq
    have hskip := skipVarints_append hvarints (lenPrefixed e.key ++ lenPrefixed (H e.value))
    rw [← append_assoc] at hskip
    have hrest : lenPrefixed key ++ lenPrefixed valueHash = lenPrefixed e.key ++ lenPrefixed (H e.value) := by
      have hleaf := skipVarints_leafInput a key valueHash
      rw [← heq] at hleaf
      exact Option.some.inj (hleaf.symm.trans hskip)
    obtain ⟨rfl, hvalue⟩ := lenPrefixed_inj hrest
    have hnil : lenPrefixed valueHash ++ [] = lenPrefixed (H e.value) ++ [] := by rw [hvalue]
    exact ⟨rfl, (lenPrefixed_inj hnil).1⟩
  admits := fun s hs => (hpath s hs).admits

/-- A key behind its length ends another key behind its length. -/
def Hides (key inside : Bytes) : Prop := lenPrefixed inside <:+ lenPrefixed key

instance (key inside : Bytes) : Decidable (Hides key inside) := inferInstanceAs (Decidable (_ <:+ _))

theorem lenPrefixed_hash_length {h : Bytes} (hh : h.length = 32) : (lenPrefixed h).length = 33 := by
  rw [lenPrefixed, hh, length_append, hh]
  rfl

theorem fits_tendermint {keys : List Bytes} (hH : ∀ b, (H b).length = 32) (hbyte : LeafByte e.head)
    (hplain : ∀ key ∈ keys, Hides key e.key → key = e.key) (hpath : ∀ s ∈ e.path, TendermintStep s) :
    e.Fits tendermint H 32 keys where
  not_node := by
    intro a left right _ _ heq
    have hhead := start_head (H := H) hbyte
    rw [heq] at hhead
    cases hhead
  leaf := by
    intro a key valueHash hkey hlen heq
    obtain ⟨head, hhead⟩ : ∃ head, e.head = 0 :: head := List.head?_eq_some_iff.mp hbyte
    have hbody : (0 :: head ++ lenPrefixed e.key) ++ lenPrefixed (H e.value) =
        ([0] ++ lenPrefixed key) ++ lenPrefixed valueHash := by
      rw [← hhead]
      exact heq
    obtain ⟨hfront, hvalue⟩ := append_inj' hbody
      (by rw [lenPrefixed_hash_length (hH _), lenPrefixed_hash_length hlen])
    have hsuffix : Hides key e.key := by
      refine ⟨head, ?_⟩
      simpa only [cons_append, List.cons.injEq, true_and, nil_append] using hfront
    have hnil : lenPrefixed (H e.value) ++ [] = lenPrefixed valueHash ++ [] := by rw [hvalue]
    exact ⟨hplain key hkey hsuffix, (lenPrefixed_inj hnil).1.symm⟩
  admits := fun s hs => (hpath s hs).admits

end UnionVoyager.Ics23
