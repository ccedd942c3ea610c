import UnionVoyager.Lib.Result
import UnionVoyager.Lib.Varint
import Mathlib.Data.Set.Function

/-!
# Hashed trees of keys and values, and the paths through them

A leaf is hashed behind a head, its key and the hash of its value; an inner node behind a head and the hashes
of its children.  A path of steps, each the bytes before and after the hash of a child, recomputes a root.

* `Format.Admits` — a step can be read in one way only; `walk_follows` — **a path of such steps that
  ends in the root of a tree is a path of the tree**, if no two of the strings hashed collide.
* `Follows.head`, `Follows.last`, `Follows.adjacent` — the sides of the steps tell the place of a leaf.
* `between_not_mem` — in a sorted list nothing is strictly between neighbours.
-/

namespace Lib

open List

/-- No two of the strings have one hash. -/
def NoCollision (H : Bytes → Bytes) (strings : List Bytes) : Prop := ∀ x ∈ strings, ∀ y ∈ strings,
    H x = H y → x = y

theorem NoCollision.mono {H : Bytes → Bytes} {l l' : List Bytes} (h : NoCollision H l)
    (hsub : ∀ x ∈ l', x ∈ l) : NoCollision H l' := by
  intro x hx y hy
  exact h x (hsub x hx) y (hsub y hy)

instance (H : Bytes → Bytes) (l : List Bytes) : Decidable (NoCollision H l) :=
  inferInstanceAs (Decidable (∀ x ∈ l, ∀ y ∈ l, H x = H y → x = y))

/-- What stands before and after the hash of a child. -/
structure Step where
  before : Bytes
  after : Bytes

namespace Step

def input (s : Step) (child : Bytes) : Bytes := s.before ++ child ++ s.after

theorem input_eq (s : Step) (child : Bytes) : s.input child = s.before ++ (child ++ s.after) :=
    append_assoc ..

theorem before_eq {s : Step} (child : Bytes) {front : Bytes}
    (h : s.input child = front ++ (child ++ s.after)) : s.before = front := by
  rw [input_eq] at h
  exact append_cancel_right h

end Step

/-- The hash that a path ends in, from the lowest step up. -/
def walk (H : Bytes → Bytes) (start : Bytes) (path : List Step) : Bytes :=
    path.foldl (fun h s => H (s.input h)) start

/-- What is hashed on the way. -/
def walked (H : Bytes → Bytes) : Bytes → List Step → List Bytes
  | _, [] => []
  | start, s :: path => s.input start :: walked H (H (s.input start)) path

theorem walk_concat (H : Bytes → Bytes) (start : Bytes) (path : List Step) (s : Step) :
    walk H start (path ++ [s]) = H (s.input (walk H start path)) := by
  unfold walk
  rw [foldl_append]
  rfl

variable {start key value : Bytes}

theorem walk_of_foldlM {ε α : Type} {H : Bytes → Bytes} {f : Bytes → α → Except ε Bytes} {step : α → Step}
    {ops : List α} {out : Bytes} (hf : ∀ op ∈ ops, ∀ child out, f child op = .ok out →
      out = H ((step op).input child))
    (h : ops.foldlM f start = .ok out) : out = walk H start (ops.map step) := by
  induction ops generalizing start with
  | nil =>
    cases h
    rfl
  | cons op ops ih =>
    rw [foldlM_cons, bind_eq_ok] at h
    obtain ⟨next, hnext, hrest⟩ := h
    rw [hf op mem_cons_self _ _ hnext] at hrest
    exact ih (fun op' hop' => hf op' (mem_cons_of_mem _ hop')) hrest

theorem walked_concat (H : Bytes → Bytes) (start : Bytes) (path : List Step) (s : Step) :
    walked H start (path ++ [s]) = walked H start path ++ [s.input (walk H start path)] := by
  induction path generalizing start with
  | nil => rfl
  | cons a path ih =>
    show _ :: walked H (H (a.input start)) (path ++ [s]) = _
    rw [ih]
    rfl

theorem walk_length {H : Bytes → Bytes} {w : Nat} (hH : ∀ b, (H b).length = w)
    (hstart : start.length = w) (path : List Step) : (walk H start path).length = w := by
  induction path using reverseRecOn with
  | nil => exact hstart
  | append_singleton path s ih =>
    rw [walk_concat]
    exact hH _

/-! ## Trees -/

/-- How the heads of leaves and inner nodes are written, and what stands before the hash of a child. -/
structure Format (Leaf Node : Type) where
  leafHead : Leaf → Bytes
  nodeHead : Node → Bytes
  child : Bytes

inductive KeyedTree (Leaf Node : Type) where
  | leaf (head : Leaf) (key value : Bytes)
  | node (head : Node) (left right : KeyedTree Leaf Node)

variable {Leaf Node : Type}

namespace Format

variable (F : Format Leaf Node)

def leafInput (head : Leaf) (key valueHash : Bytes) : Bytes :=
  F.leafHead head ++ lenPrefixed key ++ lenPrefixed valueHash

/-- What is hashed for an inner node. -/
def nodeInput (head : Node) (left right : Bytes) : Bytes :=
    F.nodeHead head ++ F.child ++ left ++ F.child ++ right

def leftStep (head : Node) (right : Bytes) : Step := ⟨F.nodeHead head ++ F.child, F.child ++ right⟩

def rightStep (head : Node) (left : Bytes) : Step := ⟨F.nodeHead head ++ F.child ++ left ++ F.child, []⟩

/-- With hashes of `w` bytes: what the step hashes is nothing that is hashed for a leaf, and where
    it is what is hashed for an inner node, the step is that node's, on the one side or the other.
    -/
structure Admits (w : Nat) (s : Step) : Prop where
  not_leaf : ∀ c head key valueHash, c.length = w → s.input c ≠ F.leafInput head key valueHash
  side : ∀ c head left right, c.length = w → left.length = w → right.length = w →
    s.input c = F.nodeInput head left right →
    (s = F.leftStep head right ∧ c = left) ∨ (s = F.rightStep head left ∧ c = right)

end Format

namespace KeyedTree

def leaves : KeyedTree Leaf Node → List (Bytes × Bytes)
  | leaf _ key value => [(key, value)]
  | node _ left right => left.leaves ++ right.leaves

def keys (t : KeyedTree Leaf Node) : List Bytes := t.leaves.map Prod.fst

section Hash

variable (F : Format Leaf Node) (H : Bytes → Bytes)

def hash : KeyedTree Leaf Node → Bytes
  | leaf head key value => H (F.leafInput head key (H value))
  | node head left right => H (F.nodeInput head (left.hash) (right.hash))

/-- What is hashed on the way to the root. -/
def hashed : KeyedTree Leaf Node → List Bytes
  | leaf head key value => [value, F.leafInput head key (H value)]
  | node head left right => F.nodeInput head (left.hash F H) (right.hash F H) :: (left.hashed ++ right.hashed)

theorem hash_length {w : Nat} (hH : ∀ b, (H b).length = w) (t : KeyedTree Leaf Node) :
    (t.hash F H).length = w := by
  cases t with
  | leaf | node => exact hH _

/-- The steps lead from the root down to the leaf. -/
inductive Follows : KeyedTree Leaf Node → List Step → Leaf → Bytes → Bytes → Prop where
  | leaf (head : Leaf) (key value : Bytes) : Follows (.leaf head key value) [] head key value
  | left {l r : KeyedTree Leaf Node} {steps : List Step} {a : Leaf} {key value : Bytes} (head : Node)
      (h : Follows l steps a key value) :
      Follows (.node head l r) (F.leftStep head (r.hash F H) :: steps) a key value
  | right {l r : KeyedTree Leaf Node} {steps : List Step} {a : Leaf} {key value : Bytes} (head : Node)
      (h : Follows r steps a key value) :
      Follows (.node head l r) (F.rightStep head (l.hash F H) :: steps) a key value

end Hash

variable {F : Format Leaf Node} {H : Bytes → Bytes}

variable {t : KeyedTree Leaf Node} {steps : List Step} {a : Leaf}

theorem Follows.mem (h : Follows F H t steps a key value) : (key, value) ∈ t.leaves := by
  induction h with
  | leaf head key value => exact List.mem_singleton.mpr rfl
  | left head h ih => exact mem_append_left _ ih
  | right head h ih => exact mem_append_right _ ih

theorem Follows.value_mem_hashed (h : Follows F H t steps a key value) : value ∈ t.hashed F H := by
  induction h with
  | leaf head key value => exact mem_cons_self
  | left head h ih => exact mem_cons_of_mem _ (mem_append_left _ ih)
  | right head h ih => exact mem_cons_of_mem _ (mem_append_right _ ih)

theorem walk_follows {w : Nat} (hH : ∀ b, (H b).length = w) {path : List Step}
    (hstart : ∀ head left right, left.length = w → right.length = w → start ≠ F.nodeInput head left right)
    (hadmits : ∀ s ∈ path, F.Admits w s) (hfree :
      NoCollision H (t.hashed F H ++ start :: walked H (H start) path))
    (hroot : walk H (H start) path = t.hash F H) :
    ∃ a key value, Follows F H t path.reverse a key value ∧ start = F.leafInput a key (H value) := by
  induction path using reverseRecOn generalizing t with
  | nil =>
    -- the start is hashed to the root itself
    have hmem : start ∈ t.hashed F H ++ start :: walked H (H start) [] := mem_append_right _ mem_cons_self
    cases t with
    | leaf head key value =>
      have heq : start = F.leafInput head key (H value) :=
        hfree _ hmem _ (mem_append_left _ (mem_cons_of_mem _ (List.mem_singleton.mpr rfl))) hroot
      exact ⟨head, key, value, .leaf head key value, heq⟩
    | node head left right =>
      have heq : start = F.nodeInput head (left.hash F H) (right.hash F H) :=
        hfree _ hmem _ (mem_append_left _ mem_cons_self) hroot
      exact absurd heq (hstart _ _ _ (hash_length F H hH _) (hash_length F H hH _))
  | append_singleton path s ih =>
    -- the last step is that of the root, and what is below it is a path of one of its children
    rw [walk_concat] at hroot
    rw [walked_concat] at hfree
    have hs : F.Admits w s := hadmits s (mem_append_right _ (List.mem_singleton.mpr rfl))
    have hpath : ∀ s ∈ path, F.Admits w s := fun x hx => hadmits x (mem_append_left _ hx)
    have hchild : (walk H (H start) path).length = w := walk_length hH (hH start) path
    have hmem : s.input (walk H (H start) path) ∈
        t.hashed F H ++ start :: (walked H (H start) path ++ [s.input (walk H (H start) path)]) := by
      simp
    cases t with
    | leaf head key value =>
      have heq : s.input (walk H (H start) path) = F.leafInput head key (H value) :=
        hfree _ hmem _ (mem_append_left _ (mem_cons_of_mem _ (List.mem_singleton.mpr rfl))) hroot
      exact absurd heq (hs.not_leaf _ _ _ _ hchild)
    | node head left right =>
      have heq : s.input (walk H (H start) path) = F.nodeInput head (left.hash F H) (right.hash F H) :=
        hfree _ hmem _ (mem_append_left _ mem_cons_self) hroot
      rw [reverse_append, reverse_singleton, singleton_append]
      obtain ⟨rfl, hleft⟩ | ⟨rfl, hright⟩ :=
        hs.side _ _ _ _ hchild (hash_length F H hH left) (hash_length F H hH right) heq
      · obtain ⟨a, key, value, hfollows, hinput⟩ := ih (t := left) hpath (by
          apply hfree.mono
          intro x hx
          simp only [hashed, mem_append, mem_cons] at hx ⊢
          tauto) hleft
        exact ⟨a, key, value, .left head hfollows, hinput⟩
      · obtain ⟨a, key, value, hfollows, hinput⟩ := ih (t := right) hpath (by
          apply hfree.mono
          intro x hx
          simp only [hashed, mem_append, mem_cons] at hx ⊢
          tauto) hright
        exact ⟨a, key, value, .right head hfollows, hinput⟩

/-! ## The place of a leaf

A step on the left has the hash of the right child behind it, a step on the right has nothing. -/

theorem leftStep_after {w : Nat} (hw : 0 < w) {right : Bytes} (hright : right.length = w)
    (head : Node) : (F.leftStep head right).after ≠ [] := by
  show F.child ++ right ≠ []
  intro h
  have hlen := congrArg length h
  simp only [length_append, length_nil] at hlen
  omega

theorem Follows.head (h : Follows F H t steps a key value) (hleft : ∀ s ∈ steps, s.after ≠ []) :
    ∃ rest, t.leaves = (key, value) :: rest := by
  induction h with
  | leaf head key value => exact ⟨[], rfl⟩
  | left head h ih =>
    obtain ⟨rest, hrest⟩ := ih fun s hs => hleft s (mem_cons_of_mem _ hs)
    exact ⟨_, by rw [leaves, hrest, cons_append]⟩
  | right head h ih => exact absurd rfl (hleft _ mem_cons_self)

variable {w : Nat} (hH : ∀ b, (H b).length = w) (hw : 0 < w)

include hH hw in
theorem Follows.last (h : Follows F H t steps a key value) (hright : ∀ s ∈ steps, s.after = []) :
    ∃ front, t.leaves = front ++ [(key, value)] := by
  induction h with
  | leaf head key value => exact ⟨[], rfl⟩
  | left head h ih =>
    exact absurd (hright _ mem_cons_self) (leftStep_after hw (hash_length F H hH _) head)
  | right head h ih =>
    obtain ⟨front, hfront⟩ := ih fun s hs => hright s (mem_cons_of_mem _ hs)
    exact ⟨_, by rw [leaves, hfront, ← append_assoc]⟩

include hH hw in
theorem Follows.adjacent {common ls rs : List Step} {s s' : Step} {a' : Leaf} {key' value' : Bytes}
    (h : Follows F H t (common ++ s :: ls) a key value)
      (h' : Follows F H t (common ++ s' :: rs) a' key' value')
    (hs : s.after ≠ []) (hs' : s'.after = []) (hls : ∀ s ∈ ls, s.after = []) (hrs : ∀ s ∈ rs, s.after ≠ []) :
    ∃ front rest, t.leaves = front ++ (key, value) :: (key', value') :: rest := by
  induction common generalizing t with
  | nil =>
    cases h with
    | left head h =>
      cases h' with
      | left _ h' => exact absurd hs' hs
      | right _ h' =>
        obtain ⟨front, hfront⟩ := h.last hH hw hls
        obtain ⟨rest, hrest⟩ := h'.head hrs
        refine ⟨front, rest, ?_⟩
        rw [leaves, hfront, hrest, append_assoc]
        rfl
    | right head h => exact absurd rfl hs
  | cons c common ih =>
    -- a common step goes to one child for both
    cases h with
    | left head h =>
      generalize hc : F.leftStep head _ = c at h'
      cases h' with
      | left _ h' =>
        obtain ⟨front, rest, hleaves⟩ := ih h h'
        exact ⟨front, _, by rw [leaves, hleaves, append_assoc]; rfl⟩
      | right _ h' => exact absurd (congrArg Step.after hc) (leftStep_after hw (hash_length F H hH _) head)
    | right head h =>
      generalize hc : F.rightStep head _ = c at h'
      cases h' with
      | left _ h' => exact absurd (congrArg Step.after hc).symm (leftStep_after hw (hash_length F H hH _) _)
      | right _ h' =>
        obtain ⟨front, rest, hleaves⟩ := ih h h'
        exact ⟨_, rest, by rw [leaves, hleaves, ← append_assoc]⟩

end KeyedTree

/-! ## Sorted keys -/

section Sorted

variable {α : Type} {lt : α → α → Prop} [Std.Irrefl lt] [IsTrans α lt] {k k' x : α} {l r : List α}

theorem before_head_not_mem (hsorted : (k :: l).Pairwise lt) (hx : lt x k) : x ∉ k :: l := by
  intro hmem
  rcases List.mem_cons.mp hmem with rfl | hmem
  · exact Std.Irrefl.irrefl x hx
  · have hkx : lt k x := (List.pairwise_cons.mp hsorted).1 x hmem
    exact Std.Irrefl.irrefl x (IsTrans.trans _ _ _ hx hkx)

theorem after_last_not_mem (hsorted : (l ++ [k]).Pairwise lt) (hx : lt k x) : x ∉ l ++ [k] := by
  intro hmem
  rcases List.mem_append.mp hmem with hmem | hmem
  · have hxk : lt x k := (List.pairwise_append.mp hsorted).2.2 x hmem k (List.mem_singleton.mpr rfl)
    exact Std.Irrefl.irrefl x (IsTrans.trans _ _ _ hxk hx)
  · rw [List.mem_singleton.mp hmem] at hx
    exact Std.Irrefl.irrefl k hx

theorem between_not_mem (hsorted : (l ++ k :: k' :: r).Pairwise lt) (hx : lt k x) (hx' : lt x k') :
    x ∉ l ++ k :: k' :: r := by
  have hfront : (l ++ [k]).Pairwise lt :=
    hsorted.sublist ((append_sublist_append_left l).mpr (List.singleton_sublist.mpr mem_cons_self))
  have hback : (k' :: r).Pairwise lt := (List.pairwise_cons.mp (List.pairwise_append.mp hsorted).2.1).2
  intro hmem
  rw [mem_append, mem_cons] at hmem
  rcases hmem with hmem | rfl | hmem
  · exact after_last_not_mem hfront hx (mem_append_left _ hmem)
  · exact Std.Irrefl.irrefl x hx
  · exact before_head_not_mem hback hx' hmem

end Sorted

end Lib
