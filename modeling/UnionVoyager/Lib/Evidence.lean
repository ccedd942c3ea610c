import UnionVoyager.Lib.KeyedTree

/-!
# Evidence about hashed trees

* `Evidence.Fits` — the head and the steps leave only one way to read what is hashed; `Evidence.follows`,
  `Evidence.mem_leaves` — **evidence that fits and ends in the root of a tree shows a leaf of it**.
* `Brackets` — a key strictly between two leaves that are shown to be neighbours, or before the
  first or after the last; `Brackets.not_mem` — **it is not a key of a sorted tree**.
-/

namespace Lib

/-- A leaf and a path from it upwards. -/
structure Evidence where
  head : Bytes
  key : Bytes
  value : Bytes
  path : List Step

namespace Evidence

section Root

variable (H : Bytes → Bytes) (e : Evidence)

/-- What is hashed for the leaf. -/
def start : Bytes := e.head ++ lenPrefixed e.key ++ lenPrefixed (H e.value)

def root : Bytes := walk H (H (e.start H)) e.path

def hashed : List Bytes := e.value :: e.start H :: walked H (H (e.start H)) e.path

end Root

variable {Leaf Node : Type} {F : Format Leaf Node} {H : Bytes → Bytes} {w : Nat}
    {t : KeyedTree Leaf Node} {e : Evidence}

/-- What is hashed for the leaf is not what is hashed for an inner node, and where it is what is
    hashed for a leaf with one of the keys, it has the key and the value hash of that leaf.  The
    steps can be read in one way only. -/
structure Fits (F : Format Leaf Node) (H : Bytes → Bytes) (w : Nat) (keys : List Bytes)
    (e : Evidence) : Prop where
  not_node : ∀ a left right, left.length = w → right.length = w → e.start H ≠ F.nodeInput a left right
  leaf : ∀ a key valueHash, key ∈ keys → valueHash.length = w → e.start H = F.leafInput a key valueHash →
    key = e.key ∧ valueHash = H e.value
  admits : ∀ s ∈ e.path, F.Admits w s

theorem follows (hH : ∀ b, (H b).length = w) (hfits : e.Fits F H w t.keys)
    (hfree : NoCollision H (t.hashed F H ++ e.hashed H)) (hroot : e.root H = t.hash F H) :
    ∃ a, t.Follows F H e.path.reverse a e.key e.value := by
  obtain ⟨a, key, value, hfollows, hstart⟩ := KeyedTree.walk_follows hH hfits.not_node hfits.admits (by
    apply hfree.mono
    intro x hx
    rcases List.mem_append.mp hx with hx | hx
    · exact List.mem_append_left _ hx
    · exact List.mem_append_right _ (List.mem_cons_of_mem _ hx)) hroot
  have hkey : key ∈ t.keys := List.mem_map_of_mem hfollows.mem
  obtain ⟨rfl, hvalue⟩ := hfits.leaf a key (H value) hkey (hH value) hstart
  have heq : value = e.value :=
    hfree _ (List.mem_append_left _ hfollows.value_mem_hashed) _
      (List.mem_append_right _ List.mem_cons_self) hvalue
  rw [heq] at hfollows
  exact ⟨a, hfollows⟩

theorem mem_leaves (hH : ∀ b, (H b).length = w) (hfits : e.Fits F H w t.keys)
    (hfree : NoCollision H (t.hashed F H ++ e.hashed H)) (hroot : e.root H = t.hash F H) :
    (e.key, e.value) ∈ t.leaves := by
  obtain ⟨_, hfollows⟩ := follows hH hfits hfree hroot
  exact hfollows.mem

end Evidence

/-! ## Absence -/

/-- The key is strictly between the keys of the evidence on its left and on its right, the steps of
    which are those of neighbours; the side that is missing is the end of the tree. -/
inductive Brackets (lt : Bytes → Bytes → Prop) (key : Bytes) : Option Evidence → Option Evidence → Prop where
  | first (r : Evidence) (hr : lt key r.key) (hpath : ∀ s ∈ r.path, s.after ≠ []) :
      Brackets lt key none (some r)
  | last (l : Evidence) (hl : lt l.key key) (hpath : ∀ s ∈ l.path, s.after = []) :
      Brackets lt key (some l) none
  | between (l r : Evidence) (hl : lt l.key key) (hr : lt key r.key) (common : List Step) (s s' : Step)
      (ls rs : List Step) (hleft : l.path.reverse = common ++ s :: ls)
        (hright : r.path.reverse = common ++ s' :: rs)
      (hs : s.after ≠ []) (hs' : s'.after = []) (hls : ∀ s ∈ ls, s.after = [])
        (hrs : ∀ s ∈ rs, s.after ≠ []) :
      Brackets lt key (some l) (some r)

def sideHashed (H : Bytes → Bytes) : Option Evidence → List Bytes
  | some e => e.hashed H
  | none => []

variable {Leaf Node : Type} {F : Format Leaf Node} {H : Bytes → Bytes} {w : Nat} {t : KeyedTree Leaf Node}
  {lt : Bytes → Bytes → Prop} [Std.Irrefl lt] [IsTrans Bytes lt]

theorem Brackets.not_mem (hH : ∀ b, (H b).length = w) (hw : 0 < w) {key : Bytes}
    {left right : Option Evidence} (h : Brackets lt key left right) (hsorted : t.keys.Pairwise lt)
    (hfits : ∀ e, left = some e ∨ right = some e → e.Fits F H w t.keys ∧ e.root H = t.hash F H)
    (hfree : NoCollision H (t.hashed F H ++ (sideHashed H left ++ sideHashed H right))) : key ∉ t.keys := by
  have hside : ∀ e, left = some e ∨ right = some e → ∃ a, t.Follows F H e.path.reverse a e.key e.value := by
    intro e he
    apply Evidence.follows hH (hfits e he).1 _ (hfits e he).2
    apply hfree.mono
    intro x hx
    rcases he with rfl | rfl <;> simp only [sideHashed, List.mem_append] at hx ⊢ <;> tauto
  unfold KeyedTree.keys at hsorted ⊢
  cases h with
  | first r hr hpath =>
    obtain ⟨a, hfollows⟩ := hside r (.inr rfl)
    obtain ⟨rest, hleaves⟩ := hfollows.head fun s hs => hpath s (List.mem_reverse.mp hs)
    rw [hleaves, List.map_cons] at hsorted ⊢
    exact before_head_not_mem hsorted hr
  | last l hl hpath =>
    obtain ⟨a, hfollows⟩ := hside l (.inl rfl)
    obtain ⟨front, hleaves⟩ := hfollows.last hH hw fun s hs => hpath s (List.mem_reverse.mp hs)
    rw [hleaves, List.map_append, List.map_singleton] at hsorted ⊢
    exact after_last_not_mem hsorted hl
  | between l r hl hr common s s' ls rs hleft hright hs hs' hls hrs =>
    obtain ⟨a, hfollows⟩ := hside l (.inl rfl)
    obtain ⟨a', hfollows'⟩ := hside r (.inr rfl)
    rw [hleft] at hfollows
    rw [hright] at hfollows'
    obtain ⟨front, rest, hleaves⟩ := hfollows.adjacent hH hw hfollows' hs hs' hls hrs
    rw [hleaves, List.map_append, List.map_cons, List.map_cons] at hsorted ⊢
    exact between_not_mem hsorted hl hr

end Lib
