import UnionVoyager.Light.StarknetStorage

/-!
# What a starknet storage proof shows

The walk of `verify_proof` follows the tree as long as the prover sent the tree's nodes, so where it
ends is read off the tree (`Subtree.reach`): at an edge away from the key, at an inner node that was
not sent, whose hash is compared with the value, or at the value stored under the key, from where
the walk may go on (`Slides`).

* `walkAll_reach`, `walkAll_slides` — the walk in the tree, and behind the stored value.
-/

namespace UnionVoyager.Light.Starknet

open Lib EvmStorage List

/-! ## Bits -/

theorem bitsNat_concat (bits : List Bool) (bit : Bool) :
    bitsNat (bits ++ [bit]) = 2 * bitsNat bits + bit.toNat := by
  rw [bitsNat, foldl_append]
  rfl

theorem bitsNat_lt (bits : List Bool) : bitsNat bits < 2 ^ bits.length := by
  induction bits using reverseRecOn with
  | nil => decide
  | append_singleton bits bit ih =>
    have hbit := Bool.toNat_le bit
    rw [bitsNat_concat, length_append, length_singleton, Nat.pow_succ]
    omega

theorem testBit_bitsNat (bits : List Bool) : ∀ i (hi : i < bits.length),
    (bitsNat bits).testBit (bits.length - 1 - i) = bits[i] := by
  induction bits using reverseRecOn with
  | nil => exact fun i hi => absurd hi (Nat.not_lt_zero i)
  | append_singleton bits bit ih =>
    intro i hi
    rw [length_append, length_singleton] at hi
    rw [bitsNat_concat, length_append, length_singleton, Nat.add_sub_cancel]
    rcases Nat.lt_or_ge i bits.length with hlt | hge
    · have hindex : bits.length - i = bits.length - 1 - i + 1 := by omega
      have hhalf : (2 * bitsNat bits + bit.toNat) / 2 = bitsNat bits := by
        have := Bool.toNat_le bit
        omega
      rw [hindex, Nat.testBit_succ, hhalf, ih i hlt, getElem_append_left hlt]
    · have hlast : i = bits.length := by omega
      subst hlast
      rw [Nat.sub_self, Nat.testBit_zero, getElem_concat_length rfl]
      cases bit <;> simp

theorem drop_feltBits (felt : CryptoFelt) : (feltBits felt).drop 5 = pathOf felt.val := by
  apply ext_getElem
  · simp [feltBits, pathOf]
  · intro i hi _
    simp only [feltBits, pathOf, getElem_drop, getElem_map, getElem_range]
    congr 1
    simp [feltBits] at hi
    omega

@[simp] theorem pathOf_length (key : Nat) : (pathOf key).length = 251 := by simp [pathOf]

theorem val_toCryptoFelt {key : Felt} (hkey : key.toNat < 2 ^ 251) : (toCryptoFelt key).val = key.toNat := by
  apply Nat.mod_eq_of_lt
  unfold PRIME
  omega

variable {bits : List Bool}

theorem val_bitsFelt (hlen : bits.length ≤ 251) : (bitsFelt bits).val = bitsNat bits := by
  have hlt := (bitsNat_lt bits).trans_le (Nat.pow_le_pow_right (by decide) hlen)
  apply Nat.mod_eq_of_lt
  unfold PRIME
  omega

theorem drop_pathOf_bitsNat (hlen : bits.length ≤ 251) :
    (pathOf (bitsNat bits)).drop (251 - bits.length) = bits := by
  apply ext_getElem
  · simp only [length_drop, pathOf_length]
    omega
  · intro i hi hi'
    simp only [pathOf, getElem_drop, getElem_map, getElem_range]
    rw [← testBit_bitsNat bits i hi']
    congr 1
    omega

theorem toNat_ofNat_length (hlen : bits.length ≤ 251) : (UInt8.ofNat bits.length).toNat = bits.length := by
  rw [UInt8.toNat_ofNat']
  omega

theorem word_eq_iff {root : CryptoFelt} {value : Felt} : beBytes 32 root.val = toBeBytes value ↔
      root.val = value.toNat := by
  constructor
  · exact beBytes_inj 32 (root.isLt.trans (PRIME_lt.trans_le (by decide))) (value.lt.trans_le (by decide))
  · intro h
    rw [h, toBeBytes]

variable {H : CryptoFelt → CryptoFelt → CryptoFelt}

/-! ## One node of the tree -/

theorem descend_binaryNode (left right : Subtree) (bit : Bool) (rest : List Bool) :
    descend (Subtree.binaryNode H left right) (bit :: rest) =
      .ok (some ((if bit then right else left).digest H, rest)) := by
  cases bit <;> rfl

theorem descend_edgeNode {path : List Bool} (child : Subtree) (hlen : path.length ≤ bits.length)
    (hbits : bits.length ≤ 251) : descend (Subtree.edgeNode H path child) bits =
      .ok (if bits.take path.length = path then some (child.digest H, bits.drop path.length) else none) := by
  have hpath : path.length ≤ 251 := hlen.trans hbits
  have hview : ((feltBits (bitsFelt path)).drop 5).drop (251 - path.length) = path := by
    rw [drop_feltBits, val_bitsFelt hpath, drop_pathOf_bitsNat hpath]
  simp only [descend, Subtree.edgeNode, toNat_ofNat_length hpath, hview, ensure, if_pos hpath,
    if_pos hlen, ok_bind]
  by_cases heq : bits.take path.length = path
  · rw [if_pos heq.symm, if_pos heq]
    rfl
  · rw [if_neg (Ne.symm heq), if_neg heq]
    rfl

/-! ## The map and the loop -/

def entries (H : CryptoFelt → CryptoFelt → CryptoFelt) (nodes : List CryptoMerkleNode) : NodeMap :=
  nodes.map fun node => (hashNode H node, node)

variable {nodes : List CryptoMerkleNode}

@[simp] theorem entries_eq_nil : entries H nodes = [] ↔ nodes = [] := by
  simp [entries]

theorem collect_eq (nodes : List CryptoMerkleNode) : collect H nodes = entries H nodes.reverse := by
  simp [collect, entries]

/-- No two of the nodes have one hash. -/
def CollisionFree (H : CryptoFelt → CryptoFelt → CryptoFelt) (nodes : List CryptoMerkleNode) : Prop :=
  Set.InjOn (hashNode H) {node | node ∈ nodes}

theorem CollisionFree.mono {nodes' : List CryptoMerkleNode} (h : CollisionFree H nodes)
    (hsub : nodes' ⊆ nodes) : CollisionFree H nodes' :=
  Set.InjOn.mono (fun _ hnode => hsub hnode) h

/-- What is left of the nodes without one of them. -/
def without (nodes : List CryptoMerkleNode) (node : CryptoMerkleNode) : List CryptoMerkleNode :=
  nodes.filter fun other => other ≠ node

theorem without_subset (nodes : List CryptoMerkleNode) (node : CryptoMerkleNode) :
    without nodes node ⊆ nodes :=
  filter_subset_self _

variable {node : CryptoMerkleNode}

theorem mem_without {other : CryptoMerkleNode} : other ∈ without nodes node ↔ other ∈ nodes ∧
      other ≠ node := by
  simp [without]

theorem without_length_lt (h : node ∈ nodes) : (without nodes node).length < nodes.length := by
  apply List.length_filter_lt_length_iff_exists.mpr
  exact ⟨node, h, by simp⟩

theorem remove_none {hash : CryptoFelt} (h : ∀ node ∈ nodes, hashNode H node ≠ hash) :
    (entries H nodes).remove hash = none := by
  simpa [NodeMap.remove, entries] using h

theorem remove_some (hfree : CollisionFree H nodes) (h : node ∈ nodes) :
    (entries H nodes).remove (hashNode H node) = some (node, entries H (without nodes node)) := by
  have hiff : ∀ other ∈ nodes, hashNode H other = hashNode H node ↔ other = node := fun other hother =>
    hfree.eq_iff hother h
  have hfind : (entries H nodes).find? (fun e => e.1 = hashNode H node) = some (hashNode H node, node) := by
    rw [entries, find?_map]
    obtain ⟨found, hfound⟩ : ∃ found, nodes.find?
        (fun other => hashNode H other = hashNode H node) = some found :=
      Option.isSome_iff_exists.mp (List.find?_isSome.mpr ⟨node, h, by simp⟩)
    have hhash := find?_some hfound
    have heq : found = node := (hiff found (mem_of_find?_eq_some hfound)).mp (by simpa using hhash)
    subst heq
    exact congrArg (Option.map _) hfound
  have hfilter : (entries H nodes).filter (fun e => e.1 ≠ hashNode H node) =
      entries H (without nodes node) := by
    rw [entries, filter_map, entries, without]
    congr 1
    apply filter_congr
    intro other hother
    simp [hiff other hother]
  rw [NodeMap.remove, hfind, hfilter]
  rfl

/-- The loop, with as many rounds as it can take. -/
def walkAll (proof : NodeMap) (root : CryptoFelt) (path : List Bool) : Except Error Walked :=
  walk proof.length proof root path

variable {proof : NodeMap}

theorem remove_length {proof' : NodeMap} {hash : CryptoFelt}
    (h : proof.remove hash = some (node, proof')) : proof'.length < proof.length := by
  simp only [NodeMap.remove, Option.map_eq_some_iff, Prod.mk.injEq] at h
  obtain ⟨e, hfind, -, rfl⟩ := h
  apply List.length_filter_lt_length_iff_exists.mpr
  exact ⟨e, mem_of_find?_eq_some hfind, by simpa using find?_some hfind⟩

theorem walk_fuel : ∀ (fuel fuel' : Nat) (proof : NodeMap) (root : CryptoFelt) (path : List Bool),
    proof.length ≤ fuel → proof.length ≤ fuel' → walk fuel proof root path = walk fuel' proof root path := by
  have hnil : ∀ (fuel : Nat) (root : CryptoFelt) (path : List Bool),
      walk fuel [] root path = .ok (.ended [] root) := by
    intro fuel root path
    cases fuel <;> rfl
  intro fuel
  induction fuel with
  | zero =>
    intro fuel' proof root path h _
    rw [List.length_eq_zero_iff.mp (Nat.le_zero.mp h), hnil, hnil]
  | succ fuel ih =>
    intro fuel' proof root path h h'
    cases fuel' with
    | zero => rw [List.length_eq_zero_iff.mp (Nat.le_zero.mp h'), hnil, hnil]
    | succ fuel' =>
      simp only [walk]
      split
      · rfl
      · rename_i node rest hremove
        have hlt := remove_length hremove
        split
        · rfl
        · rfl
        · exact ih _ _ _ _ (by omega) (by omega)

theorem walkAll_none {root : CryptoFelt} (h : proof.remove root = none) (path : List Bool) :
    walkAll proof root path = .ok (.ended proof root) := by
  unfold walkAll
  cases proof.length with
  | zero => rfl
  | succ n => simp only [walk, h]

theorem walkAll_some {proof' : NodeMap} {root : CryptoFelt}
    (h : proof.remove root = some (node, proof')) (path : List Bool) : walkAll proof root path =
      match descend node path with
      | .error e => .error e
      | .ok none => .ok .apart
      | .ok (some (root', path')) => walkAll proof' root' path' := by
  have hlt := remove_length h
  obtain ⟨n, hn⟩ : ∃ n, proof.length = n + 1 := ⟨proof.length - 1, by omega⟩
  rw [walkAll, hn]
  simp only [walk, h]
  cases descend node path with
  | error e => rfl
  | ok next =>
    cases next with
    | none => rfl
    | some next => exact walk_fuel _ _ _ _ _ (by omega) (Nat.le_refl _)

theorem descend_error {path : List Bool} {e : Error} (h : descend node path = .error e) : e = .panic := by
  cases node with
  | binaryNode left right =>
    cases path with
    | nil =>
      cases h
      rfl
    | cons bit rest => cases h
  | edgeNode path length child =>
    simp only [descend, ensure] at h
    split at h
    · split at h
      · simp only [ok_bind] at h
        split at h <;> cases h
      · cases h
        rfl
    · cases h
      rfl

theorem walk_error : ∀ {fuel : Nat} {proof : NodeMap} {root : CryptoFelt} {path : List Bool} {e : Error},
    walk fuel proof root path = .error e → e = .panic := by
  intro fuel
  induction fuel with
  | zero =>
    intro proof root path e h
    cases h
  | succ fuel ih =>
    intro proof root path e h
    simp only [walk] at h
    split at h
    · cases h
    · split at h
      · rename_i hdescend
        cases h
        exact descend_error hdescend
      · cases h
      · exact ih h

/-! ## The walk in the tree -/

/-- Where the nodes a prover sent lead in the tree, and which of them are left there. -/
inductive Stop where
  | apart
  | inner (hash : CryptoFelt) (rest : List CryptoMerkleNode)
  | leaf (value : CryptoFelt) (rest : List CryptoMerkleNode)

namespace Subtree

def reach (H : CryptoFelt → CryptoFelt → CryptoFelt) : Subtree → List Bool → List CryptoMerkleNode → Stop
  | leaf value, _, nodes => .leaf value nodes
  | binary left right, [], nodes => .inner (hashNode H (binaryNode H left right)) nodes
  | binary left right, bit :: rest, nodes =>
    if binaryNode H left right ∈ nodes then
      if bit then right.reach H rest (without nodes (binaryNode H left right))
      else left.reach H rest (without nodes (binaryNode H left right))
    else .inner (hashNode H (binaryNode H left right)) nodes
  | edge path child, bits, nodes =>
    if edgeNode H path child ∈ nodes then
      if bits.take path.length = path then
        child.reach H (bits.drop path.length) (without nodes (edgeNode H path child))
      else .apart
    else .inner (hashNode H (edgeNode H path child)) nodes

theorem reach_binary (left right : Subtree) (bit : Bool) (rest : List Bool) (nodes : List CryptoMerkleNode) :
    (binary left right).reach H (bit :: rest) nodes =
      if binaryNode H left right ∈ nodes then
        (if bit then right else left).reach H rest (without nodes (binaryNode H left right))
      else .inner (hashNode H (binaryNode H left right)) nodes := by
  cases bit <;> rfl

theorem pathNodes_binary (left right : Subtree) (bit : Bool) (rest : List Bool) :
    (binary left right).pathNodes H (bit :: rest) =
      binaryNode H left right :: (if bit then right else left).pathNodes H rest := by
  cases bit <;> rfl

theorem lookup_binary (left right : Subtree) (bit : Bool) (rest : List Bool) :
    (binary left right).lookup (bit :: rest) = (if bit then right else left).lookup rest := by
  cases bit <;> rfl

end Subtree

/-- How the walk goes on from there. -/
def Stop.walked (H : CryptoFelt → CryptoFelt → CryptoFelt) : Stop → Except Error Walked
  | .apart => .ok .apart
  | .inner hash rest => .ok (.ended (entries H rest) hash)
  | .leaf value rest => walkAll (entries H rest) value []

theorem Subtree.Spans.binary_cases {left right : Subtree}
    (h : (Subtree.binary left right).Spans bits.length) :
    ∃ bit rest, bits = bit :: rest ∧ (if bit then right else left).Spans rest.length := by
  obtain ⟨hpos, hleft, hright⟩ := h
  cases bits with
  | nil => exact absurd hpos (Nat.lt_irrefl 0)
  | cons bit rest =>
    refine ⟨bit, rest, rfl, ?_⟩
    rw [length_cons, Nat.add_sub_cancel] at hleft hright
    cases bit
    · exact hleft
    · exact hright

variable {others rest : List CryptoMerkleNode}

theorem remove_eq (hfree : CollisionFree H (node :: others ++ nodes)) :
      (entries H nodes).remove (hashNode H node) =
      if node ∈ nodes then some (node, entries H (without nodes node)) else none := by
  have hsub : nodes ⊆ node :: others ++ nodes := subset_append_right _ _
  split
  · exact remove_some (hfree.mono hsub) ‹_›
  · rename_i hmem
    apply remove_none
    intro other hother heq
    have : other = node := hfree (hsub hother) mem_cons_self heq
    exact hmem (this ▸ hother)

theorem CollisionFree.child (hfree : CollisionFree H (node :: others ++ nodes)) :
    CollisionFree H (others ++ without nodes node) := by
  apply hfree.mono
  intro other hother
  rcases List.mem_append.mp hother with h | h
  · exact mem_append_left _ (mem_cons_of_mem _ h)
  · exact mem_append_right _ (without_subset _ _ h)

theorem walkAll_reach (s : Subtree) : ∀ (bits : List Bool) (nodes : List CryptoMerkleNode),
    s.Spans bits.length → bits.length ≤ 251 → CollisionFree H (s.pathNodes H bits ++ nodes) →
    walkAll (entries H nodes) (s.digest H) bits = (s.reach H bits nodes).walked H := by
  induction s with
  | leaf value =>
    intro bits nodes hspans _ _
    rw [List.length_eq_zero_iff.mp hspans]
    rfl
  | binary left right ihleft ihright =>
    intro bits nodes hspans hlen hfree
    obtain ⟨bit, rest, rfl, hchild⟩ := hspans.binary_cases
    rw [Subtree.pathNodes_binary] at hfree
    have hremove := remove_eq hfree
    rw [Subtree.digest_binary, Subtree.reach_binary]
    by_cases hmem : Subtree.binaryNode H left right ∈ nodes
    · rw [if_pos hmem] at hremove ⊢
      rw [walkAll_some hremove, descend_binaryNode]
      have hrest : rest.length ≤ 251 := (Nat.le_succ _).trans hlen
      cases bit
      · exact ihleft rest _ hchild hrest hfree.child
      · exact ihright rest _ hchild hrest hfree.child
    · rw [if_neg hmem] at hremove ⊢
      rw [walkAll_none hremove]
      rfl
  | edge path child ih =>
    intro bits nodes hspans hlen hfree
    obtain ⟨hpath, hchild⟩ := hspans
    rw [Subtree.pathNodes] at hfree
    have hremove := remove_eq hfree
    rw [Subtree.digest_edge, Subtree.reach]
    by_cases hmem : Subtree.edgeNode H path child ∈ nodes
    · rw [if_pos hmem] at hremove ⊢
      rw [walkAll_some hremove, descend_edgeNode child hpath hlen]
      by_cases htake : bits.take path.length = path
      · rw [if_pos htake] at hfree ⊢
        rw [if_pos htake]
        refine ih _ _ ?_ ?_ hfree.child
        · rwa [length_drop]
        · rw [length_drop]
          omega
      · rw [if_neg htake, if_neg htake]
        rfl
    · rw [if_neg hmem] at hremove ⊢
      rw [walkAll_none hremove]
      rfl

theorem reach_apart (s : Subtree) : ∀ (bits : List Bool) (nodes : List CryptoMerkleNode),
    s.Spans bits.length → s.reach H bits nodes = .apart → s.lookup bits = none := by
  induction s with
  | leaf value =>
    intro bits nodes _ h
    cases h
  | binary left right ihleft ihright =>
    intro bits nodes hspans h
    obtain ⟨bit, rest, rfl, hchild⟩ := hspans.binary_cases
    rw [Subtree.reach_binary] at h
    rw [Subtree.lookup_binary]
    split at h
    · cases bit
      · exact ihleft _ _ hchild h
      · exact ihright _ _ hchild h
    · cases h
  | edge path child ih =>
    intro bits nodes hspans h
    rw [Subtree.reach] at h
    rw [Subtree.lookup]
    split at h
    · split at h
      · rename_i htake
        rw [if_pos htake]
        exact ih _ _ (by rw [length_drop]; exact hspans.2) h
      · rename_i htake
        rw [if_neg htake]
    · cases h

theorem reach_leaf (s : Subtree) {value : CryptoFelt} {left : List CryptoMerkleNode} :
    ∀ (bits : List Bool) (nodes : List CryptoMerkleNode), s.Spans bits.length →
      s.reach H bits nodes = .leaf value left →
      s.lookup bits = some value ∧ ∀ node ∈ left, node ∈ nodes ∧ node ∉ s.pathNodes H bits := by
  induction s with
  | leaf stored =>
    intro bits nodes hspans h
    rw [List.length_eq_zero_iff.mp hspans]
    cases h
    exact ⟨rfl, fun node hnode => ⟨hnode, not_mem_nil⟩⟩
  | binary l r ihleft ihright =>
    intro bits nodes hspans h
    obtain ⟨bit, rest, rfl, hchild⟩ := hspans.binary_cases
    rw [Subtree.reach_binary] at h
    rw [Subtree.lookup_binary, Subtree.pathNodes_binary]
    split at h
    · have hind : (if bit then r else l).lookup rest = some value ∧ ∀ node ∈ left,
          node ∈ without nodes (Subtree.binaryNode H l r) ∧
            node ∉ (if bit then r else l).pathNodes H rest := by
        cases bit
        · exact ihleft _ _ hchild h
        · exact ihright _ _ hchild h
      refine ⟨hind.1, fun node hnode => ?_⟩
      obtain ⟨hmem, hoff⟩ := hind.2 node hnode
      obtain ⟨hmem, hne⟩ := mem_without.mp hmem
      exact ⟨hmem, not_mem_cons_of_ne_of_not_mem hne hoff⟩
    · cases h
  | edge path child ih =>
    intro bits nodes hspans h
    rw [Subtree.reach] at h
    rw [Subtree.lookup, Subtree.pathNodes]
    split at h
    · split at h
      · rename_i htake
        rw [if_pos htake, if_pos htake]
        obtain ⟨hlookup, hind⟩ := ih _ _ (by rw [length_drop]; exact hspans.2) h
        refine ⟨hlookup, fun node hnode => ?_⟩
        obtain ⟨hmem, hoff⟩ := hind node hnode
        obtain ⟨hmem, hne⟩ := mem_without.mp hmem
        exact ⟨hmem, not_mem_cons_of_ne_of_not_mem hne hoff⟩
      · cases h
    · cases h

/-- Whether a walk that needs the nodes `node :: others` gets to its end. -/
def Stop.Ends : Stop → Prop
  | .inner _ _ => False
  | _ => True

theorem subset_without : others ⊆ without nodes node ↔ others ⊆ nodes ∧ node ∉ others := by
  constructor
  · intro h
    exact ⟨fun other hother => (mem_without.mp (h hother)).1, fun hnode => (mem_without.mp (h hnode)).2 rfl⟩
  · rintro ⟨hsub, hnot⟩ other hother
    refine mem_without.mpr ⟨hsub hother, ?_⟩
    rintro rfl
    exact hnot hother

theorem reach_ends_iff (s : Subtree) : ∀ (bits : List Bool) (nodes : List CryptoMerkleNode),
    s.Spans bits.length →
    ((s.reach H bits nodes).Ends ↔ s.pathNodes H bits ⊆ nodes ∧ (s.pathNodes H bits).Nodup) := by
  induction s with
  | leaf value =>
    intro bits nodes _
    simp [Subtree.reach, Subtree.pathNodes, Stop.Ends]
  | binary left right ihleft ihright =>
    intro bits nodes hspans
    obtain ⟨bit, rest, rfl, hchild⟩ := hspans.binary_cases
    have hind : ∀ nodes, ((if bit then right else left).reach H rest nodes).Ends ↔
        (if bit then right else left).pathNodes H rest ⊆ nodes ∧
          ((if bit then right else left).pathNodes H rest).Nodup := by
      intro nodes
      cases bit
      · exact ihleft _ _ hchild
      · exact ihright _ _ hchild
    rw [Subtree.reach_binary, Subtree.pathNodes_binary, cons_subset, nodup_cons]
    split
    · rw [hind, subset_without]
      tauto
    · rename_i hmem
      exact iff_of_false id fun h => hmem h.1.1
  | edge path child ih =>
    intro bits nodes hspans
    rw [Subtree.reach, Subtree.pathNodes, cons_subset, nodup_cons]
    by_cases hmem : Subtree.edgeNode H path child ∈ nodes
    · rw [if_pos hmem]
      split
      · rw [ih _ _ (by rw [length_drop]; exact hspans.2), subset_without]
        tauto
      · simp [Stop.Ends, hmem]
    · rw [if_neg hmem]
      exact iff_of_false id fun h => hmem h.1.1

/-! ## The walk behind the stored value -/

/-- From a hash, with no path left, through edges of length zero to a hash that no node left has. -/
inductive Slides (H : CryptoFelt → CryptoFelt → CryptoFelt) :
    CryptoFelt → List CryptoMerkleNode → CryptoFelt → List CryptoMerkleNode → Prop
  | stop {hash nodes} : (∀ node ∈ nodes, hashNode H node ≠ hash) → Slides H hash nodes hash nodes
  | edge {path child nodes hash rest} : .edgeNode path 0 child ∈ nodes →
      Slides H child (without nodes (.edgeNode path 0 child)) hash rest →
      Slides H (hashNode H (.edgeNode path 0 child)) nodes hash rest

theorem descend_zero (path child : CryptoFelt) : descend (.edgeNode path 0 child)
    [] = .ok (some (child, [])) := by
  have hview : ((feltBits path).drop 5).drop 251 = [] := by
    apply drop_eq_nil_of_le
    rw [drop_feltBits, pathOf_length]
  simp [descend, ensure, hview]

theorem descend_panic (h : ∀ path child, node ≠ .edgeNode path 0 child) :
    descend node [] = .error .panic := by
  cases node with
  | binaryNode left right => rfl
  | edgeNode path length child =>
    have hpos : ¬ length.toNat ≤ 0 := by
      intro hle
      have hzero : length = 0 := UInt8.toNat_inj.mp (Nat.le_zero.mp hle)
      exact h path child (by rw [hzero])
    simp only [descend, ensure, length_nil, if_neg hpos]
    split <;> rfl

theorem Slides.of_mem {hash : CryptoFelt} {left : List CryptoMerkleNode} (hfree : CollisionFree H nodes)
    (hnode : node ∈ nodes) : Slides H (hashNode H node) nodes hash left ↔
      ∃ path child, node = .edgeNode path 0 child ∧ Slides H child (without nodes node) hash left := by
  constructor
  · intro h
    generalize hstart : hashNode H node = start at h
    cases h with
    | stop hnone => exact absurd hstart (hnone node hnode)
    | edge hmem hrest =>
      have heq := hfree hnode hmem hstart
      subst heq
      exact ⟨_, _, rfl, hrest⟩
  · rintro ⟨path, child, rfl, h⟩
    exact .edge hnode h

theorem walkAll_slides (w : Walked) : ∀ (n : Nat) (nodes : List CryptoMerkleNode) (hash : CryptoFelt),
    nodes.length = n → CollisionFree H nodes → (walkAll (entries H nodes) hash [] = .ok w ↔
      ∃ hash' left, w = .ended (entries H left) hash' ∧ Slides H hash nodes hash' left) := by
  intro n
  induction n using Nat.strong_induction_on with
  | _ n ih =>
    intro nodes hash hlen hfree
    by_cases hsome : ∃ node ∈ nodes, hashNode H node = hash
    · obtain ⟨node, hnode, rfl⟩ := hsome
      rw [walkAll_some (remove_some hfree hnode)]
      simp only [Slides.of_mem hfree hnode]
      by_cases hzero : ∃ path child, node = .edgeNode path 0 child
      · obtain ⟨path, child, rfl⟩ := hzero
        have hlt := without_length_lt hnode
        rw [descend_zero]
        rw [ih _ (hlen ▸ hlt) _ child rfl (hfree.mono (without_subset _ _))]
        constructor
        · rintro ⟨hash', left, hw, h⟩
          exact ⟨hash', left, hw, path, child, rfl, h⟩
        · rintro ⟨hash', left, hw, path', child', heq, h⟩
          cases heq
          exact ⟨hash', left, hw, h⟩
      · rw [descend_panic fun path child heq => hzero ⟨path, child, heq⟩]
        refine iff_of_false nofun ?_
        rintro ⟨-, -, -, path, child, heq, -⟩
        exact hzero ⟨path, child, heq⟩
    · have hnone : ∀ node ∈ nodes, hashNode H node ≠ hash := fun node hnode heq => hsome ⟨node, hnode, heq⟩
      rw [walkAll_none (remove_none hnone)]
      constructor
      · intro h
        exact ⟨hash, nodes, (Except.ok.inj h).symm, .stop hnone⟩
      · rintro ⟨hash', left, rfl, h⟩
        cases h with
        | stop _ => rfl
        | edge hmem _ => exact absurd rfl (hnone _ hmem)

/-! ## `verify_proof` -/

/-- The nodes of a proof, in the order the map is searched. -/
def nodesOf (proof : List MerkleNode) : List CryptoMerkleNode := (proof.map MerkleNode.toCrypto).reverse

@[simp] theorem nodesOf_eq_nil {proof : List MerkleNode} : nodesOf proof = [] ↔ proof = [] := by
  simp [nodesOf]

theorem verifyProof_eq {root key : Felt} {hash : CryptoFelt} (hroot : toCryptoFelt root = hash)
    (hkey : key.toNat < 2 ^ 251) (value : Felt) (proof : List MerkleNode) :
      verifyProof H root key value proof =
      walkAll (entries H (nodesOf proof)) hash (pathOf key.toNat) >>= conclude value := by
  have hcollect : collect H (proof.map MerkleNode.toCrypto) = entries H (nodesOf proof) := collect_eq _
  subst hroot
  rw [verifyProof, hcollect, drop_feltBits, val_toCryptoFelt hkey]
  rfl

/-- What `verify_proof` says about a tree is so, and it does not panic. -/
structure Correct (H : CryptoFelt → CryptoFelt → CryptoFelt) (t : Tree) (root key value : Felt)
    (proof : List MerkleNode) : Prop where
  noPanic : verifyProof H root key value proof ≠ .error .panic
  member : verifyProof H root key value proof = .ok .membership → ∃ v, t.lookup key = some v ∧
    v.val = value.toNat
  absent : verifyProof H root key value proof = .ok .nonMembership → t.lookup key = none

section

variable (H : CryptoFelt → CryptoFelt → CryptoFelt)

/-- The honest proof for a key gets the right answer. -/
def Complete (t : Tree) (root key : Felt) : Prop :=
  match t.lookup key with
  | some v => verifyProof H root key (toFelt v) (t.prove H key) = .ok .membership
  | none => ∀ value, verifyProof H root key value (t.prove H key) = .ok .nonMembership

/-- The walk does not end where a hash is taken for the value, nor run on behind the stored value. -/
def Stop.Guarded (held : Option CryptoFelt) (value : Felt) : Stop → Prop
  | .apart => True
  | .inner hash rest => rest ≠ [] ∨ value.toNat ≠ hash.val ∨ held = some hash
  | .leaf stored rest =>
    ∃ hash left, Slides H stored rest hash left ∧ (left ≠ [] ∨ value.toNat ≠ hash.val ∨ hash = stored)

/-- The same for a tree: the root of the empty one is taken for the value only if a node is left or
    the value is not
    0. -/
def Guarded (t : Tree) (key value : Felt) (proof : List MerkleNode) : Prop :=
  match t.root with
  | none => proof ≠ [] ∨ value.toNat ≠ 0
  | some s => (s.reach H (pathOf key.toNat) (nodesOf proof)).Guarded H (t.lookup key) value

/-- The tree is not empty and its nodes on the way to the key are different, or the walk ends by
    accident at the stored value when it misses a node for the second time. -/
def Distinct (t : Tree) (key : Felt) : Prop :=
  ∃ s, t.root = some s ∧ ((s.pathNodes H (pathOf key.toNat)).Nodup ∨
    ∃ hash, s.reach H (pathOf key.toNat) (s.pathNodes H (pathOf key.toNat)).reverse = .inner hash [] ∧
      s.lookup (pathOf key.toNat) = some hash)

end

section Ends

variable {t : Tree} {root key value : Felt} {proof : List MerkleNode}

theorem conclude_ended_noPanic (rest : List CryptoMerkleNode) (hash : CryptoFelt) (value : Felt) :
    conclude value (.ended (entries H rest) hash) ≠ .error .panic := by
  simp only [conclude, ensure]
  split
  · simp only [ok_bind]
    split <;> nofun
  · nofun

theorem conclude_ended_membership {hash : CryptoFelt} :
    conclude value (.ended (entries H rest) hash) = .ok .membership ↔ rest = [] ∧ hash.val = value.toNat := by
  simp [conclude, word_eq_iff]

theorem conclude_ended_nonMembership {hash : CryptoFelt} :
    conclude value (.ended (entries H rest) hash) ≠ .ok .nonMembership := by
  simp [conclude]

theorem correct_of_ended {hash : CryptoFelt}
    (h : verifyProof H root key value proof = conclude value (.ended (entries H rest) hash)) :
    Correct H t root key value proof ↔ (rest ≠ [] ∨ value.toNat ≠ hash.val ∨ t.lookup key = some hash) := by
  constructor
  · intro hcorrect
    by_cases hrest : rest = []
    · by_cases hvalue : value.toNat = hash.val
      · obtain ⟨v, hlookup, hv⟩ := hcorrect.member (h.trans (conclude_ended_membership.mpr
          ⟨hrest, hvalue.symm⟩))
        have hstored : v = hash := Fin.ext (hv.trans hvalue)
        exact .inr (.inr (hstored ▸ hlookup))
      · exact .inr (.inl hvalue)
    · exact .inl hrest
  · intro hcond
    refine ⟨h ▸ conclude_ended_noPanic _ _ _, ?_, fun hok =>
      absurd (h.symm.trans hok) conclude_ended_nonMembership⟩
    intro hok
    obtain ⟨hrest, hvalue⟩ := conclude_ended_membership.mp (h.symm.trans hok)
    rcases hcond with hne | hne | hlookup
    · exact absurd hrest hne
    · exact absurd hvalue.symm hne
    · exact ⟨hash, hlookup, hvalue⟩

theorem not_correct_of_panic (h : verifyProof H root key value proof = .error .panic) :
    ¬ Correct H t root key value proof :=
  fun hcorrect => hcorrect.noPanic h

end Ends

/-- Node hashing is injective on what is hashed here, and no node hashes to the root of the empty tree. -/
structure Injective (H : CryptoFelt → CryptoFelt → CryptoFelt) (t : Tree) (key : Felt)
    (proof : List MerkleNode) : Prop where
  nodes : CollisionFree H (t.pathNodes H key ++ proof.map MerkleNode.toCrypto)
  zero : t.root = none → ∀ node ∈ proof, hashNode H node.toCrypto ≠ 0

section Main

variable {t : Tree} {root key value : Felt} {proof : List MerkleNode}

variable {s : Subtree}

theorem Tree.digest_some (h : t.root = some s) : t.digest H = s.digest H := by rw [Tree.digest, h]; rfl

theorem Tree.lookup_some (h : t.root = some s) : t.lookup key = s.lookup (pathOf key.toNat) := by
  rw [Tree.lookup, h]
  rfl

theorem Tree.pathNodes_some (h : t.root = some s) : t.pathNodes H key = s.pathNodes H (pathOf key.toNat) := by
  rw [Tree.pathNodes, h]
  rfl

theorem Tree.spans_pathOf (h : t.root = some s) (key : Nat) : s.Spans (pathOf key).length := by
  rw [pathOf_length]
  exact t.spans s h

theorem verifyProof_reach (hs : t.root = some s) (hkey : key.toNat < 2 ^ 251)
    (hroot : toCryptoFelt root = t.digest H)
    (hfree : CollisionFree H (t.pathNodes H key ++ nodesOf proof)) : verifyProof H root key value proof =
      (s.reach H (pathOf key.toNat) (nodesOf proof)).walked H >>= conclude value := by
  rw [Tree.pathNodes_some hs] at hfree
  rw [Tree.digest_some hs] at hroot
  rw [verifyProof_eq hroot hkey, walkAll_reach s _ _ (Tree.spans_pathOf hs _) (pathOf_length _).le hfree]

theorem verifyProof_empty (hnone : t.root = none) (hkey : key.toNat < 2 ^ 251)
    (hroot : toCryptoFelt root = t.digest H) (hzero : ∀ node ∈ nodesOf proof, hashNode H node ≠ 0) :
    verifyProof H root key value proof = conclude value (.ended (entries H (nodesOf proof)) 0) := by
  have hdigest : t.digest H = 0 := by rw [Tree.digest, hnone]; rfl
  rw [verifyProof_eq (hroot.trans hdigest) hkey, walkAll_none (remove_none hzero)]
  rfl

theorem correct_iff_leaf {stored : CryptoFelt} (hlookup : t.lookup key = some stored)
    (hfree : CollisionFree H rest)
    (hverify : verifyProof H root key value proof = walkAll (entries H rest) stored [] >>= conclude value) :
    Correct H t root key value proof ↔
      ∃ hash left, Slides H stored rest hash left ∧ (left ≠ [] ∨ value.toNat ≠ hash.val ∨ hash = stored) := by
  cases hwalk : walkAll (entries H rest) stored [] with
  | error e =>
    have hpanic : e = .panic := walk_error hwalk
    subst hpanic
    rw [hwalk] at hverify
    refine iff_of_false (not_correct_of_panic hverify) ?_
    rintro ⟨hash, left, hslides, -⟩
    have hok := (walkAll_slides _ _ rest stored rfl hfree).mpr ⟨hash, left, rfl, hslides⟩
    rw [hwalk] at hok
    cases hok
  | ok w =>
    have hwalks := walkAll_slides w _ rest stored rfl hfree
    obtain ⟨hash, left, rfl, hslides⟩ := hwalks.mp hwalk
    rw [hwalk] at hverify
    rw [correct_of_ended hverify, hlookup, Option.some.injEq]
    constructor
    · intro h
      exact ⟨hash, left, hslides, h.imp_right (Or.imp_right Eq.symm)⟩
    · rintro ⟨hash', left', hslides', h⟩
      have hsame := (walkAll_slides _ _ rest stored rfl hfree).mpr ⟨hash', left', rfl, hslides'⟩
      rw [hwalk] at hsame
      obtain ⟨hleft, rfl⟩ := Walked.ended.inj (Except.ok.inj hsame)
      have hnil : left = [] ↔ left' = [] := by rw [← entries_eq_nil (H := H), hleft, entries_eq_nil]
      exact (h.imp_left (mt hnil.mp)).imp_right (Or.imp_right Eq.symm)

/-- **When `verify_proof` is right.** -/
theorem correct_iff (hkey : key.toNat < 2 ^ 251) (hroot : toCryptoFelt root = t.digest H)
    (hH : Injective H t key proof) : Correct H t root key value proof ↔ Guarded H t key value proof := by
  have hfree : CollisionFree H (t.pathNodes H key ++ nodesOf proof) := by
    apply hH.nodes.mono
    apply List.append_subset.mpr
    exact ⟨subset_append_left _ _, fun node hnode => mem_append_right _ (List.mem_reverse.mp hnode)⟩
  unfold Guarded
  cases hs : t.root with
  | none =>
    have hzero : ∀ node ∈ nodesOf proof, hashNode H node ≠ 0 := by
      intro node hnode
      obtain ⟨sent, hsent, rfl⟩ := List.mem_map.mp (List.mem_reverse.mp hnode)
      exact hH.zero hs sent hsent
    have hlookup : t.lookup key = none := by rw [Tree.lookup, hs]; rfl
    rw [correct_of_ended (verifyProof_empty hs hkey hroot hzero), hlookup]
    simp
  | some s =>
    have hver : verifyProof H root key value proof =
        (s.reach H (pathOf key.toNat) (nodesOf proof)).walked H >>= conclude value :=
      verifyProof_reach hs hkey hroot hfree
    have hspans := Tree.spans_pathOf hs key.toNat
    have hlookup : t.lookup key = s.lookup (pathOf key.toNat) := Tree.lookup_some hs
    show Correct H t root key value proof ↔
      (s.reach H (pathOf key.toNat) (nodesOf proof)).Guarded H (t.lookup key) value
    cases hreach : s.reach H (pathOf key.toNat) (nodesOf proof) with
    | apart =>
      rw [hreach] at hver
      refine iff_of_true ⟨?_, ?_, fun _ => ?_⟩ trivial
      · rw [hver]
        nofun
      · rw [hver]
        nofun
      · rw [hlookup]
        exact reach_apart s _ _ hspans hreach
    | inner hash rest =>
      rw [hreach] at hver
      exact correct_of_ended hver
    | leaf stored rest =>
      rw [hreach] at hver
      obtain ⟨hstored, hrest⟩ := reach_leaf s _ _ hspans hreach
      refine correct_iff_leaf (hlookup.trans hstored) ?_ hver
      exact hfree.mono fun node hnode => mem_append_right _ (hrest node hnode).1

theorem prove_nodes (key : Felt) : (t.prove H key).map MerkleNode.toCrypto = t.pathNodes H key := by
  simp [Tree.prove, Function.comp_def]

/-- **When the honest proof is accepted.** -/
theorem complete_iff (hkey : key.toNat < 2 ^ 251) (hroot : toCryptoFelt root = t.digest H)
    (hpath : CollisionFree H (t.pathNodes H key)) : Complete H t root key ↔ Distinct H t key := by
  have hsent : nodesOf (t.prove H key) = (t.pathNodes H key).reverse := by rw [nodesOf, prove_nodes]
  unfold Complete Distinct
  cases hs : t.root with
  | none =>
    have hnodes : t.pathNodes H key = [] := by rw [Tree.pathNodes, hs]; rfl
    have hlookup : t.lookup key = none := by rw [Tree.lookup, hs]; rfl
    have hver : verifyProof H root key ⟨0, by decide⟩ (t.prove H key) =
        conclude ⟨0, by decide⟩ (.ended (entries H []) 0) := by
      rw [verifyProof_empty hs hkey hroot, hsent, hnodes]
      · rfl
      · simp [hsent, hnodes]
    rw [hlookup]
    refine iff_of_false ?_ (by simp)
    intro h
    exact conclude_ended_nonMembership (hver.symm.trans (h _))
  | some s =>
    have hnodes : t.pathNodes H key = s.pathNodes H (pathOf key.toNat) := Tree.pathNodes_some hs
    have hspans := Tree.spans_pathOf hs key.toNat
    have hlookup : t.lookup key = s.lookup (pathOf key.toNat) := Tree.lookup_some hs
    have hver : ∀ value, verifyProof H root key value (t.prove H key) =
        (s.reach H (pathOf key.toNat) (s.pathNodes H (pathOf key.toNat)).reverse).walked H >>=
          conclude value := by
      intro value
      rw [← hnodes, ← hsent]
      apply verifyProof_reach hs hkey hroot
      apply hpath.mono
      rw [hsent]
      exact List.append_subset.mpr ⟨fun _ h => h, fun _ h => List.mem_reverse.mp h⟩
    have hends := reach_ends_iff (H := H) s _ (s.pathNodes H (pathOf key.toNat)).reverse hspans
    have hall : s.pathNodes H (pathOf key.toNat) ⊆ (s.pathNodes H (pathOf key.toNat)).reverse :=
      fun _ h => List.mem_reverse.mpr h
    simp only [Option.some.injEq, exists_eq_left', hlookup, hver]
    cases hreach : s.reach H (pathOf key.toNat) (s.pathNodes H (pathOf key.toNat)).reverse with
    | apart =>
      rw [hreach] at hends
      rw [reach_apart s _ _ hspans hreach]
      exact iff_of_true (fun _ => rfl) (.inl (hends.mp trivial).2)
    | inner hash rest =>
      rw [hreach] at hends
      have hdup : ¬ (s.pathNodes H (pathOf key.toNat)).Nodup := fun hnodup => hends.mpr ⟨hall, hnodup⟩
      cases hheld : s.lookup (pathOf key.toNat) with
      | none =>
        refine iff_of_false (fun h => conclude_ended_nonMembership (h ⟨0, by decide⟩)) ?_
        rintro (hnodup | ⟨_, _, h⟩)
        · exact hdup hnodup
        · cases h
      | some v =>
        refine conclude_ended_membership.trans ?_
        constructor
        · rintro ⟨rfl, hval⟩
          exact .inr ⟨hash, rfl, congrArg some (Fin.ext hval.symm)⟩
        · rintro (hnodup | ⟨_, hinner, h⟩)
          · exact absurd hnodup hdup
          · cases hinner
            cases h
            exact ⟨rfl, rfl⟩
    | leaf stored rest =>
      rw [hreach] at hends
      obtain ⟨hstored, hrest⟩ := reach_leaf s _ _ hspans hreach
      have hnil : rest = [] := by
        apply List.eq_nil_iff_forall_not_mem.mpr
        intro node hnode
        exact (hrest node hnode).2 (List.mem_reverse.mp (hrest node hnode).1)
      rw [hstored, hnil]
      have hwalk : walkAll (entries H []) stored [] = .ok (.ended (entries H []) stored) :=
        walkAll_none (remove_none (by simp)) []
      have hend : conclude (toFelt stored) (.ended (entries H []) stored) = .ok .membership :=
        conclude_ended_membership.mpr ⟨rfl, rfl⟩
      refine iff_of_true ?_ (.inl (hends.mp trivial).2)
      simp only [Stop.walked, hwalk, ok_bind, hend]

/-- **Storage proofs.**  `verify_proof` is right about a tree exactly when it is guarded from taking
    a hash for a value and from running on behind the stored value; the honest proof is accepted
    exactly when no node is needed twice. -/
theorem sound_and_total_iff (hkey : key.toNat < 2 ^ 251) (hroot : toCryptoFelt root = t.digest H)
    (hH : Injective H t key proof) :
    (Correct H t root key value proof ↔ Guarded H t key value proof) ∧
      (Complete H t root key ↔ Distinct H t key) :=
  ⟨correct_iff hkey hroot hH, complete_iff hkey hroot (hH.nodes.mono (subset_append_left _ _))⟩

end Main

/-! ## The client -/

/-- The key that the verifier goes for: the low 251 bits of what a key is modulo the prime. -/
def position (key : Felt) : Felt :=
  ⟨(toCryptoFelt key).val % 2 ^ 251, (Nat.mod_lt _ (by decide)).trans (by decide)⟩

theorem position_lt (key : Felt) : (position key).toNat < 2 ^ 251 := Nat.mod_lt _ (by decide)

theorem position_of_lt {key : Felt} (h : key.toNat < 2 ^ 251) : position key = key := by
  have hnat : (position key).toNat = key.toNat := by
    show (toCryptoFelt key).val % 2 ^ 251 = _
    rw [val_toCryptoFelt h, Nat.mod_eq_of_lt h]
  cases key
  exact (U256.mk.injEq ..).mpr hnat

theorem pathOf_mod (n : Nat) : pathOf (n % 2 ^ 251) = pathOf n := by
  refine map_congr_left fun i _ => ?_
  have hlow : 250 - i < 251 := by omega
  rw [Nat.testBit_mod_two_pow, decide_eq_true hlow, Bool.true_and]

theorem verifyProof_position (root key value : Felt) (proof : List MerkleNode) :
    verifyProof H root (position key) value proof = verifyProof H root key value proof := by
  have hpath : pathOf (position key).toNat = pathOf (toCryptoFelt key).val := pathOf_mod _
  unfold verifyProof
  rw [drop_feltBits, drop_feltBits, val_toCryptoFelt (position_lt key), hpath]

section Client

variable {consensusState : UInt64 → Option ConsensusState} {height : UInt64} {key value : Bytes}
    {nodes : List MerkleNode}

theorem verifyMembership_eq_ok : verifyMembership H consensusState height key nodes value = .ok () ↔
    ∃ c, consensusState height = some c ∧ key.length = 32 ∧ value.length = 32 ∧
      verifyProof H c.ibcStorageRoot (commitmentKey key) (fromBeBytes value) nodes = .ok .membership := by
  simp [verifyMembership, tryH256]

theorem verifyNonMembership_eq_ok : verifyNonMembership H consensusState height key nodes = .ok () ↔
    ∃ c, consensusState height = some c ∧ key.length = 32 ∧
      verifyProof H c.ibcStorageRoot (commitmentKey key) .ZERO nodes = .ok .nonMembership := by
  simp [verifyNonMembership, tryH256]

variable {t : Tree} {c : ConsensusState}

/-- **What the client accepts is in the tree**, at the position that the verifier goes for. -/
theorem client_sound (hc : consensusState height = some c)
    (hroot : toCryptoFelt c.ibcStorageRoot = t.digest H)
    (hH : Injective H t (position (commitmentKey key)) nodes) :
    (Guarded H t (position (commitmentKey key)) (fromBeBytes value) nodes →
      verifyMembership H consensusState height key nodes value = .ok () →
      ∃ v, t.lookup (position (commitmentKey key)) = some v ∧ v.val = (fromBeBytes value).toNat) ∧
    (Guarded H t (position (commitmentKey key)) .ZERO nodes →
      verifyNonMembership H consensusState height key nodes = .ok () →
      t.lookup (position (commitmentKey key)) = none) ∧
    ((commitmentKey key).toNat < 2 ^ 251 → position (commitmentKey key) = commitmentKey key) := by
  refine ⟨?_, ?_, position_of_lt⟩
  · intro hguarded hok
    obtain ⟨c', hc', -, -, hver⟩ := verifyMembership_eq_ok.mp hok
    rw [hc, Option.some.injEq] at hc'
    subst hc'
    rw [← verifyProof_position] at hver
    exact ((correct_iff (position_lt _) hroot hH).mpr hguarded).member hver
  · intro hguarded hok
    obtain ⟨c', hc', -, hver⟩ := verifyNonMembership_eq_ok.mp hok
    rw [hc, Option.some.injEq] at hc'
    subst hc'
    rw [← verifyProof_position] at hver
    exact ((correct_iff (position_lt _) hroot hH).mpr hguarded).absent hver

end Client

/-! ## Concrete proofs -/

namespace Sample

def hash (a b : CryptoFelt) : CryptoFelt := a + 3 * b

def felt (n : Nat) : Felt := ⟨n % 2 ^ 256, Nat.mod_lt _ (by decide)⟩

/-- The value 7, under the key 0. -/
def tree : Tree where
  root := some (.edge (replicate 251 false) (.leaf 7))
  spans := by
    intro s hs
    cases hs
    refine ⟨(length_replicate).le, ?_⟩
    show 251 - (replicate 251 false).length = 0
    rw [length_replicate]

def empty : Tree := ⟨none, nofun⟩

def edge : MerkleNode := .edgeNode (felt 0) 251 (felt 7)

/-- A node whose hash is the stored value. -/
def beyond : MerkleNode := .binaryNode (felt 1) (felt 2)

theorem tree_root : toCryptoFelt (felt 258) = tree.digest hash := by decide +kernel

theorem tree_pathNodes (n : Nat) (h : n = 0 ∨ n = 1) : tree.pathNodes hash (felt n) = [edge.toCrypto] := by
  rcases h with rfl | rfl <;> decide +kernel

theorem injective_one (proof : List MerkleNode) (n : Nat) (h : n = 0 ∨ n = 1)
    (hproof : ∀ node ∈ proof, node = edge) : Injective hash tree (felt n) proof := by
  refine ⟨?_, nofun⟩
  have hedge : ∀ node ∈ tree.pathNodes hash (felt n) ++ proof.map MerkleNode.toCrypto,
      node = edge.toCrypto := by
    intro node hnode
    rw [tree_pathNodes n h] at hnode
    rcases List.mem_append.mp hnode with hnode | hnode
    · exact List.mem_singleton.mp hnode
    · obtain ⟨sent, hsent, rfl⟩ := List.mem_map.mp hnode
      rw [hproof sent hsent]
  intro node hnode other hother _
  rw [hedge node hnode, hedge other hother]

theorem injective_beyond : Injective hash tree (felt 0) [edge, beyond] := by
  refine ⟨?_, nofun⟩
  have hne : hashNode hash edge.toCrypto ≠ hashNode hash beyond.toCrypto := by decide
  have hmem : ∀ node ∈ tree.pathNodes hash (felt 0) ++ [edge, beyond].map MerkleNode.toCrypto,
      node = edge.toCrypto ∨ node = beyond.toCrypto := by
    rw [tree_pathNodes 0 (.inl rfl)]
    simp
  intro node hnode other hother heq
  rcases hmem node hnode with rfl | rfl <;> rcases hmem other hother with rfl | rfl
  · rfl
  · exact absurd heq hne
  · exact absurd heq.symm hne
  · rfl

end Sample

open Sample in
/-- The honest proof for the stored value, and for a key that is not stored. -/
theorem sound_and_total_sample :
    (Correct hash tree (felt 258) (felt 0) (felt 7) [edge] ↔
      Guarded hash tree (felt 0) (felt 7) [edge]) ∧
    (Complete hash tree (felt 258) (felt 0) ↔
      Distinct hash tree (felt 0)) :=
  sound_and_total_iff (by decide) tree_root
    (injective_one [edge] 0 (.inl rfl) fun _ h => List.mem_singleton.mp h)

namespace Sample

/-- A path whose key is the prime, so that the verifier goes for 0. -/
def highKey : Bytes := [11, 0, 0, 0, 0, 0, 0, 17] ++ replicate 23 0 ++ [1]

def seven : Bytes := replicate 31 0 ++ [7]

theorem position_highKey : position (commitmentKey highKey) = felt 0 := by decide +kernel

set_option maxRecDepth 4000 in
theorem tree_guarded : Guarded hash tree (felt 0) (fromBeBytes seven) [edge] := by
  have hreach : (Subtree.edge (replicate 251 false) (.leaf 7)).reach hash (pathOf (felt 0).toNat)
      [edge.toCrypto] = .leaf 7 [] := by
    have hmem : Subtree.edgeNode hash (replicate 251 false) (.leaf 7) ∈ [edge.toCrypto] := by decide +kernel
    have hpath : (pathOf (felt 0).toNat).take (replicate 251 false).length = replicate 251 false := by
      decide +kernel
    have hrest : without [edge.toCrypto] (Subtree.edgeNode hash (replicate 251 false) (.leaf 7)) = [] := by
      decide +kernel
    rw [Subtree.reach, if_pos hmem, if_pos hpath, hrest, Subtree.reach]
  have hroot : tree.root = some (.edge (replicate 251 false) (.leaf 7)) := rfl
  have hnodes : nodesOf [edge] = [edge.toCrypto] := rfl
  unfold Guarded
  rw [hroot, hnodes]
  dsimp only
  rw [hreach]
  exact ⟨7, [], .stop nofun, .inr (.inr rfl)⟩

end Sample

set_option maxRecDepth 4000 in
/-- The value 7 is proven under a key that is not below `2 ^ 251`. -/
theorem client_sound_sample :
    2 ^ 251 ≤ (commitmentKey Sample.highKey).toNat ∧
    verifyMembership Sample.hash (fun _ => some ⟨Sample.felt 258⟩) 0 Sample.highKey [Sample.edge]
      Sample.seven = .ok () ∧
    ∃ v, Sample.tree.lookup (position (commitmentKey Sample.highKey)) = some v ∧
      v.val = (fromBeBytes Sample.seven).toNat := by
  have haccepts : verifyMembership Sample.hash (fun _ => some ⟨Sample.felt 258⟩) 0 Sample.highKey
      [Sample.edge] Sample.seven = .ok () :=
    verifyMembership_eq_ok.mpr ⟨_, rfl, by decide, by decide, by decide +kernel⟩
  have hinjective : Injective Sample.hash Sample.tree (position (commitmentKey Sample.highKey))
      [Sample.edge] := by
    rw [Sample.position_highKey]
    exact Sample.injective_one [Sample.edge] 0 (.inl rfl) fun _ h => List.mem_singleton.mp h
  have hguarded : Guarded Sample.hash Sample.tree (position (commitmentKey Sample.highKey))
      (fromBeBytes Sample.seven) [Sample.edge] := by
    rw [Sample.position_highKey]
    exact Sample.tree_guarded
  obtain ⟨hmember, -, -⟩ := @client_sound Sample.hash (fun _ => some ⟨Sample.felt 258⟩) 0
    Sample.highKey Sample.seven
    [Sample.edge] Sample.tree ⟨Sample.felt 258⟩ rfl Sample.tree_root hinjective
  exact ⟨by decide +kernel, haccepts, hmember hguarded haccepts⟩

open Sample in
/-- Hashes taken for values: without any node the root is the value of a key that is not stored; a
    node that hashes to the stored value makes the walk panic; and the empty tree holds 0 under
    every key. -/
theorem hash_taken_for_value :
    ¬ Correct hash tree (felt 258) (felt 1) (felt 258) [] ∧
    ¬ Correct hash tree (felt 258) (felt 0) (felt 7)
      [edge, beyond] ∧
    ¬ Complete hash empty (felt 0) (felt 1) ∧
    Injective hash tree (felt 1) [] ∧
    Injective hash tree (felt 0) [edge, beyond] ∧
    toCryptoFelt (felt 258) = tree.digest hash := by
  refine ⟨?_, ?_, ?_, injective_one [] 1 (.inr rfl) nofun, injective_beyond, tree_root⟩
  · intro h
    obtain ⟨v, hv, -⟩ := h.member (by decide)
    have hnone : tree.lookup (felt 1) = none := by decide +kernel
    rw [hnone] at hv
    cases hv
  · intro h
    exact h.noPanic (by decide +kernel)
  · intro h
    have hans : verifyProof hash (felt 0) (felt 1) (felt 0) [] = .ok .membership := by
      decide
    have hother := h (felt 0)
    rw [Tree.prove] at hother
    exact absurd (hans.symm.trans hother) (by decide)

end UnionVoyager.Light.Starknet
