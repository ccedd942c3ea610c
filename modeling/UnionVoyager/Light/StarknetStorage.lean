import UnionVoyager.Light.EvmStorage

/-!
# Storage proofs of the starknet client

`lib/starknet-storage-verifier` and the `verify_membership`, `verify_non_membership` of the starknet
client.  The hash of two field elements (pedersen or poseidon) is outside the repository: a
parameter.

* `hashNode`, `verifyProof` — the walk from the root towards the key, through the nodes the prover sent.
-/

namespace UnionVoyager.Light.Starknet

open Lib EvmStorage

/-! ## Field elements -/

/-- `starknet_types::Felt`: 256 bits; that they are below the modulus is not checked. -/
abbrev Felt := U256

def PRIME : Nat := 2 ^ 251 + 17 * 2 ^ 192 + 1

theorem PRIME_pos : 0 < PRIME := by decide

theorem PRIME_lt : PRIME < 2 ^ 256 := by decide

instance : NeZero PRIME := ⟨PRIME_pos.ne'⟩

/-- `starknet_crypto::Felt`. -/
abbrev CryptoFelt := Fin PRIME

/-- `from_bytes_be` reduces. -/
def toCryptoFelt (felt : Felt) : CryptoFelt := ⟨felt.toNat % PRIME, Nat.mod_lt _ PRIME_pos⟩

def toFelt (felt : CryptoFelt) : Felt := ⟨felt.val, felt.isLt.trans PRIME_lt⟩

@[simp] theorem toCryptoFelt_toFelt (felt : CryptoFelt) : toCryptoFelt (toFelt felt) = felt :=
  Fin.ext (Nat.mod_eq_of_lt felt.isLt)

/-- The 256 bits, the most significant one first. -/
def feltBits (felt : CryptoFelt) : List Bool := (List.range 256).map fun i => felt.val.testBit (255 - i)

/-! ## Nodes -/

inductive MerkleNode where
  | binaryNode (left right : Felt)
  | edgeNode (path : Felt) (length : UInt8) (child : Felt)

inductive CryptoMerkleNode where
  | binaryNode (left right : CryptoFelt)
  | edgeNode (path : CryptoFelt) (length : UInt8) (child : CryptoFelt)
  deriving DecidableEq

def MerkleNode.toCrypto : MerkleNode → CryptoMerkleNode
  | .binaryNode left right => .binaryNode (toCryptoFelt left) (toCryptoFelt right)
  | .edgeNode path length child => .edgeNode (toCryptoFelt path) length (toCryptoFelt child)

def CryptoMerkleNode.toMerkleNode : CryptoMerkleNode → MerkleNode
  | .binaryNode left right => .binaryNode (toFelt left) (toFelt right)
  | .edgeNode path length child => .edgeNode (toFelt path) length (toFelt child)

@[simp] theorem toCrypto_toMerkleNode (node : CryptoMerkleNode) : node.toMerkleNode.toCrypto = node := by
  cases node <;> simp [CryptoMerkleNode.toMerkleNode, MerkleNode.toCrypto]

def byteFelt (byte : UInt8) : CryptoFelt := ⟨byte.toNat, byte.toNat_lt.trans (by decide)⟩

section Verifier

variable (H : CryptoFelt → CryptoFelt → CryptoFelt)

def hashNode : CryptoMerkleNode → CryptoFelt
  | .binaryNode left right => H left right
  | .edgeNode path length child => H child path + byteFelt length

/-! ## `verify_proof` -/

inductive Membership where
  | membership
  | nonMembership
  deriving DecidableEq

inductive Error where
  | unusedNodes
  | valueMismatch (expected found : Felt)
  | panic
  deriving DecidableEq

/-- The `BTreeMap` from hashes to nodes; a later entry hides an earlier one with its hash. -/
abbrev NodeMap := List (CryptoFelt × CryptoMerkleNode)

def collect (nodes : List CryptoMerkleNode) : NodeMap :=
    (nodes.map fun node => (hashNode H node, node)).reverse

def NodeMap.remove (proof : NodeMap) (hash : CryptoFelt) : Option (CryptoMerkleNode × NodeMap) :=
  (proof.find? fun e => e.1 = hash).map fun e => (e.2, proof.filter fun e => e.1 ≠ hash)

/-- The next hash and the path that is left behind a node, `none` where an edge leads away from the path.

    `251 - length` is computed with bytes: above 251 it overflows, or wraps to a start behind the
    end of the slice. -/
def descend (node : CryptoMerkleNode) (remainingPath : List Bool) :
    Except Error (Option (CryptoFelt × List Bool)) :=
  match node with
  | .binaryNode left right =>
    match remainingPath with
    | [] => .error .panic
    | bit :: rest => .ok (some (if bit then right else left, rest))
  | .edgeNode path length child => do
    ensure (length.toNat ≤ 251) .panic
    let pathView := ((feltBits path).drop 5).drop (251 - length.toNat)
    ensure (length.toNat ≤ remainingPath.length) .panic
    if pathView = remainingPath.take length.toNat then pure (some (child, remainingPath.drop length.toNat))
    else pure none

/-- How the walk ends: at an edge away from the path, or at a hash that no node left in the map has. -/
inductive Walked where
  | apart
  | ended (proof : NodeMap) (root : CryptoFelt)

/-- The `while let`: each round takes a node out of the map. -/
def walk : Nat → NodeMap → CryptoFelt → List Bool → Except Error Walked
  | 0, proof, root, _ => .ok (.ended proof root)
  | fuel + 1, proof, root, remainingPath =>
    match proof.remove root with
    | none => .ok (.ended proof root)
    | some (node, proof) =>
      match descend node remainingPath with
      | .error e => .error e
      | .ok none => .ok .apart
      | .ok (some (root, remainingPath)) => walk fuel proof root remainingPath

/-- The end of `verify_proof`. -/
def conclude (value : Felt) : Walked → Except Error Membership
  | .apart => .ok .nonMembership
  | .ended proof root => do
    ensure (proof = []) .unusedNodes
    ensure (beBytes 32 root.val = toBeBytes value) (.valueMismatch value (toFelt root))
    pure .membership

def verifyProof (root key value : Felt) (proof : List MerkleNode) : Except Error Membership := do
  let proof := collect H (proof.map MerkleNode.toCrypto)
  let walked ← walk proof.length proof (toCryptoFelt root) ((feltBits (toCryptoFelt key)).drop 5)
  conclude value walked

/-! ## The client -/

inductive ClientError where
  | std
  | proof (e : Error)
  | invalidProof
  | invalidProofKey (key : Bytes)
  | invalidProofValue (value : Bytes)

/-- The field of the consensus state that is read. -/
structure ConsensusState where
  ibcStorageRoot : Felt

/-- `commitment_key`: the comment says that the top 6 bits are wiped, the code flips the 2 others of
    the first byte. -/
def commitmentKey (key : H256) : Felt :=
  match key with
  | [] => fromBeBytes []
  | byte :: rest => fromBeBytes ((byte ^^^ 3) :: rest)

variable (consensusState : UInt64 → Option ConsensusState)

def verifyMembership (height : UInt64) (key : Bytes) (nodes : List MerkleNode) (value : Bytes) :
    Except ClientError Unit := do
  let consensusState ← orErr (consensusState height) .std
  let key ← tryH256 key (.invalidProofKey key)
  let value ← tryH256 value (.invalidProofValue value)
  let res ← (verifyProof H consensusState.ibcStorageRoot (commitmentKey key) (fromBeBytes value)
    nodes).mapError .proof
  ensure (res = .membership) .invalidProof

def verifyNonMembership (height : UInt64) (key : Bytes) (nodes : List MerkleNode) :
    Except ClientError Unit := do
  let consensusState ← orErr (consensusState height) .std
  let key ← tryH256 key (.invalidProofKey key)
  let res ← (verifyProof H consensusState.ibcStorageRoot (commitmentKey key) .ZERO nodes).mapError .proof
  ensure (res = .nonMembership) .invalidProof

end Verifier

/-! ## Trees -/

def bitsNat (bits : List Bool) : Nat := bits.foldl (fun n bit => 2 * n + bit.toNat) 0

def bitsFelt (bits : List Bool) : CryptoFelt := ⟨bitsNat bits % PRIME, Nat.mod_lt _ PRIME_pos⟩

/-- The way from the root of a tree of height 251 to a key below `2 ^ 251`. -/
def pathOf (key : Nat) : List Bool := (List.range 251).map fun i => key.testBit (250 - i)

/-- A subtree; that edges are as long as they can be and values are not zero is not asked for. -/
inductive Subtree where
  | leaf (value : CryptoFelt)
  | binary (left right : Subtree)
  | edge (path : List Bool) (child : Subtree)
  deriving Repr

namespace Subtree

/-- Every leaf is as many bits below the subtree's root. -/
def Spans : Subtree → Nat → Prop
  | leaf _, n => n = 0
  | binary left right, n => 0 < n ∧ left.Spans (n - 1) ∧ right.Spans (n - 1)
  | edge path child, n => path.length ≤ n ∧ child.Spans (n - path.length)

/-- The value at the end of a path. -/
def lookup : Subtree → List Bool → Option CryptoFelt
  | leaf value, [] => some value
  | leaf _, _ :: _ => none
  | binary _ _, [] => none
  | binary left right, bit :: rest => if bit then right.lookup rest else left.lookup rest
  | edge path child, bits => if bits.take path.length =
      path then child.lookup (bits.drop path.length) else none

variable (H : CryptoFelt → CryptoFelt → CryptoFelt)

/-- The hash of an inner node, the value of a leaf. -/
def digest : Subtree → CryptoFelt
  | leaf value => value
  | binary left right => hashNode H (.binaryNode left.digest right.digest)
  | edge path child => hashNode H (.edgeNode (bitsFelt path) (UInt8.ofNat path.length) child.digest)

def binaryNode (left right : Subtree) : CryptoMerkleNode := .binaryNode (left.digest H) (right.digest H)

def edgeNode (path : List Bool) (child : Subtree) : CryptoMerkleNode :=
  .edgeNode (bitsFelt path) (UInt8.ofNat path.length) (child.digest H)

@[simp] theorem digest_binary (left right : Subtree) :
    (binary left right).digest H = hashNode H (binaryNode H left right) := rfl

@[simp] theorem digest_edge (path : List Bool) (child : Subtree) :
    (edge path child).digest H = hashNode H (edgeNode H path child) := rfl

/-- The inner nodes on the way along a path, up to an edge that leads away from it. -/
def pathNodes : Subtree → List Bool → List CryptoMerkleNode
  | leaf _, _ => []
  | binary left right, [] => [binaryNode H left right]
  | binary left right, bit :: rest =>
    binaryNode H left right :: if bit then right.pathNodes rest else left.pathNodes rest
  | edge path child, bits =>
    edgeNode H path child :: if bits.take path.length = path then child.pathNodes
      (bits.drop path.length) else []

end Subtree

/-- A tree of height 251; the empty one has no root node. -/
structure Tree where
  root : Option Subtree
  spans : ∀ s, root = some s → s.Spans 251

namespace Tree

variable (H : CryptoFelt → CryptoFelt → CryptoFelt) (t : Tree)

def digest : CryptoFelt := t.root.elim 0 (·.digest H)

def lookup (key : Felt) : Option CryptoFelt := t.root.bind (·.lookup (pathOf key.toNat))

def pathNodes (key : Felt) : List CryptoMerkleNode := t.root.elim [] (·.pathNodes H (pathOf key.toNat))

/-- The proof an honest prover sends. -/
def prove (key : Felt) : List MerkleNode := (t.pathNodes H key).map CryptoMerkleNode.toMerkleNode

end Tree

end UnionVoyager.Light.Starknet
