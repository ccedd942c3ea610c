import UnionVoyager.Ics23.Checked
import Mathlib.Data.List.Nodup

/-!
# Accepted proofs tell the truth about the trees

The adversary makes the proofs, the chain makes the trees.  Of sha256 nothing is assumed but that no
two of the strings hashed for the tree and for the proof collide.

* `Sample.hidden_key_accepted` — where one does, the tendermint spec accepts a key that is not there.
-/

namespace UnionVoyager.Ics23

open Lib List

/-! ## What a proof hashes -/

section Hashed

variable (hs : Hashes)

def ExistenceProof.hashed (proof : ExistenceProof) : List Bytes := proof.evidence.hashed hs.sha256

def NonExistenceProof.hashed (proof : NonExistenceProof) : List Bytes :=
  sideHashed hs.sha256 (proof.left.map ExistenceProof.evidence) ++
    sideHashed hs.sha256 (proof.right.map ExistenceProof.evidence)

def CommitmentProof.hashed : CommitmentProof → List Bytes
  | .exist proof => proof.hashed hs
  | .nonexist proof => proof.hashed hs
  | .batch => []
  | .compressedBatch => []

variable {Leaf Node : Type} (F : Format Leaf Node) (spec : ProofSpec)

/-- What is accepted for the root of a sorted tree with such keys is so in the tree. -/
def SoundFor (Keys : List Bytes → Prop) : Prop :=
  ∀ t : KeyedTree Leaf Node, t.keys.Pairwise (· < ·) → Keys t.keys →
    (∀ (proof : ExistenceProof) (key value : Bytes),
      NoCollision hs.sha256 (t.hashed F hs.sha256 ++ proof.hashed hs) →
      verifyMembership hs spec (t.hash F hs.sha256) proof key value = .ok () → (key, value) ∈ t.leaves) ∧
    ∀ (proof : NonExistenceProof) (key : Bytes),
      NoCollision hs.sha256 (t.hashed F hs.sha256 ++ proof.hashed hs) →
      verifyNonMembership hs spec (t.hash F hs.sha256) proof key = .ok () → key ∉ t.keys

end Hashed

/-- Where no key hides another one: a head cannot end inside a key. -/
def Plain (keys : List Bytes) : Prop := ∀ key ∈ keys, ∀ inside, inside ≠ [] → Hides key inside → key = inside

/-- No proof of membership and one of absence are both accepted for a key under a root: that of a
    tree that has the root of a sorted IAVL tree under the first key of the path. -/
def NeverBoth (hs : Hashes) : Prop :=
  ∀ (outer : TendermintTree) (inner : IavlTree) (store key value : Bytes)
    (proofs proofs' : List CommitmentProof),
    outer.keys.Pairwise (· < ·) → inner.keys.Pairwise (· < ·) →
    (store, inner.hash iavl hs.sha256) ∈ outer.leaves →
      (∀ name ∈ outer.keys, Hides name store → name = store) →
    NoCollision hs.sha256 (outer.hashed tendermint hs.sha256 ++ inner.hashed iavl hs.sha256 ++
      (proofs.flatMap (CommitmentProof.hashed hs) ++ proofs'.flatMap (CommitmentProof.hashed hs))) →
    ¬ (IbcApi.verifyMembership hs proofs SDK_SPECS (outer.hash tendermint hs.sha256) [store, key]
      value = .ok () ∧
      IbcApi.verifyNonMembership hs proofs' SDK_SPECS (outer.hash tendermint hs.sha256) [store, key] = .ok ())

/-! ## One tree -/

variable {proof : ExistenceProof}

section OneTree

variable {hs : Hashes} {Leaf Node : Type} {F : Format Leaf Node} {spec : ProofSpec} {t : KeyedTree Leaf Node}

theorem Accepted.mem_leaves (h : Accepted hs spec (t.hash F hs.sha256) proof)
    (hfits : proof.evidence.Fits F hs.sha256 32 t.keys)
    (hfree : NoCollision hs.sha256 (t.hashed F hs.sha256 ++ proof.hashed hs)) :
      (proof.key, proof.value) ∈ t.leaves :=
  Evidence.mem_leaves hs.sha256_length hfits hfree h.root_eq

theorem soundFor_of_fits {Keys : List Bytes → Prop} (hspec : Standard spec)
    (hfits : ∀ (keys : List Bytes) (root : Bytes) (proof : ExistenceProof), Keys keys →
      Accepted hs spec root proof →
      proof.evidence.Fits F hs.sha256 32 keys) : SoundFor hs F spec Keys := by
  intro t hsorted hkeys
  constructor
  · intro proof key value hfree h
    simp only [verifyMembership, mapError_eq_ok] at h
    obtain ⟨rfl, rfl, haccepted⟩ := verifyExistenceProof_eq_ok hspec h
    exact haccepted.mem_leaves (hfits _ _ _ hkeys haccepted) hfree
  · intro proof key hfree h
    simp only [verifyNonMembership, mapError_eq_ok] at h
    obtain ⟨hbrackets, haccepted⟩ := verifyNonExistence_eq_ok hspec h
    apply hbrackets.not_mem hs.sha256_length (by decide) hsorted _ hfree
    intro e he
    obtain ⟨side, hside, rfl⟩ : ∃ side, (proof.left = some side ∨ proof.right = some side) ∧
        side.evidence = e := by
      rcases he with he | he
      · obtain ⟨side, hside, rfl⟩ := Option.map_eq_some_iff.mp he
        exact ⟨side, .inl hside, rfl⟩
      · obtain ⟨side, hside, rfl⟩ := Option.map_eq_some_iff.mp he
        exact ⟨side, .inr hside, rfl⟩
    have hacc := haccepted side hside
    exact ⟨hfits _ _ _ hkeys hacc, hacc.root_eq⟩

theorem soundFor_iavl : SoundFor hs iavl IAVL_PROOF_SPEC fun _ => True :=
  soundFor_of_fits standard_iavl fun _ _ _ _ h => checkAgainstSpec_iavl h.checked

theorem soundFor_tendermint : SoundFor hs tendermint TENDERMINT_PROOF_SPEC Plain :=
  soundFor_of_fits standard_tendermint fun _ _ proof hplain h =>
    checkAgainstSpec_tendermint (fun key hkey hhides =>
      hplain key hkey proof.key h.key_ne_nil hhides) h.checked

end OneTree

/-! ## Both trees -/

section BothTrees

variable {hs : Hashes}

variable {link : CommitmentProof}

theorem existenceOf_eq_ok : IbcApi.existenceOf link = .ok proof ↔ link = .exist proof := by
  cases link <;> simp [IbcApi.existenceOf]

theorem nonExistenceOf_eq_ok {proof : NonExistenceProof} :
    IbcApi.nonExistenceOf (some link) = .ok proof ↔ link = .nonexist proof := by
  cases link <;> simp [IbcApi.nonExistenceOf]

theorem verifyLink_eq_ok {keys : List Bytes} {value subroot : Bytes} {i : Nat} {spec : ProofSpec}
    (hget : SDK_SPECS[i]? = some spec) (hspec : Standard spec)
    (h : IbcApi.verifyLink hs SDK_SPECS keys value (link, i) = .ok subroot) :
    ∃ proof, link = .exist proof ∧ IbcApi.keyAt keys i = .ok proof.key ∧ value = proof.value ∧
      Accepted hs spec subroot proof := by
  simp only [IbcApi.verifyLink, bind_eq_ok, mapError_eq_ok, orErr_eq_ok, pure_eq_ok, hget, Option.some.injEq,
    exists_eq_left', verifyMembership, existenceOf_eq_ok] at h
  obtain ⟨proof, hproof, _, _, key, hkey, _, hver, rfl⟩ := h
  obtain ⟨rfl, rfl, hacc⟩ := verifyExistenceProof_eq_ok hspec hver
  exact ⟨proof, hproof, hkey, rfl, hacc⟩

theorem keyAt_zero (store key : Bytes) : IbcApi.keyAt [store, key] 0 = .ok key := rfl

theorem keyAt_one (store key : Bytes) : IbcApi.keyAt [store, key] 1 = .ok store := rfl

variable {root store key : Bytes}

theorem verifyChained_one_eq_ok {subroot : Bytes} {p q : CommitmentProof}
    (h : IbcApi.verifyChainedMembershipProof hs root SDK_SPECS [p, q] [store, key] subroot 1 = .ok ()) :
    ∃ proof, q = .exist proof ∧ proof.key = store ∧ proof.value = subroot ∧
      Accepted hs TENDERMINT_PROOF_SPEC root proof := by
  simp only [IbcApi.verifyChainedMembershipProof, zipIdx_cons, zipIdx_nil, drop_succ_cons, drop_zero,
    foldlM_cons, foldlM_nil, bind_eq_ok, pure_eq_ok, ensure_eq_ok] at h
  obtain ⟨_, ⟨_, hlink, rfl⟩, rfl⟩ := h
  obtain ⟨proof, rfl, hkey, rfl, hacc⟩ := verifyLink_eq_ok rfl standard_tendermint hlink
  rw [keyAt_one] at hkey
  cases hkey
  exact ⟨proof, rfl, rfl, rfl, hacc⟩

theorem verifyMembership_eq_ok {value : Bytes} {proofs : List CommitmentProof}
    (h : IbcApi.verifyMembership hs proofs SDK_SPECS root [store, key] value = .ok ()) :
    ∃ p q, proofs = [.exist p, .exist q] ∧ p.key = key ∧ p.value = value ∧
      Accepted hs IAVL_PROOF_SPEC q.value p ∧
      q.key = store ∧ Accepted hs TENDERMINT_PROOF_SPEC root q := by
  simp only [IbcApi.verifyMembership, bind_eq_ok, ensure_eq_ok, exists_const] at h
  obtain ⟨hlen, -, h⟩ := h
  obtain ⟨p, q, rfl⟩ := List.length_eq_two.mp hlen
  simp only [IbcApi.verifyChainedMembershipProof, zipIdx_cons, zipIdx_nil, drop_zero,
    foldlM_cons, foldlM_nil, bind_eq_ok, pure_eq_ok, ensure_eq_ok] at h
  obtain ⟨_, ⟨_, hfirst, _, hsecond, rfl⟩, rfl⟩ := h
  obtain ⟨p, rfl, hkey, rfl, hacc⟩ := verifyLink_eq_ok rfl standard_iavl hfirst
  obtain ⟨q, rfl, hkey', rfl, hacc'⟩ := verifyLink_eq_ok rfl standard_tendermint hsecond
  rw [keyAt_zero] at hkey
  rw [keyAt_one] at hkey'
  cases hkey
  cases hkey'
  exact ⟨p, q, rfl, rfl, rfl, hacc, rfl, hacc'⟩

theorem verifyNonMembership_eq_ok {proofs : List CommitmentProof}
    (h : IbcApi.verifyNonMembership hs proofs SDK_SPECS root [store, key] = .ok ()) :
    ∃ p q, proofs = [.nonexist p, .exist q] ∧ verifyNonMembership hs IAVL_PROOF_SPEC q.value p key = .ok () ∧
      q.key = store ∧ Accepted hs TENDERMINT_PROOF_SPEC root q := by
  simp only [IbcApi.verifyNonMembership, bind_eq_ok, ensure_eq_ok, exists_const] at h
  obtain ⟨-, hlen, -, nonexist, hnonexist, subroot, -, _, hkey, _, hspec, _, hver, hchain⟩ := h
  obtain ⟨p, q, rfl⟩ := List.length_eq_two.mp hlen
  have hlast : key = _ := Option.some.inj (orErr_eq_ok.mp hkey)
  have hfirst : IAVL_PROOF_SPEC = _ := Option.some.inj (orErr_eq_ok.mp hspec)
  rw [← hlast, ← hfirst, mapError_eq_ok] at hver
  have hp : p = .nonexist nonexist := nonExistenceOf_eq_ok.mp hnonexist
  obtain ⟨q, rfl, hstore, rfl, hacc⟩ := verifyChained_one_eq_ok hchain
  exact ⟨nonexist, q, by rw [hp], hver, hstore, hacc⟩

theorem value_unique {Leaf Node : Type} {t : KeyedTree Leaf Node}
    (hsorted : t.keys.Pairwise (· < ·)) {v v' : Bytes}
    (h : (key, v) ∈ t.leaves) (h' : (key, v') ∈ t.leaves) : v = v' := by
  unfold KeyedTree.keys at hsorted
  have hnodup : (t.leaves.map Prod.fst).Nodup := by
    apply List.Pairwise.imp _ hsorted
    rintro a b hlt rfl
    exact List.lt_irrefl _ hlt
  have hpair : (key, v) = (key, v') := inj_on_of_nodup_map hnodup h h' rfl
  exact congrArg Prod.snd hpair

theorem Accepted.value_eq {outer : TendermintTree}
    (h : Accepted hs TENDERMINT_PROOF_SPEC (outer.hash tendermint hs.sha256) proof)
    (hsorted : outer.keys.Pairwise (· < ·)) (hmem : (proof.key, root) ∈ outer.leaves)
    (hplain : ∀ name ∈ outer.keys, Hides name proof.key → name = proof.key)
    (hfree : NoCollision hs.sha256 (outer.hashed tendermint hs.sha256 ++ proof.hashed hs)) :
      proof.value = root :=
  value_unique hsorted (h.mem_leaves (checkAgainstSpec_tendermint hplain h.checked) hfree) hmem

theorem neverBoth : NeverBoth hs := by
  intro outer inner store key value proofs proofs' houter hinner hmem hplain hfree
  rintro ⟨hmember, habsent⟩
  obtain ⟨p, q, rfl, rfl, rfl, hp, rfl, hq⟩ := verifyMembership_eq_ok hmember
  obtain ⟨p', q', rfl, hp', hstore, hq'⟩ := verifyNonMembership_eq_ok habsent
  have hqvalue := hq.value_eq houter hmem hplain (hfree.mono (by
    simp only [mem_append, flatMap_cons, CommitmentProof.hashed]
    tauto))
  have hqvalue' := hq'.value_eq houter (hstore ▸ hmem) (hstore ▸ hplain) (hfree.mono (by
    simp only [mem_append, flatMap_cons, CommitmentProof.hashed]
    tauto))
  rw [hqvalue] at hp
  rw [hqvalue'] at hp'
  have hthere : (p.key, p.value) ∈ inner.leaves :=
    hp.mem_leaves (checkAgainstSpec_iavl hp.checked) (hfree.mono (by
    simp only [mem_append, flatMap_cons, CommitmentProof.hashed]
    tauto))
  have hnot : p.key ∉ inner.keys := (soundFor_iavl inner hinner trivial).2 p' p.key (hfree.mono (by
    simp only [mem_append, flatMap_cons, CommitmentProof.hashed]
    tauto)) hp'
  exact hnot (mem_map_of_mem hthere)

end BothTrees

/-- **Proofs are sound**: for IAVL trees, for tendermint trees in which no key hides another, and
    through both. -/
theorem proofs_sound (hs : Hashes) :
    SoundFor hs iavl IAVL_PROOF_SPEC (fun _ => True) ∧ SoundFor hs tendermint TENDERMINT_PROOF_SPEC Plain ∧
      NeverBoth hs :=
  ⟨soundFor_iavl, soundFor_tendermint, neverBoth⟩

namespace Sample

/-- A digest that keeps short strings apart. -/
def digest (b : Bytes) : Bytes := beBytes 32 (b.foldl (fun n x => n * 257 + x.toNat + 1) 0)

def hashes : Hashes where
  sha256 := digest
  sha512 := digest
  ripemd160 := digest
  sha512_256 := digest
  sha256_length := fun _ => beBytes_length _ _

def leafNumbers : LeafNumbers := ⟨1, by decide⟩

def nodeNumbers : NodeNumbers := ⟨1, 2, 1, Nat.one_pos, by decide, by decide, by decide⟩

def leafA : IavlTree := .leaf leafNumbers [97] [1]

def leafC : IavlTree := .leaf leafNumbers [99] [3]

/-- The keys `a` and `c`. -/
def store : IavlTree := .node nodeNumbers leafA leafC

def leafOp (pre : Bytes) : LeafOp := ⟨.sha256, .noHash, .sha256, .varProto, pre⟩

def proofA : ExistenceProof :=
    ⟨[97], [1], leafOp [0, 2, 2], [⟨.sha256, [2, 4, 2, 32], 32 :: leafC.hash iavl digest⟩]⟩

def proofC : ExistenceProof :=
  ⟨[99], [3], leafOp [0, 2, 2], [⟨.sha256, [2, 4, 2, 32] ++ leafA.hash iavl digest ++ [32], []⟩]⟩

/-- The key `b` is between them. -/
def absentB : NonExistenceProof := ⟨[98], some proofA, some proofC⟩

/-- Two proofs for the store, through the general result. -/
theorem proofs_sound_sample : ([97], [1]) ∈ store.leaves ∧ [98] ∉ store.keys :=
  ⟨((proofs_sound hashes).1 store (by decide) trivial).1 proofA [97] [1] (by decide +kernel)
    (by decide +kernel),
    ((proofs_sound hashes).1 store (by decide) trivial).2 absentB [98] (by decide +kernel)
      (by decide +kernel)⟩

/-- A store whose name hides `a`. -/
def secretive : TendermintTree := .leaf () [1, 97] [7]

/-- The length of the stored name is in the head, and what is left of the name is another one. -/
def forged : ExistenceProof := ⟨[97], [7], leafOp [0, 2], []⟩

theorem hidden_key_accepted :
    verifyMembership hashes TENDERMINT_PROOF_SPEC (secretive.hash tendermint digest) forged [97]
      [7] = .ok () ∧ ([97], [7]) ∉ secretive.leaves ∧ secretive.keys.Pairwise (· < ·) ∧
      NoCollision digest (secretive.hashed tendermint digest ++ forged.hashed hashes) := by
  decide +kernel

/-- The tendermint spec is not sound for every sorted tree. -/
theorem not_sound_tendermint : ¬ ∀ hs : Hashes,
    SoundFor hs tendermint TENDERMINT_PROOF_SPEC fun _ => True := by
  intro h
  obtain ⟨hacc, hnot, hsorted, hfree⟩ := hidden_key_accepted
  exact hnot ((h hashes secretive hsorted trivial).1 forged [97] [7] hfree hacc)

end Sample

end UnionVoyager.Ics23
