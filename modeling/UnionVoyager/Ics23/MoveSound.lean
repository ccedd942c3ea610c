import UnionVoyager.Ics23.Move

/-!
# What the Move verifier accepts

One assertion joins the bounds of a prefix by the wrong connective, and as in Solidity nobody looks
at the varints and at the lengths of the suffixes.

* `verifyExistence_eq_ok`, `verifyNonExistence_eq_ok` — what it has checked of a proof that it accepts.
* `Sample.stored_digest_accepted` — a proof for a key that is not in the store, with an operation
  that starts with 0.
-/

namespace UnionVoyager.Ics23.Port.Move

open Lib

variable {hs : Hashes} {spec : ProofSpec}

/-! ## Existence -/

theorem applyInnerOp_eq_ok {op : InnerOp} {child out : Bytes}
    (h : applyInnerOp hs op child = .ok out) : out = hs.sha256 (op.step.input child) := by
  simp only [applyInnerOp, bind_eq_ok, ensure_eq_ok, exists_const, pure_eq_ok] at h
  exact h.2.symm

variable {proof : ExistenceProof} {root key value : Bytes}

theorem calculateExistenceRoot_eq_ok (h : calculateExistenceRoot hs proof = .ok root) :
    proof.key ≠ [] ∧ proof.value ≠ [] ∧ proof.evidence.root hs.sha256 = root := by
  simp only [calculateExistenceRoot, applyLeafOp, bind_eq_ok, ensure_eq_ok, exists_const, pure_eq_ok,
    encodeVarint_eq proof.key_length, encodeVarint_eq (show 32 < 2 ^ 64 by omega)] at h
  obtain ⟨-, _, ⟨hkey, hvalue, rfl⟩, hfold⟩ := h
  refine ⟨hkey, hvalue, ?_⟩
  rw [walk_of_foldlM (fun op _ _ _ happly => applyInnerOp_eq_ok happly) hfold]
  simp only [Evidence.root, Evidence.start, ExistenceProof.evidence, lenPrefixed, hs.sha256_length,
    List.append_assoc]

theorem checkAgainstSpec_eq_ok (h : checkAgainstSpec proof spec = .ok ()) : LeafByte proof.leafPrefix := by
  simp only [checkAgainstSpec, bind_eq_ok, ensure_eq_ok, exists_const] at h
  exact h.2.1

theorem verifyNoRootCheck_eq_ok (h : verifyNoRootCheck proof spec key value = .ok ()) :
    proof.key = key ∧ proof.value = value ∧ LeafByte proof.leafPrefix := by
  simp only [verifyNoRootCheck, bind_eq_ok, ensure_eq_ok, exists_const] at h
  obtain ⟨rfl, rfl, hcheck⟩ := h
  exact ⟨rfl, rfl, checkAgainstSpec_eq_ok hcheck⟩

theorem verifyExistence_eq_ok (h : verifyExistence hs proof spec root key value = .ok ()) :
    proof.key = key ∧ proof.value = value ∧ Shown hs root proof.toExistenceProof := by
  simp only [verifyExistence, bind_eq_ok, ensure_eq_ok, exists_const] at h
  obtain ⟨rfl, rfl, _, hcheck, _, hroot, rfl⟩ := h
  obtain ⟨hkey, hvalue, hroot'⟩ := calculateExistenceRoot_eq_ok hroot
  exact ⟨rfl, rfl, checkAgainstSpec_eq_ok hcheck, hkey, hvalue, hroot'⟩

/-! ## Absence -/

/-- A side without its bound. -/
def side (proof : Option ExistenceProof) : Option Port.ExistenceProof :=
    proof.map ExistenceProof.toExistenceProof

theorem compares_sameStep (left right : Option Port.ExistenceProof) : Compares sameStep left right := by
  intro l _ r _ x _ y _
  exact decide_eq_true_iff

theorem isLeftNeighbor_eq_ok {l r : ExistenceProof} (h : isLeftNeighbor spec l.path r.path = .ok true) :
    Neighbors spec sameStep (some l.toExistenceProof) (some r.toExistenceProof) := by
  simp only [isLeftNeighbor, isLeftStep, orderOrAbort, bind_eq_ok, ensure_eq_ok, exists_const,
    orErr_eq_ok, Prod.exists, pure_eq_ok, Bool.and_eq_true] at h
  obtain ⟨⟨hl, hr⟩, leftIdx, rightIdx, hparting, x, hx, y, hy, _, ⟨i, hleft, j, hright, rfl⟩,
    ⟨hstep, hrightMost⟩, hleftMost⟩ := h
  rw [decide_eq_true_eq] at hstep
  subst hstep
  exact .between _ _ hl hr leftIdx rightIdx i x y hparting hx hy hleft hright hrightMost hleftMost

theorem lt_of_compare {a b : Bytes} (h : ¬ 1 ≤ compare a b) : a < b := by
  unfold compare at h
  split at h
  case h_1 hlt => exact compareBytes_lt.mp hlt
  case h_2 => omega
  case h_3 => omega

theorem gt_of_compare {a b : Bytes} (h : ¬ compare a b ≤ 1) : b < a := by
  unfold compare at h
  split at h
  case h_1 => omega
  case h_2 => omega
  case h_3 hgt => exact compareBytes_gt.mp hgt

theorem verifyNonExistence_eq_ok {proof : NonExistenceProof}
    (h : verifyNonExistence hs proof spec root key = .ok ()) :
    Absent hs spec sameStep root key (side proof.left) (side proof.right) := by
  obtain ⟨proofKey, left, right⟩ := proof
  simp only [verifyNonExistence, bind_eq_ok, ensure_eq_ok, exists_const] at h
  obtain ⟨_, hleft, _, hright, -, hupper, hlower, hplaces⟩ := h
  have hshown : ∀ {s : Option ExistenceProof}, verifySide hs spec root s = .ok () →
      ∀ p ∈ (side s).toList, Shown hs root p := by
    intro s hs p hp
    cases s with
    | none => cases hp
    | some s =>
      rw [List.mem_singleton.mp hp]
      exact (verifyExistence_eq_ok hs).2.2
  refine ⟨?_, ?_, ?_, ?_⟩
  · intro p hp
    rcases List.mem_append.mp hp with hp | hp
    · exact hshown hleft p hp
    · exact hshown hright p hp
  · intro l hl
    obtain ⟨left', hleft', rfl⟩ := Option.map_eq_some_iff.mp hl
    exact gt_of_compare (hlower left' hleft')
  · intro r hr
    obtain ⟨right', hright', rfl⟩ := Option.map_eq_some_iff.mp hr
    exact lt_of_compare (hupper right' hright')
  · cases left with
    | none =>
      cases right with
      | none => cases hplaces
      | some r => exact .first _ (ensure_eq_ok.mp hplaces)
    | some l =>
      cases right with
      | none => exact .last _ (ensure_eq_ok.mp hplaces)
      | some r =>
        simp only [verifyPlaces, bind_eq_ok, ensure_eq_ok] at hplaces
        obtain ⟨_, hneighbor, rfl⟩ := hplaces
        exact isLeftNeighbor_eq_ok hneighbor

/-! ## Both trees -/

theorem verifyMembership_eq_ok {proof : MembershipProof} {pre : Bytes}
    (h : verifyMembership hs proof root pre key value = .ok ()) :
    proof.subProof.key = key ∧ proof.subProof.value = value ∧ proof.topLevelProof.key = pre ∧
      Shown hs proof.topLevelProof.value proof.subProof.toExistenceProof ∧
      Shown hs root proof.topLevelProof.toExistenceProof := by
  simp only [verifyMembership, bind_eq_ok] at h
  obtain ⟨_, hsubroot, _, hsub, htop⟩ := h
  obtain ⟨hkey, hvalue, rfl⟩ := calculateExistenceRoot_eq_ok hsubroot
  obtain ⟨rfl, rfl, hbyte⟩ := verifyNoRootCheck_eq_ok hsub
  obtain ⟨hpre, hroot, hshown⟩ := verifyExistence_eq_ok htop
  exact ⟨rfl, rfl, hpre, ⟨hbyte, hkey, hvalue, hroot.symm⟩, hshown⟩

theorem verifyNonMembership_eq_ok {proof : NonMembershipProof} {pre : Bytes}
    (h : verifyNonMembership hs proof root pre key = .ok ()) : proof.existenceProof.key = pre ∧
      Absent hs iavlProofSpec sameStep proof.existenceProof.value key (side proof.nonExistenceProof.left)
        (side proof.nonExistenceProof.right) ∧
      Shown hs root proof.existenceProof.toExistenceProof := by
  simp only [verifyNonMembership, bind_eq_ok, ensure_eq_ok] at h
  obtain ⟨subroot, -, _, hver, _, hcheck, _, hroot, rfl⟩ := h
  obtain ⟨hpre, rfl, hbyte⟩ := verifyNoRootCheck_eq_ok hcheck
  obtain ⟨hkey, hvalue, hroot'⟩ := calculateExistenceRoot_eq_ok hroot
  exact ⟨hpre, verifyNonExistence_eq_ok hver, hbyte, hkey, hvalue, hroot'⟩

/-- The proofs for the inner tree. -/
def sides (proof : NonMembershipProof) : List Port.ExistenceProof :=
  (side proof.nonExistenceProof.left).toList ++ (side proof.nonExistenceProof.right).toList

/-- A membership with operations in range and with the format. -/
def MembershipProof.Proper (proof : MembershipProof) : Prop :=
  AllInRange [proof.subProof.toExistenceProof] proof.topLevelProof.toExistenceProof ∧
    AllFormatted [proof.subProof.toExistenceProof] proof.topLevelProof.toExistenceProof

/-- An absence with operations in range and with the format. -/
def NonMembershipProof.Proper (proof : NonMembershipProof) : Prop :=
  AllInRange (sides proof) proof.existenceProof.toExistenceProof ∧
    AllFormatted (sides proof) proof.existenceProof.toExistenceProof

instance (proof : MembershipProof) : Decidable proof.Proper := inferInstanceAs (Decidable (_ ∧ _))

instance (proof : NonMembershipProof) : Decidable proof.Proper := inferInstanceAs (Decidable (_ ∧ _))

def MembershipProof.hashed (hs : Hashes) (proof : MembershipProof) : List Bytes :=
  proof.subProof.toExistenceProof.hashed hs ++ proof.topLevelProof.toExistenceProof.hashed hs

def NonMembershipProof.hashed (hs : Hashes) (proof : NonMembershipProof) : List Bytes :=
  (sides proof).flatMap (Port.ExistenceProof.hashed hs) ++ proof.existenceProof.toExistenceProof.hashed hs

section Sound

variable {stores : Stores hs.sha256}

theorem membership_iff {proof : MembershipProof}
    (hfree : NoCollision hs.sha256 (stores.hashed ++ proof.hashed hs))
    (h : verifyMembership hs proof stores.root stores.name key value = .ok ()) :
        (key, value) ∈ stores.inner.leaves ∧
        AllInRange [proof.subProof.toExistenceProof] proof.topLevelProof.toExistenceProof ∧
        AcceptsMembership hs stores.root stores.name proof.subProof.toExistenceProof
          proof.topLevelProof.toExistenceProof key value ↔
      proof.Proper := by
  obtain ⟨rfl, rfl, hname, hp, hq⟩ := verifyMembership_eq_ok h
  have haccepts := acceptsMembership_iff hp hq
  rw [hname] at haccepts
  rw [haccepts]
  constructor
  · rintro ⟨-, -, hproper⟩
    exact hproper
  · rintro ⟨hrange, hfmt⟩
    exact ⟨membership_sound hp hq hname hfree hrange hfmt, hrange, hrange, hfmt⟩

theorem nonMembership_iff {proof : NonMembershipProof}
    (hfree : NoCollision hs.sha256 (stores.hashed ++ proof.hashed hs))
    (h : verifyNonMembership hs proof stores.root stores.name key = .ok ()) :
    key ∉ stores.inner.keys ∧ AllInRange (sides proof) proof.existenceProof.toExistenceProof ∧
        AcceptsNonMembership hs stores.root stores.name proof.nonExistenceProof.key
          (side proof.nonExistenceProof.left)
          (side proof.nonExistenceProof.right) proof.existenceProof.toExistenceProof key ↔
      proof.Proper := by
  obtain ⟨hname, habsent, hq⟩ := verifyNonMembership_eq_ok h
  have haccepts := acceptsNonMembership_iff proof.nonExistenceProof.key (compares_sameStep _ _) habsent hq
  rw [hname] at haccepts
  rw [haccepts]
  constructor
  · rintro ⟨-, -, hproper⟩
    exact hproper
  · rintro ⟨hrange, hfmt⟩
    exact ⟨nonMembership_sound (compares_sameStep _ _) habsent hq hname hfree hrange hfmt, hrange,
      hrange, hfmt⟩

theorem client_never_both {client : Client} {height : UInt64} {proof : MembershipProof}
    {proof' : NonMembershipProof}
    (hroot : client.appHash height = some stores.root) (hstore : stores.name = Client.HARDCODED_PREFIX)
    (hfree : NoCollision hs.sha256 (stores.hashed ++ (proof.hashed hs ++ proof'.hashed hs)))
      (hproper : proof.Proper)
    (hproper' : proof'.Proper) :
    ¬ (client.verifyMembership hs height proof key value = .ok 0 ∧
      client.verifyNonMembership hs height proof' key = .ok 0) := by
  simp only [Client.verifyMembership, Client.verifyNonMembership, bind_eq_ok, orErr_eq_ok, hroot,
    Option.some.injEq, exists_eq_left', ← hstore, pure_eq_ok, and_true]
  rintro ⟨⟨_, hmember⟩, _, habsent⟩
  have hthere := ((membership_iff (hfree.mono (by
    simp only [List.mem_append]
    tauto)) hmember).mpr hproper).1
  have hnot := ((nonMembership_iff (hfree.mono (by
    simp only [List.mem_append]
    tauto)) habsent).mpr hproper').1
  exact hnot (List.mem_map_of_mem hthere)

end Sound

/-- **When the Move verifier is sound.**  What it accepts under the root of the chain's trees is so,
    in range, and accepted by `lib/ics23`, iff the operations are in range and the proof has the
    format; and no two such proofs are against each other. -/
theorem move_sound_iff (hs : Hashes) (stores : Stores hs.sha256) :
    (∀ (proof : MembershipProof) (key value : Bytes),
      NoCollision hs.sha256 (stores.hashed ++ proof.hashed hs) →
      verifyMembership hs proof stores.root stores.name key value = .ok () →
      ((key, value) ∈ stores.inner.leaves ∧
          AllInRange [proof.subProof.toExistenceProof] proof.topLevelProof.toExistenceProof ∧
          AcceptsMembership hs stores.root stores.name proof.subProof.toExistenceProof
            proof.topLevelProof.toExistenceProof key value ↔
        proof.Proper)) ∧
    (∀ (proof : NonMembershipProof) (key : Bytes), NoCollision hs.sha256 (stores.hashed ++ proof.hashed hs) →
      verifyNonMembership hs proof stores.root stores.name key = .ok () →
      (key ∉ stores.inner.keys ∧ AllInRange (sides proof) proof.existenceProof.toExistenceProof ∧
          AcceptsNonMembership hs stores.root stores.name proof.nonExistenceProof.key
            (side proof.nonExistenceProof.left) (side proof.nonExistenceProof.right)
            proof.existenceProof.toExistenceProof key ↔
        proof.Proper)) ∧
    ∀ (client : Client) (height : UInt64) (proof : MembershipProof) (proof' : NonMembershipProof)
      (key value : Bytes),
      client.appHash height = some stores.root → stores.name = Client.HARDCODED_PREFIX →
      NoCollision hs.sha256 (stores.hashed ++ (proof.hashed hs ++ proof'.hashed hs)) →
        proof.Proper → proof'.Proper →
      ¬ (client.verifyMembership hs height proof key value = .ok 0 ∧
        client.verifyNonMembership hs height proof' key = .ok 0) :=
  ⟨fun _ _ _ hfree h => membership_iff hfree h, fun _ _ hfree h => nonMembership_iff hfree h,
    fun _ _ _ _ _ _ hroot hstore hfree hproper hproper' =>
      client_never_both hroot hstore hfree hproper hproper'⟩

namespace Sample

open Ics23.Sample

def forgedLeaf : Port.ExistenceProof := ⟨[97], [9], [0], []⟩

/-- A key that a contract may write: the digest of a leaf that is in no tree. -/
def storedDigest : Bytes := forgedLeaf.evidence.root digest

def writtenDigest : IavlTree := .leaf leafNumbers storedDigest [5]

def chain (inner : IavlTree) (h : inner.keys.Pairwise (· < ·)) : Stores digest :=
  .single digest Client.HARDCODED_PREFIX inner h

def topLevelProof (inner : IavlTree) : ExistenceProof :=
  ⟨⟨Client.HARDCODED_PREFIX, inner.hash iavl digest, [0], []⟩, show 4 < 2 ^ 64 by decide⟩

/-- The operation starts with the head of the stored leaf, and takes the stored key for the hash of
    its child. -/
def forgedProof : MembershipProof :=
  ⟨⟨{ forgedLeaf with path := [⟨[0, 2, 2, 32], lenPrefixed (digest [5])⟩] }, by decide⟩,
    topLevelProof writtenDigest⟩

theorem stored_digest_accepted :
    verifyMembership hashes forgedProof (chain writtenDigest (by decide)).root
      Client.HARDCODED_PREFIX [97] [9] = .ok () ∧ ([97], [9]) ∉ writtenDigest.leaves ∧
      ¬ AllInRange [forgedProof.subProof.toExistenceProof] forgedProof.topLevelProof.toExistenceProof ∧
      NoCollision digest ((chain writtenDigest (by decide)).hashed ++ forgedProof.hashed hashes) := by
  decide +kernel

/-- What is accepted is neither always so nor always in range. -/
theorem move_unsound : ¬ ∀ (hs : Hashes) (stores : Stores hs.sha256) (proof : MembershipProof)
      (key value : Bytes), NoCollision hs.sha256 (stores.hashed ++ proof.hashed hs) →
      verifyMembership hs proof stores.root stores.name key value = .ok () →
      (key, value) ∈ stores.inner.leaves ∧
        AllInRange [proof.subProof.toExistenceProof] proof.topLevelProof.toExistenceProof := by
  intro h
  obtain ⟨hacc, hnot, -, hfree⟩ := stored_digest_accepted
  exact hnot (h hashes (chain writtenDigest (by decide)) forgedProof [97] [9] hfree hacc).1

def moveA : ExistenceProof :=
    ⟨⟨[97], [1], [0, 2, 2], [⟨[2, 4, 2, 32], 32 :: leafC.hash iavl digest⟩]⟩, by decide⟩

def moveC : ExistenceProof :=
  ⟨⟨[99], [3], [0, 2, 2], [⟨[2, 4, 2, 32] ++ leafA.hash iavl digest ++ [32], []⟩]⟩, by decide⟩

/-- Proper proofs are true: `a` is in the store and `b` is not. -/
theorem move_sound_sample : ([97], [1]) ∈ store.leaves ∧ [98] ∉ store.keys :=
  have hsound := move_sound_iff hashes (chain store (by decide))
  ⟨((hsound.1 ⟨moveA, topLevelProof store⟩ [97] [1] (by decide +kernel) (by decide +kernel)).mpr
    (by decide)).1,
    ((hsound.2.1 ⟨⟨[], some moveA, some moveC⟩, topLevelProof store⟩ [98] (by decide +kernel)
      (by decide +kernel)).mpr (by decide)).1⟩

end Sample

end UnionVoyager.Ics23.Port.Move
