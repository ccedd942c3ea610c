import UnionVoyager.Ics23.Solidity

/-!
# What the Solidity verifier accepts

It leaves the varints of the IAVL prefixes and the lengths of the suffixes to whoever makes the proof.

* `verify_eq_ok`, `verifyNonExistence_eq_ok` — what it has checked of a proof that it accepts.
* `verifyChainedMembership_eq_ok`, `verifyChainedNonMembership_eq_ok` — the same for both trees.
* `Sample.unstored_key_accepted` — a proof without it for a key that is not in the store.
-/

namespace UnionVoyager.Ics23.Port.Solidity

open Lib

variable {hs : Hashes} {keccak256 : Bytes → Bytes} {spec : ProofSpec}

/-! ## Existence -/

theorem applyOp_eq_ok {op : InnerOp} {child out : Bytes} (h : applyOp hs op child = .ok out) :
    out = hs.sha256 (op.step.input child) := by
  simp only [applyOp, bind_eq_ok, ensure_eq_ok, exists_const, pure_eq_ok] at h
  exact h.2.symm

variable {proof : ExistenceProof} {root a b key value : Bytes}

theorem calculateRoot_eq_ok (h : calculateRoot hs proof = .ok root) :
    proof.key ≠ [] ∧ proof.value ≠ [] ∧ proof.evidence.root hs.sha256 = root := by
  simp only [calculateRoot, applyLeafOp, bind_eq_ok, mapError_eq_ok, ensure_eq_ok, exists_const,
    pure_eq_ok] at h
  obtain ⟨-, _, ⟨hkey, hvalue, rfl⟩, hfold⟩ := h
  refine ⟨List.ne_nil_of_length_pos (by omega), List.ne_nil_of_length_pos (by omega), ?_⟩
  rw [walk_of_foldlM (fun op _ _ _ happly => applyOp_eq_ok (mapError_eq_ok.mp happly)) hfold]
  simp only [Evidence.root, Evidence.start, ExistenceProof.evidence, lenPrefixed, hs.sha256_length,
    encodeVarint, List.append_assoc]

theorem checkAgainstSpec_eq_ok (h : checkAgainstSpec proof spec = .ok ()) :
    LeafByte proof.leafPrefix ∧ ∀ op ∈ proof.path, InRange spec op := by
  simp only [checkAgainstSpec, bind_eq_ok, ensure_eq_ok, exists_const] at h
  obtain ⟨-, hbyte, hpath⟩ := h
  refine ⟨hbyte, ?_⟩
  intro op hop
  have hrange := hpath op hop
  simp only [not_or, Nat.not_lt] at hrange
  exact ⟨hrange.1, hrange.2.1, hrange.2.2⟩

theorem keccak_eq {strings : List Bytes} (hfree : NoCollision keccak256 strings) (ha : a ∈ strings)
    (hb : b ∈ strings) (h : keccak256 a = keccak256 b) : a = b := hfree a ha b hb h

theorem verifyNoRootCheck_eq_ok (hfree : NoCollision keccak256 [proof.key, key, proof.value, value])
    (h : verifyNoRootCheck keccak256 proof spec key value = .ok ()) :
    proof.key = key ∧ proof.value = value ∧ LeafByte proof.leafPrefix ∧
      ∀ op ∈ proof.path, InRange spec op := by
  simp only [verifyNoRootCheck, bind_eq_ok, mapError_eq_ok, ensure_eq_ok, exists_const] at h
  obtain ⟨hkey, hvalue, hcheck⟩ := h
  exact ⟨keccak_eq hfree (by simp) (by simp) hkey, keccak_eq hfree (by simp) (by simp) hvalue,
    checkAgainstSpec_eq_ok hcheck⟩

theorem verify_eq_ok (h : verify hs keccak256 proof spec root key value = .ok ()) :
    verifyNoRootCheck keccak256 proof spec key value = .ok () ∧ Shown hs root proof ∧
      ∀ op ∈ proof.path, InRange spec op := by
  simp only [verify, bind_eq_ok, mapError_eq_ok, ensure_eq_ok, exists_const] at h
  obtain ⟨hkey, hvalue, _, hcheck, _, hroot, rfl⟩ := h
  obtain ⟨hbyte, hrange⟩ := checkAgainstSpec_eq_ok hcheck
  obtain ⟨hkey', hvalue', hroot'⟩ := calculateRoot_eq_ok hroot
  refine ⟨?_, ⟨hbyte, hkey', hvalue', hroot'⟩, hrange⟩
  simp only [verifyNoRootCheck, bind_eq_ok, mapError_eq_ok, ensure_eq_ok, exists_const]
  exact ⟨hkey, hvalue, hcheck⟩

/-! ## Absence -/

def side (proof : ExistenceProof) : Option ExistenceProof := if empty proof then none else some proof

theorem mem_side {p : ExistenceProof} : p ∈ (side proof).toList ↔ empty proof = false ∧ p = proof := by
  unfold side
  cases empty proof <;> simp

def comparedSteps (proof : NonExistenceProof) : List Bytes :=
  (proof.left.path ++ proof.right.path).flatMap fun op => [op.innerPrefix, op.suffix]

theorem compares_sameStep {proof : NonExistenceProof} (hfree : NoCollision keccak256 (comparedSteps proof)) :
    Compares (sameStep keccak256) (side proof.left) (side proof.right) := by
  intro l hl r hr x hx y hy
  obtain ⟨-, rfl⟩ := mem_side.mp (Option.mem_toList.mpr hl)
  obtain ⟨-, rfl⟩ := mem_side.mp (Option.mem_toList.mpr hr)
  have hmem : ∀ op, op ∈ proof.left.path ++ proof.right.path → ∀ b ∈ [op.innerPrefix, op.suffix],
      b ∈ comparedSteps proof := fun op hop b hb => List.mem_flatMap.mpr ⟨op, hop, hb⟩
  have hxmem := hmem x (List.mem_append_left _ hx)
  have hymem := hmem y (List.mem_append_right _ hy)
  simp only [sameStep, decide_eq_true_eq]
  constructor
  · rintro ⟨hpre, hsuffix⟩
    have h₁ := keccak_eq hfree (hxmem _ (by simp)) (hymem _ (by simp)) hpre
    have h₂ := keccak_eq hfree (hxmem _ (by simp)) (hymem _ (by simp)) hsuffix
    cases x
    cases y
    cases h₁
    cases h₂
    rfl
  · rintro rfl
    exact ⟨rfl, rfl⟩

theorem isLeftStep_eq_true {x y : InnerOp} (h : isLeftStep spec x y = true) :
    ∃ branch, orderFromPadding spec x = some branch ∧ orderFromPadding spec y = some (branch + 1) := by
  unfold isLeftStep at h
  split at h
  case h_1 leftIdx rightIdx hl hr =>
    rw [decide_eq_true_eq] at h
    exact ⟨leftIdx, hl, h ▸ hr⟩
  case h_2 => cases h

theorem isLeftNeighbor_eq_ok {l r : ExistenceProof}
    (h : isLeftNeighbor keccak256 spec l.path r.path = .ok true) :
    Neighbors spec (sameStep keccak256) (some l) (some r) := by
  simp only [isLeftNeighbor, bind_eq_ok, ensure_eq_ok, exists_const, orErr_eq_ok, Prod.exists, pure_eq_ok,
    Bool.and_eq_true] at h
  obtain ⟨⟨hl, hr⟩, leftIdx, rightIdx, hparting, x, hx, y, hy, ⟨hstep, hrightMost⟩, hleftMost⟩ := h
  obtain ⟨branch, hleft, hright⟩ := isLeftStep_eq_true hstep
  exact .between l r (List.ne_nil_of_length_pos (by omega)) (List.ne_nil_of_length_pos (by omega))
    leftIdx rightIdx branch x y hparting hx hy hleft hright hrightMost hleftMost

theorem compare_neg (h : compare a b < 0) : a < b := by
  unfold compare at h
  split at h
  case h_1 hlt => exact compareBytes_lt.mp hlt
  case h_2 => omega
  case h_3 => omega

theorem compare_pos (h : 0 < compare a b) : b < a := by
  unfold compare at h
  split at h
  case h_1 => omega
  case h_2 hgt => exact compareBytes_gt.mp hgt
  case h_3 => omega

theorem key_length_of_empty (h : empty proof = true) : proof.key.length = 0 := by
  simp only [empty, decide_eq_true_eq] at h
  exact h.1

theorem verifyNonExistence_eq_ok {proof : NonExistenceProof}
    (h : verifyNonExistence hs keccak256 proof spec root key = .ok ()) :
    Absent hs spec (sameStep keccak256) root key (side proof.left) (side proof.right) ∧
      ∀ p ∈ (side proof.left).toList ++ (side proof.right).toList, ∀ op ∈ p.path, InRange spec op := by
  simp only [verifyNonExistence, bind_eq_ok, onlyIf_eq_ok, decide_eq_true_eq, mapError_eq_ok, ensure_eq_ok,
    exists_const] at h
  obtain ⟨hleft, hright, hboth, hupper, hlower, hplaces⟩ := h
  have hsides : ∀ p ∈ (side proof.left).toList ++ (side proof.right).toList,
      Shown hs root p ∧ ∀ op ∈ p.path, InRange spec op := by
    intro p hp
    rcases List.mem_append.mp hp with hp | hp
    · obtain ⟨hthere, rfl⟩ := mem_side.mp hp
      exact (verify_eq_ok (hleft hthere)).2
    · obtain ⟨hthere, rfl⟩ := mem_side.mp hp
      exact (verify_eq_ok (hright hthere)).2
  have hkey : ∀ p, (p = proof.left ∨ p = proof.right) → empty p = false → 0 < p.key.length := by
    rintro p (rfl | rfl) hthere
    · exact List.length_pos_iff.mpr (verify_eq_ok (hleft hthere)).2.1.key_ne_nil
    · exact List.length_pos_iff.mpr (verify_eq_ok (hright hthere)).2.1.key_ne_nil
  refine ⟨⟨fun p hp => (hsides p hp).1, ?_, ?_, ?_⟩, fun p hp => (hsides p hp).2⟩
  · intro l hl
    obtain ⟨hthere, rfl⟩ := mem_side.mp (Option.mem_toList.mpr hl)
    have hpos := hkey _ (.inl rfl) hthere
    exact compare_pos (by omega)
  · intro r hr
    obtain ⟨hthere, rfl⟩ := mem_side.mp (Option.mem_toList.mpr hr)
    have hpos := hkey _ (.inr rfl) hthere
    exact compare_neg (by omega)
  · unfold verifyPlaces at hplaces
    unfold side
    cases hl : empty proof.left with
    | true =>
      rw [if_pos (key_length_of_empty hl), ensure_eq_ok] at hplaces
      cases hr : empty proof.right with
      | true => exact absurd ⟨key_length_of_empty hl, key_length_of_empty hr⟩ hboth
      | false => exact .first _ hplaces
    | false =>
      have hlpos := hkey _ (.inl rfl) hl
      rw [if_neg (by omega)] at hplaces
      cases hr : empty proof.right with
      | true =>
        rw [if_pos (key_length_of_empty hr), ensure_eq_ok] at hplaces
        exact .last _ hplaces
      | false =>
        have hrpos := hkey _ (.inr rfl) hr
        simp only [if_neg (show ¬ proof.right.key.length = 0 by omega), bind_eq_ok, mapError_eq_ok,
          ensure_eq_ok] at hplaces
        obtain ⟨_, hneighbor, rfl⟩ := hplaces
        exact isLeftNeighbor_eq_ok hneighbor

/-! ## Both trees -/

def comparedStrings (hs : Hashes) (proof₀ proof₁ : ExistenceProof) (pre key value : Bytes) : List Bytes :=
  [proof₀.key, key, proof₀.value, value, proof₁.key, pre, proof₁.value, proof₀.evidence.root hs.sha256]

theorem verifyChainedMembership_eq_ok {p q : ExistenceProof} {pre : Bytes}
    (hfree : NoCollision keccak256 (comparedStrings hs p q pre key value))
    (h : verifyChainedMembership hs keccak256 p q root pre key value = .ok ()) :
    p.key = key ∧ p.value = value ∧ q.key = pre ∧ Shown hs q.value p ∧ Shown hs root q ∧
      AllInRange [p] q := by
  simp only [verifyChainedMembership, bind_eq_ok, mapError_eq_ok] at h
  obtain ⟨_, hsubroot, _, hp, hq⟩ := h
  obtain ⟨hkey₀, hvalue₀, rfl⟩ := calculateRoot_eq_ok hsubroot
  obtain ⟨rfl, rfl, hbyte, hrange⟩ := verifyNoRootCheck_eq_ok (hfree.mono (by
    simp only [comparedStrings, List.mem_cons, List.not_mem_nil, or_false]
    tauto)) hp
  obtain ⟨hcheck, hshown, hrange'⟩ := verify_eq_ok hq
  obtain ⟨hpre, hvalue, -, -⟩ := verifyNoRootCheck_eq_ok (hfree.mono (by
    simp only [comparedStrings, List.mem_cons, List.not_mem_nil, or_false]
    tauto)) hcheck
  exact ⟨rfl, rfl, hpre, ⟨hbyte, hkey₀, hvalue₀, hvalue.symm⟩, hshown,
    List.forall_mem_singleton.mpr hrange, hrange'⟩

/-- The root that a proof of absence computes: that of its left side, if it is there. -/
def subrootOf (hs : Hashes) (proof : NonExistenceProof) : Bytes :=
  if empty proof.left then proof.right.evidence.root hs.sha256 else proof.left.evidence.root hs.sha256

def comparedStringsNon (hs : Hashes) (proof : NonExistenceProof) (q : ExistenceProof)
    (pre : Bytes) : List Bytes :=
  [q.key, pre, q.value, subrootOf hs proof] ++ comparedSteps proof

theorem calculateNonExistenceRoot_eq_ok {proof : NonExistenceProof}
    (h : calculateNonExistenceRoot hs proof = .ok root) : root = subrootOf hs proof := by
  unfold calculateNonExistenceRoot at h
  unfold subrootOf
  cases hl : empty proof.left with
  | false =>
    rw [if_pos hl] at h
    exact (calculateRoot_eq_ok h).2.2.symm
  | true =>
    rw [if_neg (by rw [hl]; decide)] at h
    split at h
    · exact (calculateRoot_eq_ok h).2.2.symm
    · cases h

theorem verifyChainedNonMembership_eq_ok {proof : NonExistenceProof} {q : ExistenceProof}
    {pre : Bytes} (hfree : NoCollision keccak256 (comparedStringsNon hs proof q pre))
    (h : verifyChainedNonMembership hs keccak256 proof q root pre key = .ok ()) : q.key = pre ∧
      Absent hs iavlProofSpec (sameStep keccak256) q.value key (side proof.left) (side proof.right) ∧
      Shown hs root q ∧ AllInRange ((side proof.left).toList ++ (side proof.right).toList) q := by
  simp only [verifyChainedNonMembership, bind_eq_ok, mapError_eq_ok, ensure_eq_ok] at h
  obtain ⟨subroot, hsubroot, _, hver, _, hroot, _, hcheck, rfl⟩ := h
  obtain rfl := calculateNonExistenceRoot_eq_ok hsubroot
  obtain ⟨hpre, hvalue, hbyte, hrange'⟩ := verifyNoRootCheck_eq_ok (hfree.mono (by
    simp only [comparedStringsNon, List.mem_append, List.mem_cons, List.not_mem_nil, or_false]
    tauto)) hcheck
  obtain ⟨hkey, hvalue', hroot'⟩ := calculateRoot_eq_ok hroot
  rw [← hvalue] at hver
  obtain ⟨habsent, hrange⟩ := verifyNonExistence_eq_ok hver
  exact ⟨hpre, habsent, ⟨hbyte, hkey, hvalue', hroot'⟩, hrange, hrange'⟩

/-- **When the Solidity verifier is sound.**  For a proof that it accepts under the root of the
    chain's trees: what is proven is so, and `lib/ics23` accepts the translated proof, if and only
    if the proof has the format of its specs. -/
theorem solidity_sound_iff (hs : Hashes) (keccak256 : Bytes → Bytes) (stores : Stores hs.sha256) :
    (∀ (p q : ExistenceProof) (key value : Bytes),
      NoCollision hs.sha256 (stores.hashed ++ (p.hashed hs ++ q.hashed hs)) →
      NoCollision keccak256 (comparedStrings hs p q stores.name key value) →
      verifyChainedMembership hs keccak256 p q stores.root stores.name key value = .ok () →
      ((key, value) ∈ stores.inner.leaves ∧ AcceptsMembership hs stores.root stores.name p q key value ↔
        AllFormatted [p] q)) ∧
    ∀ (proof : NonExistenceProof) (q : ExistenceProof) (key : Bytes), NoCollision hs.sha256 (stores.hashed ++
        (((side proof.left).toList ++ (side proof.right).toList).flatMap
          (ExistenceProof.hashed hs) ++ q.hashed hs)) →
      NoCollision keccak256 (comparedStringsNon hs proof q stores.name) →
      verifyChainedNonMembership hs keccak256 proof q stores.root stores.name key = .ok () →
      (key ∉ stores.inner.keys ∧
          AcceptsNonMembership hs stores.root stores.name proof.key (side proof.left)
            (side proof.right) q key ↔
        AllFormatted ((side proof.left).toList ++ (side proof.right).toList) q) := by
  constructor
  · intro p q key value hfree hkeccak h
    obtain ⟨rfl, rfl, hname, hp, hq, hrange⟩ := verifyChainedMembership_eq_ok hkeccak h
    have haccepts := acceptsMembership_iff hp hq
    rw [hname] at haccepts
    rw [haccepts]
    constructor
    · rintro ⟨-, -, hfmt⟩
      exact hfmt
    · intro hfmt
      exact ⟨membership_sound hp hq hname hfree hrange hfmt, hrange, hfmt⟩
  · intro proof q key hfree hkeccak h
    obtain ⟨hname, habsent, hq, hrange⟩ := verifyChainedNonMembership_eq_ok hkeccak h
    have hsame : Compares (sameStep keccak256) (side proof.left) (side proof.right) :=
      compares_sameStep (hkeccak.mono fun x hx => List.mem_append_right _ hx)
    have haccepts := acceptsNonMembership_iff proof.key hsame habsent hq
    rw [hname] at haccepts
    rw [haccepts]
    constructor
    · rintro ⟨-, -, hfmt⟩
      exact hfmt
    · intro hfmt
      exact ⟨nonMembership_sound hsame habsent hq hname hfree hrange hfmt, hrange, hfmt⟩

namespace Sample

open Ics23.Sample

/-- The name of the store of contracts. -/
def wasm : Bytes := [119, 97, 115, 109]

/-- A key that a contract may write: it ends with the length and the bytes of another. -/
def writtenKey : Bytes := [5, 1, 97]

def written : IavlTree := .leaf leafNumbers writtenKey [9]

def chain (inner : IavlTree) (h : inner.keys.Pairwise (· < ·)) : Stores digest := .single digest wasm inner h

def outerProof (root : Bytes) : ExistenceProof := ⟨wasm, root, [0], []⟩

/-- The head of the leaf goes on into the written key, and ends where the other one starts. -/
def splitProof : ExistenceProof := ⟨[97], [9], [0, 2, 2, 3, 5], []⟩

theorem unstored_key_accepted : verifyChainedMembership hashes digest splitProof
        (outerProof (written.hash iavl digest))
        (chain written (by decide)).root wasm [97] [9] = .ok () ∧
      ([97], [9]) ∉ written.leaves ∧
      NoCollision digest ((chain written (by decide)).hashed ++
        (splitProof.hashed hashes ++ (outerProof (written.hash iavl digest)).hashed hashes)) ∧
      NoCollision digest
        (comparedStrings hashes splitProof (outerProof (written.hash iavl digest)) wasm [97] [9]) := by
  decide +kernel

/-- What is accepted is not always so. -/
theorem solidity_unsound :
    ¬ ∀ (hs : Hashes) (keccak256 : Bytes → Bytes) (stores : Stores hs.sha256) (p q : ExistenceProof)
      (key value : Bytes), NoCollision hs.sha256 (stores.hashed ++ (p.hashed hs ++ q.hashed hs)) →
      NoCollision keccak256 (comparedStrings hs p q stores.name key value) →
      verifyChainedMembership hs keccak256 p q stores.root stores.name key value = .ok () →
      (key, value) ∈ stores.inner.leaves := by
  intro h
  obtain ⟨hacc, hnot, hfree, hkeccak⟩ := unstored_key_accepted
  exact hnot (h hashes digest (chain written (by decide)) splitProof _ [97] [9] hfree hkeccak hacc)

def portA : ExistenceProof := ⟨[97], [1], [0, 2, 2], [⟨[2, 4, 2, 32], 32 :: leafC.hash iavl digest⟩]⟩

def portC : ExistenceProof := ⟨[99], [3], [0, 2, 2], [⟨[2, 4, 2, 32] ++ leafA.hash iavl digest ++ [32], []⟩]⟩

def outerStore : ExistenceProof := outerProof (store.hash iavl digest)

/-- Proofs with the format are true: `a` is in the store and `b` is not. -/
theorem solidity_sound_sample : ([97], [1]) ∈ store.leaves ∧ [98] ∉ store.keys :=
  have hsound := solidity_sound_iff hashes digest (chain store (by decide))
  ⟨((hsound.1 portA outerStore [97] [1] (by decide +kernel) (by decide +kernel) (by decide +kernel)).mpr
      (by decide)).1,
    ((hsound.2 ⟨[], portA, portC⟩ outerStore [98] (by decide +kernel) (by decide +kernel)
      (by decide +kernel)).mpr (by decide)).1⟩

end Sample

end UnionVoyager.Ics23.Port.Solidity
