import UnionVoyager.Light.Types

/-!
# Storage proofs of the EVM clients

`lib/evm-storage-verifier` and the `verify_membership`, `verify_non_membership` of the clients that
prove EVM storage: ethereum, trusted-mpt and state-lens-ics23-mpt, which share one text (the
ethereum functions also serve base, bob and arbitrum), and parlia, which has its own.

Outside the repository are `keccak256`, the lookup of `trie_db` in the nodes of a proof and the
decoders of `rlp` (`Library`).  `SoundFor` is what the lookup is for: it finds what the trie with
that root holds.

* `Mpt.sound` — the common text never accepts a key as present and as absent.
* `Parlia.absence_sound_iff` — when parlia does not either: it drops the answer of `verify_storage_absence`.
-/

namespace UnionVoyager.Light.EvmStorage

open Lib

def toBeBytes (n : U256) : Bytes := beBytes 32 n.toNat

def fromBeBytes (b : Bytes) : U256 := ⟨beNat b % 2 ^ 256, Nat.mod_lt _ (by decide)⟩

structure Account where
  nonce : UInt64
  balance : U256
  storageRoot : H256
  codeHash : H256

structure Library where
  keccak256 : Bytes → H256
  /-- The nodes of the proof, the root and the hashed key; `none` is a `TrieError`. -/
  trieGet : List Bytes → H256 → Bytes → Option (Option Bytes)
  encodeU256 : U256 → Bytes
  decodeU256 : Bytes → Option U256
  decodeAccount : Bytes → Option Account

/-! ## `evm-storage-verifier` -/

inductive StorageError where
  | valueMismatch (expected actual : Bytes)
  | valueMissing (value : Bytes)
  | trie
  | rlpDecode
  deriving DecidableEq

section Verifier

variable (lib : Library)

def getNode (root : H256) (key : Bytes) (proof : List Bytes) : Except StorageError (Option Bytes) :=
  orErr (lib.trieGet proof root (lib.keccak256 key)) .trie

def verifyStorageProof (root : H256) (key expectedValue : U256) (proof : List Bytes) :
    Except StorageError Unit := do
  match ← getNode lib root (toBeBytes key) proof with
  | some value =>
    ensure (lib.decodeU256 value = some expectedValue) (.valueMismatch (lib.encodeU256 expectedValue) value)
  | none => throw (.valueMissing (lib.encodeU256 expectedValue))

def verifyStorageAbsence (root : H256) (key : U256) (proof : List Bytes) : Except StorageError Bool := do
  let node ← getNode lib root (toBeBytes key) proof
  pure node.isNone

def verifyAccountStorageRoot (root : H256) (address : H160) (proof : List Bytes) (storageRoot : H256) :
    Except StorageError Unit := do
  match ← getNode lib root address proof with
  | some account =>
    let account ← orErr (lib.decodeAccount account) .rlpDecode
    ensure (account.storageRoot = storageRoot) (.valueMismatch storageRoot account.storageRoot)
  | none => throw (.valueMissing address)

end Verifier

/-! ## The clients -/

inductive ClientError where
  | std
  | verifyAccountStorageRoot (e : StorageError)
  | verifyStorageProof (e : StorageError)
  | verifyStorageAbsence (e : StorageError)
  | invalidCommitmentKeyLength (key : Bytes)
  | invalidCommitmentValueLength (value : Bytes)
  | counterpartyStorageNotNil
  | storedValueMismatch (expected stored : H256)
  | invalidCommitmentKey (expected found : U256)
  | invalidKey
  | invalidValue
  deriving DecidableEq

def IBC_HANDLER_COMMITMENTS_SLOT : U256 := .ZERO

/-- The slot of a path in `mapping(bytes32 => bytes32) commitments`. -/
def ibcCommitmentKey (lib : Library) (path : H256) : U256 :=
  fromBeBytes (lib.keccak256 (path ++ toBeBytes IBC_HANDLER_COMMITMENTS_SLOT))

/-- `H256::try_from`. -/
def tryH256 {ε : Type} (b : Bytes) (e : ε) : Except ε H256 := do
  ensure (b.length = 32) e
  pure b

structure StorageProof where
  key : U256
  value : U256
  proof : List Bytes

namespace Mpt

variable (lib : Library)

/-- The field of the consensus state that is read. -/
structure ConsensusState where
  storageRoot : H256

def checkCommitmentKey (path : H256) (key : U256) : Except ClientError Unit :=
  ensure (ibcCommitmentKey lib path = key) (.invalidCommitmentKey (ibcCommitmentKey lib path) key)

def verifyMembershipAt (key : Bytes) (storageRoot : H256) (storageProof : StorageProof) (value : Bytes) :
    Except ClientError Unit := do
  let path ← tryH256 key (.invalidCommitmentKeyLength key)
  checkCommitmentKey lib path storageProof.key
  let value ← tryH256 value (.invalidCommitmentValueLength value)
  let proofValue := toBeBytes storageProof.value
  ensure (value = proofValue) (.storedValueMismatch value proofValue)
  (verifyStorageProof lib storageRoot storageProof.key storageProof.value storageProof.proof).mapError
    .verifyStorageProof

def verifyNonMembershipAt (key : Bytes) (storageRoot : H256) (storageProof : StorageProof) :
    Except ClientError Unit := do
  let path ← tryH256 key (.invalidCommitmentKeyLength key)
  checkCommitmentKey lib path storageProof.key
  let absent ← (verifyStorageAbsence lib storageRoot storageProof.key storageProof.proof).mapError
    .verifyStorageAbsence
  ensure (absent = true) .counterpartyStorageNotNil

variable (consensusState : UInt64 → Option ConsensusState)

def verifyMembership (height : UInt64) (key : Bytes) (storageProof : StorageProof) (value : Bytes) :
    Except ClientError Unit := do
  let consensusState ← orErr (consensusState height) .std
  verifyMembershipAt lib key consensusState.storageRoot storageProof value

def verifyNonMembership (height : UInt64) (key : Bytes) (storageProof : StorageProof) :
    Except ClientError Unit := do
  let consensusState ← orErr (consensusState height) .std
  verifyNonMembershipAt lib key consensusState.storageRoot storageProof

end Mpt

namespace Ethereum

def verifyMembership := Mpt.verifyMembership

def verifyNonMembership := Mpt.verifyNonMembership

end Ethereum

namespace TrustedMpt

def verifyMembership := Mpt.verifyMembership

def verifyNonMembership := Mpt.verifyNonMembership

end TrustedMpt

namespace StateLensIcs23Mpt

def verifyMembership := Mpt.verifyMembership

def verifyNonMembership := Mpt.verifyNonMembership

end StateLensIcs23Mpt

namespace Parlia

structure ConsensusState where
  stateRoot : H256

structure StateProof where
  accountProof : List Bytes
  storageHash : H256
  storageProof : List Bytes

section Client

variable (lib : Library) (ibcContractAddress : H160) (consensusState : UInt64 → Option ConsensusState)

def verifyMembership (height : UInt64) (key : Bytes) (storageProof : StateProof) (value : Bytes) :
    Except ClientError Unit := do
  let consensusState ← orErr (consensusState height) .std
  (verifyAccountStorageRoot lib consensusState.stateRoot ibcContractAddress storageProof.accountProof
    storageProof.storageHash).mapError .verifyAccountStorageRoot
  let path ← tryH256 key .invalidKey
  let value ← tryH256 value .invalidValue
  (verifyStorageProof lib storageProof.storageHash (ibcCommitmentKey lib path) (fromBeBytes value)
    storageProof.storageProof).mapError .verifyStorageProof

/-- The answer of `verify_storage_absence` is not looked at. -/
def verifyNonMembership (height : UInt64) (key : Bytes) (storageProof : StateProof) :
    Except ClientError Unit := do
  let consensusState ← orErr (consensusState height) .std
  (verifyAccountStorageRoot lib consensusState.stateRoot ibcContractAddress storageProof.accountProof
    storageProof.storageHash).mapError .verifyAccountStorageRoot
  let path ← tryH256 key .invalidKey
  let _ ← (verifyStorageAbsence lib storageProof.storageHash (ibcCommitmentKey lib path)
    storageProof.storageProof).mapError .verifyStorageAbsence

end Client

end Parlia

/-! ## What a proof is for -/

/-- What the trie with a root holds under each hashed key. -/
abbrev Tries := H256 → Bytes → Option Bytes

/-- The lookup finds what the trie holds. -/
def SoundFor (lib : Library) (tries : Tries) : Prop :=
  ∀ proof root key node, lib.trieGet proof root key = some node → tries root key = node

/-- What the storage with this root holds for a path of the contract's commitments. -/
def slot (lib : Library) (tries : Tries) (root : H256) (path : H256) : Option Bytes :=
  tries root (lib.keccak256 (toBeBytes (ibcCommitmentKey lib path)))

/-- The answers to a proof of `value` and to a proof of absence agree with the storage they are about: the one
    with the root `root`, if there is one. -/
structure Sound (lib : Library) (tries : Tries) (storageRoot : Option H256) (key value : Bytes)
    (member absent : Except ClientError Unit) : Prop where
  empty : absent = .ok () → ∃ root, storageRoot = some root ∧ slot lib tries root key = none
  holds : member = .ok () → ∃ root, storageRoot = some root ∧
    (slot lib tries root key).bind lib.decodeU256 = some (fromBeBytes value)
  notBoth : ¬ (member = .ok () ∧ absent = .ok ())

variable {lib : Library} {tries : Tries}

variable {root : H256}

theorem getNode_eq_ok (hsound : SoundFor lib tries) {key : Bytes} {proof : List Bytes} {node : Option Bytes}
    (h : getNode lib root key proof = .ok node) : tries root (lib.keccak256 key) = node :=
  hsound _ _ _ _ (orErr_eq_ok.mp h)

theorem verifyStorageProof_sound (hsound : SoundFor lib tries) {key value : U256}
    {proof : List Bytes} (h : verifyStorageProof lib root key value proof = .ok ()) :
    (tries root (lib.keccak256 (toBeBytes key))).bind lib.decodeU256 = some value := by
  simp only [verifyStorageProof, bind_eq_ok] at h
  obtain ⟨node, hnode, h⟩ := h
  rw [getNode_eq_ok hsound hnode]
  cases node with
  | none => simp at h
  | some bytes => simpa using h

theorem verifyStorageAbsence_eq_ok {key : U256} {proof : List Bytes} {b : Bool} :
    verifyStorageAbsence lib root key proof = .ok b ↔
      ∃ node, getNode lib root (toBeBytes key) proof = .ok node ∧ node.isNone = b := by
  simp [verifyStorageAbsence]

theorem verifyAccountStorageRoot_sound (hsound : SoundFor lib tries) {storageRoot : H256} {address : H160}
    {proof : List Bytes} (h : verifyAccountStorageRoot lib root address proof storageRoot = .ok ()) :
    ((tries root (lib.keccak256 address)).bind lib.decodeAccount).map Account.storageRoot =
      some storageRoot := by
  simp only [verifyAccountStorageRoot, bind_eq_ok] at h
  obtain ⟨node, hnode, h⟩ := h
  rw [getNode_eq_ok hsound hnode]
  cases node with
  | none => simp at h
  | some bytes =>
    simp only [bind_eq_ok, orErr_eq_ok, ensure_eq_ok] at h
    obtain ⟨account, hacct, hroot⟩ := h
    simp [hacct, hroot]

@[simp] theorem tryH256_eq_ok {ε : Type} {b c : Bytes} {e : ε} : tryH256 b e = .ok c ↔
      b.length = 32 ∧ b = c := by
  simp [tryH256]

theorem fromBeBytes_toBeBytes (n : U256) : fromBeBytes (toBeBytes n) = n := by
  obtain ⟨n, hn⟩ := n
  have hpow : (2 : Nat) ^ 256 = 256 ^ 32 := by decide
  unfold fromBeBytes toBeBytes
  rw [U256.mk.injEq, beNat_beBytes 32 (hpow ▸ hn)]
  exact Nat.mod_eq_of_lt hn

/-! ## Three clients -/

variable {key value : Bytes} {height : UInt64}

namespace Mpt

variable {consensusState : UInt64 → Option ConsensusState} {memberProof absentProof : StorageProof}

theorem verifyMembership_sound (hsound : SoundFor lib tries)
    (h : verifyMembership lib consensusState height key memberProof value = .ok ()) :
    ∃ own, consensusState height = some own ∧
      (slot lib tries own.storageRoot key).bind lib.decodeU256 = some (fromBeBytes value) := by
  simp only [verifyMembership, verifyMembershipAt, checkCommitmentKey, bind_eq_ok, orErr_eq_ok, tryH256_eq_ok,
    ensure_eq_ok, mapError_eq_ok, exists_const] at h
  obtain ⟨own, hown, path, ⟨-, rfl⟩, hkey, _, ⟨-, rfl⟩, hvalue, hproof⟩ := h
  refine ⟨own, hown, ?_⟩
  unfold slot
  rw [hkey, verifyStorageProof_sound hsound hproof, hvalue, fromBeBytes_toBeBytes]

theorem verifyNonMembership_sound (hsound : SoundFor lib tries)
    (h : verifyNonMembership lib consensusState height key absentProof = .ok ()) :
    ∃ own, consensusState height = some own ∧ slot lib tries own.storageRoot key = none := by
  simp only [verifyNonMembership, verifyNonMembershipAt, checkCommitmentKey, bind_eq_ok,
    orErr_eq_ok, tryH256_eq_ok,
    ensure_eq_ok, mapError_eq_ok, exists_const, verifyStorageAbsence_eq_ok] at h
  obtain ⟨own, hown, path, ⟨-, rfl⟩, hkey, _, ⟨node, hnode, rfl⟩, habsent⟩ := h
  obtain rfl := Option.isNone_iff_eq_none.mp habsent
  refine ⟨own, hown, ?_⟩
  unfold slot
  rw [hkey, getNode_eq_ok hsound hnode]

theorem sound (hsound : SoundFor lib tries) (consensusState : UInt64 → Option ConsensusState)
    (height : UInt64) (key value : Bytes) (memberProof absentProof : StorageProof) :
    Sound lib tries ((consensusState height).map ConsensusState.storageRoot) key value
      (verifyMembership lib consensusState height key memberProof value)
      (verifyNonMembership lib consensusState height key absentProof) where
  empty h := by
    obtain ⟨own, hown, hempty⟩ := verifyNonMembership_sound hsound h
    exact ⟨own.storageRoot, by rw [hown]; rfl, hempty⟩
  holds h := by
    obtain ⟨own, hown, hholds⟩ := verifyMembership_sound hsound h
    exact ⟨own.storageRoot, by rw [hown]; rfl, hholds⟩
  notBoth h := by
    obtain ⟨own, hown, hholds⟩ := verifyMembership_sound hsound h.1
    obtain ⟨own', hown', hempty⟩ := verifyNonMembership_sound hsound h.2
    obtain rfl : own = own' := Option.some.inj (hown.symm.trans hown')
    rw [hempty] at hholds
    cases hholds

end Mpt

/-! ## Parlia -/

namespace Parlia

variable {address : H160} {consensusState : UInt64 → Option ConsensusState}
    {memberProof absentProof : StateProof}

/-- The storage root of the contract, in the state with this root. -/
def contractStorage (lib : Library) (tries : Tries) (address : H160) (own : ConsensusState) : Option H256 :=
  ((tries own.stateRoot (lib.keccak256 address)).bind lib.decodeAccount).map Account.storageRoot

/-- The proof is a proof that something is stored: it leads from the state root through the
    contract's account to a value in the slot. -/
structure ProvesValue (lib : Library) (address : H160) (own : ConsensusState) (path : Bytes)
    (proof : StateProof) : Prop where
  path_length : path.length = 32
  account : verifyAccountStorageRoot lib own.stateRoot address proof.accountProof proof.storageHash = .ok ()
  value : ∃ node, getNode lib proof.storageHash (toBeBytes (ibcCommitmentKey lib path)) proof.storageProof =
    .ok (some node)

theorem verifyMembership_sound (hsound : SoundFor lib tries)
    (h : verifyMembership lib address consensusState height key memberProof value = .ok ()) :
    ∃ own root, consensusState height = some own ∧ contractStorage lib tries address own = some root ∧
      (slot lib tries root key).bind lib.decodeU256 = some (fromBeBytes value) := by
  simp only [verifyMembership, bind_eq_ok, orErr_eq_ok, tryH256_eq_ok, mapError_eq_ok] at h
  obtain ⟨own, hown, _, hacct, path, ⟨-, rfl⟩, _, ⟨-, rfl⟩, hproof⟩ := h
  exact ⟨own, _, hown, verifyAccountStorageRoot_sound hsound hacct, verifyStorageProof_sound hsound hproof⟩

theorem verifyNonMembership_eq_ok : verifyNonMembership lib address consensusState height key
    absentProof = .ok () ↔ ∃ own, consensusState height = some own ∧ key.length = 32 ∧
      verifyAccountStorageRoot lib own.stateRoot address absentProof.accountProof
        absentProof.storageHash = .ok () ∧
      ∃ node, getNode lib absentProof.storageHash (toBeBytes (ibcCommitmentKey lib key))
        absentProof.storageProof = .ok node := by
  simp only [verifyNonMembership, bind_eq_ok, orErr_eq_ok, tryH256_eq_ok, mapError_eq_ok,
    verifyStorageAbsence_eq_ok, pure_eq_ok]
  constructor
  · rintro ⟨own, hown, _, hacct, path, ⟨hlen, rfl⟩, _, ⟨node, hnode, -⟩, -⟩
    exact ⟨own, hown, hlen, hacct, node, hnode⟩
  · rintro ⟨own, hown, hlen, hacct, node, hnode⟩
    exact ⟨own, hown, (), hacct, key, ⟨hlen, rfl⟩, _, ⟨node, hnode, rfl⟩, trivial⟩

theorem absence_sound_iff (hsound : SoundFor lib tries) :
    Sound lib tries ((consensusState height).bind (contractStorage lib tries address)) key value
      (verifyMembership lib address consensusState height key memberProof value)
      (verifyNonMembership lib address consensusState height key absentProof) ↔
    ∀ own, consensusState height = some own → ¬ ProvesValue lib address own key absentProof := by
  constructor
  · rintro h own hown ⟨hlen, hacct, node, hnode⟩
    obtain ⟨root, hroot, hempty⟩ := h.empty (verifyNonMembership_eq_ok.mpr ⟨own, hown, hlen, hacct, _, hnode⟩)
    have hstorage : contractStorage lib tries address own = some absentProof.storageHash :=
      verifyAccountStorageRoot_sound hsound hacct
    rw [hown, Option.bind_some, hstorage] at hroot
    obtain rfl := Option.some.inj hroot
    unfold slot at hempty
    rw [getNode_eq_ok hsound hnode] at hempty
    cases hempty
  · intro hproof
    have habsent : ∀ own, consensusState height = some own →
        verifyNonMembership lib address consensusState height key absentProof = .ok () →
        ∃ root, contractStorage lib tries address own = some root ∧ slot lib tries root key = none := by
      intro own hown h
      obtain ⟨own', hown', hlen, hacct, node, hnode⟩ := verifyNonMembership_eq_ok.mp h
      obtain rfl : own = own' := Option.some.inj (hown.symm.trans hown')
      refine ⟨_, verifyAccountStorageRoot_sound hsound hacct, ?_⟩
      cases node with
      | none => exact getNode_eq_ok hsound hnode
      | some node => exact absurd ⟨hlen, hacct, node, hnode⟩ (hproof own hown)
    constructor
    · intro h
      obtain ⟨own, hown, -⟩ := verifyNonMembership_eq_ok.mp h
      obtain ⟨root, hroot, hempty⟩ := habsent own hown h
      exact ⟨root, by rw [hown, Option.bind_some, hroot], hempty⟩
    · intro h
      obtain ⟨own, root, hown, hroot, hholds⟩ := verifyMembership_sound hsound h
      exact ⟨root, by rw [hown, Option.bind_some, hroot], hholds⟩
    · rintro ⟨hmember, h⟩
      obtain ⟨own, root, hown, hroot, hholds⟩ := verifyMembership_sound hsound hmember
      obtain ⟨root', hroot', hempty⟩ := habsent own hown h
      obtain rfl : root = root' := Option.some.inj (hroot.symm.trans hroot')
      rw [hempty] at hholds
      cases hholds

end Parlia

/-- **No EVM client accepts a key as present and as absent, but parlia with a proof of a value as
    absence proof.** -/
theorem evm_sound (hsound : SoundFor lib tries) (height : UInt64) (key value : Bytes) :
    (∀ consensusState memberProof absentProof,
      Sound lib tries ((consensusState height).map Mpt.ConsensusState.storageRoot) key value
        (Ethereum.verifyMembership lib consensusState height key memberProof value)
        (Ethereum.verifyNonMembership lib consensusState height key absentProof)) ∧
    (∀ consensusState memberProof absentProof,
      Sound lib tries ((consensusState height).map Mpt.ConsensusState.storageRoot) key value
        (TrustedMpt.verifyMembership lib consensusState height key memberProof value)
        (TrustedMpt.verifyNonMembership lib consensusState height key absentProof)) ∧
    (∀ consensusState memberProof absentProof,
      Sound lib tries ((consensusState height).map Mpt.ConsensusState.storageRoot) key value
        (StateLensIcs23Mpt.verifyMembership lib consensusState height key memberProof value)
        (StateLensIcs23Mpt.verifyNonMembership lib consensusState height key absentProof)) ∧
    (∀ address consensusState memberProof absentProof,
      Sound lib tries ((consensusState height).bind (Parlia.contractStorage lib tries address)) key value
        (Parlia.verifyMembership lib address consensusState height key memberProof value)
        (Parlia.verifyNonMembership lib address consensusState height key absentProof) ↔
      ∀ own, consensusState height = some own → ¬ Parlia.ProvesValue lib address own key absentProof) := by
  refine ⟨?_, ?_, ?_, ?_⟩
  · intro consensusState memberProof absentProof
    exact Mpt.sound hsound consensusState height key value memberProof absentProof
  · intro consensusState memberProof absentProof
    exact Mpt.sound hsound consensusState height key value memberProof absentProof
  · intro consensusState memberProof absentProof
    exact Mpt.sound hsound consensusState height key value memberProof absentProof
  · intro address consensusState memberProof absentProof
    exact Parlia.absence_sound_iff hsound

/-! ## One slot -/

namespace Sample

/-- A trie of one entry is the length of its key, the key and the value. -/
def lookup : Bytes → Bytes → Option Bytes
  | [], _ => none
  | n :: entry, key => if entry.take n.toNat = key then some (entry.drop n.toNat) else none

/-- Digests are preimages, cut to a word where a slot is computed. -/
def library : Library where
  keccak256 b := if b.length = 64 then b.take 32 else b
  trieGet proof root key := if root ∈ proof then some (lookup root key) else none
  encodeU256 := toBeBytes
  decodeU256 b := some (fromBeBytes b)
  decodeAccount b := some ⟨0, .ZERO, b, []⟩

theorem library_soundFor : SoundFor library lookup := by
  intro proof root key node h
  simp only [library] at h
  split at h
  · exact Option.some.inj h
  · cases h

/-- A packet commitment, in the storage of the contract `7`. -/
def path : H256 := List.replicate 31 0 ++ [5]
def commitment : Bytes := 1 :: List.replicate 31 0
def storage : H256 := 32 :: path ++ commitment
def state : H256 := 1 :: 7 :: storage

def consensusState : UInt64 → Option Parlia.ConsensusState := fun _ => some ⟨state⟩

def proof : Parlia.StateProof := ⟨[state], storage, [storage]⟩

/-- The same contract without the commitment. -/
def emptyStorage : H256 := 32 :: List.replicate 64 0
def emptyState : H256 := 1 :: 7 :: emptyStorage

theorem evm_sound_sample : Sound library lookup (some emptyStorage) path commitment
      (Parlia.verifyMembership library [7] (fun _ => some ⟨emptyState⟩) 9 path proof commitment)
      (Parlia.verifyNonMembership library [7] (fun _ => some ⟨emptyState⟩) 9 path
        ⟨[emptyState], emptyStorage, [emptyStorage]⟩) := by
  have hiff := (evm_sound library_soundFor 9 path commitment).2.2.2 [7] (fun _ => some ⟨emptyState⟩) proof
    ⟨[emptyState], emptyStorage, [emptyStorage]⟩
  refine hiff.mpr ?_
  rintro own - ⟨-, -, node, hnode⟩
  have hempty : getNode library emptyStorage (toBeBytes (ibcCommitmentKey library path))
      [emptyStorage] = .ok none := by
    decide
  rw [hempty] at hnode
  cases hnode

/-- Parlia accepts one proof as proof of a commitment and of its absence. -/
theorem commitment_present_and_absent :
    Parlia.verifyMembership library [7] consensusState 9 path proof commitment = .ok () ∧
    Parlia.verifyNonMembership library [7] consensusState 9 path proof = .ok () ∧
    ¬ Sound library lookup (some storage) path commitment
      (Parlia.verifyMembership library [7] consensusState 9 path proof commitment)
      (Parlia.verifyNonMembership library [7] consensusState 9 path proof) := by
  have hmember : Parlia.verifyMembership library [7] consensusState 9 path proof commitment = .ok () := by
    decide
  have habsent : Parlia.verifyNonMembership library [7] consensusState 9 path proof = .ok () := by
    decide
  exact ⟨hmember, habsent, fun h => h.notBoth ⟨hmember, habsent⟩⟩

end Sample

end UnionVoyager.Light.EvmStorage
