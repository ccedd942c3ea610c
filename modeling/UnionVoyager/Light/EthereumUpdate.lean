import Mathlib.Data.List.GetD
import UnionVoyager.Light.EthereumClient

/-!
# What an accepted ethereum update went through

* `numSetBits_eq_count`, `membersWith_length` — the set bits of an aggregate are its signers.
* `validateLightClientUpdate_eq_ok` — what the sync protocol asks of an update (`Validated`).
* `verifyHeader_eq_ok`, `updateState_eq_ok` — what the client asks of a header, and what it writes.
-/

namespace UnionVoyager.Light.Ethereum

open Lib

/-! ## Bits and members -/

theorem bit_toList (bytes : Bytes) : ∀ n, n = bytes.length →
    (List.range (8 * n)).map (fun i => bit (bytes.getD (i / 8) 0) (i % 8)) =
      bytes.flatMap fun b => (List.range 8).map (bit b) := by
  induction bytes using List.reverseRecOn with
  | nil =>
    rintro n rfl
    rfl
  | append_singleton bytes b ih =>
    rintro n rfl
    have hlen : (bytes ++ [b]).length = bytes.length + 1 := by simp
    rw [hlen, Nat.mul_succ, List.range_add, List.map_append, List.flatMap_append, ← ih _ rfl, List.map_map]
    congr 1
    · apply List.map_congr_left
      intro i hi
      have hi : i / 8 < bytes.length := by
        have := List.mem_range.mp hi
        omega
      rw [List.getD_append _ _ _ _ hi]
    · rw [List.flatMap_singleton]
      apply List.map_congr_left
      intro i hi
      have hi := List.mem_range.mp hi
      have hdiv : (8 * bytes.length + i) / 8 = bytes.length := by omega
      have hmod : (8 * bytes.length + i) % 8 = i := by omega
      show bit ((bytes ++ [b]).getD ((8 * bytes.length + i) / 8) 0) ((8 * bytes.length + i) % 8) = bit b i
      rw [hdiv, hmod, List.getD_append_right _ _ _ _ (Nat.le_refl _), Nat.sub_self]
      rfl

theorem numSetBits_eq_count {v : BitVector} (h : v.len = 8 * v.bytes.length) :
    v.numSetBits = v.toList.countP id := by
  have hlist : v.toList = v.bytes.flatMap fun b => (List.range 8).map (bit b) := by
    unfold BitVector.toList
    rw [h]
    exact bit_toList v.bytes _ rfl
  have hbyte : ∀ b, countOnes b = ((List.range 8).map (bit b)).countP id := by
    intro b
    rw [List.countP_map]
    rfl
  rw [hlist, List.countP_flatMap]
  unfold BitVector.numSetBits
  rw [funext hbyte]
  rfl

@[simp] theorem BitVector.toList_length (v : BitVector) : v.toList.length = v.len := by
  simp [BitVector.toList]

theorem fromRawBytes_eq_ok {bytes : Bytes} {n : Nat} {v : BitVector}
    (h : BitVector.fromRawBytes bytes n = .ok v) (hn : n ≠ 0) :
    v = ⟨bytes, n⟩ ∧ bytes.length = max 1 ((n + 7) / 8) := by
  unfold BitVector.fromRawBytes at h
  simp only [if_neg hn, bind_eq_ok, ensure_eq_ok, pure_eq_ok] at h
  obtain ⟨_, hlen, _, _, hv⟩ := h
  exact ⟨hv.symm, hlen⟩

theorem membersWith_length {α : Type} : ∀ (bits : List Bool)
    (members : List α), bits.length = members.length →
    (membersWith true bits members).length = bits.countP id
  | [], [], _ => rfl
  | b :: bits, m :: members, h => by
    have ih := membersWith_length bits members (by simpa using h)
    unfold membersWith at ih ⊢
    cases b with
    | true | false => simpa using ih

/-! ## What an accepted update went through -/

/-- The leaf is under the root, by a branch as long as its generalized index is deep. -/
def Committed (hashing : Hashing) (leaf : H256) (branch : List H256) (gindex : Nat) (root : H256) : Prop :=
  branch.length = floorlog2 gindex ∧
    branchRoot hashing leaf branch (floorlog2 gindex) (getSubtreeIndex gindex) = root

theorem checkBranch_eq_ok {hashing : Hashing} {leaf root : H256} {branch : List H256} {gindex : Nat} :
    checkBranch hashing leaf branch gindex root = .ok () ↔
      branchRoot hashing leaf branch (floorlog2 gindex) (getSubtreeIndex gindex) = root := by
  simp [checkBranch, validateMerkleBranch]

section Protocol

variable {C : ChainSpec} {hashing : Hashing} {chainId : Nat}

theorem isValidLightClientHeader_eq_ok {header : LightClientHeader}
    (h : isValidLightClientHeader C hashing chainId header = .ok ()) :
    checkBranch hashing (hashing.executionPayloadHeaderRoot header.execution) header.executionBranch
      EXECUTION_PAYLOAD_GINDEX header.beacon.bodyRoot = .ok () := by
  unfold isValidLightClientHeader at h
  simp only [bind_eq_ok, ensure_eq_ok, orErr_eq_ok, exists_const] at h
  obtain ⟨fork, hfork, _, -, hepoch, root, hroot, hbranch⟩ := h
  have hactive : ((ForkSchedule.forChainId chainId).active .deneb
      (computeEpochAtSlot C header.beacon.slot)).isSome = true := by
    unfold ForkSchedule.active
    rw [hfork, Option.filter_some, if_pos (decide_eq_true hepoch)]
    rfl
  unfold getLcExecutionRoot at hroot
  rw [if_pos (by simp [hactive])] at hroot
  simp only [bind_eq_ok, ensure_eq_ok, pure_eq_ok, exists_const] at hroot
  obtain ⟨-, rfl⟩ := hroot
  exact hbranch

/-- Everything the sync protocol asks of an update that the client builds on. -/
structure Validated (C : ChainSpec) (hashing : Hashing) (chainId : Nat) (update : LightClientUpdate)
    (currentSyncCommittee nextSyncCommittee : Option SyncCommittee) (finalizedSlot : Slot)
    (genesisValidatorsRoot : H256) (blsVerifier : BlsVerify) : Prop where
  slots : update.attestedHeader.beacon.slot < update.signatureSlot ∧
    update.finalizedHeader.beacon.slot ≤ update.attestedHeader.beacon.slot
  execution : checkBranch hashing (hashing.executionPayloadHeaderRoot update.finalizedHeader.execution)
    update.finalizedHeader.executionBranch EXECUTION_PAYLOAD_GINDEX
      update.finalizedHeader.beacon.bodyRoot = .ok ()
  finality : checkBranch hashing (hashing.beaconBlockHeaderRoot update.finalizedHeader.beacon)
    update.finalityBranch (finalizedRootGindexAtSlot C chainId update.attestedHeader.beacon.slot)
    update.attestedHeader.beacon.stateRoot = .ok ()
  next : ∀ c, update.nextSyncCommittee = some c → c.pubkeys.length = C.SYNC_COMMITTEE_SIZE ∧
    checkBranch hashing (hashing.syncCommitteeRoot c) (update.nextSyncCommitteeBranch.getD [])
      (nextSyncCommitteeGindexAtSlot C chainId update.attestedHeader.beacon.slot)
      update.attestedHeader.beacon.stateRoot = .ok ()
  signed : ∃ bits c, BitVector.fromRawBytes update.syncAggregate.syncCommitteeBits
    C.SYNC_COMMITTEE_SIZE = .ok bits ∧
    signingCommittee (computeSyncCommitteePeriodAtSlot C update.signatureSlot =
      computeSyncCommitteePeriodAtSlot C finalizedSlot) currentSyncCommittee nextSyncCommittee = .ok c ∧
    verifySignature C hashing chainId update bits genesisValidatorsRoot c blsVerifier = .ok ()

theorem validateLightClientUpdate_eq_ok {update : LightClientUpdate}
    {currentSyncCommittee nextSyncCommittee : Option SyncCommittee} {currentSlot finalizedSlot : Slot}
    {genesisValidatorsRoot : H256} {blsVerifier : BlsVerify}
    (h : validateLightClientUpdate C hashing chainId update currentSyncCommittee nextSyncCommittee currentSlot
      finalizedSlot genesisValidatorsRoot blsVerifier = .ok ()) :
    Validated C hashing chainId update currentSyncCommittee nextSyncCommittee finalizedSlot
      genesisValidatorsRoot blsVerifier := by
  unfold validateLightClientUpdate at h
  simp only [bind_eq_ok, ensure_eq_ok, mapError_eq_ok, exists_const] at h
  obtain ⟨bits, hbits, -, _, -, -, -, hslots, _, -, -, _, hfinalized, _, hfinality, _, hnext, c, hc,
    hsigned⟩ := h
  refine ⟨hslots, isValidLightClientHeader_eq_ok hfinalized, hfinality, ?_, bits, c, hbits, hc, hsigned⟩
  intro next heq
  rw [heq] at hnext
  simp only [checkNextSyncCommittee, bind_eq_ok, ensure_eq_ok, exists_const] at hnext
  obtain ⟨_, -, hlen, hbranch⟩ := hnext
  exact ⟨hlen, hbranch⟩

end Protocol

/-! ## What an accepted header went through -/

abbrev Header.data (header : Header) : LightClientUpdateData := header.consensusUpdate.updateData

abbrev ClientState.spec (c : ClientState) : ChainSpec := c.chainSpec.chainSpec

abbrev Store.spec (store : Store) : ChainSpec := store.clientState.spec

section Client

variable {host : Host} {store : Store} {now : Nat} {header : Header} {update : StateUpdate}

theorem verifyHeader_eq_ok (h : verifyHeader host store now header = .ok update) :
      ∃ consensusState syncCommittee,
      store.consensusState header.trustedHeight.height = some consensusState ∧
      store.syncCommittee (computeSyncCommitteePeriodAtSlot store.spec
        header.data.finalizedHeader.beacon.slot) = some syncCommittee ∧
      Validated store.spec host.hashing store.clientState.chainId
        header.consensusUpdate.intoLightClientUpdate
        (committeesFor header.consensusUpdate syncCommittee.asSyncCommittee).1
        (committeesFor header.consensusUpdate syncCommittee.asSyncCommittee).2 consensusState.slot
        store.clientState.genesisValidatorsRoot (verificationContext host) ∧
      EvmStorage.verifyAccountStorageRoot host.evmStorage
        header.data.finalizedHeader.execution.stateRoot store.clientState.ibcContractAddress
        header.ibcAccountProof.proof header.ibcAccountProof.storageRoot = .ok () ∧
      updateState host store.clientState consensusState header = .ok update := by
  unfold verifyHeader at h
  simp only [bind_eq_ok, orErr_eq_ok] at h
  obtain ⟨consensusState, hconsensus, syncCommittee, hcomm, h⟩ := h
  unfold verifyHeaderWith at h
  simp only [bind_eq_ok, orErr_eq_ok, mapError_eq_ok] at h
  obtain ⟨currentSlot, -, _, hvalid, _, -, _, hacct, hupd⟩ := h
  unfold validate at hvalid
  rw [mapError_eq_ok] at hvalid
  exact ⟨consensusState, syncCommittee, hconsensus, hcomm, validateLightClientUpdate_eq_ok hvalid,
    hacct, hupd⟩

theorem signingCommittee_eq_ok {samePeriod : Prop} [Decidable samePeriod] {u : ConsensusUpdate}
    {loaded c : SyncCommittee}
    (h : signingCommittee samePeriod (committeesFor u loaded).1 (committeesFor u loaded).2 = .ok c)
      : c = loaded := by
  unfold signingCommittee at h
  cases u with
  | syncCommitteePeriodChange next branch data =>
    split at h
    · simp [committeesFor] at h
    · exact (Option.some.inj (orErr_eq_ok.mp h)).symm
  | withinSyncCommitteePeriod data =>
    split at h
    · exact (Option.some.inj (orErr_eq_ok.mp h)).symm
    · simp [committeesFor] at h

theorem updateState_eq_ok {clientState : ClientState} {consensusState : ConsensusState}
    (h : updateState host clientState consensusState header = .ok update) :
    ∃ writes, committeeWrites host clientState.spec header.consensusUpdate = .ok writes ∧
      update.storageWrites = writes ∧
      update.height = max header.trustedHeight.height
        header.data.finalizedHeader.execution.blockNumber ∧
      update.consensusState = (advance clientState consensusState header).2 ∧
      ∀ c, update.clientState = some c → c = (advance clientState consensusState header).1 := by
  unfold updateState at h
  simp only [bind_eq_ok, pure_eq_ok] at h
  obtain ⟨writes, hwrites, rfl⟩ := h
  refine ⟨writes, hwrites, rfl, rfl, rfl, ?_⟩
  intro c hc
  dsimp only at hc
  split at hc
  · exact (Option.some.inj hc).symm
  · cases hc

theorem advance_clientState (clientState : ClientState) (consensusState : ConsensusState) (header : Header) :
    ∃ n, (advance clientState consensusState header).1 = { clientState with latestHeight := n } := by
  unfold advance
  dsimp only
  split
  · dsimp only
    split
    · exact ⟨_, rfl⟩
    · exact ⟨_, rfl⟩
  · exact ⟨_, rfl⟩

end Client

end UnionVoyager.Light.Ethereum
