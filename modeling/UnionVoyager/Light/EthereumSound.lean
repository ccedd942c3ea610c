import UnionVoyager.Lib.Machine
import UnionVoyager.Light.EthereumUpdate

/-!
# Soundness of the ethereum light client
-/

namespace UnionVoyager.Light.Ethereum

open Lib List

/-! ## What the client is for -/

/-- BLS is ideal.  The aggregate of all keys and of the inverses of some is the aggregate of the others, and a
    signature that verifies for the aggregate of registered keys was made with each of them. -/
structure Host.Ideal (host : Host) (registered : H384 → Prop) (signed : H384 → Bytes → Prop) : Prop where
  cancel : ∀ (keys inverses : List H384) (aggregate : H384) (bits : List Bool),
    keys.mapM host.negate = some inverses → host.aggregateG1 keys = some aggregate →
      bits.length = keys.length →
    true ∈ bits →
    host.aggregateG1 (aggregate :: membersWith false bits inverses) =
      host.aggregateG1 (membersWith true bits keys)
  unforgeable : ∀ (keys : List H384) (key : H384) (msg hashed : Bytes) (signature : H768),
    (∀ k ∈ keys, registered k) → host.aggregateG1 keys = some key → host.hashToG2 msg = some hashed →
    host.pairingEquality signature key hashed = some true → ∀ k ∈ keys, signed k msg

section Sound

variable (host : Host) (registered : H384 → Prop) (signed : H384 → Bytes → Prop)

/-- A full committee of registered keys, with the aggregate of them. -/
structure SyncCommittee.Genuine (C : ChainSpec) (c : SyncCommittee) : Prop where
  size : c.pubkeys.length = C.SYNC_COMMITTEE_SIZE
  keys : ∀ k ∈ c.pubkeys, registered k
  aggregate : host.aggregateG1 c.pubkeys = some c.aggregatePubkey

/-- Every stored committee is the inverse of a genuine one. -/
def Store.WellFormed (store : Store) : Prop :=
  ∀ period inverse, store.syncCommittee period = some inverse →
    ∃ c : SyncCommittee, c.Genuine host registered store.spec ∧
      takeInverse host c = some inverse

def SyncAggregate.bits (C : ChainSpec) (a : SyncAggregate) : BitVector :=
    ⟨a.syncCommitteeBits, C.SYNC_COMMITTEE_SIZE⟩

/-- What an update has to have for the client to be right about it; the last three are about what it
    writes. -/
structure Regular (store : Store) (header : Header) : Prop where
  participation : 2 * store.spec.SYNC_COMMITTEE_SIZE ≤ 3 *
    (header.data.syncAggregate.bits store.spec).numSetBits
  period : computeSyncCommitteePeriodAtSlot store.spec
      header.data.finalizedHeader.beacon.slot =
    computeSyncCommitteePeriodAtSlot store.spec
      header.data.signatureSlot
  finalityBranch : header.data.finalityBranch.length =
    floorlog2 (finalizedRootGindexAtSlot store.spec store.clientState.chainId
      header.data.attestedHeader.beacon.slot)
  executionBranch : header.data.finalizedHeader.executionBranch.length = floorlog2 EXECUTION_PAYLOAD_GINDEX
  newer : ∀ cs, store.consensusState header.trustedHeight.height = some cs →
    cs.slot < header.data.finalizedHeader.beacon.slot →
    header.trustedHeight.height ≤ header.data.finalizedHeader.execution.blockNumber ∧
      header.data.finalizedHeader.execution.timestamp * 1000000000 < 2 ^ 64
  notNewer : ∀ cs, store.consensusState header.trustedHeight.height = some cs →
    header.data.finalizedHeader.beacon.slot ≤ cs.slot →
    header.data.finalizedHeader.execution.blockNumber ≤ header.trustedHeight.height
  nextCommittee : ∀ next branch data, header.consensusUpdate = .syncCommitteePeriodChange next branch data →
    branch.length = floorlog2 (nextSyncCommitteeGindexAtSlot store.spec
      store.clientState.chainId data.attestedHeader.beacon.slot) ∧
    next.Genuine host registered store.spec

/-- What an accepted update should have. -/
structure UpdateSound (store : Store) (header : Header) : Prop where
  /-- Two thirds of the committee that is stored for the period of the signature slot have signed. -/
  quorum : ∃ c inverse, store.syncCommittee (computeSyncCommitteePeriodAtSlot store.spec
      header.data.signatureSlot) = some inverse ∧
    takeInverse host c = some inverse ∧
    (let signers := membersWith true (header.data.syncAggregate.bits
        store.spec).toList c.pubkeys
     2 * c.pubkeys.length ≤ 3 * signers.length ∧
     ∀ k ∈ signers, signed k (signingRoot store.spec host.hashing
       store.clientState.chainId store.clientState.genesisValidatorsRoot
         header.consensusUpdate.intoLightClientUpdate))
  finality : Committed host.hashing
    (host.hashing.beaconBlockHeaderRoot header.data.finalizedHeader.beacon)
    header.data.finalityBranch
    (finalizedRootGindexAtSlot store.spec store.clientState.chainId
      header.data.attestedHeader.beacon.slot)
    header.data.attestedHeader.beacon.stateRoot
  execution : Committed host.hashing
    (host.hashing.executionPayloadHeaderRoot header.data.finalizedHeader.execution)
    header.data.finalizedHeader.executionBranch EXECUTION_PAYLOAD_GINDEX
    header.data.finalizedHeader.beacon.bodyRoot
  slots : header.data.attestedHeader.beacon.slot < header.data.signatureSlot ∧
    header.data.finalizedHeader.beacon.slot ≤ header.data.attestedHeader.beacon.slot

/-- The consensus state is that of the execution block of the header, which has this height. -/
structure OfBlock (clientState : ClientState) (height : Nat) (cs : ConsensusState)
    (header : Header) : Prop where
  height : header.data.finalizedHeader.execution.blockNumber = height
  slot : cs.slot = header.data.finalizedHeader.beacon.slot
  stateRoot : cs.stateRoot = header.data.finalizedHeader.execution.stateRoot
  storageRoot : EvmStorage.verifyAccountStorageRoot host.evmStorage cs.stateRoot
    clientState.ibcContractAddress header.ibcAccountProof.proof cs.storageRoot = .ok ()
  timestamp : cs.timestamp = header.data.finalizedHeader.execution.timestamp * 1000000000

/-- The committee is committed in the attested header, which is of the preceding period. -/
def CommittedNext (clientState : ClientState) (period : Period) (inverse : InverseSyncCommittee)
    (header : Header) : Prop :=
  ∃ next branch data, header.consensusUpdate = .syncCommitteePeriodChange next branch data ∧
    takeInverse host next = some inverse ∧
    computeSyncCommitteePeriodAtSlot clientState.spec data.attestedHeader.beacon.slot + 1 = period ∧
    Committed host.hashing (host.hashing.syncCommitteeRoot next) branch
      (nextSyncCommitteeGindexAtSlot clientState.spec clientState.chainId
        data.attestedHeader.beacon.slot) data.attestedHeader.beacon.stateRoot

/-- A message is a block time and a header; it emits the header if it is accepted. -/
def step (store : Store) (msg : Nat × Header) : Store × List Header :=
  match verifyHeader host store msg.1 msg.2 with
  | .ok update => (applyUpdate store update, [msg.2])
  | .error _ => (store, [])

/-- The client is sound over a run: every accepted update is, and what is stored at the end was
    there at the start or has an accepted header to show for it. -/
structure Sound (store : Store) (msgs : List (Nat × Header)) : Prop where
  updates : ∀ past msg rest, msgs = past ++ msg :: rest →
    msg.2 ∈ (step host (Machine.run (step host) store past) msg).2 →
    UpdateSound host signed (Machine.run (step host) store past) msg.2
  consensusStates : ∀ height cs, (Machine.run (step host) store msgs).consensusState height = some cs →
    store.consensusState height = some cs ∨
      ∃ header ∈ Machine.trace (step host) store msgs, OfBlock host store.clientState height cs header
  syncCommittees : ∀ period inverse, (Machine.run (step host) store msgs).syncCommittee period =
    some inverse → store.syncCommittee period = some inverse ∨
      ∃ header ∈ Machine.trace (step host) store msgs,
        CommittedNext host store.clientState period inverse header

variable {host registered signed}

theorem spec_size (k : PresetBaseKind) : k.chainSpec.SYNC_COMMITTEE_SIZE ≠ 0 ∧
      k.chainSpec.SYNC_COMMITTEE_SIZE = 8 * max 1 ((k.chainSpec.SYNC_COMMITTEE_SIZE + 7) / 8) := by
  cases k <;> decide

theorem period_mono {C : ChainSpec} {a b : Slot} (h : a ≤ b) :
    computeSyncCommitteePeriodAtSlot C a ≤ computeSyncCommitteePeriodAtSlot C b :=
  Nat.div_le_div_right (Nat.div_le_div_right h)

theorem signers_signed (hideal : host.Ideal registered signed) {C : ChainSpec} {c : SyncCommittee}
    (hc : c.Genuine host registered C) {inverse : InverseSyncCommittee}
      (hinverse : takeInverse host c = some inverse)
    {bits : BitVector} (hbits : bits.len = C.SYNC_COMMITTEE_SIZE) (hsome : true ∈ bits.toList) {chainId : Nat}
    {update : LightClientUpdate} {root : H256}
    (h : verifySignature C host.hashing chainId update bits root inverse.asSyncCommittee
      (verificationContext host) = .ok ()) :
    ∀ k ∈ membersWith true bits.toList c.pubkeys,
      signed k (signingRoot C host.hashing chainId root update) := by
  simp only [takeInverse, Option.bind_eq_bind, Option.bind_eq_some_iff, Option.pure_def,
    Option.some.injEq] at hinverse
  obtain ⟨inverses, hneg, rfl⟩ := hinverse
  have hlen : bits.toList.length = c.pubkeys.length := by rw [BitVector.toList_length, hbits, hc.size]
  unfold verifySignature verificationContext at h
  dsimp only at h
  unfold aggregateVerifySignature at h
  simp only [bind_eq_ok, orErr_eq_ok, ensure_eq_ok] at h
  obtain ⟨key, hkey, hashed, hhashed, valid, hvalid, rfl⟩ := h
  have hsum : host.aggregateG1 (membersWith true bits.toList c.pubkeys) = some key := by
    rw [← hideal.cancel c.pubkeys inverses c.aggregatePubkey bits.toList hneg hc.aggregate hlen hsome]
    exact hkey
  refine hideal.unforgeable _ key _ hashed _ ?_ hsum hhashed hvalid
  intro k hk
  apply hc.keys
  unfold membersWith at hk
  obtain ⟨p, hp, rfl⟩ := List.mem_map.mp hk
  exact (of_mem_zip (mem_of_mem_filter hp)).2

variable {store : Store}

/-- **An accepted regular update is sound.** -/
theorem updateSound_of_regular (hideal : host.Ideal registered signed)
    (hstore : store.WellFormed host registered)
    {now : Nat} {header : Header} {update : StateUpdate} (h : verifyHeader host store now header = .ok update)
    (hregular : Regular host registered store header) : UpdateSound host signed store header := by
  obtain ⟨consensusState, inverse, -, hinverse, hvalid, -, -⟩ := verifyHeader_eq_ok h
  obtain ⟨c, hc, htake⟩ := hstore _ _ hinverse
  obtain ⟨bits, used, hbits, hused, hsigned⟩ := hvalid.signed
  obtain rfl := signingCommittee_eq_ok hused
  obtain ⟨hsize, hbytes⟩ : store.spec.SYNC_COMMITTEE_SIZE ≠ 0 ∧ _ := spec_size store.clientState.chainSpec
  obtain ⟨rfl, hlen⟩ := fromRawBytes_eq_ok hbits hsize
  have hcount : (header.data.syncAggregate.bits store.spec).numSetBits =
      (header.data.syncAggregate.bits store.spec).toList.countP id := by
    apply numSetBits_eq_count
    show store.spec.SYNC_COMMITTEE_SIZE =
      8 * header.consensusUpdate.intoLightClientUpdate.syncAggregate.syncCommitteeBits.length
    rw [hlen]
    exact hbytes
  have hparticipation := hregular.participation
  rw [hcount] at hparticipation
  have hsome : true ∈ (header.data.syncAggregate.bits store.spec).toList := by
    have hpos : 0 < (header.data.syncAggregate.bits store.spec).toList.countP id := by omega
    obtain ⟨b, hb, hid⟩ := List.countP_pos_iff.mp hpos
    cases b with
    | true => exact hb
    | false => cases hid
  refine ⟨⟨c, inverse, ?_, htake, ?_, ?_⟩, ⟨hregular.finalityBranch, checkBranch_eq_ok.mp hvalid.finality⟩,
    ⟨hregular.executionBranch, checkBranch_eq_ok.mp hvalid.execution⟩, hvalid.slots⟩
  · rw [← hregular.period]
    exact hinverse
  · have hlen : (header.data.syncAggregate.bits store.spec).toList.length = c.pubkeys.length := by
      rw [BitVector.toList_length, hc.size]
      rfl
    rw [membersWith_length _ _ hlen, hc.size]
    exact hparticipation
  · exact signers_signed hideal hc htake rfl hsome hsigned

/-! ## What a step writes -/

section Step

variable {store : Store} {now : Nat} {header : Header} {update : StateUpdate}

section

variable (h : verifyHeader host store now header = .ok update)

include h

theorem applyUpdate_clientState :
    ∃ n, (applyUpdate store update).clientState = { store.clientState with latestHeight := n } := by
  obtain ⟨cs, inverse, -, -, -, -, hupd⟩ := verifyHeader_eq_ok h
  obtain ⟨writes, -, -, -, -, hclient⟩ := updateState_eq_ok hupd
  show ∃ n, update.clientState.getD store.clientState = _
  cases hc : update.clientState with
  | none => exact ⟨store.clientState.latestHeight, rfl⟩
  | some c =>
    obtain ⟨n, hn⟩ := advance_clientState store.clientState cs header
    refine ⟨n, ?_⟩
    rw [Option.getD_some, hclient c hc, hn]

theorem applyUpdate_consensusState (hregular : Regular host registered store header) {height : Nat}
    {cs : ConsensusState} (hcs : (applyUpdate store update).consensusState height = some cs) :
    store.consensusState height = some cs ∨ OfBlock host store.clientState height cs header := by
  obtain ⟨trusted, inverse, htrusted, -, -, hacct, hupd⟩ := verifyHeader_eq_ok h
  obtain ⟨writes, -, -, hheight, hconsensus, -⟩ := updateState_eq_ok hupd
  have hcs : Function.update store.consensusState update.height (some update.consensusState)
    height = some cs := hcs
  by_cases hat : height = update.height
  · subst hat
    rw [Function.update_self] at hcs
    obtain rfl := Option.some.inj hcs
    by_cases hnewer : trusted.slot < header.data.finalizedHeader.beacon.slot
    · -- the state of the finalized block, at its own height
      obtain ⟨hle, hfits⟩ := hregular.newer trusted htrusted hnewer
      right
      have hadvance : update.consensusState = {
          slot := header.data.finalizedHeader.beacon.slot
          stateRoot := header.data.finalizedHeader.execution.stateRoot
          storageRoot := header.ibcAccountProof.storageRoot
          timestamp := Timestamp.fromSecs header.data.finalizedHeader.execution.timestamp } := by
        rw [hconsensus]
        unfold advance
        rw [if_pos hnewer]
      rw [hheight, Nat.max_eq_right hle, hadvance]
      exact ⟨rfl, rfl, rfl, hacct, Nat.mod_eq_of_lt hfits⟩
    · -- the trusted state again, at the trusted height
      have hle := hregular.notNewer trusted htrusted (Nat.le_of_not_lt hnewer)
      left
      have hsame : update.consensusState = trusted := by
        rw [hconsensus]
        unfold advance
        rw [if_neg hnewer]
      rw [hheight, Nat.max_eq_left hle, hsame]
      exact htrusted
  · rw [Function.update_of_ne hat] at hcs
    exact .inl hcs

theorem applyUpdate_syncCommittee (hregular : Regular host registered store header)
    {period : Period} {inverse : InverseSyncCommittee}
    (hinverse : (applyUpdate store update).syncCommittee period = some inverse) :
    store.syncCommittee period = some inverse ∨
      (CommittedNext host store.clientState period inverse header ∧
        ∃ c : SyncCommittee, c.Genuine host registered store.spec ∧ takeInverse host c = some inverse) := by
  obtain ⟨trusted, used, -, -, hvalid, -, hupd⟩ := verifyHeader_eq_ok h
  obtain ⟨writes, hwrites, hstorage, -, -, -⟩ := updateState_eq_ok hupd
  have hinverse : writeCommittees store.syncCommittee update.storageWrites period = some inverse := hinverse
  rw [hstorage] at hinverse
  cases hkind : header.consensusUpdate with
  | withinSyncCommitteePeriod data =>
    rw [hkind] at hwrites
    obtain rfl : [] = writes := by simpa [committeeWrites] using hwrites
    exact .inl hinverse
  | syncCommitteePeriodChange next branch data =>
    have hdata : header.data = data := by
      unfold Header.data
      rw [hkind]
      rfl
    rw [hkind] at hwrites hvalid
    simp only [committeeWrites, bind_eq_ok, orErr_eq_ok, pure_eq_ok] at hwrites
    obtain ⟨taken, htaken, rfl⟩ := hwrites
    have hinverse : Function.update store.syncCommittee _ (some taken) period = some inverse := hinverse
    by_cases hat : period = computeSyncCommitteePeriodAtSlot store.spec data.finalizedHeader.beacon.slot + 1
    · rw [hat, Function.update_self] at hinverse
      obtain rfl := Option.some.inj hinverse
      obtain ⟨hbranch, hgenuine⟩ := hregular.nextCommittee next branch data hkind
      obtain ⟨-, hroot⟩ := hvalid.next next rfl
      -- the attested slot lies between the finalized slot and the signature slot, which share a period
      have hperiod : computeSyncCommitteePeriodAtSlot store.spec data.attestedHeader.beacon.slot =
          computeSyncCommitteePeriodAtSlot store.spec data.finalizedHeader.beacon.slot := by
        have hregular := hregular.period
        rw [hdata] at hregular
        apply Nat.le_antisymm
        · rw [hregular]
          exact period_mono (Nat.le_of_lt hvalid.slots.1)
        · exact period_mono hvalid.slots.2
      right
      refine ⟨⟨next, branch, data, hkind, htaken, ?_, hbranch, checkBranch_eq_ok.mp hroot⟩, next,
        hgenuine, htaken⟩
      rw [hat]
      exact congrArg (· + 1) hperiod
    · rw [Function.update_of_ne hat] at hinverse
      exact .inl hinverse

end

end Step

variable {msg : Nat × Header}

theorem step_of_ok {update : StateUpdate} (h : verifyHeader host store msg.1 msg.2 = .ok update) :
    step host store msg = (applyUpdate store update, [msg.2]) := by
  unfold step
  rw [h]

theorem step_of_error {e : ClientError} (h : verifyHeader host store msg.1 msg.2 = .error e) :
    step host store msg = (store, []) := by
  unfold step
  rw [h]

/-- What holds in every store of a run. -/
structure Kept (host : Host) (registered : H384 → Prop) (start : Store) (store : Store)
    (accepted : List Header) : Prop where
  config : ∃ n, store.clientState = { start.clientState with latestHeight := n }
  wellFormed : store.WellFormed host registered
  consensusStates : ∀ height cs, store.consensusState height = some cs →
    start.consensusState height = some cs ∨
    ∃ header ∈ accepted, OfBlock host start.clientState height cs header
  syncCommittees : ∀ period inverse, store.syncCommittee period = some inverse →
    start.syncCommittee period = some inverse ∨
      ∃ header ∈ accepted, CommittedNext host start.clientState period inverse header

/-- An accepted message is a regular update. -/
def AcceptedRegular (host : Host) (registered : H384 → Prop) (store : Store) (msg : Nat × Header) : Prop :=
  msg.2 ∈ (step host store msg).2 → Regular host registered store msg.2

theorem step_kept {start : Store} {accepted : List Header} (h : Kept host registered start store accepted)
    (hmsg : AcceptedRegular host registered store msg) :
    Kept host registered start (step host store msg).1 (accepted ++ (step host store msg).2) := by
  unfold AcceptedRegular at hmsg
  cases hv : verifyHeader host store msg.1 msg.2 with
  | error e =>
    rw [step_of_error hv]
    simpa using h
  | ok update =>
    rw [step_of_ok hv] at hmsg ⊢
    have hregular := hmsg (mem_singleton_self _)
    obtain ⟨n, hn⟩ := h.config
    obtain ⟨m, hm⟩ := applyUpdate_clientState hv
    refine ⟨⟨m, by rw [hm, hn]⟩, ?_, ?_, ?_⟩
    · intro period inverse hinverse
      have hspec : (applyUpdate store update).spec = store.spec := by
        unfold Store.spec
        rw [hm]
      rw [hspec]
      rcases applyUpdate_syncCommittee hv hregular hinverse with hold | ⟨-, hnew⟩
      · exact h.wellFormed period inverse hold
      · exact hnew
    · intro height cs hcs
      rcases applyUpdate_consensusState hv hregular hcs with hold | hnew
      · rcases h.consensusStates height cs hold with hstart | ⟨header, hmem, hof⟩
        · exact .inl hstart
        · exact .inr ⟨header, mem_append_left _ hmem, hof⟩
      · rw [hn] at hnew
        exact .inr ⟨msg.2, mem_append_right _ (mem_singleton_self _), hnew.1, hnew.2, hnew.3, hnew.4, hnew.5⟩
    · intro period inverse hinverse
      rcases applyUpdate_syncCommittee hv hregular hinverse with hold | ⟨hnew, -⟩
      · rcases h.syncCommittees period inverse hold with hstart | ⟨header, hmem, hof⟩
        · exact .inl hstart
        · exact .inr ⟨header, mem_append_left _ hmem, hof⟩
      · rw [hn] at hnew
        exact .inr ⟨msg.2, mem_append_right _ (mem_singleton_self _), hnew⟩

theorem run_kept {start : Store} (hstart : start.WellFormed host registered) {msgs : List (Nat × Header)}
    (hregular : Machine.Meets (step host) (AcceptedRegular host registered) start msgs) :
    Kept host registered start (Machine.run (step host) start msgs) (Machine.trace (step host) start msgs) :=
  Machine.invariant_of_meets (fun _ _ _ hs hmsg => step_kept hs hmsg)
    ⟨⟨start.clientState.latestHeight, rfl⟩, hstart, fun _ _ h => .inl h, fun _ _ h => .inl h⟩ hregular

/-- **The client is sound over every run whose accepted updates are regular.** -/
theorem run_sound (hideal : host.Ideal registered signed) {start : Store}
    (hstart : start.WellFormed host registered) (msgs : List (Nat × Header))
    (hregular : Machine.Meets (step host) (AcceptedRegular host registered) start msgs) :
    Sound host signed start msgs := by
  have hkept := run_kept hstart hregular
  refine ⟨?_, hkept.consensusStates, hkept.syncCommittees⟩
  rintro past msg rest rfl hacc
  obtain ⟨hpast, hmsg, -⟩ := (Machine.meets_append _ _ _).mp hregular
  have hpast := run_kept hstart hpast
  have hupd := hmsg hacc
  cases hv : verifyHeader host (Machine.run (step host) start past) msg.1 msg.2 with
  | error e =>
    rw [step_of_error hv] at hacc
    cases hacc
  | ok update => exact updateSound_of_regular hideal hpast.wellFormed hv hupd

theorem createClient_wellFormed {clientState : ClientState} {consensusState : ConsensusState}
    (h : createClient host clientState consensusState = .ok store)
    (hgenuine : ∀ i, clientState.initialSyncCommittee = some i →
      i.currentSyncCommittee.Genuine host registered clientState.spec ∧
        i.nextSyncCommittee.Genuine host registered clientState.spec) : store.WellFormed host registered := by
  simp only [createClient, verifyCreation, bind_eq_ok, orErr_eq_ok, pure_eq_ok] at h
  obtain ⟨_, ⟨initial, hinitial, current, hcurrent, next, hnext, rfl⟩, rfl⟩ := h
  obtain ⟨hcurrentGenuine, hnextGenuine⟩ := hgenuine initial hinitial
  intro period inverse hinverse
  have hinverse : Function.update (Function.update (fun _ => none) _ (some current)) _ (some next) period =
    some inverse := hinverse
  by_cases hat : period = computeSyncCommitteePeriodAtSlot clientState.spec consensusState.slot + 1
  · rw [hat, Function.update_self] at hinverse
    obtain rfl := Option.some.inj hinverse
    exact ⟨_, hnextGenuine, hnext⟩
  · rw [Function.update_of_ne hat] at hinverse
    by_cases hfirst : period = computeSyncCommitteePeriodAtSlot clientState.spec consensusState.slot
    · rw [hfirst, Function.update_self] at hinverse
      obtain rfl := Option.some.inj hinverse
      exact ⟨_, hcurrentGenuine, hcurrent⟩
    · rw [Function.update_of_ne hfirst] at hinverse
      cases hinverse

end Sound

/-! ## One signature is enough -/

namespace Sample

/-- Digests are preimages. -/
def hashing : Hashing where
  sha256 := id
  beaconBlockHeaderRoot h := beBytes 8 h.slot ++ beBytes 8 h.proposerIndex ++ h.parentRoot ++
    h.stateRoot ++ h.bodyRoot
  executionPayloadHeaderRoot h := h.stateRoot ++ beBytes 8 h.blockNumber ++ beBytes 8 h.timestamp ++ h.rest
  syncCommitteeRoot c := c.pubkeys.flatten ++ c.aggregatePubkey
  forkDataRoot version root := version ++ root
  signingDataRoot root domain := root ++ domain

/-- The bytes below 64, each as often as `f` says, in order. -/
def inOrder (f : UInt8 → Nat) : Bytes := (List.range 64).flatMap fun n =>
    replicate (f (UInt8.ofNat n)) (UInt8.ofNat n)

/-- A key is a byte, its inverse has a zero before it, and an aggregate is the sorted list of the
    keys in it. -/
def aggregateG1 (keys : List H384) : Option H384 :=
  let inverses := (keys.filter fun k => k.head? == some 0).flatten
  let others := (keys.filter fun k => k.head? != some 0).flatten
  some (inOrder fun k => others.count k - inverses.count k)

def negate : H384 → Option H384
  | [k] => if 0 < k.toNat ∧ k.toNat < 64 then some [0, k] else none
  | _ => none

/-- Only the keys up to `signers` have signed anything. -/
def host (signers : UInt8) : Host where
  hashing := hashing
  evmStorage := EvmStorage.Sample.library
  aggregateG1 := aggregateG1
  hashToG2 := some
  pairingEquality _ key _ := some (key.all fun k => decide (k.toNat ≤ signers.toNat))
  negate := negate

def signed (signers : UInt8) (key : H384) (_ : Bytes) : Prop := ∃ k, key = [k] ∧ k.toNat ≤ signers.toNat

def registered (key : H384) : Prop := ∃ k : UInt8, key = [k] ∧ 0 < k.toNat ∧ k.toNat < 64

theorem count_inOrder (f : UInt8 → Nat) {k : UInt8} (hk : k.toNat < 64) : (inOrder f).count k = f k := by
  have hrange : ∀ n, n ≤ 64 → (((List.range n).flatMap fun n =>
      replicate (f (UInt8.ofNat n)) (UInt8.ofNat n)).count k) = if k.toNat < n then f k else 0 := by
    intro n
    induction n with
    | zero => simp
    | succ n ih =>
      intro hn
      rw [range_succ, flatMap_append, List.count_append, ih (by omega), flatMap_singleton,
        count_replicate]
      have hof : (UInt8.ofNat n).toNat = n := by
        rw [UInt8.toNat_ofNat']
        omega
      have hsame : (if (UInt8.ofNat n == k) = true then f (UInt8.ofNat n) else 0) = if k.toNat =
          n then f k else 0 := by
        by_cases heq : k.toNat = n
        · have hkn : UInt8.ofNat n = k := UInt8.toNat_inj.mp (by rw [hof, heq])
          simp [hkn, heq]
        · have hkn : UInt8.ofNat n ≠ k := by
            rintro rfl
            exact heq hof
          simp [hkn, heq]
      rw [hsame]
      split_ifs <;> omega
  rw [inOrder, hrange 64 (Nat.le_refl _), if_pos hk]

theorem inOrder_congr {f g : UInt8 → Nat} (h : ∀ k : UInt8, k.toNat < 64 → f k = g k) :
    inOrder f = inOrder g := by
  unfold inOrder
  apply flatMap_congr
  intro n hn
  rw [h]
  have := List.mem_range.mp hn
  rw [UInt8.toNat_ofNat']
  omega

theorem mem_inOrder {f : UInt8 → Nat} {k : UInt8} (hk : k.toNat < 64) : k ∈ inOrder f ↔ f k ≠ 0 := by
  rw [← count_pos_iff, count_inOrder f hk]
  omega

theorem membersWith_map {α β : Type} (f : α → β) (b : Bool) (bits : List Bool) (members : List α) :
    membersWith b bits (members.map f) = (membersWith b bits members).map f := by
  unfold membersWith
  rw [zip_map_right, filter_map, map_map, map_map]
  rfl

theorem count_members (k : UInt8) : ∀ (bits : List Bool) (ks : List UInt8), bits.length = ks.length →
    (membersWith true bits ks).count k + (membersWith false bits ks).count k = ks.count k
  | [], [], _ => rfl
  | b :: bits, x :: ks, h => by
    have ih := count_members k bits ks (by simpa using h)
    unfold membersWith at ih ⊢
    cases b with
    | true | false =>
      simp [count_cons] at ih ⊢
      omega

theorem flatten_keys (ks : List UInt8) : (ks.map fun k => [k]).flatten = ks := by
  induction ks with
  | nil => rfl
  | cons k ks ih => rw [map_cons, flatten_cons, ih, singleton_append]

theorem keys_registered : ∀ {keys : List H384}, (∀ k ∈ keys, registered k) →
    ∃ ks : List UInt8, keys = ks.map (fun k => [k]) ∧ ∀ k ∈ ks, 0 < k.toNat ∧ k.toNat < 64
  | [], _ => ⟨[], rfl, by simp⟩
  | key :: keys, h => by
    obtain ⟨k, rfl, hk⟩ := h key (mem_cons_self ..)
    obtain ⟨ks, rfl, hks⟩ := keys_registered fun x hx => h x (mem_cons_of_mem _ hx)
    exact ⟨k :: ks, rfl, List.forall_mem_cons.mpr ⟨hk, hks⟩⟩

theorem mapM_negate {keys inverses : List H384} (h : keys.mapM negate = some inverses) :
    ∃ ks : List UInt8, keys = ks.map (fun k => [k]) ∧ inverses = ks.map (fun k => [0, k]) ∧
      ∀ k ∈ ks, 0 < k.toNat ∧ k.toNat < 64 := by
  induction keys generalizing inverses with
  | nil => exact ⟨[], rfl, by simpa [eq_comm] using h, by simp⟩
  | cons key keys ih =>
    simp only [mapM_cons, Option.bind_eq_bind, Option.bind_eq_some_iff, Option.pure_def,
      Option.some.injEq] at h
    obtain ⟨inverse, hkey, rest, hrest, rfl⟩ := h
    obtain ⟨ks, rfl, rfl, hks⟩ := ih hrest
    rcases key with _ | ⟨k, _ | ⟨_, _⟩⟩
    · cases hkey
    · simp only [negate] at hkey
      split at hkey
      case isTrue hk =>
        obtain rfl := Option.some.inj hkey
        exact ⟨k :: ks, rfl, rfl, List.forall_mem_cons.mpr ⟨hk, hks⟩⟩
      case isFalse => cases hkey
    · cases hkey

theorem aggregateG1_keys {ks : List UInt8} (hks : ∀ k ∈ ks, 0 < k.toNat ∧ k.toNat < 64) :
    aggregateG1 (ks.map fun k => [k]) = some (inOrder fun k => ks.count k) := by
  have hne : ∀ k ∈ ks, k ≠ 0 := by
    rintro k hk rfl
    exact absurd (hks 0 hk).1 (by decide)
  have hnone : (ks.map fun k => [k]).filter (fun k => k.head? == some 0) = [] := by
    rw [filter_eq_nil_iff]
    intro key hkey
    obtain ⟨k, hk, rfl⟩ := List.mem_map.mp hkey
    simpa using hne k hk
  have hall : (ks.map fun k => [k]).filter (fun k => k.head? != some 0) = ks.map fun k => [k] := by
    rw [filter_eq_self]
    intro key hkey
    obtain ⟨k, hk, rfl⟩ := List.mem_map.mp hkey
    simpa using hne k hk
  unfold aggregateG1
  rw [hnone, hall, flatten_keys]
  simp

/-- **The host is ideal.** -/
theorem host_ideal (signers : UInt8) : (host signers).Ideal registered (signed signers) := by
  constructor
  · intro keys inverses aggregate bits hneg hagg hlen _
    obtain ⟨ks, rfl, rfl, hks⟩ := mapM_negate hneg
    rw [length_map] at hlen
    have hagg : aggregateG1 (ks.map fun k => [k]) = some aggregate := hagg
    rw [aggregateG1_keys hks] at hagg
    obtain rfl := Option.some.inj hagg
    have hzero : (0 : UInt8) ∉ inOrder fun k => ks.count k := by
      rw [mem_inOrder (by decide), not_not, List.count_eq_zero]
      intro h0
      exact absurd (hks 0 h0).1 (by decide)
    have hhead : ((inOrder fun k => ks.count k).head? == some 0) = false := by
      rw [beq_eq_false_iff_ne]
      intro h0
      exact hzero (mem_of_mem_head? h0)
    have hpresent : ∀ k ∈ membersWith true bits ks, 0 < k.toNat ∧ k.toNat < 64 := by
      intro k hk
      unfold membersWith at hk
      obtain ⟨p, hp, rfl⟩ := List.mem_map.mp hk
      exact hks _ (of_mem_zip (mem_of_mem_filter hp)).2
    show aggregateG1 _ = aggregateG1 _
    rw [membersWith_map, membersWith_map, aggregateG1_keys hpresent]
    have hinv : ∀ l : List UInt8, ((l.map fun k => [0, k]).filter fun k : H384 => k.head? == some 0) =
        l.map fun k => [0, k] := by
      intro l
      rw [filter_eq_self]
      intro key hkey
      obtain ⟨k, -, rfl⟩ := List.mem_map.mp hkey
      rfl
    have hnot : ∀ l : List UInt8, ((l.map fun k => [0, k]).filter fun k : H384 =>
        k.head? != some 0) = [] := by
      intro l
      rw [filter_eq_nil_iff]
      intro key hkey
      obtain ⟨k, -, rfl⟩ := List.mem_map.mp hkey
      simp
    have hcount : ∀ (l : List UInt8) (k : UInt8), k ≠ 0 →
        (l.map fun k => [0, k]).flatten.count k = l.count k := by
      intro l k hk
      induction l with
      | nil => rfl
      | cons x l ih =>
        rw [map_cons, flatten_cons, List.count_append, ih, count_cons, count_cons, count_cons]
        simp [Ne.symm hk]
        omega
    unfold aggregateG1
    rw [filter_cons, filter_cons, hinv, hnot, hhead, bne, hhead]
    refine congrArg some (inOrder_congr ?_)
    intro k hk
    show (flatten [inOrder fun k => ks.count k]).count k - _ = _
    rw [flatten_singleton, count_inOrder _ hk]
    have hsplit := count_members k bits ks hlen
    by_cases h0 : k = 0
    · subst h0
      have : ks.count 0 = 0 := by
        rw [List.count_eq_zero]
        intro h0
        exact absurd (hks 0 h0).1 (by decide)
      omega
    · have := hcount (membersWith false bits ks) k h0
      show ks.count k - ((membersWith false bits ks).map fun k => [0, k]).flatten.count k = _
      omega
  · intro keys key msg hashed signature hreg hagg _ hpair k hk
    obtain ⟨ks, rfl, hks⟩ := keys_registered hreg
    obtain ⟨x, hx, rfl⟩ := List.mem_map.mp hk
    have hagg : aggregateG1 (ks.map fun k => [k]) = some key := hagg
    rw [aggregateG1_keys hks] at hagg
    obtain rfl := Option.some.inj hagg
    have hmem : x ∈ inOrder fun k => ks.count k := by
      rw [mem_inOrder (hks x hx).2, ← Nat.pos_iff_ne_zero, count_pos_iff]
      exact hx
    have hall := List.all_eq_true.mp (Option.some.inj hpair) x hmem
    exact ⟨x, rfl, of_decide_eq_true hall⟩

/-- The keys 1 to 32. -/
def committee : SyncCommittee where
  pubkeys := (List.range 32).map fun i => [UInt8.ofNat (i + 1)]
  aggregatePubkey := (List.range 32).map fun i => UInt8.ofNat (i + 1)

def inverse : InverseSyncCommittee where
  pubkeys := (List.range 32).map fun i => [0, UInt8.ofNat (i + 1)]
  aggregatePubkey := committee.aggregatePubkey

def clientState : ClientState where
  chainId := 5
  chainSpec := .minimal
  genesisValidatorsRoot := [8]
  genesisTime := 0
  latestHeight := 100
  frozenHeight := .new 0
  ibcContractAddress := [7]
  initialSyncCommittee := some ⟨committee, committee⟩

def consensusState : ConsensusState := ⟨10, [1, 7, 6], [6], 500⟩

/-- The client at height 100, in the slot 10 of the period 0. -/
def store : Store where
  clientState := { clientState with initialSyncCommittee := none }
  consensusState := Function.update (fun _ => none) 100 (some consensusState)
  syncCommittee := Function.update (Function.update (fun _ => none) 0 (some inverse)) 1 (some inverse)

def lightClientHeader (slot : Slot) (stateRoot : H256) (execution : ExecutionPayloadHeader) :
    LightClientHeader :=
  let branch := [[1], [2], [3], [4]]
  { beacon := ⟨slot, 1, [2], stateRoot,
      branchRoot hashing (hashing.executionPayloadHeaderRoot execution) branch 4 9⟩
    execution := execution
    executionBranch := branch }

/-- A block of the contract `7` with the storage `9`. -/
def execution (blockNumber timestamp : Nat) : ExecutionPayloadHeader :=
  ⟨[1, 7, 9], replicate 256 0, blockNumber, timestamp, [], 0, 0, []⟩

def finalized : LightClientHeader := lightClientHeader 16 [5] (execution 110 1000)

def finalityBranch : List H256 := [[1], [2], [3], [4], [5], [6]]

def attested : LightClientHeader :=
  lightClientHeader 20 (branchRoot hashing (hashing.beaconBlockHeaderRoot finalized.beacon)
    finalityBranch 6 41) (execution 114 1024)

/-- An update to the block 110 with these bits. -/
def header (bits : Bytes) : Header where
  trustedHeight := .new 100
  consensusUpdate := .withinSyncCommitteePeriod ⟨attested, finalized, finalityBranch, ⟨bits, []⟩, 21⟩
  ibcAccountProof := ⟨[9], [[1, 7, 9]]⟩

theorem committee_genuine (signers : UInt8) : committee.Genuine (host signers) registered MINIMAL where
  size := rfl
  keys := by
    intro k hk
    obtain ⟨i, hi, rfl⟩ := List.mem_map.mp hk
    have hi := List.mem_range.mp hi
    refine ⟨UInt8.ofNat (i + 1), rfl, ?_⟩
    rw [UInt8.toNat_ofNat']
    omega
  aggregate := by
    show aggregateG1 committee.pubkeys = some committee.aggregatePubkey
    decide +kernel

theorem store_wellFormed (signers : UInt8) : store.WellFormed (host signers) registered := by
  have hcreated : createClient (host signers) clientState consensusState = .ok store := by
    have htake : takeInverse (host signers) committee = some inverse := by
      show takeInverse (host 0) committee = some inverse
      decide +kernel
    unfold createClient verifyCreation
    simp only [clientState, orErr, htake, ok_bind]
    rfl
  apply createClient_wellFormed hcreated
  rintro i hi
  obtain rfl := Option.some.inj hi
  exact ⟨committee_genuine signers, committee_genuine signers⟩

/-- The bit of the third member alone makes the sum of the bytes 4, and three times that is at least 8. -/
theorem one_signer_accepted : (host 3).Ideal registered (signed 3) ∧ store.WellFormed (host 3) registered ∧
      header [4, 0, 0, 0] ∈ (step (host 3) store (600, header [4, 0, 0, 0])).2 ∧
      ¬ Sound (host 3) (signed 3) store [(600, header [4, 0, 0, 0])] := by
  have hacc : header [4, 0, 0, 0] ∈ (step (host 3) store (600, header [4, 0, 0, 0])).2 := by decide +kernel
  refine ⟨host_ideal 3, store_wellFormed 3, hacc, ?_⟩
  intro hsound
  obtain ⟨c, stored, hstored, htake, hquorum, -⟩ := (hsound.updates [] _ [] rfl hacc).quorum
  have hstored : store.syncCommittee 0 = some stored := hstored
  have hinverse : stored = inverse := by
    have hzero : store.syncCommittee 0 = some inverse := by decide +kernel
    exact Option.some.inj (hstored.symm.trans hzero)
  have hlen : c.pubkeys.length = 32 := by
    simp only [takeInverse, Option.bind_eq_bind, Option.bind_eq_some_iff, Option.pure_def,
      Option.some.injEq] at htake
    obtain ⟨inverses, hneg, htake⟩ := htake
    obtain ⟨ks, hks, rfl, -⟩ := mapM_negate hneg
    have hkeys : ks.map (fun k => [0, k]) = inverse.pubkeys := by
      rw [← hinverse, ← htake]
    have hcount := congrArg length hkeys
    rw [length_map] at hcount
    rw [hks, length_map, hcount]
    rfl
  have hbits : (membersWith true (SyncAggregate.bits MINIMAL ⟨[4, 0, 0, 0], []⟩).toList
      c.pubkeys).length = 1 := by
    rw [membersWith_length _ _ (by rw [BitVector.toList_length, hlen]; rfl)]
    decide +kernel
  have hquorum : 2 * c.pubkeys.length ≤
      3 * (membersWith true (SyncAggregate.bits MINIMAL ⟨[4, 0, 0, 0], []⟩).toList c.pubkeys).length
        := hquorum
  omega

/-- An update with the signatures of 22 members. -/
theorem run_sound_sample : header [255, 255, 63, 0] ∈
      (step (host 32) store (600, header [255, 255, 63, 0])).2 ∧
      Sound (host 32) (signed 32) store [(600, header [255, 255, 63, 0])] := by
  refine ⟨by decide +kernel, run_sound (host_ideal 32) (store_wellFormed 32) _ ⟨?_, trivial⟩⟩
  intro _
  constructor
  · decide +kernel
  · decide
  · decide +kernel
  · decide +kernel
  · intro cs hcs _
    decide +kernel
  · intro cs hcs hle
    have hcs : Function.update (fun _ => none) 100 (some consensusState) 100 = some cs := hcs
    rw [Function.update_self] at hcs
    obtain rfl := Option.some.inj hcs
    exact absurd hle (by decide +kernel)
  · intro next branch data hkind
    cases hkind

end Sample

end UnionVoyager.Light.Ethereum
