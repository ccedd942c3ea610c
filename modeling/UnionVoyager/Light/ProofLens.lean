import UnionVoyager.Core.Path

/-!
# The proof lens client

`cosmwasm/lightclient/proof-lens/src/client.rs` and `evm/contracts/clients/ProofLensClient.sol`: a
client of an L2 that settles on an L1, by proofs against the L1 of what the client on the L1 has on
record for the L2.

The L1 client is a parameter: it accepts or rejects a `VerifyMembershipQuery`.  `SoundFor` says what
it is for, in terms of the store of the L1.

* `Sol.verifyMembership_iff`, `Sol.verifyNonMembership_iff`, `Sol.updateClient_iff` — the contract
  asks what it should.
* `membershipRefines_iff`, `nonMembershipRefines_iff` — the cosmwasm client passes path and value exchanged.
* `headerRefines_iff` — it also looks the L2 header up under the L1 height, and wants it stored beforehand.
-/

namespace UnionVoyager.Light.ProofLens

open Lib Core

structure ClientState where
  l2ChainId : String
  l1ClientId : ClientId
  l2ClientId : ClientId
  l2LatestHeight : UInt64
  timestampOffset : UInt16

structure ConsensusState where
  /-- In nanoseconds. -/
  timestamp : UInt64
  l1Height : UInt64
  rawL2ConsensusState : Bytes
  deriving DecidableEq

structure Header where
  l1Height : UInt64
  l2Height : UInt64
  l2ConsensusStateProof : Bytes
  l2ConsensusState : Bytes

structure VerifyMembershipQuery where
  clientId : ClientId
  height : UInt64
  proof : Bytes
  path : Bytes
  value : Bytes

/-- A light client as its callers see it. -/
abbrev LightClient := VerifyMembershipQuery → Bool

/-- What the host stores for the client, and the clients it knows. -/
structure Ctx where
  clientState : ClientState
  consensusState : UInt64 → Option ConsensusState
  clientImpl : ClientId → Option LightClient

inductive Error where
  | std
  | invalidL1Proof
  /-- `extract_timestamp` slices out of range. -/
  | panic

structure StateUpdate where
  height : UInt64
  clientState : Option ClientState
  consensusState : ConsensusState

/-! ## `client.rs` -/

section Client

variable (H : Hashing) (ctx : Ctx)

/-- `query_wasm_smart::<()>`: what is rejected is an error. -/
def queryL1 (query : VerifyMembershipQuery) : Except Error Unit := do
  let clientImpl ← orErr (ctx.clientImpl ctx.clientState.l1ClientId) .std
  ensure (clientImpl query = true) .invalidL1Proof

def membershipQuery (clientState : ClientState) (l1Height height : UInt64) (key proof value : Bytes) :
    VerifyMembershipQuery where
  clientId := clientState.l1ClientId
  height := l1Height
  proof := proof
  path := key
  value := (StorePath.membershipProof clientState.l2ClientId height (H.keccak256 value)).key H

def verifyMembership (height : UInt64) (key proof value : Bytes) : Except Error Unit := do
  let consensusState ← orErr (ctx.consensusState height) .std
  queryL1 ctx (membershipQuery H ctx.clientState consensusState.l1Height height key proof value)

def nonMembershipQuery (clientState : ClientState) (l1Height height : UInt64) (key proof : Bytes) :
    VerifyMembershipQuery where
  clientId := clientState.l1ClientId
  height := l1Height
  proof := proof
  path := key
  value := (StorePath.membershipProof clientState.l2ClientId height NON_MEMBERSHIP_COMMITMENT_VALUE).key H

def verifyNonMembership (height : UInt64) (key proof : Bytes) : Except Error Unit := do
  let consensusState ← orErr (ctx.consensusState height) .std
  queryL1 ctx (nonMembershipQuery H ctx.clientState consensusState.l1Height height key proof)

def extractTimestamp (data : Bytes) (offset : Nat) : Except Error UInt64 := do
  ensure (offset + 8 ≤ data.length) .panic
  pure (UInt64.ofNat (beNat ((data.drop offset).take 8)))

def headerQuery (clientState : ClientState) (header : Header) : VerifyMembershipQuery where
  clientId := clientState.l1ClientId
  height := header.l1Height
  proof := header.l2ConsensusStateProof
  path := (StorePath.consensusState clientState.l2ClientId header.l1Height).key H
  value := H.keccak256 header.l2ConsensusState

/-- The heights of the two client states, with the later one kept. -/
def ClientState.advance (clientState : ClientState) (l2Height : UInt64) : Option ClientState :=
  if clientState.l2LatestHeight < l2Height then some { clientState with l2LatestHeight := l2Height } else none

def verifyHeader (header : Header) : Except Error StateUpdate := do
  let _ ← orErr (ctx.consensusState header.l2Height) .std
  queryL1 ctx (headerQuery H ctx.clientState header)
  let timestamp ← extractTimestamp header.l2ConsensusState ctx.clientState.timestampOffset.toNat
  pure {
    height := header.l2Height
    clientState := ctx.clientState.advance header.l2Height
    consensusState := ⟨timestamp, header.l1Height, header.l2ConsensusState⟩ }

end Client

/-! ## `ProofLensClient.sol` -/

namespace Sol

/-- A consensus state that was never written is all zeros. -/
def consensusStates (ctx : Ctx) (height : UInt64) : ConsensusState :=
    (ctx.consensusState height).getD ⟨0, 0, []⟩

section Client

variable (H : Hashing) (ctx : Ctx)

def membershipQuery (clientState : ClientState) (l1Height height : UInt64) (path proof value : Bytes) :
    VerifyMembershipQuery where
  clientId := clientState.l1ClientId
  height := l1Height
  proof := proof
  path := (StorePath.membershipProof clientState.l2ClientId height path).key H
  value := H.keccak256 value

/-- `getClient(clientState.l1ClientId).verifyMembership`; the L1 client is not frozen. -/
def queryL1 (query : VerifyMembershipQuery) : Except Error Bool := do
  let l1Client ← orErr (ctx.clientImpl ctx.clientState.l1ClientId) .std
  pure (l1Client query)

def verifyMembership (height : UInt64) (path proof value : Bytes) : Except Error Bool :=
  queryL1 ctx (membershipQuery H ctx.clientState (consensusStates ctx height).l1Height height path
    proof value)

def nonMembershipQuery (clientState : ClientState) (l1Height height : UInt64) (path proof : Bytes) :
    VerifyMembershipQuery where
  clientId := clientState.l1ClientId
  height := l1Height
  proof := proof
  path := (StorePath.nonMembershipProof clientState.l2ClientId height path).key H
  value := NON_MEMBERSHIP_COMMITMENT_VALUE

def verifyNonMembership (height : UInt64) (path proof : Bytes) : Except Error Bool :=
  queryL1 ctx (nonMembershipQuery H ctx.clientState (consensusStates ctx height).l1Height height path proof)

def headerQuery (clientState : ClientState) (header : Header) : VerifyMembershipQuery where
  clientId := clientState.l1ClientId
  height := header.l1Height
  proof := header.l2ConsensusStateProof
  path := (StorePath.consensusState clientState.l2ClientId header.l2Height).key H
  value := H.keccak256 header.l2ConsensusState

/-- Eight bytes of the calldata; `rest` is what stands behind the input, and zeros stand behind that. -/
def extractUint64 (input rest : Bytes) (offset : Nat) : UInt64 :=
  UInt64.ofNat (beNat (((input ++ rest ++ List.replicate (offset + 8) 0).drop offset).take 8))

def updateClient (header : Header) (rest : Bytes) : Except Error StateUpdate := do
  let verified ← queryL1 ctx (headerQuery H ctx.clientState header)
  ensure (verified = true) .invalidL1Proof
  let timestamp := extractUint64 header.l2ConsensusState rest ctx.clientState.timestampOffset.toNat
  pure {
    height := header.l2Height
    clientState := ctx.clientState.advance header.l2Height
    consensusState := ⟨timestamp, header.l1Height, header.l2ConsensusState⟩ }

end Client

end Sol

/-! ## What the L1 client is for -/

/-- What the L1 has stored under a key, at each height. -/
abbrev L1Store := UInt64 → Bytes → Option Bytes

/-- The L1 client accepts proofs of what the L1 stores, and no others. -/
structure SoundFor (l1 : LightClient) (clientId : ClientId) (store : L1Store) : Prop where
  sound : ∀ query, query.clientId = clientId → l1 query = true →
    store query.height query.path = some query.value
  complete : ∀ height path value, store height path = some value →
    ∃ proof, l1 ⟨clientId, height, proof, path, value⟩ = true

variable {H : Hashing} {ctx : Ctx} {l1 : LightClient} {store : L1Store} {height l1Height : UInt64}
  {key value : Bytes} {header : Header}

theorem SoundFor.proof_iff (h : SoundFor l1 ctx.clientState.l1ClientId store) (height : UInt64)
    (path value : Bytes) :
    (∃ proof, l1 ⟨ctx.clientState.l1ClientId, height, proof, path, value⟩ = true) ↔
      store height path = some value := by
  constructor
  · rintro ⟨proof, hproof⟩
    exact h.sound _ rfl hproof
  · exact h.complete height path value

@[simp] theorem queryL1_eq_ok {query : VerifyMembershipQuery} {u : Unit} :
    queryL1 ctx query = .ok u ↔ ∃ l1, ctx.clientImpl ctx.clientState.l1ClientId = some l1 ∧
      l1 query = true := by
  simp [queryL1]

@[simp] theorem Sol.queryL1_eq_ok {query : VerifyMembershipQuery} {b : Bool} :
    Sol.queryL1 ctx query = .ok b ↔ ∃ l1, ctx.clientImpl ctx.clientState.l1ClientId = some l1 ∧
      l1 query = b := by
  simp [Sol.queryL1]

@[simp] theorem extractTimestamp_eq_ok {data : Bytes} {offset : Nat} {t : UInt64} :
    extractTimestamp data offset = .ok t ↔
      offset + 8 ≤ data.length ∧ UInt64.ofNat (beNat ((data.drop offset).take 8)) = t := by
  simp [extractTimestamp]

/-! ## The contract -/

section Contract

variable (hl1 : ctx.clientImpl ctx.clientState.l1ClientId = some l1)
  (hsound : SoundFor l1 ctx.clientState.l1ClientId store)

include hl1 hsound

theorem Sol.verifyMembership_iff : (∃ proof, Sol.verifyMembership H ctx height key proof value = .ok true) ↔
      store (Sol.consensusStates ctx height).l1Height
        ((StorePath.membershipProof ctx.clientState.l2ClientId height key).key H) =
          some (H.keccak256 value) := by
  rw [← hsound.proof_iff]
  simp only [Sol.verifyMembership, Sol.queryL1_eq_ok, hl1, Option.some.injEq, exists_eq_left']
  rfl

theorem Sol.verifyNonMembership_iff : (∃ proof, Sol.verifyNonMembership H ctx height key proof = .ok true) ↔
      store (Sol.consensusStates ctx height).l1Height
        ((StorePath.nonMembershipProof ctx.clientState.l2ClientId height key).key H) =
          some NON_MEMBERSHIP_COMMITMENT_VALUE := by
  rw [← hsound.proof_iff]
  simp only [Sol.verifyNonMembership, Sol.queryL1_eq_ok, hl1, Option.some.injEq, exists_eq_left']
  rfl

theorem Sol.updateClient_iff {rest : Bytes} :
    (∃ proof u, Sol.updateClient H ctx { header with l2ConsensusStateProof := proof } rest = .ok u ∧
      u.height = header.l2Height ∧ u.consensusState.rawL2ConsensusState = header.l2ConsensusState) ↔
      store header.l1Height ((StorePath.consensusState ctx.clientState.l2ClientId header.l2Height).key H) =
        some (H.keccak256 header.l2ConsensusState) := by
  rw [← hsound.proof_iff]
  simp only [Sol.updateClient, bind_eq_ok, Sol.queryL1_eq_ok, hl1, Option.some.injEq,
    exists_eq_left', ensure_eq_ok, exists_const, pure_eq_ok]
  constructor
  · rintro ⟨proof, _, ⟨hproof, -⟩, -⟩
    exact ⟨proof, hproof⟩
  · rintro ⟨proof, hproof⟩
    exact ⟨proof, _, ⟨hproof, rfl⟩, rfl, rfl⟩

end Contract

/-! ## The cosmwasm client -/

/-- `verify_membership` of `value` under `key` does what it should against every L1, through the
    query the contract makes. -/
structure MembershipRefines (H : Hashing) (clientState : ClientState)
    (consensusState : UInt64 → Option ConsensusState)
    (height : UInt64) (key value : Bytes) : Prop where
  succeeds : ∀ own l1 store clientImpl, consensusState height = some own →
    SoundFor l1 clientState.l1ClientId store → clientImpl clientState.l1ClientId = some l1 →
      ((∃ proof, verifyMembership H ⟨clientState, consensusState, clientImpl⟩ height key proof
        value = .ok ()) ↔
        store own.l1Height ((StorePath.membershipProof clientState.l2ClientId height key).key H) =
          some (H.keccak256 value))
  sameQuery : ∀ own proof, consensusState height = some own →
    membershipQuery H clientState own.l1Height height key proof value =
      Sol.membershipQuery H clientState own.l1Height height key proof value

structure NonMembershipRefines (H : Hashing) (clientState : ClientState)
    (consensusState : UInt64 → Option ConsensusState) (height : UInt64) (key : Bytes) : Prop where
  succeeds : ∀ own l1 store clientImpl, consensusState height = some own →
    SoundFor l1 clientState.l1ClientId store → clientImpl clientState.l1ClientId = some l1 →
      ((∃ proof, verifyNonMembership H ⟨clientState, consensusState, clientImpl⟩ height key proof = .ok ()) ↔
        store own.l1Height ((StorePath.nonMembershipProof clientState.l2ClientId height key).key H) =
          some NON_MEMBERSHIP_COMMITMENT_VALUE)
  sameQuery : ∀ own proof, consensusState height = some own →
    nonMembershipQuery H clientState own.l1Height height key proof =
      Sol.nonMembershipQuery H clientState own.l1Height height key proof

structure HeaderRefines (H : Hashing) (clientState : ClientState)
    (consensusState : UInt64 → Option ConsensusState) (header : Header) : Prop where
  succeeds : ∀ l1 store clientImpl, SoundFor l1 clientState.l1ClientId store →
    clientImpl clientState.l1ClientId = some l1 →
      ((∃ proof u, verifyHeader H ⟨clientState, consensusState, clientImpl⟩
          { header with l2ConsensusStateProof := proof } = .ok u ∧
          u.height = header.l2Height ∧ u.consensusState.rawL2ConsensusState = header.l2ConsensusState) ↔
        store header.l1Height ((StorePath.consensusState clientState.l2ClientId header.l2Height).key H) =
          some (H.keccak256 header.l2ConsensusState))
  sameQuery : headerQuery H clientState header = Sol.headerQuery H clientState header

section Queries

variable (ctx) (hl1 : ctx.clientImpl ctx.clientState.l1ClientId = some l1)
  (hsound : SoundFor l1 ctx.clientState.l1ClientId store)

include hl1 hsound

theorem verifyMembership_iff {own : ConsensusState} (hown : ctx.consensusState height = some own) :
    (∃ proof, verifyMembership H ctx height key proof value = .ok ()) ↔
      store own.l1Height key =
        some ((StorePath.membershipProof ctx.clientState.l2ClientId height (H.keccak256 value)).key H) := by
  rw [← hsound.proof_iff]
  simp only [verifyMembership, hown, orErr, ok_bind, queryL1_eq_ok, hl1, Option.some.injEq, exists_eq_left']
  rfl

theorem verifyNonMembership_iff {own : ConsensusState} (hown : ctx.consensusState height = some own) :
    (∃ proof, verifyNonMembership H ctx height key proof = .ok ()) ↔
      store own.l1Height key =
        some
          ((StorePath.membershipProof ctx.clientState.l2ClientId height
            NON_MEMBERSHIP_COMMITMENT_VALUE).key H) := by
  rw [← hsound.proof_iff]
  simp only [verifyNonMembership, hown, orErr, ok_bind, queryL1_eq_ok, hl1, Option.some.injEq,
    exists_eq_left']
  rfl

theorem verifyHeader_iff :
      (∃ proof u, verifyHeader H ctx { header with l2ConsensusStateProof := proof } = .ok u ∧
      u.height = header.l2Height ∧ u.consensusState.rawL2ConsensusState = header.l2ConsensusState) ↔
      (ctx.consensusState header.l2Height).isSome ∧
      store header.l1Height ((StorePath.consensusState ctx.clientState.l2ClientId header.l1Height).key H) =
        some (H.keccak256 header.l2ConsensusState) ∧
      ctx.clientState.timestampOffset.toNat + 8 ≤ header.l2ConsensusState.length := by
  rw [← hsound.proof_iff]
  simp only [verifyHeader, bind_eq_ok, orErr_eq_ok, queryL1_eq_ok, hl1, Option.some.injEq,
    exists_eq_left', exists_const, extractTimestamp_eq_ok, pure_eq_ok, Option.isSome_iff_exists]
  constructor
  · rintro ⟨proof, _, ⟨own, hown, hproof, _, ⟨hlen, -⟩, -⟩, -⟩
    exact ⟨⟨own, hown⟩, ⟨proof, hproof⟩, hlen⟩
  · rintro ⟨⟨own, hown⟩, ⟨proof, hproof⟩, hlen⟩
    exact ⟨proof, _, ⟨own, hown, hproof, _, ⟨hlen, rfl⟩, rfl⟩, rfl, rfl⟩

end Queries

/-! ## Where the cosmwasm client does what it should -/

/-- The L1 that stores one value. -/
def oneEntry (height : UInt64) (path value : Bytes) : L1Store := fun height' path' =>
  if height' = height ∧ path' = path then some value else none

def checker (store : L1Store) : LightClient := fun query =>
    decide (store query.height query.path = some query.value)

theorem checker_soundFor (store : L1Store) (clientId : ClientId) :
    SoundFor (checker store) clientId store where
  sound _ _ h := of_decide_eq_true h
  complete _ _ _ h := ⟨[], decide_eq_true h⟩

theorem oneEntry_eq_some {path' value' : Bytes} {height' : UInt64} :
    oneEntry height key value height' path' = some value' ↔ height' = height ∧ path' = key ∧
      value' = value := by
  unfold oneEntry
  split
  · rename_i hsame
    simp [hsame, eq_comm]
  · rename_i hother
    simp only [reduceCtorEq, false_iff]
    rintro ⟨hheight, hpath, -⟩
    exact hother ⟨hheight, hpath⟩

variable {clientState : ClientState} {consensusState : UInt64 → Option ConsensusState} {own : ConsensusState}

theorem membershipRefines_iff (hown : consensusState height = some own) :
    MembershipRefines H clientState consensusState height key value ↔
      key = (StorePath.membershipProof clientState.l2ClientId height key).key H ∧
      (StorePath.membershipProof clientState.l2ClientId height (H.keccak256 value)).key H =
        H.keccak256 value := by
  constructor
  · intro h
    let store := oneEntry own.l1Height ((StorePath.membershipProof clientState.l2ClientId height key).key H)
      (H.keccak256 value)
    have hsound : SoundFor (checker store) clientState.l1ClientId store := checker_soundFor store _
    have hiff := h.succeeds own _ store (fun _ => some (checker store)) hown hsound rfl
    rw [verifyMembership_iff ⟨clientState, consensusState, fun _ => some (checker store)⟩ rfl hsound
      hown] at hiff
    exact (oneEntry_eq_some.mp (hiff.mpr (oneEntry_eq_some.mpr ⟨rfl, rfl, rfl⟩))).2
  · rintro ⟨hpath, hvalue⟩
    constructor
    · intro own l1 store clientImpl hown hsound hl1
      rw [verifyMembership_iff ⟨clientState, consensusState, clientImpl⟩ hl1 hsound hown, hvalue, ← hpath]
    · intro own proof _
      simp only [membershipQuery, Sol.membershipQuery, ← hpath, hvalue]

theorem nonMembershipRefines_iff (hown : consensusState height = some own) :
    NonMembershipRefines H clientState consensusState height key ↔
      key = (StorePath.nonMembershipProof clientState.l2ClientId height key).key H ∧
      (StorePath.membershipProof clientState.l2ClientId height NON_MEMBERSHIP_COMMITMENT_VALUE).key H =
        NON_MEMBERSHIP_COMMITMENT_VALUE := by
  constructor
  · intro h
    let store := oneEntry own.l1Height
      ((StorePath.nonMembershipProof clientState.l2ClientId height key).key H)
      NON_MEMBERSHIP_COMMITMENT_VALUE
    have hsound : SoundFor (checker store) clientState.l1ClientId store := checker_soundFor store _
    have hiff := h.succeeds own _ store (fun _ => some (checker store)) hown hsound rfl
    rw [verifyNonMembership_iff ⟨clientState, consensusState, fun _ => some (checker store)⟩ rfl hsound hown]
      at hiff
    exact (oneEntry_eq_some.mp (hiff.mpr (oneEntry_eq_some.mpr ⟨rfl, rfl, rfl⟩))).2
  · rintro ⟨hpath, hvalue⟩
    constructor
    · intro own l1 store clientImpl hown hsound hl1
      rw [verifyNonMembership_iff ⟨clientState, consensusState, clientImpl⟩ hl1 hsound hown, hvalue, ← hpath]
    · intro own proof _
      simp only [nonMembershipQuery, Sol.nonMembershipQuery, ← hpath, hvalue]

theorem headerRefines_iff (hH : H.CollisionFree) : HeaderRefines H clientState consensusState header ↔
      (consensusState header.l2Height).isSome ∧ header.l1Height = header.l2Height ∧
      clientState.timestampOffset.toNat + 8 ≤ header.l2ConsensusState.length := by
  constructor
  · intro h
    let store := oneEntry header.l1Height
      ((StorePath.consensusState clientState.l2ClientId header.l2Height).key H)
      (H.keccak256 header.l2ConsensusState)
    have hsound : SoundFor (checker store) clientState.l1ClientId store := checker_soundFor store _
    have hiff := h.succeeds _ store (fun _ => some (checker store)) hsound rfl
    rw [verifyHeader_iff ⟨clientState, consensusState, fun _ => some (checker store)⟩ rfl hsound] at hiff
    obtain ⟨hstored, hentry, hlen⟩ := hiff.mpr (oneEntry_eq_some.mpr ⟨rfl, rfl, rfl⟩)
    have hpath := (StorePath.key_inj hH).mp (oneEntry_eq_some.mp hentry).2.1
    exact ⟨hstored, (StorePath.consensusState.inj hpath).2, hlen⟩
  · rintro ⟨hstored, hheight, hlen⟩
    constructor
    · intro l1 store clientImpl hsound hl1
      rw [verifyHeader_iff ⟨clientState, consensusState, clientImpl⟩ hl1 hsound, ← hheight]
      rw [← hheight] at hstored
      simp only [hstored, hlen, true_and, and_true]
    · simp only [headerQuery, Sol.headerQuery, hheight]

/-- **The client refines its specification in exactly these places.** -/
theorem refines_iff (hH : H.CollisionFree) (hown : consensusState height = some own) :
    (MembershipRefines H clientState consensusState height key value ↔
      key = (StorePath.membershipProof clientState.l2ClientId height key).key H ∧
      (StorePath.membershipProof clientState.l2ClientId height (H.keccak256 value)).key H =
        H.keccak256 value) ∧
    (NonMembershipRefines H clientState consensusState height key ↔
      key = (StorePath.nonMembershipProof clientState.l2ClientId height key).key H ∧
      (StorePath.membershipProof clientState.l2ClientId height NON_MEMBERSHIP_COMMITMENT_VALUE).key H =
        NON_MEMBERSHIP_COMMITMENT_VALUE) ∧
    (HeaderRefines H clientState consensusState header ↔
      (consensusState header.l2Height).isSome ∧ header.l1Height = header.l2Height ∧
      clientState.timestampOffset.toNat + 8 ≤ header.l2ConsensusState.length) :=
  ⟨membershipRefines_iff hown, nonMembershipRefines_iff hown, headerRefines_iff hH⟩

section Sample

/-- Client 2 of the L1 follows the L2, and the timestamp of its consensus states comes first. -/
def sampleClient : ClientState := ⟨"l2", ⟨.one⟩, ⟨.two⟩, 10, 0⟩

def sampleConsensus : UInt64 → Option ConsensusState := fun height =>
  if height = 10 then some ⟨5, 20, List.replicate 8 0⟩ else none

/-- The next L2 header, proven against the next L1 header. -/
def nextHeader : Header := ⟨21, 11, [], List.replicate 8 0⟩

/-- A header that is stored already, at equal heights. -/
def alignedHeader : Header := ⟨10, 10, [], List.replicate 8 0⟩

theorem refines_iff_sample : ¬ MembershipRefines Hashing.ideal sampleClient sampleConsensus 10 [1] [2] ∧
    HeaderRefines Hashing.ideal sampleClient sampleConsensus alignedHeader := by
  have hown : sampleConsensus 10 = some ⟨5, 20, List.replicate 8 0⟩ := by decide
  have h : (MembershipRefines Hashing.ideal sampleClient sampleConsensus 10 [1] [2] ↔ _) ∧
      (NonMembershipRefines Hashing.ideal sampleClient sampleConsensus 10 [1] ↔ _) ∧
      (HeaderRefines Hashing.ideal sampleClient sampleConsensus alignedHeader ↔ _) :=
    refines_iff Hashing.ideal_collisionFree hown
  rw [h.1, h.2.2]
  constructor
  · decide +kernel
  · decide

/-- Neither a packet commitment, nor its absence, nor the next header can be proven. -/
theorem arguments_exchanged : ¬ MembershipRefines Hashing.ideal sampleClient sampleConsensus 10 [1] [2] ∧
    ¬ NonMembershipRefines Hashing.ideal sampleClient sampleConsensus 10 [1] ∧
    ¬ HeaderRefines Hashing.ideal sampleClient sampleConsensus nextHeader := by
  have hown : sampleConsensus 10 = some ⟨5, 20, List.replicate 8 0⟩ := by decide
  rw [membershipRefines_iff hown, nonMembershipRefines_iff hown,
    headerRefines_iff Hashing.ideal_collisionFree]
  refine ⟨?_, ?_, ?_⟩
  · decide +kernel
  · decide +kernel
  · decide

end Sample

end UnionVoyager.Light.ProofLens
