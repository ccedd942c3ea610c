import UnionVoyager.Light.CometBlsUpdate
import UnionVoyager.Light.EthereumSound

/-!
# Freezing a client

The misbehaviour messages of the ethereum client and of the two CometBLS clients.

* `ethereum_iff` — when the ethereum client freezes on two valid updates only: it validates the
  first one twice.
* `cometbls_iff`, `sol_iff` — when the CometBLS clients freeze on verified headers in conflict and
  on no others: at one height the cosmwasm client freezes on equal headers.
-/

namespace UnionVoyager.Light.Misbehaviour

open Lib

/-- One height with two headers, or a later height at no later time. -/
def Conflict {H : Type} (height time : H → Nat) (a b : H) : Prop :=
  (height a = height b ∧ a ≠ b) ∨ (height b < height a ∧ time a ≤ time b) ∨
    (height a < height b ∧ time b ≤ time a)

theorem not_conflict_self {H : Type} {height time : H → Nat} (a : H) : ¬ Conflict height time a a := by
  rintro (⟨-, hne⟩ | ⟨hlt, -⟩ | ⟨hlt, -⟩)
  · exact hne rfl
  · exact Nat.lt_irrefl _ hlt
  · exact Nat.lt_irrefl _ hlt

/-! ## The cosmwasm client -/

section CometBls

open CometBlsClient CometBls

variable {verifyZkp : ZkpVerifier} {now : UInt64} {clientState : ClientState}
  {consensusState : UInt64 → Option ConsensusState}

/-- The header would be accepted in an update. -/
def Verifies (verifyZkp : ZkpVerifier) (now : UInt64) (clientState : ClientState)
    (consensusState : UInt64 → Option ConsensusState) (header : Header) : Prop :=
  ∃ cs, consensusState (Height.number header.trustedHeight) = some cs ∧
    verifyHeader verifyZkp now clientState cs header = .ok ()

/-- Two signed headers in conflict. -/
def HeadersConflict (a b : Header) : Prop :=
  Conflict (fun h : LightHeader => h.height.inner) (fun h => unixNanos h.time) a.signedHeader b.signedHeader

theorem height_eq_iff {a b : LightHeader} : a.height = b.height ↔ a.height.inner = b.height.inner := by
  constructor
  · intro h
    rw [h]
  · intro h
    have hinj : ∀ x y : BoundedI64, x.inner = y.inner → x = y := by
      rintro ⟨x, hx⟩ ⟨y, hy⟩ rfl
      rfl
    exact hinj _ _ h

/-- **What freezes the client**: headers that verify, equal ones or ones with times out of order. -/
theorem misbehaviour_eq_ok (a b : Header) :
    (∃ c, misbehaviour verifyZkp now clientState consensusState ⟨a, b⟩ = .ok c) ↔
      Verifies verifyZkp now clientState consensusState a ∧
        Verifies verifyZkp now clientState consensusState b ∧
      ((a.signedHeader.height.inner = b.signedHeader.height.inner ∧ a.signedHeader = b.signedHeader) ∨
        (b.signedHeader.height.inner < a.signedHeader.height.inner ∧
          unixNanos a.signedHeader.time % 2 ^ 64 ≤ unixNanos b.signedHeader.time % 2 ^ 64)) := by
  simp only [misbehaviour, verifyMisbehaviour, bind_eq_ok, orErr_eq_ok, ensure_eq_ok, exists_const,
    pure_eq_ok]
  constructor
  · rintro ⟨_, csA, hcsA, csB, hcsB, _, ⟨horder, _, hA, _, hB, hconfl⟩, -⟩
    have hA : Verifies verifyZkp now clientState consensusState a := ⟨csA, hcsA, hA⟩
    have hB : Verifies verifyZkp now clientState consensusState b := ⟨csB, hcsB, hB⟩
    refine ⟨hA, hB, ?_⟩
    split at hconfl
    case isTrue hsame => exact .inl ⟨height_eq_iff.mp hsame, ensure_eq_ok.mp hconfl⟩
    case isFalse hdiffer =>
      simp only [bind_eq_ok, ensure_eq_ok, asUnixNanos_eq_ok, UInt64.le_iff_toNat_le] at hconfl
      obtain ⟨tA, ⟨-, htA⟩, tB, ⟨-, htB⟩, hle⟩ := hconfl
      rw [htA, htB] at hle
      rw [height_eq_iff] at hdiffer
      exact .inr ⟨by omega, hle⟩
  · rintro ⟨⟨csA, hcsA, hA⟩, ⟨csB, hcsB, hB⟩, hconfl⟩
    have hsecsA := (verifyHeader_iff.mp hA).1
    have hsecsB := (verifyHeader_iff.mp hB).1
    refine ⟨_, csA, hcsA, csB, hcsB, (), ⟨?_, (), hA, (), hB, ?_⟩, rfl⟩
    · rcases hconfl with ⟨hsame, -⟩ | ⟨hlt, -⟩ <;> omega
    · rcases hconfl with ⟨hsame, heq⟩ | ⟨hlt, hle⟩
      · rw [if_pos (height_eq_iff.mpr hsame)]
        exact ensure_eq_ok.mpr heq
      · rw [if_neg (by rw [height_eq_iff]; omega)]
        simp only [bind_eq_ok, ensure_eq_ok, asUnixNanos_eq_ok, UInt64.le_iff_toNat_le]
        have hnanos : ∀ n : Nat, (UInt64.ofNat n).toNat = n % 2 ^ 64 := fun n => UInt64.toNat_ofNat'
        refine ⟨_, ⟨hsecsA, hnanos _⟩, _, ⟨hsecsB, hnanos _⟩, ?_⟩
        rw [hnanos, hnanos]
        exact hle

/-- When the cosmwasm client freezes on conflicts of verified headers, and on nothing else. -/
structure Right (a b : Header) : Prop where
  differ : a.signedHeader.height.inner ≠ b.signedHeader.height.inner
  first : b.signedHeader.height.inner < a.signedHeader.height.inner →
    (unixNanos a.signedHeader.time % 2 ^ 64 ≤ unixNanos b.signedHeader.time % 2 ^ 64 ↔
      unixNanos a.signedHeader.time ≤ unixNanos b.signedHeader.time)
  second : a.signedHeader.height.inner < b.signedHeader.height.inner →
    unixNanos a.signedHeader.time < unixNanos b.signedHeader.time

theorem cometbls_iff (a b : Header) :
      ((∃ c, misbehaviour verifyZkp now clientState consensusState ⟨a, b⟩ = .ok c) ↔
      Verifies verifyZkp now clientState consensusState a ∧
        Verifies verifyZkp now clientState consensusState b ∧ HeadersConflict a b) ↔
      (Verifies verifyZkp now clientState consensusState a →
        Verifies verifyZkp now clientState consensusState b → Right a b) := by
  rw [misbehaviour_eq_ok]
  constructor
  · intro h hA hB
    simp only [hA, hB, true_and] at h
    refine ⟨?_, ?_, ?_⟩
    · -- at one height the client has it the wrong way round, whatever the headers are
      intro hsame
      have hconfl : HeadersConflict a b ↔ a.signedHeader ≠ b.signedHeader := by
        unfold HeadersConflict Conflict
        dsimp only
        simp only [hsame, Nat.lt_irrefl, true_and, false_and, or_false]
      rw [hconfl, hsame] at h
      simp only [Nat.lt_irrefl, true_and, false_and, or_false] at h
      exact iff_not_self h
    · intro hlt
      have hne : a.signedHeader.height.inner ≠ b.signedHeader.height.inner := by omega
      have hge : ¬ a.signedHeader.height.inner < b.signedHeader.height.inner := by omega
      simpa only [HeadersConflict, Conflict, hne, hlt, hge, true_and, false_and, false_or, or_false] using h
    · intro hlt
      have hne : a.signedHeader.height.inner ≠ b.signedHeader.height.inner := by omega
      have hge : ¬ b.signedHeader.height.inner < a.signedHeader.height.inner := by omega
      simp only [HeadersConflict, Conflict, hne, hlt, hge, true_and, false_and, false_or, or_false,
        false_iff] at h
      omega
  · intro h
    refine and_congr_right fun hA => and_congr_right fun hB => ?_
    obtain ⟨hne, hfirst, hsecond⟩ := h hA hB
    unfold HeadersConflict Conflict
    dsimp only
    simp only [hne, false_and, false_or]
    rcases Nat.lt_or_gt_of_ne hne with hlt | hgt
    · have hge : ¬ b.signedHeader.height.inner < a.signedHeader.height.inner := by omega
      have hbefore := hsecond hlt
      simp only [hge, hlt, false_and, true_and, false_or, false_iff]
      omega
    · have hge : ¬ a.signedHeader.height.inner < b.signedHeader.height.inner := by omega
      simp only [hge, false_and, or_false]
      exact and_congr_right fun _ => hfirst hgt

end CometBls

/-! ## The EVM client -/

section Sol

open CometBlsClient CometBls

variable {solVerifyZkp : Sol.ZkpVerifier} {blockTimestamp : Nat} {consensusStates : UInt64 → ConsensusState}
  {solClientState : Sol.ClientState} {signedHeaderHash : SolSignedHeader → H256}

def SolVerifies (solVerifyZkp : Sol.ZkpVerifier) (blockTimestamp : Nat)
    (consensusStates : UInt64 → ConsensusState)
    (solClientState : Sol.ClientState) (header : Sol.Header) : Prop :=
  ∃ r, Sol.verifyHeader solVerifyZkp blockTimestamp header (consensusStates header.trustedHeight)
    solClientState = .ok r

/-- In nanoseconds. -/
def solTime (h : SolSignedHeader) : Nat := h.secs.toNat * 1000000000 + h.nanos.toNat

def SolHeadersConflict (a b : Sol.Header) : Prop :=
  Conflict (fun h : SolSignedHeader => h.height.toNat) solTime a.signedHeader b.signedHeader

theorem sol_verifyHeader_time {header : Sol.Header} {cs : ConsensusState} {r : UInt64 × UInt64}
    (h : Sol.verifyHeader solVerifyZkp blockTimestamp header cs solClientState = .ok r) :
    r.2.toNat = solTime header.signedHeader := by
  unfold Sol.verifyHeader at h
  simp only [bind_eq_ok, ensure_eq_ok, exists_const, pure_eq_ok, Sol.untrustedTimestamp,
    sol_checked_eq_ok] at h
  obtain ⟨-, -, t, ⟨s, ⟨-, hs⟩, -, ht⟩, -, -, -, -, -, -, -, -, -, -, -, rfl⟩ := h
  show t.toNat = _
  rw [ht, hs]
  rfl

/-- **What freezes the client**: headers in order that verify, different ones or ones with times out
    of order. -/
theorem sol_misbehaviour_eq_ok {a b : Sol.Header}
    (hhash : signedHeaderHash a.signedHeader = signedHeaderHash b.signedHeader →
      a.signedHeader = b.signedHeader) :
    (∃ c, Sol.misbehaviour solVerifyZkp blockTimestamp signedHeaderHash consensusStates
      solClientState ⟨a, b⟩ = .ok c) ↔
      SolVerifies solVerifyZkp blockTimestamp consensusStates solClientState a ∧
      SolVerifies solVerifyZkp blockTimestamp consensusStates solClientState b ∧
      ((a.signedHeader.height.toNat = b.signedHeader.height.toNat ∧ a.signedHeader ≠ b.signedHeader) ∨
        (b.signedHeader.height.toNat < a.signedHeader.height.toNat ∧
          solTime a.signedHeader ≤ solTime b.signedHeader)) := by
  simp only [Sol.misbehaviour, Sol.checkMisbehaviour, bind_eq_ok, ensure_eq_ok, exists_const, pure_eq_ok]
  constructor
  · rintro ⟨_, fraud, ⟨horder, rA, hA, rB, hB, hfraud⟩, rfl, -⟩
    refine ⟨⟨rA, hA⟩, ⟨rB, hB⟩, ?_⟩
    rw [UInt64.lt_iff_toNat_lt] at horder
    split at hfraud
    case isTrue hsame =>
      left
      refine ⟨congrArg UInt64.toNat hsame, ?_⟩
      intro heq
      rw [heq] at hfraud
      simp at hfraud
    case isFalse hdiffer =>
      rw [← UInt64.toNat_inj] at hdiffer
      have hle := of_decide_eq_true (pure_eq_ok.mp hfraud)
      rw [UInt64.le_iff_toNat_le, sol_verifyHeader_time hA, sol_verifyHeader_time hB] at hle
      exact .inr ⟨by omega, hle⟩
  · rintro ⟨⟨rA, hA⟩, ⟨rB, hB⟩, hconfl⟩
    refine ⟨_, true, ⟨?_, rA, hA, rB, hB, ?_⟩, rfl, rfl⟩
    · rw [UInt64.lt_iff_toNat_lt]
      rcases hconfl with ⟨hsame, -⟩ | ⟨hlt, -⟩ <;> omega
    · rcases hconfl with ⟨hsame, hne⟩ | ⟨hlt, hle⟩
      · rw [if_pos (UInt64.toNat_inj.mp hsame)]
        exact pure_eq_ok.mpr (decide_eq_true fun h => hne (hhash h))
      · rw [if_neg (by rw [← UInt64.toNat_inj]; omega)]
        refine pure_eq_ok.mpr (decide_eq_true ?_)
        rw [UInt64.le_iff_toNat_le, sol_verifyHeader_time hA, sol_verifyHeader_time hB]
        exact hle

theorem sol_iff {a b : Sol.Header}
    (hhash : signedHeaderHash a.signedHeader = signedHeaderHash b.signedHeader →
      a.signedHeader = b.signedHeader) :
    ((∃ c, Sol.misbehaviour solVerifyZkp blockTimestamp signedHeaderHash consensusStates
      solClientState ⟨a, b⟩ = .ok c) ↔
      SolVerifies solVerifyZkp blockTimestamp consensusStates solClientState a ∧
        SolVerifies solVerifyZkp blockTimestamp consensusStates solClientState b ∧ SolHeadersConflict a b) ↔
      (SolVerifies solVerifyZkp blockTimestamp consensusStates solClientState a →
        SolVerifies solVerifyZkp blockTimestamp consensusStates solClientState b →
        a.signedHeader.height.toNat < b.signedHeader.height.toNat →
        solTime a.signedHeader < solTime b.signedHeader) := by
  rw [sol_misbehaviour_eq_ok hhash]
  constructor
  · intro h hA hB hlt
    by_contra hle
    have hconfl : SolHeadersConflict a b := .inr (.inr ⟨hlt, Nat.le_of_not_lt hle⟩)
    obtain ⟨-, -, ⟨hsame, -⟩ | ⟨hgt, -⟩⟩ := h.mpr ⟨hA, hB, hconfl⟩ <;> omega
  · intro h
    refine and_congr_right fun hA => and_congr_right fun hB => ?_
    have hbefore := h hA hB
    constructor
    · rintro (hsame | hlater)
      · exact .inl hsame
      · exact .inr (.inl hlater)
    · rintro (hsame | hlater | ⟨hlt, hle⟩)
      · exact .inl hsame
      · exact .inr hlater
      · have := hbefore hlt
        have hle : solTime b.signedHeader ≤ solTime a.signedHeader := hle
        omega

end Sol

/-! ## The ethereum client -/

section Ethereum

open Ethereum

variable {host : Host} {store : Store} {now : Nat}

section

variable (host : Host) (store : Store) (now : Nat) (trustedHeight : Height)
  (update : ConsensusUpdate)

/-- The sync protocol accepts the update, with the committee stored for the period of its finalized slot. -/
def Validates : Prop :=
  ∃ consensusState currentSlot committee, store.consensusState trustedHeight.height = some consensusState ∧
    computeSlotAtTimestamp store.spec store.clientState.genesisTime now = some currentSlot ∧
    store.syncCommittee (computeSyncCommitteePeriodAtSlot store.spec
      update.updateData.finalizedHeader.beacon.slot) = some committee ∧
    validate host store.clientState consensusState.slot currentSlot committee.asSyncCommittee update
      update = .ok ()

/-- The update is one that the client takes, its account proof apart. -/
def Valid : Prop :=
  Validates host store now trustedHeight update ∧ checkSupermajority update = .ok ()

end

/-- Two finalized headers of one slot. -/
def FinalizedConflict (update1 update2 : ConsensusUpdate) : Prop :=
  update1.updateData.finalizedHeader.beacon.slot = update2.updateData.finalizedHeader.beacon.slot ∧
    update1.updateData.finalizedHeader ≠ update2.updateData.finalizedHeader

/-- **What freezes the client**: the second update only has to have the bits. -/
theorem ethereum_misbehaviour_eq_ok (m : Misbehaviour) : (∃ c, misbehaviour host store now m = .ok c) ↔
      FinalizedConflict m.update1 m.update2 ∧ Valid host store now m.trustedHeight m.update1 ∧
        checkSupermajority m.update2 = .ok () := by
  simp only [misbehaviour, verifyMisbehaviour, bind_eq_ok, orErr_eq_ok, ensure_eq_ok, exists_const,
    pure_eq_ok]
  constructor
  · rintro ⟨_, cs, hcs, _, ⟨hslot, hne, slot, hnow, committee, hcomm, _, hvalid, _, hbits, _, -, hbits2⟩, -⟩
    exact ⟨⟨hslot, hne⟩, ⟨⟨cs, slot, committee, hcs, hnow, hcomm, hvalid⟩, hbits⟩, hbits2⟩
  · rintro ⟨⟨hslot, hne⟩, ⟨⟨cs, slot, committee, hcs, hnow, hcomm, hvalid⟩, hbits⟩, hbits2⟩
    exact ⟨_, cs, hcs, (), ⟨hslot, hne, slot, hnow, committee, hcomm, (), hvalid, (), hbits, (),
      hvalid, hbits2⟩, rfl⟩

theorem ethereum_iff (m : Misbehaviour) : ((∃ c, misbehaviour host store now m = .ok c) →
      Valid host store now m.trustedHeight m.update1 ∧ Valid host store now m.trustedHeight m.update2 ∧
        FinalizedConflict m.update1 m.update2) ↔
      (FinalizedConflict m.update1 m.update2 → Valid host store now m.trustedHeight m.update1 →
        checkSupermajority m.update2 = .ok () → Validates host store now m.trustedHeight m.update2) := by
  rw [ethereum_misbehaviour_eq_ok]
  constructor
  · intro h hconfl hvalid hbits
    exact (h ⟨hconfl, hvalid, hbits⟩).2.1.1
  · rintro h ⟨hconfl, hvalid, hbits⟩
    exact ⟨hvalid, ⟨h hconfl hvalid hbits, hbits⟩, hconfl⟩

end Ethereum

/-! ## The three clients -/

/-- **When a misbehaviour message does what it is for**, in each client. -/
theorem freezes_iff (host : Ethereum.Host) (store : Ethereum.Store) (now : Nat) (m : Ethereum.Misbehaviour)
    (verifyZkp : CometBlsClient.ZkpVerifier) (time : UInt64) (clientState : CometBlsClient.ClientState)
    (consensusState : UInt64 → Option CometBlsClient.ConsensusState) (a b : CometBlsClient.Header)
    (solVerifyZkp : CometBlsClient.Sol.ZkpVerifier) (blockTimestamp : Nat)
    (consensusStates : UInt64 → CometBlsClient.ConsensusState)
      (solClientState : CometBlsClient.Sol.ClientState)
    (signedHeaderHash : CometBls.SolSignedHeader → H256) (solA solB : CometBlsClient.Sol.Header)
    (hhash : signedHeaderHash solA.signedHeader = signedHeaderHash solB.signedHeader →
      solA.signedHeader = solB.signedHeader) :
    (((∃ c, Ethereum.misbehaviour host store now m = .ok c) →
        Valid host store now m.trustedHeight m.update1 ∧ Valid host store now m.trustedHeight m.update2 ∧
          FinalizedConflict m.update1 m.update2) ↔
      (FinalizedConflict m.update1 m.update2 → Valid host store now m.trustedHeight m.update1 →
        Ethereum.checkSupermajority m.update2 = .ok () →
          Validates host store now m.trustedHeight m.update2)) ∧
    (((∃ c, CometBlsClient.misbehaviour verifyZkp time clientState consensusState ⟨a, b⟩ = .ok c) ↔
        Verifies verifyZkp time clientState consensusState a ∧
          Verifies verifyZkp time clientState consensusState b ∧ HeadersConflict a b) ↔
      (Verifies verifyZkp time clientState consensusState a →
        Verifies verifyZkp time clientState consensusState b → Right a b)) ∧
    (((∃ c, CometBlsClient.Sol.misbehaviour solVerifyZkp blockTimestamp signedHeaderHash
          consensusStates solClientState ⟨solA, solB⟩ = .ok c) ↔
        SolVerifies solVerifyZkp blockTimestamp consensusStates solClientState solA ∧
          SolVerifies solVerifyZkp blockTimestamp consensusStates solClientState solB ∧
            SolHeadersConflict solA solB) ↔
      (SolVerifies solVerifyZkp blockTimestamp consensusStates solClientState solA →
        SolVerifies solVerifyZkp blockTimestamp consensusStates solClientState solB →
        solA.signedHeader.height.toNat < solB.signedHeader.height.toNat →
        solTime solA.signedHeader < solTime solB.signedHeader)) :=
  ⟨ethereum_iff m, cometbls_iff a b, sol_iff hhash⟩

/-! ## Wrong in both directions -/

namespace Sample

open CometBlsClient.Sample (block client trusted acceptAll solAcceptAll hash)

/-- Another block 8. -/
def fork : CometBlsClient.Header :=
    { block with signedHeader := { block.signedHeader with appHash := hash 9 } }

def states : UInt64 → Option CometBlsClient.ConsensusState := fun _ => some (trusted 5)

/-- Block 9, a second later. -/
def later : CometBlsClient.Header :=
  { block with signedHeader := { block.signedHeader with height := .ofNat 9, time := .atSecond 101 } }

open Ethereum.Sample (header finalized attested lightClientHeader execution finalityBranch store)

/-- An update by 22 members, and one with as many bits and nothing else for the same slot. -/
def twoUpdates : Ethereum.Misbehaviour where
  syncCommittee := Ethereum.Sample.committee
  trustedHeight := .new 100
  update1 := (header [255, 255, 63, 0]).consensusUpdate
  update2 := .withinSyncCommitteePeriod
    ⟨attested, lightClientHeader 16 [5] (execution 111 1000), [], ⟨[255, 255, 63, 0], []⟩, 21⟩

theorem not_validates : ¬ Validates (Ethereum.Sample.host 32) store 600 (.new 100) twoUpdates.update2 := by
  rintro ⟨cs, slot, committee, hcs, hslot, hcomm, hvalid⟩
  have hcs' : store.consensusState 100 = some Ethereum.Sample.consensusState := by decide
  have hcomm' : store.syncCommittee 0 = some Ethereum.Sample.inverse := by decide
  obtain rfl := Option.some.inj (hcs.symm.trans hcs')
  obtain rfl := Option.some.inj (hcomm.symm.trans hcomm')
  obtain rfl := Option.some.inj hslot
  revert hvalid
  decide +kernel

/-- Headers in order are no misbehaviour, on either side. -/
theorem freezes_iff_sample :
    ((∃ c, CometBlsClient.misbehaviour acceptAll 102000000000 (client 200000000000) states
      ⟨later, block⟩ = .ok c) ↔ Verifies acceptAll 102000000000 (client 200000000000) states later ∧
        Verifies acceptAll 102000000000 (client 200000000000) states block ∧ HeadersConflict later block) ∧
    ((∃ c, CometBlsClient.Sol.misbehaviour solAcceptAll 102 (fun h => beBytes 8 h.height.toNat)
        (fun _ => trusted 5) (client 200000000000).toSol ⟨later.toSol, block.toSol⟩ = .ok c) ↔
      SolVerifies solAcceptAll 102 (fun _ => trusted 5) (client 200000000000).toSol later.toSol ∧
        SolVerifies solAcceptAll 102 (fun _ => trusted 5) (client 200000000000).toSol block.toSol ∧
        SolHeadersConflict later.toSol block.toSol) := by
  have hdiffer : beBytes 8 later.toSol.signedHeader.height.toNat =
      beBytes 8 block.toSol.signedHeader.height.toNat →
      later.toSol.signedHeader = block.toSol.signedHeader := fun h => absurd h (by decide)
  obtain ⟨-, hcosmwasm, hsol⟩ := freezes_iff (Ethereum.Sample.host 32) store 600 twoUpdates
    acceptAll 102000000000
    (client 200000000000) states later block solAcceptAll 102 (fun _ => trusted 5) (client 200000000000).toSol
    (fun h => beBytes 8 h.height.toNat) later.toSol block.toSol hdiffer
  refine ⟨hcosmwasm.mpr fun _ _ => ⟨by decide, fun _ => by decide, fun h => absurd h (by decide)⟩, ?_⟩
  exact hsol.mpr fun _ _ h => absurd h (by decide)

/-- Equal headers freeze the cosmwasm client, two headers of one height do not, and the ethereum
    client is frozen with an update that proves nothing. -/
theorem equal_headers_freeze :
    ((∃ c, CometBlsClient.misbehaviour acceptAll 101000000000 (client 200000000000) states
      ⟨block, block⟩ = .ok c) ∧ ¬ HeadersConflict block block) ∧
    ((CometBlsClient.misbehaviour acceptAll 101000000000 (client 200000000000) states
        ⟨block, fork⟩).toOption.isNone = true ∧
      Verifies acceptAll 101000000000 (client 200000000000) states block ∧
      Verifies acceptAll 101000000000 (client 200000000000) states fork ∧ HeadersConflict block fork) ∧
    ((∃ c, Ethereum.misbehaviour (Ethereum.Sample.host 32) store 600 twoUpdates = .ok c) ∧
      ¬ Valid (Ethereum.Sample.host 32) store 600 twoUpdates.trustedHeight twoUpdates.update2) := by
  refine ⟨⟨exists_ok_of_isSome (by decide), not_conflict_self _⟩, ⟨by decide, ?_, ?_, ?_⟩,
    exists_ok_of_isSome (by decide +kernel), fun h => not_validates h.1⟩
  · exact ⟨_, rfl, by decide⟩
  · exact ⟨_, rfl, by decide⟩
  · left
    decide

end Sample

end UnionVoyager.Light.Misbehaviour
