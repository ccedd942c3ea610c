import Mathlib.Data.UInt
import UnionVoyager.Light.CometBlsClient

/-!
# The two CometBLS clients agree

Both clients are read as one list of conditions on natural numbers (`Verified`).

* `verifyHeader_iff`, `sol_verifyHeader_iff` — what each client adds to that list.
-/

namespace UnionVoyager.Light.CometBlsClient

open Lib CometBls

/-- The nanoseconds of a time after the epoch, before any rounding to 64 bits. -/
def unixNanos (time : Timestamp) : Nat := time.seconds.toNat * 1000000000 + time.nanos.toNat

/-- What both clients ask of a header with timestamp `untrusted` at time `now`. -/
structure Verified (zkp : Bool) (now untrusted : Nat) (clientState : ClientState)
    (consensusState : ConsensusState) (header : Header) : Prop where
  height : header.trustedHeight.height < header.signedHeader.height.inner
  timestamp : consensusState.timestamp.toNat < untrusted
  notExpired : now ≤ consensusState.timestamp.toNat + clientState.trustingPeriod.toNat
  drift_fits : now + clientState.maxClockDrift.toNat < 2 ^ 64
  drift : untrusted < now + clientState.maxClockDrift.toNat
  adjacent : header.signedHeader.height.inner = header.trustedHeight.height + 1 →
    header.signedHeader.validatorsHash = consensusState.nextValidatorsHash
  zkp : zkp = true

variable {verifyZkp : ZkpVerifier} {now : UInt64} {clientState : ClientState}
  {consensusState : ConsensusState} {header : Header} {a : UInt64} {u : StateUpdate}

/-! ## Numbers -/

theorem toNat_ofNat_of_lt {n : Nat} (h : n < 2 ^ 64) : (UInt64.ofNat n).toNat = n := by
  rw [UInt64.toNat_ofNat']
  exact Nat.mod_eq_of_lt h

@[simp] theorem Height.number_toNat (h : Height) : (Height.number h).toNat = h.height := by
  exact toNat_ofNat_of_lt h.height_lt

@[simp] theorem heightNumber_toNat (h : LightHeader) :
    (LightHeader.heightNumber h).toNat = h.height.inner := by
  have hlt := h.height.lt
  exact toNat_ofNat_of_lt (by omega)

theorem plusDuration_eq_some {b c : UInt64} :
    plusDuration a b = some c ↔ a.toNat + b.toNat < 2 ^ 64 ∧ c.toNat = a.toNat + b.toNat := by
  unfold plusDuration
  split
  · rename_i hfits
    rw [Option.some.injEq, ← UInt64.toNat_inj, UInt64.toNat_add, Nat.mod_eq_of_lt hfits]
    exact ⟨fun h => ⟨hfits, h.symm⟩, fun h => h.2.symm⟩
  · rename_i hover
    simp only [reduceCtorEq, false_iff]
    exact fun h => hover h.1

theorem isClientExpired_eq_false {trusted period now : UInt64} : isClientExpired trusted period now = false ↔
      trusted.toNat + period.toNat < 2 ^ 64 ∧ now.toNat ≤ trusted.toNat + period.toNat := by
  unfold isClientExpired
  cases h : plusDuration trusted period with
  | none =>
    unfold plusDuration at h
    split at h
    · cases h
    · rename_i hover
      simp only [Bool.true_eq_false, false_iff]
      exact fun h' => hover h'.1
  | some sum =>
    obtain ⟨hfits, hsum⟩ := plusDuration_eq_some.mp h
    simp only [decide_eq_false_iff_not, UInt64.not_lt, UInt64.le_iff_toNat_le, hsum, hfits, true_and]

@[simp] theorem asUnixNanos_eq_ok {time : Timestamp} {t : UInt64} :
    asUnixNanos time = .ok t ↔ 0 ≤ time.seconds ∧ t.toNat = unixNanos time % 2 ^ 64 := by
  simp only [asUnixNanos, bind_eq_ok, ensure_eq_ok, pure_eq_ok, exists_const, ← UInt64.toNat_inj]
  have hnanos : (UInt64.ofNat time.seconds.toNat * 1000000000 + UInt64.ofNat time.nanos.toNat).toNat =
      unixNanos time % 2 ^ 64 := by
    simp only [UInt64.toNat_add, UInt64.toNat_mul, UInt64.toNat_ofNat', unixNanos]
    have hbillion : (1000000000 : UInt64).toNat = 1000000000 := rfl
    rw [hbillion]
    omega
  rw [hnanos, eq_comm (a := t.toNat)]

/-! ## The cosmwasm client -/

theorem verifyHeader_iff : verifyHeader verifyZkp now clientState consensusState header = .ok () ↔
      0 ≤ header.signedHeader.time.seconds ∧
      consensusState.timestamp.toNat + clientState.trustingPeriod.toNat < 2 ^ 64 ∧
      Verified (verifyZkp clientState.chainId consensusState.nextValidatorsHash header.signedHeader
          header.zeroKnowledgeProof) now.toNat (unixNanos header.signedHeader.time % 2 ^ 64)
            clientState consensusState
        header := by
  simp only [verifyHeader, bind_eq_ok, ensure_eq_ok, orErr_eq_ok, exists_const, asUnixNanos_eq_ok,
    isClientExpired_eq_false, plusDuration_eq_some, UInt64.lt_iff_toNat_lt, Height.number_toNat,
      heightNumber_toNat]
  have hadjacent : LightHeader.heightNumber header.signedHeader = Height.number header.trustedHeight + 1 ↔
      header.signedHeader.height.inner = (header.trustedHeight.height + 1) % 2 ^ 64 := by
    rw [← UInt64.toNat_inj, heightNumber_toNat, UInt64.toNat_add, Height.number_toNat]
    rfl
  have hlt := header.signedHeader.height.lt
  rw [hadjacent]
  constructor
  · rintro ⟨hheight, n, ⟨hsecs, hn⟩, htime, ⟨hfits, hexpired⟩, d, ⟨hdrift, hd⟩, hbelow, hadj, hzkp⟩
    refine ⟨hsecs, hfits, hheight, hn ▸ htime, hexpired, hdrift, by omega, ?_, hzkp⟩
    intro hnext
    by_contra hne
    exact hadj ⟨by omega, hne⟩
  · rintro ⟨hsecs, hfits, h⟩
    have hnanos : (UInt64.ofNat (unixNanos header.signedHeader.time % 2 ^ 64)).toNat =
        unixNanos header.signedHeader.time % 2 ^ 64 := toNat_ofNat_of_lt (Nat.mod_lt _ (by decide))
    have hdrift : (UInt64.ofNat (now.toNat + clientState.maxClockDrift.toNat)).toNat =
        now.toNat + clientState.maxClockDrift.toNat := toNat_ofNat_of_lt h.drift_fits
    refine ⟨h.height, UInt64.ofNat (unixNanos header.signedHeader.time % 2 ^ 64), ⟨hsecs, hnanos⟩, ?_,
      ⟨hfits, h.notExpired⟩, _, ⟨h.drift_fits, hdrift⟩, ?_, ?_, h.zkp⟩
    · rw [hnanos]
      exact h.timestamp
    · rw [hnanos, hdrift]
      exact h.drift
    · rintro ⟨hnext, hne⟩
      have hheight := h.height
      exact hne (h.adjacent (by omega))

theorem updateState_eq_ok :
    updateState clientState header = .ok u ↔ 0 ≤ header.signedHeader.time.seconds ∧
      u.height = Height.number (untrustedHeight header) ∧
      u.clientState = (if Height.lt clientState.latestHeight (untrustedHeight header) then
        some { clientState with latestHeight := untrustedHeight header } else none) ∧
      u.consensusState = ⟨UInt64.ofNat (unixNanos header.signedHeader.time), header.signedHeader.appHash,
        header.signedHeader.nextValidatorsHash⟩ := by
  obtain ⟨height, c, consensus⟩ := u
  simp only [updateState, bind_eq_ok, asUnixNanos_eq_ok, pure_eq_ok, StateUpdate.mk.injEq]
  have hnanos : ∀ t : UInt64, t.toNat = unixNanos header.signedHeader.time % 2 ^ 64 ↔
      t = UInt64.ofNat (unixNanos header.signedHeader.time) := by
    intro t
    rw [← UInt64.toNat_inj, UInt64.toNat_ofNat']
  simp only [hnanos]
  constructor
  · rintro ⟨t, ⟨hsecs, rfl⟩, rfl, rfl, rfl⟩
    exact ⟨hsecs, rfl, rfl, rfl⟩
  · rintro ⟨hsecs, rfl, rfl, rfl⟩
    exact ⟨_, ⟨hsecs, rfl⟩, rfl, rfl, rfl⟩

/-! ## The EVM client -/

variable {solVerifyZkp : Sol.ZkpVerifier} {blockTimestamp : Nat}

@[simp] theorem sol_checked_eq_ok {n : Nat} : Sol.checked n = .ok a ↔ n < 2 ^ 64 ∧ a.toNat = n := by
  simp only [Sol.checked, bind_eq_ok, ensure_eq_ok, pure_eq_ok, exists_const, ←
    UInt64.toNat_inj, UInt64.toNat_ofNat']
  constructor
  · rintro ⟨hfits, h⟩
    exact ⟨hfits, by omega⟩
  · rintro ⟨hfits, h⟩
    exact ⟨hfits, by omega⟩

theorem sol_currentTime_eq_ok (hnow : blockTimestamp * 1000000000 < 2 ^ 64) :
    Sol.currentTime blockTimestamp = .ok a ↔ a.toNat = blockTimestamp * 1000000000 := by
  have h256 : blockTimestamp * 1000000000 < 2 ^ 256 := Nat.lt_trans hnow (by decide)
  simp only [Sol.currentTime, bind_eq_ok, ensure_eq_ok, pure_eq_ok, h256, exists_const, true_and, ←
    UInt64.toNat_inj, UInt64.toNat_ofNat', Nat.mod_eq_of_lt hnow]
  exact eq_comm

theorem toSol_times (h : LightHeader) :
    h.toSol.secs.toNat = h.time.seconds.toNat ∧ h.toSol.nanos.toNat = h.time.nanos.toNat := by
  have hseconds := h.time.seconds_bounds.2
  have hnanos := h.time.nanos_bounds.2
  simp only [TIMESTAMP_SECONDS_MAX] at hseconds
  simp only [NANOS_MAX, NANOS_PER_SECOND] at hnanos
  constructor
  · exact toNat_ofNat_of_lt (by omega)
  · exact toNat_ofNat_of_lt (by omega)

theorem sol_untrustedTimestamp_eq_ok (h : LightHeader) :
    Sol.untrustedTimestamp h.toSol = .ok a ↔ unixNanos h.time < 2 ^ 64 ∧ a.toNat = unixNanos h.time := by
  obtain ⟨hsecs, hnanos⟩ := toSol_times h
  simp only [Sol.untrustedTimestamp, bind_eq_ok, sol_checked_eq_ok, hsecs, hnanos, unixNanos]
  constructor
  · rintro ⟨s, ⟨hfits, hs⟩, hsum, ha⟩
    rw [hs] at hsum ha
    exact ⟨hsum, ha⟩
  · rintro ⟨hfits, ha⟩
    have hproduct : h.time.seconds.toNat * 1000000000 < 2 ^ 64 :=
      Nat.lt_of_le_of_lt (Nat.le_add_right _ _) hfits
    refine ⟨UInt64.ofNat (h.time.seconds.toNat * 1000000000), ⟨hproduct, toNat_ofNat_of_lt hproduct⟩, ?_⟩
    rw [toNat_ofNat_of_lt hproduct]
    exact ⟨hfits, ha⟩

theorem sol_isExpired_eq_false {trusted period now : UInt64} :
    Sol.isExpired trusted period now = false ↔ now.toNat ≤ trusted.toNat + period.toNat := by
  simp [Sol.isExpired]

theorem sol_verifyHeader_iff (hnow : blockTimestamp * 1000000000 < 2 ^ 64) {r : UInt64 × UInt64} :
    Sol.verifyHeader solVerifyZkp blockTimestamp header.toSol consensusState clientState.toSol = .ok r ↔
      consensusState.timestamp ≠ 0 ∧ unixNanos header.signedHeader.time < 2 ^ 64 ∧
      Verified (solVerifyZkp clientState.chainId.intoFixedBytes consensusState.nextValidatorsHash
          header.signedHeader.toSol header.zeroKnowledgeProof) (blockTimestamp * 1000000000)
        (unixNanos header.signedHeader.time) clientState consensusState header ∧
      r = (LightHeader.heightNumber header.signedHeader,
        UInt64.ofNat (unixNanos header.signedHeader.time)) := by
  have hlt := header.signedHeader.height.lt
  have hsigned : header.toSol.signedHeader.height.toNat = header.signedHeader.height.inner :=
    heightNumber_toNat header.signedHeader
  have htrusted : header.toSol.trustedHeight.toNat = header.trustedHeight.height := Height.number_toNat _
  have htime : ∀ a : UInt64, Sol.untrustedTimestamp header.toSol.signedHeader = .ok a ↔
      unixNanos header.signedHeader.time < 2 ^ 64 ∧ a.toNat = unixNanos header.signedHeader.time := by
    intro a
    exact sol_untrustedTimestamp_eq_ok header.signedHeader
  simp only [Sol.verifyHeader, bind_eq_ok, ensure_eq_ok, exists_const, htime, sol_currentTime_eq_ok hnow,
    sol_isExpired_eq_false, sol_checked_eq_ok, UInt64.lt_iff_toNat_lt, hsigned, htrusted, pure_eq_ok]
  constructor
  · rintro ⟨hzero, hheight, u, ⟨hfits, hu⟩, htime, c, hc, hexpired, d, ⟨hdrift, hd⟩, hbelow, n,
      ⟨-, hn⟩, hadj, hzkp, rfl⟩
    rw [hc] at hexpired hdrift hd
    rw [hd] at hbelow
    rw [hu] at htime hbelow
    refine ⟨hzero, hfits, ⟨hheight, htime, hexpired, hdrift, hbelow, ?_, hzkp⟩, ?_⟩
    · intro hnext
      by_contra hne
      refine hadj ⟨?_, hne⟩
      rw [← UInt64.toNat_inj, hn, hsigned, hnext]
    · rw [← hu, UInt64.ofNat_toNat]
      rfl
  · rintro ⟨hzero, hfits, h, rfl⟩
    have hheight := h.height
    refine ⟨hzero, h.height, UInt64.ofNat (unixNanos header.signedHeader.time),
      ⟨hfits, toNat_ofNat_of_lt hfits⟩, ?_,
      UInt64.ofNat (blockTimestamp * 1000000000), toNat_ofNat_of_lt hnow, ?_,
      UInt64.ofNat (blockTimestamp * 1000000000 + clientState.maxClockDrift.toNat), ?_, ?_,
      UInt64.ofNat (header.trustedHeight.height + 1), ?_, ?_, h.zkp, rfl⟩
    · rw [toNat_ofNat_of_lt hfits]
      exact h.timestamp
    · rw [toNat_ofNat_of_lt hnow]
      exact h.notExpired
    · rw [toNat_ofNat_of_lt hnow]
      exact ⟨h.drift_fits, toNat_ofNat_of_lt h.drift_fits⟩
    · rw [toNat_ofNat_of_lt hfits, toNat_ofNat_of_lt h.drift_fits]
      exact h.drift
    · exact ⟨by omega, toNat_ofNat_of_lt (by omega)⟩
    · rintro ⟨hnext, hne⟩
      rw [← UInt64.toNat_inj, toNat_ofNat_of_lt (by omega), hsigned] at hnext
      exact hne (h.adjacent hnext)

/-! ## The same update -/

/-- `revision_matches`: one of the revisions is missing, or they are equal. -/
def RevisionMatches (a b : Height) : Prop := a.revision = 0 ∨ b.revision = 0 ∨ a.revision = b.revision

theorem Height.lt_of_matches {a b : Height} (h : RevisionMatches a b) :
    Height.lt a b = decide (a.height < b.height) := by
  unfold Height.lt
  rw [if_neg]
  rintro ⟨ha, hb, hne⟩
  rcases h with h | h | h
  · exact ha h
  · exact hb h
  · exact hne h

/-- What the EVM client stores after the same update. -/
def StateUpdate.toSol (clientState : ClientState) (u : StateUpdate) : Sol.ClientState × ConsensusState :=
  ((u.clientState.getD clientState).toSol, u.consensusState)

theorem acceptHeader_eq_ok : acceptHeader verifyZkp now clientState consensusState header = .ok u ↔
      verifyHeader verifyZkp now clientState consensusState header = .ok () ∧
        updateState clientState header = .ok u := by
  simp only [acceptHeader, bind_eq_ok]
  exact ⟨fun h => h.elim fun _ h => h, fun h => ⟨(), h⟩⟩

theorem updateState_toSol (hmatches : RevisionMatches clientState.latestHeight header.trustedHeight)
    (h : updateState clientState header = .ok u) :
    u.height = header.toSol.signedHeader.height ∧
    u.toSol clientState = Sol.updateState clientState.toSol Sol.absent header.toSol
      (LightHeader.heightNumber header.signedHeader) (UInt64.ofNat (unixNanos header.signedHeader.time)) := by
  obtain ⟨-, hheight, hclient, hconsensus⟩ := updateState_eq_ok.mp h
  refine ⟨hheight, ?_⟩
  have hlater : Height.lt clientState.latestHeight (untrustedHeight header) =
      decide (clientState.toSol.latestHeight < LightHeader.heightNumber header.signedHeader) := by
    have huntrusted : RevisionMatches clientState.latestHeight (untrustedHeight header) := hmatches
    rw [Height.lt_of_matches huntrusted]
    refine decide_eq_decide.mpr ?_
    rw [UInt64.lt_iff_toNat_lt, heightNumber_toNat]
    show _ ↔ (Height.number clientState.latestHeight).toNat < _
    rw [Height.number_toNat]
    rfl
  have habsent : ¬ Sol.absent.timestamp ≠ 0 := fun hne => hne rfl
  unfold StateUpdate.toSol Sol.updateState
  rw [if_neg habsent, hclient, hconsensus, hlater]
  by_cases hlt : clientState.toSol.latestHeight < LightHeader.heightNumber header.signedHeader
  · simp only [hlt, decide_true, if_true, Option.getD_some]
    rfl
  · simp only [hlt, decide_false, if_false, Option.getD_none, Bool.false_eq_true]
    rfl

/-- **The clients make the same update**: what the cosmwasm client accepts, the EVM client accepts
    if the trusted timestamp is not zero, and what the EVM client accepts, the cosmwasm client
    accepts if the trusting period ends within 64 bits.  Where the clock drift overflows neither
    accepts anything. -/
theorem clients_agree (hzkp : ∀ c v h p, verifyZkp c v h p = solVerifyZkp c.intoFixedBytes v h.toSol p)
    (hnow : blockTimestamp * 1000000000 < 2 ^ 64) (hsecs : 0 ≤ header.signedHeader.time.seconds)
    (hfits : unixNanos header.signedHeader.time < 2 ^ 64)
    (hmatches : RevisionMatches clientState.latestHeight header.trustedHeight)
      (v : Sol.ClientState × ConsensusState) :
    (((∃ u, acceptHeader verifyZkp (UInt64.ofNat (blockTimestamp * 1000000000)) clientState
          consensusState header =
          .ok u ∧ u.height = header.toSol.signedHeader.height ∧ u.toSol clientState = v) ∧
        consensusState.timestamp ≠ 0) ↔
      Sol.acceptHeader solVerifyZkp blockTimestamp clientState.toSol Sol.absent consensusState
        header.toSol = .ok v ∧
        consensusState.timestamp.toNat + clientState.trustingPeriod.toNat < 2 ^ 64) ∧
    (2 ^ 64 ≤ blockTimestamp * 1000000000 + clientState.maxClockDrift.toNat →
      (∀ u, acceptHeader verifyZkp (UInt64.ofNat (blockTimestamp * 1000000000)) clientState
        consensusState header ≠ .ok u) ∧
      Sol.acceptHeader solVerifyZkp blockTimestamp clientState.toSol Sol.absent consensusState
        header.toSol ≠ .ok v) := by
  have hsol : ∀ w, Sol.acceptHeader solVerifyZkp blockTimestamp clientState.toSol Sol.absent
      consensusState header.toSol =
      .ok w ↔ ∃ r, Sol.verifyHeader solVerifyZkp blockTimestamp header.toSol consensusState
        clientState.toSol = .ok r ∧
        Sol.updateState clientState.toSol Sol.absent header.toSol r.1 r.2 = w := by
    intro w
    simp only [Sol.acceptHeader, bind_eq_ok, pure_eq_ok]
  rw [hsol]
  refine ⟨⟨?_, ?_⟩, fun hover => ⟨fun u hu => ?_, fun hv => ?_⟩⟩
  · rintro ⟨⟨u, hu, -, rfl⟩, hzero⟩
    obtain ⟨hverify, hupdate⟩ := acceptHeader_eq_ok.mp hu
    obtain ⟨-, hperiod, hverified⟩ := verifyHeader_iff.mp hverify
    rw [toNat_ofNat_of_lt hnow, Nat.mod_eq_of_lt hfits, hzkp] at hverified
    exact ⟨⟨_, (sol_verifyHeader_iff hnow).mpr ⟨hzero, hfits, hverified, rfl⟩,
      (updateState_toSol hmatches hupdate).2.symm⟩, hperiod⟩
  · rintro ⟨⟨r, hverify, rfl⟩, hperiod⟩
    obtain ⟨hzero, -, hverified, rfl⟩ := (sol_verifyHeader_iff hnow).mp hverify
    have hupdate : ∃ u, updateState clientState header = .ok u :=
      ⟨⟨_, _, _⟩, updateState_eq_ok.mpr ⟨hsecs, rfl, rfl, rfl⟩⟩
    obtain ⟨u, hu⟩ := hupdate
    obtain ⟨hheight, hstate⟩ := updateState_toSol hmatches hu
    refine ⟨⟨u, acceptHeader_eq_ok.mpr ⟨verifyHeader_iff.mpr ⟨hsecs, hperiod, ?_⟩, hu⟩, hheight,
      hstate⟩, hzero⟩
    rw [toNat_ofNat_of_lt hnow, Nat.mod_eq_of_lt hfits, hzkp]
    exact hverified
  · have hdrift := (verifyHeader_iff.mp (acceptHeader_eq_ok.mp hu).1).2.2.drift_fits
    rw [toNat_ofNat_of_lt hnow] at hdrift
    omega
  · obtain ⟨r, hverify, -⟩ := (hsol v).mp hv
    have hdrift := ((sol_verifyHeader_iff hnow).mp hverify).2.2.1.drift_fits
    omega

/-! ## One header -/

namespace Sample

def hash (b : UInt8) : Word := ⟨List.replicate 32 b, rfl⟩

def chainId : ChainId := .union1

/-- A client that trusts its consensus states for some nanoseconds. -/
def client (trustingPeriod : UInt64) : ClientState where
  chainId := chainId
  trustingPeriod := trustingPeriod
  maxClockDrift := 10000000000
  frozenHeight := .new 0
  latestHeight := .new 7
  contractAddress := hash 0

def trusted (timestamp : UInt64) : ConsensusState := ⟨timestamp, hash 1, hash 2⟩

/-- Block 8, at one hundred seconds. -/
def block : Header where
  signedHeader :=
    { height := .ofNat 8
      time := .atSecond 100
      validatorsHash := hash 2
      nextValidatorsHash := hash 3
      appHash := hash 4 }
  trustedHeight := .new 7
  zeroKnowledgeProof := []

def acceptAll : ZkpVerifier := fun _ _ _ _ => true

def solAcceptAll : Sol.ZkpVerifier := fun _ _ _ _ => true

/-- What the EVM client stores for the block. -/
def stored : Sol.ClientState × ConsensusState :=
  ({ (client 200000000000).toSol with latestHeight := 8 }, ⟨100000000000, hash 4, hash 3⟩)

/-- At 101 seconds the block is accepted, as the EVM client accepts it. -/
theorem clients_agree_sample : ∃ u,
    acceptHeader acceptAll 101000000000 (client 200000000000) (trusted 5) block = .ok u ∧ u.height = 8 ∧
      u.toSol (client 200000000000) = stored := by
  have hzkp : ∀ c v h p, acceptAll c v h p = solAcceptAll c.intoFixedBytes v h.toSol p := fun _ _ _ _ => rfl
  have hnow : 101 * 1000000000 < 2 ^ 64 := by decide
  have hsecs : 0 ≤ block.signedHeader.time.seconds := by decide
  have hfits : unixNanos block.signedHeader.time < 2 ^ 64 := by decide
  have hmatches : RevisionMatches (client 200000000000).latestHeight block.trustedHeight := .inl rfl
  have hsol : Sol.acceptHeader solAcceptAll 101 (client 200000000000).toSol Sol.absent (trusted 5)
      block.toSol = .ok stored := by decide
  have hperiod : (trusted 5).timestamp.toNat + (client 200000000000).trustingPeriod.toNat <
    2 ^ 64 := by decide
  exact ((clients_agree hzkp hnow hsecs hfits hmatches stored).1.mpr ⟨hsol, hperiod⟩).1

/-- A client far ahead in revision 1, and the block with a trusted height of revision 2. -/
def ahead : ClientState := { client 200000000000 with latestHeight := .newWithRevision 1 100 }

def nextRevision : Header := { block with trustedHeight := .newWithRevision 2 7 }

/-- A consensus state of timestamp zero is one for the cosmwasm client only, a trusting period of
    584 years is over for the cosmwasm client only, and only the cosmwasm client compares revisions
    before heights. -/
theorem clients_disagree :
      (verifyHeader acceptAll 101000000000 (client 200000000000) (trusted 0) block = .ok () ∧
      Sol.verifyHeader solAcceptAll 101 block.toSol (trusted 0) (client 200000000000).toSol =
        .error .trustedConsensusStateNotFound) ∧
    (verifyHeader acceptAll 101000000000 (client (2 ^ 64 - 1)) (trusted 5) block =
        .error (.invalidHeader (.headerExpired 5)) ∧
      Sol.verifyHeader solAcceptAll 101 block.toSol (trusted 5) (client (2 ^ 64 - 1)).toSol =
        .ok (8, 100000000000)) ∧
    ((acceptHeader acceptAll 101000000000 ahead (trusted 5) nextRevision).toOption.map fun u =>
        (u.toSol ahead).1.latestHeight) = some 8 ∧
    ((Sol.acceptHeader solAcceptAll 101 ahead.toSol Sol.absent (trusted 5)
          nextRevision.toSol).toOption.map fun v =>
        v.1.latestHeight) = some 100 := by
  decide +kernel

end Sample

end UnionVoyager.Light.CometBlsClient
