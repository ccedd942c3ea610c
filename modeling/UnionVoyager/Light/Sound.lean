import UnionVoyager.Lib.Loop
import UnionVoyager.Lib.Tally
import UnionVoyager.Light.Tendermint

/-!
# What the tendermint client accepts was signed

The prover picks the commit, both validator sets, their addresses and their order.  What is counted is
nevertheless a set of positions, each once: in the lookup by index because the index moves on, in the
lookup by address because a position seen before is refused.

* `power_signed` — a commit that passes was signed by more power than was asked for.
-/

namespace UnionVoyager.Light.Tendermint

open Lib

/-- The host's signature checks accept exactly the valid signatures, one by one and in a batch. -/
structure HostFns.Exact (host : HostFns) (valid : PublicKey → Bytes → Bytes → Prop) : Prop where
  single : ∀ key msg sig, host.verifySignature key msg sig = true ↔ valid key msg sig
  batch : ∀ c : Collected, host.verifyBatchSignature (c.map (·.1)) (c.map (·.2.1)) (c.map (·.2.2)) = true ↔
    ∀ s ∈ c, valid s.1 s.2.1 s.2.2

/-- A precommit on this chain for the height, the round and the block of the commit. -/
structure VoteFor (commit : Commit) (chainId : String) (vote : CanonicalVote) : Prop where
  ty : vote.ty = .precommit
  height : vote.height = commit.height
  round : vote.round.inner = commit.round.inner
  hash : commit.blockId.hash = some vote.blockId.hash
  total : commit.blockId.partSetHeader.total = vote.blockId.partSetHeader.total
  partsHash : commit.blockId.partSetHeader.hash = some vote.blockId.partSetHeader.hash
  chainId : vote.chainId = chainId

/-- The validator at this position has a valid signature of such a vote in the commit. -/
def Signed (codec : Codec) (valid : PublicKey → Bytes → Bytes → Prop) (chainId : String)
    (commit : Commit) (vals : List Validator) (position : Nat) : Prop :=
  ∃ val address timestamp signature vote,
    vals[position]? = some val ∧ CommitSig.commit address timestamp signature ∈ commit.signatures ∧
      VoteFor commit chainId vote ∧ vote.timestamp = timestamp ∧
        valid val.pubKey (codec.canonicalVote vote) signature

def power (val : Validator) : Nat := val.votingPower.inner

variable {commit : Commit} {address : H160} {chainId : String}

theorem toCanonicalVote_ok {timestamp : Timestamp} {signature : Bytes} {vote : CanonicalVote}
    (h : toCanonicalVote commit (.commit address timestamp signature) timestamp chainId = .ok vote) :
    VoteFor commit chainId vote ∧ vote.timestamp = timestamp := by
  simp only [toCanonicalVote, bind_eq_ok, orErr_eq_ok, pure_eq_ok] at h
  obtain ⟨hash, hhash, partsHash, hparts, rfl⟩ := h
  exact ⟨⟨rfl, rfl, rfl, hhash, rfl, hparts, rfl⟩, rfl⟩

variable {calls : Collected}

section Loop

variable {σ : Type} {codec : Codec} {chainId : String} {vals : ValidatorSet} {commit : Commit}
  {needed : Nat} {byIndex : Bool} {handle : σ → PublicKey → Bytes → Bytes → Except Error σ} {init : σ}

variable {i : Nat} {t : Tally σ}

theorem findSigner_ok {j : Nat} {val : Validator} {seen : List Nat}
    (h : findSigner vals byIndex i address t = .ok (some (j, val, seen))) : vals.validators[j]? = some val ∧
      (if byIndex then j = i ∧ seen = t.seenVals else j ∉ t.seenVals ∧ seen = j :: t.seenVals) := by
  unfold findSigner at h
  split at h
  case isTrue hindex =>
    simp only [bind_eq_ok, orErr_eq_ok, pure_eq_ok, Option.some.injEq, Prod.mk.injEq] at h
    obtain ⟨_, hval, rfl, rfl, rfl⟩ := h
    exact ⟨hval, by simp [hindex]⟩
  case isFalse hindex =>
    split at h
    · simp at h
    · rename_i _ found _ hfound
      simp only [bind_eq_ok, ensure_eq_ok, pure_eq_ok, Option.some.injEq, Prod.mk.injEq] at h
      obtain ⟨_, hfresh, rfl, rfl, rfl⟩ := h
      simp only [getValidatorByAddress, Option.map_eq_some_iff, Prod.mk.injEq] at hfound
      obtain ⟨_, hval, rfl, rfl⟩ := hfound
      exact ⟨hval, by simp [hindex, hfresh]⟩

/-- What has been counted when the loop is at the `i`-th signature: the positions `S`, whose power is
    the tally, and the calls of the closure, among them one for each position. -/
structure Counts (codec : Codec) (chainId : String) (vals : ValidatorSet) (commit : Commit)
    (byIndex : Bool) (handle : σ → PublicKey → Bytes → Bytes → Except Error σ) (init : σ) (i : Nat)
    (t : Tally σ) (S : Finset Nat) (calls : Collected) : Prop where
  handled : calls.foldlM (fun s c => handle s c.1 c.2.1 c.2.2) init = .ok t.handle
  tallied : t.talliedVotingPower = weightAt power vals.validators S
  counted : ∀ j ∈ S, if byIndex then j < i else j ∈ t.seenVals
  signed : ∀ j ∈ S, ∃ val address timestamp signature vote,
    vals.validators[j]? = some val ∧ CommitSig.commit address timestamp signature ∈ commit.signatures ∧
      VoteFor commit chainId vote ∧ vote.timestamp = timestamp ∧
        (val.pubKey, codec.canonicalVote vote, signature) ∈ calls

theorem Counts.start : Counts codec chainId vals commit byIndex handle init 0 ⟨0, [], init⟩ ∅ [] where
  handled := rfl
  tallied := rfl
  counted := by simp
  signed := by simp

theorem Counts.skip {S : Finset Nat} (hc : Counts codec chainId vals commit byIndex handle init i t S calls) :
    Counts codec chainId vals commit byIndex handle init (i + 1) t S calls where
  handled := hc.handled
  tallied := hc.tallied
  signed := hc.signed
  counted := by
    intro j hj
    have := hc.counted j hj
    cases byIndex with
    | true => exact Nat.lt_succ_of_lt this
    | false => exact this

/-- **One more signature** adds a position that was not counted, its power and its call. -/
theorem Counts.count {j : Nat} {S : Finset Nat} {timestamp : Timestamp} {signature : Bytes}
    {val : Validator} {seen : List Nat} {vote : CanonicalVote} {s : σ}
    (hc : Counts codec chainId vals commit byIndex handle init i t S calls)
    (htotal : totalWeight power vals.validators < 2 ^ 64)
    (hmem : CommitSig.commit address timestamp signature ∈ commit.signatures)
    (hfind : findSigner vals byIndex i address t = .ok (some (j, val, seen)))
    (hvote : toCanonicalVote commit (.commit address timestamp signature) timestamp chainId = .ok vote)
    (hhandle : handle t.handle val.pubKey (codec.canonicalVote vote) signature = .ok s) :
    Counts codec chainId vals commit byIndex handle init (i + 1)
      ⟨(t.talliedVotingPower + val.votingPower.inner) % 2 ^ 64, seen, s⟩ (insert j S)
      (calls ++ [(val.pubKey, codec.canonicalVote vote, signature)]) := by
  obtain ⟨hval, hseen⟩ := findSigner_ok hfind
  have hnew : j ∉ S := by
    intro hj
    have hcounted := hc.counted j hj
    cases byIndex with
    | true =>
      simp only [if_true] at hcounted hseen
      omega
    | false =>
      simp only [Bool.false_eq_true, if_false] at hcounted hseen
      exact hseen.1 hcounted
  have hweight : weightAt power vals.validators (insert j S)
      = t.talliedVotingPower + val.votingPower.inner := by
    rw [weightAt_insert hnew hval, hc.tallied]
    rfl
  constructor
  case handled =>
    rw [List.foldlM_append, hc.handled]
    simp [hhandle]
  case tallied =>
    -- the sum of an `u64` does not wrap: distinct positions hold at most the whole power
    have hle : weightAt power vals.validators (insert j S) ≤ totalWeight power vals.validators :=
      weightAt_le _
    rw [hweight] at hle ⊢
    exact Nat.mod_eq_of_lt (by omega)
  case counted =>
    intro k hk
    rcases Finset.mem_insert.mp hk with rfl | hk
    · cases byIndex with
      | true =>
        simp only [if_true] at hseen ⊢
        omega
      | false =>
        simp only [Bool.false_eq_true, if_false] at hseen ⊢
        simp [hseen.2]
    · have hcounted := hc.counted k hk
      cases byIndex with
      | true =>
        simp only [if_true] at hcounted ⊢
        omega
      | false =>
        simp only [Bool.false_eq_true, if_false] at hcounted hseen ⊢
        simp [hseen.2, hcounted]
  case signed =>
    intro k hk
    rcases Finset.mem_insert.mp hk with rfl | hk
    · obtain ⟨hfor, htime⟩ := toCanonicalVote_ok hvote
      exact ⟨val, address, timestamp, signature, vote, hval, hmem, hfor, htime, by simp⟩
    · obtain ⟨v, a, ts, sig, vt, h₁, h₂, h₃, h₄, h₅⟩ := hc.signed k hk
      exact ⟨v, a, ts, sig, vt, h₁, h₂, h₃, h₄, List.mem_append_left _ h₅⟩

theorem counts_of_verifyCommitFrom (htotal : totalWeight power vals.validators < 2 ^ 64) {s : σ}
    (rest : List CommitSig) (hrest : ∀ c ∈ rest, c ∈ commit.signatures) :
    ∀ {i : Nat} {t : Tally σ} {S : Finset Nat} {calls : Collected},
      Counts codec chainId vals commit byIndex handle init i t S calls →
      verifyCommitFrom codec chainId vals commit needed byIndex handle i rest t = .ok s →
      ∃ i' t' S' calls', Counts codec chainId vals commit byIndex handle init i' t' S' calls' ∧
        t'.handle = s ∧ needed < t'.talliedVotingPower := by
  induction rest with
  | nil =>
    intro i t S calls _ h
    cases h
  | cons commitSig rest ih =>
    intro i t S calls hc h
    have hrest' : ∀ c ∈ rest, c ∈ commit.signatures := fun c hc => hrest c (List.mem_cons_of_mem _ hc)
    rw [verifyCommitFrom] at h
    cases commitSig with
    | absent | nil => exact ih hrest' hc.skip h
    | commit address timestamp signature =>
      simp only [filterCommit, bind_eq_ok] at h
      obtain ⟨signer, hfind, h⟩ := h
      rcases signer with _ | ⟨j, val, seen⟩
      · exact ih hrest' hc.skip h
      · simp only [bind_eq_ok, canonicalVote, pure_eq_ok] at h
        obtain ⟨_, ⟨vote, hvote, rfl⟩, s', hhandle, h⟩ := h
        have hc' := hc.count htotal (hrest _ List.mem_cons_self) hfind hvote hhandle
        split at h
        case isTrue henough =>
          rw [pure_eq_ok] at h
          exact ⟨_, _, _, _, hc', h, henough⟩
        case isFalse => exact ih hrest' hc' h

end Loop

/-! ## The two signature paths -/

section Paths

variable {codec : Codec} {sha256 : Bytes → H256} {host : HostFns}
  {valid : PublicKey → Bytes → Bytes → Prop} {chainId : String} {vals : ValidatorSet} {commit : Commit}
  {needed : Nat} {byIndex : Bool}

theorem push_all (calls : Collected) : ∀ acc : Collected,
    calls.foldlM (fun s c => pushSignature s c.1 c.2.1 c.2.2) acc = .ok (acc ++ calls) := by
  induction calls with
  | nil => intro acc; simp [pure, Except.pure]
  | cons c calls ih =>
    intro acc
    rw [List.foldlM_cons]
    simp only [pushSignature, ok_bind]
    have := ih (acc ++ [c])
    simpa [pushSignature] using this

theorem calls_valid_single (hhost : host.Exact valid)
    (h : calls.foldlM (fun s c => checkSignature host s c.1 c.2.1 c.2.2) () = .ok ()) :
    ∀ c ∈ calls, valid c.1 c.2.1 c.2.2 := by
  refine forall_of_foldlM (P := fun c => valid c.1 c.2.1 c.2.2) ?_ h
  intro _ c _ hc
  rw [checkSignature, ensure_eq_ok] at hc
  exact (hhost.single _ _ _).mp hc

theorem power_signed (hhost : host.Exact valid) (htotal : totalWeight power vals.validators < 2 ^ 64)
    (h : verifyCommitPower codec host chainId vals commit needed byIndex = .ok ()) :
    ∃ S : Finset Nat, (∀ i ∈ S, Signed codec valid chainId commit vals.validators i) ∧
      needed < weightAt power vals.validators S := by
  unfold verifyCommitPower at h
  split at h
  · simp only [verifyCommitBatch, verifyCommit, bind_eq_ok, ensure_eq_ok] at h
    obtain ⟨collected, hloop, hbatch⟩ := h
    obtain ⟨i, t, S, calls, hc, rfl, hneeded⟩ :=
      counts_of_verifyCommitFrom htotal commit.signatures (fun _ h => h) .start hloop
    have hcalls : t.handle = calls := by
      have := hc.handled
      rw [push_all, List.nil_append, Except.ok.injEq] at this
      exact this.symm
    rw [hhost.batch, hcalls] at hbatch
    refine ⟨S, ?_, hc.tallied ▸ hneeded⟩
    intro j hj
    obtain ⟨v, a, ts, sig, vote, hval, hmem, hvote, htime, hcall⟩ := hc.signed j hj
    exact ⟨v, a, ts, sig, vote, hval, hmem, hvote, htime, hbatch _ hcall⟩
  · simp only [verifyCommitSingle, verifyCommit] at h
    obtain ⟨i, t, S, calls, hc, _, hneeded⟩ :=
      counts_of_verifyCommitFrom htotal commit.signatures (fun _ h => h) .start h
    have hvalid := calls_valid_single hhost hc.handled
    refine ⟨S, ?_, hc.tallied ▸ hneeded⟩
    intro j hj
    obtain ⟨v, a, ts, sig, vote, hval, hmem, hvote, htime, hcall⟩ := hc.signed j hj
    exact ⟨v, a, ts, sig, vote, hval, hmem, hvote, htime, hvalid _ hcall⟩

end Paths

/-! ## Headers -/

/-- What `verify_new_headers_and_vals` has checked. -/
structure Follows (codec : Codec) (sha256 : Bytes → H256) (untrusted : SignedHeader)
    (untrustedVals : ValidatorSet) (trusted : SignedHeader) : Prop where
  commitHeight : untrusted.commit.height = untrusted.header.height
  root : untrusted.header.calculateMerkleRoot codec sha256 = untrusted.commit.blockId.hash
  chainId : untrusted.header.chainId = trusted.header.chainId
  height : trusted.header.height.inner < untrusted.header.height.inner
  time : trusted.header.time < untrusted.header.time
  validators : validatorsHash codec sha256 untrustedVals = untrusted.header.validatorsHash

variable {vals : ValidatorSet}

section Headers

variable {codec : Codec} {sha256 : Bytes → H256} {host : HostFns}
  {valid : PublicKey → Bytes → Bytes → Prop}

theorem follows_of_verifyNewHeadersAndVals {untrusted trusted : SignedHeader}
    {untrustedVals : ValidatorSet} {now : Timestamp} {drift : Duration}
    (h : verifyNewHeadersAndVals codec sha256 untrusted untrustedVals trusted now drift = .ok ()) :
    Follows codec sha256 untrusted untrustedVals trusted := by
  simp only [verifyNewHeadersAndVals, bind_eq_ok, ensure_eq_ok, orErr_eq_ok] at h
  obtain ⟨_, hcommit, root, hroot, hash, hhash, _, rfl, _, hchain, _, hheight, _, htime, _, _, _, _,
    hvals⟩ := h
  exact ⟨hcommit, hroot.trans hhash.symm, hchain, hheight, htime, hvals.symm⟩

theorem signed_of_verifyCommitLight (hhost : host.Exact valid) {blockId : BlockId}
    {height : BoundedI64} (htotal : totalWeight power vals.validators < 2 ^ 63)
    (hset : vals.totalVotingPower = totalWeight power vals.validators)
    (h : verifyCommitLight codec host vals chainId blockId height commit = .ok ()) :
    ∃ S : Finset Nat, (∀ i ∈ S, Signed codec valid chainId commit vals.validators i) ∧
      2 * totalWeight power vals.validators < 3 * weightAt power vals.validators S := by
  simp only [verifyCommitLight, bind_eq_ok, ensure_eq_ok, orErr_eq_ok] at h
  obtain ⟨_, _, _, _, doubled, hdoubled, h⟩ := h
  obtain ⟨S, hsigned, hneeded⟩ := power_signed hhost (by omega) h
  refine ⟨S, hsigned, ?_⟩
  have htwice : doubled = 2 * totalWeight power vals.validators := by
    rw [hset, Int.toNat_natCast, checkedMulU64] at hdoubled
    split at hdoubled
    · cases hdoubled
      omega
    · cases hdoubled
  rw [Nat.div_lt_iff_lt_mul (by decide)] at hneeded
  omega

theorem signed_of_verifyCommitLightTrusting (hhost : host.Exact valid) {trustLevel : Fraction}
    (htotal : totalWeight power vals.validators < 2 ^ 63)
    (hset : vals.totalVotingPower = totalWeight power vals.validators)
    (h : verifyCommitLightTrusting codec host chainId vals commit trustLevel = .ok ()) :
    ∃ S : Finset Nat, (∀ i ∈ S, Signed codec valid chainId commit vals.validators i) ∧
      trustLevel.numerator * totalWeight power vals.validators
        < trustLevel.denominator * weightAt power vals.validators S := by
  simp only [verifyCommitLightTrusting, bind_eq_ok, orErr_eq_ok] at h
  obtain ⟨share, hshare, h⟩ := h
  obtain ⟨S, hsigned, hneeded⟩ := power_signed hhost (by omega) h
  refine ⟨S, hsigned, ?_⟩
  have hproduct : share = trustLevel.numerator * totalWeight power vals.validators := by
    rw [hset, Int.natAbs_natCast, checkedMulU64] at hshare
    split at hshare
    · cases hshare
      exact Nat.mul_comm _ _
    · cases hshare
  rw [Nat.div_lt_iff_lt_mul trustLevel.denominator_pos, hproduct] at hneeded
  rwa [Nat.mul_comm trustLevel.denominator]

theorem nextHeight_ok {h : SignedHeader} {n : Nat} (hn : nextHeight h = .ok n) :
    n = h.header.height.inner + 1 := by
  simp only [nextHeight, orErr_eq_ok] at hn
  split at hn
  · exact (Option.some.inj hn).symm
  · cases hn

/-- **What `verify` establishes**, for validator sets whose stated total is their total. -/
theorem verify_sound (hhost : host.Exact valid) {trusted untrusted : SignedHeader}
    {trustedVals untrustedVals : ValidatorSet} {period : Duration} {now : Timestamp} {drift : Duration}
    {trustLevel : Fraction}
    (htrusted : totalWeight power trustedVals.validators < 2 ^ 63)
    (htrustedSet : trustedVals.totalVotingPower = totalWeight power trustedVals.validators)
    (huntrusted : totalWeight power untrustedVals.validators < 2 ^ 63)
    (huntrustedSet : untrustedVals.totalVotingPower = totalWeight power untrustedVals.validators)
    (h : verify codec sha256 host trusted trustedVals untrusted untrustedVals period now drift trustLevel
      = .ok ()) :
    Follows codec sha256 untrusted untrustedVals trusted ∧
      (∃ S : Finset Nat,
        (∀ i ∈ S, Signed codec valid trusted.header.chainId untrusted.commit untrustedVals.validators i) ∧
        2 * totalWeight power untrustedVals.validators < 3 * weightAt power untrustedVals.validators S) ∧
      ((untrusted.header.height.inner = trusted.header.height.inner + 1 ∧
          untrusted.header.validatorsHash = trusted.header.nextValidatorsHash) ∨
        ∃ S : Finset Nat,
          (∀ i ∈ S, Signed codec valid trusted.header.chainId untrusted.commit trustedVals.validators i) ∧
          trustLevel.numerator * totalWeight power trustedVals.validators
            < trustLevel.denominator * weightAt power trustedVals.validators S) := by
  simp only [verify, bind_eq_ok] at h
  obtain ⟨next, hnext, h⟩ := h
  split at h
  · simp only [verifyNonAdjacent, bind_eq_ok, ensure_eq_ok] at h
    obtain ⟨_, _, _, _, _, _, _, hfollows, _, htrusting, hlight⟩ := h
    exact ⟨follows_of_verifyNewHeadersAndVals hfollows,
      signed_of_verifyCommitLight hhost huntrusted huntrustedSet hlight,
      .inr (signed_of_verifyCommitLightTrusting hhost htrusted htrustedSet htrusting)⟩
  · simp only [verifyAdjacent, bind_eq_ok, ensure_eq_ok] at h
    obtain ⟨next', hnext', _, hheight, _, _, _, hfollows, _, hhash, hlight⟩ := h
    exact ⟨follows_of_verifyNewHeadersAndVals hfollows,
      signed_of_verifyCommitLight hhost huntrusted huntrustedSet hlight,
      .inl ⟨hheight.trans (nextHeight_ok hnext'), hhash⟩⟩

end Headers

/-! ## The client -/

theorem sumVotingPower_ok {vals : List Validator} :
    ∀ {acc total : Nat}, acc < 2 ^ 63 → sumVotingPower vals acc = .ok total →
      total = acc + totalWeight power vals ∧ total < 2 ^ 63 := by
  induction vals with
  | nil =>
    intro acc total hacc h
    cases h
    exact ⟨rfl, hacc⟩
  | cons val vals ih =>
    intro acc total hacc h
    rw [sumVotingPower] at h
    split at h
    case isTrue hlt =>
      obtain ⟨hsum, hbound⟩ := ih hlt h
      refine ⟨?_, hbound⟩
      rw [hsum, totalWeight, totalWeight, List.map_cons, List.sum_cons, power]
      omega
    case isFalse => cases h

theorem setTotalVotingPower_ok {vals' : ValidatorSet} (h : setTotalVotingPower vals = .ok vals') :
    vals'.validators = vals.validators ∧ vals'.totalVotingPower = totalWeight power vals'.validators ∧
      totalWeight power vals'.validators < 2 ^ 63 := by
  simp only [setTotalVotingPower, bind_eq_ok, pure_eq_ok] at h
  obtain ⟨total, htotal, rfl⟩ := h
  obtain ⟨hsum, hlt⟩ := sumVotingPower_ok (by decide) htotal
  rw [Nat.zero_add] at hsum
  exact ⟨rfl, congrArg Int.ofNat hsum, hsum ▸ hlt⟩

/-- What an accepted header has against the client's state, the stored consensus state at the trusted
    height it names, and the two validator sets it brings. -/
structure Accepted (codec : Codec) (sha256 : Bytes → H256) (valid : PublicKey → Bytes → Bytes → Prop)
    (clientState : ClientState) (consensusState : ConsensusState) (header : Header) : Prop where
  chainId : header.signedHeader.header.chainId = clientState.chainId
  height : header.trustedHeight.height < header.signedHeader.header.height.inner
  time : consensusState.timestamp < header.signedHeader.header.time
  root : header.signedHeader.header.calculateMerkleRoot codec sha256 = header.signedHeader.commit.blockId.hash
  commitHeight : header.signedHeader.commit.height = header.signedHeader.header.height
  validators : validatorsHash codec sha256 header.validatorSet = header.signedHeader.header.validatorsHash
  signed : ∃ S : Finset Nat, (∀ i ∈ S, Signed codec valid clientState.chainId header.signedHeader.commit
      header.validatorSet.validators i) ∧
    2 * totalWeight power header.validatorSet.validators < 3 * weightAt power header.validatorSet.validators S
  trusted : (header.signedHeader.header.height.inner = header.trustedHeight.height + 1 ∧
      header.signedHeader.header.validatorsHash = consensusState.nextValidatorsHash) ∨
    (validatorsHash codec sha256 header.trustedValidators = consensusState.nextValidatorsHash ∧
      ∃ S : Finset Nat, (∀ i ∈ S, Signed codec valid clientState.chainId header.signedHeader.commit
          header.trustedValidators.validators i) ∧
        clientState.trustLevel.numerator * totalWeight power header.trustedValidators.validators
          < clientState.trustLevel.denominator * weightAt power header.trustedValidators.validators S)

theorem validatorsHash_congr {codec : Codec} {sha256 : Bytes → H256} {a b : ValidatorSet}
    (h : a.validators = b.validators) : validatorsHash codec sha256 a = validatorsHash codec sha256 b := by
  rw [validatorsHash, validatorsHash, h]

/-- **Light client soundness**: a header is accepted only with the signatures of two thirds of its own
    validators, and either those are the ones the stored state announced, or enough of the announced
    ones signed as well. -/
theorem accepted_header_signed {codec : Codec} {sha256 : Bytes → H256} {host : HostFns}
    {valid : PublicKey → Bytes → Bytes → Prop} (hhost : host.Exact valid)
    (clientState : ClientState) (consensusState : ConsensusState) (header : Header) (blockTimestamp : UInt64)
    (update : StateUpdate)
    (h : verifyHeader codec sha256 host clientState consensusState header blockTimestamp = .ok update) :
    Accepted codec sha256 valid clientState consensusState header := by
  simp only [verifyHeader, bind_eq_ok, ensure_eq_ok, orErr_eq_ok, mapError_eq_ok] at h
  obtain ⟨vals, hvals, trustedVals, htrusted, _, hcheck, _, _, _, _, _, hheight, height, hconv, _,
    hver, _⟩ := h
  obtain ⟨hsame, hset, hlt⟩ := setTotalVotingPower_ok hvals
  obtain ⟨hsame', hset', hlt'⟩ := setTotalVotingPower_ok htrusted
  obtain ⟨hfollows, hsigned, hcase⟩ := verify_sound hhost hlt' hset' hlt hset hver
  rw [checkTrustedHeader, ensure_eq_ok, validatorsHash_congr hsame'] at hcheck
  rw [hsame] at hsigned
  rw [hsame'] at hcase
  have hconverted : height.inner = header.trustedHeight.height := by
    unfold tendermintHeight at hconv
    split at hconv
    · cases hconv
      rfl
    · cases hconv
  refine ⟨hfollows.chainId, hheight, hfollows.time, hfollows.root, hfollows.commitHeight, ?_, hsigned, ?_⟩
  · rw [← hfollows.validators]
    exact validatorsHash_congr hsame.symm
  · rcases hcase with ⟨hnext, hhash⟩ | hquorum
    · left
      refine ⟨?_, hhash⟩
      rw [hnext, ← hconverted]
      rfl
    · exact .inr ⟨hcheck, hquorum⟩

/-! A header two blocks ahead, signed by both of its validators. -/

namespace Sample

def codec : Codec where
  consensus c := [c.block.toUInt8, c.app.toUInt8]
  stringValue s := utf8 s
  int64Value n := beBytes 8 n
  timestamp t := beBytes 8 t.seconds.toNat
  blockId b := b.hash.getD []
  bytesValue b := b
  simpleValidator v := match v.pubKey with
    | .ed25519 key => key ++ beBytes 8 v.votingPower
    | _ => []
  canonicalVote v := beBytes 8 v.height.inner ++ beBytes 8 v.round.inner ++ v.blockId.hash

/-- A signature is the key followed by the message. -/
def valid : PublicKey → Bytes → Bytes → Bool
  | .ed25519 key, msg, sig => sig == key ++ msg
  | _, _, _ => false

def host : HostFns where
  verifySignature := valid
  verifyBatchSignature keys msgs sigs := (keys.zip (msgs.zip sigs)).all fun s => valid s.1 s.2.1 s.2.2

theorem host_exact : host.Exact fun key msg sig => valid key msg sig = true where
  single _ _ _ := Iff.rfl
  batch c := by
    have hzip : (c.map (·.1)).zip ((c.map (·.2.1)).zip (c.map (·.2.2))) = c := by
      induction c with
      | nil => rfl
      | cons s c ih =>
        simp only [List.map_cons, List.zip_cons_cons]
        rw [ih]
    simp only [host, hzip, List.all_eq_true]

def validator (key : UInt8) (votingPower : BoundedI64) : Validator where
  address := [key]
  pubKey := .ed25519 [key]
  votingPower
  proposerPriority := 0

/-- The submitter states a wrong total. -/
def validatorSet : ValidatorSet where
  validators := [validator 1 (.ofNat 10), validator 2 (.ofNat 5)]
  proposer := validator 1 (.ofNat 10)
  totalVotingPower := 1

def block : BlockHeader where
  version := ⟨11, 0⟩
  chainId := "union-1"
  height := .ofNat 7
  time := .atSecond 1000
  lastBlockId := BlockId.default
  lastCommitHash := []
  dataHash := []
  validatorsHash := validatorsHash codec id validatorSet
  nextValidatorsHash := validatorsHash codec id validatorSet
  consensusHash := []
  appHash := [9]
  lastResultsHash := []
  evidenceHash := []
  proposerAddress := [1]

def blockHash : H256 := (block.calculateMerkleRoot codec id).getD []

def sign (key : UInt8) : CommitSig :=
  .commit [key] (.atSecond 1001) ([key] ++ beBytes 8 7 ++ beBytes 8 0 ++ blockHash)

def header : Header where
  signedHeader := {
    header := block
    commit := {
      height := .ofNat 7
      round := .ofNat 0
      blockId := ⟨some blockHash, ⟨1, some [3]⟩⟩
      signatures := [sign 1, sign 2] } }
  validatorSet
  trustedHeight := .newWithRevision 1 5
  trustedValidators := validatorSet

def clientState : ClientState where
  chainId := "union-1"
  trustLevel := .oneThird
  trustingPeriod := .ofNanos 0
  maxClockDrift := .ofNanos 0
  latestHeight := .newWithRevision 1 5

def consensusState : ConsensusState where
  timestamp := .atSecond 900
  root := [8]
  nextValidatorsHash := validatorsHash codec id validatorSet

/-- The bytes themselves, but for the empty ones. -/
def sha256 (b : Bytes) : Bytes := if b = [] then EMPTY_SHA256 else b

end Sample

open Sample in
/-- Three leaves, and the fourteen of a header. -/
theorem merkle_roots_sample :
    calculateMerkleRootInPlace sha256 [[1], [2], [3]] =
      some (merkleTreeHash sha256 [[1], [2], [3]]) ∧
    block.calculateMerkleRoot codec sha256 =
      some (merkleTreeHash sha256 (block.encodedFields codec)) := by
  obtain ⟨hleaves, hheader⟩ := merkle_roots codec sha256 rfl
  exact ⟨hleaves _, hheader _⟩

open Sample in
theorem accepted_header_signed_two_ahead :
    ∃ update, verifyHeader codec id host clientState consensusState header
        2000000000000 = .ok update ∧
      Accepted codec id (fun key msg sig => valid key msg sig = true) clientState
        consensusState header :=
  ⟨_, rfl, accepted_header_signed host_exact _ _ _ 2000000000000 _ rfl⟩

end UnionVoyager.Light.Tendermint
