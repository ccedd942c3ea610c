import UnionVoyager.Lib.Tally
import UnionVoyager.Light.Gno

/-!
# What the gno client ties down, and what it does not

Two thirds of the validators a header brings have signed its commit.  But no check compares the
header with the block the commit is for, and none compares the trusted validators it brings with the
stored hash.

* `twoThirds_of_verifyCommit` — what `validator_set_verify_commit` establishes.
* `trusting_of_verifyLightCommit` — what `verify_light_commit` establishes of the validators it is given.
* `Call.verifyCommit_meets_iff` — which valid commits are accepted, and when the verifier panics.
-/

namespace UnionVoyager.Light.Gno

open Lib List

def power (val : Validator) : Nat := val.votingPower.inner

/-- The validator at this position has, in the commit, a valid signature of a precommit for its height,
    its round and its block. -/
def Signed (codec : Codec) (valid : PublicKey → Bytes → Bytes → Prop) (chainId : String)
    (commit : Commit) (vals : List Validator) (position : Nat) : Prop :=
  ∃ val idx precommit, vals[position]? = some val ∧ commit.precommits[idx]? = some (some precommit) ∧
    precommit.blockId = commit.blockId ∧
      valid val.pubKey ((commit.getVote idx precommit).signBytes codec chainId) precommit.signature

section Tally

variable {codec : Codec} {verifySignature : PublicKey → Bytes → Bytes → Bool}
  {valid : PublicKey → Bytes → Bytes → Prop} {chainId : String} {vals : ValidatorSet} {commit : Commit}

/-- What has been counted: the positions `S`, all signed, and their power. -/
structure Counts (codec : Codec) (valid : PublicKey → Bytes → Bytes → Prop) (chainId : String)
    (vals : ValidatorSet) (commit : Commit) (S : Finset Nat) (tallied : Int) : Prop where
  tallied : tallied = wrapI64 (weightAt power vals.validators S)
  signed : ∀ i ∈ S, Signed codec valid chainId commit vals.validators i

theorem Counts.start : Counts codec valid chainId vals commit ∅ 0 := ⟨by simp [wrapI64], by simp⟩

/-- **One more precommit** counts its position, or nothing if it is for another block. -/
theorem Counts.count (hverify : ∀ key msg sig, verifySignature key msg sig = true ↔ valid key msg sig)
    {S : Finset Nat} {tallied tallied' : Int} (hc : Counts codec valid chainId vals commit S tallied)
    {j idx : Nat} {val : Validator} {precommit : Vote} (hj : j ∉ S) (hval : vals.validators[j]? = some val)
    (hidx : commit.precommits[idx]? = some (some precommit))
    (h : countPrecommit codec verifySignature chainId commit.blockId commit idx precommit val tallied
      = .ok tallied') :
    ∃ S' : Finset Nat, S' ⊆ insert j S ∧ Counts codec valid chainId vals commit S' tallied' := by
  simp only [countPrecommit, bind_eq_ok, ensure_eq_ok, pure_eq_ok] at h
  obtain ⟨_, hsig, rfl⟩ := h
  split
  case isTrue hblock =>
    refine ⟨insert j S, Finset.Subset.refl _, ?_, ?_⟩
    · rw [weightAt_insert hj hval, hc.tallied, wrapI64, wrapI64, wrapI64, Int.bmod_add_bmod, Int.natCast_add]
      rfl
    · intro i hi
      rcases Finset.mem_insert.mp hi with rfl | hi
      · exact ⟨val, idx, precommit, hval, hidx, hblock.symm, (hverify _ _ _).mp hsig⟩
      · exact hc.signed i hi
  case isFalse => exact ⟨S, Finset.subset_insert j S, hc⟩

def From (commit : Commit) (idx : Nat) (rest : List (Option Vote)) : Prop :=
    ∀ k, rest[k]? = commit.precommits[idx + k]?

theorem From.head {idx : Nat} {p : Option Vote} {rest : List (Option Vote)}
    (h : From commit idx (p :: rest)) : commit.precommits[idx]? = some p := (h 0).symm

theorem From.tail {idx : Nat} {p : Option Vote} {rest : List (Option Vote)}
    (h : From commit idx (p :: rest)) : From commit (idx + 1) rest := by
  intro k
  have := h (k + 1)
  rwa [getElem?_cons_succ, show idx + (k + 1) = idx + 1 + k by omega] at this

theorem from_start : From commit 0 commit.precommits := by
  intro k
  rw [Nat.zero_add]

theorem counts_of_tallyByIndex
    (hverify : ∀ key msg sig, verifySignature key msg sig = true ↔ valid key msg sig)
    (rest : List (Option Vote)) {final : Int} :
    ∀ {idx : Nat} {S : Finset Nat} {tallied : Int}, From commit idx rest → (∀ i ∈ S, i < idx) →
      Counts codec valid chainId vals commit S tallied →
      tallyByIndex codec verifySignature vals chainId commit.blockId commit idx rest tallied = .ok final →
      ∃ S', Counts codec valid chainId vals commit S' final := by
  induction rest with
  | nil =>
    intro idx S tallied _ _ hc h
    cases h
    exact ⟨S, hc⟩
  | cons p rest ih =>
    intro idx S tallied hfrom hlt hc h
    cases p with
    | none => exact ih hfrom.tail (fun i hi => Nat.lt_succ_of_lt (hlt i hi)) hc h
    | some precommit =>
      simp only [tallyByIndex, bind_eq_ok, orErr_eq_ok] at h
      obtain ⟨val, hval, tallied', hcount, h⟩ := h
      obtain ⟨S', hsub, hc'⟩ :=
        hc.count hverify (fun hi => absurd (hlt idx hi) (Nat.lt_irrefl idx)) hval hfrom.head hcount
      refine ih hfrom.tail ?_ hc' h
      intro i hi
      rcases Finset.mem_insert.mp (hsub hi) with rfl | hi
      · exact Nat.lt_succ_self _
      · exact Nat.lt_succ_of_lt (hlt i hi)

theorem counts_of_tallyByAddress
    (hverify : ∀ key msg sig, verifySignature key msg sig = true ↔ valid key msg sig)
    (rest : List (Option Vote)) {final : Int} :
    ∀ {idx : Nat} {S : Finset Nat} {seen : List Nat} {tallied : Int}, From commit idx rest →
      (∀ i ∈ S, i ∈ seen) → Counts codec valid chainId vals commit S tallied →
      tallyByAddress codec verifySignature vals chainId commit.blockId commit idx rest seen
        tallied = .ok final →
      ∃ S', Counts codec valid chainId vals commit S' final := by
  induction rest with
  | nil =>
    intro idx S seen tallied _ _ hc h
    cases h
    exact ⟨S, hc⟩
  | cons p rest ih =>
    intro idx S seen tallied hfrom hseen hc h
    cases p with
    | none => exact ih hfrom.tail hseen hc h
    | some precommit =>
      rw [tallyByAddress] at h
      split at h
      · exact ih hfrom.tail hseen hc h
      · rename_i _ j val hfound
        split at h
        case isTrue => exact ih hfrom.tail hseen hc h
        case isFalse hnew =>
          rw [bind_eq_ok] at h
          obtain ⟨tallied', hcount, h⟩ := h
          simp only [ValidatorSet.getByAddress, Option.map_eq_some_iff, Prod.mk.injEq] at hfound
          obtain ⟨_, hval, rfl, rfl⟩ := hfound
          obtain ⟨S', hsub, hc'⟩ := hc.count hverify (fun hi => hnew (hseen _ hi)) hval hfrom.head hcount
          refine ih hfrom.tail ?_ hc' h
          intro i hi
          rcases Finset.mem_insert.mp (hsub hi) with rfl | hi
          · exact mem_cons_self
          · exact mem_cons_of_mem _ (hseen i hi)

/-! ## Thresholds -/

theorem saturatingSum_eq (vals : List Validator) :
    ∀ acc : Int, saturatingSum vals (min acc I64_MAX) = min (acc + totalWeight power vals) I64_MAX := by
  induction vals with
  | nil =>
    intro acc
    simp [saturatingSum, totalWeight]
  | cons val vals ih =>
    intro acc
    have hstep : min (min acc I64_MAX + (val.votingPower.inner : Int)) I64_MAX
        = min (acc + val.votingPower.inner) I64_MAX := by
      omega
    have hsum : totalWeight power (val :: vals) = val.votingPower.inner + totalWeight power vals := by
      simp only [totalWeight, map_cons, sum_cons]
      rfl
    rw [saturatingSum, hstep, ih, hsum, Int.natCast_add, Int.add_assoc]

theorem totalVotingPower_eq : vals.totalVotingPower =
    if (totalWeight power vals.validators : Int) ≤ MAX_TOTAL_VOTING_POWER then
      .ok (totalWeight power vals.validators : Int)
    else .error (.panic "Total voting power should be guarded to not exceed the maximum") := by
  have hsum := saturatingSum_eq vals.validators 0
  rw [show min (0 : Int) I64_MAX = 0 from rfl, Int.zero_add] at hsum
  have hcap : MAX_TOTAL_VOTING_POWER < I64_MAX := by decide
  unfold ValidatorSet.totalVotingPower ensure
  rw [hsum]
  split_ifs with hle
  · rw [min_eq_left (by omega)]
    simp only [if_pos hle]
    rfl
  · simp only [if_neg (show ¬ min (totalWeight power vals.validators : Int) I64_MAX ≤ MAX_TOTAL_VOTING_POWER
      by omega)]
    rfl

theorem totalVotingPower_ok {total : Int} (h : vals.totalVotingPower = .ok total) :
    total = totalWeight power vals.validators ∧ totalWeight power vals.validators < 2 ^ 62 := by
  rw [totalVotingPower_eq] at h
  split_ifs at h with hle
  cases h
  simp only [MAX_TOTAL_VOTING_POWER, I64_MAX] at hle
  exact ⟨rfl, by omega⟩

theorem Counts.exact {S : Finset Nat} {tallied : Int} (hc : Counts codec valid chainId vals commit S tallied)
    (hlt : totalWeight power vals.validators < 2 ^ 62) : tallied = weightAt power vals.validators S := by
  have hle : weightAt power vals.validators S ≤ totalWeight power vals.validators := weightAt_le S
  rw [hc.tallied, wrapI64]
  exact Int.bmod_eq_of_le (by omega) (by omega)

theorem twoThirds_of_verifyCommit
    (hverify : ∀ key msg sig, verifySignature key msg sig = true ↔ valid key msg sig) {height : BoundedI64}
    (h : validatorSetVerifyCommit codec verifySignature vals chainId commit.blockId height commit = .ok ()) :
    ∃ S : Finset Nat, (∀ i ∈ S, Signed codec valid chainId commit vals.validators i) ∧
      2 * totalWeight power vals.validators < 3 * weightAt power vals.validators S := by
  simp only [validatorSetVerifyCommit, bind_eq_ok, ensure_eq_ok] at h
  obtain ⟨_, _, _, _, _, _, tallied, htally, total, htotal, hneeded⟩ := h
  obtain ⟨S, hc⟩ := counts_of_tallyByIndex hverify _ from_start (by simp) .start htally
  obtain ⟨rfl, hlt⟩ := totalVotingPower_ok htotal
  refine ⟨S, hc.signed, ?_⟩
  rw [hc.exact hlt, Int.tdiv_eq_ediv_of_nonneg (by omega)] at hneeded
  omega

theorem trusting_of_verifyLightCommit
    (hverify : ∀ key msg sig, verifySignature key msg sig = true ↔ valid key msg sig) {height : BoundedI64}
    {trustLevel : Fraction} (hnum : trustLevel.numerator < 2 ^ 63) (hden : trustLevel.denominator < 2 ^ 63)
    (h : verifyLightCommit codec verifySignature vals chainId commit.blockId height commit
      trustLevel = .ok ()) :
    ∃ S : Finset Nat, (∀ i ∈ S, Signed codec valid chainId commit vals.validators i) ∧
      trustLevel.numerator * totalWeight power vals.validators
        < trustLevel.denominator * weightAt power vals.validators S := by
  simp only [verifyLightCommit, bind_eq_ok, ensure_eq_ok, orErr_eq_ok] at h
  obtain ⟨_, _, _, _, tallied, htally, total, htotal, share, hshare, _, _, hneeded⟩ := h
  obtain ⟨S, hc⟩ := counts_of_tallyByAddress hverify _ from_start (by simp) .start htally
  obtain ⟨rfl, hlt⟩ := totalVotingPower_ok htotal
  refine ⟨S, hc.signed, ?_⟩
  have hcast : ∀ n : Nat, n < 2 ^ 63 → castI64 n = n := by
    intro n hn
    rw [castI64, wrapI64]
    exact Int.bmod_eq_of_le (by omega) (by omega)
  rw [hcast _ hnum, checkedMulI64] at hshare
  split at hshare
  case isFalse => cases hshare
  case isTrue =>
    cases hshare
    have hpos : (0 : Int) < trustLevel.denominator := by
      have := trustLevel.denominator_pos
      omega
    have hdiv : ((totalWeight power vals.validators : Int) * trustLevel.numerator) / trustLevel.denominator
        < weightAt power vals.validators S := by
      rw [hc.exact hlt, hcast _ hden, Int.tdiv_eq_ediv_of_nonneg] at hneeded
      · exact hneeded
      · exact Int.mul_nonneg (Int.natCast_nonneg _) (Int.natCast_nonneg _)
    have hmul := (Int.ediv_lt_iff_lt_mul hpos).mp hdiv
    rw [Nat.mul_comm, Nat.mul_comm trustLevel.denominator]
    exact_mod_cast hmul

end Tally

/-! ## Which commits are accepted -/

/-- The arguments of `validator_set_verify_commit`. -/
structure Call where
  codec : Codec
  verifySignature : PublicKey → Bytes → Bytes → Bool
  vals : ValidatorSet
  chainId : String
  blockId : BlockId
  height : BoundedI64
  commit : Commit

namespace Call

variable (x : Call)

def verify : Except CommitError Unit :=
  validatorSetVerifyCommit x.codec x.verifySignature x.vals x.chainId x.blockId x.height x.commit

/-- The validator at this position has signed the vote. -/
def Signs (i : Nat) (v : Vote) : Prop := ∃ val, x.vals.validators[i]? = some val ∧
  x.verifySignature val.pubKey (v.signBytes x.codec x.chainId) v.signature = true

/-- The positions before `n` with a precommit for the block of the commit. -/
def forBlock (n : Nat) : Finset Nat :=
  (Finset.range n).filter fun i => (x.commit.precommits[i]?).join.map Vote.blockId = some x.commit.blockId

def weight (n : Nat) : Nat := weightAt power x.vals.validators (x.forBlock n)

/-- A commit of the set for a block of this height: the precommits that are there are of one round
    and signed, and more than two thirds of the power is for the block. -/
structure Valid : Prop where
  block : x.blockId = x.commit.blockId ∧ x.commit.blockId.isZero = false
  length : x.vals.validators.length = x.commit.precommits.length
  same : ∃ round, ∀ v, some v ∈ x.commit.precommits → v.ty = .precommit ∧ v.height = x.height ∧
    v.round = round
  signed : ∀ i v, x.commit.precommits[i]? = some (some v) → x.Signs i v
  twoThirds : 2 * totalWeight power x.vals.validators < 3 * x.weight x.commit.precommits.length

/-- From a position on, the votes that `get_vote` makes of the precommits are signed. -/
def SignedFrom (idx : Nat) : Prop :=
  ∀ i v, idx ≤ i → x.commit.precommits[i]? = some (some v) → x.Signs i (x.commit.getVote i v)

/-- The checks before the powers are summed up. -/
structure Checked : Prop where
  basic : x.commit.validateBasic = .ok ()
  length : x.vals.validators.length = x.commit.precommits.length
  height : x.height = x.commit.height
  block : x.blockId = x.commit.blockId
  signed : x.SignedFrom 0

/-- A valid commit is accepted, and no commit makes the verifier panic. -/
def Meets : Prop := (x.Valid → x.verify = .ok ()) ∧ ∀ message, x.verify ≠ .error (.panic message)

def counted (n : Nat) : Int := wrapI64 (x.weight n)

def tally (idx : Nat) (rest : List (Option Vote)) (tallied : Int) : Except CommitError Int :=
  tallyByIndex x.codec x.verifySignature x.vals x.chainId x.commit.blockId x.commit idx rest tallied

variable {x}

theorem validatePrecommits_eq_ok {height : BoundedI64} {round : Round} {ps : List (Option Vote)} :
    validatePrecommits height round ps = .ok () ↔
      ∀ v, some v ∈ ps → v.ty = .precommit ∧ v.height = height ∧ v.round = round := by
  induction ps with
  | nil => simp [validatePrecommits]
  | cons p ps ih => cases p <;> simp [validatePrecommits, bind_eq_ok, ih, and_assoc]

theorem validateBasic_eq_ok (hblock : x.commit.blockId.isZero = false) {v : Vote}
    (hv : some v ∈ x.commit.precommits) :
    x.commit.validateBasic = .ok () ↔ ∀ v, some v ∈ x.commit.precommits →
      v.ty = .precommit ∧ v.height = x.commit.height ∧ v.round = x.commit.round := by
  have hne : ¬ x.commit.precommits.isEmpty := by
    rw [List.isEmpty_iff]
    exact ne_nil_of_mem hv
  rw [Commit.validateBasic, if_neg fun h => hne h.2,
    if_neg (by rw [hblock]; exact Bool.false_ne_true), if_neg hne]
  exact validatePrecommits_eq_ok

theorem getVote_signed {i : Nat} {v : Vote}
    (hv : v.ty = .precommit ∧ v.height = x.commit.height ∧ v.round = x.commit.round)
    (h : x.Signs i v) : x.Signs i (x.commit.getVote i v) := by
  obtain ⟨val, hval, hsig⟩ := h
  refine ⟨val, hval, ?_⟩
  rw [Vote.signBytes, canonicalizeVote, hv.1, hv.2.1, hv.2.2] at hsig
  exact hsig

theorem weight_succ {idx : Nat} {p : Option Vote} {val : Validator} (hp : x.commit.precommits[idx]? = some p)
    (hval : x.vals.validators[idx]? = some val) : x.weight (idx + 1) =
      x.weight idx + if p.map Vote.blockId = some x.commit.blockId then power val else 0 := by
  unfold weight forBlock
  rw [Finset.range_add_one, Finset.filter_insert, hp, Option.join_some]
  split_ifs
  · exact weightAt_insert (by simp) hval
  · rfl

/-- **The loop** counts the precommits for the block, or stops at the first signature that is not valid. -/
theorem tally_cases (hlen : x.vals.validators.length = x.commit.precommits.length)
    (rest : List (Option Vote)) :
    ∀ {idx : Nat}, From x.commit idx rest → idx + rest.length = x.commit.precommits.length →
      (x.SignedFrom idx ∧ x.tally idx rest (x.counted idx) = .ok (x.counted x.commit.precommits.length)) ∨
      ¬ x.SignedFrom idx ∧ ∃ v, x.tally idx rest (x.counted idx) = .error (.invalidSignature v) := by
  induction rest with
  | nil =>
    intro idx hfrom hidx
    obtain rfl : idx = x.commit.precommits.length := hidx
    refine .inl ⟨?_, rfl⟩
    intro i v hi hv
    have := (List.getElem?_eq_some_iff.mp hv).1
    omega
  | cons p rest ih =>
    intro idx hfrom hidx
    rw [length_cons] at hidx
    have hval := getElem?_eq_getElem (show idx < x.vals.validators.length by omega)
    have hsplit : x.SignedFrom idx ↔
        (∀ v, p = some v → x.Signs idx (x.commit.getVote idx v)) ∧ x.SignedFrom (idx + 1) := by
      constructor
      · intro h
        exact ⟨fun v hv => h idx v (Nat.le_refl idx) (hv ▸ hfrom.head), fun i v hi =>
          h i v (Nat.le_of_succ_le hi)⟩
      · rintro ⟨hhead, htail⟩ i v hi hv
        rcases Nat.eq_or_lt_of_le hi with rfl | hi
        · exact hhead v (Option.some.inj (hfrom.head.symm.trans hv))
        · exact htail i v hi hv
    have hnext := weight_succ hfrom.head hval
    cases p with
    | none =>
      have hsame : x.counted (idx + 1) = x.counted idx := congrArg (fun n : Nat => wrapI64 n) hnext
      rw [hsplit, and_iff_right (fun _ h => by cases h), ← hsame]
      exact ih hfrom.tail (by omega)
    | some v =>
      unfold tally
      rw [tallyByIndex, hval, orErr, ok_bind, countPrecommit]
      by_cases hsig : x.verifySignature x.vals.validators[idx].pubKey
          ((x.commit.getVote idx v).signBytes x.codec x.chainId) v.signature = true
      · have hstep : (if x.commit.blockId = v.blockId then
            wrapI64 (x.counted idx + x.vals.validators[idx].votingPower.inner) else x.counted idx) =
              x.counted (idx + 1) := by
          unfold counted
          rw [hnext, Option.map_some]
          by_cases hblock : v.blockId = x.commit.blockId
          · rw [if_pos hblock.symm, if_pos (congrArg some hblock), wrapI64, wrapI64, wrapI64,
              Int.bmod_add_bmod, Int.natCast_add]
            rfl
          · rw [if_neg (Ne.symm hblock), if_neg fun h => hblock (Option.some.inj h), Nat.add_zero]
        have hhead : ∀ w, some v = some w → x.Signs idx (x.commit.getVote idx w) := by
          rintro w ⟨⟩
          exact ⟨_, hval, hsig⟩
        rw [ensure, if_pos hsig, ok_bind, hstep, pure_bind, hsplit, and_iff_right hhead]
        exact ih hfrom.tail (by omega)
      · rw [ensure, if_neg hsig]
        refine .inr ⟨fun h => ?_, v, rfl⟩
        obtain ⟨val, hval', hok⟩ := (hsplit.mp h).1 v rfl
        rw [← Option.some.inj (hval.symm.trans hval')] at hok
        exact hsig hok

/-- Its precommits have the height and the round the verifier takes from the first entry. -/
theorem Valid.checked (h : x.Valid) (hfirst : x.commit.precommits.head? = some none →
      ∀ v, some v ∈ x.commit.precommits → v.height = .ofNat 0 ∧ v.round = .ZERO) : x.Checked := by
  obtain ⟨round, hsame⟩ := h.same
  obtain ⟨v₀, hv₀⟩ : ∃ v, some v ∈ x.commit.precommits := by
    obtain ⟨i, hi⟩ : (x.forBlock x.commit.precommits.length).Nonempty := by
      rw [Finset.nonempty_iff_ne_empty]
      intro hempty
      have := h.twoThirds
      rw [weight, hempty, weightAt_empty] at this
      omega
    obtain ⟨v, hv, -⟩ := Option.map_eq_some_iff.mp (Finset.mem_filter.mp hi).2
    exact ⟨v, mem_of_getElem? (Option.join_eq_some_iff.mp hv)⟩
  obtain ⟨hheight, hround⟩ : x.commit.height = x.height ∧ x.commit.round = round := by
    unfold Commit.height Commit.round
    rcases hps : x.commit.precommits with _ | ⟨_ | v, ps⟩
    · rw [hps] at hv₀
      cases hv₀
    · obtain ⟨hzero, hzero'⟩ := hfirst (by rw [hps]; rfl) v₀ hv₀
      obtain ⟨-, hh, hr⟩ := hsame v₀ hv₀
      exact ⟨hzero.symm.trans hh, hzero'.symm.trans hr⟩
    · exact (hsame v (by rw [hps]; exact mem_cons_self)).2
  have hall := hsame
  rw [← hheight, ← hround] at hall
  refine ⟨(validateBasic_eq_ok h.block.2 hv₀).mpr hall, h.length, hheight.symm, h.block.1, ?_⟩
  intro i v _ hv
  exact getVote_signed (hall v (mem_of_getElem? hv)) (h.signed i v hv)

theorem start : x.tally 0 x.commit.precommits (x.counted 0) =
    tallyByIndex x.codec x.verifySignature x.vals x.chainId x.commit.blockId x.commit 0
      x.commit.precommits 0 := by
  rw [tally, counted, weight, show x.forBlock 0 = ∅ from rfl, weightAt_empty]
  rfl

theorem verify_of_checked (h : x.Checked) : x.verify = (do
      let total ← x.vals.totalVotingPower
      ensure ((total * 2).tdiv 3 < x.counted x.commit.precommits.length)
        (.tooMuchChange (x.counted x.commit.precommits.length) ((total * 2).tdiv 3 + 1))) := by
  unfold verify validatorSetVerifyCommit checkCommit
  rcases tally_cases h.length _ from_start (Nat.zero_add _) with ⟨-, htally⟩ | ⟨hnot, -⟩
  · rw [start] at htally
    rw [h.basic, ensure, if_pos h.length, ensure, if_pos h.height, ensure, if_pos h.block, h.block]
    simp only [Except.mapError, ok_bind]
    rw [htally, ok_bind]
  · exact absurd h.signed hnot

theorem verify_of_not_checked (h : ¬ x.Checked) : ∃ e, x.verify = .error e ∧
      ∀ message, e ≠ .panic message := by
  unfold verify validatorSetVerifyCommit checkCommit
  cases hbasic : x.commit.validateBasic with
  | error e => exact ⟨.commitValidateBasic e, rfl, fun _ h => by cases h⟩
  | ok u =>
    unfold ensure
    by_cases hlen : x.vals.validators.length = x.commit.precommits.length
    · rw [if_pos hlen]
      by_cases hheight : x.height = x.commit.height
      · rw [if_pos hheight]
        by_cases hblock : x.blockId = x.commit.blockId
        · rcases tally_cases hlen _ from_start (Nat.zero_add _) with ⟨hsigned, -⟩ | ⟨-, v, htally⟩
          · exact absurd ⟨hbasic, hlen, hheight, hblock, hsigned⟩ h
          · rw [start] at htally
            refine ⟨.invalidSignature v, ?_, fun _ h => by cases h⟩
            rw [if_pos hblock, hblock]
            simp only [Except.mapError, ok_bind]
            rw [htally]
            rfl
        · rw [if_neg hblock]
          exact ⟨.invalidBlockId x.blockId x.commit.blockId, rfl, fun _ h => by cases h⟩
      · rw [if_neg hheight]
        exact ⟨.invalidCommitHeight x.height x.commit.height, rfl, fun _ h => by cases h⟩
    · rw [if_neg hlen]
      exact ⟨.invalidCommitPrecommits x.vals.validators.length x.commit.precommits.length, rfl,
        fun _ h => by cases h⟩

/-- **The verifier accepts every valid commit and never panics** exactly where a valid commit
    without its first entry is of height and round zero, and the power of a set whose commit passes
    the checks stays within the limit. -/
theorem verifyCommit_meets_iff : x.Meets ↔
    (x.Valid → x.commit.precommits.head? = some none →
      ∀ v, some v ∈ x.commit.precommits → v.height = .ofNat 0 ∧ v.round = .ZERO) ∧
    (x.Checked → (totalWeight power x.vals.validators : Int) ≤ MAX_TOTAL_VOTING_POWER) := by
  constructor
  · rintro ⟨haccepts, hnopanic⟩
    constructor
    · intro hvalid hfirst v hv
      have hchecked : x.Checked := by
        by_contra hnot
        obtain ⟨e, he, -⟩ := verify_of_not_checked hnot
        rw [haccepts hvalid] at he
        cases he
      obtain ⟨-, hread⟩ := (validateBasic_eq_ok hvalid.block.2 hv).mp hchecked.basic v hv
      unfold Commit.height Commit.round at hread
      rcases hps : x.commit.precommits with _ | ⟨_ | w, ps⟩
      · rw [hps] at hfirst
        cases hfirst
      · rwa [hps] at hread
      · rw [hps] at hfirst
        cases hfirst
    · intro hchecked
      by_contra hgt
      apply hnopanic "Total voting power should be guarded to not exceed the maximum"
      rw [verify_of_checked hchecked, totalVotingPower_eq, if_neg hgt]
      rfl
  · rintro ⟨hfirst, htotal⟩
    constructor
    · intro hvalid
      have hchecked := hvalid.checked (hfirst hvalid)
      have hle := htotal hchecked
      have htwo := hvalid.twoThirds
      have hweight : x.weight x.commit.precommits.length ≤ totalWeight power x.vals.validators :=
        weightAt_le _
      rw [verify_of_checked hchecked, totalVotingPower_eq, if_pos hle, ok_bind, ensure_eq_ok,
        Int.tdiv_eq_ediv_of_nonneg (by omega), counted, wrapI64]
      simp only [MAX_TOTAL_VOTING_POWER, I64_MAX] at hle
      rw [Int.bmod_eq_of_le (by omega) (by omega)]
      omega
    · intro message
      by_cases hchecked : x.Checked
      · rw [verify_of_checked hchecked, totalVotingPower_eq, if_pos (htotal hchecked), ok_bind]
        unfold ensure
        split_ifs <;> exact fun h => by cases h
      · obtain ⟨e, he, hne⟩ := verify_of_not_checked hchecked
        rw [he]
        exact fun h => hne message (Except.error.inj h)

end Call

/-! ## The client -/

/-- More than two thirds of the power of the validators given, which hash to the one in the header,
    have signed the commit. -/
def TwoThirdsSigned (codec : Codec) (sha256 : Bytes → H256) (valid : PublicKey → Bytes → Bytes → Prop)
    (clientState : ClientState) (header : Header) : Prop :=
  validatorsHash codec sha256 header.validatorSet = .ok header.signedHeader.header.validatorsHash ∧
    ∃ S : Finset Nat, (∀ i ∈ S, Signed codec valid clientState.chainId header.signedHeader.commit
        header.validatorSet.validators i) ∧
      2 * totalWeight power header.validatorSet.validators < 3 *
        weightAt power header.validatorSet.validators S

/-- More than the trust level of the trusted validators given have signed the commit. -/
def TrustingSigned (codec : Codec) (valid : PublicKey → Bytes → Bytes → Prop)
    (clientState : ClientState) (header : Header) : Prop :=
  ∃ S : Finset Nat, (∀ i ∈ S, Signed codec valid clientState.chainId header.signedHeader.commit
      header.trustedValidators.validators i) ∧
    clientState.trustLevel.numerator * totalWeight power header.trustedValidators.validators
      < clientState.trustLevel.denominator * weightAt power header.trustedValidators.validators S

def Adjacent (header : Header) : Prop := header.signedHeader.header.height.inner =
      header.trustedHeight.height + 1

/-- What acceptance of a header is meant to give. -/
structure Sound (codec : Codec) (sha256 : Bytes → H256) (verifySignature : PublicKey → Bytes → Bytes → Bool)
    (valid : PublicKey → Bytes → Bytes → Prop) (clientState : ClientState) (consensusState : ConsensusState)
    (header : Header) (now : UInt64) (update : StateUpdate) : Prop where
  trusted : ¬ Adjacent header →
    validatorsHash codec sha256 header.trustedValidators = .ok consensusState.nextValidatorsHash ∧
      TrustingSigned codec valid clientState header
  signed : TwoThirdsSigned codec sha256 valid clientState header
  determined : ∀ header' update', header'.signedHeader.commit = header.signedHeader.commit →
    verifyHeader codec sha256 verifySignature clientState consensusState header' now = .ok update' →
    update'.consensusState = update.consensusState

section Client

variable {codec : Codec} {sha256 : Bytes → H256} {verifySignature : PublicKey → Bytes → Bytes → Bool}
  {valid : PublicKey → Bytes → Bytes → Prop} {clientState : ClientState} {consensusState : ConsensusState}
  {header : Header} {now : UInt64} {update : StateUpdate}

theorem nextHeight_ok {h : SignedHeader} {n : Nat} (hn : nextHeight h = .ok n) :
    n = h.header.height.inner + 1 := by
  simp only [nextHeight, orErr_eq_ok] at hn
  split at hn
  · exact (Option.some.inj hn).symm
  · cases hn

theorem validatorsHash_of_verifyNewHeadersAndVals {untrusted trusted : SignedHeader}
    {vals : ValidatorSet} {time : Timestamp} {drift : Duration}
    (h : verifyNewHeadersAndVals codec sha256 untrusted vals trusted time drift = .ok ()) :
    validatorsHash codec sha256 vals = .ok untrusted.header.validatorsHash := by
  simp only [verifyNewHeadersAndVals, bind_eq_ok, ensure_eq_ok, orErr_eq_ok] at h
  obtain ⟨_, _, _, _, _, _, _, _, hash, hhash, rfl⟩ := h
  exact hhash

theorem signed_of_verifyHeader
    (hverify : ∀ key msg sig, verifySignature key msg sig = true ↔ valid key msg sig)
    (h : verifyHeader codec sha256 verifySignature clientState consensusState header now = .ok update) :
    TwoThirdsSigned codec sha256 valid clientState header ∧
      (Adjacent header ∧ header.signedHeader.header.validatorsHash = consensusState.nextValidatorsHash ∨
        (clientState.trustLevel.numerator < 2 ^ 63 → clientState.trustLevel.denominator < 2 ^ 63 →
          TrustingSigned codec valid clientState header)) := by
  simp only [verifyHeader, bind_eq_ok, orErr_eq_ok, mapError_eq_ok] at h
  obtain ⟨height, hconv, time, _, _, hver, _⟩ := h
  have hconverted : height.inner = header.trustedHeight.height := by
    unfold gnoHeight at hconv
    split at hconv
    · cases hconv
      rfl
    · cases hconv
  simp only [verify, bind_eq_ok] at hver
  obtain ⟨next, hnext, hver⟩ := hver
  split at hver
  · simp only [verifyNonAdjacent, bind_eq_ok, ensure_eq_ok, mapError_eq_ok] at hver
    obtain ⟨_, _, _, _, _, _, _, hnew, _, hlight, hcommit⟩ := hver
    exact ⟨⟨validatorsHash_of_verifyNewHeadersAndVals hnew, twoThirds_of_verifyCommit hverify hcommit⟩,
      .inr fun hnum hden => trusting_of_verifyLightCommit hverify hnum hden hlight⟩
  · simp only [verifyAdjacent, bind_eq_ok, ensure_eq_ok, mapError_eq_ok] at hver
    obtain ⟨next', hnext', _, hheight, _, _, _, hnew, _, hhash, hcommit⟩ := hver
    refine ⟨⟨validatorsHash_of_verifyNewHeadersAndVals hnew, twoThirds_of_verifyCommit hverify hcommit⟩,
      .inl ⟨?_, hhash⟩⟩
    rw [Adjacent, hheight, nextHeight_ok hnext', ← hconverted]
    rfl

/-- The same header with another application hash. -/
def reroot (header : Header) (root : H256) : Header :=
  { header with
    signedHeader := {
      header.signedHeader with header := { header.signedHeader.header with appHash := some root } } }

theorem verifyHeader_reroot (root : H256)
    (h : verifyHeader codec sha256 verifySignature clientState consensusState header now = .ok update) :
    verifyHeader codec sha256 verifySignature clientState consensusState (reroot header root) now
      = .ok { update with consensusState := { update.consensusState with root } } := by
  simp only [verifyHeader, bind_eq_ok, orErr_eq_ok, mapError_eq_ok, pure_eq_ok] at h ⊢
  obtain ⟨height, hconv, time, htime, _, hver, _, _, rfl⟩ := h
  exact ⟨height, hconv, time, htime, (), hver, root, rfl, rfl⟩

/-- A 32-byte word other than this one. -/
def otherRoot (root : H256) : H256 := if root = zeroHash then replicate 32 1 else zeroHash

theorem otherRoot_ne (root : H256) : otherRoot root ≠ root := by
  unfold otherRoot
  split
  case isTrue h =>
    rw [h]
    decide
  case isFalse h => exact fun h' => h h'.symm

/-- **No accepted header is bound by its commit**: two thirds of its validators signed the commit, and
    yet another accepted header with the same commit writes another consensus state. -/
theorem accepted_header_unbound
    (hverify : ∀ key msg sig, verifySignature key msg sig = true ↔ valid key msg sig)
    (h : verifyHeader codec sha256 verifySignature clientState consensusState header now = .ok update) :
    TwoThirdsSigned codec sha256 valid clientState header ∧
      ¬ Sound codec sha256 verifySignature valid clientState consensusState header now update := by
  refine ⟨(signed_of_verifyHeader hverify h).1, ?_⟩
  intro hsound
  have hother := hsound.determined (reroot header (otherRoot update.consensusState.root)) _ rfl
    (verifyHeader_reroot (otherRoot update.consensusState.root) h)
  exact otherRoot_ne _ (congrArg ConsensusState.root hother)

end Client

/-! A header by one made-up validator, two blocks ahead, against a stored hash of other validators. -/

namespace Sample

def codec : Codec where
  validator url key votingPower := utf8 url ++ key ++ beBytes 8 votingPower
  canonicalVote v := beBytes 8 v.height.inner ++ ((v.blockId.map (·.hash)).getD [])

/-- A signature is the key followed by the message. -/
def verifySignature : PublicKey → Bytes → Bytes → Bool
  | .ed25519 key, msg, sig => sig == key ++ msg
  | _, _, _ => false

def madeUp : Validator where
  address := ⟨"g", [7]⟩
  pubKey := .ed25519 [7]
  votingPower := .ofNat 1
  proposerPriority := 0

def validatorSet : ValidatorSet := ⟨[madeUp], madeUp⟩

def blockId : BlockId := ⟨some (replicate 32 5), ⟨1, some (replicate 32 6)⟩⟩

def commit : Commit where
  blockId
  precommits := [some {
    ty := .precommit
    height := .ofNat 7
    round := .ZERO
    blockId
    timestamp := .atSecond 1001
    validatorAddress := ⟨"g", [7]⟩
    validatorIndex := 0
    signature := [7] ++ beBytes 8 7 ++ replicate 32 5 }]

/-- Four validators, the first of them absent. -/
def firstAbsent : Call where
  codec := codec
  verifySignature := verifySignature
  vals := ⟨replicate 4 madeUp, madeUp⟩
  chainId := "gnoland"
  blockId := blockId
  height := .ofNat 7
  commit := { commit with precommits := none ::
    (commit.precommits ++ commit.precommits ++ commit.precommits) }

theorem firstAbsent_valid : firstAbsent.Valid where
  block := ⟨rfl, rfl⟩
  length := rfl
  same := by
    refine ⟨.ZERO, fun v hv => ?_⟩
    obtain rfl : v = _ := by simpa [firstAbsent, commit] using hv
    exact ⟨rfl, rfl, rfl⟩
  signed := by
    intro i v hv
    have hlt : i < 4 := (List.getElem?_eq_some_iff.mp hv).1
    obtain rfl : v = _ := by simpa [firstAbsent, commit] using mem_of_getElem? hv
    exact ⟨madeUp, getElem?_replicate_of_lt hlt, rfl⟩
  twoThirds := by decide

def block (appHash : H256) : BlockHeader where
  version := "v1"
  chainId := "gnoland"
  height := .ofNat 7
  time := .atSecond 1000
  numTxs := zeroCount
  totalTxs := zeroCount
  appVersion := ""
  lastBlockId := .default
  lastCommitHash := none
  dataHash := none
  validatorsHash := calculateMerkleRoot id [codec.validator "/tm.PubKeyEd25519" [7] 1]
  nextValidatorsHash := zeroHash
  consensusHash := zeroHash
  appHash := some appHash
  lastResultsHash := none
  proposerAddress := ⟨"g", [7]⟩

def header (appHash : H256) : Header where
  signedHeader := ⟨block appHash, commit⟩
  validatorSet
  trustedHeight := .new 5
  trustedValidators := validatorSet

def clientState : ClientState where
  chainId := "gnoland"
  trustLevel := .oneThird
  trustingPeriod := .ofNanos 1000000000000000
  maxClockDrift := .ofNanos 0
  latestHeight := .new 5

/-- The stored hash is that of validators the submitter knows nothing of. -/
def consensusState : ConsensusState where
  timestamp := .atSecond 900
  root := zeroHash
  nextValidatorsHash := replicate 32 9

end Sample

theorem first_absent_rejected : ¬ Sample.firstAbsent.Meets := fun h =>
    absurd (h.1 Sample.firstAbsent_valid) (by decide)

open Sample in
/-- Both headers are accepted, neither by validators the client trusts, and they write different states. -/
theorem made_up_headers_accepted : ∃ update update',
      verifyHeader codec id verifySignature clientState consensusState
        (header (replicate 32 1)) 2000000000000 = .ok update ∧
      verifyHeader codec id verifySignature clientState consensusState
        (header (replicate 32 2)) 2000000000000 = .ok update' ∧
      (header (replicate 32 1)).signedHeader.commit
        = (header (replicate 32 2)).signedHeader.commit ∧
      update.consensusState ≠ update'.consensusState ∧
      ¬ Adjacent (header (replicate 32 1)) ∧
      validatorsHash codec id (header (replicate 32 1)).trustedValidators
        ≠ .ok consensusState.nextValidatorsHash := by
  refine ⟨_, _, rfl, rfl, rfl, ?_, ?_, ?_⟩
  · decide
  · unfold Adjacent
    decide
  · intro h
    have := congrArg Except.toOption h
    revert this
    decide

open Sample in
theorem made_up_header_unbound : ∃ update,
      verifyHeader codec id verifySignature clientState consensusState
        (header (replicate 32 1)) 2000000000000 = .ok update ∧
      TwoThirdsSigned codec id (fun key msg sig => verifySignature key msg sig = true)
        clientState (header (replicate 32 1)) ∧
      ¬ Sound codec id verifySignature
        (fun key msg sig => verifySignature key msg sig = true) clientState consensusState
        (header (replicate 32 1)) 2000000000000 update :=
  ⟨_, rfl, accepted_header_unbound (fun _ _ _ => Iff.rfl) rfl⟩

end UnionVoyager.Light.Gno
