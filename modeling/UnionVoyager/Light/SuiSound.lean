import Mathlib.Data.Countable.Basic
import Mathlib.Logic.Equiv.List
import Mathlib.Tactic.DeriveCountable
import UnionVoyager.Lib.Tally
import UnionVoyager.Light.SuiClient

/-!
# What the sui light client shows

The signers are those the aggregate signature was made by (`contributed`), and nothing else is.

* `header_sound_iff`, `membership_sound_iff` — **without it, a header or a proof may be accepted
  that shows nothing, or end in a panic.**
-/

namespace UnionVoyager.Light.SuiClient

open Lib Function List

variable {codec : Codec} {host : Host} {s : Store} {header : Header} {rights : VotingRights}

/-! ## Panics -/

def Failure.IsPanic : Failure → Prop
  | err _ => False
  | panic _ => True

theorem verifySignature_avoids (keys : List AuthorityPublicKeyBytes) (msg signature : Bytes) :
    Avoids Failure.IsPanic (verifySignature host keys msg signature) := by
  unfold verifySignature
  apply Avoids.bind (.orErr fun _ => id)
  intro aggregatePubkey _
  apply Avoids.bind (.orErr fun _ => id)
  intro hashedMsg _
  apply Avoids.bind (.orErr fun _ => id)
  intro valid _
  exact .ensure fun _ => id

/-! ## The selected keys -/

def keyAt (rights : VotingRights) (i : UInt32) : Option AuthorityPublicKeyBytes :=
    rights[i.toNat]?.map Prod.fst

/-- The keys at the entries of the bitmap, each entry once. -/
def signerKeys (rights : VotingRights) (signers : SuiBitmap) : List AuthorityPublicKeyBytes :=
  signers.entries.eraseDups.filterMap (keyAt rights)

/-- Every entry of the bitmap is a position of the committee. -/
def InRange (rights : VotingRights) (signers : SuiBitmap) : Prop :=
    ∀ i ∈ signers.entries, i.toNat < rights.length

instance (rights : VotingRights) (signers : SuiBitmap) : Decidable (InRange rights signers) :=
  inferInstanceAs (Decidable (∀ i ∈ signers.entries, i.toNat < rights.length))

variable {signers : SuiBitmap}

theorem mem_signerKeys {k : AuthorityPublicKeyBytes} :
    k ∈ signerKeys rights signers ↔ ∃ i ∈ signers.entries, keyAt rights i = some k := by
  simp [signerKeys]

theorem selectPublicKeys_of_inRange : ∀ (entries seen : List UInt32)
    (selected : List AuthorityPublicKeyBytes), (∀ i ∈ entries, i.toNat < rights.length) →
      selectPublicKeys rights entries seen selected =
        .ok (selected ++ (entries.filter (· ∉ seen)).eraseDups.filterMap (keyAt rights))
  | [], seen, selected, _ => by simp [selectPublicKeys]
  | i :: entries, seen, selected, hrange => by
    have hrest : ∀ j ∈ entries, j.toNat < rights.length := fun j hj => hrange j (mem_cons_of_mem i hj)
    unfold selectPublicKeys
    split
    case isTrue hseen =>
      rw [selectPublicKeys_of_inRange entries seen selected hrest, filter_cons_of_neg (by simpa using hseen)]
    case isFalse hseen =>
      have hlt := hrange i mem_cons_self
      have hget : rights[i.toNat]? = some rights[i.toNat] := getElem?_eq_getElem hlt
      have hkey : keyAt rights i = some rights[i.toNat].1 := by rw [keyAt, hget]; rfl
      have hfilter : (entries.filter (· ∉ seen)).filter (fun b => !b == i) =
          entries.filter (· ∉ i :: seen) := by
        rw [filter_filter]
        apply filter_congr
        intro j _
        by_cases hj : j = i <;> simp [hj]
      rw [hget]
      show selectPublicKeys rights entries (i :: seen) (selected ++ [rights[i.toNat].1]) = _
      rw [selectPublicKeys_of_inRange entries (i :: seen) _ hrest, filter_cons_of_pos (by simpa using hseen),
        eraseDups_cons, hfilter, filterMap_cons_some hkey, append_assoc]
      rfl

theorem selectPublicKeys_panics : ∀ (entries seen : List UInt32) (selected : List AuthorityPublicKeyBytes),
    (∃ i ∈ entries, i ∉ seen ∧ rights.length ≤ i.toNat) →
      selectPublicKeys rights entries seen selected = .error (.panic "index out of bounds")
  | [], _, _, h => by
    obtain ⟨i, hi, -⟩ := h
    cases hi
  | i :: entries, seen, selected, h => by
    obtain ⟨j, hj, hnew, hle⟩ := h
    unfold selectPublicKeys
    split
    case isTrue hseen =>
      apply selectPublicKeys_panics
      rcases List.mem_cons.mp hj with rfl | hj
      · exact absurd hseen hnew
      · exact ⟨j, hj, hnew, hle⟩
    case isFalse hseen =>
      rcases Nat.lt_or_ge i.toNat rights.length with hlt | hge
      · rw [getElem?_eq_getElem hlt]
        apply selectPublicKeys_panics
        have hne : j ≠ i := by
          rintro rfl
          omega
        refine ⟨j, (List.mem_cons.mp hj).resolve_left hne, ?_, hle⟩
        rw [mem_cons]
        rintro (h | h)
        · exact hne h
        · exact hnew h
      · rw [getElem?_eq_none hge]
        rfl

variable {committee : Committee} {checkpoint : CheckpointSummary} {signInfo : AuthorityQuorumSignInfo}

theorem verifyCheckpoint_of_inRange (h : InRange committee.votingRights signInfo.signersMap) :
    verifyCheckpoint codec host committee checkpoint signInfo =
      verifySignature host (signerKeys committee.votingRights signInfo.signersMap)
        (checkpointMessage codec checkpoint) signInfo.signature := by
  unfold verifyCheckpoint
  rw [selectPublicKeys_of_inRange _ _ _ h, ok_bind, nil_append]
  simp [signerKeys]

theorem verifyCheckpoint_panics (h : ¬ InRange committee.votingRights signInfo.signersMap) :
    verifyCheckpoint codec host committee checkpoint signInfo = .error (.panic "index out of bounds") := by
  obtain ⟨i, hi⟩ := not_forall.mp h
  obtain ⟨hmem, hge⟩ := Classical.not_imp.mp hi
  unfold verifyCheckpoint
  rw [selectPublicKeys_panics _ _ _ ⟨i, hmem, not_mem_nil, Nat.le_of_not_lt hge⟩]
  rfl

/-! ## Headers -/

variable {signature : Bytes}

section Header

variable {contributed : Bytes → Bytes → AuthorityPublicKeyBytes → Prop}

/-- An aggregate signature is made by exactly the keys it verifies for. -/
def IdealBls (host : Host) (contributed : Bytes → Bytes → AuthorityPublicKeyBytes → Prop) : Prop :=
  ∀ keys msg signature, verifySignature host keys msg signature = .ok () →
    ∀ k, k ∈ keys ↔ contributed signature msg k

def stake (m : AuthorityPublicKeyBytes × UInt64) : Nat := m.2.toNat

/-- More than two thirds of the voting rights are those of the members at these positions. -/
def Quorum (rights : VotingRights) (S : Finset Nat) : Prop :=
    2 * totalWeight stake rights < 3 * weightAt stake rights S

/-- Different members with a quorum of the voting rights signed the checkpoint. -/
def QuorumSigned (codec : Codec) (contributed : Bytes → Bytes → AuthorityPublicKeyBytes → Prop)
    (rights : VotingRights) (signature : Bytes) (checkpoint : CheckpointSummary) : Prop :=
  ∃ S : Finset Nat, Quorum rights S ∧
    ∀ i ∈ S, ∃ m, rights[i]? = some m ∧ contributed signature (checkpointMessage codec checkpoint) m.1

/-- What an accepted header promises, and that no header ends in a panic. -/
structure HeaderSound (codec : Codec) (host : Host)
    (contributed : Bytes → Bytes → AuthorityPublicKeyBytes → Prop)
    (s : Store) (header : Header) : Prop where
  total : Avoids Failure.IsPanic (verifyHeader codec host s header)
  signed : ∀ u, verifyHeader codec host s header = .ok u →
    ∃ committee, s.committees header.checkpointSummary.epoch = some committee ∧
      QuorumSigned codec contributed committee.votingRights header.signInfo.signature header.checkpointSummary

def positions (signers : SuiBitmap) : Finset Nat := (signers.entries.map UInt32.toNat).toFinset

/-- What is not checked of a header: that its signers are members, and that they are a quorum. -/
structure HeaderChecked (codec : Codec) (host : Host) (s : Store) (header : Header) : Prop where
  inRange : ∀ committee, s.committees header.checkpointSummary.epoch = some committee →
    InRange committee.votingRights header.signInfo.signersMap
  quorum : ∀ committee, s.committees header.checkpointSummary.epoch = some committee →
    verifySignature host (signerKeys committee.votingRights header.signInfo.signersMap)
      (checkpointMessage codec header.checkpointSummary) header.signInfo.signature = .ok () →
    Quorum committee.votingRights (positions header.signInfo.signersMap)

theorem mem_positions {n : Nat} : n ∈ positions signers ↔ ∃ i ∈ signers.entries, i.toNat = n := by
  simp [positions]

/-- What is written for an accepted header. -/
def updateOf (s : Store) (checkpoint : CheckpointSummary) : StateUpdate where
  height := checkpoint.sequenceNumber
  clientState :=
    if s.clientState.latestCheckpoint < checkpoint.sequenceNumber then
      some { s.clientState with latestCheckpoint := checkpoint.sequenceNumber }
    else none
  consensusState := ⟨checkpoint.timestampMs * 1000000, checkpoint.contentDigest⟩
  committee := checkpoint.endOfEpochData.map fun epochEnding =>
    (checkpoint.epoch + 1, ⟨checkpoint.epoch + 1, epochEnding.nextEpochCommittee⟩)

theorem verifyHeader_eq_ok {u : StateUpdate} : verifyHeader codec host s header = .ok u ↔
      ∃ committee, s.committees header.checkpointSummary.epoch = some committee ∧
        verifyCheckpoint codec host committee header.checkpointSummary header.signInfo = .ok () ∧
        u = updateOf s header.checkpointSummary := by
  unfold verifyHeader
  simp only [bind_eq_ok, orErr_eq_ok, pure_eq_ok]
  constructor
  · rintro ⟨committee, hcomm, _, hver, rfl⟩
    exact ⟨committee, hcomm, hver, rfl⟩
  · rintro ⟨committee, hcomm, hver, rfl⟩
    exact ⟨committee, hcomm, (), hver, rfl⟩

theorem verifyHeader_panics (hcommittee : s.committees header.checkpointSummary.epoch = some committee)
    (hout : ¬ InRange committee.votingRights header.signInfo.signersMap) :
    verifyHeader codec host s header = .error (.panic "index out of bounds") := by
  unfold verifyHeader
  show (orErr (s.committees header.checkpointSummary.epoch) _ >>= _) = _
  rw [hcommittee]
  show (verifyCheckpoint codec host committee header.checkpointSummary header.signInfo >>= _) = _
  rw [verifyCheckpoint_panics hout]
  rfl

theorem verifyHeader_avoids_iff : Avoids Failure.IsPanic (verifyHeader codec host s header) ↔
      ∀ committee, s.committees header.checkpointSummary.epoch = some committee →
        InRange committee.votingRights header.signInfo.signersMap := by
  constructor
  · intro havoids committee hcomm
    by_contra hout
    exact havoids _ (verifyHeader_panics hcomm hout) trivial
  · intro hrange
    unfold verifyHeader
    apply Avoids.bind (.orErr fun _ => id)
    intro committee hcomm
    have hin := hrange committee (orErr_eq_ok.mp hcomm)
    rw [verifyCheckpoint_of_inRange hin]
    apply Avoids.bind (verifySignature_avoids _ _ _)
    intro _ _
    exact .pure _

section

variable (hbls : IdealBls host contributed)

include hbls

theorem quorumSigned_of_quorum (hrange : InRange rights signers)
    (hverify : verifySignature host (signerKeys rights signers) (checkpointMessage codec checkpoint)
      signature = .ok ())
    (hquorum : Quorum rights (positions signers)) :
      QuorumSigned codec contributed rights signature checkpoint := by
  refine ⟨positions signers, hquorum, ?_⟩
  intro n hn
  obtain ⟨i, hi, rfl⟩ := mem_positions.mp hn
  have hlt := hrange i hi
  have hget : rights[i.toNat]? = some rights[i.toNat] := getElem?_eq_getElem hlt
  have hmem : rights[i.toNat].1 ∈ signerKeys rights signers :=
    mem_signerKeys.mpr ⟨i, hi, by rw [keyAt, hget]; rfl⟩
  exact ⟨_, hget, (hbls _ _ _ hverify _).mp hmem⟩

theorem quorum_of_quorumSigned (hkeys : (rights.map Prod.fst).Nodup)
    (hverify : verifySignature host (signerKeys rights signers) (checkpointMessage codec checkpoint)
      signature = .ok ())
    (hsigned : QuorumSigned codec contributed rights signature checkpoint) :
      Quorum rights (positions signers) := by
  obtain ⟨S, hquorum, hmembers⟩ := hsigned
  have hsubset : S ⊆ positions signers := by
    intro n hn
    obtain ⟨m, hm, hcontributed⟩ := hmembers n hn
    obtain ⟨i, hi, hkey⟩ := mem_signerKeys.mp ((hbls _ _ _ hverify m.1).mpr hcontributed)
    obtain ⟨m', hm', hsame⟩ := Option.map_eq_some_iff.mp hkey
    have hlt : n < (rights.map Prod.fst).length := by
      rw [length_map]
      exact (List.getElem?_eq_some_iff.mp hm).1
    have hat : (rights.map Prod.fst)[n]? = (rights.map Prod.fst)[i.toNat]? := by
      rw [getElem?_map, getElem?_map, hm, hm']
      exact congrArg some hsame.symm
    exact mem_positions.mpr ⟨i, hi, ((getElem?_inj hlt hkeys).mp hat).symm⟩
  have hle : weightAt stake rights _ ≤ weightAt stake rights _ := weightAt_mono hsubset
  unfold Quorum at hquorum ⊢
  omega

/-- **A checked header is sound**, whatever is stored. -/
theorem HeaderChecked.sound (h : HeaderChecked codec host s header) :
    HeaderSound codec host contributed s header where
  total := verifyHeader_avoids_iff.mpr h.inRange
  signed := by
    intro u hu
    obtain ⟨committee, hcomm, hver, -⟩ := verifyHeader_eq_ok.mp hu
    have hrange := h.inRange committee hcomm
    rw [verifyCheckpoint_of_inRange hrange] at hver
    have hquorum := h.quorum committee hcomm hver
    exact ⟨committee, hcomm, quorumSigned_of_quorum hbls hrange hver hquorum⟩

theorem header_sound_iff
    (hkeys : ∀ committee, s.committees header.checkpointSummary.epoch = some committee →
      (committee.votingRights.map Prod.fst).Nodup) :
    HeaderSound codec host contributed s header ↔ HeaderChecked codec host s header := by
  constructor
  · intro h
    have hrange := verifyHeader_avoids_iff.mp h.total
    refine ⟨hrange, ?_⟩
    intro committee hcomm hver
    have hacc : verifyHeader codec host s header = .ok (updateOf s header.checkpointSummary) := by
      refine verifyHeader_eq_ok.mpr ⟨committee, hcomm, ?_, rfl⟩
      rw [verifyCheckpoint_of_inRange (hrange committee hcomm)]
      exact hver
    obtain ⟨committee', hcomm', hsigned⟩ := h.signed _ hacc
    obtain rfl := Option.some.inj (hcomm.symm.trans hcomm')
    exact quorum_of_quorumSigned hbls (hkeys committee hcomm) hver hsigned
  · exact HeaderChecked.sound hbls

end

end Header

/-! ## The network -/

structure Transaction where
  effects : TransactionEffects
  /-- The objects it wrote. -/
  written : List (ObjectID × ObjectInner)

/-- What really happened: the committee of each epoch, and the checkpoints that were certified. -/
structure Network where
  committee : UInt64 → VotingRights
  honest : UInt64 → AuthorityPublicKeyBytes → Prop
  certified : CheckpointSummary → Prop
  contents : CheckpointSummary → CheckpointContents
  executed : CheckpointSummary → List Transaction

/-- The effects write the object, with this digest. -/
def Writes (effects : TransactionEffects) (object : ObjectID) (digest : Digest) : Prop :=
  ∃ changedObjects rest change owner, effects = .v2 changedObjects rest ∧ (object, change) ∈ changedObjects ∧
    change.outputState = .objectWrite digest owner

structure Codec.CollisionFree (codec : Codec) : Prop where
  blake2b : Injective codec.blake2b
  bcsSummary : Injective codec.bcsSummary
  bcsContents : Injective codec.bcsContents
  bcsObject : Injective codec.bcsObject
  bcsEffects : Injective codec.bcsEffects

/-- Committees hand over to each other, honest members sign certified checkpoints alone, and the
others hold less than a third of the voting rights. -/
structure Network.Lawful (network : Network) (codec : Codec)
    (contributed : Bytes → Bytes → AuthorityPublicKeyBytes → Prop) : Prop where
  distinct : ∀ epoch, ((network.committee epoch).map Prod.fst).Nodup
  honestStake : ∀ epoch (B : Finset Nat),
    (∀ i ∈ B, ∃ m, (network.committee epoch)[i]? = some m ∧ ¬ network.honest epoch m.1) →
      3 * weightAt stake (network.committee epoch) B < totalWeight stake (network.committee epoch)
  honestSigns : ∀ epoch k signature msg, network.honest epoch k → contributed signature msg k →
    intent <+: msg →
    ∃ checkpoint, network.certified checkpoint ∧ msg = checkpointMessage codec checkpoint
  handover : ∀ checkpoint epochEnding, network.certified checkpoint →
    checkpoint.endOfEpochData = some epochEnding →
    network.committee (checkpoint.epoch + 1) = epochEnding.nextEpochCommittee
  contentDigest : ∀ checkpoint, network.certified checkpoint →
    checkpoint.contentDigest = (network.contents checkpoint).digest codec
  effects : ∀ checkpoint, network.certified checkpoint →
    (network.contents checkpoint).effects = (network.executed checkpoint).map fun tx =>
      tx.effects.digest codec
  written : ∀ checkpoint, network.certified checkpoint → ∀ tx ∈ network.executed checkpoint, ∀ id digest,
    Writes tx.effects id digest → ∃ object, (id, object) ∈ tx.written ∧ object.digest codec = digest

/-- The consensus state is that of a certified checkpoint at the height. -/
def GenuineConsensus (network : Network) (height : UInt64) (cs : ConsensusState) : Prop :=
  ∃ checkpoint, network.certified checkpoint ∧ checkpoint.sequenceNumber = height ∧
    cs = ⟨checkpoint.timestampMs * 1000000, checkpoint.contentDigest⟩

structure Genuine (network : Network) (s : Store) : Prop where
  committees : ∀ epoch committee, s.committees epoch = some committee →
    committee = ⟨epoch, network.committee epoch⟩
  consensusStates : ∀ height cs, s.consensusStates height = some cs → GenuineConsensus network height cs

/-- A client is created with the committee of an epoch and with the consensus state of its latest
    checkpoint. -/
structure GenuineStart (network : Network) (clientState : ClientState)
    (consensusState : ConsensusState) : Prop where
  committee : ∀ committee, clientState.initialCommittee = some committee →
    committee = ⟨committee.epoch, network.committee committee.epoch⟩
  consensusState : GenuineConsensus network clientState.latestCheckpoint consensusState

theorem checkpointMessage_injective (h : Injective codec.bcsSummary) :
    Injective (checkpointMessage codec) := by
  intro a b hab
  unfold checkpointMessage at hab
  obtain ⟨hfront, -⟩ := append_inj' hab (by simp [leBytes])
  exact h (append_cancel_left hfront)

section Network

variable {contributed : Bytes → Bytes → AuthorityPublicKeyBytes → Prop} {network : Network}

/-- **What a quorum of a committee signed is certified.** -/
theorem certified_of_quorumSigned (hnetwork : network.Lawful codec contributed) (hcodec : codec.CollisionFree)
    {epoch : UInt64} (h : QuorumSigned codec contributed (network.committee epoch) signature checkpoint) :
    network.certified checkpoint := by
  obtain ⟨S, hquorum, hsigned⟩ := h
  obtain ⟨i, hi, hhonest⟩ := exists_of_quorum hquorum (hnetwork.honestStake epoch)
  obtain ⟨m, hm, hcontributed⟩ := hsigned i hi
  have hm' : network.honest epoch m.1 := by
    by_contra hbad
    exact hhonest ⟨m, hm, hbad⟩
  have hprefix : intent <+: checkpointMessage codec checkpoint := by
    unfold checkpointMessage
    rw [append_assoc]
    exact prefix_append _ _
  obtain ⟨checkpoint', hcert, hsame⟩ := hnetwork.honestSigns epoch m.1 _ _ hm' hcontributed hprefix
  rw [checkpointMessage_injective hcodec.bcsSummary hsame]
  exact hcert

theorem create_genuine {clientState : ClientState} {consensusState : ConsensusState}
    (hcreate : create clientState consensusState = .ok s)
    (hstart : GenuineStart network clientState consensusState) : Genuine network s := by
  unfold create at hcreate
  simp only [bind_eq_ok, orErr_eq_ok, pure_eq_ok] at hcreate
  obtain ⟨initialCommittee, hinitial, rfl⟩ := hcreate
  constructor
  · intro epoch committee hcomm
    dsimp only at hcomm
    rcases update_eq_some hcomm with ⟨rfl, rfl⟩ | ⟨-, hnone⟩
    · exact hstart.committee _ hinitial
    · cases hnone
  · intro height cs hcs
    dsimp only at hcs
    rcases update_eq_some hcs with ⟨rfl, rfl⟩ | ⟨-, hnone⟩
    · exact hstart.consensusState
    · cases hnone

theorem Genuine.apply (hnetwork : network.Lawful codec contributed) (h : Genuine network s)
    (hcertified : network.certified checkpoint) : Genuine network (s.apply (updateOf s checkpoint)) := by
  constructor
  · intro epoch committee hcomm
    cases hend : checkpoint.endOfEpochData with
    | none =>
      simp only [Store.apply, updateOf, hend, Option.map_none] at hcomm
      exact h.committees epoch committee hcomm
    | some epochEnding =>
      simp only [Store.apply, updateOf, hend, Option.map_some] at hcomm
      rcases update_eq_some hcomm with ⟨rfl, rfl⟩ | ⟨-, hold⟩
      · rw [hnetwork.handover checkpoint epochEnding hcertified hend]
      · exact h.committees epoch committee hold
  · intro height cs hcs
    rcases update_eq_some hcs with ⟨rfl, rfl⟩ | ⟨-, hold⟩
    · exact ⟨checkpoint, hcertified, rfl, rfl⟩
    · exact h.consensusStates height cs hold

/-- **One step over a sound header.** -/
theorem Genuine.step (hnetwork : network.Lawful codec contributed) (hcodec : codec.CollisionFree)
    (h : Genuine network s) (hsound : HeaderSound codec host contributed s header) :
    Genuine network (step codec host s header).1 := by
  unfold SuiClient.step
  split
  case h_1 u hu =>
    obtain ⟨committee, hcomm, hsigned⟩ := hsound.signed u hu
    obtain ⟨-, -, -, rfl⟩ := verifyHeader_eq_ok.mp hu
    rw [h.committees _ committee hcomm] at hsigned
    exact h.apply hnetwork (certified_of_quorumSigned hnetwork hcodec hsigned)
  case h_2 => exact h

end Network

/-! ## Proofs -/

section Membership

variable {contributed : Bytes → Bytes → AuthorityPublicKeyBytes → Prop} {network : Network}
  {commitmentsObject id : ObjectID} {commitmentPrefix : UInt8} {key value name : Bytes} {object : ObjectInner}
  {effects : TransactionEffects} {contents : CheckpointContents} {contentsDigest : Digest} {height : UInt64}
  {storageProof : StorageProof}

/-- The name of the field of a key. -/
def fieldName (commitmentPrefix : UInt8) (key : Bytes) : Bytes :=
    commitmentPrefix :: UInt8.ofNat key.length :: key

def NameShaped (commitmentPrefix : UInt8) (name : Bytes) : Prop :=
  ∃ first rest, name = first :: rest ∧ (commitmentPrefix = first ∨ rest ≠ [])

/-- The name differs from that of the key in all three parts. -/
def NameDiffers (commitmentPrefix : UInt8) (key name : Bytes) : Prop :=
  ∃ first second rest, name = first :: second :: rest ∧ commitmentPrefix ≠ first ∧
    UInt8.ofNat key.length ≠ second ∧ key ≠ rest

theorem keyDiffers_avoids_iff :
    Avoids Failure.IsPanic (keyDiffers commitmentPrefix key name) ↔ NameShaped commitmentPrefix name := by
  match name with
  | [] => simp [keyDiffers, orErr, NameShaped, Avoids, bind, Except.bind, Failure.IsPanic]
  | [first] =>
    by_cases hfirst : commitmentPrefix = first <;>
      simp [keyDiffers, orErr, NameShaped, Avoids, bind, Except.bind, pure, Except.pure,
        Failure.IsPanic, hfirst]
  | first :: second :: rest =>
    by_cases hfirst : commitmentPrefix = first <;>
      simp [keyDiffers, orErr, NameShaped, Avoids, bind, Except.bind, pure, Except.pure, hfirst]

/-- **Only a name that differs in all three parts is refused.** -/
theorem keyDiffers_eq_false_iff (hshaped : NameShaped commitmentPrefix name) :
    keyDiffers commitmentPrefix key name = .ok false ↔ ¬ NameDiffers commitmentPrefix key name := by
  obtain ⟨first, rest, rfl, hrest⟩ := hshaped
  match rest with
  | [] =>
    obtain rfl : commitmentPrefix = first := by simpa using hrest
    simp [keyDiffers, orErr, NameDiffers, pure, Except.pure]
  | second :: rest =>
    by_cases hfirst : commitmentPrefix = first <;>
      simp [keyDiffers, orErr, NameDiffers, pure, Except.pure, hfirst]

/-- The checks of steps 3 to 5. -/
structure Opened (codec : Codec) (id : ObjectID) (object : ObjectInner) (effects : TransactionEffects)
    (contents : CheckpointContents) (contentsDigest : Digest) : Prop where
  write : findWriteEffect effects id = some (object.digest codec)
  effects : effects.digest codec ∈ contents.effects
  contents : contentsDigest = contents.digest codec

theorem verifyMembership_eq_ok :
    verifyMembership codec commitmentsObject commitmentPrefix key value object effects contents
      contentsDigest = .ok () ↔ ∃ name, codec.bcsField object.data.contents =
          some (calculateDynamicFieldObjectId codec commitmentsObject commitmentPrefix key, name, value) ∧
        keyDiffers commitmentPrefix key name = .ok false ∧
        Opened codec (calculateDynamicFieldObjectId codec commitmentsObject commitmentPrefix key)
          object effects contents contentsDigest := by
  unfold verifyMembership
  simp only [bind_eq_ok, orErr_eq_ok, ensure_eq_ok, exists_const]
  constructor
  · rintro ⟨⟨id, name, v⟩, hfield, rfl, differs, hdiffers, rfl, rfl, digest, hwrite, rfl, heffects, hcont⟩
    exact ⟨name, hfield, hdiffers, hwrite, heffects, hcont⟩
  · rintro ⟨name, hfield, hdiffers, hwrite, heffects, hcont⟩
    exact ⟨_, hfield, rfl, false, hdiffers, rfl, rfl, _, hwrite, rfl, heffects, hcont⟩

theorem verifyMembership_avoids_iff : Avoids Failure.IsPanic
        (verifyMembership codec commitmentsObject commitmentPrefix key value object effects contents
          contentsDigest) ↔
      ∃ id name v, codec.bcsField object.data.contents = some (id, name, v) ∧
        (calculateDynamicFieldObjectId codec commitmentsObject commitmentPrefix key = id →
          NameShaped commitmentPrefix name) := by
  unfold verifyMembership
  cases hfield : codec.bcsField object.data.contents with
  | none =>
    constructor
    · intro havoids
      exact absurd trivial (havoids (.panic "unwrap") rfl)
    · rintro ⟨id, name, v, hnone, -⟩
      cases hnone
  | some field =>
    obtain ⟨id, name, v⟩ := field
    show Avoids _ (ensure _ _ >>= fun _ => keyDiffers commitmentPrefix key name >>= _) ↔ _
    by_cases hid : calculateDynamicFieldObjectId codec commitmentsObject commitmentPrefix key = id
    · rw [ensure, if_pos hid, ok_bind]
      constructor
      · intro havoids
        have hkey : Avoids Failure.IsPanic (keyDiffers commitmentPrefix key name) := by
          intro e he
          apply havoids
          rw [he]
          rfl
        exact ⟨id, name, v, rfl, fun _ => keyDiffers_avoids_iff.mp hkey⟩
      · rintro ⟨id', name', v', hsame, hshaped⟩
        cases hsame
        apply Avoids.bind (keyDiffers_avoids_iff.mpr (hshaped hid))
        intro differs _
        apply Avoids.bind (.ensure fun _ => fun h => h)
        intro _ _
        apply Avoids.bind (.ensure fun _ => fun h => h)
        intro _ _
        apply Avoids.bind (.orErr fun _ => fun h => h)
        intro digest _
        apply Avoids.bind (.ensure fun _ => fun h => h)
        intro _ _
        apply Avoids.bind (.ensure fun _ => fun h => h)
        intro _ _
        exact .ensure fun _ => fun h => h
    · rw [ensure, if_neg hid, error_bind]
      constructor
      · intro _
        exact ⟨id, name, v, rfl, fun h => absurd h hid⟩
      · intro _
        exact .error fun h => h

theorem writes_of_findWriteEffect {digest : Digest} (h : findWriteEffect effects id = some digest) :
    Writes effects id digest := by
  cases effects with
  | v1 rest => cases h
  | v2 changedObjects rest =>
    obtain ⟨⟨id', change⟩, hmem, hfound⟩ := exists_of_findSome?_eq_some h
    dsimp only at hfound
    split at hfound
    case isTrue hid =>
      subst hid
      cases hout : change.outputState with
      | objectWrite digest' owner =>
        rw [hout] at hfound
        obtain rfl := Option.some.inj hfound
        exact ⟨changedObjects, rest, change, owner, rfl, hmem, hout⟩
      | notExist | packageWrite =>
        rw [hout] at hfound
        cases hfound
    case isFalse => cases hfound

/-- A transaction of a certified checkpoint at the height wrote this object, whose key and value are these. -/
def Wrote (codec : Codec) (network : Network) (commitmentsObject : ObjectID) (height : UInt64)
    (key value : Bytes) (object : ObjectInner) : Prop :=
  ∃ checkpoint, network.certified checkpoint ∧ checkpoint.sequenceNumber = height ∧
    ∃ tx ∈ network.executed checkpoint,
      (calculateDynamicFieldObjectId codec commitmentsObject COMMITMENT_PREFIX key, object) ∈ tx.written ∧
      codec.bcsField object.data.contents =
        some (calculateDynamicFieldObjectId codec commitmentsObject COMMITMENT_PREFIX key,
          fieldName COMMITMENT_PREFIX key, value)

/-- What an accepted proof promises, and that no proof ends in a panic. -/
structure MembershipSound (codec : Codec) (network : Network) (s : Store) (height : UInt64)
    (key : Bytes) (storageProof : StorageProof) (value : Bytes) : Prop where
  total : Avoids Failure.IsPanic (proveMembership codec s height key storageProof value)
  wrote : proveMembership codec s height key storageProof value = .ok () →
    Wrote codec network s.clientState.ibcStore height key value storageProof.object

/-- What is not checked of a proof: that the object decodes to a field, whose name, where all else
fits, is that of the key or differs from it in all three parts. -/
def ProofChecked (codec : Codec) (s : Store) (height : UInt64) (key : Bytes)
    (storageProof : StorageProof) (value : Bytes) : Prop :=
  ∀ cs, s.consensusStates height = some cs →
    ∃ id name v, codec.bcsField storageProof.object.data.contents = some (id, name, v) ∧
      (calculateDynamicFieldObjectId codec s.clientState.ibcStore COMMITMENT_PREFIX key = id →
        NameShaped COMMITMENT_PREFIX name ∧
        (v = value →
          Opened codec id storageProof.object storageProof.transactionEffects storageProof.checkpointContents
            cs.contentDigest →
          name = fieldName COMMITMENT_PREFIX key ∨ NameDiffers COMMITMENT_PREFIX key name))

/-- **What opens under the digest of a certified checkpoint was written by one of its transactions.** -/
theorem wrote_of_opened (hnetwork : network.Lawful codec contributed) (hcodec : codec.CollisionFree)
    {checkpoint : CheckpointSummary} (hcertified : network.certified checkpoint)
    (h : Opened codec id object effects contents checkpoint.contentDigest) :
    ∃ tx ∈ network.executed checkpoint, (id, object) ∈ tx.written := by
  have hcont : network.contents checkpoint = contents := by
    have hdigest := (hnetwork.contentDigest checkpoint hcertified).symm.trans h.contents
    exact hcodec.bcsContents (append_cancel_left (hcodec.blake2b hdigest))
  have heffects := h.effects
  rw [← hcont, hnetwork.effects checkpoint hcertified, mem_map] at heffects
  obtain ⟨tx, htx, hsame⟩ := heffects
  have htx' : tx.effects = effects := hcodec.bcsEffects (append_cancel_left (hcodec.blake2b hsame))
  have hwrites := writes_of_findWriteEffect h.write
  rw [← htx'] at hwrites
  obtain ⟨object', hwritten, hobject⟩ := hnetwork.written checkpoint hcertified tx htx id _ hwrites
  have hobject' : object' = object := hcodec.bcsObject (append_cancel_left (hcodec.blake2b hobject))
  rw [hobject'] at hwritten
  exact ⟨tx, htx, hwritten⟩

theorem membership_sound_iff (hnetwork : network.Lawful codec contributed)
    (hcodec : codec.CollisionFree) (hgenuine : Genuine network s) :
    MembershipSound codec network s height key storageProof value ↔
      ProofChecked codec s height key storageProof value := by
  constructor
  · intro h cs hcs
    have hprove : proveMembership codec s height key storageProof value =
        verifyMembership codec s.clientState.ibcStore COMMITMENT_PREFIX key value storageProof.object
          storageProof.transactionEffects storageProof.checkpointContents cs.contentDigest := by
      unfold proveMembership
      rw [hcs]
      rfl
    have htotal := h.total
    rw [hprove] at htotal
    obtain ⟨id, name, v, hfield, hshaped⟩ := verifyMembership_avoids_iff.mp htotal
    refine ⟨id, name, v, hfield, fun hid => ⟨hshaped hid, ?_⟩⟩
    rintro rfl hopened
    subst hid
    by_cases hdiffers : NameDiffers COMMITMENT_PREFIX key name
    · exact .inr hdiffers
    · have hkey := (keyDiffers_eq_false_iff (hshaped rfl)).mpr hdiffers
      have hacc := hprove.trans (verifyMembership_eq_ok.mpr ⟨name, hfield, hkey, hopened⟩)
      obtain ⟨_, -, -, _, -, -, hwritten⟩ := h.wrote hacc
      have hname := Option.some.inj (hfield.symm.trans hwritten)
      simp only [Prod.mk.injEq, true_and, and_true] at hname
      exact .inl hname
  · intro h
    constructor
    · unfold proveMembership
      apply Avoids.bind (.orErr fun _ => fun h => h)
      intro cs hcs
      obtain ⟨id, name, v, hfield, hname⟩ := h cs (orErr_eq_ok.mp hcs)
      exact verifyMembership_avoids_iff.mpr ⟨id, name, v, hfield, fun hid => (hname hid).1⟩
    · intro hacc
      unfold proveMembership at hacc
      simp only [bind_eq_ok, orErr_eq_ok] at hacc
      obtain ⟨cs, hcs, hver⟩ := hacc
      obtain ⟨name, hfield, hkey, hopened⟩ := verifyMembership_eq_ok.mp hver
      obtain ⟨id', name', v', hfield', hchecked⟩ := h cs hcs
      obtain ⟨rfl, rfl, rfl⟩ : id' = _ ∧ name' = name ∧ v' = value := by
        simpa using Option.some.inj (hfield'.symm.trans hfield)
      obtain ⟨hshaped, hname⟩ := hchecked rfl
      have hname' := (hname rfl hopened).resolve_right ((keyDiffers_eq_false_iff hshaped).mp hkey)
      obtain ⟨checkpoint, hcert, hheight, rfl⟩ := hgenuine.consensusStates height cs hcs
      obtain ⟨tx, htx, hwritten⟩ := wrote_of_opened hnetwork hcodec hcert hopened
      rw [hname'] at hfield
      exact ⟨checkpoint, hcert, hheight, tx, htx, hwritten, hfield⟩

end Membership

section Run

variable {contributed : Bytes → Bytes → AuthorityPublicKeyBytes → Prop} {network : Network}

theorem run_genuine (hnetwork : network.Lawful codec contributed) (hcodec : codec.CollisionFree)
    (hbls : IdealBls host contributed) (hgenuine : Genuine network s) {headers : List Header}
    (hchecked : Machine.Meets (step codec host) (HeaderChecked codec host) s headers) :
    Genuine network (run codec host s headers) := by
  apply Machine.invariant_of_meets (I := fun s _ => Genuine network s) _ hgenuine hchecked
  intro s _ header h hheader
  exact h.step hnetwork hcodec (hheader.sound hbls)

/-- **In a run over checked headers every header is sound; on a lawful network, from a genuine
start, every store that is reached is genuine, and in it a header or a proof is sound iff it is
checked.** -/
theorem reached_sound (hbls : IdealBls host contributed) {headers : List Header}
    (hchecked : Machine.Meets (step codec host) (HeaderChecked codec host) s headers) :
    (∀ past header rest, headers = past ++ header :: rest →
      HeaderSound codec host contributed (run codec host s past) header) ∧
    ∀ network clientState consensusState, network.Lawful codec contributed → codec.CollisionFree →
      create clientState consensusState = .ok s → GenuineStart network clientState consensusState →
      ∀ past rest, headers = past ++ rest →
        Genuine network (run codec host s past) ∧
        (∀ header, HeaderSound codec host contributed (run codec host s past) header ↔
          HeaderChecked codec host (run codec host s past) header) ∧
        ∀ height key storageProof value,
          MembershipSound codec network (run codec host s past) height key storageProof value ↔
            ProofChecked codec (run codec host s past) height key storageProof value := by
  constructor
  · intro past header rest hsplit
    exact ((Machine.meets_iff headers s).mp hchecked past header rest hsplit).sound hbls
  · intro network clientState consensusState hnetwork hcodec hcreate hstart past rest hsplit
    rw [hsplit, Machine.meets_append] at hchecked
    have hgenuine := run_genuine hnetwork hcodec hbls (create_genuine hcreate hstart) hchecked.1
    refine ⟨hgenuine, ?_, ?_⟩
    · intro header
      apply header_sound_iff hbls
      intro committee hcomm
      rw [hgenuine.committees _ committee hcomm]
      exact hnetwork.distinct _
    · intro height key storageProof value
      exact membership_sound_iff hnetwork hcodec hgenuine

end Run

/-! ## A network of three validators -/

namespace Sample

instance countableUInt8 : Countable UInt8 := Injective.countable fun _ _ h => UInt8.toNat_inj.mp h

instance countableUInt64 : Countable UInt64 := Injective.countable fun _ _ h => UInt64.toNat_inj.mp h

theorem keyBytes_injective : Injective AuthorityPublicKeyBytes.bytes := by
  rintro ⟨a, _⟩ ⟨b, _⟩ h
  cases h
  rfl

instance : Countable AuthorityPublicKeyBytes := keyBytes_injective.countable

deriving instance Countable for EndOfEpochData, GasCostSummary, CheckpointSummary, ExecutionDigests,
  CheckpointTransactionContents, CheckpointContents, MoveObject, ObjectInner, ObjectOut, EffectsObjectChange,
  TransactionEffects

theorem exists_encoding (α : Type) [Countable α] : ∃ encode : α → Bytes, Injective encode := by
  obtain ⟨f, hf⟩ := exists_injective_nat α
  exact ⟨encNat ∘ f, selfDelimiting_encNat.injective.comp hf⟩

/-- Some encoding without collisions. -/
noncomputable def encoding {α : Type} [Countable α] : α → Bytes := (exists_encoding α).choose

theorem encoding_injective {α : Type} [Countable α] : Injective (encoding : α → Bytes) :=
  (exists_encoding α).choose_spec

noncomputable def idealCodec : Codec where
  blake2b := id
  bcsSummary := encoding
  bcsContents := encoding
  bcsObject := encoding
  bcsEffects := encoding
  bcsField _ := none

theorem idealCodec_collisionFree : idealCodec.CollisionFree where
  blake2b := injective_id
  bcsSummary := encoding_injective
  bcsContents := encoding_injective
  bcsObject := encoding_injective
  bcsEffects := encoding_injective

def key (b : UInt8) : AuthorityPublicKeyBytes := ⟨replicate 96 b, length_replicate⟩

def equalRights : VotingRights := [(key 1, 1), (key 2, 1), (key 3, 1)]

/-- The last checkpoint of epoch 0; the committee stays. -/
noncomputable def lastCheckpoint : CheckpointSummary where
  epoch := 0
  sequenceNumber := 7
  networkTotalTransactions := 0
  contentDigest := (CheckpointContents.v2 []).digest idealCodec
  previousDigest := none
  epochRollingGasCostSummary := ⟨0, 0, 0, 0⟩
  timestampMs := 100
  checkpointCommitments := []
  endOfEpochData := some ⟨equalRights, 1, []⟩
  versionSpecificData := []

/-- A signature is the keys and the message. -/
def signatureOf (keys : List AuthorityPublicKeyBytes) (msg : Bytes) : Bytes :=
  (keys.map AuthorityPublicKeyBytes.bytes).flatten ++ msg

/-- Only the checkpoint was signed. -/
noncomputable def idealHost : Host where
  aggregateG2 pubkeys := if pubkeys = [] then none else some pubkeys
  hashToG1 msg _ := some msg
  pairingEquality signature _ hashedMsg aggregatePubkey :=
    some (decide (signature = aggregatePubkey ++ hashedMsg ∧
      hashedMsg = checkpointMessage idealCodec lastCheckpoint))

def contributedTo (signature msg : Bytes) (k : AuthorityPublicKeyBytes) : Prop :=
  msg = checkpointMessage idealCodec lastCheckpoint ∧ ∃ keys, signature = signatureOf keys msg ∧ k ∈ keys

theorem verifySignature_idealHost {keys : List AuthorityPublicKeyBytes} {msg : Bytes} :
    verifySignature idealHost keys msg signature = .ok () ↔
      (keys.map AuthorityPublicKeyBytes.bytes).flatten ≠ [] ∧ signature = signatureOf keys msg ∧
        msg = checkpointMessage idealCodec lastCheckpoint := by
  unfold verifySignature idealHost signatureOf
  simp only [bind_eq_ok, orErr_eq_ok, ensure_eq_ok, Option.ite_none_left_eq_some, Option.some.injEq, ne_eq]
  constructor
  · rintro ⟨_, ⟨hne, rfl⟩, _, rfl, _, rfl, hvalid⟩
    exact ⟨hne, of_decide_eq_true hvalid⟩
  · rintro ⟨hne, hvalid⟩
    exact ⟨_, ⟨hne, rfl⟩, _, rfl, _, rfl, decide_eq_true hvalid⟩

theorem length_flatten_keys (keys : List AuthorityPublicKeyBytes) :
    (keys.map AuthorityPublicKeyBytes.bytes).flatten.length = 96 * keys.length := by
  induction keys with
  | nil => rfl
  | cons k keys ih =>
    rw [map_cons, flatten_cons, length_append, ih, k.length_eq, length_cons]
    omega

theorem signatureOf_inj {keys keys' : List AuthorityPublicKeyBytes} {msg : Bytes}
    (h : signatureOf keys msg = signatureOf keys' msg) : keys = keys' := by
  have hlengths : ∀ (ks : List AuthorityPublicKeyBytes), ∀ b ∈ ks.map AuthorityPublicKeyBytes.bytes,
      b.length = 96 := by
    intro ks b hb
    obtain ⟨k, -, rfl⟩ := List.mem_map.mp hb
    exact k.length_eq
  have hflat := append_cancel_right h
  have hlen : keys.length = keys'.length := by
    have hlong := congrArg length hflat
    rw [length_flatten_keys, length_flatten_keys] at hlong
    omega
  have hbytes := flatten_inj (hlengths keys) (hlengths keys') (by simpa using hlen) hflat
  exact List.map_injective_iff.mpr keyBytes_injective hbytes

theorem idealHost_idealBls : IdealBls idealHost contributedTo := by
  intro keys msg signature h k
  obtain ⟨-, rfl, hmsg⟩ := verifySignature_idealHost.mp h
  constructor
  · intro hk
    exact ⟨hmsg, keys, rfl, hk⟩
  · rintro ⟨-, keys', hsame, hk⟩
    rw [signatureOf_inj hsame]
    exact hk

noncomputable def idealNetwork : Network where
  committee _ := equalRights
  honest _ _ := True
  certified c := c = lastCheckpoint
  contents _ := .v2 []
  executed _ := []

theorem equalRights_distinct : (equalRights.map Prod.fst).Nodup := by decide

theorem idealNetwork_lawful : idealNetwork.Lawful idealCodec contributedTo where
  distinct _ := equalRights_distinct
  honestStake := by
    intro epoch B hbad
    have hempty : B = ∅ := by
      rw [Finset.eq_empty_iff_forall_notMem]
      intro i hi
      obtain ⟨m, -, hdishonest⟩ := hbad i hi
      exact hdishonest trivial
    rw [hempty, weightAt_empty]
    show 0 < totalWeight stake equalRights
    decide
  honestSigns := by
    rintro epoch k signature msg - ⟨hmsg, -⟩ -
    exact ⟨lastCheckpoint, rfl, hmsg⟩
  handover := by
    rintro _ epochEnding rfl hend
    obtain rfl := Option.some.inj hend
    rfl
  contentDigest := by
    rintro _ rfl
    rfl
  effects _ _ := rfl
  written _ _ tx htx := nomatch htx

def clientState : ClientState := ⟨"sui-1", 7, 0, [1], some ⟨0, equalRights⟩⟩

noncomputable def consensusState : ConsensusState :=
    ⟨lastCheckpoint.timestampMs * 1000000, lastCheckpoint.contentDigest⟩

noncomputable def store : Store where
  clientState := { clientState with initialCommittee := none }
  consensusStates := update (fun _ => none) 7 (some consensusState)
  committees := update (fun _ => none) 0 (some ⟨0, equalRights⟩)

/-- The checkpoint, signed by the validators at these positions. -/
noncomputable def headerOf (signers : List UInt32) : Header where
  trustedHeight := 7
  checkpointSummary := lastCheckpoint
  signInfo := ⟨0, signatureOf (signerKeys equalRights ⟨signers⟩)
    (checkpointMessage idealCodec lastCheckpoint), ⟨signers⟩⟩

theorem store_committee : store.committees lastCheckpoint.epoch = some ⟨0, equalRights⟩ := rfl

theorem store_committees {committee : Committee}
    (h : store.committees lastCheckpoint.epoch = some committee) :
    committee = ⟨0, equalRights⟩ := Option.some.inj (h.symm.trans store_committee)

theorem store_genuineStart : GenuineStart idealNetwork clientState consensusState where
  committee := by
    intro committee h
    obtain rfl := Option.some.inj h
    rfl
  consensusState := ⟨lastCheckpoint, rfl, rfl, rfl⟩

end Sample

open Sample in
theorem signed_run_sound : HeaderSound idealCodec idealHost contributedTo store (headerOf [0, 1, 2]) ∧
      Genuine idealNetwork (run idealCodec idealHost store [headerOf [0, 1, 2]]) := by
  have hrange : InRange equalRights ⟨[0, 1, 2]⟩ := by simp [InRange, equalRights]
  have hquorum : Quorum equalRights (positions ⟨[0, 1, 2]⟩) := by
    unfold Quorum
    decide
  have hchecked : Machine.Meets (step idealCodec idealHost) (HeaderChecked idealCodec idealHost)
      store [headerOf [0, 1, 2]] := by
    refine ⟨⟨?_, ?_⟩, trivial⟩
    · intro committee h
      rw [store_committees h]
      exact hrange
    · intro committee h _
      rw [store_committees h]
      exact hquorum
  have hsound := reached_sound idealHost_idealBls hchecked
  exact ⟨hsound.1 [] _ [] rfl,
    (hsound.2 idealNetwork clientState consensusState idealNetwork_lawful idealCodec_collisionFree
      rfl store_genuineStart _ [] rfl).1⟩

open Sample in
/-- **One of three validators is enough**, and a position that is none of theirs makes the client panic. -/
theorem lone_signer_accepted : create clientState consensusState = .ok store ∧
      verifyHeader idealCodec idealHost store (headerOf [0]) = .ok (updateOf store lastCheckpoint) ∧
      ¬ QuorumSigned idealCodec contributedTo equalRights (headerOf [0]).signInfo.signature lastCheckpoint ∧
      verifyHeader idealCodec idealHost store (headerOf [3]) = .error (.panic "index out of bounds") := by
  have hrange : InRange equalRights ⟨[0]⟩ := by simp [InRange, equalRights]
  have hver : verifySignature idealHost (signerKeys equalRights ⟨[0]⟩)
      (checkpointMessage idealCodec lastCheckpoint) (headerOf [0]).signInfo.signature = .ok () :=
    verifySignature_idealHost.mpr ⟨by decide, rfl, rfl⟩
  refine ⟨rfl, ?_, ?_, ?_⟩
  · refine verifyHeader_eq_ok.mpr ⟨⟨0, equalRights⟩, store_committee, ?_, rfl⟩
    rw [verifyCheckpoint_of_inRange hrange]
    exact hver
  · intro hsigned
    have hquorum := quorum_of_quorumSigned idealHost_idealBls equalRights_distinct hver hsigned
    unfold Quorum at hquorum
    revert hquorum
    decide
  · have hout : ¬ InRange equalRights ⟨[3]⟩ := by simp [InRange, equalRights]
    exact verifyHeader_panics store_committee hout

end UnionVoyager.Light.SuiClient
