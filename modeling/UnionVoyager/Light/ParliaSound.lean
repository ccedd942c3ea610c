import Mathlib.Data.Finset.Card
import Mathlib.Data.List.Chain
import Mathlib.Data.UInt
import UnionVoyager.Light.Parlia

/-!
# What the parlia verifier shows

The signers are those the aggregate signature was made by (`contributed`), and the hash of a header
has no collision.

* `verifyHeader_accepted` — everything an accepted chain satisfies.
* `Ancestor.unique` — an ancestor of a header is determined by the hash of that header and its own number.
* `sound_iff` — **when an accepted chain shows what it should**.
* `verifyHeader_signed` — two thirds of the set have signed where no bit is set beyond it.
-/

namespace UnionVoyager.Light.Parlia

open Lib Function List

variable {codec : Codec} {ctx : VerificationContext} {chain : List ParliaHeader} {unbondPeriod epoch : UInt64}
  {oldest : ParliaHeader} {rotation : Option (UInt64 × Valset)}

/-! ## Chains of headers -/

def Linked (hash : ParliaHeader → H256) (parent child : ParliaHeader) : Prop :=
  child.number.toNat = parent.number.toNat + 1 ∧ child.parentHash = hash parent

/-- `a` is `h` or a header below it. -/
inductive Ancestor (hash : ParliaHeader → H256) (a : ParliaHeader) : ParliaHeader → Prop
  | refl : Ancestor hash a a
  | step {parent child : ParliaHeader} : Ancestor hash a parent → Linked hash parent child →
      Ancestor hash a child

variable {a h : ParliaHeader}

theorem Ancestor.number_le {hash : ParliaHeader → H256} (ha : Ancestor hash a h) :
    a.number.toNat ≤ h.number.toNat := by
  induction ha with
  | refl => exact Nat.le_refl _
  | step _ hlink ih =>
    have := hlink.1
    omega

theorem Ancestor.of_parent {hash : ParliaHeader → H256} {b : ParliaHeader} (hlink : Linked hash a b)
    (hb : Ancestor hash b h) : Ancestor hash a h := by
  induction hb with
  | refl => exact .step .refl hlink
  | step _ hlink' ih => exact .step ih hlink'

theorem Ancestor.unique {hash : ParliaHeader → H256} (hinj : Injective hash) (ha : Ancestor hash a h) :
    ∀ {b : ParliaHeader}, Ancestor hash b h → b.number = a.number → b = a := by
  induction ha with
  | refl =>
    intro b hb hnumber
    cases hb with
    | refl => rfl
    | step hb' hlink =>
      have hle := hb'.number_le
      have hnext := hlink.1
      rw [hnumber] at hle
      omega
  | step ha' hlink ih =>
    intro b hb hnumber
    cases hb with
    | refl =>
      have hle := ha'.number_le
      have hnext := hlink.1
      rw [← hnumber] at hle
      omega
    | step hb' hlink' =>
      obtain rfl := hinj (hlink.2.symm.trans hlink'.2)
      exact ih hb' hnumber

theorem checkParent_eq_ok {child parent r : ParliaHeader} : checkParent codec child parent = .ok r ↔
      parent.number.toNat + 1 < 2 ^ 256 ∧ Linked codec.hash parent child ∧ parent = r := by
  simp [checkParent, Linked]

theorem foldlM_checkParent : ∀ (rs : List ParliaHeader) (child r : ParliaHeader),
    rs.foldlM (checkParent codec) child = .ok r →
      (child :: rs).reverse.IsChain (Linked codec.hash) ∧ (child :: rs).reverse.head? = some r
  | [], child, r, h => by
    obtain rfl : child = r := by simpa [pure, Except.pure] using h
    simp
  | parent :: rs, child, r, h => by
    simp only [foldlM_cons, bind_eq_ok, checkParent_eq_ok] at h
    obtain ⟨_, ⟨-, hlink, rfl⟩, h⟩ := h
    obtain ⟨hchain, hhead⟩ := foldlM_checkParent rs parent r h
    rw [reverse_cons]
    constructor
    · refine List.isChain_append.mpr ⟨hchain, isChain_singleton child, ?_⟩
      intro x hx y hy
      obtain rfl : parent = x := by simpa using hx
      obtain rfl : child = y := by simpa using hy
      exact hlink
    · rw [head?_append, hhead]
      rfl

theorem ancestor_of_mem {hash : ParliaHeader → H256} : ∀ (l : List ParliaHeader) (a : ParliaHeader),
    (a :: l).IsChain (Linked hash) → ∀ h ∈ a :: l, Ancestor hash a h
  | [], a, _, h, hmem => by
    obtain rfl := List.mem_singleton.mp hmem
    exact .refl
  | b :: l, a, hchain, h, hmem => by
    obtain ⟨hlink, hrest⟩ := List.isChain_cons_cons.mp hchain
    rcases List.mem_cons.mp hmem with rfl | hmem
    · exact .refl
    · exact .of_parent hlink (ancestor_of_mem l b hrest h hmem)

theorem number_getElem? {hash : ParliaHeader → H256} : ∀ (l : List ParliaHeader) (a : ParliaHeader) (i : Nat)
    (h : ParliaHeader), (a :: l).IsChain (Linked hash) → (a :: l)[i]? = some h →
      h.number.toNat = a.number.toNat + i
  | _, a, 0, h, _, hget => by
    obtain rfl : a = h := by simpa using hget
    rfl
  | [], a, i + 1, h, _, hget => by simp at hget
  | b :: l, a, i + 1, h, hchain, hget => by
    obtain ⟨hlink, hrest⟩ := List.isChain_cons_cons.mp hchain
    have hb := number_getElem? l b i h hrest (by simpa using hget)
    have hnext := hlink.1
    omega

/-! ## What is accepted -/

/-- The attestation that the last header carries. -/
def attestationOf (codec : Codec) (chain : List ParliaHeader) : Option VoteAttestation :=
  chain.getLast?.bind fun header =>
    match getVoteAttestationFromHeaderExtraData codec header with
    | .ok vote => vote
    | .error _ => none

def lastNumber (chain : List ParliaHeader) : Option UInt64 := chain.getLast?.bind fun header =>
    header.number.toU64

/-- Everything an accepted chain satisfies. -/
structure Accepted (codec : Codec) (ctx : VerificationContext) (chain : List ParliaHeader) (epoch : UInt64)
    (oldest : ParliaHeader) (rotation : Option (UInt64 × Valset)) (vote : VoteAttestation) (valset : Valset)
    (last : UInt64) (source target : ParliaHeader) : Prop where
  vote_eq : attestationOf codec chain = some vote
  valset_eq : ctx.getValset epoch = some valset
  last_eq : lastNumber chain = some last
  linked : chain.IsChain (Linked codec.hash)
  head : chain.head? = some oldest
  source_at : chain[position chain.length last vote.data.sourceNumber]? = some source
  target_at : chain[position chain.length last vote.data.targetNumber]? = some target
  source_hash : vote.data.sourceHash = codec.hash source
  target_hash : vote.data.targetHash = codec.hash target
  supermajority : checkSupermajority vote valset.length = true
  sorted : isSortedBy memberLt (signingValset vote.voteAddressSet valset) = true
  verified : ctx.verify ((signingValset vote.voteAddressSet valset).map Prod.snd) (codec.voteHash vote.data)
    vote.aggSignature = true
  rotation_eq : epochRotationData codec oldest = .ok rotation

theorem verifyHeader_accepted (h : verifyHeader codec ctx chain unbondPeriod epoch = .ok (oldest, rotation)) :
    ∃ vote valset last source target,
      Accepted codec ctx chain epoch oldest rotation vote valset last source target := by
  simp only [verifyHeader, bind_eq_ok, ensure_eq_ok, orErr_eq_ok, pure_eq_ok, exists_const,
    Prod.mk.injEq] at h
  obtain ⟨-, attestation, hlast, _, -, -, _, hfold, vote?, hvote, vote, hsome, last, hnumber,
    source, hsource, target,
    htarget, ⟨hsourceHash, htargetHash⟩, valset, hvalset, -, hsuper, hsorted, hver, _, hrotation,
      rfl, rfl⟩ := h
  obtain ⟨rest, rfl⟩ := List.getLast?_eq_some_iff.mp hlast
  rw [reverse_append, reverse_singleton, singleton_append, drop_one, tail_cons] at hfold
  obtain ⟨hlinked, hhead⟩ := foldlM_checkParent _ _ _ hfold
  have hrev : (attestation :: rest.reverse).reverse = rest ++ [attestation] := by simp
  rw [hrev] at hlinked hhead
  refine ⟨vote, valset, last, source, target, ?_⟩
  exact {
    vote_eq := by simp [attestationOf, hvote, hsome]
    valset_eq := hvalset
    last_eq := by simp [lastNumber, hnumber]
    linked := hlinked
    head := hhead
    source_at := hsource
    target_at := htarget
    source_hash := hsourceHash
    target_hash := htargetHash
    supermajority := hsuper
    sorted := hsorted
    verified := hver
    rotation_eq := hrotation }

/-! ## Votes -/

theorem isSortedBy_iff {lt : Validator → Validator → Bool} : ∀ (l : List Validator),
    isSortedBy lt l = true ↔ l.IsChain fun a b => lt a b = true
  | [] => by simp [isSortedBy]
  | [a] => by simp [isSortedBy]
  | a :: b :: l => by simp [isSortedBy, isSortedBy_iff (b :: l)]

theorem memberLt_trans {a b c : Validator} (hab : memberLt a b = true) (hbc : memberLt b c = true) :
    memberLt a c = true := by
  simp only [memberLt, decide_eq_true_eq] at hab hbc ⊢
  rcases hab with hab | ⟨hab, hab'⟩
  · rcases hbc with hbc | ⟨hbc, -⟩
    · exact .inl (List.lt_trans hab hbc)
    · exact .inl (hbc ▸ hab)
  · rcases hbc with hbc | ⟨hbc, hbc'⟩
    · exact .inl (hab ▸ hbc)
    · exact .inr ⟨hab.trans hbc, List.lt_trans hab' hbc'⟩

theorem memberLt_irrefl (a : Validator) : memberLt a a = false := by
  simp only [memberLt, decide_eq_false_iff_not]
  rintro (h | ⟨-, h⟩)
  · exact List.lt_irrefl _ h
  · exact List.lt_irrefl _ h

instance : Trans (fun a b : Validator => memberLt a b = true) (fun a b => memberLt a b = true)
    (fun a b => memberLt a b = true) := ⟨memberLt_trans⟩

theorem nodup_of_sorted {l : List Validator} (h : isSortedBy memberLt l = true) : l.Nodup := by
  have hpairwise := List.isChain_iff_pairwise.mp ((isSortedBy_iff l).mp h)
  refine hpairwise.imp ?_
  rintro a _ hlt rfl
  rw [memberLt_irrefl] at hlt
  cases hlt

theorem length_signingValset (bits : ValidatorsBitSet) (valset : Valset) :
    (signingValset bits valset).length = (List.range valset.length).countP (isSet bits) := by
  have hindex : valset.zipIdx.map Prod.snd = List.range valset.length := by
    rw [zipIdx_map_snd, range_eq_range']
  rw [signingValset, length_map, ← countP_eq_length_filter, ← hindex, countP_map]
  rfl

theorem mem_of_mem_signingValset {bits : ValidatorsBitSet} {valset : Valset} {v : Validator}
    (h : v ∈ signingValset bits valset) : v ∈ valset := by
  obtain ⟨e, he, rfl⟩ := List.mem_map.mp h
  rw [← zipIdx_map_fst 0 valset]
  exact mem_map_of_mem (mem_of_mem_filter he)

theorem countP_range_le {p : Nat → Bool} {m n : Nat} (h : ∀ i, n ≤ i → i < m → p i = false) :
    (List.range m).countP p ≤ (List.range n).countP p := by
  rcases Nat.le_total m n with hle | hle
  · exact (List.range_sublist.mpr hle).countP_le
  · obtain ⟨k, rfl⟩ := Nat.exists_eq_add_of_le hle
    have hzero : ((List.range k).map (n + ·)).countP p = 0 := by
      rw [countP_eq_zero]
      intro i hi
      obtain ⟨j, hj, rfl⟩ := List.mem_map.mp hi
      have hlt := List.mem_range.mp hj
      simp [h (n + j) (by omega) (by omega)]
    rw [range_add, countP_append, hzero]
    exact Nat.le_refl _

/-- The different members of the set whose keys the bits select. -/
def selected (bits : ValidatorsBitSet) (valset : Valset) : Finset Validator :=
  valset.toFinset.filter fun v => v.2 ∈ (signingValset bits valset).map Prod.snd

theorem quorum_of_inRange {vote : VoteAttestation} {valset : Valset}
    (hsuper : checkSupermajority vote valset.length = true)
    (hsorted : isSortedBy memberLt (signingValset vote.voteAddressSet valset) = true)
    (hrange : ∀ i, valset.length ≤ i → i < 64 → isSet vote.voteAddressSet i = false) :
    2 * valset.length < 3 * (selected vote.voteAddressSet valset).card := by
  have hcount : count vote.voteAddressSet ≤ (signingValset vote.voteAddressSet valset).length := by
    rw [length_signingValset]
    exact countP_range_le hrange
  have hsubset : (signingValset vote.voteAddressSet valset).toFinset ⊆ selected vote.voteAddressSet
      valset := by
    intro v hv
    rw [mem_toFinset] at hv
    exact Finset.mem_filter.mpr
      ⟨List.mem_toFinset.mpr (mem_of_mem_signingValset hv), mem_map_of_mem hv⟩
  have hcard := Finset.card_le_card hsubset
  rw [toFinset_card_of_nodup (nodup_of_sorted hsorted)] at hcard
  simp only [checkSupermajority, decide_eq_true_eq] at hsuper
  omega

/-! ## What a chain should show -/

/-- The header has not expired. -/
def Fresh (ctx : VerificationContext) (unbondPeriod : UInt64) (header : ParliaHeader) : Prop :=
  ∃ expires, plusDuration header.fullTimestamp unbondPeriod = some expires ∧ ctx.currentTimestamp ≤ expires

/-- What an accepted chain promises; `contributed` says by which keys an aggregate signature of a
    message was made. -/
structure Sound (codec : Codec) (ctx : VerificationContext) (contributed : H768 → Bytes → H384 → Prop)
    (chain : List ParliaHeader) (unbondPeriod epoch : UInt64) (oldest : ParliaHeader)
    (rotation : Option (UInt64 × Valset)) : Prop where
  signed : ∀ vote valset, attestationOf codec chain = some vote → ctx.getValset epoch = some valset →
    ∃ signers : Finset Validator, 2 * valset.length < 3 * signers.card ∧
      ∀ v ∈ signers, v ∈ valset ∧ contributed vote.aggSignature (codec.voteHash vote.data) v.2
  ordered : ∀ vote, attestationOf codec chain = some vote → ∃ source ∈ chain, ∃ target ∈ chain,
    codec.hash source = vote.data.sourceHash ∧ codec.hash target = vote.data.targetHash ∧
      source.number.toNat ≤ target.number.toNat
  determined : ∀ vote, attestationOf codec chain = some vote →
    (∃ target, codec.hash target = vote.data.targetHash ∧ Ancestor codec.hash oldest target) ∧
    (∀ other target, codec.hash target = vote.data.targetHash → Ancestor codec.hash other target →
      other.number = oldest.number → other = oldest) ∧
    epochRotationData codec oldest = .ok rotation
  fresh : Fresh ctx unbondPeriod oldest

/-- What the verifier does not check. -/
structure Honest (codec : Codec) (ctx : VerificationContext) (chain : List ParliaHeader)
    (unbondPeriod epoch : UInt64) : Prop where
  quorum : ∀ vote valset, attestationOf codec chain = some vote → ctx.getValset epoch = some valset →
    2 * valset.length < 3 * (selected vote.voteAddressSet valset).card
  ordered : ∀ vote last, attestationOf codec chain = some vote → lastNumber chain = some last →
    position chain.length last vote.data.sourceNumber ≤ position chain.length last vote.data.targetNumber
  fresh : ∀ first, chain.head? = some first → Fresh ctx unbondPeriod first

/-- An aggregate signature is made by exactly the keys it verifies for. -/
def IdealBls (ctx : VerificationContext) (contributed : H768 → Bytes → H384 → Prop) : Prop :=
  ∀ keys msg signature, ctx.verify keys msg signature = true → ∀ k, k ∈ keys ↔ contributed signature msg k

section Accepted

variable {contributed : H768 → Bytes → H384 → Prop} {vote : VoteAttestation} {valset : Valset} {last : UInt64}
  {source target : ParliaHeader}
  (ha : Accepted codec ctx chain epoch oldest rotation vote valset last source target)

include ha

theorem Accepted.signed_iff (hbls : IdealBls ctx contributed) :
    (∃ signers : Finset Validator, 2 * valset.length < 3 * signers.card ∧
      ∀ v ∈ signers, v ∈ valset ∧ contributed vote.aggSignature (codec.voteHash vote.data) v.2) ↔
    2 * valset.length < 3 * (selected vote.voteAddressSet valset).card := by
  have hkeys := hbls _ _ _ ha.verified
  constructor
  · rintro ⟨signers, hcard, hsigners⟩
    have hsubset : signers ⊆ selected vote.voteAddressSet valset := by
      intro v hv
      obtain ⟨hmem, hsigned⟩ := hsigners v hv
      exact Finset.mem_filter.mpr ⟨List.mem_toFinset.mpr hmem, (hkeys v.2).mpr hsigned⟩
    have hle := Finset.card_le_card hsubset
    omega
  · intro hquorum
    refine ⟨_, hquorum, ?_⟩
    intro v hv
    obtain ⟨hmem, hkey⟩ := Finset.mem_filter.mp hv
    exact ⟨List.mem_toFinset.mp hmem, (hkeys v.2).mp hkey⟩

theorem Accepted.chain_eq : ∃ rest, chain = oldest :: rest := by
  have hhead := ha.head
  cases chain with
  | nil => cases hhead
  | cons first rest =>
    obtain rfl : first = oldest := by simpa using hhead
    exact ⟨rest, rfl⟩

theorem Accepted.ordered_iff (hinj : Injective codec.hash) :
    (∃ s ∈ chain, ∃ t ∈ chain, codec.hash s = vote.data.sourceHash ∧ codec.hash t = vote.data.targetHash ∧
      s.number.toNat ≤ t.number.toNat) ↔
    position chain.length last vote.data.sourceNumber ≤ position chain.length last
      vote.data.targetNumber := by
  obtain ⟨rest, hchain⟩ := ha.chain_eq
  have hnumbers : source.number.toNat ≤ target.number.toNat ↔
      position chain.length last vote.data.sourceNumber ≤ position chain.length last
        vote.data.targetNumber := by
    have hlinked := ha.linked
    have hsource := ha.source_at
    have htarget := ha.target_at
    generalize position chain.length last vote.data.sourceNumber = i at hsource ⊢
    generalize position chain.length last vote.data.targetNumber = j at htarget ⊢
    rw [hchain] at hlinked hsource htarget
    have hi := number_getElem? rest oldest i source hlinked hsource
    have hj := number_getElem? rest oldest j target hlinked htarget
    omega
  rw [← hnumbers]
  constructor
  · rintro ⟨s, -, t, -, hs, ht, hle⟩
    obtain rfl := hinj (hs.trans ha.source_hash)
    obtain rfl := hinj (ht.trans ha.target_hash)
    exact hle
  · intro hle
    exact ⟨source, mem_of_getElem? ha.source_at, target, mem_of_getElem? ha.target_at, ha.source_hash.symm,
      ha.target_hash.symm, hle⟩

theorem Accepted.determined (hinj : Injective codec.hash) :
    (∃ t, codec.hash t = vote.data.targetHash ∧ Ancestor codec.hash oldest t) ∧
    (∀ other t, codec.hash t = vote.data.targetHash → Ancestor codec.hash other t →
      other.number = oldest.number → other = oldest) ∧
    epochRotationData codec oldest = .ok rotation := by
  obtain ⟨rest, hchain⟩ := ha.chain_eq
  have hbelow : Ancestor codec.hash oldest target := by
    have hlinked := ha.linked
    have hmem := mem_of_getElem? ha.target_at
    rw [hchain] at hlinked hmem
    exact ancestor_of_mem rest oldest hlinked target hmem
  refine ⟨⟨target, ha.target_hash.symm, hbelow⟩, ?_, ha.rotation_eq⟩
  intro other t ht hother hnumber
  obtain rfl := hinj (ht.trans ha.target_hash)
  exact hbelow.unique hinj hother hnumber

end Accepted

/-- **An accepted chain shows what it should iff what is not checked holds.** -/
theorem sound_iff {contributed : H768 → Bytes → H384 → Prop} (hbls : IdealBls ctx contributed)
    (hinj : Injective codec.hash)
    (h : verifyHeader codec ctx chain unbondPeriod epoch = .ok (oldest, rotation)) :
    Sound codec ctx contributed chain unbondPeriod epoch oldest rotation ↔
      Honest codec ctx chain unbondPeriod epoch := by
  obtain ⟨vote, valset, last, source, target, hacc⟩ := verifyHeader_accepted h
  have hvote : ∀ vote', attestationOf codec chain = some vote' → vote' = vote := by
    intro vote' hvote'
    exact Option.some.inj (hvote'.symm.trans hacc.vote_eq)
  have hvalset : ∀ valset', ctx.getValset epoch = some valset' → valset' = valset := by
    intro valset' hvalset'
    exact Option.some.inj (hvalset'.symm.trans hacc.valset_eq)
  constructor
  · intro hsound
    constructor
    · intro vote' valset' hvote' hvalset'
      obtain rfl := hvote vote' hvote'
      obtain rfl := hvalset valset' hvalset'
      exact (hacc.signed_iff hbls).mp (hsound.signed _ _ hvote' hvalset')
    · intro vote' last' hvote' hlast'
      obtain rfl := hvote vote' hvote'
      obtain rfl : last' = last := Option.some.inj (hlast'.symm.trans hacc.last_eq)
      exact (hacc.ordered_iff hinj).mp (hsound.ordered _ hvote')
    · intro first hfirst
      obtain rfl : first = oldest := Option.some.inj (hfirst.symm.trans hacc.head)
      exact hsound.fresh
  · intro hhonest
    constructor
    · intro vote' valset' hvote' hvalset'
      obtain rfl := hvote vote' hvote'
      obtain rfl := hvalset valset' hvalset'
      exact (hacc.signed_iff hbls).mpr (hhonest.quorum _ _ hvote' hvalset')
    · intro vote' hvote'
      obtain rfl := hvote vote' hvote'
      exact (hacc.ordered_iff hinj).mpr (hhonest.ordered _ _ hvote' hacc.last_eq)
    · intro vote' hvote'
      obtain rfl := hvote vote' hvote'
      exact hacc.determined hinj
    · exact hhonest.fresh oldest hacc.head

/-- **Where no bit is set beyond the stored set, an accepted chain is signed by more than two thirds
    of it.** -/
theorem verifyHeader_signed {contributed : H768 → Bytes → H384 → Prop} {vote : VoteAttestation}
    {valset : Valset} (hbls : IdealBls ctx contributed)
    (hacc : verifyHeader codec ctx chain unbondPeriod epoch = .ok (oldest, rotation))
    (hvote : attestationOf codec chain = some vote) (hvalset : ctx.getValset epoch = some valset)
    (hrange : ∀ i, valset.length ≤ i → i < 64 → isSet vote.voteAddressSet i = false) :
    ∃ signers : Finset Validator, 2 * valset.length < 3 * signers.card ∧
      ∀ v ∈ signers, v ∈ valset ∧ contributed vote.aggSignature (codec.voteHash vote.data) v.2 := by
  obtain ⟨vote', valset', last, source, target, h⟩ := verifyHeader_accepted hacc
  obtain rfl := Option.some.inj (hvote.symm.trans h.vote_eq)
  obtain rfl := Option.some.inj (hvalset.symm.trans h.valset_eq)
  exact (h.signed_iff hbls).mpr (quorum_of_inRange h.supermajority h.sorted hrange)

/-! ## Three headers -/

namespace Sample

instance : DecidableEq (Option (UInt64 × Valset)) := inferInstance

instance : DecidableEq (ParliaHeader × Option (UInt64 × Valset)) := instDecidableEqProd

/-- A hash without collisions: the fields one after the other. -/
def hash (h : ParliaHeader) : H256 :=
  encList encBytes [beBytes 32 h.number.toNat, beBytes 8 h.timestamp.toNat, h.parentHash,
    h.stateRoot, h.extraData, h.mixHash, h.rest]

theorem hash_injective : Injective hash := by
  rintro ⟨p, s, ⟨n, hn⟩, t, e, m, r⟩ ⟨p', s', ⟨n', hn'⟩, t', e', m', r'⟩ h
  have hfields := selfDelimiting_encBytes.list.injective h
  simp only [List.cons.injEq, and_true] at hfields
  obtain ⟨hnumber, htime, rfl, rfl, rfl, rfl, rfl⟩ := hfields
  have hpow : (2 : Nat) ^ 256 = 256 ^ 32 := by decide
  obtain rfl := beBytes_inj 32 (hpow ▸ hn) (hpow ▸ hn') hnumber
  obtain rfl := UInt64.toNat_inj.mp (beBytes_inj 8 t.toNat_lt t'.toNat_lt htime)
  rfl

/-- A signature is the message and the keys, of one byte each. -/
def contributed (signature : H768) (msg : Bytes) (k : H384) : Prop := ∃ b ∈ signature.drop msg.length, k = [b]

def context (now : UInt64) : VerificationContext where
  currentTimestamp := now
  getValset epoch := if epoch = 1000 then some [([1], [11]), ([2], [12]), ([3], [13])] else none
  verify keys msg signature :=
    decide (signature.take msg.length = msg ∧ keys = (signature.drop msg.length).map fun b => [b])

theorem context_idealBls (now : UInt64) : IdealBls (context now) contributed := by
  intro keys msg signature h k
  obtain ⟨-, rfl⟩ := of_decide_eq_true h
  simp only [mem_map, contributed, eq_comm]

def header (number : Nat) (hn : number < 2 ^ 256) (timestamp : UInt64) (parentHash : H256)
    (extraData : Bytes) : ParliaHeader :=
  ⟨parentHash, [], ⟨number, hn⟩, timestamp, extraData, replicate 32 0, []⟩

/-- The first header is much older than the one that carries the attestation. -/
def first : ParliaHeader := header 2003 (by decide) 100 [] []
def second : ParliaHeader := header 2004 (by decide) 101 (hash first) []
def third : ParliaHeader := header 2005 (by decide) 500 (hash second)
    (replicate 32 0 ++ [1] ++ replicate 65 0)

def headers : List ParliaHeader := [first, second, third]

def codecOf (vote : VoteAttestation) : Codec where
  hash := hash
  voteHash _ := [7]
  decodeVoteAttestation data := if data = [1] then some vote else none

/-- All three validators vote. -/
def fullVote : VoteAttestation := ⟨0b111, [7, 11, 12, 13], ⟨2003, hash first, 2004, hash second⟩⟩

theorem sound_iff_sample :
    Sound (codecOf fullVote) (context 105000000000) contributed headers 10000000000 1000 first none := by
  have hacc : verifyHeader (codecOf fullVote) (context 105000000000) headers 10000000000 1000 =
      .ok (first, none) := by decide +kernel
  have hvote : attestationOf (codecOf fullVote) headers = some fullVote := by decide +kernel
  refine (sound_iff (context_idealBls _) hash_injective hacc).mpr ?_
  constructor
  · intro vote valset hvote' hvalset
    obtain rfl := Option.some.inj (hvote.symm.trans hvote')
    obtain rfl : [([1], [11]), ([2], [12]), ([3], [13])] = valset := Option.some.inj hvalset
    decide
  · intro vote last hvote' hlast
    obtain rfl := Option.some.inj (hvote.symm.trans hvote')
    obtain rfl : 2005 = last := Option.some.inj hlast
    decide
  · intro oldest holdest
    obtain rfl : first = oldest := Option.some.inj holdest
    exact ⟨110000000000, by decide, by decide⟩

theorem verifyHeader_signed_sample :
    let valset : Valset := [([1], [11]), ([2], [12]), ([3], [13])]
    ∃ signers : Finset Validator, 2 * valset.length < 3 * signers.card ∧ ∀ v ∈ signers, v ∈ valset ∧
      contributed fullVote.aggSignature ((codecOf fullVote).voteHash fullVote.data) v.2 := by
  have hacc : verifyHeader (codecOf fullVote) (context 105000000000) headers 10000000000 1000 =
      .ok (first, none) := by decide +kernel
  have hvote : attestationOf (codecOf fullVote) headers = some fullVote := by decide +kernel
  refine verifyHeader_signed (context_idealBls _) hacc hvote rfl ?_
  decide

/-- One validator votes, with two bits that belong to nobody, from the second header back to the first. -/
def paddedVote : VoteAttestation := ⟨0b1 + 2 ^ 62 + 2 ^ 63, [7, 11], ⟨2004, hash second, 2003, hash first⟩⟩

/-- One vote of three is accepted, and a header that expired long ago is returned. -/
theorem padded_bits_accepted :
    verifyHeader (codecOf paddedVote) (context 505000000000) headers 10000000000 1000 = .ok (first, none) ∧
    ¬ Sound (codecOf paddedVote) (context 505000000000) contributed headers 10000000000 1000 first none ∧
    ¬ Fresh (context 505000000000) 10000000000 first := by
  have hacc : verifyHeader (codecOf paddedVote) (context 505000000000) headers 10000000000 1000 =
      .ok (first, none) := by decide +kernel
  have hvote : attestationOf (codecOf paddedVote) headers = some paddedVote := by decide +kernel
  refine ⟨hacc, ?_, ?_⟩
  · intro hsound
    obtain ⟨vote, valset, last, source, target, h⟩ := verifyHeader_accepted hacc
    have hquorum := (h.signed_iff (context_idealBls _)).mp (hsound.signed _ _ h.vote_eq h.valset_eq)
    obtain rfl := Option.some.inj (hvote.symm.trans h.vote_eq)
    obtain rfl : [([1], [11]), ([2], [12]), ([3], [13])] = valset := Option.some.inj h.valset_eq
    revert hquorum
    decide +kernel
  · rintro ⟨expires, hexpires, hle⟩
    obtain rfl : 110000000000 = expires := Option.some.inj
      ((by decide : plusDuration _ _ = _).symm.trans hexpires)
    exact absurd hle (by decide)

end Sample

end UnionVoyager.Light.Parlia
