import UnionVoyager.Core.Effect

/-!
# Batched acknowledgements

`batch_acks` walks over the packets and the acknowledgements side by side, up to the end of the
shorter list; it commits to all acknowledgements, under all packets.

* `ack_kept` — an acknowledgement once written stays, along every run.
-/

namespace UnionVoyager.Core.BatchAcks

open Lib Function

variable {H : Hashing} {s s' : State} {ps : List Packet} {acks : List Bytes} {r : Response}

structure Written (H : Hashing) (commitments : H256 → Option H256) (channelId : ChannelId)
    (p : Packet) (ack : Bytes) : Prop where
  channel : p.destinationChannelId = channelId
  committed : commitments (receiptsKey H [p]) = some (commitAck H ack)
  notEmpty : commitAck H ack ≠ COMMITMENT_MAGIC

variable {c : ChannelId} {b v : H256}

theorem batchAcksOne_ok_iff {es : List Event} {pa : Packet × Bytes} :
    (∃ es', batchAcksOne H s c b es pa = .ok es') ↔ Written H s.commitments c pa.1 pa.2 := by
  unfold batchAcksOne readCommit
  cases hslot : s.commitments (receiptsKey H [pa.1]) with
  | none =>
    simp only [bind_eq_ok, throw_ne_ok, and_false, exists_false, false_iff]
    intro h
    rw [h.committed] at hslot
    cases hslot
  | some ackCommitment =>
    simp only [bind_eq_ok, require_eq_ok, exists_const]
    constructor
    · rintro ⟨es', hchan, hempty, rfl, -⟩
      exact ⟨hchan, hslot, hempty⟩
    · intro h
      have hsame : ackCommitment = commitAck H pa.2 := Option.some.inj (hslot.symm.trans h.committed)
      exact ⟨_, h.channel, hsame ▸ h.notEmpty, hsame, rfl⟩

theorem foldlM_batchAcksOne_ok_iff (l : List (Packet × Bytes)) : ∀ es : List Event,
    (∃ es', l.foldlM (batchAcksOne H s c b) es = .ok es') ↔
      ∀ pa ∈ l, Written H s.commitments c pa.1 pa.2 := by
  induction l with
  | nil =>
    intro es
    exact ⟨fun _ pa hpa => (List.not_mem_nil hpa).elim, fun _ => ⟨es, rfl⟩⟩
  | cons pa l ih =>
    intro es
    simp only [List.foldlM_cons, bind_eq_ok, List.forall_mem_cons]
    constructor
    · rintro ⟨es'', es', hone, hrest⟩
      exact ⟨batchAcksOne_ok_iff.mp ⟨es', hone⟩, (ih es').mp ⟨es'', hrest⟩⟩
    · rintro ⟨hone, hrest⟩
      obtain ⟨es', hone⟩ := batchAcksOne_ok_iff.mpr hone
      obtain ⟨es'', hrest⟩ := (ih es').mpr hrest
      exact ⟨es'', es', hone, hrest⟩

/-- There are two packets, and the pairs up to the end of the shorter list were written. -/
def PairsWritten (H : Hashing) (s : State) (ps : List Packet) (acks : List Bytes) : Prop :=
  ∃ first second rest, ps = first :: second :: rest ∧
    ∀ pa ∈ ps.zip acks, Written H s.commitments first.destinationChannelId pa.1 pa.2

theorem batchAcks_ok_iff : (∃ r, batchAcks H s ps acks = .ok (s', r)) ↔
      PairsWritten H s ps acks ∧ s' = storeCommit s (receiptsKey H ps) (commitAcks H acks) := by
  match ps with
  | [] =>
    simp [batchAcks, PairsWritten]
  | [_] =>
    simp [batchAcks, PairsWritten]
  | first :: second :: rest =>
    simp only [batchAcks, bind_eq_ok, pure_eq_ok, Prod.mk.injEq]
    constructor
    · rintro ⟨r, es, hes, rfl, -⟩
      exact ⟨⟨first, second, rest, rfl, (foldlM_batchAcksOne_ok_iff _ _).mp ⟨es, hes⟩⟩, rfl⟩
    · rintro ⟨⟨first', second', rest', heq, hall⟩, rfl⟩
      cases heq
      obtain ⟨es, hes⟩ := (foldlM_batchAcksOne_ok_iff _ []).mpr hall
      exact ⟨_, es, hes, rfl, rfl⟩

/-! ## Written acknowledgements stay -/

/-- The receipt of `p` holds an acknowledgement, and it is `v`. -/
def Acked (H : Hashing) (p : Packet) (v : H256) (s : State) : Prop :=
  committed H s (.batchReceipts (commitPackets H [p])) = some v

variable {p : Packet}

theorem Acked.storeCommit (hH : H.CollisionFree) (h : Acked H p v s) {q : StorePath}
    (hq : StorePath.batchReceipts (commitPackets H [p]) ≠ q) (w : H256) :
      Acked H p v (storeCommit s (q.key H) w) := by
  unfold Acked
  rw [committed_storeCommit hH, if_neg hq]
  exact h

theorem effect_acked (hH : H.CollisionFree) {env : Env} {info : MessageInfo} {m : ExecuteMsg}
    {msgs : List Dispatch}
    (hv : v ≠ COMMITMENT_MAGIC) (he : Effect H env info s m s' msgs) (h : Acked H p v s) :
      Acked H p v s' := by
  cases he with
  | delayed => exact h
  | client hf => exact (hf.frame.committed hH (by simp) (by simp)).trans h
  | membershipProof | nonMembershipProof | send | batchSend => exact h.storeCommit hH (by simp) _
  | connectionOpenInit | connectionOpenTry =>
    unfold Acked
    rw [committed_addConnection hH, if_neg (by simp)]
    exact h
  | connectionOpenAck | connectionOpenConfirm =>
    unfold Acked
    rw [committed_saveConnection hH, if_neg (by simp)]
    exact h
  | channelOpenInit | channelOpenTry =>
    unfold Acked
    rw [committed_addChannel hH, if_neg (by simp)]
    exact h
  | channelOpenAck | channelOpenConfirm | channelCloseInit | channelCloseConfirm =>
    unfold Acked
    rw [committed_saveChannel hH, if_neg (by simp)]
    exact h
  | @batchAcks _ ps acks hlen =>
    refine h.storeCommit hH (q := .batchReceipts (commitPackets H ps)) ?_ _
    intro hsame
    have hps : [p] = ps := commitPackets_injective hH (StorePath.batchReceipts.inj hsame)
    rw [← hps] at hlen
    simp at hlen
  | @writeAcknowledgement _ q ack hmagic =>
    refine h.storeCommit hH (q := .batchReceipts (commitPackets H [q])) ?_ _
    intro hsame
    unfold Acked at h
    rw [hsame] at h
    exact hv (Option.some.inj (h.symm.trans hmagic))
  | receive _ _ _ _ _ hL =>
    refine hL.state_invariant (fun t o t' ht hR => ?_) h
    cases hR with
    | already => exact ht
    | @fresh q _ _ _ _ hnone =>
      refine ht.storeCommit hH (q := .batchReceipts (commitPackets H [q])) ?_ _
      intro hsame
      unfold Acked at ht
      rw [hsame] at ht
      exact Option.some_ne_none v (ht.symm.trans hnone)
  | acknowledge hL =>
    refine hL.state_invariant (fun t o t' ht hR => ?_) h
    cases hR
    exact ht.storeCommit hH (by simp) _
  | timeout => exact h.storeCommit hH (by simp) _

theorem ack_kept (hH : H.CollisionFree) (hv : v ≠ COMMITMENT_MAGIC) (h : Acked H p v s)
    (is : List Input) : Acked H p v (run H s is) := by
  refine Machine.state_invariant (I := Acked H p v) (fun t i ht => ?_) h is
  rcases step_cases H t i with he | he
  · rw [he]
    exact ht
  · exact effect_acked hH hv he ht

/-! ## Soundness -/

/-- The receipt of each packet is the acknowledgement at its place, and none is left over. -/
def Attested (H : Hashing) (s : State) (ps : List Packet) (acks : List Bytes) : Prop :=
  List.Forall₂ (fun p ack => s.commitments (receiptsKey H [p]) = some (commitAck H ack)) ps acks

/-- If `batch_acks` accepts the acknowledgements, they were written; and if, after any further
    messages, it accepts acknowledgements `acks'` of the same packets, the batch commitment does not
    change. -/
def BatchSound (H : Hashing) (s : State) (ps : List Packet) (acks : List Bytes) (is : List Input)
    (acks' : List Bytes) : Prop :=
  ∀ s' r, batchAcks H s ps acks = .ok (s', r) →
    Attested H s ps acks ∧
      ∀ s'' r', batchAcks H (run H s' is) ps acks' = .ok (s'', r') →
        s''.commitments (receiptsKey H ps) = some (commitAcks H acks)

theorem attested_unique (hacks : Injective (commitAcks H)) {acks' : List Bytes}
    (h : Attested H s ps acks) (h' : Attested H s ps acks') : acks = acks' := by
  unfold Attested at h h'
  induction h generalizing acks' with
  | nil =>
    cases h'
    rfl
  | @cons p ack ps acks hack _ ih =>
    cases h' with
    | cons hack' hrest =>
      have hone : [ack] = [_] := hacks (Option.some.inj (hack.symm.trans hack'))
      rw [ih hrest, List.head_eq_of_cons_eq hone]

theorem attested_iff (hlen : ps.length = acks.length) :
    Attested H s ps acks ↔ ∀ pa ∈ ps.zip acks,
      s.commitments (receiptsKey H [pa.1]) = some (commitAck H pa.2) := by
  unfold Attested
  rw [List.forall₂_iff_zip]
  constructor
  · intro h pa hpa
    exact h.2 hpa
  · intro h
    exact ⟨hlen, fun {a b} hab => h (a, b) hab⟩

theorem PairsWritten.attested (h : PairsWritten H s ps acks) (hlen : ps.length = acks.length) :
    Attested H s ps acks := by
  obtain ⟨_, _, _, rfl, hall⟩ := h
  rw [attested_iff hlen]
  intro pa hpa
  exact (hall pa hpa).committed

theorem PairsWritten.written (h : PairsWritten H s ps acks) (hlen : ps.length = acks.length) :
    ∀ p ∈ ps, ∃ v, v ≠ COMMITMENT_MAGIC ∧ Acked H p v s := by
  obtain ⟨_, _, _, -, hall⟩ := h
  intro p hp
  obtain ⟨i, hi, rfl⟩ := List.getElem_of_mem hp
  have hi' : i < acks.length := by omega
  have hmem : (ps[i], acks[i]) ∈ ps.zip acks := by
    rw [List.mem_iff_getElem]
    exact ⟨i, by rw [List.length_zip]; omega, List.getElem_zip ..⟩
  have hw := hall _ hmem
  exact ⟨_, hw.notEmpty, hw.committed⟩

theorem pairsWritten_congr {t : State}
    (h : ∀ p ∈ ps, t.commitments (receiptsKey H [p]) = s.commitments (receiptsKey H [p])) :
    PairsWritten H t ps acks ↔ PairsWritten H s ps acks := by
  have hwritten : ∀ c, ∀ pa ∈ ps.zip acks, Written H t.commitments c pa.1 pa.2 ↔
      Written H s.commitments c pa.1 pa.2 := by
    intro c pa hpa
    have hslot := h pa.1 (List.of_mem_zip hpa).1
    constructor
    · intro hw
      exact ⟨hw.channel, hslot ▸ hw.committed, hw.notEmpty⟩
    · intro hw
      exact ⟨hw.channel, hslot.trans hw.committed, hw.notEmpty⟩
  constructor
  · rintro ⟨first, second, rest, heq, hall⟩
    exact ⟨first, second, rest, heq, fun pa hpa => (hwritten _ pa hpa).mp (hall pa hpa)⟩
  · rintro ⟨first, second, rest, heq, hall⟩
    exact ⟨first, second, rest, heq, fun pa hpa => (hwritten _ pa hpa).mpr (hall pa hpa)⟩

theorem PairsWritten.later_iff (hH : H.CollisionFree) (h : PairsWritten H s ps acks)
    (hlen : ps.length = acks.length) (v : H256) (is : List Input) (acks' : List Bytes) :
    PairsWritten H (run H (storeCommit s (receiptsKey H ps) v) is) ps acks' ↔ PairsWritten H s ps acks' := by
  refine pairsWritten_congr (fun p hp => ?_)
  obtain ⟨w, hw, hacked⟩ := h.written hlen p hp
  have hne : StorePath.batchReceipts (commitPackets H [p]) ≠ .batchReceipts (commitPackets H ps) := by
    intro hsame
    obtain ⟨_, _, _, rfl, -⟩ := h
    cases commitPackets_injective hH (StorePath.batchReceipts.inj hsame)
  have hlater := ack_kept hH hw (hacked.storeCommit hH hne v) is
  exact hlater.trans hacked.symm

/-- **An accepted batch is sound exactly if there is an acknowledgement for every packet**; and
    repeating it stores the same exactly if there is one again. -/
theorem batch_sound_iff (hH : H.CollisionFree) (hacks : Injective (commitAcks H)) (s : State)
    (ps : List Packet) (acks : List Bytes) (is : List Input) (acks' : List Bytes) :
    BatchSound H s ps acks is acks' ↔
      (PairsWritten H s ps acks →
        ps.length = acks.length ∧ (PairsWritten H s ps acks' → ps.length = acks'.length)) := by
  constructor
  · intro h hw
    obtain ⟨r, hr⟩ := batchAcks_ok_iff.mpr ⟨hw, rfl⟩
    obtain ⟨hattested, hagain⟩ := h _ r hr
    have hlen : ps.length = acks.length := hattested.length_eq
    refine ⟨hlen, fun hw' => ?_⟩
    obtain ⟨r', hr'⟩ := batchAcks_ok_iff.mpr ⟨(hw.later_iff hH hlen _ is acks').mpr hw', rfl⟩
    have hstored := hagain _ r' hr'
    rw [storeCommit_self, Option.some.injEq] at hstored
    rw [hacks hstored]
    exact hlen
  · intro h s' r hr
    obtain ⟨hw, rfl⟩ := batchAcks_ok_iff.mp ⟨r, hr⟩
    obtain ⟨hlen, hlen'⟩ := h hw
    refine ⟨hw.attested hlen, fun s'' r' hr' => ?_⟩
    obtain ⟨hlater, rfl⟩ := batchAcks_ok_iff.mp ⟨r', hr'⟩
    have hw' := (hw.later_iff hH hlen _ is acks').mp hlater
    have hsame : Attested H s ps acks' := hw'.attested (hlen' hw')
    rw [storeCommit_self, attested_unique hacks hsame (hw.attested hlen)]

/-! ## A batch of nothing -/

namespace Sample

/-- A packet to channel 1. -/
def packet (data : Bytes) : Packet := ⟨⟨.one⟩, ⟨.one⟩, data, .mustBeZero, 9⟩

def both : List Packet := [packet [1], packet [2]]

/-- Both packets arrived and were acknowledged, with `[7]` and `[8]`. -/
def acknowledged : State :=
  storeCommit (storeCommit .init (receiptsKey .ideal [packet [1]]) (commitAck .ideal [7]))
    (receiptsKey .ideal [packet [2]]) (commitAck .ideal [8])

theorem commitAcks_injective : Injective (commitAcks .ideal) := by
  have hfirst : ∀ as : List Bytes, encList encBytes as = [0] ∧ as = [] ∨
      ∃ tail, tail ≠ [] ∧ encList encBytes as = 1 :: tail ∧ as ≠ [] := by
    intro as
    cases as with
    | nil => exact .inl ⟨rfl, rfl⟩
    | cons a as =>
      refine .inr ⟨_, ?_, rfl, List.cons_ne_nil a as⟩
      cases a <;> simp [encBytes, encList]
  intro as bs h
  have henc : (encList encBytes as).set 0 1 = (encList encBytes bs).set 0 1 := h
  rcases hfirst as with ⟨ha, rfl⟩ | ⟨ta, hta, ha, -⟩
  · rcases hfirst bs with ⟨hb, rfl⟩ | ⟨tb, htb, hb, -⟩
    · rfl
    · rw [ha, hb] at henc
      exact absurd (List.cons.inj henc).2.symm htb
  · rcases hfirst bs with ⟨hb, rfl⟩ | ⟨tb, htb, hb, -⟩
    · rw [ha, hb] at henc
      exact absurd (List.cons.inj henc).2 hta
    · rw [ha, hb] at henc
      have htails : ta = tb := (List.cons.inj henc).2
      exact selfDelimiting_encBytes.list.injective (by rw [ha, hb, htails])

end Sample

open Sample in
/-- The theorem at two acknowledged packets, batched with their acknowledgements and again with the
    first one only. -/
theorem batch_sound_sample : BatchSound .ideal acknowledged both [[7], [8]] [] [[7], [8]] ∧
      ¬ BatchSound .ideal acknowledged both [[7], [8]] [] [[7]] := by
  have hfirst : Written .ideal acknowledged.commitments ⟨.one⟩ (packet [1]) [7] :=
    ⟨rfl, by decide +kernel, by decide⟩
  have hsecond : Written .ideal acknowledged.commitments ⟨.one⟩ (packet [2]) [8] :=
    ⟨rfl, by decide +kernel, by decide⟩
  have hall : PairsWritten .ideal acknowledged both [[7], [8]] :=
    ⟨_, _, _, rfl, by simpa [both] using ⟨hfirst, hsecond⟩⟩
  have hpart : PairsWritten .ideal acknowledged both [[7]] := ⟨_, _, _, rfl, by
    intro pa hpa
    rw [List.mem_singleton.mp hpa]
    exact hfirst⟩
  constructor
  · refine (batch_sound_iff Hashing.ideal_collisionFree commitAcks_injective ..).mpr fun _ => ?_
    exact ⟨rfl, fun _ => rfl⟩
  · intro h
    have hlen := (batch_sound_iff Hashing.ideal_collisionFree commitAcks_injective ..).mp h hall
    exact absurd (hlen.2 hpart) (by decide)

open Sample in
/-- **A batch of two packets that were never received**, with no acknowledgement, is accepted:
    nothing is looked at. -/
theorem nothing_written : ¬ ∀ s s' : State, ∀ ps acks r, batchAcks .ideal s ps acks = .ok (s', r) →
      ps.length = acks.length ∧ Attested .ideal s ps acks := by
  intro h
  have hw : PairsWritten .ideal .init both [] := ⟨_, _, _, rfl, by simp⟩
  obtain ⟨r, hr⟩ := batchAcks_ok_iff.mpr ⟨hw, rfl⟩
  exact absurd (h _ _ _ _ r hr).1 (by decide)

end UnionVoyager.Core.BatchAcks
