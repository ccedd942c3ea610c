import UnionVoyager.Core.BatchAcks
import UnionVoyager.Net.Handshake

/-!
# Packet safety between two chains

Two chains whose clients all track the other chain.  Nothing is assumed of the messages: handshakes,
batches of any size, proofs at any height, intents, and the unverified messages all interleave.

A transaction is read as a chain of small steps (`PacketStep`), one for each packet it receives,
acknowledges or times out, so a batch needs no argument of its own.

* `run_packetsKept` — what is on record of a packet is final.
-/

namespace UnionVoyager.Net

open Core Lib Function

/-! ## Packet callbacks -/

/-- The dispatch delivers `p` to the receiving app. -/
def receives (p : Packet) (d : Dispatch) : Bool :=
  match d.msg with
  | .onRecvPacket _ q _ _ => q = p
  | .onIntentRecvPacket _ q _ _ => q = p
  | _ => false

/-- The dispatch tells the sending app that `p` timed out. -/
def timesOut (p : Packet) (d : Dispatch) : Bool :=
  match d.msg with
  | .onTimeoutPacket _ q _ => q = p
  | _ => false

/-- The dispatch completes `p` on the sending app. -/
def completes (p : Packet) (d : Dispatch) : Bool :=
  match d.msg with
  | .onAcknowledgementPacket _ q _ _ => q = p
  | .onTimeoutPacket _ q _ => q = p
  | _ => false

theorem completes_of_timesOut {p : Packet} {d : Dispatch} (h : timesOut p d = true) :
    completes p d = true := by
  unfold timesOut at h
  split at h
  · rename_i hd
    simpa [completes, hd] using h
  · cases h

/-- How many dispatches of chain `i` satisfy `f`. -/
def count {ι : Type} [DecidableEq ι] (i : ι) (f : Dispatch → Bool) (tr : List (ι × Dispatch)) : Nat :=
  tr.countP fun d => d.1 = i && f d.2

section Count

variable {ι : Type} [DecidableEq ι] {i j : ι} {f : Dispatch → Bool} {tr : List (ι × Dispatch)}

theorem count_append (us : List (ι × Dispatch)) : count i f (tr ++ us) = count i f tr + count i f us :=
  List.countP_append

theorem count_single (d : Dispatch) : count i f [(j, d)] = if j = i ∧ f d = true then 1 else 0 := by
  unfold count
  rw [List.countP_singleton]
  by_cases hj : j = i
  · simp [hj]
  · simp [hj]

theorem count_eq_zero {us : List Dispatch} (h : ∀ d ∈ us, f d = false) :
    count i f (us.map fun d => (j, d)) = 0 := by
  unfold count
  rw [List.countP_eq_zero]
  intro e he
  obtain ⟨d, hd, rfl⟩ := List.mem_map.mp he
  simp [h d hd]

end Count

/-! ## Transactions as packet steps -/

/-- No packet callback among the dispatches. -/
def Quiet (ds : List Dispatch) : Prop := ∀ d ∈ ds, ∀ p, receives p d = false ∧ completes p d = false

/-- One small step of a transaction, as packet safety sees it. -/
inductive PacketStep (H : Hashing) (env : Env) : State → List Dispatch → State → Prop
  | quiet {s s' : State} {o : List Dispatch} : (∀ k, (s.commitments k).isSome → (s'.commitments k).isSome) →
      (∀ p, s.commitments (packetsKey H [p]) = some COMMITMENT_MAGIC_ACK →
        s'.commitments (packetsKey H [p]) = some COMMITMENT_MAGIC_ACK) →
      Quiet o → PacketStep H env s o s'
  | receive {s : State} {p : Packet} {d : Dispatch} : env.blockTime < p.timeoutTimestamp →
      s.commitments (receiptsKey H [p]) = none → (∀ q, receives q d = decide (p = q)) →
      (∀ q, completes q d = false) →
      PacketStep H env s [d] (storeCommit s (receiptsKey H [p]) COMMITMENT_MAGIC)
  | acknowledge {s : State} {p : Packet} {d : Dispatch} :
      s.commitments (packetsKey H [p]) = some COMMITMENT_MAGIC →
      (∀ q, receives q d = false) → (∀ q, completes q d = decide (p = q)) →
      (∀ q, timesOut q d = false) →
      PacketStep H env s [d] (storeCommit s (packetsKey H [p]) COMMITMENT_MAGIC_ACK)
  | timeout {s : State} {p : Packet} {d : Dispatch} {k : ClientId} {h : Height} {t : Timestamp}
      {impl : Addr} : env.querier.getTimestamp impl k h = some t → p.timeoutTimestamp ≤ t →
      ProvenAbsent env k h (receiptsKey H [p]) →
      s.commitments (packetsKey H [p]) = some COMMITMENT_MAGIC →
      (∀ q, receives q d = false) → (∀ q, completes q d = decide (p = q)) →
      (∀ q, timesOut q d = decide (p = q)) →
      PacketStep H env s [d] (storeCommit s (packetsKey H [p]) COMMITMENT_MAGIC_ACK)

variable {H : Hashing} {env : Env} {info : MessageInfo} {s s' : State}

variable {o : List Dispatch}

theorem PacketStep.of_update (hH : H.CollisionFree) {p : StorePath} {v : H256}
    (hs : s'.commitments = update s.commitments (p.key H) (some v))
    (hp : ∀ q : Packet, p ≠ .batchPackets (commitPackets H [q])) (ho : Quiet o) :
      PacketStep H env s o s' := by
  refine .quiet (fun k hk => ?_) (fun q hq => ?_) ho
  · rw [hs]
    exact storeCommit_isSome hk
  · have hne : packetsKey H [q] ≠ p.key H := by
      intro h
      exact hp q (StorePath.key_injective hH h).symm
    rw [hs, update_of_ne hne]
    exact hq

theorem quiet_nil : Quiet [] := by
  intro d hd
  cases hd

theorem quiet_single {d : Dispatch} (h : ∀ p, receives p d = false ∧ completes p d = false) : Quiet [d] := by
  intro e he
  cases List.mem_singleton.mp he
  exact h

theorem loop_single {R : State → List Dispatch → State → Prop} (h : R s o s') : Loop R s o s' := by
  have hl := Loop.cons h (.nil s')
  rwa [List.append_nil] at hl

theorem batch_ne_single (hH : H.CollisionFree) {ps : List Packet} (hps : 2 ≤ ps.length) (q : Packet) :
    StorePath.batchPackets (commitPackets H ps) ≠ .batchPackets (commitPackets H [q]) := by
  intro h
  have hq : ps = [q] := commitPackets_injective hH (StorePath.batchPackets.inj h)
  rw [hq] at hps
  simp at hps

theorem receiveStep_packetStep {ps : List Packet} {c : ChannelId} {port relayer : Addr}
    {intent : Bool} (t : State) (o : List Dispatch) (t' : State)
    (h : ReceiveStep H env info ps c port relayer intent t o t') : PacketStep H env t o t' := by
  cases h with
  | already => exact .quiet (fun _ => id) (fun _ => id) quiet_nil
  | fresh _ _ htime hnone =>
    refine .receive htime hnone (fun q => ?_) (fun q => ?_)
    · cases intent <;> simp [receiveOutput, receives]
    · cases intent <;> simp [receiveOutput, completes]

theorem acknowledgeStep_packetStep {port relayer : Addr} (t : State) (o : List Dispatch)
    (t' : State) (h : AcknowledgeStep H info port relayer t o t') : PacketStep H env t o t' := by
  cases h with
  | mark hv => exact .acknowledge hv (by simp [receives]) (by simp [completes]) (by simp [timesOut])

/-- **Every accepted message is a chain of packet steps.** -/
theorem effect_packetSteps (hH : H.CollisionFree) {m : ExecuteMsg} {msgs : List Dispatch}
    (he : Effect H env info s m s' msgs) : Loop (PacketStep H env) s msgs s' := by
  cases he with
  | delayed => exact .nil s
  | client hf =>
    refine loop_single (.quiet hf.frame.persist (fun p hp => ?_) quiet_nil)
    have hsame : committed H s' (.batchPackets (commitPackets H [p])) =
        committed H s (.batchPackets (commitPackets H [p])) :=
      hf.frame.committed hH (by simp) (by simp)
    exact hsame.trans hp
  | membershipProof | nonMembershipProof | connectionOpenInit | connectionOpenTry | connectionOpenAck
  | connectionOpenConfirm => exact loop_single (.of_update hH rfl (by simp) quiet_nil)
  | channelOpenInit | channelOpenTry | channelOpenAck | channelOpenConfirm | channelCloseInit
  | channelCloseConfirm =>
    exact loop_single (.of_update hH rfl (by simp) (quiet_single (by simp [receives, completes])))
  | @send _ _ p _ _ _ hnone =>
    -- a packet that was ever completed has a commitment, so it cannot be sent again
    refine loop_single (.quiet (fun k => storeCommit_isSome) (fun q hq => ?_) quiet_nil)
    have hne : packetsKey H [q] ≠ packetsKey H [p] := by
      intro h
      rw [h, hnone] at hq
      cases hq
    rw [storeCommit_of_ne hne]
    exact hq
  | batchSend hps => exact loop_single (.of_update hH rfl (batch_ne_single hH hps) quiet_nil)
  | batchAcks | writeAcknowledgement => exact loop_single (.of_update hH rfl (by simp) quiet_nil)
  | receive _ _ _ _ _ hL => exact hL.mono receiveStep_packetStep
  | acknowledge hL => exact hL.mono acknowledgeStep_packetStep
  | timeout _ _ ht hle habs hv =>
    exact loop_single (.timeout ht hle habs hv (by simp [receives]) (by simp [completes])
      (by simp [timesOut]))

/-! ## What is final -/

theorem packetsKey_ne_receiptsKey (hH : H.CollisionFree) (ps qs : List Packet) :
    packetsKey H ps ≠ receiptsKey H qs := by
  intro h
  have := StorePath.key_injective hH h
  cases this

/-- What is on record stays: what was sent and received, and which packets are completed. -/
structure PacketsKept (H : Hashing) (s s' : State) : Prop where
  recorded : ∀ k, (s.commitments k).isSome → (s'.commitments k).isSome
  completed : ∀ p, s.commitments (packetsKey H [p]) = some COMMITMENT_MAGIC_ACK →
    s'.commitments (packetsKey H [p]) = some COMMITMENT_MAGIC_ACK

theorem PacketsKept.refl (s : State) : PacketsKept H s s := ⟨fun _ => id, fun _ => id⟩

theorem PacketsKept.trans {t : State} (h : PacketsKept H s s') (h' : PacketsKept H s' t) :
    PacketsKept H s t where
  recorded k hk := h'.recorded k (h.recorded k hk)
  completed p hp := h'.completed p (h.completed p hp)

theorem PacketStep.kept (hH : H.CollisionFree) (h : PacketStep H env s o s') : PacketsKept H s s' := by
  cases h with
  | quiet hsome hack => exact ⟨hsome, hack⟩
  | receive =>
    refine ⟨fun _ => storeCommit_isSome, fun p hp => ?_⟩
    rw [storeCommit_of_ne (packetsKey_ne_receiptsKey hH _ _)]
    exact hp
  | @acknowledge q | @timeout q =>
    refine ⟨fun _ => storeCommit_isSome, fun p hp => ?_⟩
    by_cases hk : packetsKey H [p] = packetsKey H [q]
    · rw [hk, storeCommit_self]
    · rw [storeCommit_of_ne hk]
      exact hp

/-- **What is recorded of a packet is final**, and so is an acknowledgement of it, from any storage on. -/
theorem run_packetsKept (hH : H.CollisionFree) (s : State) (is : List Input) :
    PacketsKept H s (Core.run H s is) ∧ ∀ p v, v ≠ COMMITMENT_MAGIC → BatchAcks.Acked H p v s →
      BatchAcks.Acked H p v (Core.run H s is) := by
  refine Machine.state_invariant (I := fun t => PacketsKept H s t ∧
    ∀ p v, v ≠ COMMITMENT_MAGIC → BatchAcks.Acked H p v s → BatchAcks.Acked H p v t) ?_
      ⟨.refl s, fun _ _ _ => id⟩ is
  rintro t i ⟨hkept, hacked⟩
  rcases step_cases H t i with he | he
  · rw [he]
    exact ⟨hkept, hacked⟩
  · refine ⟨?_, fun p v hv hp => BatchAcks.effect_acked hH hv he (hacked p v hv hp)⟩
    exact (effect_packetSteps hH he).state_invariant (I := PacketsKept H s)
      (fun u _ u' hu hR => hu.trans (hR.kept hH)) hkept

/-- What holds of two chains and everything they have dispatched. -/
structure PacketSafe (H : Hashing) (w : World Side) (tr : List (Side × Dispatch)) : Prop where
  /-- Finished blocks are not younger than the block under construction. -/
  times : ∀ i, ∀ b ∈ (w i).blocks, b.time ≤ (w i).now
  received_once : ∀ i p, count i (receives p) tr ≤ 1
  received : ∀ i p, 0 < count i (receives p) tr →
    ((w i).core.commitments (receiptsKey H [p])).isSome
  completed_once : ∀ i p, count i (completes p) tr ≤ 1
  completed : ∀ i p, 0 < count i (completes p) tr →
    (w i).core.commitments (packetsKey H [p]) = some COMMITMENT_MAGIC_ACK
  /-- A block without the receipt of a received packet is older than the packet's timeout. -/
  absent : ∀ i p, 0 < count i (receives p) tr → ∀ b ∈ (w i).blocks,
    b.store (receiptsKey H [p]) = none → b.time < p.timeoutTimestamp
  timedOut : ∀ i p, 0 < count i (timesOut p) tr →
    count i.other (receives p) tr = 0 ∧ p.timeoutTimestamp ≤ (w i.other).now

theorem genesis_packetSafe (H : Hashing) (t : Side → Timestamp) : PacketSafe H (World.genesis t) [] where
  times i b hb := by cases hb
  received_once i p := Nat.zero_le 1
  received i p h := absurd h (Nat.lt_irrefl 0)
  completed_once i p := Nat.zero_le 1
  completed i p h := absurd h (Nat.lt_irrefl 0)
  absent i p h := absurd h (Nat.lt_irrefl 0)
  timedOut i p h := absurd h (Nat.lt_irrefl 0)

/-! ## One packet step keeps it -/

section Steps

variable {w : World Side} {i : Side} {e : Env} {t t' : State} {tr : List (Side × Dispatch)}
  {d : Dispatch} {p : Packet}

theorem timesOut_of_completes {q : Packet} (h : completes q d = false) : timesOut q d = false := by
  cases ht : timesOut q d with
  | false => rfl
  | true =>
    rw [completes_of_timesOut ht] at h
    cases h

theorem count_snoc {f : Packet → Dispatch → Bool} (hf : ∀ q, f q d = decide (p = q)) (j : Side)
    (q : Packet) : count j (f q) (tr ++ [(i, d)]) = count j (f q) tr + if i = j ∧ p = q then 1 else 0 := by
  rw [count_append, count_single]
  congr 1
  rw [hf q]
  by_cases hpq : p = q
  · simp [hpq]
  · simp [hpq]

theorem count_same {f : Dispatch → Bool} (hf : ∀ d ∈ o, f d = false) (j : Side) :
    count j f (tr ++ o.map fun d => (i, d)) = count j f tr := by
  rw [count_append, count_eq_zero hf, Nat.add_zero]

theorem PacketSafe.quiet (h : PacketSafe H (w.setCore i t) tr)
    (hsome : ∀ k, (t.commitments k).isSome → (t'.commitments k).isSome)
    (hack : ∀ p, t.commitments (packetsKey H [p]) = some COMMITMENT_MAGIC_ACK →
      t'.commitments (packetsKey H [p]) = some COMMITMENT_MAGIC_ACK) (ho : Quiet o) :
    PacketSafe H (w.setCore i t') (tr ++ o.map fun d => (i, d)) := by
  have hr : ∀ j q, count j (receives q) (tr ++ o.map fun d => (i, d)) = count j (receives q) tr :=
    fun j q => count_same (fun d hd => (ho d hd q).1) j
  have hc : ∀ j q, count j (completes q) (tr ++ o.map fun d => (i, d)) = count j (completes q) tr :=
    fun j q => count_same (fun d hd => (ho d hd q).2) j
  have ht : ∀ j q, count j (timesOut q) (tr ++ o.map fun d => (i, d)) = count j (timesOut q) tr :=
    fun j q => count_same (fun d hd => timesOut_of_completes (ho d hd q).2) j
  refine ⟨fun j b hb => ?_, fun j q => ?_, fun j q hq => ?_, fun j q => ?_, fun j q hq => ?_,
    fun j q hq b hb => ?_, fun j q hq => ?_⟩
  · have := h.times j b (by simpa using hb)
    simpa using this
  · rw [hr]
    exact h.received_once j q
  · rw [hr] at hq
    exact setCore_keeps (fun s => (s.commitments (receiptsKey H [q])).isSome = true) (fun _ => hsome _)
      (h.received j q hq)
  · rw [hc]
    exact h.completed_once j q
  · rw [hc] at hq
    exact setCore_keeps (fun s => s.commitments (packetsKey H [q]) = some COMMITMENT_MAGIC_ACK)
      (fun _ => hack q) (h.completed j q hq)
  · rw [hr] at hq
    exact h.absent j q hq b (by simpa using hb)
  · rw [ht] at hq
    rw [hr]
    have := h.timedOut j q hq
    simpa using this

theorem PacketSafe.receive (hH : H.CollisionFree) (h : PacketSafe H (w.setCore i t) tr)
    (htime : (w i).now < p.timeoutTimestamp) (hnone : t.commitments (receiptsKey H [p]) = none)
    (hd : ∀ q, receives q d = decide (p = q)) (hd' : ∀ q, completes q d = false) :
    PacketSafe H (w.setCore i (storeCommit t (receiptsKey H [p]) COMMITMENT_MAGIC))
      (tr ++ [(i, d)]) := by
  have hc : ∀ j q, count j (completes q) (tr ++ [(i, d)]) = count j (completes q) tr :=
    fun j q => count_same (o := [d]) (fun e he => by rw [List.mem_singleton.mp he]; exact hd' q) j
  have ht : ∀ j q, count j (timesOut q) (tr ++ [(i, d)]) = count j (timesOut q) tr :=
    fun j q => count_same (o := [d])
      (fun e he => by rw [List.mem_singleton.mp he]; exact timesOut_of_completes (hd' q)) j
  -- it was not received before
  have hzero : count i (receives p) tr = 0 := by
    by_contra hne
    have := h.received i p (Nat.pos_of_ne_zero hne)
    rw [setCore_core, hnone] at this
    cases this
  refine ⟨fun j b hb => ?_, fun j q => ?_, fun j q hq => ?_, fun j q => ?_, fun j q hq => ?_,
    fun j q hq b hb hbn => ?_, fun j q hq => ?_⟩
  · have := h.times j b (by simpa using hb)
    simpa using this
  · rw [count_snoc hd]
    split
    · rename_i hpq
      obtain ⟨rfl, rfl⟩ := hpq
      omega
    · exact h.received_once j q
  · rw [count_snoc hd] at hq
    by_cases hpq : i = j ∧ p = q
    · obtain ⟨rfl, rfl⟩ := hpq
      rw [setCore_core, storeCommit_self]
      rfl
    · rw [if_neg hpq] at hq
      exact setCore_keeps (fun s => (s.commitments (receiptsKey H [q])).isSome = true)
        (fun _ => storeCommit_isSome) (h.received j q hq)
  · rw [hc]
    exact h.completed_once j q
  · rw [hc] at hq
    refine setCore_keeps (fun s => s.commitments (packetsKey H [q]) = some COMMITMENT_MAGIC_ACK) ?_
      (h.completed j q hq)
    intro _ hold
    rw [storeCommit_of_ne (packetsKey_ne_receiptsKey hH _ _)]
    exact hold
  · rw [count_snoc hd] at hq
    by_cases hpq : i = j ∧ p = q
    · -- every finished block is older than the one under construction
      obtain ⟨rfl, rfl⟩ := hpq
      have hb' := h.times i b (by simpa using hb)
      rw [setCore_now] at hb'
      exact Nat.lt_of_le_of_lt hb' htime
    · rw [if_neg hpq] at hq
      exact h.absent j q hq b (by simpa using hb) hbn
  · rw [ht] at hq
    have hold := h.timedOut j q hq
    rw [setCore_now] at hold
    rw [count_snoc hd, setCore_now]
    have hpq : ¬ (i = j.other ∧ p = q) := by
      rintro ⟨rfl, rfl⟩
      exact Nat.lt_irrefl _ (Nat.lt_of_lt_of_le htime hold.2)
    rw [if_neg hpq]
    exact hold

theorem PacketSafe.complete (hH : H.CollisionFree) (h : PacketSafe H (w.setCore i t) tr)
    (hsent : t.commitments (packetsKey H [p]) = some COMMITMENT_MAGIC)
    (hd : ∀ q, receives q d = false) (hd' : ∀ q, completes q d = decide (p = q))
    (ht : ∀ q, timesOut q d = true → q = p ∧ count i.other (receives p) tr = 0 ∧
      p.timeoutTimestamp ≤ (w i.other).now) :
    PacketSafe H (w.setCore i (storeCommit t (packetsKey H [p]) COMMITMENT_MAGIC_ACK))
      (tr ++ [(i, d)]) := by
  have hr : ∀ j q, count j (receives q) (tr ++ [(i, d)]) = count j (receives q) tr :=
    fun j q => count_same (o := [d]) (fun e he => by rw [List.mem_singleton.mp he]; exact hd q) j
  -- it was not completed before
  have hzero : count i (completes p) tr = 0 := by
    by_contra hne
    have := h.completed i p (Nat.pos_of_ne_zero hne)
    rw [setCore_core, hsent] at this
    exact COMMITMENT_MAGIC_ne_ACK (Option.some.inj this)
  refine ⟨fun j b hb => ?_, fun j q => ?_, fun j q hq => ?_, fun j q => ?_, fun j q hq => ?_,
    fun j q hq b hb hbn => ?_, fun j q hq => ?_⟩
  · have := h.times j b (by simpa using hb)
    simpa using this
  · rw [hr]
    exact h.received_once j q
  · rw [hr] at hq
    exact setCore_keeps (fun s => (s.commitments (receiptsKey H [q])).isSome = true)
      (fun _ => storeCommit_isSome) (h.received j q hq)
  · rw [count_snoc hd']
    split
    · rename_i hpq
      obtain ⟨rfl, rfl⟩ := hpq
      omega
    · exact h.completed_once j q
  · rw [count_snoc hd'] at hq
    by_cases hpq : i = j ∧ p = q
    · obtain ⟨rfl, rfl⟩ := hpq
      rw [setCore_core, storeCommit_self]
    · rw [if_neg hpq] at hq
      refine setCore_keeps (fun s => s.commitments (packetsKey H [q]) = some COMMITMENT_MAGIC_ACK) ?_
        (h.completed j q hq)
      intro hj hold
      have hne : packetsKey H [q] ≠ packetsKey H [p] := by
        intro hk
        have := (packetsKey_inj hH).mp hk
        exact hpq ⟨hj.symm, (List.singleton_inj.mp this).symm⟩
      rw [storeCommit_of_ne hne]
      exact hold
  · rw [hr] at hq
    exact h.absent j q hq b (by simpa using hb) hbn
  · rw [hr, setCore_now]
    rw [count_append, count_single] at hq
    by_cases hpq : i = j ∧ timesOut q d = true
    · obtain ⟨rfl, hq'⟩ := hpq
      obtain ⟨rfl, hz, hnow⟩ := ht q hq'
      exact ⟨hz, hnow⟩
    · rw [if_neg hpq, Nat.add_zero] at hq
      have := h.timedOut j q hq
      simpa using this

/-- **One packet step keeps two chains safe.** -/
theorem packetStep_safe (hH : H.CollisionFree) (h : PacketSafe H (w.setCore i t) tr)
    (hs : PacketStep H (w.env twoChains i e) t o t') :
    PacketSafe H (w.setCore i t') (tr ++ o.map fun d => (i, d)) := by
  cases hs with
  | quiet hsome hack ho => exact h.quiet hsome hack ho
  | receive htime hnone hd hd' => exact h.receive hH htime hnone hd hd'
  | acknowledge hsent hd hd' ht =>
    refine h.complete hH hsent hd hd' (fun q hq => ?_)
    rw [ht q] at hq
    cases hq
  | @timeout p d k n time impl hgt hle habs hsent hd hd' ht =>
    refine h.complete hH hsent hd hd' (fun q hq => ?_)
    obtain rfl : p = q := by simpa [ht q] using hq
    -- the block the client proved against is old enough and has no receipt
    obtain ⟨b, hb, hbn, hbt⟩ := absent_block hgt habs
    have hb' : b ∈ (w i.other).blocks := hb
    refine ⟨rfl, ?_, ?_⟩
    · by_contra hne
      have hlt := h.absent i.other p (Nat.pos_of_ne_zero hne) b (by simpa using hb') hbn
      rw [hbt] at hlt
      exact Nat.lt_irrefl _ (Nat.lt_of_lt_of_le hlt hle)
    · have := h.times i.other b (by simpa using hb')
      rw [setCore_now, hbt] at this
      exact Nat.le_trans hle this

end Steps

theorem PacketSafe.endBlock {w : World Side} {tr : List (Side × Dispatch)} (h : PacketSafe H w tr)
    (i : Side) (elapsed : Nat) : PacketSafe H (update w i ((w i).endBlock elapsed)) tr := by
  have hcore : ∀ j, (update w i ((w i).endBlock elapsed) j).core = (w j).core := by
    intro j
    by_cases hj : j = i
    · subst hj
      rw [update_self]
      rfl
    · rw [update_of_ne hj]
  have hnow : ∀ j, (w j).now ≤ (update w i ((w i).endBlock elapsed) j).now := by
    intro j
    by_cases hj : j = i
    · subst hj
      rw [update_self]
      exact Nat.le_add_right _ _
    · rw [update_of_ne hj]
  have hblocks : ∀ j, ∀ b ∈ (update w i ((w i).endBlock elapsed) j).blocks,
      b ∈ (w j).blocks ∨ b = ⟨(w j).core.commitments, (w j).now⟩ := by
    intro j b hb
    by_cases hj : j = i
    · subst hj
      rw [update_self] at hb
      simpa [Chain.endBlock] using hb
    · rw [update_of_ne hj] at hb
      exact .inl hb
  refine ⟨fun j b hb => ?_, h.received_once, fun j q hq => ?_, h.completed_once, fun j q hq => ?_,
    fun j q hq b hb hbn => ?_, fun j q hq => ?_⟩
  · rcases hblocks j b hb with hb | rfl
    · exact (h.times j b hb).trans (hnow j)
    · exact hnow j
  · rw [hcore]
    exact h.received j q hq
  · rw [hcore]
    exact h.completed j q hq
  · rcases hblocks j b hb with hb | rfl
    · exact h.absent j q hq b hb hbn
    · -- the new block has the receipt of every received packet
      have hsome := h.received j q hq
      rw [show (w j).core.commitments (receiptsKey H [q]) = none from hbn] at hsome
      cases hsome
  · obtain ⟨hz, ht⟩ := h.timedOut j q hq
    exact ⟨hz, ht.trans (hnow j.other)⟩

theorem step_packetSafe (hH : H.CollisionFree) {w : World Side} {tr : List (Side × Dispatch)}
    (a : Action Side) (h : PacketSafe H w tr) :
    PacketSafe H (step H twoChains w a).1 (tr ++ (step H twoChains w a).2) := by
  generalize hw : (step H twoChains w a).1 = w', ho : (step H twoChains w a).2 = out
  have hcase := step_case H twoChains w a
  rw [hw, ho] at hcase
  cases hcase with
  | refused => simpa using h
  | @accepted i env info m s msgs _ heff =>
    have hloop := effect_packetSteps hH heff
    have hstart : PacketSafe H (w.setCore i (w i).core) (tr ++ ([] : List Dispatch).map fun d => (i, d)) := by
      simpa [setCore_self] using h
    have hend := hloop.invariant
      (I := fun t o => PacketSafe H (w.setCore i t) (tr ++ o.map fun d => (i, d)))
      (fun t us o t' ht hs => by
        have := packetStep_safe hH ht hs
        simpa using this) [] hstart
    simpa using hend
  | @ended i elapsed _ => simpa using h.endBlock i elapsed

/-- **Packet safety between two chains.**  In every run from genesis, on each chain a packet is
    dispatched to the receiving app at most once and completed on the sending app at most once, and
    a packet that timed out on one chain is at no time dispatched on the other. -/
theorem packet_safety (H : Hashing) (hH : H.CollisionFree) (t : Side → Timestamp)
    (as : List (Action Side)) (i : Side) (p : Packet) :
    count i (receives p) (trace H twoChains (World.genesis t) as) ≤ 1 ∧
      count i (completes p) (trace H twoChains (World.genesis t) as) ≤ 1 ∧
      (0 < count i (timesOut p) (trace H twoChains (World.genesis t) as) →
        count i.other (receives p) (trace H twoChains (World.genesis t) as) = 0) := by
  have h : PacketSafe H (run H twoChains (World.genesis t) as)
      (trace H twoChains (World.genesis t) as) :=
    Machine.invariant (fun w tr a hw => step_packetSafe hH a hw) (genesis_packetSafe H t) as
  exact ⟨h.received_once i p, h.completed_once i p, fun ht => (h.timedOut i p ht).1⟩

/-! ## A packet that arrives and one that times out -/

/-- A packet of `alice` over the channel of `handshakeActions`. -/
def alicePacket (data : UInt8) (timeout : Timestamp) : Packet :=
    ⟨⟨.one⟩, ⟨.one⟩, [data], .mustBeZero, timeout⟩

/-- The core of chain `a` after the handshake. -/
def openedCore : State := (run .ideal twoChains (World.genesis fun _ => 0) handshakeActions .a).core

/-- A packet is sent and acknowledged; another is received, and an acknowledgement of it written. -/
def packetInputs : List Input :=
  [⟨.permissive .accepting, ⟨"alice", []⟩, .packetSend ⟨.one⟩ 100 [1]⟩,
    ⟨.permissive .accepting, ⟨"relayer", []⟩,
      .restricted (.packetRecv [alicePacket 2 100] [[]] "relayer" [] 0)⟩,
    ⟨.permissive .accepting, ⟨"alice", []⟩, .writeAcknowledgement (alicePacket 2 100) [1]⟩,
    ⟨.permissive .accepting, ⟨"relayer", []⟩,
      .restricted (.packetAck [alicePacket 1 100] [[1]] [] 0 "relayer")⟩]

theorem run_packetsKept_sample : PacketsKept .ideal openedCore (Core.run .ideal openedCore packetInputs) ∧
    (Core.run .ideal openedCore packetInputs).commitments (packetsKey .ideal [alicePacket 1 100]) =
      some COMMITMENT_MAGIC_ACK ∧
    ((Core.run .ideal openedCore packetInputs).commitments (receiptsKey .ideal [alicePacket 2 100])).isSome :=
  ⟨(run_packetsKept Hashing.ideal_collisionFree openedCore packetInputs).1,
    by decide +kernel, by decide +kernel⟩

/-- The first packet is received, acknowledged and completed; the second is not received in time and
    times out; a later attempt to receive it fails. -/
def packetActions : List (Action Side) :=
  handshakeActions ++
  [.tx .a (.permissive .accepting) ⟨"alice", []⟩ (.packetSend ⟨.one⟩ 100 [1]),
    .tx .a (.permissive .accepting) ⟨"alice", []⟩ (.packetSend ⟨.one⟩ 6 [2]),
    .endBlock .a 1,
    relay .b (.packetRecv [alicePacket 1 100] [[]] "relayer" [] 4),
    .tx .b (.permissive .accepting) ⟨"bob", []⟩ (.writeAcknowledgement (alicePacket 1 100) [1]),
    .endBlock .b 10, .endBlock .b 1,
    relay .a (.packetAck [alicePacket 1 100] [[1]] [] 4 "relayer"),
    relay .a (.packetTimeout (alicePacket 2 6) [] 5 "relayer"),
    relay .b (.packetRecv [alicePacket 2 6] [[]] "relayer" [] 4)]

/-- The theorem on this run: the first packet is received and completed once, the second completes by
    its timeout and is never received. -/
theorem packet_safety_example :
    count .b (receives (alicePacket 1 100)) (trace .ideal twoChains (World.genesis fun _ => 0)
        packetActions) = 1 ∧
      count .a (completes (alicePacket 1 100)) (trace .ideal twoChains (World.genesis fun _ => 0)
        packetActions) = 1 ∧
      0 < count .a (timesOut (alicePacket 2 6)) (trace .ideal twoChains (World.genesis fun _ => 0)
        packetActions) ∧
      count .b (receives (alicePacket 2 6)) (trace .ideal twoChains (World.genesis fun _ => 0)
        packetActions) = 0 := by
  have htimeout : 0 < count .a (timesOut (alicePacket 2 6))
      (trace .ideal twoChains (World.genesis fun _ => 0) packetActions) := by
    decide +kernel
  exact ⟨by decide +kernel, by decide +kernel, htimeout,
    (packet_safety .ideal Hashing.ideal_collisionFree _ packetActions .a (alicePacket 2 6)).2.2
      htimeout⟩

end UnionVoyager.Net
