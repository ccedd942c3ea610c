import Mathlib.Data.Finset.Card
import UnionVoyager.Lib.Machine
import UnionVoyager.Light.Attested

/-!
# What the attested client has on record

Attestors sign attestations one by one, and several attestations for one key may be waiting at once.

* `execute_effect` — everything a message can do.
* `confirmed_signed` — whenever a value is confirmed, at least quorum different current attestors of the chain
  signed exactly that attestation; the wrapping byte only loses votes.
* `safe_iff` — **values and timestamps on record never change, and the assertion of `check_quorum`
  holds, iff no `confirm_attestation` brings a stale attestation over the quorum**.
-/

namespace UnionVoyager.Light.Attested

open Lib Function

variable {host : Host} {s s' : State} {a : Attestation} {signatures : Signatures}

/-! ## Counting -/

/-- How many of the signatures are by current attestors of the chain. -/
def validSignatures (s : State) (chainId : String) (signatures : Signatures) : Nat :=
  signatures.entries.countP fun e => s.attestors (chainId, e.1)

theorem foldl_count {α : Type} (p : α → Bool) : ∀ (l : List α) (t : UInt8),
    l.foldl (fun total e => total + if p e = true then 1 else 0) t = t + UInt8.ofNat (l.countP p)
  | [], t => by simp
  | e :: l, t => by
    rw [List.foldl_cons, foldl_count p l, List.countP_cons]
    cases p e with
    | false => simp
    | true =>
      simp only [if_true]
      rw [UInt8.add_assoc, UInt8.ofNat_add, UInt8.add_comm 1]
      rfl

/-- **The wrapping count never exceeds the number of valid signatures.** -/
theorem totalValidSignatures_le (s : State) (chainId : String) (signatures : Signatures) :
    (totalValidSignatures s chainId signatures).toNat ≤ validSignatures s chainId signatures := by
  have hcount := foldl_count (fun e : Sigma fun _ : H256 => H512 => s.attestors (chainId, e.1))
    signatures.entries 0
  rw [UInt8.zero_add] at hcount
  have htotal : totalValidSignatures s chainId signatures =
    UInt8.ofNat (validSignatures s chainId signatures) := hcount
  rw [htotal, UInt8.toNat_ofNat']
  exact Nat.mod_le _ _

def Reaches (s : State) (signatures : Signatures) (a : Attestation) (quorum : NonZeroU8) : Prop :=
  s.quorum a.chainId = some quorum ∧ quorum.get ≤ totalValidSignatures s a.chainId signatures

/-- The height of the attestation has no other timestamp yet. -/
def SameTimestamp (s : State) (a : Attestation) : Prop :=
  ∀ t, s.heightTimestamps (a.chainId, a.height) = some t → t = a.timestamp

/-- The key of the attestation has no other value yet. -/
def SameValue (s : State) (a : Attestation) : Prop :=
    ∀ v, s.attestations a.attestationKey = some v → v = a.value

theorem upsertTimestamp_eq_ok {t : Timestamp} : upsertTimestamp s a = .ok t ↔ SameTimestamp s a ∧
      t = a.timestamp := by
  unfold upsertTimestamp SameTimestamp
  cases s.heightTimestamps (a.chainId, a.height) with
  | none => simp [pure, Except.pure, eq_comm]
  | some previous =>
    simp only [bind_eq_ok, ensure_eq_ok, pure_eq_ok, Option.some.injEq, forall_eq', exists_const]
    constructor
    · rintro ⟨h, rfl⟩
      exact ⟨h, h⟩
    · rintro ⟨h, rfl⟩
      exact ⟨h, h⟩

variable {u : Unit}

@[simp] theorem checkTimestamp_eq_ok : checkTimestamp s a = .ok u ↔ SameTimestamp s a := by
  unfold checkTimestamp SameTimestamp
  cases s.heightTimestamps (a.chainId, a.height) <;> simp

@[simp] theorem checkNotAttested_eq_ok : checkNotAttested s a = .ok u ↔
      s.attestations a.attestationKey = none := by
  unfold checkNotAttested
  cases s.attestations a.attestationKey <;> simp

theorem checkQuorum_cases {r : State × Except (NonZeroU8 × UInt8) Event}
    (h : checkQuorum s signatures a = .ok r) :
    (∃ q, Reaches s signatures a q ∧ SameTimestamp s a ∧
      r = (s.confirm signatures a a.timestamp, .ok (.quorumReached a q))) ∨
    (∃ e, r = (s, .error e)) := by
  simp only [checkQuorum, bind_eq_ok, orErr_eq_ok] at h
  obtain ⟨q, hq, h⟩ := h
  split at h
  · rename_i hle
    simp only [bind_eq_ok, upsertTimestamp_eq_ok, pure_eq_ok] at h
    obtain ⟨t, ⟨hsame, rfl⟩, rfl⟩ := h
    exact .inl ⟨q, ⟨hq, hle⟩, hsame, rfl⟩
  · rw [pure_eq_ok] at h
    exact .inr ⟨_, h.symm⟩

theorem checkQuorum_panic (h : checkQuorum s signatures a = .error .panic) :
    (∃ q, Reaches s signatures a q) ∧ ¬ SameTimestamp s a := by
  unfold checkQuorum at h
  cases hq : s.quorum a.chainId with
  | none => simp [hq, orErr] at h
  | some q =>
    simp only [hq, orErr, ok_bind] at h
    split at h
    · rename_i hle
      refine ⟨⟨q, hq, hle⟩, ?_⟩
      intro hsame
      rw [upsertTimestamp_eq_ok.mpr ⟨hsame, rfl⟩] at h
      cases h
    · cases h

variable {q : NonZeroU8}

theorem checkQuorum_reached (h : Reaches s signatures a q) : (SameTimestamp s a →
      checkQuorum s signatures a = .ok (s.confirm signatures a a.timestamp, .ok (.quorumReached a q))) ∧
    (¬ SameTimestamp s a → checkQuorum s signatures a = .error .panic) := by
  unfold checkQuorum
  simp only [h.1, orErr, ok_bind, if_pos h.2]
  constructor
  · intro hsame
    rw [upsertTimestamp_eq_ok.mpr ⟨hsame, rfl⟩]
    rfl
  · intro hother
    unfold upsertTimestamp SameTimestamp at *
    cases ht : s.heightTimestamps (a.chainId, a.height) with
    | none => simp [ht] at hother
    | some previous =>
      have hne : previous ≠ a.timestamp := by simpa [ht] using hother
      simp [ensure, hne]

/-! ## What a message does -/

/-- The attestor's signature of the attestation is valid. -/
def Signed (host : Host) (a : Attestation) (attestor : H256) (signature : H512) : Prop :=
  host.ed25519Verify (host.encode a) signature attestor = some true

/-- The stores of signatures, values and timestamps are as they were. -/
structure SameRecords (s s' : State) : Prop where
  pending : s'.pendingAttestations = s.pendingAttestations
  attestations : s'.attestations = s.attestations
  timestamps : s'.heightTimestamps = s.heightTimestamps

/-- What a message that succeeds does. -/
inductive Effect (host : Host) (s : State) : ExecuteMsg → State → List Event → Prop
  | submitted (a : Attestation) (attestor : H256) (signature : H512) : Signed host a attestor signature →
      Effect host s (.attest a attestor signature)
        { s with
          pendingAttestations := update s.pendingAttestations a
            (some (((s.pendingAttestations a).getD ∅).insert attestor signature)) }
        [.attestationSubmitted a attestor signature]
  | completed (a : Attestation) (attestor : H256) (signature : H512) (q : NonZeroU8) :
      Signed host a attestor signature → SameTimestamp s a → s.attestations a.attestationKey = none →
      Reaches s (((s.pendingAttestations a).getD ∅).insert attestor signature) a q →
      Effect host s (.attest a attestor signature)
        (s.confirm (((s.pendingAttestations a).getD ∅).insert attestor signature) a a.timestamp)
        [.attestationSubmitted a attestor signature, .quorumReached a q]
  | confirmed (a : Attestation) (q : NonZeroU8) : SameTimestamp s a →
      Reaches s ((s.pendingAttestations a).getD ∅) a q →
      Effect host s (.confirmAttestation a) (s.confirm ((s.pendingAttestations a).getD ∅) a a.timestamp)
        [.quorumReached a q]
  | configured {msg : ExecuteMsg} {s' : State} {event : Event} :
      SameRecords s s' → (∀ a q, event ≠ .quorumReached a q) → Effect host s msg s' [event]

variable {attestor : H256} {signature : H512} {events : List Event}

theorem attest_effect (h : attest host s a attestor signature = .ok (s', events)) :
    Effect host s (.attest a attestor signature) s' events := by
  simp only [attest, bind_eq_ok, ensure_eq_ok, orErr_eq_ok, checkTimestamp_eq_ok, checkNotAttested_eq_ok,
    exists_const] at h
  obtain ⟨-, htime, hnone, valid, hvalid, hsigned, -, r, hr, h⟩ := h
  subst hsigned
  rcases checkQuorum_cases hr with ⟨q, hreached, -, rfl⟩ | ⟨e, rfl⟩
  · obtain ⟨rfl, rfl⟩ : _ ∧ _ := by simpa using h
    exact .completed a attestor signature q hvalid htime hnone hreached
  · obtain ⟨rfl, rfl⟩ : _ ∧ _ := by simpa using h
    exact .submitted a attestor signature hvalid

theorem confirmAttestation_effect (h : confirmAttestation s a = .ok (s', events)) :
    Effect host s (.confirmAttestation a) s' events := by
  simp only [confirmAttestation, bind_eq_ok] at h
  obtain ⟨r, hr, h⟩ := h
  rcases checkQuorum_cases hr with ⟨q, hreached, hsame, rfl⟩ | ⟨e, rfl⟩
  · obtain ⟨rfl, rfl⟩ : _ ∧ _ := by simpa using h
    exact .confirmed a q hsame hreached
  · simp at h

theorem execute_effect {msg : ExecuteMsg} (h : execute host s msg = .ok (s', events)) :
    Effect host s msg s' events := by
  cases msg with
  | attest a attestor signature => exact attest_effect h
  | confirmAttestation a => exact confirmAttestation_effect h
  | setQuorum chainId newQuorum =>
    obtain ⟨rfl, rfl⟩ : _ ∧ _ := by simpa [execute, setQuorum] using h
    exact .configured ⟨rfl, rfl, rfl⟩ (by simp)
  | addAttestor chainId newAttestor =>
    obtain ⟨-, rfl, rfl⟩ : _ ∧ _ ∧ _ := by simpa [execute, addAttestor] using h
    exact .configured ⟨rfl, rfl, rfl⟩ (by simp)
  | removeAttestor chainId oldAttestor =>
    obtain ⟨-, rfl, rfl⟩ : _ ∧ _ ∧ _ := by simpa [execute, removeAttestor] using h
    exact .configured ⟨rfl, rfl, rfl⟩ (by simp)

theorem attest_noPanic : attest host s a attestor signature ≠ .error .panic := by
  have havoids : Avoids (· = .panic) (attest host s a attestor signature) := by
    unfold attest
    refine .bind (.ensure (by simp)) fun _ _ => .bind ?_ fun _ htime => .bind ?_ fun _ _ => ?_
    · unfold checkTimestamp
      split
      · exact .ensure (by simp)
      · exact .pure _
    · unfold checkNotAttested
      split
      · exact .error (by simp)
      · exact .pure _
    refine .bind (.orErr (by simp)) fun _ _ => .bind (.ensure (by simp)) fun _ _ =>
      .bind (.ensure (by simp)) fun _ _ => ?_
    refine .bind ?_ fun r _ => ?_
    · rintro _ herr rfl
      exact (checkQuorum_panic herr).2 (checkTimestamp_eq_ok.mp htime)
    · split
      · exact .pure _
      · exact .pure _
  exact fun h => havoids _ h rfl

/-- What a message leaves behind, besides the state. -/
inductive Output where
  | event (event : Event)
  | failed (e : Error)

/-- One transaction: a message that fails changes nothing. -/
def step (host : Host) (s : State) (msg : ExecuteMsg) : State × List Output :=
  match execute host s msg with
  | .ok (s', events) => (s', events.map .event)
  | .error e => (s, [.failed e])

/-- The state after these messages. -/
def after (host : Host) (msgs : List ExecuteMsg) : State := Machine.run (step host) State.init msgs

/-- At least quorum different current attestors of the chain signed exactly this attestation. -/
def Endorsed (host : Host) (s : State) (a : Attestation) (q : NonZeroU8) : Prop :=
  s.quorum a.chainId = some q ∧ ∃ signers : Finset H256, q.get.toNat ≤ signers.card ∧
    ∀ x ∈ signers, s.attestors (a.chainId, x) = true ∧ ∃ signature, Signed host a x signature

/-- What the client promises of a run. -/
structure Safe (host : Host) (msgs : List ExecuteMsg) : Prop where
  valueKept : ∀ past more rest, msgs = past ++ more ++ rest → ∀ k v,
    (after host past).attestations k = some v → (after host (past ++ more)).attestations k = some v
  timestampKept : ∀ past more rest, msgs = past ++ more ++ rest → ∀ k t,
    (after host past).heightTimestamps k = some t → (after host (past ++ more)).heightTimestamps k = some t
  quorum : ∀ past msg rest, msgs = past ++ msg :: rest → ∀ a q,
    .event (.quorumReached a q) ∈ (step host (after host past) msg).2 → Endorsed host (after host past) a q
  oneAnswer : ∀ past past', past <+: msgs → past' <+: msgs → ∀ clientState height key value,
    verifyMembership (after host past) clientState height key value = .ok () →
      verifyNonMembership (after host past') clientState height key ≠ .ok ()
  noPanic : .failed .panic ∉ Machine.trace (step host) State.init msgs

/-- No stale attestation is brought over the quorum: one for a key that has another value by now, or for a
    height that has another timestamp. -/
def NoStale (s : State) (msg : ExecuteMsg) : Prop :=
  ∀ a q, msg = .confirmAttestation a → Reaches s ((s.pendingAttestations a).getD ∅) a q →
    SameValue s a ∧ SameTimestamp s a

section Records

variable {msg : ExecuteMsg} {msgs : List ExecuteMsg}

/-- What is on record stays. -/
structure Kept (s s' : State) : Prop where
  value : ∀ k v, s.attestations k = some v → s'.attestations k = some v
  timestamp : ∀ k t, s.heightTimestamps k = some t → s'.heightTimestamps k = some t

theorem Kept.refl (s : State) : Kept s s := ⟨fun _ _ h => h, fun _ _ h => h⟩

theorem Kept.trans {s₁ s₂ s₃ : State} (h₁ : Kept s₁ s₂) (h₂ : Kept s₂ s₃) : Kept s₁ s₃ where
  value k v h := h₂.value k v (h₁.value k v h)
  timestamp k t h := h₂.timestamp k t (h₁.timestamp k t h)

theorem kept_confirm (hvalue : SameValue s a) (htimestamp : SameTimestamp s a) :
    Kept s (s.confirm signatures a a.timestamp) where
  value k v hv := by
    show update s.attestations a.attestationKey (some a.value) k = some v
    by_cases hk : k = a.attestationKey
    · subst hk
      rw [update_self, hvalue v hv]
    · rw [update_of_ne hk, hv]
  timestamp k t ht := by
    show update s.heightTimestamps (a.chainId, a.height) (some a.timestamp) k = some t
    by_cases hk : k = (a.chainId, a.height)
    · subst hk
      rw [update_self, htimestamp t ht]
    · rw [update_of_ne hk, ht]

theorem Effect.kept (h : Effect host s msg s' events) (hfresh : NoStale s msg) : Kept s s' := by
  cases h with
  | submitted a attestor signature _ => exact ⟨fun _ _ h => h, fun _ _ h => h⟩
  | completed a attestor signature q _ htime hnone _ =>
    refine kept_confirm ?_ htime
    intro v hv
    rw [hnone] at hv
    cases hv
  | confirmed a q htime hreached => exact kept_confirm (hfresh a q rfl hreached).1 htime
  | configured hsame _ =>
    exact ⟨fun k v h => by rw [hsame.attestations, h], fun k t h => by rw [hsame.timestamps, h]⟩

theorem step_kept (hfresh : NoStale s msg) : Kept s (step host s msg).1 := by
  unfold step
  cases h : execute host s msg with
  | ok r => exact (execute_effect h).kept hfresh
  | error e => exact .refl s

theorem run_kept : ∀ (msgs : List ExecuteMsg) (s : State), Machine.Meets (step host) NoStale s msgs →
    Kept s (Machine.run (step host) s msgs)
  | [], s, _ => .refl s
  | _ :: msgs, _, hfresh => (step_kept hfresh.1).trans (run_kept msgs _ hfresh.2)

/-! ## Who signed -/

/-- Every signature that is waiting is valid. -/
def AllSigned (host : Host) (s : State) : Prop :=
  ∀ a signatures, s.pendingAttestations a = some signatures → ∀ e ∈ signatures.entries, Signed host a e.1 e.2

section

variable (h : AllSigned host s)

include h

theorem AllSigned.pending (a : Attestation) :
    ∀ e ∈ ((s.pendingAttestations a).getD ∅).entries, Signed host a e.1 e.2 := by
  cases hp : s.pendingAttestations a with
  | none => simp
  | some signatures => exact h a signatures hp

theorem AllSigned.insert (hsigned : Signed host a attestor signature) :
    ∀ e ∈ (((s.pendingAttestations a).getD ∅).insert attestor signature).entries, Signed host a e.1 e.2 := by
  intro e he
  rw [AList.entries_insert] at he
  rcases List.mem_cons.mp he with rfl | he
  · exact hsigned
  · exact h.pending a e ((List.kerase_sublist _ _).subset he)

theorem AllSigned.update (hs' : ∀ b, b ≠ a → s'.pendingAttestations b = s.pendingAttestations b)
    (ha : ∀ signatures, s'.pendingAttestations a = some signatures → ∀ e ∈ signatures.entries,
      Signed host a e.1 e.2) :
    AllSigned host s' := by
  intro b signatures hb
  by_cases hba : b = a
  · subst hba
    exact ha signatures hb
  · exact h b signatures (by rw [← hs' b hba, hb])

theorem allSigned_confirm (t : Timestamp) : AllSigned host (s.confirm signatures a t) := by
  refine h.update (a := a) (fun b hb => update_of_ne hb _ _) ?_
  intro signatures' h'
  have hnone : (s.confirm signatures a t).pendingAttestations a = none := update_self ..
  rw [hnone] at h'
  cases h'

theorem step_allSigned : AllSigned host (step host s msg).1 := by
  unfold step
  cases hok : execute host s msg with
  | error e => exact h
  | ok r =>
    obtain ⟨s', events⟩ := r
    cases execute_effect hok with
    | submitted a attestor signature hsigned =>
      refine h.update (a := a) (fun b hb => update_of_ne hb _ _) ?_
      intro signatures h'
      have hpending : update s.pendingAttestations a
          (some (((s.pendingAttestations a).getD ∅).insert attestor signature)) a = some signatures := h'
      rw [update_self] at hpending
      rw [← Option.some.inj hpending]
      exact h.insert hsigned
    | completed | confirmed => exact allSigned_confirm h _
    | configured hsame _ =>
      intro a signatures ha
      exact h a signatures (by rw [← hsame.pending, ha])

end

theorem allSigned_after (msgs : List ExecuteMsg) : AllSigned host (after host msgs) :=
  Machine.state_invariant (I := AllSigned host) (fun _ _ h => step_allSigned h)
    (by intro a signatures h; cases h) msgs

theorem endorsed_of_reaches (hreached : Reaches s signatures a q)
    (hsigned : ∀ e ∈ signatures.entries, Signed host a e.1 e.2) : Endorsed host s a q := by
  have hnodup : (signatures.entries.map Sigma.fst).Nodup := signatures.keys_nodup
  let valid := signatures.entries.filter fun e => s.attestors (a.chainId, e.1)
  have hvalid : (valid.map Sigma.fst).Nodup := (List.filter_sublist.map Sigma.fst).nodup hnodup
  refine ⟨hreached.1, ⟨valid.map Sigma.fst, hvalid⟩, ?_, ?_⟩
  · have hcount := totalValidSignatures_le s a.chainId signatures
    have hlen : (Finset.mk (valid.map Sigma.fst : Multiset H256) hvalid).card =
        validSignatures s a.chainId signatures := by
      simp [Finset.card, valid, validSignatures, List.countP_eq_length_filter]
    have hle : q.get.toNat ≤ (totalValidSignatures s a.chainId signatures).toNat := hreached.2
    omega
  · intro x hx
    obtain ⟨e, he, rfl⟩ := List.mem_map.mp hx
    obtain ⟨he, hcurrent⟩ := List.mem_filter.mp he
    exact ⟨hcurrent, e.2, hsigned e he⟩

theorem confirmed_signed (h : AllSigned host s)
    (hevent : .event (.quorumReached a q) ∈ (step host s msg).2) : Endorsed host s a q := by
  unfold step at hevent
  cases hok : execute host s msg with
  | error e => simp [hok] at hevent
  | ok r =>
    obtain ⟨s', events⟩ := r
    have hmem : Event.quorumReached a q ∈ events := by simpa [hok] using hevent
    cases execute_effect hok with
    | submitted b attestor signature _ => simp at hmem
    | completed b attestor signature q' hsigned _ _ hreached =>
      obtain ⟨rfl, rfl⟩ : a = b ∧ q = q' := by simpa using hmem
      exact endorsed_of_reaches hreached (h.insert hsigned)
    | confirmed b q' _ hreached =>
      obtain ⟨rfl, rfl⟩ : a = b ∧ q = q' := by simpa using hmem
      exact endorsed_of_reaches hreached (h.pending _)
    | configured _ hother => exact absurd (List.mem_singleton.mp hmem).symm (hother a q)

/-! ## The assertion -/

theorem step_noPanic (hfresh : NoStale s msg) : .failed .panic ∉ (step host s msg).2 := by
  unfold step
  cases hok : execute host s msg with
  | ok r => simp
  | error e =>
    rw [List.mem_singleton, Output.failed.injEq]
    rintro rfl
    cases msg with
    | attest a attestor signature => exact attest_noPanic hok
    | confirmAttestation a =>
      have hpanic : checkQuorum s ((s.pendingAttestations a).getD ∅) a = .error .panic := by
        cases hq : checkQuorum s ((s.pendingAttestations a).getD ∅) a with
        | error e => simpa [execute, confirmAttestation, hq] using hok
        | ok r =>
          obtain ⟨s', r⟩ := r
          cases r <;> simp [execute, confirmAttestation, hq, pure, Except.pure, throw, throwThe,
            MonadExceptOf.throw] at hok
      obtain ⟨⟨q, hreached⟩, hother⟩ := checkQuorum_panic hpanic
      exact hother (hfresh a q rfl hreached).2
    | setQuorum chainId newQuorum => cases hok
    | addAttestor chainId newAttestor =>
      simp only [execute, addAttestor, ensure] at hok
      split at hok <;> cases hok
    | removeAttestor chainId oldAttestor =>
      simp only [execute, removeAttestor, ensure] at hok
      split at hok <;> cases hok

theorem stale_step (host : Host) (s : State) (hreached : Reaches s ((s.pendingAttestations a).getD ∅) a q) :
    (¬ SameTimestamp s a → .failed .panic ∈ (step host s (.confirmAttestation a)).2) ∧
    (SameTimestamp s a → (step host s (.confirmAttestation a)).1.attestations a.attestationKey =
      some a.value) := by
  obtain ⟨hok, hpanic⟩ := checkQuorum_reached hreached
  unfold step execute confirmAttestation
  constructor
  · intro h
    simp [hpanic h]
  · intro h
    simp only [hok h, ok_bind]
    exact update_self ..

theorem verifyAttestation_eq_ok {chainId : String} {height : UInt64} {key : Bytes}
    {value : AttestationValue} : verifyAttestation s chainId height key value = .ok u ↔
      s.attestations ⟨chainId, height, key⟩ = some value := by
  unfold verifyAttestation
  cases h : s.attestations ⟨chainId, height, key⟩ with
  | none => simp [orErr]
  | some attested =>
    cases attested with
    | nonExistence => cases value <;> simp [orErr, pure, Except.pure, throw, throwThe, MonadExceptOf.throw]
    | existence attested =>
      cases value with
      | nonExistence => simp [orErr, throw, throwThe, MonadExceptOf.throw]
      | existence value =>
        simp only [orErr, ok_bind, ensure_eq_ok, Option.some.injEq, AttestationValue.existence.injEq]
        exact eq_comm

/-- **The client is safe in exactly the runs without a stale confirmation.** -/
theorem safe_iff (host : Host) (msgs : List ExecuteMsg) :
    Safe host msgs ↔ Machine.Meets (step host) NoStale State.init msgs := by
  constructor
  · intro hsafe
    rw [Machine.meets_iff]
    rintro past msg rest heq a q rfl hreached
    have hstep := stale_step host (after host past) hreached
    have htime : SameTimestamp (after host past) a := by
      by_contra hother
      apply hsafe.noPanic
      rw [Machine.mem_trace]
      exact ⟨past, _, rest, heq, hstep.1 hother⟩
    refine ⟨?_, htime⟩
    intro v hv
    have hkept := hsafe.valueKept past [.confirmAttestation a] rest
      (by rw [heq, List.append_assoc]; rfl) _ v hv
    have hafter : after host (past ++ [.confirmAttestation a]) =
        (step host (after host past) (.confirmAttestation a)).1 := Machine.run_append ..
    rw [hafter, hstep.2 htime] at hkept
    exact (Option.some.inj hkept).symm
  · intro hfresh
    have hkept : ∀ past more rest, msgs = past ++ more ++ rest →
        Kept (after host past) (after host (past ++ more)) := by
      rintro past more rest rfl
      rw [Machine.meets_append, Machine.meets_append] at hfresh
      have hrun := run_kept more _ hfresh.1.2
      unfold after
      rwa [Machine.run_append]
    have hpre : ∀ past, past <+: msgs → Kept (after host past) (after host msgs) := by
      rintro past ⟨rest, rfl⟩
      exact hkept past rest [] (by rw [List.append_nil])
    exact {
      valueKept := fun past more rest heq => (hkept past more rest heq).value
      timestampKept := fun past more rest heq => (hkept past more rest heq).timestamp
      quorum := fun past msg rest _ a q hevent => confirmed_signed (allSigned_after past) hevent
      oneAnswer := by
        intro past past' hpast hpast' clientState height key value hmember hnone
        have hvalue := (hpre past hpast).value _ _ (verifyAttestation_eq_ok.mp hmember)
        have habsent := (hpre past' hpast').value _ _ (verifyAttestation_eq_ok.mp hnone)
        rw [hvalue] at habsent
        cases habsent
      noPanic := by
        rw [Machine.mem_trace]
        rintro ⟨past, msg, rest, heq, hpanic⟩
        exact step_noPanic ((Machine.meets_iff msgs State.init).mp hfresh past msg rest heq) hpanic }

end Records

/-! ## A stale attestation -/

section Stale

/-- A scheme in which a signature is the key and the message. -/
def plainHost : Host where
  encode a := a.key ++ [a.height.toUInt8] ++ match a.value with
    | .nonExistence => [0]
    | .existence value => 1 :: value
  ed25519Verify message signature attestor := some (signature == attestor ++ message)

/-- The packet is there, or it is not. -/
def present : Attestation := ⟨"union", 7, 100, [1], .existence [42]⟩
def absent : Attestation := { present with value := .nonExistence }

def attestBy (a : Attestation) (attestor : H256) : ExecuteMsg :=
    .attest a attestor (attestor ++ plainHost.encode a)

def twoOfThree : List ExecuteMsg :=
  [.setQuorum "union" ⟨2, by decide⟩, .addAttestor "union" [1], .addAttestor "union" [2],
    .addAttestor "union" [3], attestBy absent [3], attestBy present [1], attestBy present [2]]

/-- Two of three attestors put a packet on record.  The third had attested its absence, and a quorum of one
    later lets anyone replace the record. -/
theorem stale_attestation_confirmed :
    ¬ Safe plainHost (twoOfThree ++ [.setQuorum "union" ⟨1, by decide⟩, .confirmAttestation absent]) := by
  intro hsafe
  have hpresent : (after plainHost twoOfThree).attestations present.attestationKey = some present.value := by
    decide
  have habsent : (after plainHost (twoOfThree ++
      [.setQuorum "union" ⟨1, by decide⟩, .confirmAttestation absent])).attestations present.attestationKey =
        some absent.value := by
    decide
  have hkept := hsafe.valueKept twoOfThree _ [] (by rw [List.append_nil]) _ _ hpresent
  rw [habsent] at hkept
  cases hkept

end Stale

end UnionVoyager.Light.Attested
