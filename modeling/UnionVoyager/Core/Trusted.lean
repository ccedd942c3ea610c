import UnionVoyager.Core.ClientView

/-!
# What a client trusts stays

The core stores whatever consensus state the contract answers an update with.  It stays, once
stored, if a header for a height that is known can only bring what is stored there.

* `run_kept` — **a run of ordinary steps keeps them**; `run_decided` — whatever these steps are.
-/

namespace UnionVoyager.Core

open Lib Function

namespace IbcClient

/-- The part of the client state that is read along with a proof. -/
def readRoot {Root : Type} (T : IbcClient) (root : T.ClientState → Root) (host : HostStores)
    (c : ClientId) : Option Root :=
  (T.readClientState host c).map root

/-- How a client checks proofs: against one consensus state and a part of the client state that no
    header and no misbehaviour changes. -/
structure ProofChecks (T : IbcClient) where
  Root : Type
  root : T.ClientState → Root
  membership : Option Root → T.ConsensusState → Bytes → T.StateProof → Bytes → Bool
  nonMembership : Option Root → T.ConsensusState → Bytes → T.StateProof → Bool
  verifyMembership_iff : ∀ ctx height path proof value,
      T.verifyMembership ctx height path proof value = true ↔ ∃ cons,
      T.readConsensusState ctx.host ctx.clientId height = some cons ∧
      membership (T.readRoot root ctx.host ctx.clientId) cons path proof value = true
  verifyNonMembership_iff : ∀ ctx height path proof,
      T.verifyNonMembership ctx height path proof = true ↔ ∃ cons,
      T.readConsensusState ctx.host ctx.clientId height = some cons ∧
      nonMembership (T.readRoot root ctx.host ctx.clientId) cons path proof = true
  decode_encode : ∀ {cs b}, T.encodeClientState cs = some b → T.decodeClientState b = some cs
  verifyHeader_root : ∀ {ctx caller header relayer u cs'},
    T.verifyHeader ctx caller header relayer = some u → u.clientState = some cs' →
      ∃ cs, T.readClientState ctx.host ctx.clientId = some cs ∧ root cs' = root cs
  misbehaviour_root : ∀ {ctx caller m relayer cs'}, T.misbehaviour ctx caller m relayer = some cs' →
    ∃ cs, T.readClientState ctx.host ctx.clientId = some cs ∧ root cs' = root cs

/-- Whether a header agrees with the states that are stored. -/
abbrev Agreement (T : IbcClient) := (Height → Option T.ConsensusState) → T.Header → Prop

/-- An accepted header that agrees with the stored states writes what is stored at its height, if
    anything is. -/
def Settles (T : IbcClient) (Agrees : T.Agreement) : Prop :=
  ∀ {ctx caller header relayer u b old}, T.verifyHeader ctx caller header relayer = some u →
    Agrees (T.readConsensusState ctx.host ctx.clientId) header →
      T.encodeConsensusState u.consensusState = some b →
    T.readConsensusState ctx.host ctx.clientId u.height = some old → T.decodeConsensusState b = some old

/-- What is stored at the height of the header, if anything is, is its own consensus state as it is
    read back. -/
def Matches (T : IbcClient) (height : T.Header → Height)
    (own : T.Header → Option T.ConsensusState) : T.Agreement :=
  fun stored header => ∀ v old, own header = some v → stored (height header) = some old →
    (T.encodeConsensusState v).bind T.decodeConsensusState = some old

theorem settles_matches {T : IbcClient} {height : T.Header → Height}
    {own : T.Header → Option T.ConsensusState}
    (h : ∀ {ctx caller header relayer u}, T.verifyHeader ctx caller header relayer = some u →
      u.height = height header ∧ own header = some u.consensusState) : T.Settles (T.Matches height own) := by
  intro ctx caller header relayer u b old hver hmatches hb hold
  obtain ⟨hheight, hown⟩ := h hver
  rw [hheight] at hold
  have hread := hmatches _ _ hown hold
  rwa [hb, Option.bind_some] at hread

/-- What was trusted of `c` in the state `s` is trusted in `s'`, as long as the contract is not paused. -/
structure Kept (T : IbcClient) (c : ClientId) (s s' : State) : Prop where
  consensusState : ∀ h v, T.readConsensusState s.hostStores c h = some v →
    T.readConsensusState s'.hostStores c h = some v
  timestamp : ∀ h t t' time, T.queryTimestamp ⟨c, s.hostStores, t⟩ h = some time →
    T.queryTimestamp ⟨c, s'.hostStores, t'⟩ h = some time
  membership : ∀ q t t' paused, T.queryVerifyMembership ⟨c, s.hostStores, t⟩ paused q = true →
    T.queryVerifyMembership ⟨c, s'.hostStores, t'⟩ false q = true
  nonMembership : ∀ q t t' paused, T.queryVerifyNonMembership ⟨c, s.hostStores, t⟩ paused q = true →
    T.queryVerifyNonMembership ⟨c, s'.hostStores, t'⟩ false q = true

/-- A step with the client `c` hosted by `T`: no forced update of it, and no accepted header for it
    that disagrees with a stored state. -/
structure Ordinary (T : IbcClient) (Agrees : T.Agreement) (c : ClientId) (s : State) (i : Input) : Prop where
  hosted : HostedBy T c s i
  unforced : Unforced c i
  agrees : ∀ header u, T.Updates c s i header u → Agrees (T.readConsensusState s.hostStores c) header

section Kept

variable {T : IbcClient} (P : T.ProofChecks) {c : ClientId} {s s' s'' : State}

/-- The invariant behind `Kept`. -/
structure Persists (P : T.ProofChecks) (c : ClientId) (s s' : State) : Prop where
  root : T.readRoot P.root s'.hostStores c = T.readRoot P.root s.hostStores c
  consensusState : ∀ h v, T.readConsensusState s.hostStores c h = some v →
    T.readConsensusState s'.hostStores c h = some v

theorem Persists.refl (P : T.ProofChecks) (c : ClientId) (s : State) : Persists P c s s :=
    ⟨rfl, fun _ _ h => h⟩

theorem Persists.trans {P : T.ProofChecks} (h : Persists P c s s') (h' : Persists P c s' s'') :
    Persists P c s s'' :=
  ⟨h'.root.trans h.root, fun n v hv => h'.consensusState n v (h.consensusState n v hv)⟩

theorem Persists.kept {P : T.ProofChecks} (h : Persists P c s s') : T.Kept c s s' where
  consensusState := h.consensusState
  timestamp := by
    intro n t t' time htime
    obtain ⟨v, hv, htime⟩ := Option.bind_eq_some_iff.mp htime
    exact Option.bind_eq_some_iff.mpr ⟨v, h.consensusState n v hv, htime⟩
  membership := by
    intro q t t' paused hq
    simp only [queryVerifyMembership, Bool.and_eq_true, Option.any_eq_true, P.verifyMembership_iff] at hq ⊢
    obtain ⟨-, proof, hproof, cons, hcons, hcheck⟩ := hq
    exact ⟨rfl, proof, hproof, cons, h.consensusState _ _ hcons, by rw [h.root]; exact hcheck⟩
  nonMembership := by
    intro q t t' paused hq
    simp only [queryVerifyNonMembership, Bool.and_eq_true, Option.any_eq_true,
      P.verifyNonMembership_iff] at hq ⊢
    obtain ⟨-, proof, hproof, cons, hcons, hcheck⟩ := hq
    exact ⟨rfl, proof, hproof, cons, h.consensusState _ _ hcons, by rw [h.root]; exact hcheck⟩

variable {H : Hashing} {Agrees : T.Agreement} {i : Input}

theorem readRoot_view {Root : Type} (root : T.ClientState → Root) (s : State) (c : ClientId) :
    T.readRoot root s.hostStores c = ((s.view c).clientState.bind T.decodeClientState).map root := rfl

theorem readConsensusState_view (s : State) (c : ClientId) (h : Height) :
    T.readConsensusState s.hostStores c h = ((s.view c).consensusStates h).bind T.decodeConsensusState := rfl

theorem Persists.of_view {P : T.ProofChecks} (h : s'.view c = s.view c) : Persists P c s s' where
  root := by rw [readRoot_view, readRoot_view, h]
  consensusState := by
    intro n v hv
    rwa [readConsensusState_view, h]

theorem root_overwritten {P : T.ProofChecks} {cs cs' : T.ClientState} {b : Bytes}
    (hcs : T.readClientState s.hostStores c = some cs) (hroot : P.root cs' = P.root cs)
    (hb : T.encodeClientState cs' = some b) :
    ((some b).bind T.decodeClientState).map P.root = T.readRoot P.root s.hostStores c := by
  rw [readRoot, hcs, Option.bind_some, P.decode_encode hb, Option.map_some, Option.map_some, hroot]

theorem persists_of_viewStep (hset : T.Settles Agrees) {v : ClientView} (hstep : T.ViewStep c s i v)
    (hv : s'.view c = v)
    (hagree : ∀ header u, T.Updates c s i header u → Agrees (T.readConsensusState s.hostStores c) header) :
    Persists P c s s' := by
  cases hstep with
  | same => exact .of_view hv
  | @update header u cs b hupd hcs hb =>
    have hag := hagree header u hupd
    obtain ⟨m, relayer, -, -, -, -, hver⟩ := hupd
    constructor
    · rw [readRoot_view, hv]
      rcases encodeOverwrite_eq_some hcs with ⟨-, rfl⟩ | ⟨cs', b', hcs', hb', rfl⟩
      · rfl
      · obtain ⟨old, hold, hroot⟩ := P.verifyHeader_root hver hcs'
        exact root_overwritten hold hroot hb'
    · intro n w hw
      rw [readConsensusState_view, hv]
      show (update (fun h => s.clientConsensusStates (c, h)) u.height (some b) n).bind
        T.decodeConsensusState = some w
      by_cases hn : n = u.height
      · subst hn
        rw [update_self, Option.bind_some]
        exact hset hver hag hb hw
      · rw [update_of_ne hn]
        exact hw
  | @misbehaviour m cs b hsub hb =>
    obtain ⟨m', relayer, -, -, -, -, hmis⟩ := hsub
    obtain ⟨old, hold, hroot⟩ := P.misbehaviour_root hmis
    constructor
    · rw [readRoot_view, hv]
      exact root_overwritten hold hroot hb
    · intro n w hw
      rw [readConsensusState_view, hv]
      exact hw

theorem step_persists (hset : T.Settles Agrees) (hw : WellFormed s) (hc : (s.clientImpls c).isSome)
    (hord : T.Ordinary Agrees c s i) : Persists P c s (step H s i).1 :=
  persists_of_viewStep P hset (hosted_viewStep hw hc hord.hosted hord.unforced) rfl hord.agrees

theorem step_impl (hw : WellFormed s) (hc : (s.clientImpls c).isSome) (hhost : HostedBy T c s i)
    (hforce : Unforced c i) : (step H s i).1.clientImpls c = s.clientImpls c := by
  have hstep := hosted_viewStep (H := H) hw hc hhost hforce
  generalize hv : (step H s i).1.view c = v at hstep
  have himpl : v.impl = s.clientImpls c := by
    cases hstep <;> rfl
  rw [← himpl, ← hv]
  rfl

theorem run_persists (hset : T.Settles Agrees) {is : List Input} (hw : WellFormed s)
    (hc : (s.clientImpls c).isSome)
    (hord : Machine.Meets (step H) (T.Ordinary Agrees c) s is) : Persists P c s (run H s is) := by
  have hinv := Machine.invariant_of_meets
    (I := fun t _ => WellFormed t ∧ (t.clientImpls c).isSome ∧ Persists P c s t)
    (fun t _ i ⟨ht, htc, hpersists⟩ hi =>
      ⟨step_wellFormed t i ht, by rw [step_impl ht htc hi.hosted hi.unforced]; exact htc,
      hpersists.trans (step_persists P hset ht htc hi)⟩)
    ⟨hw, hc, .refl P c s⟩ hord
  exact hinv.2.2

end Kept

end IbcClient

/-! ## Every client with a consensus state has a contract -/

section Hosted

variable {H : Hashing} {s : State} {c : ClientId}

theorem clientInitialised_clientImpls (i : ClientId) (cs cons : Bytes) (n : Height)
    (v : VerifyCreationResponse) :
    (clientInitialised H s i cs cons n v).clientImpls = s.clientImpls := by
  simp only [clientInitialised, writeClientStore, storeCommit, overwriteClientState]
  split <;> simp only [writeClientState, writeConsensusState]

theorem clientUpdated_clientImpls (i : ClientId) (u : UpdateStateResponse) :
    (clientUpdated H s i u).clientImpls = s.clientImpls := by
  simp only [clientUpdated, writeClientStore, storeCommit, writeConsensusState]
  split <;> simp only [writeClientState]

/-- A client with a consensus state has a contract. -/
def Hosted (s : State) : Prop := ∀ c h, (s.clientConsensusStates (c, h)).isSome → (s.clientImpls c).isSome

theorem hosted_of_view {s' : State} (hs : Hosted s) (hv : s'.view c = s.view c) (h : Height)
    (hcons : (s'.clientConsensusStates (c, h)).isSome) : (s'.clientImpls c).isSome := by
  have himpl : s'.clientImpls c = s.clientImpls c := congrArg ClientView.impl hv
  have hsame : s'.clientConsensusStates (c, h) = s.clientConsensusStates (c, h) :=
    congrFun (congrArg ClientView.consensusStates hv) h
  rw [himpl]
  exact hs c h (by rw [← hsame]; exact hcons)

theorem step_hosted (H : Hashing) (s : State) (i : Input) (hs : Hosted s) : Hosted (step H s i).1 := by
  intro c h hcons
  have hstep := step_clients H s i
  obtain ⟨env, info, msg⟩ := i
  generalize (step H s ⟨env, info, msg⟩).1 = s' at hstep hcons ⊢
  rcases hstep with hkept | hclient
  · exact hosted_of_view hs hkept.view h hcons
  cases hclient with
  | registerClient => exact hs c h hcons
  | @createClient ty relayer cs cons impl n height v hn =>
    by_cases hc : c = s.nextClientId
    · subst hc
      rw [clientInitialised_clientImpls]
      simp [clientAllocated]
    · exact hosted_of_view hs (by rw [view_clientInitialised hc, view_clientAllocated hc]) h hcons
  | @forceUpdateClient j cs cons impl height v himpl =>
    by_cases hc : c = j
    · subst hc
      rw [clientInitialised_clientImpls, himpl]
      rfl
    · exact hosted_of_view hs (view_clientInitialised hc ..) h hcons
  | @updateClient j message relayer impl u himpl =>
    by_cases hc : c = j
    · subst hc
      rw [clientUpdated_clientImpls]
      show (s.clientImpls c).isSome
      rw [himpl]
      rfl
    · exact hosted_of_view hs (view_clientUpdated hc ..) h hcons
  | @misbehaviour j message relayer impl m himpl =>
    by_cases hc : c = j
    · subst hc
      show (s.clientImpls c).isSome
      rw [himpl]
      rfl
    · exact hosted_of_view hs (view_writeClientState hc) h hcons
  | @migrateState j cs cons n himpl =>
    by_cases hc : c = j
    · subst hc
      show (s.clientImpls c).isSome
      rw [himpl]
      rfl
    · refine hosted_of_view hs ?_ h hcons
      rw [view_storeCommit, view_writeConsensusState hc, view_storeCommit, view_writeClientState hc]

theorem run_hosted (is : List Input) : Hosted (run H .init is) :=
  Machine.state_invariant (step_hosted H) (fun _ _ h => absurd h (by simp [State.init])) is

end Hosted

namespace IbcClient

variable {T : IbcClient} {Agrees : T.Agreement} {H : Hashing} {c : ClientId}

theorem kept_of_none (P : T.ProofChecks) {s s' : State}
    (h : ∀ n, s.clientConsensusStates (c, n) = none) : T.Kept c s s' := by
  have hnone : ∀ n, T.readConsensusState s.hostStores c n = none := by
    intro n
    show (s.clientConsensusStates (c, n)).bind _ = none
    rw [h n, Option.bind_none]
  constructor
  · intro n v hv
    rw [hnone] at hv
    cases hv
  · intro n t t' time htime
    simp only [queryTimestamp, hnone, Option.bind_none] at htime
    cases htime
  · intro q t t' paused hq
    simp only [queryVerifyMembership, Bool.and_eq_true, Option.any_eq_true, P.verifyMembership_iff] at hq
    obtain ⟨-, proof, -, cons, hcons, -⟩ := hq
    rw [hnone] at hcons
    cases hcons
  · intro q t t' paused hq
    simp only [queryVerifyNonMembership, Bool.and_eq_true, Option.any_eq_true,
      P.verifyNonMembership_iff] at hq
    obtain ⟨-, proof, -, cons, hcons, -⟩ := hq
    rw [hnone] at hcons
    cases hcons

theorem run_kept (P : T.ProofChecks) (hset : T.Settles Agrees) (past rest : List Input)
    (hord : Machine.Meets (step H) (T.Ordinary Agrees c) (run H .init past) rest) :
    T.Kept c (run H .init past) (run H .init (past ++ rest)) := by
  have happend : run H .init (past ++ rest) = run H (run H .init past) rest := Machine.run_append _ past rest
  by_cases hc : ((run H .init past).clientImpls c).isSome
  · rw [happend]
    exact (run_persists P hset (run_wellFormed past) hc hord).kept
  · refine kept_of_none P fun n => ?_
    have hnot := fun h => hc (run_hosted past c n h)
    exact Option.not_isSome_iff_eq_none.mp hnot

theorem run_decided (P : T.ProofChecks) (hset : T.Settles Agrees) (past rest rest' : List Input)
    (hord : Machine.Meets (step H) (T.Ordinary Agrees c) (run H .init past) rest)
    (hord' : Machine.Meets (step H) (T.Ordinary Agrees c) (run H .init past) rest') {h : Height}
    {v : T.ConsensusState} (hv : T.readConsensusState (run H .init past).hostStores c h = some v) :
    T.readConsensusState (run H .init (past ++ rest)).hostStores c h =
      T.readConsensusState (run H .init (past ++ rest')).hostStores c h := by
  rw [(run_kept P hset past rest hord).consensusState h v hv,
    (run_kept P hset past rest' hord').consensusState h v hv]

end IbcClient

end UnionVoyager.Core
