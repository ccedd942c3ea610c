import UnionVoyager.Core.WellFormed

/-!
# One hosted client

What the core keeps for a client of a light client contract, and what a message can do to it.

* `State.view` — the entries of one client.
* `hosted_viewStep` — **nothing else changes the client**, apart from a forced update of it.
* `IbcClient.input` — a message to a core in which every client is one of the contract.
-/

namespace UnionVoyager.Core

open Lib Function

/-- What the core keeps for one client. -/
structure ClientView where
  impl : Option Addr
  clientState : Option Bytes
  consensusStates : Height → Option Bytes

def State.view (s : State) (c : ClientId) : ClientView :=
  ⟨s.clientImpls c, s.clientStates c, fun h => s.clientConsensusStates (c, h)⟩

/-- The input is no forced update of the client `c`. -/
def Unforced (c : ClientId) (i : Input) : Prop :=
    ∀ cs cons, i.msg ≠ .restricted (.forceUpdateClient c cs cons)

namespace IbcClient

variable (T : IbcClient) (c : ClientId) (s : State) (i : Input)

/-- An authorised `UpdateClient` of the active client `c`, whose contract accepts the header. -/
def Updates (header : T.Header) (update : StateUpdate T.ClientState T.ConsensusState) : Prop :=
  ∃ m relayer, i.msg = .restricted (.updateClient c m relayer) ∧ i.env.canCall = some .immediate ∧
    T.queryStatus ⟨c, s.hostStores, i.env.blockTime⟩ = some .active ∧ T.decodeHeader m = some header ∧
    T.verifyHeader ⟨c, s.asked m, i.env.blockTime⟩ i.info.sender header relayer = some update

/-- An authorised `Misbehaviour` of the active client `c`, which its contract accepts. -/
def Submits (misbehaviour : T.Misbehaviour) (clientState : T.ClientState) : Prop :=
  ∃ m relayer, i.msg = .restricted (.misbehaviour c m relayer) ∧ i.env.canCall = some .immediate ∧
    T.queryStatus ⟨c, s.hostStores, i.env.blockTime⟩ = some .active ∧
      T.decodeMisbehaviour m = some misbehaviour ∧
    T.misbehaviour ⟨c, s.asked m, i.env.blockTime⟩ i.info.sender misbehaviour relayer = some clientState

/-- What an input can do to the client `c`. -/
inductive ViewStep : ClientView → Prop
  | same : ViewStep (s.view c)
  | update {header : T.Header} {u : StateUpdate T.ClientState T.ConsensusState} {cs : Option Bytes}
      {b : Bytes} : T.Updates c s i header u → T.encodeOverwrite u.clientState = some cs →
      T.encodeConsensusState u.consensusState = some b →
      ViewStep ⟨s.clientImpls c, cs.or (s.clientStates c),
        update (fun h => s.clientConsensusStates (c, h)) u.height (some b)⟩
  | misbehaviour {m : T.Misbehaviour} {cs : T.ClientState} {b : Bytes} : T.Submits c s i m cs →
      T.encodeClientState cs = some b →
      ViewStep ⟨s.clientImpls c, some b, fun h => s.clientConsensusStates (c, h)⟩

end IbcClient

variable {T : IbcClient} {H : Hashing} {c i : ClientId} {s s' : State} {b : Bytes} {n : Height}

/-! ## Views after a write -/

@[simp] theorem view_storeCommit (k v : H256) : (storeCommit s k v).view c = s.view c := rfl

@[simp] theorem view_writeClientStore (writes : List (Bytes × Bytes)) :
    (writeClientStore s i writes).view c = s.view c := rfl

theorem view_writeClientState (h : c ≠ i) : (writeClientState s i b).view c = s.view c := by
  simp [State.view, writeClientState, update_of_ne h]

theorem view_overwriteClientState (h : c ≠ i) (o : Option Bytes) :
    (overwriteClientState s i o).view c = s.view c := by
  cases o with
  | none => rfl
  | some b => exact view_writeClientState h

theorem view_writeConsensusState (h : c ≠ i) : (writeConsensusState s i n b).view c = s.view c := by
  have hne : ∀ n', (c, n') ≠ (i, n) := fun n' e => h (Prod.ext_iff.mp e).1
  simp [State.view, writeConsensusState, update_of_ne (hne _)]

theorem view_clientAllocated (h : c ≠ s.nextClientId) (n : ClientId) (ty : String) (impl : Addr) :
    (clientAllocated s n ty impl).view c = s.view c := by
  simp only [State.view, clientAllocated, update_of_ne h]

theorem view_clientInitialised (h : c ≠ i) (cs cons : Bytes) (v : VerifyCreationResponse) :
    (clientInitialised H s i cs cons n v).view c = s.view c := by
  unfold clientInitialised
  rw [view_writeClientStore, view_storeCommit, view_storeCommit, view_overwriteClientState h,
    view_writeConsensusState h, view_writeClientState h]

theorem view_clientUpdated (h : c ≠ i) (u : UpdateStateResponse) :
    (clientUpdated H s i u).view c = s.view c := by
  unfold clientUpdated
  rw [view_writeClientStore, view_writeConsensusState h, view_storeCommit]
  split
  · rw [view_writeClientState h, view_storeCommit]
  · rfl

theorem view_clientUpdated_self (u : UpdateStateResponse) :
    (clientUpdated H s c u).view c = ⟨s.clientImpls c, u.clientStateBytes.or (s.clientStates c),
      update (fun h => s.clientConsensusStates (c, h)) u.height (some u.consensusStateBytes)⟩ := by
  have hcons : ∀ f : ClientId × Height → Option Bytes,
      (fun h => update f (c, u.height) (some u.consensusStateBytes) (c, h)) =
        update (fun h => f (c, h)) u.height (some u.consensusStateBytes) := by
    intro f
    funext h
    by_cases hh : h = u.height
    · subst hh
      simp
    · rw [update_of_ne hh, update_of_ne fun e => hh (Prod.ext_iff.mp e).2]
  unfold clientUpdated
  rw [view_writeClientStore]
  cases hcs : u.clientStateBytes with
  | none => simp [State.view, writeConsensusState, storeCommit, hcons]
  | some b => simp [State.view, writeConsensusState, writeClientState, storeCommit, hcons]

theorem KeepsClients.view (h : KeepsClients s s') : s'.view c = s.view c := by
  have hstores := h.stores
  simp only [State.hostStores, HostStores.mk.injEq] at hstores
  simp only [State.view, hstores]

theorem hosted_viewStep {i : Input} (hw : WellFormed s) (hc : (s.clientImpls c).isSome)
    (hhost : HostedBy T c s i)
    (hforce : Unforced c i) : T.ViewStep c s i ((step H s i).1.view c) := by
  obtain ⟨impl, himpl⟩ := Option.isSome_iff_exists.mp hc
  obtain ⟨⟨paused, hanswers⟩, hmigrate⟩ := hhost impl himpl
  have hid : c ≠ s.nextClientId := fun e => absurd (hw.clients.impls c hc) (by rw [e]; exact Nat.lt_irrefl _)
  by_cases himm : ∃ m, i.msg = .restricted m ∧ i.env.canCall ≠ some .immediate
  · obtain ⟨m, hm, hcall⟩ := himm
    rw [step_eq_of_not_immediate hm hcall]
    exact .same
  have hcall : ∀ m, i.msg = .restricted m → i.env.canCall = some .immediate :=
    fun m hm => by_contra fun h => himm ⟨m, hm, h⟩
  have hstep := step_clients H s i
  obtain ⟨env, info, msg⟩ := i
  generalize (step H s ⟨env, info, msg⟩).1 = s' at hstep ⊢
  rcases hstep with hkept | hclient
  · rw [hkept.view]
    exact .same
  cases hclient with
  | registerClient => exact .same
  | createClient hn =>
    rw [view_clientInitialised hid, view_clientAllocated hid]
    exact .same
  | @forceUpdateClient j cs cons =>
    have hne : c ≠ j := by
      rintro rfl
      exact hforce cs cons rfl
    rw [view_clientInitialised hne]
    exact .same
  | @updateClient j message relayer impl' u himpl' hstatus hu =>
    by_cases hj : c = j
    · subst hj
      obtain rfl : impl = impl' := Option.some.inj (himpl.symm.trans himpl')
      rw [hanswers.status] at hstatus
      rw [hanswers.updateState c message relayer rfl] at hu
      obtain ⟨-, m, header, update, cs, b, hm, hheader, hupd, hcs, hb, rfl⟩ :=
        IbcClient.queryUpdateState_eq_some.mp hu
      obtain rfl : message = m := Option.some.inj hm
      rw [view_clientUpdated_self]
      exact .update ⟨message, relayer, rfl, hcall _ rfl, hstatus, hheader, hupd⟩ hcs hb
    · rw [view_clientUpdated hj]
      exact .same
  | @misbehaviour j message relayer impl' m himpl' hstatus hm =>
    by_cases hj : c = j
    · subst hj
      obtain rfl : impl = impl' := Option.some.inj (himpl.symm.trans himpl')
      rw [hanswers.status] at hstatus
      rw [hanswers.misbehaviour c message relayer rfl] at hm
      obtain ⟨-, m', mis, cs, b, hm', hmis, hcs, hb, rfl⟩ := IbcClient.queryMisbehaviour_eq_some.mp hm
      obtain rfl : message = m' := Option.some.inj hm'
      have hview :
          (writeClientState (storeCommit { s with queryStore := none } ((StorePath.clientState c).key H)
          (commit H b)) c b).view c = ⟨s.clientImpls c, some b, fun h => s.clientConsensusStates (c, h)⟩ := by
        simp [State.view, writeClientState, storeCommit]
      rw [hview]
      exact .misbehaviour ⟨message, relayer, rfl, hcall _ rfl, hstatus, hmis, hcs⟩ hb
    · rw [view_writeClientState hj, view_storeCommit]
      exact .same
  | @migrateState j cs cons h hsender =>
    have hne : c ≠ j := by
      rintro rfl
      exact hmigrate cs cons h rfl (Option.some.inj (hsender.symm.trans himpl))
    rw [view_storeCommit, view_writeConsensusState hne, view_storeCommit, view_writeClientState hne]
    exact .same

/-! ## Inputs of a hosted client -/

/-- What the contract is asked about. -/
def RestrictedExecuteMsg.clientMessage : RestrictedExecuteMsg → Bytes
  | .updateClient _ m _ => m
  | .misbehaviour _ m _ => m
  | _ => []

/-- Every address is a contract of `T` and answers in the state `s`. -/
def IbcClient.querier (T : IbcClient) (s : State) (t : Timestamp) (m : Bytes) : Querier where
  getTimestamp _ c h := T.queryTimestamp ⟨c, s.hostStores, t⟩ h
  getLatestHeight _ _ := none
  getStatus _ c := T.queryStatus ⟨c, s.hostStores, t⟩
  verifyCreation _ _ := none
  verifyMembership _ q := T.queryVerifyMembership ⟨q.clientId, s.hostStores, t⟩ false q
  verifyNonMembership _ q := T.queryVerifyNonMembership ⟨q.clientId, s.hostStores, t⟩ false q
  updateState _ q := T.queryUpdateState ⟨q.clientId, s.asked m, t⟩ false q
  misbehaviour _ q := T.queryMisbehaviour ⟨q.clientId, s.asked m, t⟩ false q

def IbcClient.input (T : IbcClient) (s : State) (t : Timestamp) (msg : RestrictedExecuteMsg) : Input where
  env := { Env.permissive (T.querier s t msg.clientMessage) with blockTime := t }
  info := ⟨"relayer", []⟩
  msg := .restricted msg

theorem hostedBy_input (T : IbcClient) (c : ClientId) (s : State) (t : Timestamp)
    (msg : RestrictedExecuteMsg) : HostedBy T c s (T.input s t msg) := by
  intro impl _
  refine ⟨⟨false, ?_⟩, fun cs cons h hmsg => nomatch hmsg⟩
  constructor
  · exact fun _ _ => rfl
  · exact fun _ => rfl
  · exact fun _ => rfl
  · exact fun _ => rfl
  · intro c' m r hmsg q
    obtain rfl : msg = .updateClient c' m r := ExecuteMsg.restricted.inj hmsg
    rfl
  · intro c' m r hmsg q
    obtain rfl : msg = .misbehaviour c' m r := ExecuteMsg.restricted.inj hmsg
    rfl

end UnionVoyager.Core
