import UnionVoyager.Core.Effect

/-!
# The provable store agrees with the stored values

A counterparty reads the provable store, the handlers read the values.  `ProvableHandshake` and
`ProvableClients` say that the first is the image of the second under the commitment functions.

* `run_provableHandshake` — connections and channels agree in every reachable storage.
* `clientInitialised_provable_iff` — `init_client` commits to the bytes of its message, although the
  light client may have answered `VerifyCreation` with others, which are stored.
-/

namespace UnionVoyager.Core

open Lib Function

/-- Every connection and channel is committed to, and nothing else is at their paths. -/
structure ProvableHandshake (H : Hashing) (s : State) : Prop where
  connection : ∀ i, committed H s (.connection i) = (s.connections i).map (commitConnection H)
  channel : ∀ i, committed H s (.channel i) = (s.channels i).map (commitChannel H)

/-- Every client state and consensus state is committed to, and nothing else is at their paths. -/
structure ProvableClients (H : Hashing) (s : State) : Prop where
  clientState : ∀ i, committed H s (.clientState i) = (s.clientStates i).map (commit H)
  consensusState : ∀ i n, committed H s (.consensusState i n) = (s.clientConsensusStates (i, n)).map
    (commit H)

/-- The provable store agrees with the stored values. -/
structure Provable (H : Hashing) (s : State) : Prop where
  handshake : ProvableHandshake H s
  clients : ProvableClients H s

theorem init_provable (H : Hashing) : Provable H State.init :=
  ⟨⟨fun _ => rfl, fun _ => rfl⟩, ⟨fun _ => rfl, fun _ _ => rfl⟩⟩

variable {H : Hashing} {env : Env} {info : MessageInfo} {s s' : State} {m : ExecuteMsg}

/-! ## Connections and channels -/

theorem ProvableHandshake.congr (h : ProvableHandshake H s) (hconn : s'.connections = s.connections)
    (hchan : s'.channels = s.channels)
    (hc : ∀ i, committed H s' (.connection i) = committed H s (.connection i))
    (hd : ∀ i, committed H s' (.channel i) = committed H s (.channel i)) : ProvableHandshake H s' :=
  ⟨fun i => by rw [hc, hconn, h.connection], fun i => by rw [hd, hchan, h.channel]⟩

section

variable (hH : H.CollisionFree)

include hH

theorem ProvableHandshake.storeCommit (h : ProvableHandshake H s) {p : StorePath}
    (hc : ∀ i, p ≠ .connection i) (hd : ∀ i, p ≠ .channel i) (v : H256) :
    ProvableHandshake H (storeCommit s (p.key H) v) :=
  h.congr rfl rfl (fun i => by rw [committed_storeCommit hH, if_neg (hc i).symm])
    (fun i => by rw [committed_storeCommit hH, if_neg (hd i).symm])

theorem ProvableHandshake.saveConnection (h : ProvableHandshake H s) (i : ConnectionId)
    (c : Connection) : ProvableHandshake H (saveConnection H s i c) := by
  refine ⟨fun j => ?_, fun j => ?_⟩
  · rw [committed_saveConnection hH]
    show _ = (update s.connections i (some c) j).map _
    by_cases hj : j = i
    · subst hj
      simp
    · rw [update_of_ne hj, if_neg (by simpa using hj), h.connection]
  · rw [committed_saveConnection hH, if_neg (by simp)]
    exact h.channel j

theorem ProvableHandshake.saveChannel (h : ProvableHandshake H s) (i : ChannelId) (c : Channel) :
    ProvableHandshake H (saveChannel H s i c) := by
  refine ⟨fun j => ?_, fun j => ?_⟩
  · rw [committed_saveChannel hH, if_neg (by simp)]
    exact h.connection j
  · rw [committed_saveChannel hH]
    show _ = (update s.channels i (some c) j).map _
    by_cases hj : j = i
    · subst hj
      simp
    · rw [update_of_ne hj, if_neg (by simpa using hj), h.channel]

theorem ProvableHandshake.addConnection (h : ProvableHandshake H s) (n : ConnectionId)
    (c : Connection) : ProvableHandshake H (s.addConnection H n c) :=
  .saveConnection hH (s := { s with nextConnectionId := n }) ⟨h.connection, h.channel⟩ _ c

theorem ProvableHandshake.addChannel (h : ProvableHandshake H s) (n : ChannelId) (owner : Addr)
    (c : Channel) : ProvableHandshake H (s.addChannel H n owner c) :=
  .saveChannel hH (s := { s with
      nextChannelId := n
      channelOwner := update s.channelOwner s.nextChannelId (some owner)
      contractChannels := update s.contractChannels owner
        (some (insert s.nextChannelId (s.ownedBy owner))) })
    ⟨h.connection, h.channel⟩ _ c

theorem effect_provableHandshake {msgs : List Dispatch} (he : Effect H env info s m s' msgs)
    (h : ProvableHandshake H s) : ProvableHandshake H s' := by
  cases he with
  | delayed => exact h
  | client hf =>
    exact h.congr hf.frame.connections hf.frame.channels
      (fun i => hf.frame.committed hH (by simp) (by simp))
      (fun i => hf.frame.committed hH (by simp) (by simp))
  | membershipProof | nonMembershipProof | send | batchSend | batchAcks | writeAcknowledgement | timeout =>
    exact h.storeCommit hH (by simp) (by simp) _
  | connectionOpenInit | connectionOpenTry => exact h.addConnection hH _ _
  | connectionOpenAck | connectionOpenConfirm => exact h.saveConnection hH _ _
  | channelOpenInit | channelOpenTry => exact h.addChannel hH _ _ _
  | channelOpenAck | channelOpenConfirm | channelCloseInit | channelCloseConfirm => exact h.saveChannel hH _ _
  | receive _ _ _ _ _ hL =>
    refine hL.state_invariant (fun t o t' ht hR => ?_) h
    cases hR with
    | already => exact ht
    | fresh => exact ht.storeCommit hH (by simp) (by simp) _
  | acknowledge hL =>
    refine hL.state_invariant (fun t o t' ht hR => ?_) h
    cases hR
    exact ht.storeCommit hH (by simp) (by simp) _

end

theorem run_provableHandshake (hH : H.CollisionFree) (is : List Input) :
    ProvableHandshake H (run H .init is) := by
  refine Machine.state_invariant (fun s i h => ?_) (init_provable H).handshake is
  rcases step_cases H s i with he | he
  · rw [he]
    exact h
  · exact effect_provableHandshake hH he h

/-! ## Clients -/

theorem ProvableClients.congr (h : ProvableClients H s) (hs : s'.clientStates = s.clientStates)
    (hcs : s'.clientConsensusStates = s.clientConsensusStates)
    (hc : ∀ i, committed H s' (.clientState i) = committed H s (.clientState i))
    (hd : ∀ i n, committed H s' (.consensusState i n) = committed H s (.consensusState i n)) :
    ProvableClients H s' :=
  ⟨fun i => by rw [hc, hs, h.clientState], fun i n => by rw [hd, hcs, h.consensusState]⟩

theorem ProvableClients.storeCommit (hH : H.CollisionFree) (h : ProvableClients H s) {p : StorePath}
    (hc : ∀ i, p ≠ .clientState i) (hd : ∀ i n, p ≠ .consensusState i n) (v : H256) :
    ProvableClients H (storeCommit s (p.key H) v) :=
  h.congr rfl rfl (fun i => by rw [committed_storeCommit hH, if_neg (hc i).symm])
    (fun i n => by rw [committed_storeCommit hH, if_neg (hd i n).symm])

theorem ProvableClients.clientState_write (hH : H.CollisionFree) (h : ProvableClients H s)
    (i : ClientId) (b : Bytes) : ProvableClients H
      (Core.storeCommit (writeClientState s i b) ((StorePath.clientState i).key H) (commit H b)) := by
  refine ⟨fun j => ?_, fun j n => ?_⟩
  · rw [committed_storeCommit hH]
    show _ = (update s.clientStates i (some b) j).map _
    by_cases hj : j = i
    · subst hj
      simp
    · rw [update_of_ne hj, if_neg (by simpa using hj)]
      exact h.clientState j
  · rw [committed_storeCommit hH, if_neg (by simp)]
    exact h.consensusState j n

theorem ProvableClients.consensusState_write (hH : H.CollisionFree) (h : ProvableClients H s)
    (i : ClientId) (n : Height) (b : Bytes) : ProvableClients H
      (Core.storeCommit (writeConsensusState s i n b) ((StorePath.consensusState i n).key H)
        (commit H b)) := by
  refine ⟨fun j => ?_, fun j m => ?_⟩
  · rw [committed_storeCommit hH, if_neg (by simp)]
    exact h.clientState j
  · rw [committed_storeCommit hH]
    show _ = (update s.clientConsensusStates (i, n) (some b) (j, m)).map _
    by_cases hj : (j, m) = (i, n)
    · cases hj
      simp
    · rw [update_of_ne hj, if_neg (by simpa using hj)]
      exact h.consensusState j m

theorem clientUpdated_provable (hH : H.CollisionFree) (h : ProvableClients H s) (i : ClientId)
    (u : UpdateStateResponse) : ProvableClients H (clientUpdated H s i u) := by
  unfold clientUpdated
  split
  · exact (((h.clientState_write hH i _).consensusState_write hH i _ _).congr rfl rfl
      (fun _ => rfl) (fun _ _ => rfl))
  · exact (h.consensusState_write hH i _ _).congr rfl rfl (fun _ => rfl) (fun _ _ => rfl)

theorem clientInitialised_clientState (i : ClientId) (cs cons : Bytes) (n : Height)
    (v : VerifyCreationResponse) :
    (clientInitialised H s i cs cons n v).clientStates i = some (v.clientStateBytes.getD cs) := by
  show (overwriteClientState (writeConsensusState (writeClientState s i cs) i n cons) i
    v.clientStateBytes).clientStates i = _
  cases v.clientStateBytes with
  | none | some => exact update_self ..

theorem clientInitialised_committed (hH : H.CollisionFree) (i : ClientId) (cs cons : Bytes)
    (n : Height) (v : VerifyCreationResponse) :
    committed H (clientInitialised H s i cs cons n v) (.clientState i) = some (commit H cs) := by
  show committed H (storeCommit (storeCommit (overwriteClientState _ _ _) _ _) _ _) _ = _
  rw [committed_storeCommit hH, if_neg (by simp), committed_storeCommit hH, if_pos rfl]

theorem clientInitialised_provable_iff (hH : H.CollisionFree) (h : ProvableClients H s)
    (i : ClientId) (cs cons : Bytes) (n : Height) (v : VerifyCreationResponse) :
    ProvableClients H (clientInitialised H s i cs cons n v) ↔
      v.clientStateBytes = none ∨ v.clientStateBytes = some cs := by
  constructor
  · intro hp
    have hi := hp.clientState i
    rw [clientInitialised_committed hH, clientInitialised_clientState, Option.map_some,
      Option.some.injEq] at hi
    have hcs : cs = v.clientStateBytes.getD cs := hH.keccak256 hi
    cases hv : v.clientStateBytes with
    | none => exact .inl rfl
    | some b =>
      rw [hv, Option.getD_some] at hcs
      rw [hcs]
      exact .inr rfl
  · intro hv
    -- the light client's bytes, if any, are the ones already written
    have hsame : ∀ t : State, t.clientStates i = some cs →
        overwriteClientState t i v.clientStateBytes = t := by
      intro t ht
      rcases hv with hv | hv
      · rw [hv]
        rfl
      · rw [hv]
        show { t with clientStates := update t.clientStates i (some cs) } = t
        rw [← ht, update_eq_self]
    unfold clientInitialised
    dsimp only
    rw [hsame (writeConsensusState (writeClientState s i cs) i n cons) (update_self ..)]
    exact ((h.clientState_write hH i cs).consensusState_write hH i n cons).congr rfl rfl
      (fun _ => rfl) (fun _ _ => rfl)

/-- The answer to a creation that reaches the light client leaves the client state as the message has it. -/
def KeepsClientState (s : State) (i : Input) : Prop :=
  i.env.canCall = some .immediate → ∀ cs v, creationAnswer i.env s i.info i.msg = some (cs, v) →
    v.clientStateBytes = none ∨ v.clientStateBytes = some cs

theorem clientEffect_provableClients (hH : H.CollisionFree)
    (he : ClientEffect H env info s m s')
    (hk : ∀ cs v, creationAnswer env s info m = some (cs, v) →
      v.clientStateBytes = none ∨ v.clientStateBytes = some cs) (h : ProvableClients H s) :
        ProvableClients H s' := by
  cases he with
  | registerClient => exact h.congr rfl rfl (fun _ => rfl) (fun _ _ => rfl)
  | @createClient ty _ _ _ impl n _ _ _ hv =>
    have hs : ProvableClients H (clientAllocated s n ty impl) :=
      h.congr rfl rfl (fun _ => rfl) (fun _ _ => rfl)
    exact (clientInitialised_provable_iff hH hs ..).mpr (hk _ _ hv)
  | forceUpdateClient _ hv => exact (clientInitialised_provable_iff hH h ..).mpr (hk _ _ hv)
  | updateClient =>
    have hs : ProvableClients H { s with queryStore := none } :=
      h.congr rfl rfl (fun _ => rfl) (fun _ _ => rfl)
    exact clientUpdated_provable hH hs ..
  | misbehaviour =>
    have hs : ProvableClients H { s with queryStore := none } :=
      h.congr rfl rfl (fun _ => rfl) (fun _ _ => rfl)
    exact hs.clientState_write hH ..
  | migrateState => exact (h.clientState_write hH _ _).consensusState_write hH _ _ _

theorem effect_provableClients (hH : H.CollisionFree) {msgs : List Dispatch}
    (he : Effect H env info s m s' msgs)
    (hk : ∀ cs v, creationAnswer env s info m = some (cs, v) →
      v.clientStateBytes = none ∨ v.clientStateBytes = some cs) (h : ProvableClients H s) :
        ProvableClients H s' := by
  cases he with
  | delayed => exact h
  | client hf => exact clientEffect_provableClients hH hf hk h
  | membershipProof | nonMembershipProof | send | batchSend | batchAcks | writeAcknowledgement | timeout =>
    exact h.storeCommit hH (by simp) (by simp) _
  | connectionOpenInit | connectionOpenTry =>
    exact h.congr rfl rfl (fun _ => by simp [committed_addConnection hH])
      (fun _ _ => by simp [committed_addConnection hH])
  | connectionOpenAck | connectionOpenConfirm =>
    exact h.congr rfl rfl (fun _ => by simp [committed_saveConnection hH])
      (fun _ _ => by simp [committed_saveConnection hH])
  | channelOpenInit | channelOpenTry =>
    exact h.congr rfl rfl (fun _ => by simp [committed_addChannel hH])
      (fun _ _ => by simp [committed_addChannel hH])
  | channelOpenAck | channelOpenConfirm | channelCloseInit | channelCloseConfirm =>
    exact h.congr rfl rfl (fun _ => by simp [committed_saveChannel hH])
      (fun _ _ => by simp [committed_saveChannel hH])
  | receive _ _ _ _ _ hL =>
    refine hL.state_invariant (fun t o t' ht hR => ?_) h
    cases hR with
    | already => exact ht
    | fresh => exact ht.storeCommit hH (by simp) (by simp) _
  | acknowledge hL =>
    refine hL.state_invariant (fun t o t' ht hR => ?_) h
    cases hR
    exact ht.storeCommit hH (by simp) (by simp) _

theorem clientAllocated_provable (h : ProvableClients H s) (n : ClientId) (ty : String)
    (impl : Addr) : ProvableClients H (clientAllocated s n ty impl) :=
  h.congr rfl rfl (fun _ => rfl) (fun _ _ => rfl)

/-- **A creation that is answered is carried out with the answer.** -/
theorem step_of_creationAnswer {i : Input} {cs : Bytes} {v : VerifyCreationResponse}
    (hcall : i.env.canCall = some .immediate) (h : creationAnswer i.env s i.info i.msg = some (cs, v)) :
    ∃ t j cons n, (step H s i).1 = clientInitialised H t j cs cons n v ∧
      (ProvableClients H s → ProvableClients H t) := by
  obtain ⟨env, info, m⟩ := i
  dsimp only at hcall h
  cases m with
  | restricted m =>
    cases m with
    | createClient ty cs' cons relayer =>
      simp only [creationAnswer, Option.ite_none_right_eq_some, Option.bind_eq_bind, Option.bind_eq_some_iff,
        Option.pure_def, Option.some.injEq, Prod.mk.injEq] at h
      obtain ⟨hvalid, impl, himpl, n, hn, answer, hanswer, rfl, rfl⟩ := h
      have hnext : nextClientId s = .ok (s.nextClientId, { s with nextClientId := n }) :=
        nextClientId_eq_ok.mpr ⟨rfl, n, hn, rfl⟩
      obtain ⟨height, hinit⟩ := @initClient_of_answer H env info (clientAllocated s n ty impl) _ cs'
        cons _ _ _ hanswer
      refine ⟨clientAllocated s n ty impl, s.nextClientId, cons, height, ?_,
        fun hp => clientAllocated_provable hp n ty impl⟩
      unfold clientAllocated at hinit ⊢
      simp only [step, execute, hcall, executeRestricted, createClient, addrValidate, hvalid,
        if_true, ok_bind, himpl, read, okOr, orErr, hnext, hinit]
      rfl
    | forceUpdateClient j cs' cons =>
      simp only [creationAnswer, Option.bind_eq_bind, Option.bind_eq_some_iff, Option.pure_def,
        Option.some.injEq, Prod.mk.injEq] at h
      obtain ⟨impl, himpl, answer, hanswer, rfl, rfl⟩ := h
      obtain ⟨height, hinit⟩ := @initClient_of_answer H env info s _ cs' cons _ _ _ hanswer
      refine ⟨s, j, cons, height, ?_, id⟩
      simp only [step, execute, hcall, executeRestricted, forceUpdateClient,
        clientImpl_eq_ok.mpr himpl, ok_bind, hinit]
      rfl
    | _ => cases h
  | _ => cases h

/-- **What one message does to the agreement**: it breaks it by a creation whose answer replaces the
    client state, and by nothing else. -/
theorem step_provable_iff (hH : H.CollisionFree) (s : State) (i : Input) (h : Provable H s) :
    Provable H (step H s i).1 ↔ KeepsClientState s i := by
  constructor
  · intro hp hcall cs v hanswer
    obtain ⟨t, j, cons, n, hstep, ht⟩ := step_of_creationAnswer hcall hanswer
    have hclients : ProvableClients H (clientInitialised H t j cs cons n v) := hstep ▸ hp.clients
    exact (clientInitialised_provable_iff hH (ht h.clients) j cs cons n v).mp hclients
  · intro hk
    by_cases hmsg : ∃ m, i.msg = .restricted m ∧ i.env.canCall ≠ some .immediate
    · obtain ⟨m, hm, hcall⟩ := hmsg
      rw [step_eq_of_not_immediate hm hcall]
      exact h
    rcases step_cases H s i with he | he
    · rw [he]
      exact h
    · refine ⟨effect_provableHandshake hH he h.handshake, effect_provableClients hH he ?_ h.clients⟩
      intro cs v hanswer
      refine hk ?_ cs v hanswer
      by_contra hcall
      cases hm : i.msg with
      | restricted m => exact hmsg ⟨m, hm, hcall⟩
      | _ =>
        rw [hm] at hanswer
        cases hanswer

/-- **The provable store agrees with the stored values** in every state of a run iff every answer that the
    light clients give to a creation in it leaves the client state alone. -/
theorem run_provable_iff (H : Hashing) (hH : H.CollisionFree) (is : List Input) :
    (∀ past rest, is = past ++ rest → Provable H (run H .init past)) ↔
      Machine.Meets (step H) KeepsClientState .init is :=
  Machine.forall_states_iff (I := fun _ => True) (A := fun _ _ => True) (fun _ _ _ _ _ => trivial)
    (fun s i _ _ h => step_provable_iff hH s i h) is .init trivial (init_provable H)
    (Machine.meets_of_forall _ fun _ _ => trivial)

/-! ## A client created with a replaced state -/

/-- A light client that is at height 5 and answers a creation with `answer` as client state. -/
def creationQuerier (answer : Option Bytes) : Querier :=
  { Querier.failing with
    getLatestHeight := fun _ _ => some 5
    verifyCreation := fun _ _ => some ⟨"union-1", answer, [], []⟩ }

/-- Registers a client type and creates a client of it with the state `[1]`. -/
def creationInputs (answer : Option Bytes) : List Input :=
  [⟨.permissive (creationQuerier answer), ⟨"admin", []⟩, .restricted (.registerClient "eth" "eth-impl")⟩,
    ⟨.permissive (creationQuerier answer), ⟨"relayer", []⟩,
      .restricted (.createClient "eth" [1] [2] "relayer")⟩]

/-- A client, a connection over it that is opened, and a channel over the connection. -/
def handshakeInputs : List Input :=
  [.registerClient "cometbls" "impl", .createClient "cometbls" [1] [2] "relayer",
    .connectionOpenInit ⟨.one⟩ ⟨.one⟩, .connectionOpenAck ⟨.one⟩ ⟨.one⟩ [] 0,
    .channelOpenInit "alice" (utf8 "bob") ⟨.one⟩ "v1" "relayer"].map
    fun m => ⟨.permissive .accepting, ⟨"relayer", []⟩, .restricted m⟩

theorem run_provableHandshake_sample : ProvableHandshake .ideal (run .ideal .init handshakeInputs) ∧
    ((run .ideal .init handshakeInputs).connections ⟨.one⟩).map Connection.state = some .open ∧
    ((run .ideal .init handshakeInputs).channels ⟨.one⟩).map Channel.state = some .init :=
  ⟨run_provableHandshake Hashing.ideal_collisionFree _, by decide +kernel, by decide +kernel⟩

/-- The run theorem on a creation that keeps the client state: both bytes are `[1]`. -/
theorem creation_kept_agrees : Provable .ideal (run .ideal .init (creationInputs (some [1]))) ∧
      (run .ideal .init (creationInputs (some [1]))).clientStates ⟨.one⟩ = some [1] := by
  have hmeets : Machine.Meets (step .ideal) KeepsClientState .init (creationInputs (some [1])) := by
    refine ⟨?_, ?_, trivial⟩
    · intro _ cs v h
      cases h
    · intro _ cs v h
      cases h
      exact .inr rfl
  exact ⟨(run_provable_iff .ideal Hashing.ideal_collisionFree _).mpr hmeets _ []
    (List.append_nil _).symm, by decide⟩

/-- **A creation whose answer replaces the client state breaks the agreement**: `[9]` is stored and
    `[1]` is committed to. -/
theorem creation_replaced_disagrees : (run .ideal .init (creationInputs (some [9]))).clientStates
      ⟨.one⟩ = some [9] ∧
      committed .ideal (run .ideal .init (creationInputs (some [9]))) (.clientState ⟨.one⟩) =
        some (commit .ideal [1]) ∧
      ¬ Provable .ideal (run .ideal .init (creationInputs (some [9]))) := by
  have hstored : (run .ideal .init (creationInputs (some [9]))).clientStates ⟨.one⟩ = some [9] := by
    decide
  have hcommitted : committed .ideal (run .ideal .init (creationInputs (some [9])))
      (.clientState ⟨.one⟩) = some (commit .ideal [1]) := by
    decide +kernel
  refine ⟨hstored, hcommitted, fun h => ?_⟩
  have := h.clients.clientState ⟨.one⟩
  rw [hstored, hcommitted] at this
  exact absurd this (by decide)

end UnionVoyager.Core
