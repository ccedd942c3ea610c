import UnionVoyager.Core.Trusted

/-!
# Frozen clients

Two handlers of the core ask a client for its status.  The handlers that consume a proof do not, and
the contract refuses them nothing while it is frozen.

* `run_frozen` — **a frozen client authorises no update, and nothing else for want of a valid proof**.
-/

namespace UnionVoyager.Core

open Lib Function

/-! ## Messages with a proof -/

/-- What a message asks a client to verify. -/
inductive ProofQuery where
  | membership (q : VerifyMembershipQuery)
  | nonMembership (q : VerifyNonMembershipQuery)

def ProofQuery.clientId : ProofQuery → ClientId
  | membership q => q.clientId
  | nonMembership q => q.clientId

/-- The answer of the contract at `impl`. -/
def ProofQuery.accepted (querier : Querier) (impl : Addr) : ProofQuery → Bool
  | membership q => querier.verifyMembership impl q
  | nonMembership q => querier.verifyNonMembership impl q

def State.connectionOf (s : State) (channel : Channel) : Option Connection :=
    s.connections channel.connectionId

/-- The query of a message, from the state it is executed in. -/
def proofQuery (H : Hashing) (s : State) : RestrictedExecuteMsg → Option ProofQuery
  | .connectionOpenTry j d i p h =>
    some (.membership ⟨i, h, p, (StorePath.connection d).key H, commitConnection H ⟨.init, j, i, none⟩⟩)
  | .connectionOpenAck i d p h => do
    let connection ← s.connections i
    pure (.membership ⟨connection.clientId, h, p, (StorePath.connection d).key H,
      commitConnection H ⟨.tryOpen, connection.counterpartyClientId, connection.clientId, some i⟩⟩)
  | .connectionOpenConfirm i p h => do
    let connection ← s.connections i
    let d ← connection.counterpartyConnectionId
    pure (.membership ⟨connection.clientId, h, p, (StorePath.connection d).key H,
      commitConnection H ⟨.open, connection.counterpartyClientId, connection.clientId, some i⟩⟩)
  | .channelOpenTry port channel cversion p h _ => do
    let connection ← s.connectionOf channel
    let d ← connection.counterpartyConnectionId
    let t ← channel.counterpartyChannelId
    pure (.membership ⟨connection.clientId, h, p, (StorePath.channel t).key H,
      commitChannel H ⟨.init, d, none, utf8 port, cversion⟩⟩)
  | .channelOpenAck i cversion t p h _ => do
    let channel ← s.channels i
    let connection ← s.connectionOf channel
    let port ← s.channelOwner i
    let d ← connection.counterpartyConnectionId
    pure (.membership ⟨connection.clientId, h, p, (StorePath.channel t).key H,
      commitChannel H ⟨.tryOpen, d, some i, utf8 port, cversion⟩⟩)
  | .channelOpenConfirm i p h _ => do
    let channel ← s.channels i
    let connection ← s.connectionOf channel
    let port ← s.channelOwner i
    let d ← connection.counterpartyConnectionId
    let t ← channel.counterpartyChannelId
    pure (.membership ⟨connection.clientId, h, p, (StorePath.channel t).key H,
      commitChannel H ⟨.open, d, some i, utf8 port, channel.version⟩⟩)
  | .channelCloseConfirm i p h _ => do
    let channel ← s.channels i
    let connection ← s.connectionOf channel
    let port ← s.channelOwner i
    let d ← connection.counterpartyConnectionId
    let t ← channel.counterpartyChannelId
    pure (.membership ⟨connection.clientId, h, p, (StorePath.channel t).key H,
      commitChannel H ⟨.closed, d, some i, utf8 port, channel.version⟩⟩)
  | .packetRecv ps _ _ p h => do
    let first ← ps.head?
    let channel ← s.channels first.destinationChannelId
    let connection ← s.connectionOf channel
    pure (.membership ⟨connection.clientId, h, p, packetsKey H ps, COMMITMENT_MAGIC⟩)
  | .packetAck ps acks p h _ => do
    let first ← ps.head?
    let channel ← s.channels first.sourceChannelId
    let connection ← s.connectionOf channel
    pure (.membership ⟨connection.clientId, h, p, receiptsKey H ps, commitAcks H acks⟩)
  | .packetTimeout packet p h _ => do
    let channel ← s.channels packet.sourceChannelId
    let connection ← s.connectionOf channel
    pure (.nonMembership ⟨connection.clientId, h, p, receiptsKey H [packet]⟩)
  | .commitMembershipProof i h p path value => some (.membership ⟨i, h, p, path, value⟩)
  | .commitNonMembershipProof i h p path => some (.nonMembership ⟨i, h, p, path⟩)
  | _ => none

/-- The messages whose effect is conditional on a proof. -/
def RestrictedExecuteMsg.isConditional : RestrictedExecuteMsg → Bool
  | .connectionOpenTry .. => true
  | .connectionOpenAck .. => true
  | .connectionOpenConfirm .. => true
  | .channelOpenTry .. => true
  | .channelOpenAck .. => true
  | .channelOpenConfirm .. => true
  | .channelCloseConfirm .. => true
  | .packetRecv .. => true
  | .packetAck .. => true
  | .packetTimeout .. => true
  | .commitMembershipProof .. => true
  | .commitNonMembershipProof .. => true
  | _ => false

attribute [local grind =] RestrictedExecuteMsg.isConditional

/-- The query of a message was accepted by the contract of its client. -/
def Asks (H : Hashing) (env : Env) (s : State) (m : RestrictedExecuteMsg) : Prop :=
  ∃ q impl, proofQuery H s m = some q ∧ s.clientImpls q.clientId = some impl ∧
    q.accepted env.querier impl = true

variable {m : RestrictedExecuteMsg} {impl : Addr}

section Asks

variable {H : Hashing} {env : Env} {info : MessageInfo} {s : State} {out : State × Response}
  {p : Bytes} {h : Height} {r : String}

theorem Asks.membership {q : VerifyMembershipQuery} (haccepted : env.querier.verifyMembership impl q = true)
    (himpl : s.clientImpls q.clientId = some impl) (hquery : proofQuery H s m = some (.membership q)) :
    Asks H env s m :=
  ⟨.membership q, impl, hquery, himpl, haccepted⟩

theorem Asks.nonMembership {q : VerifyNonMembershipQuery}
    (haccepted : env.querier.verifyNonMembership impl q = true)
    (himpl : s.clientImpls q.clientId = some impl) (hquery : proofQuery H s m = some (.nonMembership q)) :
    Asks H env s m :=
  ⟨.nonMembership q, impl, hquery, himpl, haccepted⟩

variable {i : ClientId}

theorem connectionOpenTry_asks {j : ClientId} {d : ConnectionId}
    (hok : connectionOpenTry H env s j d i p h true = .ok out) :
      Asks H env s (.connectionOpenTry j d i p h) := by
  simp only [connectionOpenTry, bind_eq_ok, onlyIf_eq_ok, forall_const, clientImpl_eq_ok,
    verifyMembership_eq_ok] at hok
  obtain ⟨⟨c, t⟩, hnext, _, ⟨impl, himpl, hacc⟩, -⟩ := hok
  obtain ⟨-, n, -, rfl⟩ := nextConnectionId_eq_ok.mp hnext
  exact .membership hacc himpl rfl

theorem connectionOpenAck_asks {i d : ConnectionId} (hok : connectionOpenAck H env s i d p h true = .ok out) :
    Asks H env s (.connectionOpenAck i d p h) := by
  simp only [connectionOpenAck, bind_eq_ok, read_eq_ok, onlyIf_eq_ok, forall_const, clientImpl_eq_ok,
    verifyMembership_eq_ok] at hok
  obtain ⟨connection, hconn, _, -, _, ⟨impl, himpl, hacc⟩, -⟩ := hok
  exact .membership hacc himpl (by simp [proofQuery, hconn])

theorem connectionOpenConfirm_asks {i : ConnectionId}
    (hok : connectionOpenConfirm H env s i p h true = .ok out) :
    Asks H env s (.connectionOpenConfirm i p h) := by
  simp only [connectionOpenConfirm, bind_eq_ok, read_eq_ok, expect_eq_ok, onlyIf_eq_ok,
    forall_const, clientImpl_eq_ok, verifyMembership_eq_ok] at hok
  obtain ⟨connection, hconn, _, -, d, hd, _, ⟨impl, himpl, hacc⟩, -⟩ := hok
  exact .membership hacc himpl (by simp [proofQuery, hconn, hd])

theorem channelOpenTry_asks {port cversion : String} {channel : Channel}
    (hok : channelOpenTry H env s info port channel cversion p h r true = .ok out) :
    Asks H env s (.channelOpenTry port channel cversion p h r) := by
  simp only [channelOpenTry, bind_eq_ok, ensureConnectionState_eq_ok, expect_eq_ok, okOr_eq_ok,
    onlyIf_eq_ok, forall_const, clientImpl_eq_ok, verifyMembership_eq_ok] at hok
  obtain ⟨_, -, _, -, connection, ⟨hconn, -⟩, d, hd, impl, himpl, t, ht, _, hacc, -⟩ := hok
  exact .membership hacc himpl (by simp [proofQuery, State.connectionOf, hconn, hd, ht])

theorem channelOpenAck_asks {i t : ChannelId} {cversion : String}
    (hok : channelOpenAck H env s info i cversion t p h r true = .ok out) :
    Asks H env s (.channelOpenAck i cversion t p h r) := by
  simp only [channelOpenAck, bind_eq_ok, read_eq_ok, ensureConnectionState_eq_ok, expect_eq_ok, onlyIf_eq_ok,
    forall_const, clientImpl_eq_ok, verifyMembership_eq_ok] at hok
  obtain ⟨_, -, channel, hchan, _, -, connection, ⟨hconn, -⟩, port, hport, d, hd, impl, himpl, _, hacc,
    -⟩ := hok
  exact .membership hacc himpl (by simp [proofQuery, State.connectionOf, hchan, hconn, hport, hd])

theorem channelOpenConfirm_asks {i : ChannelId}
    (hok : channelOpenConfirm H env s info i p h r true = .ok out) :
    Asks H env s (.channelOpenConfirm i p h r) := by
  simp only [channelOpenConfirm, bind_eq_ok, read_eq_ok, ensureConnectionState_eq_ok, expect_eq_ok,
    onlyIf_eq_ok, forall_const, clientImpl_eq_ok, verifyMembership_eq_ok] at hok
  obtain ⟨_, -, channel, hchan, _, -, connection, ⟨hconn, -⟩, port, hport, d, hd, impl, himpl, t, ht, _,
    hacc, -⟩ := hok
  exact .membership hacc himpl (by simp [proofQuery, State.connectionOf, hchan, hconn, hport, hd, ht])

theorem channelCloseConfirm_asks {i : ChannelId} (hok : channelCloseConfirm H env s info i p h r = .ok out) :
    Asks H env s (.channelCloseConfirm i p h r) := by
  simp only [channelCloseConfirm, bind_eq_ok, read_eq_ok, ensureConnectionState_eq_ok, expect_eq_ok,
    clientImpl_eq_ok, verifyMembership_eq_ok] at hok
  obtain ⟨_, -, channel, hchan, _, -, connection, ⟨hconn, -⟩, port, hport, d, hd, impl, himpl, t, ht, _,
    hacc, -⟩ := hok
  exact .membership hacc himpl (by simp [proofQuery, State.connectionOf, hchan, hconn, hport, hd, ht])

theorem packetRecv_asks {ps : List Packet} {msgs : List Bytes}
    (hok : processReceive H env s info ps msgs r p h false = .ok out) :
      Asks H env s (.packetRecv ps msgs r p h) := by
  simp only [processReceive, bind_eq_ok, okOr_eq_ok, ensureChannelState_eq_ok,
    ensureConnectionState_eq_ok, onlyIf_eq_ok,
    Bool.not_false, forall_const, clientImpl_eq_ok, verifyMembership_eq_ok] at hok
  obtain ⟨_, -, first, hfirst, channel, ⟨hchan, -⟩, connection, ⟨hconn, -⟩, _, ⟨impl, himpl, hacc⟩, -⟩ := hok
  exact .membership hacc himpl (by simp [proofQuery, State.connectionOf, hfirst, hchan, hconn])

theorem packetAck_asks {ps : List Packet} {acks : List Bytes}
    (hok : acknowledgePacket H env s info ps acks p h r = .ok out) :
      Asks H env s (.packetAck ps acks p h r) := by
  simp only [acknowledgePacket, bind_eq_ok, okOr_eq_ok, ensureChannelState_eq_ok, ensureConnectionState_eq_ok,
    clientImpl_eq_ok, verifyMembership_eq_ok] at hok
  obtain ⟨_, -, first, hfirst, channel, ⟨hchan, -⟩, connection, ⟨hconn, -⟩, impl, himpl, _, hacc, -⟩ := hok
  exact .membership hacc himpl (by simp [proofQuery, State.connectionOf, hfirst, hchan, hconn])

theorem packetTimeout_asks {packet : Packet} (hok : timeoutPacket H env s info packet p h r = .ok out) :
    Asks H env s (.packetTimeout packet p h r) := by
  simp only [timeoutPacket, bind_eq_ok, ensureChannelState_eq_ok, ensureConnectionState_eq_ok,
    clientImpl_eq_ok, verifyNonMembership_eq_ok] at hok
  obtain ⟨_, -, channel, ⟨hchan, -⟩, connection, ⟨hconn, -⟩, _, -, _, -, impl, himpl, _, hacc, -⟩ := hok
  exact .nonMembership hacc himpl (by simp [proofQuery, State.connectionOf, hchan, hconn])

theorem commitMembershipProof_asks {path value : Bytes}
    (hok : commitMembershipProof H env s i h p path value = .ok out) :
    Asks H env s (.commitMembershipProof i h p path value) := by
  simp only [commitMembershipProof, bind_eq_ok, clientImpl_eq_ok, verifyMembership_eq_ok] at hok
  obtain ⟨impl, himpl, _, hacc, -⟩ := hok
  exact .membership hacc himpl rfl

theorem commitNonMembershipProof_asks {path : Bytes}
    (hok : commitNonMembershipProof H env s i h p path = .ok out) :
    Asks H env s (.commitNonMembershipProof i h p path) := by
  simp only [commitNonMembershipProof, bind_eq_ok, clientImpl_eq_ok, verifyNonMembership_eq_ok] at hok
  obtain ⟨impl, himpl, _, hacc, -⟩ := hok
  exact .nonMembership hacc himpl rfl

theorem executeRestricted_asks (hm : m.isConditional = true)
    (hok : executeRestricted H env s info m = .ok out) : Asks H env s m := by
  cases m with
  | connectionOpenTry => exact connectionOpenTry_asks hok
  | connectionOpenAck => exact connectionOpenAck_asks hok
  | connectionOpenConfirm => exact connectionOpenConfirm_asks hok
  | channelOpenTry => exact channelOpenTry_asks hok
  | channelOpenAck => exact channelOpenAck_asks hok
  | channelOpenConfirm => exact channelOpenConfirm_asks hok
  | channelCloseConfirm => exact channelCloseConfirm_asks hok
  | packetRecv => exact packetRecv_asks hok
  | packetAck => exact packetAck_asks hok
  | packetTimeout => exact packetTimeout_asks hok
  | commitMembershipProof => exact commitMembershipProof_asks hok
  | commitNonMembershipProof => exact commitNonMembershipProof_asks hok
  | _ => cases hm

end Asks

/-! ## Freezing -/

/-- The message is called at once, and nothing in it fails. -/
def Succeeds (H : Hashing) (s : State) (i : Input) (m : RestrictedExecuteMsg) : Prop :=
  i.msg = .restricted m ∧ i.env.canCall = some .immediate ∧
    ∃ out, executeRestricted H i.env s i.info m = .ok out

section Succeeds

variable {H : Hashing} {s s' : State} {i : Input} {c : ClientId} {b : Bytes} {r : String}

theorem Succeeds.step_eq (h : Succeeds H s i m) :
    ∃ r, executeRestricted H i.env s i.info m = .ok ((step H s i).1, r) := by
  obtain ⟨hmsg, hcall, ⟨s', r⟩, hok⟩ := h
  refine ⟨r, ?_⟩
  rw [hok]
  unfold step
  rw [hmsg]
  simp only [execute, hcall, hok]

theorem Succeeds.updateClient (h : Succeeds H s i (.updateClient c b r)) :
    ∃ impl, s.clientImpls c = some impl ∧ i.env.querier.getStatus impl c = some .active := by
  obtain ⟨-, -, ⟨s', r⟩, hok⟩ := h
  simp only [executeRestricted, Core.updateClient, bind_eq_ok, clientImpl_eq_ok, queryLightClient_eq_ok,
    require_eq_ok] at hok
  obtain ⟨_, -, impl, himpl, _, hstatus, _, rfl, -⟩ := hok
  exact ⟨impl, himpl, hstatus⟩

theorem Succeeds.misbehaviour (h : Succeeds H s i (.misbehaviour c b r)) :
    ∃ impl m, s.clientImpls c = some impl ∧ i.env.querier.misbehaviour impl ⟨i.info.sender, c, r⟩ = some m ∧
      (step H s i).1.view c = ⟨some impl, some m.clientStateBytes, fun n =>
        s.clientConsensusStates (c, n)⟩ := by
  obtain ⟨out, hok⟩ := h.step_eq
  generalize (step H s i).1 = s' at hok ⊢
  simp only [executeRestricted, Core.misbehaviour, bind_eq_ok, addrValidate_eq_ok, clientImpl_eq_ok,
    queryLightClient_eq_ok, require_eq_ok, pure_eq_ok, Prod.mk.injEq] at hok
  obtain ⟨_, ⟨-, rfl⟩, impl, himpl, _, -, _, -, m, hm, rfl, -⟩ := hok
  refine ⟨impl, m, himpl, hm, ?_⟩
  simp [State.view, writeClientState, storeCommit, himpl]

end Succeeds

namespace IbcClient

/-- Freezing is a part of the client state: misbehaviour sets it, and the status follows it. -/
structure Freezing (T : IbcClient) where
  isFrozen : T.ClientState → Prop
  misbehaviour_isFrozen : ∀ {ctx caller m relayer cs},
    T.misbehaviour ctx caller m relayer = some cs → isFrozen cs
  status_eq_frozen : ∀ {ctx cs}, isFrozen cs → T.status ctx cs = .frozen

variable {T : IbcClient}

/-- The stored client state of `c` is frozen. -/
def Freezing.Frozen (F : T.Freezing) (c : ClientId) (s : State) : Prop :=
  ∃ cs, T.readClientState s.hostStores c = some cs ∧ F.isFrozen cs

/-- The proof of a query checks against the consensus state that is stored at its height. -/
def ProofChecks.Valid (P : T.ProofChecks) (s : State) : ProofQuery → Prop
  | .membership q => ∃ proof cons, T.decodeStateProof q.proof = some proof ∧
      T.readConsensusState s.hostStores q.clientId q.height = some cons ∧
      P.membership (T.readRoot P.root s.hostStores q.clientId) cons q.path proof q.value = true
  | .nonMembership q => ∃ proof cons, T.decodeStateProof q.proof = some proof ∧
      T.readConsensusState s.hostStores q.clientId q.height = some cons ∧
      P.nonMembership (T.readRoot P.root s.hostStores q.clientId) cons q.path proof = true

/-- A message with a valid proof under the client `c`. -/
def ProofChecks.Proves (P : T.ProofChecks) (H : Hashing) (c : ClientId) (s : State) (i : Input) : Prop :=
  ∃ m q, i.msg = .restricted m ∧ proofQuery H s m = some q ∧ q.clientId = c ∧ P.Valid s q

end IbcClient

/-- A step with the client `c` hosted by `T`, that is no forced update of it. -/
structure Regular (T : IbcClient) (c : ClientId) (s : State) (i : Input) : Prop where
  hosted : HostedBy T c s i
  unforced : Unforced c i

section

variable (H : Hashing) (c : ClientId) (s : State) (i : Input)

/-- An `UpdateClient` of `c` succeeds. -/
def UpdateSucceeds : Prop :=
  ∃ b r, Succeeds H s i (.updateClient c b r)

/-- A message whose effect is conditional on a proof under `c` succeeds. -/
def ProofSucceeds : Prop :=
  ∃ m q, m.isConditional = true ∧ proofQuery H s m = some q ∧ q.clientId = c ∧ Succeeds H s i m

/-- The client `c` authorises something. -/
def Authorises : Prop :=
  UpdateSucceeds H c s i ∨ ProofSucceeds H c s i

end

section Frozen

variable {T : IbcClient} (F : T.Freezing) (P : T.ProofChecks) {H : Hashing} {c : ClientId}
    {s : State} {i : Input}

open IbcClient

theorem accepted_iff {paused : Bool} (h : Answers T paused impl s i) (q : ProofQuery) :
    q.accepted i.env.querier impl = true ↔ paused = false ∧ P.Valid s q := by
  cases q with
  | membership q =>
    show i.env.querier.verifyMembership impl q = true ↔ _
    rw [h.membership]
    simp only [queryVerifyMembership, Bool.and_eq_true, Bool.not_eq_true', Option.any_eq_true,
      P.verifyMembership_iff]
    constructor
    · rintro ⟨hpaused, proof, hproof, cons, hcons, hcheck⟩
      exact ⟨hpaused, proof, cons, hproof, hcons, hcheck⟩
    · rintro ⟨hpaused, proof, cons, hproof, hcons, hcheck⟩
      exact ⟨hpaused, proof, hproof, cons, hcons, hcheck⟩
  | nonMembership q =>
    show i.env.querier.verifyNonMembership impl q = true ↔ _
    rw [h.nonMembership]
    simp only [queryVerifyNonMembership, Bool.and_eq_true, Bool.not_eq_true', Option.any_eq_true,
      P.verifyNonMembership_iff]
    constructor
    · rintro ⟨hpaused, proof, hproof, cons, hcons, hcheck⟩
      exact ⟨hpaused, proof, cons, hproof, hcons, hcheck⟩
    · rintro ⟨hpaused, proof, cons, hproof, hcons, hcheck⟩
      exact ⟨hpaused, proof, hproof, cons, hcons, hcheck⟩

theorem ProofSucceeds.proves (hhost : HostedBy T c s i) (h : ProofSucceeds H c s i) : P.Proves H c s i := by
  obtain ⟨m, q, hm, hquery, rfl, hsucceeds⟩ := h
  obtain ⟨hmsg, -, out, hok⟩ := hsucceeds
  obtain ⟨q', impl, hquery', himpl, hacc⟩ := executeRestricted_asks hm hok
  obtain rfl : q = q' := Option.some.inj (hquery.symm.trans hquery')
  obtain ⟨⟨paused, hanswers⟩, -⟩ := hhost impl himpl
  exact ⟨m, q, hmsg, hquery, rfl, ((accepted_iff P hanswers q).mp hacc).2⟩

theorem frozen_status {F : T.Freezing} (h : F.Frozen c s) (t : Timestamp) :
    T.queryStatus ⟨c, s.hostStores, t⟩ = some .frozen := by
  obtain ⟨cs, hcs, hfrozen⟩ := h
  unfold queryStatus
  rw [hcs, Option.map_some, F.status_eq_frozen hfrozen]

theorem frozen_view {F : T.Freezing} {s' : State} (h : F.Frozen c s)
    (hview : s'.view c = s.view c) : F.Frozen c s' := by
  obtain ⟨cs, hcs, hfrozen⟩ := h
  refine ⟨cs, ?_, hfrozen⟩
  show (s'.view c).clientState.bind T.decodeClientState = some cs
  rw [hview]
  exact hcs

theorem frozen_refuses {F : T.Freezing} (hhost : HostedBy T c s i) (h : F.Frozen c s) :
    ¬ UpdateSucceeds H c s i := by
  rintro ⟨b, r, hsucceeds⟩
  obtain ⟨impl, himpl, hactive⟩ := hsucceeds.updateClient
  obtain ⟨⟨paused, hanswers⟩, -⟩ := hhost impl himpl
  rw [hanswers.status, frozen_status h] at hactive
  cases hactive

theorem frozen_viewStep {F : T.Freezing} {v : ClientView} (h : F.Frozen c s)
    (hstep : T.ViewStep c s i v) : v = s.view c := by
  cases hstep with
  | same => rfl
  | update hupd =>
    obtain ⟨m, relayer, -, -, hactive, -⟩ := hupd
    rw [frozen_status h] at hactive
    cases hactive
  | misbehaviour hsub =>
    obtain ⟨m, relayer, -, -, hactive, -⟩ := hsub
    rw [frozen_status h] at hactive
    cases hactive

theorem step_frozen {F : T.Freezing} (hw : WellFormed s) (hc : (s.clientImpls c).isSome)
    (hi : Regular T c s i)
    (h : F.Frozen c s) : F.Frozen c (step H s i).1 ∧ ((step H s i).1.clientImpls c).isSome := by
  have hview := frozen_viewStep h (hosted_viewStep (H := H) hw hc hi.hosted hi.unforced)
  refine ⟨frozen_view h hview, ?_⟩
  rw [step_impl hw hc hi.hosted hi.unforced]
  exact hc

theorem misbehaviour_frozen (P : T.ProofChecks) {b : Bytes} {r : String} (hhost : HostedBy T c s i)
    (h : Succeeds H s i (.misbehaviour c b r)) : F.Frozen c (step H s i).1 ∧
      ((step H s i).1.clientImpls c).isSome := by
  obtain ⟨impl, m, himpl, hm, hview⟩ := h.misbehaviour
  obtain ⟨⟨paused, hanswers⟩, -⟩ := hhost impl himpl
  rw [hanswers.misbehaviour c b r h.1] at hm
  obtain ⟨-, _, misbehaviour, cs, bytes, -, -, hcs, hbytes, rfl⟩ := queryMisbehaviour_eq_some.mp hm
  constructor
  · refine ⟨cs, ?_, F.misbehaviour_isFrozen hcs⟩
    show ((step H s i).1.view c).clientState.bind T.decodeClientState = some cs
    rw [hview]
    exact P.decode_encode hbytes
  · show (((step H s i).1.view c).impl).isSome = true
    rw [hview]
    rfl

theorem run_frozen {F : T.Freezing} {is : List Input} (hw : WellFormed s) (hc : (s.clientImpls c).isSome)
    (h : F.Frozen c s) (hregular : Machine.Meets (step H) (Regular T c) s is) :
    Machine.Meets (step H) (fun t i => ¬ UpdateSucceeds H c t i ∧
      (ProofSucceeds H c t i → P.Proves H c t i)) s is := by
  refine Machine.meets_of_invariant
    (I := fun t => WellFormed t ∧ (t.clientImpls c).isSome ∧ F.Frozen c t) ?_ ?_ is s ⟨hw, hc, h⟩ hregular
  · rintro t i ⟨ht, htc, hfrozen⟩ hi
    obtain ⟨hfrozen', htc'⟩ := step_frozen (H := H) ht htc hi hfrozen
    exact ⟨step_wellFormed t i ht, htc', hfrozen'⟩
  · rintro t i ⟨ht, htc, hfrozen⟩ hi
    exact ⟨frozen_refuses hi.hosted hfrozen, ProofSucceeds.proves P hi.hosted⟩

end Frozen

end UnionVoyager.Core
