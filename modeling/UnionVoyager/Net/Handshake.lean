import UnionVoyager.Net.World

/-!
# Handshake agreement between two chains

Each of the eight handshake steps sees a part of the other side only: the try step takes the channel
whole from its message, the acknowledgement overwrites the version, several tries can answer one
init.  Agreement is an invariant over all interleavings of both sides.

* `Agree` — the invariant; `step_agree` — every message with verified proofs keeps it.
-/

namespace UnionVoyager.Net

open Core Lib Function

/-! ## Where connections and channels come from -/

variable {c : ConnectionId} {t : ChannelId} {x : Channel}

section Writes

variable {H : Hashing} {env : Env} {info : MessageInfo} {s s' : State} {m : ExecuteMsg}
  {msgs : List Dispatch}

/-- Where the connection `x` stored under `c` comes from, seen from the storage before. -/
inductive ConnectionWrite (H : Hashing) (env : Env) (s : State) (c : ConnectionId) (x : Connection) : Prop
  | same : s.connections c = some x → ConnectionWrite H env s c x
  | created : x.state ≠ .open → ConnectionWrite H env s c x
  | acked {old : Connection} {d : ConnectionId} {h : Height} : s.connections c = some old →
      x = { old with state := .open, counterpartyConnectionId := some d } →
      Proven env old.clientId h ((StorePath.connection d).key H)
        (commitConnection H ⟨.tryOpen, old.counterpartyClientId, old.clientId, some c⟩) →
      ConnectionWrite H env s c x
  | confirmed {old : Connection} {d : ConnectionId} {h : Height} : s.connections c = some old →
      old.counterpartyConnectionId = some d → x = { old with state := .open } →
      Proven env old.clientId h ((StorePath.connection d).key H)
        (commitConnection H ⟨.open, old.counterpartyClientId, old.clientId, some c⟩) →
      ConnectionWrite H env s c x

theorem connectionWrite (he : Effect H env info s m s' msgs) (hf : m.isForce = false)
    {x : Connection} (hx : s'.connections c = some x) : ConnectionWrite H env s c x := by
  cases he with
  | delayed | membershipProof | nonMembershipProof | channelOpenInit | channelOpenTry | channelOpenAck
  | channelOpenConfirm | channelCloseInit | channelCloseConfirm | send | batchSend | batchAcks
  | writeAcknowledgement | timeout => exact .same hx
  | client hc => exact .same (by rw [← hc.frame.connections]; exact hx)
  | connectionOpenInit | connectionOpenTry =>
    rcases update_eq_some hx with ⟨-, rfl⟩ | ⟨-, hx⟩
    · exact .created (by simp)
    · exact .same hx
  | connectionOpenAck hc _ hp =>
    rcases update_eq_some hx with ⟨rfl, rfl⟩ | ⟨-, hx⟩
    · exact .acked hc rfl (hp hf)
    · exact .same hx
  | connectionOpenConfirm hc _ hd hp =>
    rcases update_eq_some hx with ⟨rfl, rfl⟩ | ⟨-, hx⟩
    · exact .confirmed hc hd rfl (hp hf)
    · exact .same hx
  | receive _ _ _ _ _ hL => exact .same (by rw [← (receive_same hL).1]; exact hx)
  | acknowledge hL => exact .same (by rw [← (acknowledge_same hL).1]; exact hx)

/-- Where the channel `x` stored under `t` comes from, seen from the storage before; `owner` is its
    owner afterwards. -/
inductive ChannelWrite (H : Hashing) (env : Env) (s : State) (owner : ChannelId → Option Addr)
    (t : ChannelId) (x : Channel) : Prop
  | same : s.channels t = some x → ChannelWrite H env s owner t x
  | init : x.state = .init → ChannelWrite H env s owner t x
  | tried {c : Connection} {d : ConnectionId} {u : ChannelId} {port : Addr} {v : String}
      {h : Height} : x.state = .tryOpen → s.connections x.connectionId = some c → c.state = .open →
      c.counterpartyConnectionId = some d → x.counterpartyChannelId = some u →
      owner t = some port →
      Proven env c.clientId h ((StorePath.channel u).key H)
        (commitChannel H ⟨.init, d, none, utf8 port, v⟩) → ChannelWrite H env s owner t x
  | acked {old : Channel} {c : Connection} {d : ConnectionId} {u : ChannelId} {port : Addr}
      {v : String} {h : Height} : s.channels t = some old → old.state = .init →
      s.connections old.connectionId = some c → c.state = .open →
      c.counterpartyConnectionId = some d → s.channelOwner t = some port →
      x = { old with state := .open, version := v, counterpartyChannelId := some u } →
      Proven env c.clientId h ((StorePath.channel u).key H)
        (commitChannel H ⟨.tryOpen, d, some t, utf8 port, v⟩) → ChannelWrite H env s owner t x
  | confirmed {old : Channel} {c : Connection} {d : ConnectionId} {u : ChannelId} {port : Addr}
      {h : Height} : s.channels t = some old → s.connections old.connectionId = some c →
      c.state = .open → c.counterpartyConnectionId = some d → s.channelOwner t = some port →
      old.counterpartyChannelId = some u → x = { old with state := .open } →
      Proven env c.clientId h ((StorePath.channel u).key H)
        (commitChannel H ⟨.open, d, some t, utf8 port, old.version⟩) → ChannelWrite H env s owner t x
  | closed {old : Channel} : s.channels t = some old → old.state = .open →
      x = { old with state := .closed } → ChannelWrite H env s owner t x

theorem channelWrite (he : Effect H env info s m s' msgs) (hf : m.isForce = false)
    (hx : s'.channels t = some x) : ChannelWrite H env s s'.channelOwner t x := by
  cases he with
  | delayed | membershipProof | nonMembershipProof | connectionOpenInit | connectionOpenTry
  | connectionOpenAck | connectionOpenConfirm | send | batchSend | batchAcks | writeAcknowledgement
      | timeout =>
    exact .same hx
  | client hc => exact .same (by rw [← hc.frame.channels]; exact hx)
  | channelOpenInit =>
    rcases update_eq_some hx with ⟨-, rfl⟩ | ⟨-, hx⟩
    · exact .init rfl
    · exact .same hx
  | channelOpenTry hs hc hopen hd hu _ hp =>
    rcases update_eq_some hx with ⟨rfl, rfl⟩ | ⟨-, hx⟩
    · exact .tried hs hc hopen hd hu (update_self ..) (hp hf)
    · exact .same hx
  | channelOpenAck hch hs hc hopen hown hd hp =>
    rcases update_eq_some hx with ⟨rfl, rfl⟩ | ⟨-, hx⟩
    · exact .acked hch hs hc hopen hd hown rfl (hp hf)
    · exact .same hx
  | channelOpenConfirm hch _ hc hopen hown hd hu hp =>
    rcases update_eq_some hx with ⟨rfl, rfl⟩ | ⟨-, hx⟩
    · exact .confirmed hch hc hopen hd hown hu rfl (hp hf)
    · exact .same hx
  | channelCloseInit hch hs =>
    rcases update_eq_some hx with ⟨rfl, rfl⟩ | ⟨-, hx⟩
    · exact .closed hch hs rfl
    · exact .same hx
  | channelCloseConfirm hch hs =>
    rcases update_eq_some hx with ⟨rfl, rfl⟩ | ⟨-, hx⟩
    · exact .closed hch hs rfl
    · exact .same hx
  | receive _ _ _ _ _ hL => exact .same (by rw [← (receive_same hL).2.1]; exact hx)
  | acknowledge hL => exact .same (by rw [← (acknowledge_same hL).2.1]; exact hx)

end Writes

/-- The connection `x`, stored on chain `i` under `c`, is mirrored on the other chain. -/
def ConnectionAgrees (w : World Side) (i : Side) (c : ConnectionId) (x : Connection) : Prop :=
  ∃ d y, x.counterpartyConnectionId = some d ∧ (w i.other).core.connections d = some y ∧
    y.state ≠ .init ∧ y.clientId = x.counterpartyClientId ∧ y.counterpartyClientId = x.clientId ∧
    y.counterpartyConnectionId = some c

/-- The channel `x`, being opened on chain `i` under `t`, answers a channel of the other chain that
    names its port, over the counterparty of its open connection. -/
def ChannelAnswers (w : World Side) (i : Side) (t : ChannelId) (x : Channel) : Prop :=
  ∃ u y port conn, x.counterpartyChannelId = some u ∧ (w i.other).core.channels u = some y ∧
    (w i).core.channelOwner t = some port ∧ y.counterpartyPortId = utf8 port ∧
    (w i).core.connections x.connectionId = some conn ∧ conn.state = .open ∧
    conn.counterpartyConnectionId = some y.connectionId

/-- The channel `x`, opened on chain `i` under `t`, is mirrored on the other chain. -/
def ChannelAgrees (w : World Side) (i : Side) (t : ChannelId) (x : Channel) : Prop :=
  ∃ u y port cport conn, x.counterpartyChannelId = some u ∧
    (w i.other).core.channels u = some y ∧ y.state ≠ .init ∧ y.counterpartyChannelId = some t ∧
    (w i).core.channelOwner t = some port ∧ (w i.other).core.channelOwner u = some cport ∧
    x.counterpartyPortId = utf8 cport ∧ y.counterpartyPortId = utf8 port ∧ y.version = x.version ∧
    (w i).core.connections x.connectionId = some conn ∧ conn.state = .open ∧
    conn.counterpartyConnectionId = some y.connectionId

structure Agree (w : World Side) : Prop where
  connection : ∀ i c x, (w i).core.connections c = some x → x.state = .open →
    ConnectionAgrees w i c x
  answers : ∀ i t x, (w i).core.channels t = some x → x.state = .tryOpen → ChannelAnswers w i t x
  channel : ∀ i t x, (w i).core.channels t = some x → x.Opened → ChannelAgrees w i t x

/-! ## Agreement survives on both sides -/

section Mono

variable {w w' : World Side} {i : Side}

theorem ConnectionAgrees.mono (hev : ∀ j, Evolves (w j).core (w' j).core) {x : Connection}
    (h : ConnectionAgrees w i c x) : ConnectionAgrees w' i c x := by
  obtain ⟨d, y, hd, hy, hs, hk, hck, hback⟩ := h
  obtain ⟨y', hy', hle⟩ := (hev i.other).connection d y hy
  obtain ⟨hs', hback'⟩ := hle.settled hs
  exact ⟨d, y', hd, hy', hs', hle.clientId.trans hk, hle.counterpartyClientId.trans hck, hback'.trans hback⟩

theorem open_connection_mono (hev : Evolves (w i).core (w' i).core) {d : ConnectionId} {conn : Connection}
    (hc : (w i).core.connections c = some conn) (hs : conn.state = .open)
      (hd : conn.counterpartyConnectionId = some d) :
    ∃ conn', (w' i).core.connections c = some conn' ∧ conn'.state = .open ∧
      conn'.counterpartyConnectionId = some d := by
  obtain ⟨conn', hc', hle⟩ := hev.connection c conn hc
  obtain ⟨-, hd'⟩ := hle.settled (by simp [hs])
  exact ⟨conn', hc', hle.opened hs, hd'.trans hd⟩

theorem ChannelAnswers.mono (hev : ∀ j, Evolves (w j).core (w' j).core) (h : ChannelAnswers w i t x) :
    ChannelAnswers w' i t x := by
  obtain ⟨u, y, port, conn, hu, hy, hport, hyp, hconn, hs, hd⟩ := h
  obtain ⟨y', hy', hle⟩ := (hev i.other).channel u y hy
  obtain ⟨conn', hconn', hs', hd'⟩ := open_connection_mono (hev i) hconn hs hd
  exact ⟨u, y', port, conn', hu, hy', (hev i).owner t port hport, hle.counterpartyPortId.trans hyp,
    hconn', hs', by rw [hd', hle.connectionId]⟩

theorem ChannelAgrees.mono (hev : ∀ j, Evolves (w j).core (w' j).core) (h : ChannelAgrees w i t x) :
    ChannelAgrees w' i t x := by
  obtain ⟨u, y, port, cport, conn, hu, hy, hys, hback, hport, hcport, hxp, hyp, hv, hconn, hs, hd⟩ := h
  obtain ⟨y', hy', hle⟩ := (hev i.other).channel u y hy
  obtain ⟨hys', hback', hv'⟩ := hle.settled hys
  obtain ⟨conn', hconn', hs', hd'⟩ := open_connection_mono (hev i) hconn hs hd
  exact ⟨u, y', port, cport, conn', hu, hy', hys', hback'.trans hback, (hev i).owner t port hport,
    (hev i.other).owner u cport hcport, hxp, hle.counterpartyPortId.trans hyp, hv'.trans hv, hconn',
    hs', by rw [hd', hle.connectionId]⟩

end Mono

/-! ## Every verified step keeps it -/

section Steps

variable {H : Hashing} {w : World Side} {i : Side} {env : Env}

theorem ConnectionWrite.agrees (hH : H.CollisionFree) (hf : ∀ j, Faithful H (w j)) {x : Connection}
    (hw : ConnectionWrite H (w.env twoChains i env) (w i).core c x) (hs : x.state = .open)
    (h : Agree w) : ConnectionAgrees w i c x := by
  cases hw with
  | same hx => exact h.connection i c x hx hs
  | created hx => exact absurd hs hx
  | acked _ hx hp =>
    obtain ⟨y, hy, hle⟩ := proven_connection hH (hf _) hp
    obtain ⟨hys, hback⟩ := hle.settled (by simp)
    subst hx
    exact ⟨_, y, rfl, hy, hys, hle.clientId, hle.counterpartyClientId, hback⟩
  | confirmed _ hd hx hp =>
    obtain ⟨y, hy, hle⟩ := proven_connection hH (hf _) hp
    obtain ⟨hys, hback⟩ := hle.settled (by simp)
    subst hx
    exact ⟨_, y, hd, hy, hys, hle.clientId, hle.counterpartyClientId, hback⟩

theorem ChannelWrite.answers (hH : H.CollisionFree) (hf : ∀ j, Faithful H (w j)) {w' : World Side}
    (hev : ∀ j, Evolves (w j).core (w' j).core)
    (hw : ChannelWrite H (w.env twoChains i env) (w i).core (w' i).core.channelOwner t x)
    (hs : x.state = .tryOpen) (h : Agree w) : ChannelAnswers w' i t x := by
  cases hw with
  | same hx => exact (h.answers i t x hx hs).mono hev
  | init hx =>
    rw [hs] at hx
    cases hx
  | tried _ hc hopen hd hu hport hp =>
    obtain ⟨y, hy, hle⟩ := proven_channel hH (hf _) hp
    obtain ⟨y', hy', hle'⟩ := (hev i.other).channel _ y hy
    obtain ⟨conn', hconn', hs', hd'⟩ := open_connection_mono (hev i) hc hopen hd
    have hyc := (hle.trans hle').connectionId
    have hyp := (hle.trans hle').counterpartyPortId
    exact ⟨_, y', _, conn', hu, hy', hport, hyp, hconn', hs', by rw [hd', hyc]⟩
  | acked _ _ _ _ _ _ hx =>
    subst hx
    cases hs
  | confirmed _ _ _ _ _ _ hx =>
    subst hx
    cases hs
  | closed _ _ hx =>
    subst hx
    cases hs

theorem acked_answers (h : Agree w) {u : ChannelId} {old y : Channel}
    (hold : (w i).core.channels t = some old)
    (hs : old.state = .init) (hy : (w i.other).core.channels u = some y) (hys : y.state ≠ .init)
    (hback : y.counterpartyChannelId = some t) :
    ∃ cport, (w i.other).core.channelOwner u = some cport ∧ old.counterpartyPortId = utf8 cport := by
  have hcases : y.state = .tryOpen ∨ y.Opened := by
    unfold Channel.Opened
    cases hst : y.state with
    | init => exact absurd hst hys
    | tryOpen => exact .inl rfl
    | «open» => exact .inr (.inl rfl)
    | closed => exact .inr (.inr rfl)
  rcases hcases with htry | hopened
  · obtain ⟨t', x', cport, -, ht', hx', hcport, hport, -⟩ := h.answers i.other u y hy htry
    rw [hback, Option.some.injEq] at ht'
    subst ht'
    rw [Side.other_other, hold, Option.some.injEq] at hx'
    subst hx'
    exact ⟨cport, hcport, hport⟩
  · -- an opened channel has a counterparty that has left the init state
    obtain ⟨t', x', -, -, -, ht', hx', hxs, -⟩ := h.channel i.other u y hy hopened
    rw [hback, Option.some.injEq] at ht'
    subst ht'
    rw [Side.other_other, hold, Option.some.injEq] at hx'
    subst hx'
    exact absurd hs hxs

theorem ChannelWrite.agrees (hH : H.CollisionFree) (hf : ∀ j, Faithful H (w j))
    {owner : ChannelId → Option Addr}
    (hw : ChannelWrite H (w.env twoChains i env) (w i).core owner t x) (hs : x.Opened) (h : Agree w) :
    ChannelAgrees w i t x := by
  cases hw with
  | same hx => exact h.channel i t x hx hs
  | init hx => simp [Channel.Opened, hx] at hs
  | tried hx => simp [Channel.Opened, hx] at hs
  | @acked old c d u port v n hold holds hc hopen hd hport hx hp =>
    obtain ⟨y, hy, hle⟩ := proven_channel hH (hf _) hp
    obtain ⟨hys, hback, hyv⟩ := hle.settled (by simp)
    obtain ⟨cport, hcport, hxp⟩ := acked_answers h hold holds hy hys hback
    have hyc : y.connectionId = d := hle.connectionId
    subst hx
    exact ⟨u, y, port, cport, c, rfl, hy, hys, hback, hport, hcport, hxp, hle.counterpartyPortId, hyv,
      hc, hopen, by rw [hd, hyc]⟩
  | @confirmed old c d u port n hold hc hopen hd hport hu hx hp =>
    obtain ⟨y, hy, hle⟩ := proven_channel hH (hf _) hp
    obtain ⟨hys, hback, hyv⟩ := hle.settled (by simp)
    have hyc : y.connectionId = d := hle.connectionId
    -- the other end is open already, so the port of this end was checked there
    obtain ⟨t', x', cport, -, -, ht', hx', -, -, hcport, -, -, hxp, -⟩ :=
      h.channel i.other u y hy (hle.opened (.inl rfl))
    rw [hback, Option.some.injEq] at ht'
    subst ht'
    rw [Side.other_other, hold, Option.some.injEq] at hx'
    subst hx' hx
    exact ⟨u, y, port, cport, c, hu, hy, hys, hback, hport, hcport, hxp, hle.counterpartyPortId, hyv,
      hc, hopen, by rw [hd, hyc]⟩
  | @closed old hold holds hx =>
    subst hx
    exact h.channel i t old hold (.inl holds)

theorem step_agree (hH : H.CollisionFree) (a : Action Side) (hforce : a.isForce = false)
    (hf : ∀ j, Faithful H (w j)) (h : Agree w) : Agree (step H twoChains w a).1 := by
  generalize hw : (step H twoChains w a).1 = w', ho : (step H twoChains w a).2 = out
  have hcase := step_case H twoChains w a
  rw [hw, ho] at hcase
  cases hcase with
  | refused => exact h
  | @accepted i env info m s msgs ha heff =>
    subst ha
    have hev : ∀ j, Evolves (w j).core (w.setCore i s j).core := by
      intro j
      by_cases hj : j = i
      · subst hj
        rw [setCore_core]
        exact effect_evolves (hf j).wellFormed heff
      · rw [setCore_of_ne hj]
        exact .refl _
    refine ⟨fun j c x hx hs => ?_, fun j t x hx hs => ?_, fun j t x hx hs => ?_⟩
    · by_cases hj : j = i
      · subst hj
        rw [setCore_core] at hx
        exact ((connectionWrite heff hforce hx).agrees hH hf hs h).mono hev
      · rw [setCore_of_ne hj] at hx
        exact (h.connection j c x hx hs).mono hev
    · by_cases hj : j = i
      · subst hj
        rw [setCore_core] at hx
        have hwrite := channelWrite heff hforce hx
        rw [← setCore_core w j s] at hwrite
        exact hwrite.answers hH hf hev hs h
      · rw [setCore_of_ne hj] at hx
        exact (h.answers j t x hx hs).mono hev
    · by_cases hj : j = i
      · subst hj
        rw [setCore_core] at hx
        exact ((channelWrite heff hforce hx).agrees hH hf hs h).mono hev
      · rw [setCore_of_ne hj] at hx
        exact (h.channel j t x hx hs).mono hev
  | @ended i elapsed _ =>
    have hcore : ∀ j, (update w i ((w i).endBlock elapsed) j).core = (w j).core := by
      intro j
      by_cases hj : j = i
      · subst hj
        rw [update_self]
        rfl
      · rw [update_of_ne hj]
    have hev : ∀ j, Evolves (w j).core (update w i ((w i).endBlock elapsed) j).core := by
      intro j
      rw [hcore]
      exact .refl _
    refine ⟨fun j c x hx hs => ?_, fun j t x hx hs => ?_, fun j t x hx hs => ?_⟩
    · rw [hcore] at hx
      exact (h.connection j c x hx hs).mono hev
    · rw [hcore] at hx
      exact (h.answers j t x hx hs).mono hev
    · rw [hcore] at hx
      exact (h.channel j t x hx hs).mono hev

theorem genesis_agree (t : Side → Timestamp) : Agree (World.genesis t) where
  connection i c x hx := by cases hx
  answers i t x hx := by cases hx
  channel i t x hx := by cases hx

theorem run_agree (hH : H.CollisionFree) (t : Side → Timestamp) (as : List (Action Side))
    (hforce : ∀ a ∈ as, a.isForce = false) : Agree (run H twoChains (World.genesis t) as) := by
  have h : Agree (run H twoChains (World.genesis t) as) ∧
      ∀ j, Faithful H (run H twoChains (World.genesis t) as j) :=
    Machine.invariant_of_meets
      (I := fun (w : World Side) _ => Agree w ∧ ∀ j, Faithful H (w j))
      (fun w _ a hw ha => ⟨step_agree hH a ha hw.2 hw.1, fun j => step_faithful hH a hw.2 j⟩)
      ⟨genesis_agree t, fun j => genesis_faithful H (t j)⟩ (Machine.meets_of_forall _ hforce)
  exact h.1

end Steps

/-! ## Agreement -/

/-- Every open connection is mirrored by one of the other chain that is open or being opened, and by
    it alone. -/
def ConnectionsAgree (w : World Side) : Prop :=
  ∀ i c x, (w i).core.connections c = some x → x.state = .open →
    ∃ d y, x.counterpartyConnectionId = some d ∧ (w i.other).core.connections d = some y ∧
      (y.state = .tryOpen ∨ y.state = .open) ∧ y.clientId = x.counterpartyClientId ∧
      y.counterpartyClientId = x.clientId ∧ y.counterpartyConnectionId = some c ∧
      ∀ c' x', (w i).core.connections c' = some x' → x'.state = .open →
        x'.counterpartyConnectionId = some d → c' = c

/-- Every opened channel is mirrored by one of the other chain that is opened or being opened, over
    connections that name each other; each side names the port that owns the other side, and the
    versions are equal. -/
def ChannelsAgree (w : World Side) : Prop :=
  ∀ i s x, (w i).core.channels s = some x → x.state = .open ∨ x.state = .closed →
    ∃ t y conn conn' port cport, x.counterpartyChannelId = some t ∧
      (w i.other).core.channels t = some y ∧
      (y.state = .tryOpen ∨ y.state = .open ∨ y.state = .closed) ∧
      y.counterpartyChannelId = some s ∧
      (w i).core.connections x.connectionId = some conn ∧
      (w i.other).core.connections y.connectionId = some conn' ∧
      conn.counterpartyConnectionId = some y.connectionId ∧
      conn'.counterpartyConnectionId = some x.connectionId ∧
      (w i).core.channelOwner s = some port ∧ (w i.other).core.channelOwner t = some cport ∧
      x.counterpartyPortId = utf8 cport ∧ y.counterpartyPortId = utf8 port ∧ y.version = x.version

theorem Agree.connectionsAgree {w : World Side} (h : Agree w) : ConnectionsAgree w := by
  intro i c x hx hs
  obtain ⟨d, y, hd, hy, hys, hk, hck, hback⟩ := h.connection i c x hx hs
  have hst : y.state = .tryOpen ∨ y.state = .open := by
    cases hst : y.state with
    | init => exact absurd hst hys
    | tryOpen => exact .inl rfl
    | «open» => exact .inr rfl
  refine ⟨d, y, hd, hy, hst, hk, hck, hback, ?_⟩
  intro c' x' hx' hs' hd'
  -- the mirror image names one connection only
  obtain ⟨d', y', hd'', hy', -, -, -, hback'⟩ := h.connection i c' x' hx' hs'
  rw [hd', Option.some.injEq] at hd''
  subst hd''
  rw [hy, Option.some.injEq] at hy'
  subst hy'
  rw [hback, Option.some.injEq] at hback'
  exact hback'.symm

theorem Agree.channelsAgree {w : World Side} (h : Agree w) : ChannelsAgree w := by
  intro i s x hx hs
  obtain ⟨t, y, port, cport, conn, ht, hy, hys, hback, hport, hcport, hxp, hyp, hv, hconn, hopen, hd⟩ :=
    h.channel i s x hx hs
  obtain ⟨d, conn', hd', hconn', -, -, -, hback'⟩ := h.connection i _ conn hconn hopen
  rw [hd, Option.some.injEq] at hd'
  subst hd'
  have hst : y.state = .tryOpen ∨ y.state = .open ∨ y.state = .closed := by
    cases hst : y.state with
    | init => exact absurd hst hys
    | tryOpen => exact .inl rfl
    | «open» => exact .inr (.inl rfl)
    | closed => exact .inr (.inr rfl)
  exact ⟨t, y, conn, conn', port, cport, ht, hy, hst, hback, hconn, hconn', hd, hback', hport,
    hcport, hxp, hyp, hv⟩

/-- **Handshake agreement.**  In every run of two chains without unverified messages, open
    connections and opened channels are mirrored on the other chain. -/
theorem handshake_agreement (H : Hashing) (hH : H.CollisionFree) (t : Side → Timestamp)
    (as : List (Action Side)) (hforce : ∀ a ∈ as, a.isForce = false) :
    ConnectionsAgree (run H twoChains (World.genesis t) as) ∧
      ChannelsAgree (run H twoChains (World.genesis t) as) := by
  have h := run_agree hH t as hforce
  exact ⟨h.connectionsAgree, h.channelsAgree⟩

/-! ## A complete handshake -/

/-- Clients, a connection and a channel between the ports `alice` and `bob`. -/
def handshakeActions : List (Action Side) :=
  [relay .a (.registerClient "cometbls" "impl"), relay .a (.createClient "cometbls" [1] [2] "relayer"),
    relay .b (.registerClient "cometbls" "impl"), relay .b (.createClient "cometbls" [1] [2] "relayer"),
    relay .a (.connectionOpenInit ⟨.one⟩ ⟨.one⟩), .endBlock .a 1,
    relay .b (.connectionOpenTry ⟨.one⟩ ⟨.one⟩ ⟨.one⟩ [] 0), .endBlock .b 1,
    relay .a (.connectionOpenAck ⟨.one⟩ ⟨.one⟩ [] 0), .endBlock .a 1,
    relay .b (.connectionOpenConfirm ⟨.one⟩ [] 1), .endBlock .b 1,
    relay .a (.channelOpenInit "alice" (utf8 "bob") ⟨.one⟩ "v1" "relayer"), .endBlock .a 1,
    relay .b (.channelOpenTry "bob" ⟨.tryOpen, ⟨.one⟩, some ⟨.one⟩, utf8 "alice", "v1"⟩ "v1" [] 2
      "relayer"), .endBlock .b 1,
    relay .a (.channelOpenAck ⟨.one⟩ "v1" ⟨.one⟩ [] 2 "relayer"), .endBlock .a 1,
    relay .b (.channelOpenConfirm ⟨.one⟩ [] 3 "relayer"), .endBlock .b 1]

/-- The blocks of both chains, on which a channel is opened. -/
theorem run_faithful_handshake :
    (∀ i, Faithful .ideal (run .ideal twoChains (World.genesis fun _ => 0) handshakeActions i)) ∧
      ∀ i, (run .ideal twoChains (World.genesis fun _ => 0) handshakeActions i).blocks.length = 4 := by
  refine ⟨fun i => run_faithful Hashing.ideal_collisionFree _ handshakeActions i, fun i => ?_⟩
  cases i <;> decide +kernel

/-- The theorem on a complete handshake, at the end of which both channels are open. -/
theorem handshake_completes_in_agreement :
    (∀ i, ((run .ideal twoChains (World.genesis fun _ => 0) handshakeActions i).core.channels
        ⟨.one⟩).map Channel.state = some .open) ∧
      ConnectionsAgree (run .ideal twoChains (World.genesis fun _ => 0) handshakeActions) ∧
      ChannelsAgree (run .ideal twoChains (World.genesis fun _ => 0) handshakeActions) := by
  refine ⟨fun i => ?_, handshake_agreement .ideal Hashing.ideal_collisionFree _ _ ?_⟩
  · cases i <;> decide +kernel
  · decide

end UnionVoyager.Net
