import UnionVoyager.Core.WellFormed

/-!
# What an app sees of its channels

Every handshake step on a channel dispatches one callback to the owner of the channel.

* `channel_close_confirm` changes the channel like `channel_close_init` but dispatches
  `OnChannelOpenConfirm`.  `lifeCycle_iff` — **a run has a well-formed life cycle iff no step of it
  closes a channel by a confirmation**.
-/

namespace UnionVoyager.Core

open Lib Function

/-- The channel callbacks of an app. -/
inductive Callback where
  | openInit
  | openTry
  | openAck
  | openConfirm
  | closeInit
  | closeConfirm
  deriving DecidableEq

/-- The channel a callback is about and which one it is; packet callbacks are not channel callbacks. -/
def IbcUnionMsg.channelCallback : IbcUnionMsg → Option (ChannelId × Callback)
  | .onChannelOpenInit _ _ c _ _ => some (c, .openInit)
  | .onChannelOpenTry _ _ c _ _ _ => some (c, .openTry)
  | .onChannelOpenAck _ c _ _ _ => some (c, .openAck)
  | .onChannelOpenConfirm _ c _ => some (c, .openConfirm)
  | .onChannelCloseInit _ c _ => some (c, .closeInit)
  | .onChannelCloseConfirm _ c _ => some (c, .closeConfirm)
  | .onIntentRecvPacket .. => none
  | .onRecvPacket .. => none
  | .onAcknowledgementPacket .. => none
  | .onTimeoutPacket .. => none

/-- The callback about channel `c` that a dispatch is, if it is one. -/
def callback? (c : ChannelId) (d : Dispatch) : Option Callback :=
  match d.msg.channelCallback with
  | some (c', k) => if c' = c then some k else none
  | none => none

/-- The callbacks about channel `c`, in order. -/
def callbacks (c : ChannelId) (ds : List Dispatch) : List Callback := ds.filterMap (callback? c)

theorem callbacks_append (c : ChannelId) (ds es : List Dispatch) :
    callbacks c (ds ++ es) = callbacks c ds ++ callbacks c es := List.filterMap_append

variable {d : Dispatch} {k : Callback}

theorem callbacks_singleton {i : ChannelId} (h : d.msg.channelCallback = some (i, k))
    (c : ChannelId) : callbacks c [d] = if i = c then [k] else [] := by
  have hd : callback? c d = if i = c then some k else none := by
    unfold callback?
    rw [h]
  unfold callbacks
  rw [List.filterMap_cons, List.filterMap_nil, hd]
  by_cases hc : i = c
  · rw [if_pos hc, if_pos hc]
  · rw [if_neg hc, if_neg hc]

/-- Every channel callback among `ds` goes to the owner of its channel. -/
def ToOwner (s : State) (ds : List Dispatch) : Prop :=
  ∀ d ∈ ds, ∀ c k, d.msg.channelCallback = some (c, k) → s.channelOwner c = some d.contract

/-! ## The allowed sequences -/

/-- The change of one stored channel by a message, and the callback that belongs to it. -/
inductive Transition (m : ExecuteMsg) : Option Channel → Option Channel → List Callback → Prop
  | same {ch : Option Channel} : Transition m ch ch []
  | openInit {ch : Channel} : ch.state = .init → Transition m none (some ch) [.openInit]
  | openTry {ch : Channel} : ch.state = .tryOpen → Transition m none (some ch) [.openTry]
  | openAck {ch ch' : Channel} : ch.state = .init → ch'.state = .open →
      Transition m (some ch) (some ch') [.openAck]
  | openConfirm {ch ch' : Channel} : ch.state = .tryOpen → ch'.state = .open →
      Transition m (some ch) (some ch') [.openConfirm]
  | closeInit {ch ch' : Channel} {c : ChannelId} {relayer : String} :
      m = .restricted (.channelCloseInit c relayer) → ch.state = .open → ch'.state = .closed →
      Transition m (some ch) (some ch') [.closeInit]
  | closeConfirm {ch ch' : Channel} {c : ChannelId} {proof : Bytes} {h : Height} {relayer : String} :
      m = .restricted (.channelCloseConfirm c proof h relayer) → ch.state = .open →
      ch'.state = .closed → Transition m (some ch) (some ch') [.closeConfirm]

/-- An opening sequence or a part of one, followed by at most one closing callback. -/
def WellOrdered (ks : List Callback) : Prop :=
  ∃ opening closing, ks = opening ++ closing ∧
    (opening <+: [.openInit, .openAck] ∨ opening <+: [.openTry, .openConfirm]) ∧
    (closing = [] ∨ closing = [.closeInit] ∨ closing = [.closeConfirm])

/-- The callbacks a channel in a given state has seen. -/
inductive History : Option ChannelState → List Callback → Prop
  | none : History none []
  | init : History (some .init) [.openInit]
  | tryOpen : History (some .tryOpen) [.openTry]
  | openAck : History (some .open) [.openInit, .openAck]
  | openConfirm : History (some .open) [.openTry, .openConfirm]
  | closeInit {ks : List Callback} : History (some .open) ks →
      History (some .closed) (ks ++ [.closeInit])
  | closeConfirm {ks : List Callback} : History (some .open) ks →
      History (some .closed) (ks ++ [.closeConfirm])

variable {ks : List Callback}

theorem History.open_cases (h : History (some .open) ks) :
    ks = [.openInit, .openAck] ∨ ks = [.openTry, .openConfirm] := by
  cases h with
  | openAck => exact .inl rfl
  | openConfirm => exact .inr rfl

theorem History.wellOrdered {o : Option ChannelState} (h : History o ks) : WellOrdered ks := by
  cases h with
  | none => exact ⟨[], [], rfl, .inl (by simp), .inl rfl⟩
  | init => exact ⟨[.openInit], [], rfl, .inl (by decide), .inl rfl⟩
  | tryOpen => exact ⟨[.openTry], [], rfl, .inr (by decide), .inl rfl⟩
  | openAck => exact ⟨_, [], (List.append_nil _).symm, .inl (List.prefix_refl _), .inl rfl⟩
  | openConfirm => exact ⟨_, [], (List.append_nil _).symm, .inr (List.prefix_refl _), .inl rfl⟩
  | closeInit ho =>
    rcases ho.open_cases with rfl | rfl
    · exact ⟨_, _, rfl, .inl (List.prefix_refl _), .inr (.inl rfl)⟩
    · exact ⟨_, _, rfl, .inr (List.prefix_refl _), .inr (.inl rfl)⟩
  | closeConfirm ho =>
    rcases ho.open_cases with rfl | rfl
    · exact ⟨_, _, rfl, .inl (List.prefix_refl _), .inr (.inr rfl)⟩
    · exact ⟨_, _, rfl, .inr (List.prefix_refl _), .inr (.inr rfl)⟩

variable {m : ExecuteMsg}

theorem Transition.history {a b : Option Channel} {past : List Callback} (h : Transition m a b ks)
    (hp : History (a.map Channel.state) past) : History (b.map Channel.state) (past ++ ks) := by
  cases h with
  | same => simpa using hp
  | openInit hs =>
    cases hp
    simpa [hs] using History.init
  | openTry hs =>
    cases hp
    simpa [hs] using History.tryOpen
  | openAck hs hs' =>
    rw [Option.map_some, hs] at hp
    cases hp
    simpa [hs'] using History.openAck
  | openConfirm hs hs' =>
    rw [Option.map_some, hs] at hp
    cases hp
    simpa [hs'] using History.openConfirm
  | closeInit _ hs hs' =>
    rw [Option.map_some, hs] at hp
    simpa [hs'] using History.closeInit hp
  | closeConfirm _ hs hs' =>
    rw [Option.map_some, hs] at hp
    simpa [hs'] using History.closeConfirm hp

theorem Transition.before_openConfirm {a b : Channel}
    (h : Transition m (some a) (some b) [.openConfirm]) : a.state = .tryOpen := by
  cases h
  assumption

/-! ## What the handlers dispatch -/

variable {H : Hashing} {env : Env} {info : MessageInfo} {s s' : State}

variable {ch : Channel}

theorem transition_single {i : ChannelId} (hd : d.msg.channelCallback = some (i, k))
    (ht : Transition m (s.channels i) (some ch) [k]) (c : ChannelId) :
    Transition m (s.channels c) (update s.channels i (some ch) c) (callbacks c [d]) := by
  rw [callbacks_singleton hd]
  by_cases hc : c = i
  · subst hc
    rwa [update_self, if_pos rfl]
  · rw [update_of_ne hc, if_neg (Ne.symm hc)]
    exact .same

variable {msgs : List Dispatch}

theorem loop_no_callbacks {R : State → List Dispatch → State → Prop}
    (hR : ∀ t o t', R t o t' → t'.channels = t.channels ∧ t'.channelOwner = t.channelOwner ∧
      ∀ d ∈ o, d.msg.channelCallback = none) (hL : Loop R s msgs s') :
    s'.channels = s.channels ∧ s'.channelOwner = s.channelOwner ∧
      ∀ d ∈ msgs, d.msg.channelCallback = none := by
  induction hL with
  | nil t => exact ⟨rfl, rfl, by simp⟩
  | cons h _ ih =>
    obtain ⟨h1, h2, h3⟩ := hR _ _ _ h
    refine ⟨ih.1.trans h1, ih.2.1.trans h2, fun d hd => ?_⟩
    rcases List.mem_append.mp hd with hd | hd
    · exact h3 d hd
    · exact ih.2.2 d hd

theorem receiveStep_no_callbacks {ps : List Packet} {d : ChannelId} {port relayer : Addr}
    {intent : Bool} (t : State) (o : List Dispatch) (t' : State)
    (h : ReceiveStep H env info ps d port relayer intent t o t') :
    t'.channels = t.channels ∧ t'.channelOwner = t.channelOwner ∧
      ∀ d ∈ o, d.msg.channelCallback = none := by
  cases h with
  | already => exact ⟨rfl, rfl, by simp⟩
  | fresh =>
    refine ⟨rfl, rfl, ?_⟩
    cases intent <;> simp [receiveOutput, IbcUnionMsg.channelCallback]

theorem acknowledgeStep_no_callbacks {port relayer : Addr} (t : State) (o : List Dispatch)
    (t' : State) (h : AcknowledgeStep H info port relayer t o t') :
    t'.channels = t.channels ∧ t'.channelOwner = t.channelOwner ∧
      ∀ d ∈ o, d.msg.channelCallback = none := by
  cases h
  exact ⟨rfl, rfl, by simp [IbcUnionMsg.channelCallback]⟩

theorem callbacks_of_none {ds : List Dispatch} (h : ∀ d ∈ ds, d.msg.channelCallback = none)
    (c : ChannelId) : callbacks c ds = [] := by
  refine List.filterMap_eq_nil_iff.mpr fun d hd => ?_
  unfold callback?
  rw [h d hd]

/-- What a step does to every channel, and where its callbacks go. -/
structure Follows (m : ExecuteMsg) (s s' : State) (msgs : List Dispatch) : Prop where
  transition : ∀ c, Transition m (s.channels c) (s'.channels c) (callbacks c msgs)
  owner : ∀ c a, s.channelOwner c = some a → s'.channelOwner c = some a
  toOwner : ToOwner s' msgs

theorem Follows.of_none (hch : s'.channels = s.channels) (ho : s'.channelOwner = s.channelOwner)
    (hm : ∀ d ∈ msgs, d.msg.channelCallback = none) : Follows m s s' msgs where
  transition c := by
    rw [hch, callbacks_of_none hm]
    exact .same
  owner c a h := by rw [ho, h]
  toOwner d hd c k hk := by
    rw [hm d hd] at hk
    cases hk

theorem Follows.saveChannel {i : ChannelId} {old : Channel} (hold : s.channels i = some old)
    (hown : s.channelOwner i = some d.contract) (hd : d.msg.channelCallback = some (i, k))
    (ht : Transition m (some old) (some ch) [k]) : Follows m s (saveChannel H s i ch) [d] where
  transition := transition_single hd (by rw [hold]; exact ht)
  owner _ _ h := h
  toOwner e he c j hj := by
    cases List.mem_singleton.mp he
    rw [hd] at hj
    cases hj
    exact hown

theorem Follows.addChannel (hwf : WellFormed s) {n : ChannelId}
    (hd : d.msg.channelCallback = some (s.nextChannelId, k)) (ht : Transition m none (some ch) [k]) :
    Follows m s (s.addChannel H n d.contract ch) [d] where
  transition := by
    refine transition_single hd ?_
    -- no channel is stored under the next id
    have hnone : s.channels s.nextChannelId = none := by
      by_contra h
      exact Nat.lt_irrefl _ (hwf.channel_lt _ (Option.ne_none_iff_isSome.mp h))
    rwa [hnone]
  owner c a h := by
    have hne : c ≠ s.nextChannelId := by
      rintro rfl
      exact Nat.lt_irrefl _ (hwf.owner_lt _ (by simp [h]))
    exact (update_of_ne hne ..).trans h
  toOwner e he c j hj := by
    cases List.mem_singleton.mp he
    rw [hd] at hj
    cases hj
    exact update_self ..

theorem effect_follows (hwf : WellFormed s) (he : Effect H env info s m s' msgs)
    (hm : ∀ c proof h relayer, m ≠ .restricted (.channelCloseConfirm c proof h relayer)) :
      Follows m s s' msgs := by
  cases he with
  | delayed | membershipProof | nonMembershipProof | connectionOpenInit | connectionOpenTry
  | connectionOpenAck | connectionOpenConfirm => exact .of_none rfl rfl (by simp)
  | client hf => exact .of_none hf.frame.channels hf.frame.channelOwner (by simp)
  | @channelOpenInit _ _ _ _ port => exact .addChannel (d := ⟨port, _, []⟩) hwf rfl (.openInit rfl)
  | @channelOpenTry _ _ _ _ _ _ port _ _ _ hs =>
    exact .addChannel (d := ⟨port, _, []⟩) hwf rfl (.openTry hs)
  | channelOpenAck hch hs _ _ hown => exact .saveChannel hch hown rfl (.openAck hs rfl)
  | channelOpenConfirm hch hs _ _ hown => exact .saveChannel hch hown rfl (.openConfirm hs rfl)
  | channelCloseInit hch hs hown => exact .saveChannel hch hown rfl (.closeInit rfl hs rfl)
  | channelCloseConfirm => exact absurd rfl (hm _ _ _ _)
  | send | batchSend | batchAcks | writeAcknowledgement => exact .of_none rfl rfl (by simp)
  | receive _ _ _ _ _ hL =>
    obtain ⟨h1, h2, h3⟩ := loop_no_callbacks receiveStep_no_callbacks hL
    exact .of_none h1 h2 h3
  | acknowledge hL =>
    obtain ⟨h1, h2, h3⟩ := loop_no_callbacks acknowledgeStep_no_callbacks hL
    exact .of_none h1 h2 h3
  | timeout => exact .of_none rfl rfl (by simp [IbcUnionMsg.channelCallback])

/-! ## Closing by a confirmation -/

/-- The input is a `ChannelCloseConfirm` whose checks pass: the caller may call, the channel and its
    connection are open, and the light client accepts that the other end is closed. -/
def ConfirmsClose (H : Hashing) (s : State) (i : Input) : Prop :=
  ∃ c proof height relayer, i.msg = .restricted (.channelCloseConfirm c proof height relayer) ∧
    i.env.canCall = some .immediate ∧ i.env.validAddr relayer = true ∧
    ∃ ch conn port d t impl, s.channels c = some ch ∧ ch.state = .open ∧
      s.connections ch.connectionId = some conn ∧ conn.state = .open ∧
      s.channelOwner c = some port ∧ conn.counterpartyConnectionId = some d ∧
      s.clientImpls conn.clientId = some impl ∧ ch.counterpartyChannelId = some t ∧
      i.env.querier.verifyMembership impl ⟨conn.clientId, height, proof, (StorePath.channel t).key H,
        commitChannel H ⟨.closed, d, some c, utf8 port, ch.version⟩⟩ = true

theorem confirmsClose_of_ok {c : ChannelId} {proof : Bytes} {height : Height} {relayer : String}
    {sr : State × Response} (hcall : env.canCall = some .immediate)
    (h : channelCloseConfirm H env s info c proof height relayer = .ok sr) :
    ConfirmsClose H s ⟨env, info, .restricted (.channelCloseConfirm c proof height relayer)⟩ := by
  simp only [channelCloseConfirm, bind_eq_ok, addrValidate_eq_ok, read_eq_ok, require_eq_ok,
    ensureConnectionState_eq_ok, expect_eq_ok, clientImpl_eq_ok, verifyMembership_eq_ok] at h
  obtain ⟨_, ⟨hrel, -⟩, ch, hch, _, hs, conn, ⟨hconn, hopen⟩, port, hport, d, hd, impl, himpl, t,
    ht, _, hv, -⟩ := h
  exact ⟨c, proof, height, relayer, rfl, hcall, hrel, ch, conn, port, d, t, impl, hch, hs, hconn, hopen,
    hport, hd, himpl, ht, hv⟩

variable {i : Input}

theorem step_of_confirmsClose (h : ConfirmsClose H s i) : ∃ c ch, s.channels c = some ch ∧ ch.state = .open ∧
      (step H s i).1.channels c = some { ch with state := .closed } ∧
      callbacks c (step H s i).2 = [.openConfirm] := by
  obtain ⟨env, info, m⟩ := i
  obtain ⟨c, proof, height, relayer, rfl, hcall, hrel, ch, conn, port, d, t, impl, hch, hs, hconn,
    hopen, hport, hd, himpl, ht, hv⟩ := h
  have hok : channelCloseConfirm H env s info c proof height relayer =
      .ok (saveChannel H s c { ch with state := .closed },
          ⟨[.channelCloseConfirm port c ch.counterpartyPortId t],
          [⟨port, .onChannelOpenConfirm info.sender c relayer, []⟩], none⟩) := by
    simp only [channelCloseConfirm, bind_eq_ok, addrValidate_eq_ok, read_eq_ok, require_eq_ok,
      ensureConnectionState_eq_ok, expect_eq_ok, clientImpl_eq_ok, verifyMembership_eq_ok, pure_eq_ok]
    exact ⟨relayer, ⟨hrel, rfl⟩, ch, hch, (), hs, conn, ⟨hconn, hopen⟩, port, hport, d, hd, impl,
      himpl, t, ht, (), hv, rfl⟩
  replace hcall : env.canCall = some .immediate := hcall
  have hr : execute H env s info (.restricted (.channelCloseConfirm c proof height relayer)) =
      channelCloseConfirm H env s info c proof height relayer := by
    simp only [execute, hcall, executeRestricted]
  rw [hok] at hr
  refine ⟨c, ch, hch, hs, ?_, ?_⟩
  · simp only [step, hr]
    exact update_self ..
  · simp only [step, hr]
    rw [callbacks_singleton rfl, if_pos rfl]

/-- What the claim of a well-formed life cycle asks of one step. -/
def StepTransitions (H : Hashing) (s : State) (i : Input) : Prop :=
  ∀ c, Transition i.msg (s.channels c) ((step H s i).1.channels c) (callbacks c (step H s i).2)

theorem not_stepTransitions_of_confirmsClose (h : ConfirmsClose H s i) : ¬ StepTransitions H s i := by
  intro ht
  obtain ⟨c, ch, hch, hs, hafter, hcb⟩ := step_of_confirmsClose h
  have hc := ht c
  rw [hch, hafter, hcb] at hc
  have := hc.before_openConfirm
  rw [hs] at this
  cases this

theorem step_follows (hwf : WellFormed s) (h : ¬ ConfirmsClose H s i) :
    Follows i.msg s (step H s i).1 (step H s i).2 := by
  obtain ⟨env, info, m⟩ := i
  have hsame : Follows m s s [] := .of_none rfl rfl (by simp)
  by_cases hm : ∀ c proof height relayer, m ≠ .restricted (.channelCloseConfirm c proof height relayer)
  · rcases step_cases H s ⟨env, info, m⟩ with he | he
    · rw [he]
      exact hsame
    · exact effect_follows hwf he hm
  · -- a confirmation that is refused or delayed
    push Not at hm
    obtain ⟨c, proof, height, relayer, rfl⟩ := hm
    have hstep : step H s ⟨env, info, .restricted (.channelCloseConfirm c proof height relayer)⟩ =
        (s, []) := by
      unfold step
      simp only [execute, executeRestricted]
      split
      · rename_i t r hok
        split at hok
        · cases hok
        · cases hok
        · cases hok
          rfl
        · rename_i hcall
          exact absurd (confirmsClose_of_ok hcall hok) h
      · rfl
    rw [hstep]
    exact hsame

/-- The life cycle of all channels in a run: their callbacks are well ordered and go to their owners,
    and every step dispatches exactly the callback of its transition. -/
structure LifeCycle (H : Hashing) (is : List Input) : Prop where
  ordered : ∀ c, WellOrdered (callbacks c (trace H .init is))
  toOwner : ToOwner (run H .init is) (trace H .init is)
  transitions : Machine.Meets (step H) (StepTransitions H) .init is

/-- What is known after a run of steps that follow their transitions. -/
structure Tracked (s : State) (tr : List Dispatch) : Prop where
  wellFormed : WellFormed s
  history : ∀ c, History ((s.channels c).map Channel.state) (callbacks c tr)
  toOwner : ToOwner s tr

theorem Tracked.step {tr : List Dispatch} (h : Tracked s tr) (hc : ¬ ConfirmsClose H s i) :
    Tracked (step H s i).1 (tr ++ (step H s i).2) := by
  have hf := step_follows h.wellFormed hc
  refine ⟨step_wellFormed s i h.wellFormed, fun c => ?_, fun d hd c k hk => ?_⟩
  · rw [callbacks_append]
    exact (hf.transition c).history (h.history c)
  · rcases List.mem_append.mp hd with hd | hd
    · exact hf.owner c _ (h.toOwner d hd c k hk)
    · exact hf.toOwner d hd c k hk

theorem init_tracked : Tracked State.init [] where
  wellFormed := init_wellFormed
  history _ := .none
  toOwner := by simp [ToOwner]

theorem callbacks_history {is : List Input}
    (h : Machine.Meets (step H) (fun s i => ¬ ConfirmsClose H s i) .init is) :
    Tracked (run H .init is) (trace H .init is) :=
  Machine.invariant_of_meets (fun _ _ _ ht hc => ht.step hc) init_tracked h

theorem meets_stepTransitions {is : List Input} {s : State} (hwf : WellFormed s) :
    Machine.Meets (step H) (StepTransitions H) s is ↔
      Machine.Meets (step H) (fun s i => ¬ ConfirmsClose H s i) s is := by
  induction is generalizing s with
  | nil => exact Iff.rfl
  | cons i is ih =>
    refine and_congr ⟨fun ht hc => not_stepTransitions_of_confirmsClose hc ht,
      fun hc => (step_follows hwf hc).transition⟩ (ih (step_wellFormed s i hwf))

/-- **A run has a well-formed life cycle iff no step of it closes a channel by a confirmation.** -/
theorem lifeCycle_iff (H : Hashing) (is : List Input) :
    LifeCycle H is ↔ Machine.Meets (step H) (fun s i => ¬ ConfirmsClose H s i) .init is := by
  constructor
  · intro h
    exact (meets_stepTransitions init_wellFormed).mp h.transitions
  · intro h
    have ht := callbacks_history h
    exact ⟨fun c => (ht.history c).wellOrdered, ht.toOwner, (meets_stepTransitions init_wellFormed).mpr h⟩

/-! ## A channel closed from the other side -/

/-- Opens a channel of `app` through init and acknowledgement, then confirms its closing. -/
def closeConfirmInputs : List Input :=
  [.registerClient "eth" "eth-impl", .createClient "eth" [1] [2] "relayer", .connectionOpenInit ⟨.one⟩ ⟨.one⟩,
    .connectionOpenAck ⟨.one⟩ ⟨.one⟩ [] 1,
    .channelOpenInit "app" [7] ⟨.one⟩ "v1" "relayer",
    .channelOpenAck ⟨.one⟩ "v1" ⟨.one⟩ [] 1 "relayer",
    .channelCloseConfirm ⟨.one⟩ [] 1 "relayer"].map
    fun m => ⟨.permissive .accepting, ⟨"relayer", []⟩, .restricted m⟩

theorem not_wellOrdered_openConfirm : ¬ WellOrdered [.openInit, .openAck, .openConfirm] := by
  rintro ⟨opening, closing, h, ho, hc⟩
  have hlen : opening.length ≤ 2 := by
    rcases ho with ho | ho
    · exact ho.length_le
    · exact ho.length_le
  have hlast := congrArg List.getLast? h
  rcases hc with rfl | rfl | rfl
  · have := congrArg List.length h
    simp at this
    omega
  · simp at hlast
  · simp at hlast

/-- **The app whose channel is closed from the other side sees it opened twice and never closed.** -/
theorem closeConfirm_breaks_lifeCycle :
    ((run .ideal .init closeConfirmInputs).channels ⟨.one⟩).map Channel.state = some .closed ∧
      callbacks ⟨.one⟩ (trace .ideal .init closeConfirmInputs) = [.openInit, .openAck, .openConfirm] ∧
      ¬ LifeCycle .ideal closeConfirmInputs := by
  have hcb : callbacks ⟨.one⟩ (trace .ideal .init closeConfirmInputs) =
      [.openInit, .openAck, .openConfirm] := by
    decide
  refine ⟨by decide, hcb, fun h => ?_⟩
  have := h.ordered ⟨.one⟩
  rw [hcb] at this
  exact not_wellOrdered_openConfirm this

end UnionVoyager.Core
