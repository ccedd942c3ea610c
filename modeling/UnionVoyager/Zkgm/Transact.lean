import UnionVoyager.Zkgm.Inner
import UnionVoyager.Zkgm.Receipt

/-!
# What one transaction can do

From the outside zkgm takes four kinds of messages: a packet to send, a packet received, and the
acknowledgement or timeout of a packet it sent.  This module says what each can leave behind in the
slots, and a received packet in the log of the IBC host.

* `not_readsWrapped`, `run_forward` — **no forward goes through**: its reply cannot read the packet
  the host sent.
* `transact_idle` — between transactions the slots are empty, and a received packet was at most acknowledged.
-/

namespace UnionVoyager.Zkgm

open Lib
open Core (ChannelId Timestamp Addr Coin H256)

/-! ## The execution of a packet -/

/-- The packet is in execution and has not done anything. -/
def Executing (p : Packet) (s : State) : Prop := s.slots = ⟨some p, none, none, none, none⟩

variable {fuel : Nat} {p : Packet} {b : Option Nat} {s s' : State} {caller relayer : Addr}
  {relayerMsg : Bytes} {intent : Bool}

section Execution

variable {X : Type} {out : Outside X} {env : Env} {w' w : World X}

theorem executing_begin (hidle : Idle s) : Executing p (s.begin p) := by
  simp only [Idle, Executing, State.begin, State.slots, Slots.mk.injEq] at hidle ⊢
  exact ⟨trivial, hidle.2⟩

theorem run_writeAck_inner {ack : AckData}
    (h : [writeAck ack].foldlM (runSub out env fuel) w = .ok w') : Inner w w' := by
  cases fuel with
  | zero => cases h
  | succ fuel =>
    simp only [List.foldlM_cons, List.foldlM_nil, runSub_writeAck, ok_bind] at h
    cases h
    exact internalWriteAck_inner w ack

theorem marketMaker_of_relayerFill {calls : List MinterCall}
    (h : runSub out env fuel w (relayerFill calls) = .ok w') : w'.state.marketMaker = none := by
  cases fuel with
  | zero => cases h
  | succ fuel =>
    have hreply : ∀ {w₁ : World X} {result}, runReply env (runSub out env fuel) w₁ .mmRelayerFill result =
        .ok w' → w'.state.marketMaker = none := by
      intro w₁ result hr
      simp only [runReply, reply, bind_eq_ok, replyRelayerFill] at hr
      obtain ⟨⟨s, messages⟩, ⟨maker, -, hs⟩, hmsgs⟩ := hr
      obtain ⟨ack, hs⟩ : ∃ ack, (s, messages) = ({ w₁.state with marketMaker := none }, [writeAck ack]) := by
        split at hs
        · cases hs
          exact ⟨_, rfl⟩
        · cases hs
          exact ⟨_, rfl⟩
      cases hs
      rcases (run_writeAck_inner hmsgs).marketMaker with hm | hm
      · exact hm
      · exact hm
    rcases runSub_cases h with ⟨w₁, d, -, ⟨hnone, -⟩ | ⟨on, id, hid, hr⟩⟩ | ⟨e, id, -, hid, hr⟩
    · cases hnone
    · cases hid
      exact hreply hr
    · cases hid
      exact hreply hr

theorem run_works_inner {works : List Work} (hexec : w.state.executingPacket ≠ none)
    (h : (works.flatMap Work.response).foldlM (runSub out env fuel) w = .ok w') : Inner w w' ∧
      (w.state.marketMaker = none ∨ (∃ k ∈ works, k.isRelayer = true) → w'.state.marketMaker = none) := by
  have hinner : ∀ {works : List Work} {w w' : World X}, w.state.executingPacket ≠ none →
      (works.flatMap Work.response).foldlM (runSub out env fuel) w = .ok w' → Inner w w' := by
    intro works w w' hexec h
    refine (inner_closed out env).foldlM ?_ h hexec
    intro m hm
    obtain ⟨k, -, hk⟩ := List.mem_flatMap.mp hm
    exact k.response_inner m hk
  refine ⟨hinner hexec h, ?_⟩
  induction works generalizing w with
  | nil =>
    rintro (hm | ⟨k, hk, -⟩)
    · exact (hinner hexec h).marketMaker.elim (fun h => h.trans hm) id
    · cases hk
  | cons k works ih =>
    intro hm
    rw [List.flatMap_cons, List.foldlM_append, bind_eq_ok] at h
    obtain ⟨w₁, h₁, h₂⟩ := h
    have hk : Inner w w₁ := (inner_closed out env).foldlM k.response_inner h₁ hexec
    refine ih (hk.executingPacket ▸ hexec) h₂ ?_
    by_cases hr : k.isRelayer = true
    · cases k with
      | relayer calls =>
        left
        simp only [Work.response, List.foldlM_cons, List.foldlM_nil, bind_eq_ok, pure_eq_ok] at h₁
        obtain ⟨w₂, h₁, rfl⟩ := h₁
        exact marketMaker_of_relayerFill h₁
      | _ => cases hr
    · rcases hm with hm | ⟨k', hk', hr'⟩
      · exact .inl (hk.marketMaker.elim (fun h => h.trans hm) id)
      · rcases List.mem_cons.mp hk' with rfl | hk'
        · exact absurd hr' hr
        · exact .inr ⟨k', hk', hr'⟩

/-- Of some packet the text is still read as a packet when it is wrapped. -/
def Hashing.ReadsWrapped (H : Hashing) : Prop :=
  ∃ c text q, H.packetToString c = some text ∧ H.packetFromSlice (executeContractResponse text) = some q

/-- The chain's message is no JSON text. -/
theorem not_readsWrapped {H : Hashing} (hjson : H.Json) : ¬ H.ReadsWrapped := by
  rintro ⟨c, text, q, htext, hq⟩
  obtain ⟨a, b, d, e, f, rfl⟩ := hjson.writes c text htext
  have hopens := hjson.reads _ q hq
  rw [opensStruct_executeContractResponse] at hopens
  cases hopens

/-- The packet was executed: only acknowledgements are left behind. -/
structure Executed (H : Hashing) (p : Packet) (w w' : World X) : Prop where
  log : H.ReadsWrapped ∨ w'.log = w.log
  slots : ∃ b e bs, w'.state.slots = ⟨some p, b, e, bs, none⟩ ∧ (b = none → bs = none) ∧
    (b ≠ none → e = none)

theorem Inner.executed {w₁ : World X} {m : Option Bytes} (hin : Inner w₁ w') (hlog : w₁.log = w.log)
    (hslots : w₁.state.slots = ⟨some p, b, none, none, m⟩) (hm : w'.state.marketMaker = none) :
    Executed env.hashing p w w' := by
  simp only [State.slots, Slots.mk.injEq] at hslots
  obtain ⟨h₁, h₂, h₃, h₄, -⟩ := hslots
  refine ⟨.inr (hin.log.trans hlog), b, w'.state.executionAck, w'.state.batchExecutionAcks, ?_, ?_, ?_⟩
  · simp only [State.slots, Slots.mk.injEq]
    exact ⟨hin.executingPacket.trans h₁, hin.isBatch.trans h₂, trivial, trivial, hm⟩
  · intro hb
    exact (hin.batchAcks (h₂.trans hb)).trans h₄
  · intro hb
    exact (hin.executionAck (by rwa [h₂])).trans h₃

theorem executed_of_walks {x : Execution} {leaves : List Leaf} {works : List Work} {s₁ : State}
    {funds funds₁ : Coins} (hwalk : Walks env x leaves s funds works s₁ funds₁)
    (hslots : s.slots = ⟨some p, b, none, none, none⟩)
    (h : (works.flatMap Work.response).foldlM (runSub out env fuel)
      { w with state := { s₁ with createdProxyAccount := none } } = .ok w') :
        Executed env.hashing p w w' := by
  have hs := hwalk.frame
  rw [hslots] at hs
  have hexec : s₁.executingPacket = some p := by
    refine (congrArg Slots.executingPacket hs).trans ?_
    split <;> rfl
  obtain ⟨hin, hmaker⟩ := run_works_inner (fun hnone => by cases hexec.symm.trans hnone) h
  by_cases hany : works.any Work.isRelayer = true
  · rw [if_pos hany] at hs
    exact hin.executed rfl hs (hmaker (.inr (by simpa using hany)))
  · rw [if_neg hany] at hs
    have hnone : s₁.marketMaker = none := congrArg Slots.marketMaker hs
    exact hin.executed rfl hs (hmaker (.inl hnone))

/-- **A forward goes through only if its reply reads the packet**, and then the acknowledgement is empty. -/
theorem run_forward {m : MsgSendPacket} (hexec : Executing p w.state)
    (h : [⟨.packetSend m, some (.success, .forward)⟩, writeAck (.raw [])].foldlM
      (runSub out env fuel) w = .ok w') :
    env.hashing.ReadsWrapped ∧ w'.state.slots = ⟨some p, none, some (.raw []), none, none⟩ := by
  simp only [List.foldlM_cons, List.foldlM_nil, bind_eq_ok, pure_eq_ok] at h
  obtain ⟨w₁, hsend, w₂, hack, rfl⟩ := h
  cases fuel with
  | zero => cases hsend
  | succ fuel =>
    rw [runSub_writeAck] at hack
    cases hack
    rcases runSub_cases hsend with ⟨w₂, d, hmsg, ⟨hnone, -⟩ | ⟨on, id, hid, hr⟩⟩ | ⟨e, id, -, hid, -⟩
    · cases hnone
    · cases hid
      simp only [runMsg, selfMsg, orErr_eq_ok, runExternal, Option.bind_eq_bind,
        Option.bind_eq_some_iff] at hmsg
      obtain ⟨⟨x, c⟩, -, text, htext, hw⟩ := hmsg
      cases hw
      simp only [runReply, reply, replyForward, bind_eq_ok, okOr_eq_ok, pure_eq_ok] at hr
      obtain ⟨r, ⟨q, hq, hr⟩, hrest⟩ := hr
      cases hr
      obtain rfl : _ = w₁ := by simpa using hrest
      have hslots := hexec
      simp only [Executing, State.slots, Slots.mk.injEq] at hslots
      obtain ⟨h₁, h₂, h₃, h₄, h₅⟩ := hslots
      refine ⟨⟨_, text, q, htext, hq⟩, ?_⟩
      simp only [internalWriteAck, h₂, State.slots, h₁, h₄, h₅]
    · cases hid

theorem run_executePacket {funds : List Coin} {messages : Response} (hexec : Executing p w.state)
    (h : executePacket env caller p relayer relayerMsg intent funds w.state = .ok (s, messages))
    (hrun : messages.foldlM (runSub out env fuel) { w with state := s } = .ok w') :
    Executed env.hashing p w w' := by
  unfold executePacket at h
  split at h
  · rename_i z hz
    simp only [bind_eq_ok, pure_eq_ok] at h
    obtain ⟨⟨s₁, funds₁, r⟩, hi, h⟩ := h
    cases h
    have hslots : w.state.slots = ⟨some p, none, none, none, none⟩ := hexec
    rcases executeInternal_cases hi with ⟨l, hl⟩ | ⟨is, -, hbatch⟩ | ⟨q, th, tt, j, -, hfwd⟩
    · rw [hl, executeInternal_leaf] at hi
      obtain ⟨k, rfl, hk⟩ := Leaf.execute_work hi
      exact executed_of_walks (.cons hi hk (.nil _ _)) hslots (by simpa using hrun)
    · obtain ⟨leaves, rfl⟩ := exists_leaves_of_execute hbatch
      obtain ⟨works, hworks, rfl⟩ := walks_of_executeBatch hbatch
      have hbatchSlots : ({ w.state with
          executingPacketIsBatch := some (leaves.map Leaf.toInstruction).length } : State).slots =
          ⟨some p, some (leaves.map Leaf.toInstruction).length, none, none, none⟩ := by
        simp only [State.slots, Slots.mk.injEq] at hslots ⊢
        exact ⟨hslots.1, trivial, hslots.2.2⟩
      exact executed_of_walks hworks hbatchSlots hrun
    · simp only [executeForward, bind_eq_ok, require_eq_ok] at hfwd
      obtain ⟨_, -, hfwd⟩ := hfwd
      split at hfwd
      · cases hfwd
        -- the answer to a market maker
        have hin := run_writeAck_inner hrun
        have hmaker : w.state.marketMaker = none := congrArg Slots.marketMaker hslots
        exact hin.executed rfl hslots (hin.marketMaker.elim (fun hm => hm.trans hmaker) id)
      · simp only [bind_eq_ok, require_eq_ok, pure_eq_ok] at hfwd
        obtain ⟨⟨tail, prev⟩, -, previous, -, ⟨cont, next⟩, -, source, -, _, -, path, -, nextPath,
          -, hfwd⟩ := hfwd
        cases hfwd
        obtain ⟨hreads, hslots'⟩ :=
          run_forward (w := { w with state := { w.state with createdProxyAccount := none } })
            (p := p) hexec hrun
        exact ⟨.inl hreads, none, some (.raw []), none, hslots', fun _ => rfl, fun hb => absurd rfl hb⟩
  · cases h

theorem collectAck_idle {ack : AckData} {e : Option AckData} {bs : Option (List AckData)}
    (hslots : s.slots = ⟨none, b, e, bs, none⟩) (hbs : b = none → bs = none)
    (he : b ≠ none → e = none) (h : collectAck s = .ok (s', ack)) : Idle s' := by
  simp only [State.slots, Slots.mk.injEq] at hslots
  obtain ⟨h₁, h₂, h₃, h₄, h₅⟩ := hslots
  unfold collectAck at h
  cases b with
  | some n =>
    rw [h₂] at h
    simp only [bind_eq_ok, pure_eq_ok] at h
    obtain ⟨acks, -, _, -, _, -, h⟩ := h
    cases h
    simp only [Idle, State.slots, h₁, h₃, h₅, he (by simp)]
  | none =>
    rw [h₂] at h
    simp only [bind_eq_ok, pure_eq_ok] at h
    obtain ⟨ack', -, _, -, h⟩ := h
    cases h
    simp only [Idle, State.slots, h₁, h₄, h₅, hbs rfl]

end Execution

/-! ## The outcomes of a transaction -/

def ExecuteMsg.received : ExecuteMsg → Option Packet
  | .onRecvPacket _ packet _ _ => some packet
  | .onIntentRecvPacket _ packet _ _ => some packet
  | _ => none

/-- The packet that is completed, and the acknowledgement a packet that caused it should get. -/
def ExecuteMsg.completed : ExecuteMsg → Option (Packet × Acknowledgement)
  | .onAcknowledgementPacket _ packet ack _ => some (packet, ack)
  | .onTimeoutPacket _ packet _ => some (packet, .failure)
  | _ => none

section Transact

variable {X : Type} {out : Outside X} {env : Env}

variable {ack : Acknowledgement}

theorem slots_cleared {e : Option AckData} {bs : Option (List AckData)} {m : Option Bytes}
    (h : s.slots = ⟨some p, b, e, bs, m⟩) : s.executingPacket = some p ∧
      ({ s with executingPacket := none } : State).slots = ⟨none, b, e, bs, m⟩ := by
  simp only [State.slots, Slots.mk.injEq] at h ⊢
  exact ⟨h.1, trivial, h.2⟩

variable {info : MessageInfo}

theorem exists_execution {msg : ExecuteMsg} (h : msg.received = some p) :
    ∃ x : Execution, x.packet = p ∧ x.message = msg := by
  cases msg with
  | onRecvPacket c q r m =>
    cases h
    exact ⟨⟨c, p, r, m, 0, false⟩, rfl, rfl⟩
  | onIntentRecvPacket c q r m =>
    cases h
    exact ⟨⟨c, p, r, m, 0, true⟩, rfl, rfl⟩
  | _ => cases h

/-- **A received packet is acknowledged or left without an acknowledgement.** -/
theorem received_idle {x : Execution} {w w' : World X} (hidle : Idle w.state)
    (h : transact out env info x.message w = .ok w') :
    Idle w'.state ∧ (env.hashing.ReadsWrapped ∨ w'.log = [] ∨ ∃ ack, w'.log = [.acked x.packet ack]) := by
  obtain ⟨-, -, ⟨w₁, messages, ack, hok⟩ | hfailed⟩ := transact_message_cases h
  · obtain ⟨s, hs, hrun⟩ := hok.run
    have hex : Executed env.hashing x.packet { w with state := w.state.begin x.packet, log := [] } w₁ :=
      run_executePacket (executing_begin hidle) hs hrun
    obtain ⟨b, e, bs, hslots, hbs, he⟩ := hex.slots
    obtain ⟨hp, hcleared⟩ := slots_cleared hslots
    obtain ⟨s', p, hp', hcollect, hend⟩ := hok.collect
    obtain rfl : x.packet = p := Option.some.inj (hp.symm.trans hp')
    have hidle' := collectAck_idle hcleared hbs he hcollect
    refine ⟨by rcases hend with ⟨-, rfl⟩ | ⟨-, y, -, rfl⟩ <;> exact hidle', hex.log.imp_right fun hlog => ?_⟩
    rcases hend with ⟨-, rfl⟩ | ⟨-, y, -, rfl⟩
    · exact .inl hlog
    · exact .inr ⟨.success ack, congrArg (· ++ [HostEvent.acked x.packet (.success ack)]) hlog⟩
  · exact ⟨by rw [hfailed.state]; exact hidle, .inr (.inr ⟨.failure, hfailed.log⟩)⟩

variable {r : Response}

theorem run_settles {w w' : World X} (hidle : Idle w.state) (hs : Settles w.state s r)
    (h : r.foldlM (runSub out env fuel) { w with state := s, log := [] } = .ok w') : Idle w'.state := by
  obtain ⟨b, rfl⟩ := hs.state
  exact (calls_closed out env).foldlM hs.calls h hidle

theorem acknowledgePacket_cases {packet : Packet}
    (h : acknowledgePacket env caller packet relayer ack s = .ok (s', r)) :
    (s'.slots = s.slots ∧ ∃ p, r = [(CosmosMsg.writeAcknowledgement p ack).plain]) ∨ Settles s s' r := by
  unfold acknowledgePacket at h
  split at h
  · dsimp only at h
    split at h
    · cases h
      exact .inl ⟨rfl, _, rfl⟩
    · split at h
      · exact .inr (acknowledgeInternal_settles h)
      · cases h
  · cases h

theorem timeoutPacket_cases {packet : Packet} (h : timeoutPacket env caller packet relayer s = .ok (s', r)) :
    (s'.slots = s.slots ∧ ∃ p, r = [(CosmosMsg.writeAcknowledgement p .failure).plain]) ∨ Settles s s' r := by
  unfold timeoutPacket at h
  split at h
  · dsimp only at h
    split at h
    · cases h
      exact .inl ⟨rfl, _, rfl⟩
    · exact .inr (timeoutInternal_settles h)
  · cases h

theorem completed_idle {w w' : World X} (hidle : Idle w.state)
    (hcase : (s.slots = w.state.slots ∧ ∃ p, r = [(CosmosMsg.writeAcknowledgement p ack).plain]) ∨
      Settles w.state s r)
    (h : r.foldlM (runSub out env fuel) { w with state := s, log := [] } = .ok w') : Idle w'.state := by
  rcases hcase with ⟨hslots, p, rfl⟩ | hs
  · obtain ⟨y, -, rfl⟩ := run_writeAcknowledgement h
    exact hslots.trans hidle
  · exact run_settles hidle hs h

theorem sent_idle {w w' : World X} {channelId : ChannelId} {timeout : Timestamp} {salt : U256}
    {i : Instruction}
    (hidle : Idle w.state) (hs : send env info channelId timeout salt i w.state = .ok (s, r))
    (h : r.foldlM (runSub out env fuel) { w with state := s, log := [] } = .ok w') : Idle w'.state := by
  simp only [send, bind_eq_ok, pure_eq_ok] at hs
  obtain ⟨walk, hwalk, hs⟩ := hs
  cases hs
  obtain ⟨r, hr, hsettles⟩ := verifyInternal_settles hwalk
  simp only [List.nil_append] at hr
  rw [hr, List.foldlM_append, bind_eq_ok] at h
  obtain ⟨w₁, h₁, h⟩ := h
  have hidle₁ := run_settles hidle hsettles h₁
  simp only [List.foldlM_cons, List.foldlM_nil, bind_eq_ok, pure_eq_ok] at h
  obtain ⟨w₂, h, rfl⟩ := h
  cases fuel with
  | zero => cases h
  | succ fuel =>
    rw [runSub_external rfl, map_eq_ok] at h
    obtain ⟨⟨w₃, d⟩, hx, rfl⟩ := h
    simp only [orErr_eq_ok, runExternal, Option.bind_eq_bind, Option.bind_eq_some_iff] at hx
    obtain ⟨⟨x, c⟩, -, data, -, hx⟩ := hx
    cases hx
    exact hidle₁

variable {msg : ExecuteMsg}

/-- **A transaction leaves the slots empty, and of a received packet at most an acknowledgement.** -/
theorem transact_idle {w w' : World X} (hidle : Idle w.state)
    (hself : info.sender ≠ env.contractAddress) (h : transact out env info msg w = .ok w') :
    Idle w'.state ∧ ∀ p, msg.received = some p →
      env.hashing.ReadsWrapped ∨ w'.log = [] ∨ ∃ ack, w'.log = [.acked p ack] := by
  cases hmsg : msg.received with
  | some p =>
    obtain ⟨x, rfl, rfl⟩ := exists_execution hmsg
    obtain ⟨hidle', hlog⟩ := received_idle hidle h
    refine ⟨hidle', ?_⟩
    rintro p ⟨⟩
    exact hlog
  | none =>
    refine ⟨?_, fun p hp => by cases hp⟩
    simp only [transact, runAll, bind_eq_ok] at h
    obtain ⟨⟨s, r⟩, hs, h⟩ := h
    cases msg with
    | onRecvPacket | onIntentRecvPacket => cases hmsg
    | onAcknowledgementPacket caller p ack relayer =>
      simp only [execute, bind_eq_ok] at hs
      obtain ⟨_, -, caller', -, relayer', -, hs⟩ := hs
      exact completed_idle hidle (acknowledgePacket_cases hs) h
    | onTimeoutPacket caller p relayer =>
      simp only [execute, bind_eq_ok] at hs
      obtain ⟨_, -, caller', -, relayer', -, hs⟩ := hs
      exact completed_idle hidle (timeoutPacket_cases hs) h
    | send channelId timeout salt i => exact sent_idle hidle hs h
    | internalExecutePacket | internalWriteAck | internalBatch =>
      simp only [execute, bind_eq_ok, require_eq_ok] at hs
      obtain ⟨_, hsender, -⟩ := hs
      exact absurd hsender hself

end Transact

end UnionVoyager.Zkgm
