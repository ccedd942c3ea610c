import UnionVoyager.Zkgm.Run
import UnionVoyager.Zkgm.Refund

/-!
# Messages and instructions that leave the contract alone

Most of what zkgm sends does not come back to it.  Two relations between worlds say how much of the
contract stays as it is, each with the class of messages that keep it.

* `Settles` — **sending, acknowledging and timing out by the instruction only touch the balances and
  make calls** (`verifyInternal_settles`, `acknowledgeInternal_settles`, `timeoutInternal_settles`).
-/

namespace UnionVoyager.Zkgm

open Lib
open Core (ChannelId Addr)

/-! ## Messages that stay inside an execution -/

/-- The message neither sends a packet nor writes an acknowledgement to the host. -/
def CosmosMsg.isInner : CosmosMsg → Bool
  | .packetSend _ => false
  | .writeAcknowledgement _ _ => false
  | .internalExecutePacket .. => false
  | _ => true

def SubMsg.IsInner (m : SubMsg) : Prop :=
  m.msg.isInner = true ∧ ∀ on id, m.reply = some (on, id) → id ≠ .execute ∧ id ≠ .forward

variable {msg : CosmosMsg}

theorem isInner_plain (h : msg.isInner = true) : msg.plain.IsInner := ⟨h, fun _ _ hr => by cases hr⟩

theorem isInner_of_mem_writeAck {ack : AckData} : ∀ m ∈ [writeAck ack], m.IsInner := by
  intro m hm
  rw [List.mem_singleton.mp hm]
  exact isInner_plain rfl

/-- The log is as before, and of the slots only those that acknowledgements go through are written. -/
structure Inner {X : Type} (w w' : World X) : Prop where
  log : w'.log = w.log
  executingPacket : w'.state.executingPacket = w.state.executingPacket
  isBatch : w'.state.executingPacketIsBatch = w.state.executingPacketIsBatch
  executionAck : w.state.executingPacketIsBatch ≠ none → w'.state.executionAck = w.state.executionAck
  batchAcks : w.state.executingPacketIsBatch = none →
    w'.state.batchExecutionAcks = w.state.batchExecutionAcks
  marketMaker : w'.state.marketMaker = w.state.marketMaker ∨ w'.state.marketMaker = none

variable {X : Type}

theorem Inner.ext_only (w : World X) (x : X) : Inner w { w with ext := x } :=
  ⟨rfl, rfl, rfl, fun _ => rfl, fun _ => rfl, .inl rfl⟩

theorem Inner.refl (w : World X) : Inner w w := .ext_only w w.ext

variable {w : World X} {s : State}

theorem Inner.trans {w₁ w' : World X} (h : Inner w w₁) (h' : Inner w₁ w') : Inner w w' where
  log := h'.log.trans h.log
  executingPacket := h'.executingPacket.trans h.executingPacket
  isBatch := h'.isBatch.trans h.isBatch
  executionAck hb := (h'.executionAck (h.isBatch ▸ hb)).trans (h.executionAck hb)
  batchAcks hb := (h'.batchAcks (h.isBatch ▸ hb)).trans (h.batchAcks hb)
  marketMaker := by
    rcases h'.marketMaker with h₂ | h₂
    · rw [h₂]
      exact h.marketMaker
    · exact .inr h₂

theorem Inner.of_keeps {x : X} (h : Keeps w.state s) : Inner w { w with state := s, ext := x } := by
  have hslots := h.slots
  simp only [State.slots, Slots.mk.injEq] at hslots
  obtain ⟨h₁, h₂, h₃, h₄, h₅⟩ := hslots
  exact ⟨rfl, h₁, h₂, fun _ => h₃, fun _ => h₄, .inl h₅⟩

theorem internalWriteAck_inner (w : World X) (ack : AckData) :
    Inner w { w with state := internalWriteAck ack w.state } := by
  unfold internalWriteAck
  split
  · rename_i n hn
    exact ⟨rfl, rfl, rfl, fun _ => rfl, fun hb => (by rw [hn] at hb; cases hb), .inl rfl⟩
  · rename_i hn
    exact ⟨rfl, rfl, rfl, fun hb => absurd hn hb, fun _ => rfl, .inl rfl⟩

variable {env : Env} {s' : State} {r : Response} {path : U256}

theorem reply_writes {id : ReplyId} {result : Option ReplyData} {messages : Response}
    (he : id ≠ .execute) (hf : id ≠ .forward) (h : reply env id result s = .ok (s', messages)) :
    (s' = s ∨ s' = { s with marketMaker := none }) ∧ ∃ ack, messages = [writeAck ack] := by
  cases id with
  | execute => exact absurd rfl he
  | forward => exact absurd rfl hf
  | call =>
    simp only [reply, replyCall] at h
    split at h
    · simp only [bind_eq_ok, pure_eq_ok] at h
      obtain ⟨_, -, h⟩ := h
      cases h
      exact ⟨.inl rfl, _, rfl⟩
    · cases h
  | mmRelayerFill =>
    simp only [reply, replyRelayerFill, bind_eq_ok] at h
    obtain ⟨maker, -, h⟩ := h
    split at h
    · cases h
      exact ⟨.inr rfl, _, rfl⟩
    · cases h
      exact ⟨.inr rfl, _, rfl⟩
  | mmSolverFill =>
    simp only [reply, replySolverFill] at h
    split at h
    · cases h
      exact ⟨.inl rfl, _, rfl⟩
    · cases h
      exact ⟨.inl rfl, _, rfl⟩

theorem reply_inner {id : ReplyId} {result : Option ReplyData} {messages : Response} (he : id ≠ .execute)
    (hf : id ≠ .forward) (h : reply env id result w.state = .ok (s, messages)) :
    Inner w { w with state := s } ∧ ∀ m ∈ messages, m.IsInner := by
  obtain ⟨hs, ack, rfl⟩ := reply_writes he hf h
  refine ⟨?_, isInner_of_mem_writeAck⟩
  rcases hs with rfl | rfl
  · exact .refl w
  · exact ⟨rfl, rfl, rfl, fun _ => rfl, fun _ => rfl, .inr rfl⟩

theorem runExternal_inner {out : Outside X} {w' : World X} {d : ReplyData} (hm : msg.isInner = true)
    (hexec : w.state.executingPacket ≠ none) (h : runExternal out env w msg = some (w', d)) : Inner w w' := by
  cases msg with
  | packetSend | writeAcknowledgement | internalExecutePacket => cases hm
  | internalWriteAck | internalBatch => cases h
  | minter | account =>
    simp only [runExternal, Option.map_eq_some_iff] at h
    obtain ⟨x, -, h⟩ := h
    cases h
    exact .ext_only w x
  | contract a m =>
    simp only [runExternal, Option.map_eq_some_iff] at h
    obtain ⟨⟨s, x, b⟩, hr, h⟩ := h
    cases h
    exact .of_keeps (out.contract_keeps hexec hr)
  | solver a m =>
    simp only [runExternal, Option.map_eq_some_iff] at h
    obtain ⟨⟨s, x, b⟩, hr, h⟩ := h
    cases h
    exact .of_keeps (out.solver_keeps hexec hr)

theorem inner_closed (out : Outside X) (env : Env) :
    Closed out env (fun w w' => w.state.executingPacket ≠ none → Inner w w') SubMsg.IsInner where
  refl w _ := .refl w
  trans h h' hexec := (h hexec).trans (h' ((h hexec).executingPacket ▸ hexec))
  external hM h hexec := runExternal_inner hM.1 hexec h
  self := by
    intro w sub info msg s messages hM hself h
    obtain ⟨m, r⟩ := sub
    cases m with
    | internalWriteAck ack =>
      cases hself
      simp only [execute, bind_eq_ok, pure_eq_ok] at h
      obtain ⟨_, -, h⟩ := h
      cases h
      exact ⟨fun _ => internalWriteAck_inner w ack, fun m hm => by cases hm⟩
    | internalBatch ms =>
      cases hself
      simp only [execute, bind_eq_ok, pure_eq_ok] at h
      obtain ⟨_, -, h⟩ := h
      cases h
      refine ⟨fun _ => .refl w, ?_⟩
      intro m hm
      obtain ⟨c, -, rfl⟩ := List.mem_map.mp hm
      exact isInner_plain rfl
    | internalExecutePacket c p r m i f => cases hM.1
    | _ => cases hself
  reply hM hsub h :=
    have hr := reply_inner (hM.2 _ _ hsub).1 (hM.2 _ _ hsub).2 h
    ⟨fun _ => hr.1, hr.2⟩

theorem Work.response_inner (k : Work) : ∀ m ∈ k.response, m.IsInner := by
  have hacc : ∀ account, ∀ m ∈ accountMessages account, m.IsInner := by
    intro account m hm
    obtain ⟨c, -, rfl⟩ := List.mem_map.mp hm
    exact isInner_plain rfl
  intro m hm
  cases k with
  | protocol calls =>
    rcases List.mem_append.mp hm with hm | hm
    · obtain ⟨c, -, rfl⟩ := List.mem_map.mp hm
      exact isInner_plain rfl
    · exact isInner_of_mem_writeAck m hm
  | relayer | solver =>
    rw [List.mem_singleton.mp hm]
    refine ⟨rfl, ?_⟩
    intro on id hid
    cases hid
    decide
  | call account target msg =>
    rcases List.mem_append.mp hm with hm | hm
    · exact hacc account m hm
    · rcases List.mem_cons.mp hm with rfl | hm
      · exact isInner_plain rfl
      · exact isInner_of_mem_writeAck m hm
  | eureka account target msg =>
    rcases List.mem_append.mp hm with hm | hm
    · exact hacc account m hm
    · rw [List.mem_singleton.mp hm]
      refine ⟨rfl, ?_⟩
      intro on id hid
      cases hid
      decide

/-! ## Sending and completing by the instruction -/

def SubMsg.IsCall (m : SubMsg) : Prop := m.reply = none ∧
      ((∃ c, m.msg = .minter c) ∨ ∃ a c, m.msg = .contract a c)

/-- Only balances change, and the messages are calls. -/
structure Settles (s s' : State) (r : Response) : Prop where
  state : ∃ balances, s' = { s with channelBalanceV2 := balances }
  calls : ∀ m ∈ r, m.IsCall

theorem Settles.nil (s : State) : Settles s s [] := ⟨⟨_, rfl⟩, fun m hm => by cases hm⟩

theorem Settles.one (hs : ∃ b, s' = { s with channelBalanceV2 := b })
    (h : (∃ c, msg = .minter c) ∨ ∃ a c, msg = .contract a c) : Settles s s' [msg.plain] := by
  refine ⟨hs, ?_⟩
  intro m hm
  rw [List.mem_singleton.mp hm]
  exact ⟨rfl, h⟩

theorem calls_closed (out : Outside X) (env : Env) :
    Closed out env (fun w w' => Idle w.state → Idle w'.state) SubMsg.IsCall where
  refl w := id
  trans h h' hidle := h' (h hidle)
  external := by
    intro w w' sub d hM h hidle
    rcases hM.2 with ⟨c, hc⟩ | ⟨a, c, hc⟩
    · simp only [hc, runExternal, Option.map_eq_some_iff] at h
      obtain ⟨x, -, h⟩ := h
      cases h
      exact hidle
    · simp only [hc, runExternal, Option.map_eq_some_iff] at h
      obtain ⟨⟨s, x, b⟩, hr, h⟩ := h
      cases h
      exact out.contract_idle hidle hr
  self := by
    intro w sub info msg s messages hM hself h
    rcases hM.2 with ⟨c, hc⟩ | ⟨a, c, hc⟩
    · rw [hc] at hself
      cases hself
    · rw [hc] at hself
      cases hself
  reply := by
    intro w sub on id result s messages hM hsub h
    rw [hM.1] at hsub
    cases hsub

theorem Settles.append {s₁ : State} {r' : Response} (h : Settles s s₁ r) (h' : Settles s₁ s' r') :
    Settles s s' (r ++ r') := by
  obtain ⟨b, rfl⟩ := h.state
  obtain ⟨b', rfl⟩ := h'.state
  refine ⟨⟨b', rfl⟩, ?_⟩
  intro m hm
  exact (List.mem_append.mp hm).elim (h.calls m) (h'.calls m)

theorem Payout.settles {k : BalanceKey} {n : Nat} {burned maker : Bool}
    (h : Payout s k n burned maker s' r) : Settles s s' r := by
  cases h with
  | nothing _ => exact .nil s
  | mint | unescrow | retire => exact .one ⟨_, rfl⟩ (.inl ⟨_, rfl⟩)

theorem Order.refund_settles {c : ChannelId} {o : Order} (h : o.refund env path c s = .ok (s', r)) :
    Settles s s' r := by
  obtain ⟨-, base, -, hpay⟩ := Order.refund_payout h
  exact hpay.settles

variable {packet : Packet}

theorem Order.acknowledge_settles {ack : Option (U256 × Bytes)} {o : Order}
    (h : o.acknowledge env packet path ack s = .ok (s', r)) : Settles s s' r := by
  cases ack with
  | none =>
    rw [Order.acknowledge_none] at h
    exact Order.refund_settles h
  | some ack =>
    rcases Order.acknowledge_payout h with ⟨-, rfl, rfl⟩ | ⟨-, base, -, hpay⟩
    · exact .nil s'
    · exact hpay.settles

variable {caller relayer : Addr}

theorem acknowledgeCall_settles {c : Call} {successful : Bool} {ack : AckData}
    (h : acknowledgeCall env caller packet relayer path c successful ack s = .ok (s', r)) :
    Settles s s' r := by
  unfold acknowledgeCall at h
  split at h
  · simp only [bind_eq_ok, pure_eq_ok] at h
    obtain ⟨sender, -, h⟩ := h
    cases h
    exact .one ⟨_, rfl⟩ (.inr ⟨_, _, rfl⟩)
  · cases h
    exact .nil s

theorem timeoutCall_settles {c : Call}
    (h : timeoutCall env caller packet relayer path c s = .ok (s', r)) : Settles s s' r := by
  unfold timeoutCall at h
  split at h
  · simp only [bind_eq_ok, pure_eq_ok] at h
    obtain ⟨sender, -, h⟩ := h
    cases h
    exact .one ⟨_, rfl⟩ (.inr ⟨_, _, rfl⟩)
  · cases h
    exact .nil s

variable {l : Leaf}

theorem Leaf.acknowledge_settles {successful : Bool} {ack : AckData}
    (h : l.acknowledge env caller packet relayer path successful ack s = .ok (s', r)) : Settles s s' r := by
  cases l with
  | order o =>
    simp only [Leaf.acknowledge, bind_eq_ok] at h
    obtain ⟨orderAck, -, h⟩ := h
    exact Order.acknowledge_settles h
  | call c => exact acknowledgeCall_settles h

theorem Leaf.timeout_settles (h : l.timeout env caller packet relayer path s = .ok (s', r)) :
    Settles s s' r := by
  cases l with
  | order o => exact Order.refund_settles h
  | call c => exact timeoutCall_settles h

theorem Leaf.verify_settles {info : MessageInfo} {channelId : ChannelId} {w w' : Walk}
    (h : l.verify env info channelId path w = .ok w') :
    ∃ r, w'.response = w.response ++ r ∧ Settles w.state w'.state r := by
  cases l with
  | order o =>
    obtain ⟨base, funds, coins, -, -, -, hcase⟩ := Order.verify_cases h
    rcases hcase with ⟨-, -, rfl⟩ | ⟨-, rfl⟩
    · exact ⟨_, rfl, .one ⟨_, rfl⟩ (.inl ⟨_, rfl⟩)⟩
    · exact ⟨_, rfl, .one ⟨_, rfl⟩ (.inl ⟨_, rfl⟩)⟩
  | call c =>
    simp only [Leaf.verify, bind_eq_ok, pure_eq_ok] at h
    obtain ⟨_, -, rfl⟩ := h
    exact ⟨[], by simp, .nil _⟩

section Instructions

variable {env : Env} {info : MessageInfo} {channelId : ChannelId} {caller relayer : Addr}
  {packet : Packet} {successful : Bool}

theorem acknowledgeBatch_settles {is : List Instruction}
    (hi : ∀ i ∈ is, ∀ {ack s s' r}, acknowledgeInternal env caller packet relayer path i successful ack s =
      .ok (s', r) → Settles s s' r) {acks : Option (List AckData)}
    (h : acknowledgeBatch env caller packet relayer path is successful acks s = .ok (s', r)) :
    Settles s s' r := by
  induction is generalizing acks s s' r with
  | nil =>
    cases h
    exact .nil s
  | cons i is ih =>
    simp only [acknowledgeBatch, bind_eq_ok, pure_eq_ok] at h
    obtain ⟨⟨ack, acks'⟩, -, ⟨s₁, r₁⟩, h₁, ⟨s₂, r₂⟩, h₂, h⟩ := h
    cases h
    have hfirst := hi i (List.mem_cons_self ..) h₁
    exact hfirst.append (ih (fun j hj => hi j (List.mem_cons_of_mem _ hj)) h₂)

theorem acknowledgeInternal_settles {path : U256} {i : Instruction} {ack : AckData} {s s' : State}
    {r : Response}
    (h : acknowledgeInternal env caller packet relayer path i successful ack s = .ok (s', r)) :
    Settles s s' r := by
  rcases acknowledgeInternal_cases h with ⟨l, rfl⟩ | ⟨is, acks, hi, -, hbatch⟩
  · rw [acknowledgeInternal_leaf] at h
    exact Leaf.acknowledge_settles h
  · exact acknowledgeBatch_settles (fun j hj _ _ _ _ hj' => acknowledgeInternal_settles hj') hbatch
termination_by sizeOf i
decreasing_by exact hi ▸ sizeOf_lt_batchInstruction hj

theorem timeoutBatch_settles {is : List Instruction}
    (hi : ∀ i ∈ is, ∀ {s s' r}, timeoutInternal env caller packet relayer path i s = .ok (s', r) →
      Settles s s' r)
    (h : timeoutBatch env caller packet relayer path is s = .ok (s', r)) : Settles s s' r := by
  induction is generalizing s s' r with
  | nil =>
    cases h
    exact .nil s
  | cons i is ih =>
    simp only [timeoutBatch, bind_eq_ok, pure_eq_ok] at h
    obtain ⟨⟨s₁, r₁⟩, h₁, ⟨s₂, r₂⟩, h₂, h⟩ := h
    cases h
    have hfirst := hi i (List.mem_cons_self ..) h₁
    exact hfirst.append (ih (fun j hj => hi j (List.mem_cons_of_mem _ hj)) h₂)

theorem timeoutInternal_settles {path : U256} {i : Instruction} {s s' : State} {r : Response}
    (h : timeoutInternal env caller packet relayer path i s = .ok (s', r)) : Settles s s' r := by
  rcases timeoutInternal_cases h with ⟨l, rfl⟩ | ⟨is, hi, hbatch⟩
  · rw [timeoutInternal_leaf] at h
    exact Leaf.timeout_settles h
  · exact timeoutBatch_settles (fun j hj _ _ _ hj' => timeoutInternal_settles hj') hbatch
termination_by sizeOf i
decreasing_by exact hi ▸ sizeOf_lt_batchInstruction hj

theorem verifyBatch_settles {path : U256} : ∀ {leaves : List Leaf} {w w' : Walk},
      verifyBatch env info channelId path (leaves.map Leaf.toInstruction) w = .ok w' →
        ∃ r, w'.response = w.response ++ r ∧ Settles w.state w'.state r
  | [], w, w', h => by
    cases h
    exact ⟨[], by simp, .nil _⟩
  | l :: leaves, w, w', h => by
    simp only [List.map_cons, verifyBatch_cons, bind_eq_ok] at h
    obtain ⟨w₁, h₁, h₂⟩ := h
    obtain ⟨r, hr, hs⟩ := Leaf.verify_settles h₁
    obtain ⟨r', hr', hs'⟩ := verifyBatch_settles h₂
    exact ⟨r ++ r', by rw [hr', hr, List.append_assoc], hs.append hs'⟩

theorem verifyInternal_settles {path : U256} {i : Instruction} {w w' : Walk}
    (h : verifyInternal env info channelId path i w = .ok w') :
    ∃ r, w'.response = w.response ++ r ∧ Settles w.state w'.state r := by
  rcases verifyInternal_cases h with ⟨l, rfl⟩ | ⟨is, rfl, hbatch⟩ | ⟨p, th, tt, j, hi, -, hj⟩
  · rw [verifyInternal_leaf] at h
    exact Leaf.verify_settles h
  · obtain ⟨leaves, rfl⟩ := exists_leaves_of_verify hbatch
    exact verifyBatch_settles hbatch
  · exact verifyInternal_settles hj
termination_by sizeOf i
decreasing_by exact hi ▸ sizeOf_lt_forward ..

end Instructions

end UnionVoyager.Zkgm
