import UnionVoyager.Zkgm.Run

/-!
# The transaction that receives a packet

Whatever a packet holds, the transaction that receives it has two ways to go through: the packet's
messages all ran and its acknowledgement was collected, or they failed, were undone, and the failure
acknowledgement was written.
-/

namespace UnionVoyager.Zkgm

open Lib
open Core (ChannelId Addr Coin)

/-- The message of the host that brings the packet. -/
def Execution.message (x : Execution) : ExecuteMsg :=
  if x.intent then .onIntentRecvPacket x.caller x.packet x.relayer x.relayerMsg
  else .onRecvPacket x.caller x.packet x.relayer x.relayerMsg

/-- The storage in which the execution of a packet begins. -/
def State.begin (s : State) (p : Packet) : State := { s with executingPacket := some p }

section Receive

variable {X : Type}

/-- The packet was executed, and its messages ran up to `w₁`. -/
def Execution.Ran (out : Outside X) (env : Env) (info : MessageInfo) (x : Execution)
    (w w₁ : World X) (messages : Response) : Prop :=
  ∃ s, executePacket env x.caller x.packet x.relayer x.relayerMsg x.intent info.funds
      (w.state.begin x.packet) = .ok (s, messages) ∧
    messages.foldlM (runSub out env 3) { w with state := s, log := [] } = .ok w₁

/-- The messages of the packet ran up to `w₁`, and its acknowledgement, unless it is empty, went to the
    host. -/
structure ReceivedOk (out : Outside X) (env : Env) (info : MessageInfo) (x : Execution)
    (w w₁ w' : World X) (messages : Response) (ack : AckData) : Prop where
  run : x.Ran out env info w w₁ messages
  collect : ∃ s' p, w₁.state.executingPacket = some p ∧
    collectAck { w₁.state with executingPacket := none } = .ok (s', ack) ∧
    ((ack.isEmpty = true ∧ w' = { w₁ with state := s' }) ∨
      (ack.isEmpty = false ∧ ∃ y, out.writeAcknowledgement w₁.ext p (.success ack) = some y ∧
        w' = ⟨s', y, w₁.log ++ [.acked p (.success ack)]⟩))

/-- Nothing was done but to write the failure acknowledgement. -/
structure ReceivedFailed (out : Outside X) (x : Execution) (w w' : World X) : Prop where
  state : w'.state = w.state
  ext : out.writeAcknowledgement w.ext x.packet .failure = some w'.ext
  log : w'.log = [.acked x.packet .failure]

variable {out : Outside X} {env : Env} {info : MessageInfo} {x : Execution} {w w' : World X}

theorem execute_message {r : State × Response} (h : execute env info x.message w.state = .ok r) :
    info.sender = w.state.config.ibcHost ∧ w.state.executingPacket = none ∧
      r = (w.state.begin x.packet,
        [⟨.internalExecutePacket x.caller x.packet x.relayer x.relayerMsg x.intent info.funds,
          some (.always, .execute)⟩]) := by
  have hdispatch : info.sender = w.state.config.ibcHost ∧ dispatchExecutePacket env info x.caller x.packet
      x.relayer x.relayerMsg x.intent w.state = .ok r := by
    unfold Execution.message at h
    cases hi : x.intent with
    | true =>
      rw [hi] at h
      simp only [if_true, execute, bind_eq_ok, require_eq_ok] at h
      obtain ⟨_, hhost, h⟩ := h
      exact ⟨hhost, h⟩
    | false =>
      rw [hi] at h
      simp only [Bool.false_eq_true, if_false, execute, bind_eq_ok, require_eq_ok] at h
      obtain ⟨_, hhost, h⟩ := h
      exact ⟨hhost, h⟩
  obtain ⟨hhost, hd⟩ := hdispatch
  simp only [dispatchExecutePacket, addrValidate, bind_eq_ok, require_eq_ok, pure_eq_ok] at hd
  obtain ⟨caller, ⟨_, -, rfl⟩, relayer, ⟨_, -, rfl⟩, _, hnone, rfl⟩ := hd
  exact ⟨hhost, by simpa using hnone, rfl⟩

theorem run_writeAcknowledgement {fuel : Nat} {p : Packet} {ack : Acknowledgement}
    (h : [(CosmosMsg.writeAcknowledgement p ack).plain].foldlM (runSub out env fuel) w = .ok w') :
    ∃ y, out.writeAcknowledgement w.ext p ack = some y ∧
      w' = ⟨w.state, y, w.log ++ [.acked p ack]⟩ := by
  simp only [List.foldlM_cons, List.foldlM_nil, bind_eq_ok, pure_eq_ok] at h
  obtain ⟨w₁, h, rfl⟩ := h
  cases fuel with
  | zero => cases h
  | succ fuel =>
    rw [runSub_external rfl, map_eq_ok] at h
    obtain ⟨⟨w₂, d⟩, h, rfl⟩ := h
    simp only [orErr_eq_ok, runExternal, Option.map_eq_some_iff] at h
    obtain ⟨y, hy, h⟩ := h
    cases h
    exact ⟨y, hy, rfl⟩

theorem transact_message_cases (h : transact out env info x.message w = .ok w') :
    info.sender = w.state.config.ibcHost ∧ w.state.executingPacket = none ∧
      ((∃ w₁ messages ack, ReceivedOk out env info x w w₁ w' messages ack) ∨
        ReceivedFailed out x w w') := by
  simp only [transact, bind_eq_ok] at h
  obtain ⟨r, hr, h⟩ := h
  obtain ⟨hhost, hnone, rfl⟩ := execute_message hr
  refine ⟨hhost, hnone, ?_⟩
  simp only [runAll, List.foldlM_cons, List.foldlM_nil, bind_eq_ok, pure_eq_ok] at h
  obtain ⟨w₂, h, rfl⟩ := h
  rw [NESTING] at h
  rcases runSub_cases h with ⟨w₁, d, hmsg, ⟨hreply, -⟩ | ⟨on, id, hid, hr⟩⟩ | ⟨e, id, -, hid, hr⟩
  · cases hreply
  · cases hid
    simp only [runMsg, selfMsg, execute, bind_eq_ok, pure_eq_ok] at hmsg
    obtain ⟨⟨s, messages⟩, ⟨_, -, hs⟩, w₃, hrun, hw⟩ := hmsg
    cases hw
    simp only [runReply, reply, replyExecute, bind_eq_ok, okOr_eq_ok] at hr
    obtain ⟨⟨s', ms⟩, ⟨p, hp, ⟨s₁, ack⟩, hack, hs'⟩, hms⟩ := hr
    refine .inl ⟨w₁, messages, ack, ⟨s, hs, hrun⟩, ⟨s₁, p, hp, hack, ?_⟩⟩
    split at hs'
    · rename_i hempty
      cases hs'
      obtain rfl : _ = w₂ := by simpa using hms
      exact .inl ⟨hempty, rfl⟩
    · rename_i hempty
      cases hs'
      obtain ⟨y, hy, rfl⟩ := run_writeAcknowledgement hms
      exact .inr ⟨by simpa using hempty, y, hy, rfl⟩
  · cases hid
    have hp : (w.state.begin x.packet).executingPacket = some x.packet := rfl
    simp only [runReply, reply, replyExecute, hp, okOr, orErr, ok_bind, bind_eq_ok, pure_eq_ok] at hr
    obtain ⟨r, hr, hms⟩ := hr
    cases hr
    obtain ⟨y, hy, rfl⟩ := run_writeAcknowledgement hms
    refine .inr ⟨?_, hy, rfl⟩
    have hs : ({ w.state.begin x.packet with executingPacket := none } : State) =
        { w.state with executingPacket := none } := rfl
    rw [hs, ← hnone]

end Receive

end UnionVoyager.Zkgm
