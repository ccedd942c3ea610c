import UnionVoyager.Zkgm.Forward
import UnionVoyager.Zkgm.Receipt

/-!
# Acknowledging a batch

A batch is walked first; the messages of its instructions and their replies run afterwards and pass
their acknowledgements through single storage slots.  This module compares that with what the batch is
meant to do: each instruction on its own, in turn.

* `run_works_ok`, `run_works_error` — when the messages do what the works do, and when not.
-/

namespace UnionVoyager.Zkgm

open Lib List Option Work
open Core (ChannelId Timestamp Addr Coin H256)

/-! ## What a batch is meant to do -/

section Perform

variable {X : Type}

/-- The work done on its own: calls that all go through, a solver that names a market maker, a called
    contract that answers with something, which the acknowledgement has as the chain wraps it. -/
def Work.perform (out : Outside X) (maker : Bytes) : Work → World X → Option (World X × AckData)
  | .protocol calls, w => do
    let x ← calls.foldlM out.minter w.ext
    some ({ w with ext := x }, protocolAck)
  | .relayer calls, w => do
    let x ← calls.foldlM out.minter w.ext
    some ({ w with ext := x }, makerAck maker)
  | .solver address msg, w => do
    let (s, x, marketMaker) ← out.solver w.state w.ext address msg
    let marketMaker ← marketMaker
    some ({ w with state := s, ext := x }, makerAck marketMaker)
  | .call account target msg, w => do
    let x ← account.foldlM out.account w.ext
    let (s, x, _) ← out.contract w.state x target msg
    some ({ w with state := s, ext := x }, .raw (Core.word TAG_ACK_SUCCESS.toNat))
  | .eureka account target msg, w => do
    let x ← account.foldlM out.account w.ext
    let (s, x, data) ← out.contract w.state x target msg
    if data.isEmpty then none else some ({ w with state := s, ext := x }, .raw (executeContractResponse data))

/-- The acknowledgement is kept for the batch; a relayer has been paid for. -/
def Work.record (k : Work) (ack : AckData) (s : State) : State :=
  internalWriteAck ack (if k.isRelayer then { s with marketMaker := none } else s)

def performAll (out : Outside X) (maker : Bytes) : List Work → World X → Option (World X × List AckData)
  | [], w => some (w, [])
  | k :: ks, w => do
    let (w, ack) ← k.perform out maker w
    let (w, acks) ← performAll out maker ks { w with state := k.record ack w.state }
    some (w, ack :: acks)

end Perform

/-- The storage in which the walk of a batch of `n` instructions begins. -/
def State.beginBatch (s : State) (p : Packet) (n : Nat) : State :=
  { s with executingPacket := some p, executingPacketIsBatch := some n }

/-- The storage in which the messages of a batch begin to run. -/
def State.endWalk (s : State) : State := { s with createdProxyAccount := none }

/-- Every instruction of the batch succeeds: the walk, and then the work of each in turn, up to `w₁`. -/
def BatchSucceeds {X : Type} (out : Outside X) (env : Env) (x : Execution) (funds : List Coin)
    (leaves : List Leaf) (w w₁ : World X) (acks : List AckData) : Prop :=
  ∃ works s₁ funds₁,
    Walks env x leaves (w.state.beginBatch x.packet leaves.length) (Coins.ofList funds) works s₁ funds₁ ∧
    performAll out x.relayerMsg works { w with state := s₁.endWalk, log := [] } = some (w₁, acks)

/-- How many orders are left to the relayer, each in the storage the ones before it lead to. -/
def relayerFills (env : Env) (x : Execution) : List Leaf → State → Coins → Nat
  | [], _, _ => 0
  | l :: ls, s, funds =>
    (if l.leftToRelayer env x s then 1 else 0) +
      match l.execute env x s funds with
      | .ok (s', funds', _) => relayerFills env x ls s' funds'
      | .error _ => 0

variable {leaves : List Leaf} {s : State} {works : List Work}

theorem Walks.relayerFills_eq {env : Env} {x : Execution} {s' : State} {funds funds' : Coins}
    (h : Walks env x leaves s funds works s' funds') :
    relayerFills env x leaves s funds = works.countP isRelayer := by
  induction h with
  | nil s funds => rfl
  | @cons l ls k ks s s₁ s' funds funds₁ funds' hl hk hls ih =>
    simp only [relayerFills, hl, ih, countP_cons, hk.isRelayer]
    omega

theorem Walks.length_eq {env : Env} {x : Execution} {s' : State} {funds funds' : Coins}
    (h : Walks env x leaves s funds works s' funds') : works.length = leaves.length := by
  induction h with
  | nil s funds => rfl
  | cons hl hk hls ih => simp [ih]

/-! ## Works and their messages -/

variable {fuel n : Nat} {acks : List AckData}

section Works

variable {X : Type} {out : Outside X} {env : Env} {maker : Bytes} {w : World X}

theorem runSub_relayerFill {calls : List MinterCall} {y : X}
    (hcalls : calls.foldlM out.minter w.ext = some y) : runSub out env (fuel + 2) w (relayerFill calls) =
      runReply env (runSub out env (fuel + 1)) { w with ext := y } .mmRelayerFill (some .none) := by
  apply runSub_ok
  have hrun := @run_minterCalls X out env fuel calls w
  rw [hcalls] at hrun
  simp only [runMsg, selfMsg, execute, require, ensure, if_true, ok_bind]
  exact congrArg (· >>= fun w => pure (w, ReplyData.none)) hrun

theorem runSub_relayerFill_none {calls : List MinterCall} (hcalls : calls.foldlM out.minter w.ext = none) :
    runSub out env (fuel + 2) w (relayerFill calls) =
      runReply env (runSub out env (fuel + 1)) w .mmRelayerFill none := by
  apply runSub_error
  have hrun := @run_minterCalls X out env fuel calls w
  rw [hcalls] at hrun
  simp only [runMsg, selfMsg, execute, require, ensure, if_true, ok_bind]
  exact congrArg (· >>= fun w => pure (w, ReplyData.none)) hrun

theorem runSub_relayerFill_error {calls : List MinterCall} (hm : w.state.marketMaker = none) :
    ∃ e, runSub out env (fuel + 2) w (relayerFill calls) = .error e := by
  have hreply : ∀ {w₁ : World X} {result}, w₁.state.marketMaker = none →
      runReply env (runSub out env (fuel + 1)) w₁ .mmRelayerFill result = .error (.err .std) := by
    intro w₁ result hm₁
    simp only [runReply, reply, replyRelayerFill, hm₁]
    rfl
  cases hcalls : calls.foldlM out.minter w.ext with
  | some y =>
    rw [runSub_relayerFill hcalls]
    exact ⟨_, hreply hm⟩
  | none =>
    rw [runSub_relayerFill_none hcalls]
    exact ⟨_, hreply hm⟩

variable {ack : AckData}

theorem runReply_writeAck {id : ReplyId} {result : Option ReplyData}
    (h : reply env id result w.state = .ok (s, [writeAck ack])) :
    runReply env (runSub out env (fuel + 1)) w id result =
      .ok { w with state := internalWriteAck ack s } := by
  simp only [runReply, h, ok_bind, foldlM_cons, foldlM_nil, runSub_writeAck]
  rfl

/-- **A work that can be done on its own is done by its messages**, if the slot of the market maker
    holds what a relayer fill needs. -/
theorem run_work_ok {k : Work} {w₁ : World X} (h : k.perform out maker w = some (w₁, ack))
    (hmaker : k.isRelayer = true → w.state.marketMaker = some maker) :
    k.response.foldlM (runSub out env (fuel + 2)) w = .ok { w₁ with state := k.record ack w₁.state } := by
  cases k with
  | protocol calls =>
    simp only [perform, bind_eq_bind, bind_eq_some_iff] at h
    obtain ⟨y, hcalls, h⟩ := h
    cases h
    simp only [response, protocolFill, foldlM_append, run_minterCalls, hcalls, orErr,
      foldlM_cons, foldlM_nil]
    show (runSub out env (fuel + 2) { w with ext := y } (writeAck protocolAck) >>= pure) = _
    rw [runSub_writeAck]
    rfl
  | relayer calls =>
    simp only [perform, bind_eq_bind, bind_eq_some_iff] at h
    obtain ⟨y, hcalls, h⟩ := h
    cases h
    have hreply : reply env .mmRelayerFill (some .none) w.state =
        .ok ({ w.state with marketMaker := none }, [writeAck (makerAck maker)]) := by
      simp only [reply, replyRelayerFill, hmaker rfl]
      rfl
    simp only [response, foldlM_cons, foldlM_nil, runSub_relayerFill hcalls]
    rw [runReply_writeAck (w := { w with ext := y }) hreply]
    rfl
  | solver address msg =>
    simp only [perform, bind_eq_bind, bind_eq_some_iff] at h
    obtain ⟨⟨s, y, mm⟩, hsolve, mm', hmm, h⟩ := h
    cases h
    obtain rfl : mm = some mm' := hmm
    have hmsg : runMsg out env (runSub out env (fuel + 1)) w (.solver address msg) =
        .ok ({ w with state := s, ext := y }, ⟨[], some mm'⟩) := by
      simp only [runMsg, selfMsg, runExternal, hsolve]
      rfl
    simp only [response, foldlM_cons, foldlM_nil, runSub_ok hmsg]
    rw [runReply_writeAck rfl]
    rfl
  | call account target msg =>
    simp only [perform, bind_eq_bind, bind_eq_some_iff] at h
    obtain ⟨y, hacc, ⟨s, z, d⟩, hcall, h⟩ := h
    cases h
    simp only [response, foldlM_append, run_accountMessages, hacc, orErr, foldlM_cons, foldlM_nil]
    show (runSub out env (fuel + 2) { w with ext := y } (CosmosMsg.contract target msg).plain >>= _) = _
    rw [runSub_external rfl]
    simp only [runExternal, hcall]
    show (runSub out env (fuel + 2) { w with state := s, ext := z } (writeAck _) >>= pure) = _
    rw [runSub_writeAck]
    rfl
  | eureka account target msg =>
    simp only [perform, bind_eq_bind, bind_eq_some_iff] at h
    obtain ⟨y, hacc, ⟨s, z, d⟩, hcall, h⟩ := h
    simp only at h
    split at h
    · cases h
    · rename_i hd
      cases h
      have hmsg : runMsg out env (runSub out env (fuel + 1)) { w with ext := y }
          (.contract target msg) = .ok ({ w with state := s, ext := z },
            ⟨executeContractResponse d, none⟩) := by
        simp only [runMsg, selfMsg, runExternal, hcall]
        rfl
      have hreply : reply env .call (some ⟨executeContractResponse d, none⟩) s =
          .ok (s, [writeAck (.raw (executeContractResponse d))]) := by
        simp only [reply, replyCall, require, ensure, isEmpty_executeContractResponse, hd]
        rfl
      simp only [response, foldlM_append, run_accountMessages, hacc, orErr, foldlM_cons, foldlM_nil]
      show (runSub out env (fuel + 2) { w with ext := y } _ >>= pure) = _
      rw [runSub_ok hmsg, runReply_writeAck (w := { w with state := s, ext := z }) hreply]
      rfl

/-- What the work leaves as it is; its acknowledgement is neither empty nor asks for a market maker. -/
theorem Work.perform_frame {k : Work} {w₁ : World X} (hexec : w.state.executingPacket ≠ none)
    (h : k.perform out maker w = some (w₁, ack)) :
    w₁.state.slots = w.state.slots ∧ w₁.log = w.log ∧ ack.isEmpty = false ∧ ack.isOnlyMaker = false := by
  cases k with
  | protocol | relayer =>
    simp only [perform, bind_eq_bind, bind_eq_some_iff] at h
    obtain ⟨y, -, h⟩ := h
    cases h
    exact ⟨rfl, rfl, rfl, rfl⟩
  | solver address msg =>
    simp only [perform, bind_eq_bind, bind_eq_some_iff] at h
    obtain ⟨⟨s, y, mm⟩, hsolve, mm', -, h⟩ := h
    cases h
    exact ⟨(out.solver_keeps hexec hsolve).slots, rfl, rfl, rfl⟩
  | call account target msg =>
    simp only [perform, bind_eq_bind, bind_eq_some_iff] at h
    obtain ⟨y, -, ⟨s, z, d⟩, hcall, h⟩ := h
    cases h
    have hlen : (Core.word TAG_ACK_SUCCESS.toNat).length = 32 := Core.word_length _
    refine ⟨(out.contract_keeps hexec hcall).slots, rfl, ?_, ?_⟩
    · simp only [AckData.isEmpty, isEmpty_eq_false_iff]
      intro hnil
      rw [hnil] at hlen
      cases hlen
    · simp only [AckData.isOnlyMaker, beq_eq_false_iff_ne]
      intro hmaker
      rw [hmaker] at hlen
      exact absurd hlen (by decide)
  | eureka account target msg =>
    simp only [perform, bind_eq_bind, bind_eq_some_iff] at h
    obtain ⟨y, -, ⟨s, z, d⟩, hcall, h⟩ := h
    simp only at h
    split at h
    · cases h
    · rename_i hd
      cases h
      refine ⟨(out.contract_keeps hexec hcall).slots, rfl, ?_, ?_⟩
      · simpa [AckData.isEmpty] using hd
      · -- the tag of the field comes first
        cases d with
        | nil => exact absurd rfl hd
        | cons b d => rfl

/-- The acknowledgements of a batch, with one more. -/
def addAck (acks : Option (List AckData)) (ack : AckData) : Option (List AckData) :=
    some (acks.getD [] ++ [ack])

theorem foldl_addAck (acks l : List AckData) : acks.foldl addAck (some l) = some (l ++ acks) := by
  induction acks generalizing l with
  | nil => simp
  | cons a acks ih =>
    have hone : addAck (some l) a = some (l ++ [a]) := rfl
    rw [foldl_cons, hone, ih]
    simp

/-- The slots after one more acknowledgement was written. -/
def Slots.note (t : Slots) (ack : AckData) : Slots :=
  match t.executingPacketIsBatch with
  | some _ => { t with batchExecutionAcks := addAck t.batchExecutionAcks ack }
  | none => { t with executionAck := some ack }

theorem Work.record_note (k : Work) (ack : AckData) (s : State) : (k.record ack s).slots =
      { s.slots.note ack with marketMaker := if k.isRelayer then none else s.marketMaker } := by
  unfold record internalWriteAck Slots.note
  cases k.isRelayer <;> cases hb : s.executingPacketIsBatch <;> simp [State.slots, hb, addAck]

theorem executing_record {s s' : State} (hexec : s.executingPacket ≠ none)
    (hslots : s'.slots = s.slots) (k : Work)
    (ack : AckData) : (k.record ack s').executingPacket ≠ none := by
  have hp : s'.executingPacket = s.executingPacket := congrArg Slots.executingPacket hslots
  unfold record internalWriteAck
  cases k.isRelayer <;> cases hb : s'.executingPacketIsBatch <;> simpa [hb, hp] using hexec

theorem record_marketMaker {s s' : State} (k : Work) (ack : AckData) (hslots : s'.slots = s.slots) :
    (k.record ack s').marketMaker = if k.isRelayer then none else s.marketMaker := by
  have hm : s'.marketMaker = s.marketMaker := congrArg Slots.marketMaker hslots
  rw [← hm]
  exact congrArg Slots.marketMaker (k.record_note ack s')

/-- The work fills an order of a market maker. -/
def Work.isMaker : Work → Bool
  | .relayer _ | .solver .. => true
  | _ => false

/-- **What the messages of a work do**: it is done, or asks for another market maker, or all fails. -/
theorem run_work {k : Work} (hexec : w.state.executingPacket ≠ none)
    (hmaker : k.isRelayer = true → w.state.marketMaker = some maker) :
    ((∃ e, k.response.foldlM (runSub out env (fuel + 2)) w = .error e) ∧ k.isMaker = false) ∨
      ∃ w₁ ack, k.response.foldlM (runSub out env (fuel + 2)) w =
        .ok { w₁ with state := k.record ack w₁.state } ∧
        w₁.state.slots = w.state.slots ∧ w₁.log = w.log ∧
        (k.perform out maker w = some (w₁, ack) ∨ k.perform out maker w = none ∧
          ack = .raw ACK_ERR_ONLY_MAKER) := by
  cases hperf : k.perform out maker w with
  | some r =>
    obtain ⟨w₁, ack⟩ := r
    obtain ⟨hslots, hlog, -⟩ := perform_frame hexec hperf
    exact .inr ⟨w₁, ack, run_work_ok hperf hmaker, hslots, hlog, .inl rfl⟩
  | none =>
    cases k with
    | protocol calls =>
      have hcalls : calls.foldlM out.minter w.ext = none := Option.eq_none_iff_forall_ne_some.mpr (by
        simpa [perform] using hperf)
      refine .inl ⟨⟨.external, ?_⟩, rfl⟩
      simp only [response, protocolFill, foldlM_append, run_minterCalls, hcalls, orErr]
      rfl
    | relayer calls =>
      have hcalls : calls.foldlM out.minter w.ext = none := Option.eq_none_iff_forall_ne_some.mpr (by
        simpa [perform] using hperf)
      have hreply : reply env .mmRelayerFill none w.state =
          .ok ({ w.state with marketMaker := none }, [writeAck (.raw ACK_ERR_ONLY_MAKER)]) := by
        simp only [reply, replyRelayerFill, hmaker rfl]
        rfl
      refine .inr ⟨w, .raw ACK_ERR_ONLY_MAKER, ?_, rfl, rfl, .inr ⟨rfl, rfl⟩⟩
      simp only [response, foldlM_cons, foldlM_nil, runSub_relayerFill_none hcalls]
      rw [runReply_writeAck hreply]
      rfl
    | solver address msg =>
      cases hsolve : out.solver w.state w.ext address msg with
      | none =>
        have hmsg : runMsg out env (runSub out env (fuel + 1)) w (.solver address msg) =
            .error .external := by
          simp only [runMsg, selfMsg, runExternal, hsolve]
          rfl
        refine .inr ⟨w, .raw ACK_ERR_ONLY_MAKER, ?_, rfl, rfl, .inr ⟨rfl, rfl⟩⟩
        simp only [response, foldlM_cons, foldlM_nil, runSub_error hmsg]
        rw [runReply_writeAck rfl]
        rfl
      | some r =>
        obtain ⟨s, y, mm⟩ := r
        cases mm with
        | some mm => simp [perform, hsolve] at hperf
        | none =>
          have hmsg : runMsg out env (runSub out env (fuel + 1)) w (.solver address msg) =
              .ok ({ w with state := s, ext := y }, ⟨[], none⟩) := by
            simp only [runMsg, selfMsg, runExternal, hsolve]
            rfl
          refine .inr ⟨{ w with state := s, ext := y }, .raw ACK_ERR_ONLY_MAKER, ?_,
            (out.solver_keeps hexec hsolve).slots, rfl, .inr ⟨rfl, rfl⟩⟩
          simp only [response, foldlM_cons, foldlM_nil, runSub_ok hmsg]
          rw [runReply_writeAck rfl]
          rfl
    | call account target msg =>
      refine .inl ⟨?_, rfl⟩
      simp only [response, foldlM_append, run_accountMessages, foldlM_cons]
      cases hacc : account.foldlM out.account w.ext with
      | none => exact ⟨_, rfl⟩
      | some y =>
        refine ⟨.external, ?_⟩
        show (runSub out env (fuel + 2) { w with ext := y } (CosmosMsg.contract target msg).plain >>= _) = _
        rw [runSub_external rfl]
        cases hcall : out.contract w.state y target msg with
        | none => simp only [runExternal, hcall]; rfl
        | some r => simp [perform, hacc, hcall] at hperf
    | eureka account target msg =>
      refine .inl ⟨?_, rfl⟩
      simp only [response, foldlM_append, run_accountMessages, foldlM_cons]
      cases hacc : account.foldlM out.account w.ext with
      | none => exact ⟨_, rfl⟩
      | some y =>
        show ∃ e, (runSub out env (fuel + 2) { w with ext := y } _ >>= pure) = .error e
        rw [runSub]
        cases hcall : out.contract w.state y target msg with
        | none =>
          simp only [runMsg, selfMsg, runExternal, hcall]
          exact ⟨_, rfl⟩
        | some r =>
          obtain ⟨s, z, d⟩ := r
          have hd : d.isEmpty = true := by simpa [perform, hacc, hcall] using hperf
          have hmsg : runMsg out env (runSub out env (fuel + 1)) { w with ext := y } (.contract target msg) =
              .ok ({ w with state := s, ext := z }, ⟨executeContractResponse d, none⟩) := by
            simp only [runMsg, selfMsg, runExternal, hcall]
            rfl
          simp only [hmsg, runReply, reply, replyCall, require, ensure, isEmpty_executeContractResponse, hd]
          exact ⟨_, rfl⟩

variable {p : Packet} {e : Option AckData}

theorem Work.record_slots (k : Work) (ack : AckData) {bs : Option (List AckData)} {m : Option Bytes}
    (h : s.slots = ⟨some p, some n, e, bs, m⟩) : (k.record ack s).slots =
      ⟨some p, some n, e, addAck bs ack, if k.isRelayer then none else m⟩ := by
  simp only [State.slots, Slots.mk.injEq] at h
  obtain ⟨h₁, h₂, h₃, h₄, h₅⟩ := h
  unfold record internalWriteAck
  cases k.isRelayer
  · simp [h₁, h₂, h₃, h₄, h₅, State.slots, addAck]
  · simp [h₁, h₂, h₃, h₄, State.slots, addAck]

theorem executing_of_slots {b : Option Nat} {bs : Option (List AckData)} {m : Option Bytes}
    (h : s.slots = ⟨some p, b, e, bs, m⟩) : s.executingPacket ≠ none := by
  have hp : s.executingPacket = some p := congrArg Slots.executingPacket h
  rw [hp]
  exact some_ne_none p

theorem performAll_frame : ∀ {works : List Work} {w w' : World X} {acks : List AckData}
      {bs : Option (List AckData)}
      {m : Option Bytes}, performAll out maker works w = some (w', acks) →
      w.state.slots = ⟨some p, some n, e, bs, m⟩ →
      w'.log = w.log ∧ acks.length = works.length ∧ (∀ a ∈ acks, a.isEmpty = false ∧ a.isOnlyMaker = false) ∧
        ∃ m', w'.state.slots = ⟨some p, some n, e, acks.foldl addAck bs, m'⟩
  | [], w, w', acks, bs, m, h, hslots => by
    cases h
    exact ⟨rfl, rfl, fun a ha => (by cases ha), m, hslots⟩
  | k :: ks, w, w', acks, bs, m, h, hslots => by
    simp only [performAll, bind_eq_bind, bind_eq_some_iff] at h
    obtain ⟨⟨w₁, ack⟩, hk, ⟨w₂, acks'⟩, hks, h⟩ := h
    cases h
    obtain ⟨hs₁, hl₁, hne⟩ := perform_frame (executing_of_slots hslots) hk
    have hrec := k.record_slots ack (hs₁.trans hslots)
    obtain ⟨hl₂, hlen, hnes, m', hs₂⟩ := performAll_frame hks hrec
    refine ⟨hl₂.trans hl₁, by simp [hlen], ?_, m', hs₂⟩
    intro a ha
    rcases List.mem_cons.mp ha with rfl | ha
    · exact hne
    · exact hnes a ha

/-- The slot of the market maker serves this many fills of a relayer. -/
def Serves (maker : Bytes) (slot : Option Bytes) (fills : Nat) : Prop := fills = 0 ∨ fills = 1 ∧
      slot = some maker

theorem serves_cons {slot : Option Bytes} {k : Work} {works : List Work} :
    Serves maker slot ((k :: works).countP isRelayer) ↔ (k.isRelayer = true → slot = some maker) ∧
      Serves maker (if k.isRelayer then none else slot) (works.countP isRelayer) := by
  rw [countP_cons]
  unfold Serves
  cases k.isRelayer <;> simp [and_comm]

theorem run_works_ok {works : List Work} {w w' : World X} {acks : List AckData}
    (h : performAll out maker works w = some (w', acks)) (hexec : w.state.executingPacket ≠ none)
    (hserves : Serves maker w.state.marketMaker (works.countP isRelayer)) :
    (works.flatMap response).foldlM (runSub out env (fuel + 2)) w = .ok w' := by
  induction works generalizing w acks with
  | nil =>
    cases h
    rfl
  | cons k ks ih =>
    simp only [performAll, bind_eq_bind, bind_eq_some_iff] at h
    obtain ⟨⟨w₁, ack⟩, hk, ⟨w₂, acks'⟩, hks, h⟩ := h
    cases h
    obtain ⟨hslots, -, -⟩ := perform_frame hexec hk
    obtain ⟨hmaker, hrest⟩ := serves_cons.mp hserves
    rw [flatMap_cons, foldlM_append, run_work_ok hk hmaker, ok_bind]
    exact ih hks (executing_record hexec hslots k ack) (by rwa [record_marketMaker k ack hslots])

theorem run_works_error {works : List Work} {w : World X} (hexec : w.state.executingPacket ≠ none)
    (hslot : w.state.marketMaker = some maker ∨ w.state.marketMaker = none)
    (hserves : ¬ Serves maker w.state.marketMaker (works.countP isRelayer)) :
    ∃ e, (works.flatMap response).foldlM (runSub out env (fuel + 2)) w = .error e := by
  induction works generalizing w with
  | nil => exact absurd (.inl rfl) hserves
  | cons k ks ih =>
    rw [serves_cons] at hserves
    rw [flatMap_cons, foldlM_append]
    by_cases hmaker : k.isRelayer = true → w.state.marketMaker = some maker
    · rcases @run_work fuel X out env maker w k hexec hmaker with ⟨⟨e, he⟩, -⟩ | ⟨w₁, ack, hrun, hslots, -⟩
      · exact ⟨e, by rw [he]; rfl⟩
      · have hm := record_marketMaker k ack hslots
        rw [hrun, ok_bind]
        refine ih (executing_record hexec hslots k ack) ?_ ?_
        · dsimp only
          rw [hm]
          split
          · exact .inr rfl
          · exact hslot
        · dsimp only
          rw [hm]
          exact fun hrest => hserves ⟨hmaker, hrest⟩
    · -- the slot was emptied by an earlier fill
      obtain ⟨hr, hne⟩ := Classical.not_imp.mp hmaker
      cases k with
      | relayer calls =>
        obtain ⟨e, he⟩ := @runSub_relayerFill_error fuel X out env w calls (hslot.resolve_left hne)
        refine ⟨e, ?_⟩
        simp only [response, foldlM_cons, foldlM_nil, he]
        rfl
      | _ => cases hr

end Works

/-! ## The transaction that receives a batch -/

theorem checkAcks_eq_ok {u : Unit} :
    checkAcks acks = .ok u ↔ ∀ a ∈ acks, a.isEmpty = false ∧ a.isOnlyMaker = false := by
  induction acks with
  | nil => simp [checkAcks]
  | cons a acks ih =>
    simp only [checkAcks, forall_mem_cons, ← ih]
    cases a.isEmpty <;> cases a.isOnlyMaker <;> simp

section Receive

variable {X : Type} {out : Outside X} {env : Env} {info : MessageInfo} {x : Execution} {w : World X}

theorem transact_message (hidle : Idle w.state) (hhost : info.sender = w.state.config.ibcHost)
    (hcaller : env.validAddr x.caller = true) (hrelayer : env.validAddr x.relayer = true) :
    transact out env info x.message w = runSub out env NESTING
        { w with state := { w.state with executingPacket := some x.packet }, log := [] }
        ⟨.internalExecutePacket x.caller x.packet x.relayer x.relayerMsg x.intent info.funds,
          some (.always, .execute)⟩ := by
  have hnone : w.state.executingPacket = none := congrArg Slots.executingPacket hidle
  have hexec : execute env info x.message w.state = .ok ({ w.state with executingPacket := some x.packet },
        [⟨.internalExecutePacket x.caller x.packet x.relayer x.relayerMsg x.intent info.funds,
          some (.always, .execute)⟩]) := by
    unfold Execution.message
    cases hi : x.intent <;>
      simp [execute, require, ensure, hhost, dispatchExecutePacket, addrValidate, hcaller, hrelayer, hnone]
  simp only [transact, hexec, ok_bind, runAll, foldlM_cons, foldlM_nil]
  exact bind_pure _

theorem executePacket_batch {salt : U256} {funds : List Coin} {s₁ : State} {funds₁ : Coins}
    (hdata : x.packet.data = .zkgm ⟨salt, x.path, batchOf leaves⟩)
    (h : Walks env x leaves { s with executingPacketIsBatch := some leaves.length } (Coins.ofList funds)
      works s₁ funds₁) : executePacket env x.caller x.packet x.relayer x.relayerMsg x.intent funds s =
      .ok (s₁.endWalk, works.flatMap response) := by
  simp only [executePacket, hdata, executeInternal_batchOf, h.executeBatch_eq, ok_bind]
  rfl

theorem runReply_batch {p : Packet} {d : ReplyData} {bs : Option (List AckData)} {m : Option Bytes}
    {y : X} (hwrite : out.writeAcknowledgement w.ext p (.success (.batchAck acks)) = some y)
    (hlog : w.log = []) (hslots : w.state.slots = ⟨some p, some n, none, bs, m⟩) :
    (∃ w', runReply env (runSub out env (fuel + 1)) w .execute (some d) = .ok w' ∧
        w'.log = [.acked p (.success (.batchAck acks))]) ↔
      bs = some acks ∧ acks.length = n ∧ ∀ a ∈ acks, a.isEmpty = false ∧ a.isOnlyMaker = false := by
  have h := hslots
  simp only [State.slots, Slots.mk.injEq] at h
  obtain ⟨h₁, h₂, -, h₄, -⟩ := h
  simp only [runReply, reply, replyExecute, h₁, okOr, orErr, ok_bind, collectAck, h₂, h₄]
  cases bs with
  | none => simp
  | some l =>
    simp only [ok_bind, bind_eq_ok, require_eq_ok, checkAcks_eq_ok, pure_eq_ok, Option.some.injEq]
    constructor
    · rintro ⟨w', ⟨⟨s, ms⟩, ⟨⟨s', ack⟩, ⟨_, hlen, _, hcheck, hack⟩, hs⟩, hrun⟩, hlog'⟩
      cases hack
      cases hs
      obtain ⟨y', -, rfl⟩ := run_writeAcknowledgement hrun
      rw [hlog] at hlog'
      simp only [Acknowledgement.success, nil_append, List.cons.injEq, HostEvent.acked.injEq,
        Acknowledgement.ack.injEq, AckData.batchAck.injEq, true_and, and_true] at hlog'
      subst hlog'
      exact ⟨rfl, hlen, hcheck⟩
    · rintro ⟨rfl, hlen, hcheck⟩
      let s' : State :=
        { w.state with
          executingPacket := none, executingPacketIsBatch := none, batchExecutionAcks := none }
      refine ⟨⟨s', y, w.log ++ [.acked p (.success (.batchAck l))]⟩,
        ⟨⟨_, _⟩, ⟨⟨_, _⟩, ⟨(), hlen, (), hcheck, rfl⟩, rfl⟩, ?_⟩, ?_⟩
      · simp only [foldlM_cons, foldlM_nil]
        rw [runSub_writeAcknowledgement (w := { w with state := s' }) hwrite]
        rfl
      · simp [hlog]

theorem log_of_failure {w' : World X} {p : Packet} (hexec : Executing p w.state) (hlog : w.log = [])
    (h : runReply env (runSub out env fuel) w .execute none = .ok w') : w'.log = [.acked p .failure] := by
  have hp : w.state.executingPacket = some p := congrArg Slots.executingPacket hexec
  simp only [runReply, reply, replyExecute, hp, okOr, orErr, ok_bind, bind_eq_ok, pure_eq_ok] at h
  obtain ⟨r, hr, h⟩ := h
  cases hr
  obtain ⟨y, -, rfl⟩ := run_writeAcknowledgement h
  simp only [hlog]
  rfl

/-- **A batch that succeeds is acknowledged instruction by instruction iff it is not empty and at most one
    order is left to the relayer.** -/
theorem acknowledged_iff {salt : U256} (hidle : Idle w.state)
    (hhost : info.sender = w.state.config.ibcHost) (hcaller : env.validAddr x.caller = true)
    (hrelayer : env.validAddr x.relayer = true)
    (hdata : x.packet.data = .zkgm ⟨salt, x.path, batchOf leaves⟩) {w₁ : World X} {y : X}
    (hwrite : out.writeAcknowledgement w₁.ext x.packet (.success (.batchAck acks)) = some y)
    (hs : BatchSucceeds out env x info.funds leaves w w₁ acks) : acks.length = leaves.length ∧
      ((∃ w', transact out env info x.message w = .ok w' ∧
          w'.log = [.acked x.packet (.success (.batchAck acks))]) ↔
        0 < leaves.length ∧
          relayerFills env x leaves (w.state.beginBatch x.packet leaves.length)
            (Coins.ofList info.funds) ≤ 1) := by
  obtain ⟨works, s₁, funds₁, hwalk, hperf⟩ := hs
  rw [transact_message hidle hhost hcaller hrelayer, hwalk.relayerFills_eq]
  have hexec : Executing x.packet { w.state with executingPacket := some x.packet } := by
    have hslots : w.state.slots = _ := hidle
    simp only [Executing, State.slots, Slots.mk.injEq] at hslots ⊢
    exact ⟨trivial, hslots.2⟩
  -- the slots when the messages begin to run
  have hslots : s₁.endWalk.slots = ⟨some x.packet, some leaves.length, none, none,
      if works.any isRelayer then some x.relayerMsg else none⟩ := by
    have hbegin : (w.state.beginBatch x.packet leaves.length).slots =
        ⟨some x.packet, some leaves.length, none, none, none⟩ := by
      have hslots : w.state.slots = _ := hidle
      simp only [State.beginBatch, State.slots, Slots.mk.injEq] at hslots ⊢
      exact ⟨trivial, trivial, hslots.2.2⟩
    have hw := hwalk.frame
    rw [hbegin] at hw
    refine Eq.trans (b := s₁.slots) rfl (hw.trans ?_)
    cases works.any isRelayer <;> rfl
  obtain ⟨hlog, hlen, hne, m', hslots'⟩ := performAll_frame hperf hslots
  have hlen' : acks.length = leaves.length := hlen.trans hwalk.length_eq
  refine ⟨hlen', ?_⟩
  have hmsg : ∀ run : World X → SubMsg → Result (World X), runMsg out env run
      { w with state := { w.state with executingPacket := some x.packet }, log := [] }
      (.internalExecutePacket x.caller x.packet x.relayer x.relayerMsg x.intent info.funds) = (do
        let w ← (works.flatMap response).foldlM run { w with state := s₁.endWalk, log := [] }
        pure (w, .none)) := by
    intro run
    simp only [runMsg, selfMsg, execute, require, ensure, if_true, ok_bind,
      executePacket_batch (s := { w.state with executingPacket := some x.packet }) hdata hwalk]
  by_cases hcount : works.countP isRelayer ≤ 1
  · have hrun : (works.flatMap response).foldlM (runSub out env 3)
        { w with state := s₁.endWalk, log := [] } = .ok w₁ := by
      refine run_works_ok hperf (executing_of_slots hslots) ?_
      by_cases hany : works.any isRelayer = true
      · have hpos : 0 < works.countP isRelayer := List.countP_pos_iff.mpr (by simpa using hany)
        rw [if_pos hany] at hslots
        exact .inr ⟨by omega, congrArg Slots.marketMaker hslots⟩
      · exact .inl (List.countP_eq_zero.mpr (by simpa using hany))
    have hstep := hmsg (runSub out env 3)
    rw [hrun] at hstep
    rw [NESTING, runSub_ok hstep, runReply_batch hwrite hlog hslots']
    constructor
    · rintro ⟨hbs, -, -⟩
      refine ⟨?_, hcount⟩
      rw [← hlen']
      cases acks with
      | nil => cases hbs
      | cons a acks => exact Nat.succ_pos _
    · rintro ⟨hpos, -⟩
      refine ⟨?_, hlen', hne⟩
      cases acks with
      | nil =>
        rw [← hlen'] at hpos
        cases hpos
      | cons a acks => exact foldl_addAck acks [a]
  · -- the second relayer fill fails, and the packet with it
    obtain ⟨e, hrun⟩ : ∃ e, (works.flatMap response).foldlM (runSub out env 3)
        { w with state := s₁.endWalk, log := [] } = .error e := by
      have hany : works.any isRelayer = true := by
        have hpos : 0 < works.countP isRelayer := by omega
        simpa using List.countP_pos_iff.mp hpos
      rw [if_pos hany] at hslots
      refine run_works_error (executing_of_slots hslots) (.inl (congrArg Slots.marketMaker hslots)) ?_
      rintro (hzero | ⟨hone, -⟩) <;> omega
    have hstep := hmsg (runSub out env 3)
    rw [hrun] at hstep
    rw [NESTING, runSub_error hstep]
    constructor
    · rintro ⟨w', hw', hlog'⟩
      rw [log_of_failure hexec rfl hw'] at hlog'
      cases hlog'
    · rintro ⟨-, hle⟩
      exact absurd hle hcount

end Receive

/-! ## The acknowledgement on the chain that sent the batch -/

def Failure.isPanic : Failure → Prop
  | .panic _ => True
  | _ => False

section NoPanic

variable {env : Env} {α : Type}

theorem okOr_noPanic (o : Option α) (e : ContractError) : Avoids Failure.isPanic (okOr o e) :=
    .orErr fun _ h => h

theorem require_noPanic (p : Prop) [Decidable p] (e : ContractError) : Avoids Failure.isPanic (require p e) :=
  .ensure fun _ h => h

theorem validateAddr_noPanic (b : Bytes) (e e' : ContractError) :
    Avoids Failure.isPanic (validateAddr env b e e') := by
  unfold validateAddr
  exact (okOr_noPanic _ _).bind fun s _ => (require_noPanic _ _).bind fun _ _ => .pure s

theorem toU128_noPanic (n : Nat) : Avoids Failure.isPanic (toU128 n) := by
  unfold toU128
  split
  · exact .ok _
  · exact .error id

theorem decreaseChannelBalanceV2_noPanic (s : State) (c : ChannelId) (p : U256) (b : String)
    (q : Bytes) (n : Nat) : Avoids Failure.isPanic (decreaseChannelBalanceV2 s c p b q n) := by
  unfold decreaseChannelBalanceV2
  split
  · split
    · exact .ok _
    · exact .error id
  · exact .error id

theorem acknowledgeTokenOrderV1_noPanic (packet : Packet) (path : U256) (o : TokenOrderV1)
    (fillType : U256) (maker : Bytes) (s : State) :
    Avoids Failure.isPanic (acknowledgeTokenOrderV1 env packet path o (some (fillType, maker)) s) := by
  simp only [acknowledgeTokenOrderV1]
  split
  · exact .ok _
  split
  · refine (validateAddr_noPanic _ _ _).bind fun mm _ => (okOr_noPanic _ _).bind fun base _ =>
      (toU128_noPanic _).bind fun amount _ => ?_
    split
    · exact .pure _
    · exact (decreaseChannelBalanceV2_noPanic _ _ _ _ _ _).bind fun _ _ => .pure _
  · exact .error id

theorem acknowledgeTokenOrderV2_noPanic (packet : Packet) (path : U256) (o : TokenOrderV2)
    (fillType : U256) (maker : Bytes) (s : State) :
    Avoids Failure.isPanic (acknowledgeTokenOrderV2 env packet path o (some (fillType, maker)) s) := by
  simp only [acknowledgeTokenOrderV2]
  split
  · exact .ok _
  split
  · refine (okOr_noPanic _ _).bind fun base _ => (toU128_noPanic _).bind fun amount _ => ?_
    split
    · split
      · exact (validateAddr_noPanic _ _ _).bind fun _ _ => .pure _
      · refine (decreaseChannelBalanceV2_noPanic _ _ _ _ _ _).bind fun s' _ =>
          (okOr_noPanic _ _).bind fun burn _ => ?_
        split
        · exact .pure _
        · exact (validateAddr_noPanic _ _ _).bind fun _ _ => .pure _
    · exact .pure _
  · exact .error id

theorem Leaf.acknowledge_noPanic (l : Leaf) (caller relayer : Addr) (packet : Packet) (path : U256)
    (ack : AckData) (s : State) :
    Avoids Failure.isPanic (l.acknowledge env caller packet relayer path true ack s) := by
  cases l with
  | order o =>
    cases ack with
    | tokenOrderAck fillType maker =>
      cases o with
      | v1 o => exact acknowledgeTokenOrderV1_noPanic packet path o fillType maker s
      | v2 o => exact acknowledgeTokenOrderV2_noPanic packet path o fillType maker s
    | _ => exact .error id
  | call c =>
    simp only [Leaf.acknowledge, acknowledgeCall]
    split
    · exact (validateAddr_noPanic _ _ _).bind fun _ _ => .pure _
    · exact .ok _

/-- **With an acknowledgement for every instruction none is indexed past the list.** -/
theorem acknowledgeBatch_noPanic (caller relayer : Addr) (packet : Packet) (path : U256) :
    ∀ (leaves : List Leaf) (acks : List AckData) (s : State), leaves.length ≤ acks.length →
      Avoids Failure.isPanic (acknowledgeBatch env caller packet relayer path
        (leaves.map Leaf.toInstruction) true (some acks) s)
  | [], acks, s, _ => .ok _
  | l :: leaves, [], s, h => by cases h
  | l :: leaves, ack :: acks, s, h => by
    simp only [map_cons, acknowledgeBatch_cons, nextAck, ok_bind]
    refine (Leaf.acknowledge_noPanic l caller relayer packet path ack s).bind fun r _ => ?_
    have hrest := acknowledgeBatch_noPanic caller relayer packet path leaves acks r.1 (by simpa using h)
    exact hrest.bind fun _ _ => .pure _

end NoPanic

/-- **In every run: a received batch whose instructions all succeed is acknowledged instruction by
    instruction iff it is not empty and at most one order is left to the relayer.** -/
theorem batch_acknowledged_iff {X : Type} {out : Outside X} {config : Config} {minter : Addr}
    {y : X} {txs : List Tx} {w : World X} {env : Env} {info : MessageInfo} {x : Execution}
    {salt : U256} {leaves : List Leaf} {acks : List AckData} {w₁ : World X} {z : X}
    (htxs : ∀ tx ∈ txs, tx.info.sender ≠ tx.env.contractAddress)
    (hw : w = Machine.run (step out) ⟨State.init config minter, y, []⟩ txs)
    (hhost : info.sender = w.state.config.ibcHost) (hcaller : env.validAddr x.caller = true)
    (hrelayer : env.validAddr x.relayer = true)
    (hdata : x.packet.data = .zkgm ⟨salt, x.path, batchOf leaves⟩)
    (hwrite : out.writeAcknowledgement w₁.ext x.packet (.success (.batchAck acks)) = some z)
    (hs : BatchSucceeds out env x info.funds leaves w w₁ acks) :
    acks.length = leaves.length ∧
      ((∃ w', transact out env info x.message w = .ok w' ∧
          w'.log = [.acked x.packet (.success (.batchAck acks))]) ↔
        0 < leaves.length ∧
          relayerFills env x leaves (w.state.beginBatch x.packet leaves.length)
            (Coins.ofList info.funds) ≤ 1) ∧
      ∀ (env' : Env) (caller relayer : Addr) (packet : Packet) (path : U256) (s : State),
        Avoids Failure.isPanic (acknowledgeInternal env' caller packet relayer path (batchOf leaves) true
          (.batchAck acks) s) := by
  have hidle : Idle w.state := by
    rw [hw]
    exact run_idle out rfl htxs
  obtain ⟨hlen, hiff⟩ := acknowledged_iff hidle hhost hcaller hrelayer hdata hwrite hs
  refine ⟨hlen, hiff, ?_⟩
  intro env' caller relayer packet path s
  rw [acknowledgeInternal_batchOf]
  exact acknowledgeBatch_noPanic caller relayer packet path leaves acks s (le_of_eq hlen.symm)

/-! ## Batches that are not acknowledged -/

/-- An order for a token of another name, which only a market maker can fill. -/
def makerOrder : Order := .v2 { sampleOrder with quoteToken := utf8 "uosmo" }

/-- A batch of these leaves, brought by a relayer. -/
def sampleExecution (leaves : List Leaf) : Execution :=
  ⟨"relayer", samplePacket (batchOf leaves), "relayer", utf8 "maker", 0, false⟩

def idealWorld : World Unit := ⟨State.fresh, (), []⟩

/-- **An empty batch succeeds and is not acknowledged; a batch of two orders that the relayer pays for
    succeeds and is acknowledged as failed.** -/
theorem batches_not_acknowledged :
    ((∃ w₁, BatchSucceeds Outside.ideal Env.ideal (sampleExecution []) [] [] idealWorld w₁ []) ∧
      transact Outside.ideal Env.ideal ⟨"ibc", []⟩ (sampleExecution []).message idealWorld =
        .error (.err .std)) ∧
    ((∃ w₁, BatchSucceeds Outside.ideal Env.ideal (sampleExecution [.order makerOrder, .order makerOrder]) []
        [.order makerOrder, .order makerOrder] idealWorld w₁
        [makerAck (utf8 "maker"), makerAck (utf8 "maker")]) ∧
      ∃ w', transact Outside.ideal Env.ideal ⟨"ibc", []⟩
          (sampleExecution [.order makerOrder, .order makerOrder]).message idealWorld = .ok w' ∧
        w'.log = [.acked (samplePacket (batchOf [.order makerOrder, .order makerOrder])) .failure]) := by
  refine ⟨⟨⟨_, [], _, _, .nil _ _, rfl⟩, rfl⟩, ?_, _, rfl, rfl⟩
  exact ⟨_, [.relayer _, .relayer _], _, _, .cons rfl ⟨rfl, rfl, rfl⟩
    (.cons rfl ⟨rfl, rfl, rfl⟩ (.nil _ _)), rfl⟩

/-- A call of a contract that answers. -/
def sampleCall : Call := ⟨utf8 "alice", true, utf8 "target", []⟩

/-- A batch of an order that the relayer pays for and of a call is acknowledged with both answers. -/
theorem batch_of_order_and_call_acknowledged : ∃ w', transact Outside.ideal Env.ideal ⟨"ibc", []⟩
        (sampleExecution [.order makerOrder, .call sampleCall]).message idealWorld = .ok w' ∧
      w'.log = [.acked (samplePacket (batchOf [.order makerOrder, .call sampleCall]))
        (.success (.batchAck [makerAck (utf8 "maker"), .raw [0x0a, 1, 1]]))] := by
  obtain ⟨w₁, hs⟩ : ∃ w₁, BatchSucceeds Outside.ideal Env.ideal
      (sampleExecution [.order makerOrder, .call sampleCall]) []
      [.order makerOrder, .call sampleCall] idealWorld w₁ [makerAck (utf8 "maker"), .raw [0x0a, 1, 1]] :=
    ⟨_, [.relayer _, .eureka [] _ _], _, _, .cons rfl ⟨rfl, rfl, rfl⟩
      (.cons rfl ⟨rfl, rfl, rfl⟩ (.nil _ _)), rfl⟩
  have h := @batch_acknowledged_iff Unit Outside.ideal State.fresh.config "minter" () [] idealWorld
    Env.ideal ⟨"ibc", []⟩ (sampleExecution [.order makerOrder, .call sampleCall]) 7
    [.order makerOrder, .call sampleCall] _ w₁ () (by simp) rfl rfl rfl rfl rfl rfl hs
  refine h.2.1.mpr ⟨by decide, ?_⟩
  exact le_of_eq rfl

end UnionVoyager.Zkgm
