import UnionVoyager.Zkgm.MakerFill

/-!
# Orders for a market maker

A relayer who cannot pay for an order is to be refused, so that another one gets a chance; a failure
acknowledgement would refund the order at its origin instead.
-/

namespace UnionVoyager.Zkgm

open Lib
open Core (ChannelId Addr Coin)

/-! ## The transaction -/

section Receive

variable {X : Type} {env : Env} {info : MessageInfo} {x : Execution}

/-- The packet is refused, for another market maker to bring it; or every order is filled: the
    acknowledgement names a market maker for each, and for every order without a solver the caller
    paid the receiver the quote amount. -/
def MakerOutcome (out : Outside X) (env : Env) (info : MessageInfo) (x : Execution)
    (orders : List Order) (w : World (X × List MinterCall)) : Prop :=
  transact out.recorded env info x.message w = .error (.err .onlyMaker) ∨
  ∃ w' makers, transact out.recorded env info x.message w = .ok w' ∧ makers.length = orders.length ∧
    (w'.log = [.acked x.packet (.success (.batchAck (makers.map makerAck)))] ∨
      ∃ m, makers = [m] ∧ w'.log = [.acked x.packet (.success (makerAck m))]) ∧
    ∃ paid : List (Order × List MinterCall), paid.map Prod.fst = orders.filter (fun o => !o.solves) ∧
      (∀ q ∈ paid, PaidFor w.state.tokenMinter x.caller q.1 q.2) ∧
      w'.ext.2 = w.ext.2 ++ paid.flatMap Prod.snd

theorem executeInternal_of_holds {i : Instruction} {orders : List Order} {salt : U256} {s : State}
    {funds : Coins} (hi : i.Holds (orders.map Leaf.order)) (hs : s.executingPacketIsBatch = none) :
    ∃ b, (b = some orders.length ∨ b = none ∧ orders.length = 1) ∧
      executeInternal env x salt i s funds =
        executeBatch env x salt 0 (orderInstructions orders) { s with executingPacketIsBatch := b }
          funds := by
  rcases hi with rfl | ⟨l, hl, rfl⟩
  · refine ⟨some orders.length, .inl rfl, ?_⟩
    rw [executeInternal_batchOf, List.length_map]
    rfl
  · obtain ⟨o, rfl, rfl⟩ : ∃ o, orders = [o] ∧ l = .order o := by
      cases orders with
      | nil => cases hl
      | cons o orders =>
        cases orders with
        | nil =>
          cases hl
          exact ⟨o, rfl, rfl⟩
        | cons o' orders => cases hl
    refine ⟨none, .inr ⟨rfl, rfl⟩, ?_⟩
    rw [← hs, executeInternal_leaf, executeBatch_order]
    show o.execute env x s funds = _
    cases o.execute env x s funds with
    | error e => rfl
    | ok r =>
      obtain ⟨s', funds', r⟩ := r
      simp [orderInstructions, executeBatch, pure, Except.pure]

theorem checkAcks_onlyMaker : ∀ {acks : List AckData}, (∀ a ∈ acks, a.isEmpty = false) →
    (∃ a ∈ acks, a.isOnlyMaker = true) → checkAcks acks = .error (.err .onlyMaker)
  | [], _, h => by simp at h
  | a :: acks, hne, h => by
    have ha : a.isEmpty = false := hne a (List.mem_cons_self ..)
    simp only [checkAcks, ha, Bool.false_eq_true, if_false]
    by_cases hm : a.isOnlyMaker = true
    · rw [if_pos hm]
    · rw [if_neg hm]
      refine checkAcks_onlyMaker (fun a' ha' => hne a' (List.mem_cons_of_mem _ ha')) ?_
      obtain ⟨a', ha', hm'⟩ := h
      rcases List.mem_cons.mp ha' with rfl | ha'
      · exact absurd hm' hm
      · exact ⟨a', ha', hm'⟩

/-- **What is collected from the acknowledgements of market makers.** -/
theorem collectAck_maker {s : State} {b : Option Nat} {acks : List AckData}
    (hb : b = some acks.length ∧ acks ≠ [] ∨ b = none ∧ acks.length = 1)
    (hbatch : s.executingPacketIsBatch = b)
    (hnoted : (b ≠ none → s.batchExecutionAcks = acks.foldl addAck none) ∧
      (b = none → s.executionAck = acks.head?))
    (hacks : ∀ a ∈ acks, (∃ m, a = makerAck m) ∨ a = .raw ACK_ERR_ONLY_MAKER) :
    ((∀ a ∈ acks, ∃ m, a = makerAck m) ∧ ∃ s' ack, collectAck s = .ok (s', ack) ∧
      ack.isEmpty = false ∧ (b ≠ none ∧ ack = .batchAck acks ∨ acks = [ack])) ∨
    collectAck s = .error (.err .onlyMaker) := by
  have hne : ∀ a ∈ acks, a.isEmpty = false := by
    intro a ha
    rcases hacks a ha with ⟨m, rfl⟩ | rfl <;> rfl
  rcases hb with ⟨rfl, hnil⟩ | ⟨rfl, hlen⟩
  · have hsome : s.batchExecutionAcks = some acks := by
      rw [hnoted.1 (by simp)]
      cases acks with
      | nil => exact absurd rfl hnil
      | cons a acks => exact foldl_addAck acks [a]
    by_cases honly : ∃ a ∈ acks, a = .raw ACK_ERR_ONLY_MAKER
    · right
      obtain ⟨a, ha, rfl⟩ := honly
      have hcheck := checkAcks_onlyMaker hne ⟨_, ha, rfl⟩
      simp only [collectAck, hbatch, hsome, okOr, orErr, ok_bind, require, ensure, if_true, hcheck]
      rfl
    · have hall : ∀ a ∈ acks, ∃ m, a = makerAck m := fun a ha =>
        (hacks a ha).resolve_right fun hm => honly ⟨a, ha, hm⟩
      have hcheck : checkAcks acks = .ok () := by
        refine checkAcks_eq_ok.mpr fun a ha => ⟨hne a ha, ?_⟩
        obtain ⟨m, rfl⟩ := hall a ha
        rfl
      refine .inl ⟨hall, { s with executingPacketIsBatch := none, batchExecutionAcks := none },
        .batchAck acks, ?_, rfl, .inl ⟨by simp, rfl⟩⟩
      simp only [collectAck, hbatch, hsome, okOr, orErr, ok_bind, require, ensure, if_true, hcheck]
      rfl
  · obtain ⟨a, rfl⟩ := List.length_eq_one_iff.mp hlen
    have hsome : s.executionAck = some a := hnoted.2 rfl
    rcases hacks a (List.mem_singleton_self a) with ⟨m, rfl⟩ | rfl
    · refine .inl ⟨fun a ha => ⟨m, List.mem_singleton.mp ha⟩, { s with executionAck := none },
        makerAck m, ?_, rfl, .inr rfl⟩
      simp only [collectAck, hbatch, hsome, okOr, orErr, ok_bind]
      rfl
    · right
      simp only [collectAck, hbatch, hsome, okOr, orErr, ok_bind]
      rfl

theorem slots_noted {s : State} {p : Option Packet} {b : Option Nat} {acks : List AckData}
    {m m' : Option Bytes} (hb : b = none → acks.length = 1)
    (h : s.slots = { acks.foldl Slots.note ⟨p, b, none, none, m⟩ with marketMaker := m' }) :
    s.executingPacket = p ∧ s.executingPacketIsBatch = b ∧
      (b ≠ none → s.batchExecutionAcks = acks.foldl addAck none) ∧
      (b = none → s.executionAck = acks.head?) := by
  cases b with
  | some n =>
    rw [Slots.foldl_note_batch] at h
    simp only [State.slots, Slots.mk.injEq] at h
    exact ⟨h.1, h.2.1, fun _ => h.2.2.2.1, fun hn => (by cases hn)⟩
  | none =>
    obtain ⟨a, rfl⟩ := List.length_eq_one_iff.mp (hb rfl)
    simp only [List.foldl_cons, List.foldl_nil, Slots.note, State.slots, Slots.mk.injEq] at h
    exact ⟨h.1, h.2.1, fun hn => absurd rfl hn, fun _ => h.2.2.1⟩

/-- At most one order is left to the relayer, and the coins are affordable for it. -/
def OneAffordable (funds : Coins) (orders : List Order) : Prop :=
  orders.countP (fun o => !o.solves) ≤ 1 ∧ ∀ o ∈ orders, o.solves = false → Affordable funds o

/-- The storage in which the orders of a packet are walked. -/
def State.beginOrders (s : State) (p : Packet) (b : Option Nat) : State :=
  { s with executingPacket := some p, executingPacketIsBatch := b }

theorem executePacket_orders {s : State} {salt : U256} {i : Instruction} {orders : List Order}
    (hb : s.executingPacketIsBatch = none) (hdata : x.packet.data = .zkgm ⟨salt, x.path, i⟩)
    (hi : i.Holds (orders.map Leaf.order)) :
    ∃ b, (b = some orders.length ∨ b = none ∧ orders.length = 1) ∧
      executePacket env x.caller x.packet x.relayer x.relayerMsg x.intent info.funds (s.begin x.packet) = (do
        let (s, _, messages) ← executeBatch env x salt 0 (orderInstructions orders)
          (s.beginOrders x.packet b) (Coins.ofList info.funds)
        pure (s.endWalk, messages)) := by
  obtain ⟨b, hb, hinternal⟩ := @executeInternal_of_holds env x i orders salt (s.begin x.packet)
    (Coins.ofList info.funds) hi hb
  refine ⟨b, hb, ?_⟩
  have hwalk : executeInternal env ⟨x.caller, x.packet, x.relayer, x.relayerMsg, x.path, x.intent⟩ salt i
      (s.begin x.packet) (Coins.ofList info.funds) =
      executeBatch env x salt 0 (orderInstructions orders) (s.beginOrders x.packet b)
        (Coins.ofList info.funds) := hinternal
  simp only [executePacket, hdata, hwalk]
  rfl

theorem runMsg_executed {Y : Type} {out : Outside Y} {w : World Y}
    {run : World Y → SubMsg → Result (World Y)} :
    runMsg out env run { w with state := w.state.begin x.packet, log := [] }
      (.internalExecutePacket x.caller x.packet x.relayer x.relayerMsg x.intent info.funds) = (do
        let (s, messages) ← executePacket env x.caller x.packet x.relayer x.relayerMsg x.intent info.funds
          (w.state.begin x.packet)
        let w ← messages.foldlM run { w with state := s, log := [] }
        pure (w, .none)) := by
  simp only [runMsg, selfMsg, execute, require, ensure, if_true, ok_bind]

theorem slots_of_walk {s s₁ : State} {p : Packet} {b : Option Nat} {orders : List Order} {maker : Bytes}
    (hidle : Idle s) (h : s₁ = if orders.all Order.solves then s.beginOrders p b
      else { s.beginOrders p b with marketMaker := some maker }) :
    s₁.endWalk.slots = ⟨some p, b, none, none, s₁.endWalk.marketMaker⟩ ∧
      s₁.endWalk.marketMaker = if orders.all Order.solves then none else some maker := by
  have hslots : s.slots = _ := hidle
  simp only [State.slots, Slots.mk.injEq] at hslots
  obtain ⟨-, -, he, hbs, hm⟩ := hslots
  subst h
  cases orders.all Order.solves <;> simp [State.endWalk, State.slots, State.beginOrders, he, hbs, hm]

theorem exists_makers {acks : List AckData} (h : ∀ a ∈ acks, ∃ m, a = makerAck m) :
    ∃ makers : List Bytes, acks = makers.map makerAck := by
  induction acks with
  | nil => exact ⟨[], rfl⟩
  | cons a acks ih =>
    obtain ⟨m, rfl⟩ := h a (List.mem_cons_self ..)
    obtain ⟨makers, rfl⟩ := ih fun a ha => h a (List.mem_cons_of_mem _ ha)
    exact ⟨m :: makers, rfl⟩

theorem runReply_collected {Y : Type} {out : Outside Y} {w : World Y} {fuel : Nat} {p : Packet}
    {d : ReplyData} {s : State} {ack : AckData} {y : Y} (hp : w.state.executingPacket = some p)
    (hcollect : collectAck { w.state with executingPacket := none } = .ok (s, ack))
    (hempty : ack.isEmpty = false) (hy : out.writeAcknowledgement w.ext p (.success ack) = some y) :
    runReply env (runSub out env (fuel + 1)) w .execute (some d) =
      .ok ⟨s, y, w.log ++ [.acked p (.success ack)]⟩ := by
  simp only [runReply, reply, replyExecute, hp, okOr, orErr, ok_bind, hcollect, hempty,
    Bool.false_eq_true, if_false, pure_bind, List.foldlM_cons, List.foldlM_nil]
  rw [runSub_writeAcknowledgement (w := { w with state := s }) hy]
  rfl

section Outcome

variable {out : Outside X} {salt : U256} {i : Instruction} {orders : List Order}
  {w : World (X × List MinterCall)} (hidle : Idle w.state) (hhost : info.sender = w.state.config.ibcHost)
  (hcaller : env.validAddr x.caller = true) (hrelayer : env.validAddr x.relayer = true)
  (hdata : x.packet.data = .zkgm ⟨salt, x.path, i⟩) (hi : i.Holds (orders.map Leaf.order))
  (hmaker : ∀ o ∈ orders, o.MakerOnly env x w.state)

include hidle hhost hcaller hrelayer hdata hi hmaker

/-- **With one affordable order the messages run, and only the acknowledgements decide.** -/
theorem makerOutcome_of_affordable (hne : orders ≠ [])
    (hwrite : ∀ w₁ messages ack, x.Ran out.recorded env info w w₁ messages →
      ∃ y, out.writeAcknowledgement w₁.ext.1 x.packet (.success ack) = some y)
    (h : OneAffordable (Coins.ofList info.funds) orders) : MakerOutcome out env info x orders w := by
  obtain ⟨hcount, hafford⟩ := h
  obtain ⟨b, hb, hexec⟩ := @executePacket_orders env info x w.state salt i orders
    (congrArg Slots.executingPacketIsBatch hidle) hdata hi
  -- the walk
  obtain ⟨⟨s₁, funds₁, r⟩, hwalk⟩ := (@executeBatch_maker_ok_iff env x w.state salt orders 0
    (w.state.beginOrders x.packet b) (Coins.ofList info.funds) hmaker rfl hcount).mpr hafford
  obtain ⟨⟨works, rfl, hworks⟩, hs₁⟩ := @executeBatch_makerWork env x w.state salt orders 0
    (w.state.beginOrders x.packet b) s₁ _ funds₁ r hmaker rfl hwalk
  obtain ⟨hslots, hm⟩ := slots_of_walk hidle hs₁
  -- the messages
  obtain ⟨w₁, acks, hrun, hlog, hlen, ⟨m, hslots₁⟩, hacks, hperf⟩ :=
    @run_makerWorks _ out.recorded env x.relayerMsg _ _ 1 orders works
      { w with state := s₁.endWalk, log := [] } hworks (executing_of_slots hslots) (by
        rw [countP_isRelayer hworks]
        by_cases hall : orders.all Order.solves = true
        · exact .inl (List.countP_eq_zero.mpr (by simpa using hall))
        · have hpos : 0 < orders.countP (fun o => !o.solves) := List.countP_pos_iff.mpr (by simpa using hall)
          exact .inr ⟨by omega, by simpa [hall] using hm⟩)
  have hlen' : b = none → acks.length = 1 := by
    intro hnone
    rw [hlen]
    rcases hb with rfl | ⟨-, h1⟩
    · cases hnone
    · exact h1
  rw [hslots] at hslots₁
  obtain ⟨hp₁, hb₁, hnoted⟩ := slots_noted hlen' hslots₁
  rw [hwalk] at hexec
  have hran : x.Ran out.recorded env info w w₁ (works.flatMap Work.response) := ⟨s₁.endWalk, hexec, hrun⟩
  have htransact : transact out.recorded env info x.message w =
      runReply env (runSub out.recorded env 3) w₁ .execute (some .none) := by
    refine (transact_message hidle hhost hcaller hrelayer).trans (runSub_ok ?_)
    refine runMsg_executed.trans ?_
    rw [hexec]
    exact congrArg (· >>= fun w => pure (w, ReplyData.none)) hrun
  -- the acknowledgement
  have hbacks : b = some acks.length ∧ acks ≠ [] ∨ b = none ∧ acks.length = 1 := by
    rw [hlen]
    rcases hb with rfl | ⟨rfl, h1⟩
    · refine .inl ⟨rfl, ?_⟩
      rintro rfl
      exact hne (List.length_eq_zero_iff.mp hlen.symm)
    · exact .inr ⟨rfl, h1⟩
  rcases @collectAck_maker { w₁.state with executingPacket := none } b acks hbacks hb₁ hnoted hacks with
    ⟨hmakers, s', ack, hcollect, hempty, hack⟩ | hcollect
  · obtain ⟨y, hy⟩ := hwrite w₁ _ ack hran
    have hy' : out.recorded.writeAcknowledgement w₁.ext x.packet (.success ack) = some (y, w₁.ext.2) := by
      simp [Outside.recorded, hy]
    obtain ⟨paid, hfst, hpaid, hext⟩ := performAll_paid hworks (hperf hmakers)
    obtain ⟨makers, rfl⟩ := exists_makers hmakers
    refine .inr ⟨_, makers, htransact.trans (runReply_collected hp₁ hcollect hempty hy'),
      by simpa using hlen, ?_, paid, hfst, hpaid, hext⟩
    have hlog₁ : w₁.log = [] := hlog
    rw [hlog₁]
    rcases hack with ⟨-, rfl⟩ | hack
    · exact .inl rfl
    · obtain ⟨m, rfl, rfl⟩ := List.map_eq_singleton_iff.mp hack
      exact .inr ⟨m, rfl, rfl⟩
  · left
    rw [htransact]
    simp only [runReply, reply, replyExecute, hp₁, okOr, orErr, ok_bind, hcollect]
    rfl

/-- **Otherwise the failure acknowledgement is written.** -/
theorem failure_of_not_affordable {y : X}
    (hfail : out.writeAcknowledgement w.ext.1 x.packet .failure = some y)
    (h : ¬ OneAffordable (Coins.ofList info.funds) orders) :
    ∃ w', transact out.recorded env info x.message w = .ok w' ∧ w'.log = [.acked x.packet .failure] := by
  obtain ⟨b, hb, hexec⟩ := @executePacket_orders env info x w.state salt i orders
    (congrArg Slots.executingPacketIsBatch hidle) hdata hi
  -- the walk or a payment fails
  have herror : ∃ e, runMsg out.recorded env (runSub out.recorded env 3)
      { w with state := w.state.begin x.packet, log := [] }
      (.internalExecutePacket x.caller x.packet x.relayer x.relayerMsg x.intent info.funds) = .error e := by
    rw [runMsg_executed, hexec]
    cases hwalk : executeBatch env x salt 0 (orderInstructions orders) (w.state.beginOrders x.packet b)
      (Coins.ofList info.funds) with
    | error e => exact ⟨e, rfl⟩
    | ok r =>
      obtain ⟨s₁, funds₁, r⟩ := r
      obtain ⟨⟨works, rfl, hworks⟩, hs₁⟩ := @executeBatch_makerWork env x w.state salt orders 0
        (w.state.beginOrders x.packet b) s₁ _ funds₁ r hmaker rfl hwalk
      have hcount : 2 ≤ orders.countP (fun o => !o.solves) := by
        by_contra hcount
        have hle : orders.countP (fun o => !o.solves) ≤ 1 := by omega
        exact h ⟨hle, (@executeBatch_maker_ok_iff env x w.state salt orders 0
          (w.state.beginOrders x.packet b) (Coins.ofList info.funds) hmaker rfl hle).mp ⟨_, hwalk⟩⟩
      obtain ⟨hslots, hm⟩ := slots_of_walk hidle hs₁
      have hall : ¬ orders.all Order.solves = true := by
        intro hall
        have hzero : orders.countP (fun o => !o.solves) = 0 := List.countP_eq_zero.mpr (by simpa using hall)
        omega
      rw [if_neg hall] at hm
      obtain ⟨e, he⟩ := @run_works_error 1 _ out.recorded env x.relayerMsg works
        { w with state := s₁.endWalk, log := [] } (executing_of_slots hslots) (.inl hm) (by
          rw [countP_isRelayer hworks]
          rintro (hzero | ⟨hone, -⟩) <;> omega)
      exact ⟨e, by simp only [ok_bind, pure_bind, he]; rfl⟩
  obtain ⟨e, he⟩ := herror
  have hy' : out.recorded.writeAcknowledgement w.ext x.packet .failure = some (y, w.ext.2) := by
    simp [Outside.recorded, hfail]
  refine ⟨⟨{ w.state with executingPacket := none }, (y, w.ext.2), [.acked x.packet .failure]⟩,
    ((transact_message hidle hhost hcaller hrelayer).trans (runSub_error he)).trans ?_, rfl⟩
  simp only [runReply, reply, replyExecute, okOr, orErr, ok_bind, pure_bind, List.foldlM_cons,
    List.foldlM_nil]
  rw [runSub_writeAcknowledgement (w := ⟨{ w.state with executingPacket := none }, w.ext, []⟩) hy']
  rfl

end Outcome

end Receive

/-- **In every run, whoever brings a packet of orders that only a market maker fills: it is refused
    with `OnlyMaker` or every order is filled, iff at most one order is left to the relayer and of
    its quote token no coin is attached, or enough.**  The packet holds nothing but such orders.
    The host accepts the acknowledgement of the packet it delivered, in the world in which the
    execution ends. -/
theorem makerOutcome_iff {X : Type} {out : Outside X} {config : Config} {minter : Addr}
    {y : X × List MinterCall} {txs : List Tx} {w : World (X × List MinterCall)} {env : Env}
    {info : MessageInfo} {x : Execution} {salt : U256} {i : Instruction} {orders : List Order}
    (htxs : ∀ tx ∈ txs, tx.info.sender ≠ tx.env.contractAddress)
    (hw : w = Machine.run (step out.recorded) ⟨State.init config minter, y, []⟩ txs)
    (hhost : info.sender = w.state.config.ibcHost) (hcaller : env.validAddr x.caller = true)
    (hrelayer : env.validAddr x.relayer = true) (hdata : x.packet.data = .zkgm ⟨salt, x.path, i⟩)
    (hi : i.Holds (orders.map Leaf.order)) (hne : orders ≠ [])
    (hwrite : ∀ w₁ messages ack, x.Ran out.recorded env info w w₁ messages →
      ∃ z, out.writeAcknowledgement w₁.ext.1 x.packet (.success ack) = some z)
    {z : X} (hfailure : out.writeAcknowledgement w.ext.1 x.packet .failure = some z)
    (hmaker : ∀ o ∈ orders, o.MakerOnly env x w.state) :
    (MakerOutcome out env info x orders w ↔ OneAffordable (Coins.ofList info.funds) orders) ∧
      (¬ OneAffordable (Coins.ofList info.funds) orders →
        ∃ w', transact out.recorded env info x.message w = .ok w' ∧
          w'.log = [.acked x.packet .failure]) := by
  have hidle : Idle w.state := by
    rw [hw]
    exact run_idle out.recorded rfl htxs
  have hfail : ¬ OneAffordable (Coins.ofList info.funds) orders →
      ∃ w', transact out.recorded env info x.message w = .ok w' ∧ w'.log = [.acked x.packet .failure] :=
    failure_of_not_affordable hidle hhost hcaller hrelayer hdata hi hmaker hfailure
  refine ⟨⟨?_, ?_⟩, hfail⟩
  · intro hout
    by_contra hnot
    obtain ⟨w', hrun, hlog⟩ := hfail hnot
    rcases hout with hrefused | ⟨w'', makers, hfilled, -, hack, -⟩
    · rw [hrun] at hrefused
      cases hrefused
    · rw [hrun] at hfilled
      cases hfilled
      rcases hack with hack | ⟨m, -, hack⟩
      · rw [hlog] at hack
        cases hack
      · rw [hlog] at hack
        cases hack
  · exact makerOutcome_of_affordable hidle hhost hcaller hrelayer hdata hi hmaker hne hwrite

/-- A packet of one order that only a market maker can fill. -/
def makerExecution : Execution :=
    ⟨"relayer", samplePacket makerOrder.toInstruction, "relayer", utf8 "maker", 0, false⟩

def recordedWorld : World (Unit × List MinterCall) := ⟨State.fresh, ((), []), []⟩

theorem makerOrder_makerOnly (x : Execution) : makerOrder.MakerOnly Env.ideal x State.fresh := by
  obtain ⟨caller, packet, relayer, relayerMsg, path, intent⟩ := x
  refine ⟨.inr ?_, fun _ => 0, ?_⟩
  · cases intent <;> rfl
  · cases intent <;> exact ⟨_, rfl⟩

/-- **One of the five coins, or two orders in a packet, and the failure is acknowledged**: the order is
    refunded at its origin although another market maker could have filled it. -/
theorem maker_orders_fail : (makerOrder.MakerOnly Env.ideal makerExecution State.fresh ∧
      (∃ w', transact Outside.ideal.recorded Env.ideal ⟨"ibc", [⟨"uosmo", 1⟩]⟩ makerExecution.message
          recordedWorld = .ok w' ∧ w'.log = [.acked makerExecution.packet .failure]) ∧
      ¬ MakerOutcome Outside.ideal Env.ideal ⟨"ibc", [⟨"uosmo", 1⟩]⟩ makerExecution [makerOrder]
        recordedWorld) ∧
    ∃ w', transact Outside.ideal.recorded Env.ideal ⟨"ibc", []⟩
        (sampleExecution [.order makerOrder, .order makerOrder]).message recordedWorld = .ok w' ∧
      w'.log = [.acked (samplePacket (batchOf [.order makerOrder, .order makerOrder])) .failure] := by
  refine ⟨⟨makerOrder_makerOnly _, ⟨_, rfl, rfl⟩, ?_⟩, _, rfl, rfl⟩
  rintro (h | ⟨w', makers, h, -, hlog, -⟩)
  · cases h
  · cases h
    rcases hlog with hlog | ⟨m, -, hlog⟩ <;> cases hlog

/-- With all of the five coins the order is filled. -/
theorem maker_order_filled : MakerOutcome Outside.ideal Env.ideal ⟨"ibc", [⟨"uosmo", 5⟩]⟩
      makerExecution [makerOrder] recordedWorld := by
  have h := @makerOutcome_iff Unit Outside.ideal State.fresh.config "minter" ((), []) [] recordedWorld
    Env.ideal ⟨"ibc", [⟨"uosmo", 5⟩]⟩ makerExecution 7 makerOrder.toInstruction [makerOrder] (by simp) rfl
    rfl rfl rfl rfl (.inr ⟨.order makerOrder, rfl, rfl⟩) (by simp) (fun _ _ _ _ => ⟨(), rfl⟩) () rfl
    (fun o ho => by
      rw [List.mem_singleton.mp ho]
      exact makerOrder_makerOnly makerExecution)
  refine h.1.mpr ⟨by decide, ?_⟩
  intro o ho _ quote hquote
  rw [List.mem_singleton.mp ho] at hquote ⊢
  rw [← utf8_injective (hquote : utf8 "uosmo" = utf8 quote)]
  exact .inr (by decide)

end UnionVoyager.Zkgm
