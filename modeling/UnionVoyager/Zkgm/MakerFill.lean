import UnionVoyager.Zkgm.Batch
import UnionVoyager.Zkgm.Intent

/-!
# Filling orders for a market maker

An order the protocol does not fill is left to whoever brings the packet, or to the solver it names.
This module says what such orders ask for and what comes of it.
-/

namespace UnionVoyager.Zkgm

open Lib List
open Core (ChannelId Addr Coin)

/-! ## Orders only a market maker fills -/

/-- With some coins the order is executed, and then it is a solver or the relayer who fills it. -/
def Order.MakerOnly (env : Env) (x : Execution) (s : State) (o : Order) : Prop :=
  (o.solves = true ∨ o.leftToRelayer env x s = true) ∧ ∃ funds r, o.execute env x s funds = .ok r

/-- No coin of the quote token is attached, or enough. -/
def Affordable (funds : Coins) (o : Order) : Prop :=
  ∀ quote, o.quoteToken = utf8 quote → funds quote = 0 ∨ o.quoteAmount ≤ funds quote

/-- What an order for a market maker asks for. -/
inductive MakerWork (minter caller : Addr) : Order → Work → Prop
  | paid {o : Order} {calls : List MinterCall} (hs : o.solves = false)
      (h : PaidFor minter caller o calls) : MakerWork minter caller o (.relayer calls)
  | solved {o : Order} (hs : o.solves = true) (address : String) (msg : DoSolve) :
      MakerWork minter caller o (.solver address msg)

theorem Coins.take_ok_iff {funds : Coins} {denom : String} {n : Nat} (hn : n < 2 ^ 128) :
    (∃ r, funds.take denom n = .ok r) ↔ funds denom = 0 ∨ n ≤ funds denom := by
  unfold Coins.take
  by_cases h0 : funds denom = 0
  · simp [h0]
  · have hamount : toU128 n = .ok n := toU128_eq_ok.mpr ⟨hn, rfl⟩
    simp only [h0, if_false, hamount, ok_bind, false_or, Coins.sub]
    by_cases hle : n ≤ funds denom <;> simp [hle]

section Execute

variable {env : Env} {x : Execution}

variable {s : State}

theorem Order.execute_solved {o : Order} (hs : o.solves = true)
    (h : ∃ funds r, o.execute env x s funds = .ok r) :
    ∃ address msg, ∀ s funds, o.execute env x s funds =
      .ok (s, funds, [⟨.solver address msg, some (.always, .mmSolverFill)⟩]) := by
  obtain ⟨f₀, r₀, h⟩ := h
  cases o with
  | v1 o => cases hs
  | v2 o =>
    have hk : o.kind = TOKEN_ORDER_KIND_SOLVE := by simpa [Order.solves] using hs
    simp only [Order.execute, executeTokenOrderV2, bind_eq_ok, hk, or_true, if_true, marketMakerFillV2,
      solverMarketMakerFillV2] at h
    obtain ⟨quote, hquote, receiver, hrcv, md, hmd, solver, hsolver, -⟩ := h
    refine ⟨solver, ⟨x.packet, o, x.path, x.caller, x.relayer, x.relayerMsg, x.intent⟩, ?_⟩
    intro s funds
    simp only [Order.execute, executeTokenOrderV2, hquote, hrcv, ok_bind, hk, or_true, if_true,
      marketMakerFillV2, solverMarketMakerFillV2, hmd, hsolver]
    rfl

theorem Order.execute_paid {o : Order} (hleft : o.leftToRelayer env x s = true)
    (h : ∃ funds r, o.execute env x s funds = .ok r) :
    ∃ quote receiver, o.quoteToken = utf8 quote ∧ o.receiver = utf8 receiver ∧
      o.quoteAmount < 2 ^ 128 ∧
      ∀ s' funds, s'.metadataImageOf = s.metadataImageOf → o.execute env x s' funds =
        marketMakerFill x o.quoteAmount quote receiver s' funds := by
  obtain ⟨f₀, r₀, h⟩ := h
  cases o with
  | v1 o =>
    simp only [Order.execute, executeTokenOrderV1, bind_eq_ok, okOr_eq_ok, fromUtf8_eq_some,
      validateAddr_eq_ok, toU128_eq_ok] at h
    obtain ⟨quote, hquote, receiver, hrcv, base, ⟨hbase, rfl⟩, amount, ⟨hamount, rfl⟩, h⟩ := h
    refine ⟨quote, receiver, hquote, hrcv.1, hamount, ?_⟩
    intro s' funds _
    have h₁ : okOr (fromUtf8 o.quoteToken) ContractError.invalidQuoteToken = .ok quote :=
      okOr_eq_ok.mpr (fromUtf8_eq_some.mpr hquote)
    have h₂ : validateAddr env o.receiver .invalidReceiver .unableToValidateReceiver = .ok receiver :=
      validateAddr_eq_ok.mpr hrcv
    have h₃ : toU128 o.baseAmount = .ok o.baseAmount := toU128_eq_ok.mpr ⟨hbase, rfl⟩
    have h₄ : toU128 o.quoteAmount = .ok o.quoteAmount := toU128_eq_ok.mpr ⟨hamount, rfl⟩
    simp only [Order.execute, executeTokenOrderV1, h₁, h₂, h₃, h₄, ok_bind]
    cases hi : x.intent with
    | true => rfl
    | false =>
      rw [hi] at h
      simp only [Bool.false_eq_true, if_false, bind_eq_ok, okOr_eq_ok] at h
      obtain ⟨wrapped, hwrapped, -⟩ := h
      simp only [Order.leftToRelayer, Order.solves, hi, Order.protocolFills,
        fromUtf8_eq_some.mpr hquote, hwrapped] at hleft
      have hnot : ¬ (quote = wrapped ∧ o.quoteAmount ≤ o.baseAmount) := by
        rintro ⟨rfl, hle⟩
        simp [hle] at hleft
      have hnot' : ¬ (o.baseTokenPath ≠ 0 ∧ o.quoteAmount ≤ o.baseAmount) := by
        rintro ⟨hpath, hle⟩
        simp [hle] at hleft
        exact hpath hleft.2
      simp only [Bool.false_eq_true, if_false, hwrapped, okOr, orErr, ok_bind, hnot, hnot']
      rfl
  | v2 o =>
    simp only [Order.execute, executeTokenOrderV2, bind_eq_ok] at h
    obtain ⟨quote, h₁, receiver, h₂, h⟩ := h
    have hquote : o.quoteToken = utf8 quote := fromUtf8_eq_some.mp (okOr_eq_ok.mp h₁)
    have hsolves : o.kind ≠ TOKEN_ORDER_KIND_SOLVE := by
      intro hk
      simp [Order.leftToRelayer, Order.solves, hk] at hleft
    -- the relayer's fill, with the same checks once more
    have hfill : ∀ {s f r}, marketMakerFillV2 env x o s f = .ok r → o.quoteAmount < 2 ^ 128 := by
      intro s f r hr
      simp only [marketMakerFillV2, if_neg hsolves, relayerMarketMakerFillV2, bind_eq_ok, toU128_eq_ok] at hr
      obtain ⟨-, -, -, -, amount, ⟨hlt, -⟩, -⟩ := hr
      exact hlt
    have heq : o.quoteAmount < 2 ^ 128 → ∀ s f, marketMakerFillV2 env x o s f =
        marketMakerFill x o.quoteAmount quote receiver s f := by
      intro hlt s f
      have h₃ : toU128 o.quoteAmount = .ok o.quoteAmount := toU128_eq_ok.mpr ⟨hlt, rfl⟩
      simp only [marketMakerFillV2, if_neg hsolves, relayerMarketMakerFillV2, h₁, h₂, h₃, ok_bind,
        marketMakerFill]
    have hall : o.quoteAmount < 2 ^ 128 ∧ ∀ s' funds, s'.metadataImageOf = s.metadataImageOf →
        Order.execute env x s' funds (.v2 o) = marketMakerFillV2 env x o s' funds := by
      cases hi : x.intent with
      | true =>
        rw [hi] at h
        refine ⟨hfill (by simpa using h), ?_⟩
        intro s' funds _
        simp [Order.execute, executeTokenOrderV2, h₁, h₂, hi]
      | false =>
        have hfills : (Order.v2 o).protocolFills env x s = false := by
          simpa [Order.leftToRelayer, Order.solves, hsolves, hi] using hleft
        simp only [hi, Bool.false_eq_true, hsolves, or_self, if_false] at h
        have hnot : ¬ (o.kind = TOKEN_ORDER_KIND_UNESCROW ∧ o.quoteAmount ≤ o.baseAmount) := by
          rintro ⟨hk, hle⟩
          simp [Order.protocolFills, hk, hle] at hfills
        rw [if_neg hnot] at h
        simp only [bind_eq_ok] at h
        obtain ⟨wrapped, hwrapped, h⟩ := h
        have hnot' : ¬ (wrapped = some quote ∧ o.quoteAmount ≤ o.baseAmount) := by
          rintro ⟨rfl, hle⟩
          simp [Order.protocolFills, fromUtf8_eq_some.mpr hquote, hwrapped, hle, Except.toOption] at hfills
        rw [if_neg hnot'] at h
        refine ⟨hfill h, ?_⟩
        intro s' funds himages
        have hwrapped' : wrappedTokenV2 env x o quote s' = .ok wrapped := by
          rw [← hwrapped]
          simp only [wrappedTokenV2, himages]
        simp only [Order.execute, executeTokenOrderV2, h₁, h₂, ok_bind, hi, Bool.false_eq_true, hsolves,
          or_self, if_false, hnot, hwrapped', hnot']
    refine ⟨quote, receiver, hquote, (validateAddr_eq_ok.mp h₂).1, hall.1, ?_⟩
    intro s' funds himages
    exact (hall.2 s' funds himages).trans (heq hall.1 s' funds)

theorem Order.MakerOnly.cases {o : Order} (h : o.MakerOnly env x s) :
    (o.solves = true ∧ ∃ address msg, ∀ s' funds, o.execute env x s' funds =
      .ok (s', funds, [⟨.solver address msg, some (.always, .mmSolverFill)⟩])) ∨
    (o.solves = false ∧ ∃ quote receiver, o.quoteToken = utf8 quote ∧ o.receiver = utf8 receiver ∧
      o.quoteAmount < 2 ^ 128 ∧
      ∀ s' funds, s'.metadataImageOf = s.metadataImageOf → o.execute env x s' funds =
        marketMakerFill x o.quoteAmount quote receiver s' funds) := by
  obtain ⟨hs | hleft, hexec⟩ := h
  · exact .inl ⟨hs, Order.execute_solved hs hexec⟩
  · refine .inr ⟨?_, Order.execute_paid hleft hexec⟩
    simp only [Order.leftToRelayer, Bool.and_eq_true, Bool.not_eq_true'] at hleft
    exact hleft.1

def orderInstructions (orders : List Order) : List Instruction :=
    (orders.map Leaf.order).map Leaf.toInstruction

theorem executeBatch_order (salt : U256) (index : Nat) (o : Order) (orders : List Order) (s : State)
    (funds : Coins) :
    executeBatch env x salt index (orderInstructions (o :: orders)) s funds = (do
      let (s, funds, messages) ← o.execute env x s funds
      let (s, funds, rest) ← executeBatch env x salt (index + 1) (orderInstructions orders) s funds
      pure (s, funds, messages ++ rest)) :=
  executeBatch_cons salt index (.order o) (orderInstructions orders)

/-- **Orders for a market maker ask for payments and solvers**, and only the slot of the market maker is
    written. -/
theorem executeBatch_makerWork {salt : U256} :
    ∀ {orders : List Order} {index : Nat} {s' s₁ : State} {funds funds₁ : Coins} {r : Response},
      (∀ o ∈ orders, o.MakerOnly env x s) → s'.metadataImageOf = s.metadataImageOf →
      executeBatch env x salt index (orderInstructions orders) s' funds = .ok (s₁, funds₁, r) →
      (∃ works, r = works.flatMap Work.response ∧
        List.Forall₂ (MakerWork s'.tokenMinter x.caller) orders works) ∧
      s₁ = if orders.all Order.solves then s' else { s' with marketMaker := some x.relayerMsg }
  | [], index, s', s₁, funds, funds₁, r, _, _, h => by
    cases h
    exact ⟨⟨[], rfl, .nil⟩, rfl⟩
  | o :: orders, index, s', s₁, funds, funds₁, r, hmaker, himages, h => by
    rw [executeBatch_order] at h
    simp only [bind_eq_ok, pure_eq_ok] at h
    obtain ⟨⟨s₂, funds₂, r₂⟩, h₂, ⟨s₃, funds₃, r₃⟩, h₃, h⟩ := h
    cases h
    have hrest := fun o ho => hmaker o (mem_cons_of_mem _ ho)
    rcases (hmaker o (mem_cons_self ..)).cases with
      ⟨hs, address, msg, heq⟩ | ⟨hs, quote, receiver, hquote, hreceiver, -, heq⟩
    · rw [heq] at h₂
      cases h₂
      obtain ⟨⟨works, rfl, hworks⟩, hs₁⟩ := executeBatch_makerWork hrest himages h₃
      refine ⟨⟨.solver address msg :: works, rfl, .cons (.solved hs address msg) hworks⟩, ?_⟩
      simpa [hs] using hs₁
    · rw [heq _ _ himages] at h₂
      simp only [marketMakerFill, bind_eq_ok, pure_eq_ok] at h₂
      obtain ⟨fc, hfc, h₂⟩ := h₂
      cases h₂
      have himages' : ({ s' with marketMaker := some x.relayerMsg } : State).metadataImageOf =
          s.metadataImageOf := himages
      obtain ⟨⟨works, rfl, hworks⟩, hs₁⟩ := executeBatch_makerWork hrest himages' h₃
      have hpaid : PaidFor s'.tokenMinter x.caller o _ :=
        ⟨quote, receiver, fc.2, hquote, hreceiver, (Coins.takes_of_take hfc).coins, rfl⟩
      refine ⟨⟨.relayer _ :: works, rfl, .cons (.paid hs hpaid) hworks⟩, ?_⟩
      simp only [all_cons, hs, Bool.false_and, Bool.false_eq_true, if_false]
      rw [hs₁]
      split <;> rfl

theorem executeBatch_maker_ok_iff {salt : U256} : ∀ {orders : List Order} {index : Nat} {s' : State}
      {funds : Coins},
      (∀ o ∈ orders, o.MakerOnly env x s) → s'.metadataImageOf = s.metadataImageOf →
      orders.countP (fun o => !o.solves) ≤ 1 →
      ((∃ r, executeBatch env x salt index (orderInstructions orders) s' funds = .ok r) ↔
        ∀ o ∈ orders, o.solves = false → Affordable funds o)
  | [], index, s', funds, _, _, _ => by
    simp only [not_mem_nil, false_implies, implies_true, iff_true]
    exact ⟨_, rfl⟩
  | o :: orders, index, s', funds, hmaker, himages, hcount => by
    have hrest := fun o ho => hmaker o (mem_cons_of_mem _ ho)
    rw [executeBatch_order]
    rcases (hmaker o (mem_cons_self ..)).cases with
      ⟨hs, address, msg, heq⟩ | ⟨hs, quote, receiver, hquote, -, hlt, heq⟩
    · have hcount' : orders.countP (fun o => !o.solves) ≤ 1 := by simpa [hs] using hcount
      have ih : (∃ r, executeBatch env x salt (index + 1) (orderInstructions orders) s' funds = .ok r) ↔
          ∀ o' ∈ orders, o'.solves = false → Affordable funds o' :=
        executeBatch_maker_ok_iff hrest himages hcount'
      have hhead : (∀ o' ∈ o :: orders, o'.solves = false → Affordable funds o') ↔
          ∀ o' ∈ orders, o'.solves = false → Affordable funds o' := by simp [hs]
      rw [hhead, ← ih, heq]
      constructor
      · rintro ⟨r, h⟩
        simp only [ok_bind, bind_eq_ok] at h
        obtain ⟨r₁, h₁, -⟩ := h
        exact ⟨r₁, h₁⟩
      · rintro ⟨r₁, h₁⟩
        simp only [ok_bind, h₁]
        exact ⟨_, rfl⟩
    · -- the others are for solvers, whatever is left of the coins
      have hothers : ∀ o' ∈ orders, o'.solves = true := by
        simpa [hs] using hcount
      have hhead : (∀ o' ∈ o :: orders, o'.solves = false → Affordable funds o') ↔
          funds quote = 0 ∨ o.quoteAmount ≤ funds quote := by
        simp only [forall_mem_cons, hs, forall_const, Affordable]
        constructor
        · rintro ⟨ho, -⟩
          exact ho quote hquote
        · intro ho
          refine ⟨?_, ?_⟩
          · intro quote' hquote'
            rw [← utf8_injective (hquote.symm.trans hquote')]
            exact ho
          · intro o' ho' hs'
            rw [hothers o' ho'] at hs'
            cases hs'
      rw [hhead, ← Coins.take_ok_iff hlt, heq _ _ himages]
      constructor
      · rintro ⟨r, h⟩
        simp only [marketMakerFill, bind_eq_ok] at h
        obtain ⟨-, ⟨fc, hfc, -⟩, -⟩ := h
        exact ⟨fc, hfc⟩
      · rintro ⟨fc, hfc⟩
        have hnone : orders.countP (fun o => !o.solves) = 0 :=
          List.countP_eq_zero.mpr (by simpa using hothers)
        have himages' : ({ s' with marketMaker := some x.relayerMsg } : State).metadataImageOf =
            s.metadataImageOf := himages
        have ih : (∃ r, executeBatch env x salt (index + 1) (orderInstructions orders)
            { s' with marketMaker := some x.relayerMsg } fc.1 = .ok r) ↔
            ∀ o' ∈ orders, o'.solves = false → Affordable fc.1 o' :=
          executeBatch_maker_ok_iff hrest himages' (by omega)
        obtain ⟨r, hr⟩ := ih.mpr (fun o' ho' hs' => by
          rw [hothers o' ho'] at hs'
          cases hs')
        simp only [marketMakerFill, hfc, ok_bind, pure_bind, hr]
        exact ⟨_, rfl⟩

end Execute

/-! ## Running what they ask for -/

theorem Slots.note_marketMaker (t : Slots) (ack : AckData) (m : Option Bytes) :
    ({ t with marketMaker := m } : Slots).note ack = { t.note ack with marketMaker := m } := by
  unfold Slots.note
  dsimp only
  split <;> rfl

theorem Slots.foldl_note_marketMaker (acks : List AckData) (t : Slots) (m : Option Bytes) :
    acks.foldl Slots.note { t with marketMaker := m } =
      { acks.foldl Slots.note t with marketMaker := m } := by
  induction acks generalizing t with
  | nil => rfl
  | cons a acks ih => rw [foldl_cons, foldl_cons, Slots.note_marketMaker, ih]

theorem Slots.foldl_note_batch (acks : List AckData) (p : Option Packet) (n : Nat)
    (e : Option AckData) (bs : Option (List AckData)) (m : Option Bytes) :
    acks.foldl Slots.note ⟨p, some n, e, bs, m⟩ = ⟨p, some n, e, acks.foldl addAck bs, m⟩ := by
  induction acks generalizing bs with
  | nil => rfl
  | cons a acks ih => exact ih (addAck bs a)

section Run

variable {X : Type} {out : Outside X} {env : Env} {maker : Bytes} {minter caller : Addr}

variable {fuel : Nat}

/-- **A payment or a solver's fill is done, or leaves the acknowledgement that asks for another market
    maker.** -/
theorem run_makerWork {o : Order} {k : Work} {w : World X} (hk : MakerWork minter caller o k)
    (hexec : w.state.executingPacket ≠ none) (hmaker : k.isRelayer = true →
      w.state.marketMaker = some maker) :
    ∃ w₁ ack, k.response.foldlM (runSub out env (fuel + 2)) w =
      .ok { w₁ with state := k.record ack w₁.state } ∧
      w₁.state.slots = w.state.slots ∧ w₁.log = w.log ∧
      ((k.perform out maker w = some (w₁, ack) ∧ ∃ m, ack = makerAck m) ∨
        ack = .raw ACK_ERR_ONLY_MAKER) := by
  rcases @run_work fuel X out env maker w k hexec hmaker
    with ⟨-, hother⟩ | ⟨w₁, ack, hrun, hslots, hlog, hperf | ⟨-, rfl⟩⟩
  · cases hk with
    | paid | solved => cases hother
  · refine ⟨w₁, ack, hrun, hslots, hlog, .inl ⟨hperf, ?_⟩⟩
    cases hk with
    | paid hs h =>
      simp only [Work.perform, Option.bind_eq_bind, Option.bind_eq_some_iff] at hperf
      obtain ⟨y, -, hperf⟩ := hperf
      cases hperf
      exact ⟨maker, rfl⟩
    | solved hs address msg =>
      simp only [Work.perform, Option.bind_eq_bind, Option.bind_eq_some_iff] at hperf
      obtain ⟨⟨s, y, mm⟩, -, mm', -, hperf⟩ := hperf
      cases hperf
      exact ⟨mm', rfl⟩
  · exact ⟨w₁, _, hrun, hslots, hlog, .inr rfl⟩

variable {orders : List Order} {works : List Work}

theorem countP_isRelayer (h : List.Forall₂ (MakerWork minter caller) orders works) :
    works.countP Work.isRelayer = orders.countP (fun o => !o.solves) := by
  induction h with
  | nil => rfl
  | cons hk hks ih =>
    cases hk with
    | paid hs h => simp [countP_cons, ih, hs, Work.isRelayer]
    | solved hs address msg => simp [ih, hs, Work.isRelayer]

theorem run_makerWorks {w : World X} (h : List.Forall₂ (MakerWork minter caller) orders works)
    (hexec : w.state.executingPacket ≠ none)
    (hserves : Serves maker w.state.marketMaker (works.countP Work.isRelayer)) :
    ∃ w₁ acks, (works.flatMap Work.response).foldlM (runSub out env (fuel + 2)) w = .ok w₁ ∧
      w₁.log = w.log ∧ acks.length = orders.length ∧
      (∃ m, w₁.state.slots = { acks.foldl Slots.note w.state.slots with marketMaker := m }) ∧
      (∀ a ∈ acks, (∃ m, a = makerAck m) ∨ a = .raw ACK_ERR_ONLY_MAKER) ∧
      ((∀ a ∈ acks, ∃ m, a = makerAck m) → performAll out maker works w = some (w₁, acks)) := by
  induction h generalizing w with
  | nil => exact ⟨w, [], rfl, rfl, rfl, ⟨_, rfl⟩, by simp, fun _ => rfl⟩
  | @cons o k orders works hk hks ih =>
    obtain ⟨hmaker, hrest⟩ := serves_cons.mp hserves
    obtain ⟨w₁, ack, hrun, hslots, hlog, hack⟩ := @run_makerWork X out env maker minter caller fuel o k w hk
      hexec hmaker
    have hrec := k.record_note ack w₁.state
    have hm := record_marketMaker k ack hslots
    obtain ⟨w₂, acks, hrun₂, hlog₂, hlen, ⟨m, hslots₂⟩, hacks, hall⟩ :=
      ih (w := { w₁ with state := k.record ack w₁.state }) (executing_record hexec hslots k ack) (by rwa [hm])
    refine ⟨w₂, ack :: acks, ?_, hlog₂.trans hlog, by simp [hlen], ⟨m, ?_⟩, ?_, ?_⟩
    · rw [flatMap_cons, foldlM_append, hrun, ok_bind]
      exact hrun₂
    · rw [hslots₂, foldl_cons]
      simp only [hrec, hslots, Slots.foldl_note_marketMaker]
    · intro a ha
      rcases List.mem_cons.mp ha with rfl | ha
      · rcases hack with ⟨-, hm⟩ | hm
        · exact .inl hm
        · exact .inr hm
      · exact hacks a ha
    · intro hmakers
      have hperf : k.perform out maker w = some (w₁, ack) := by
        rcases hack with ⟨hperf, -⟩ | rfl
        · exact hperf
        · obtain ⟨m, hm⟩ := hmakers _ (mem_cons_self ..)
          cases hm
      have hrest := hall fun a ha => hmakers a (mem_cons_of_mem _ ha)
      simp only [performAll, hperf, Option.bind_eq_bind, Option.bind_some, hrest]

theorem performAll_paid {w w₁ : World (X × List MinterCall)} {acks : List AckData}
    (h : List.Forall₂ (MakerWork minter caller) orders works)
    (hperf : performAll out.recorded maker works w = some (w₁, acks)) :
    ∃ paid : List (Order × List MinterCall), paid.map Prod.fst = orders.filter (fun o => !o.solves) ∧
      (∀ q ∈ paid, PaidFor minter caller q.1 q.2) ∧ w₁.ext.2 = w.ext.2 ++ paid.flatMap Prod.snd := by
  induction h generalizing w acks with
  | nil =>
    cases hperf
    exact ⟨[], rfl, by simp, by simp⟩
  | @cons o k orders works hk hks ih =>
    simp only [performAll, Option.bind_eq_bind, Option.bind_eq_some_iff] at hperf
    obtain ⟨⟨w₂, ack⟩, hk₂, ⟨w₃, acks'⟩, hks₃, hperf⟩ := hperf
    cases hperf
    obtain ⟨paid, hfst, hpaid, hext⟩ := ih hks₃
    cases hk with
    | @paid calls hs h =>
      simp only [Work.perform, Option.bind_eq_bind, Option.bind_eq_some_iff] at hk₂
      obtain ⟨y, hy, hk₂⟩ := hk₂
      cases hk₂
      refine ⟨(o, calls) :: paid, ?_, ?_, ?_⟩
      · simp [hfst, hs]
      · intro q hq
        rcases List.mem_cons.mp hq with rfl | hq
        · exact h
        · exact hpaid q hq
      · rw [hext]
        simp only [recorded_foldlM hy, flatMap_cons, append_assoc]
    | solved hs address msg =>
      simp only [Work.perform, Outside.recorded, Option.bind_eq_bind, Option.bind_eq_some_iff,
        Option.map_eq_some_iff] at hk₂
      obtain ⟨r, ⟨⟨s, y, mm⟩, -, rfl⟩, mm', -, hk₂⟩ := hk₂
      cases hk₂
      exact ⟨paid, by simpa [hs] using hfst, hpaid, hext⟩

end Run

end UnionVoyager.Zkgm
