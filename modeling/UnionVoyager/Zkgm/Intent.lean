import UnionVoyager.Zkgm.Forward
import UnionVoyager.Zkgm.Receipt

/-!
# Intent packets

A market maker may bring a packet that no light client has verified yet.  Its content is then whatever
the market maker says, so executing it must not touch what the protocol holds.

* `Holdings` — balances, token buckets and the registry of wrapped tokens.
-/

namespace UnionVoyager.Zkgm

open Lib List
open Core (ChannelId Addr Coin)

/-! ## What the protocol holds -/

structure Holdings where
  channelBalanceV2 : BalanceKey → Option Nat
  tokenBucket : String → Option TokenBucket
  tokenOrigin : String → Option U256
  metadataImageOf : String → Option U256
  hashToForeignToken : String → Option Bytes

def State.holdings (s : State) : Holdings :=
  ⟨s.channelBalanceV2, s.tokenBucket, s.tokenOrigin, s.metadataImageOf, s.hashToForeignToken⟩

def Order.receiver : Order → Bytes
  | .v1 o => o.receiver
  | .v2 o => o.receiver

/-- The minter takes the quote amount from the caller, who may have attached it as a coin, and releases it
    to the receiver. -/
def PaidFor (minter caller : Addr) (o : Order) (calls : List MinterCall) : Prop :=
  ∃ quote receiver coins, o.quoteToken = utf8 quote ∧ o.receiver = utf8 receiver ∧
    (coins = [] ∨ coins = [⟨quote, o.quoteAmount⟩]) ∧ calls = if o.quoteAmount > 0 then
        [⟨minter, .escrow caller quote minter o.quoteAmount, coins⟩,
          ⟨minter, .unescrow quote receiver o.quoteAmount, []⟩]
      else []

/-- The coins attached to calls of the minter. -/
def callCoins (calls : List MinterCall) : Coins := Coins.ofList (calls.flatMap MinterCall.funds)

/-- An order, and the calls of the minter that pay for it. -/
abbrev Payment := Order × List MinterCall

/-- The coins attached to the calls of payments. -/
def paymentCoins (paid : List Payment) : Coins := callCoins (paid.flatMap Prod.snd)

theorem paymentCoins_append (a b : List Payment) (d : String) :
    paymentCoins (a ++ b) d = paymentCoins a d + paymentCoins b d := by
  simp only [paymentCoins, callCoins, flatMap_append, Coins.ofList_append]

variable {a : List Payment}

theorem paymentCoins_mono {b : List Payment} (h : a.Sublist b) (d : String) :
    paymentCoins a d ≤ paymentCoins b d := by
  induction h with
  | slnil => exact le_rfl
  | @cons a b q _ ih =>
    rw [← singleton_append, paymentCoins_append]
    omega
  | @cons_cons a b q _ ih =>
    rw [← singleton_append, ← singleton_append (l := b), paymentCoins_append, paymentCoins_append]
    omega

section Recorded

variable {X : Type}

/-- The same contracts, with the calls of the minter written down. -/
def Outside.recorded (out : Outside X) : Outside (X × List MinterCall) where
  minter x call := (out.minter x.1 call).map fun y => (y, x.2 ++ [call])
  packetSend x msg := (out.packetSend x.1 msg).map fun r => ((r.1, x.2), r.2)
  writeAcknowledgement x p ack := (out.writeAcknowledgement x.1 p ack).map fun y => (y, x.2)
  contract s x a msg := (out.contract s x.1 a msg).map fun r => (r.1, (r.2.1, x.2), r.2.2)
  solver s x a msg := (out.solver s x.1 a msg).map fun r => (r.1, (r.2.1, x.2), r.2.2)
  account x msg := (out.account x.1 msg).map fun y => (y, x.2)
  contract_keeps hexec h := by
    simp only [Option.map_eq_some_iff] at h
    obtain ⟨⟨s, y, d⟩, h, hr⟩ := h
    cases hr
    exact out.contract_keeps hexec h
  solver_keeps hexec h := by
    simp only [Option.map_eq_some_iff] at h
    obtain ⟨⟨s, y, d⟩, h, hr⟩ := h
    cases hr
    exact out.solver_keeps hexec h
  contract_idle hidle h := by
    simp only [Option.map_eq_some_iff] at h
    obtain ⟨⟨s, y, d⟩, h, hr⟩ := h
    cases hr
    exact out.contract_idle hidle h

theorem recorded_foldlM {out : Outside X} : ∀ {calls : List MinterCall} {x y : X × List MinterCall},
    calls.foldlM out.recorded.minter x = some y → y.2 = x.2 ++ calls
  | [], x, y, h => by
    obtain rfl : x = y := by simpa using h
    simp
  | c :: calls, x, y, h => by
    simp only [foldlM_cons, Option.bind_eq_bind, Option.bind_eq_some_iff] at h
    obtain ⟨x₁, h₁, h₂⟩ := h
    simp only [Outside.recorded, Option.map_eq_some_iff] at h₁
    obtain ⟨z, -, rfl⟩ := h₁
    rw [recorded_foldlM h₂]
    simp

/-- A called contract or a solver comes back to zkgm by itself. -/
def Outside.Touches (out : Outside X) (h h' : Holdings) : Prop :=
  (∃ s x a msg s' x' d, out.contract s x a msg = some (s', x', d) ∧ h = s.holdings ∧ h' = s'.holdings) ∨
    ∃ s x a msg s' x' d, out.solver s x a msg = some (s', x', d) ∧ h = s.holdings ∧ h' = s'.holdings

/-! ## What was spent -/

/-- Between two worlds the minter was called for some of the payments asked for, and the holdings only
    changed where others came back. -/
structure Spent (out : Outside X) (asked : List Payment) (w w' : World (X × List MinterCall)) : Prop where
  log : w'.log = w.log
  holdings : Relation.ReflTransGen out.Touches w.state.holdings w'.state.holdings
  paid : ∃ paid : List Payment, paid.Sublist asked ∧ w'.ext.2 = w.ext.2 ++ paid.flatMap Prod.snd

variable {out : Outside X} {env : Env} {minter caller : Addr} {w w₁ w' : World (X × List MinterCall)}

theorem Spent.refl (w : World (X × List MinterCall)) : Spent out [] w w := ⟨rfl, .refl, [], .slnil, by simp⟩

theorem Spent.trans {a' : List Payment} (h : Spent out a w w₁) (h' : Spent out a' w₁ w') :
    Spent out (a ++ a') w w' := by
  obtain ⟨paid, hsub, hext⟩ := h.paid
  obtain ⟨paid', hsub', hext'⟩ := h'.paid
  refine ⟨h'.log.trans h.log, h.holdings.trans h'.holdings, paid ++ paid', hsub.append hsub', ?_⟩
  rw [hext', hext, flatMap_append, append_assoc]

theorem Spent.mono {a' : List Payment} (h : Spent out a w w') (ha : a.Sublist a') : Spent out a' w w' := by
  obtain ⟨paid, hsub, hext⟩ := h.paid
  exact ⟨h.log, h.holdings, paid, hsub.trans ha, hext⟩

variable {s s' : State}

theorem Spent.of_holdings {y : X × List MinterCall} (hs : s.holdings = w.state.holdings)
    (hy : y.2 = w.ext.2) : Spent out [] w { w with state := s, ext := y } :=
  ⟨rfl, by rw [hs], [], .slnil, by simpa using hy⟩

/-! ## Messages that do not call the minter -/

/-- A message to a called contract, a solver or the account factory, or an acknowledgement. -/
def CosmosMsg.isQuiet : CosmosMsg → Bool
  | .contract _ _ => true
  | .solver _ _ => true
  | .account _ => true
  | .internalWriteAck _ => true
  | _ => false

def SubMsg.IsQuiet (m : SubMsg) : Prop :=
  m.msg.isQuiet = true ∧ ∀ on id, m.reply = some (on, id) → id ≠ .execute ∧ id ≠ .forward

theorem isQuiet_plain {msg : CosmosMsg} (h : msg.isQuiet = true) : msg.plain.IsQuiet :=
    ⟨h, fun _ _ hr => by cases hr⟩

theorem isQuiet_of_mem_writeAck {ack : AckData} : ∀ m ∈ [writeAck ack], m.IsQuiet := by
  intro m hm
  rw [List.mem_singleton.mp hm]
  exact isQuiet_plain rfl

theorem reply_spent {id : ReplyId} {result : Option ReplyData} {messages : Response} (he : id ≠ .execute)
    (hf : id ≠ .forward) (h : reply env id result w.state = .ok (s, messages)) :
    Spent out [] w { w with state := s } ∧ ∀ m ∈ messages, m.IsQuiet := by
  obtain ⟨hs, ack, rfl⟩ := reply_writes he hf h
  refine ⟨.of_holdings ?_ rfl, isQuiet_of_mem_writeAck⟩
  rcases hs with rfl | rfl <;> rfl

theorem runExternal_spent {msg : CosmosMsg} {d : ReplyData} (hm : msg.isQuiet = true)
    (h : runExternal out.recorded env w msg = some (w', d)) : Spent out [] w w' := by
  cases msg with
  | contract a m =>
    simp only [runExternal, Outside.recorded, Option.map_eq_some_iff] at h
    obtain ⟨r, ⟨⟨s, y, b⟩, hr, rfl⟩, h⟩ := h
    cases h
    exact ⟨rfl, .single (.inl ⟨_, _, _, _, _, _, _, hr, rfl, rfl⟩), [], .slnil, by simp⟩
  | solver a m =>
    simp only [runExternal, Outside.recorded, Option.map_eq_some_iff] at h
    obtain ⟨r, ⟨⟨s, y, b⟩, hr, rfl⟩, h⟩ := h
    cases h
    exact ⟨rfl, .single (.inr ⟨_, _, _, _, _, _, _, hr, rfl, rfl⟩), [], .slnil, by simp⟩
  | account m =>
    simp only [runExternal, Outside.recorded, Option.map_eq_some_iff] at h
    obtain ⟨r, ⟨y, -, rfl⟩, h⟩ := h
    cases h
    exact .of_holdings rfl rfl
  | internalWriteAck a => cases h
  | _ => cases hm

/-- **Messages that do not call the minter spend nothing.** -/
theorem quiet_closed (out : Outside X) (env : Env) :
    Closed out.recorded env (Spent out []) SubMsg.IsQuiet where
  refl := .refl
  trans h h' := h.trans h'
  external hM h := runExternal_spent hM.1 h
  self := by
    intro w sub info msg s messages hM hself h
    obtain ⟨m, r⟩ := sub
    cases m with
    | internalWriteAck ack =>
      cases hself
      simp only [execute, bind_eq_ok, pure_eq_ok] at h
      obtain ⟨_, -, h⟩ := h
      cases h
      refine ⟨.of_holdings ?_ rfl, fun m hm => (by cases hm)⟩
      unfold internalWriteAck
      split <;> rfl
    | internalBatch | internalExecutePacket => cases hM.1
    | _ => cases hself
  reply hM hsub h := reply_spent (hM.2 _ _ hsub).1 (hM.2 _ _ hsub).2 h

/-! ## What the leaves of an intent ask for -/

/-- What a leaf brought as an intent asks for: the caller's payment, a solver or a call. -/
inductive Intended (minter caller : Addr) : Leaf → Work → List Payment → Prop
  | paid {o : Order} {calls : List MinterCall} (h : PaidFor minter caller o calls) :
      Intended minter caller (.order o) (.relayer calls) [(o, calls)]
  | solved (o : Order) (address : String) (msg : DoSolve) :
      Intended minter caller (.order o) (.solver address msg) []
  | called (c : Call) (account : List AccountMsg) (target : Addr) (msg : CallMsg) :
      Intended minter caller (.call c) (.call account target msg) []
  | answered (c : Call) (account : List AccountMsg) (target : Addr) (msg : CallMsg) :
      Intended minter caller (.call c) (.eureka account target msg) []

/-- What the leaves of an intent ask for, with all the payments. -/
inductive IntendedAll (minter caller : Addr) : List Leaf → List Work → List Payment → Prop
  | nil : IntendedAll minter caller [] [] []
  | cons {l : Leaf} {k : Work} {a b : List Payment} {ls : List Leaf} {ks : List Work}
      (h : Intended minter caller l k a)
      (hs : IntendedAll minter caller ls ks b) : IntendedAll minter caller (l :: ls) (k :: ks) (a ++ b)

/-- The payments are for orders among these, each by the caller. -/
structure Payments (minter caller : Addr) (orders : List Order) (asked : List Payment) : Prop where
  orders : (asked.map Prod.fst).Sublist orders
  paid : ∀ q ∈ asked, PaidFor minter caller q.1 q.2

theorem Intended.payments {l : Leaf} {k : Work} (h : Intended minter caller l k a) :
    Payments minter caller (ordersOf [l]) a := by
  cases h with
  | paid h =>
    refine ⟨List.Sublist.refl _, ?_⟩
    intro q hq
    rw [List.mem_singleton.mp hq]
    exact h
  | _ => exact ⟨nil_sublist _, fun q hq => by cases hq⟩

theorem IntendedAll.payments {ls : List Leaf} {ks : List Work}
    (h : IntendedAll minter caller ls ks a) : Payments minter caller (ordersOf ls) a := by
  induction h with
  | nil => exact ⟨.slnil, fun q hq => by cases hq⟩
  | @cons l k a b ls ks h hs ih =>
    have hos : ordersOf (l :: ls) = ordersOf [l] ++ ordersOf ls := filterMap_append (l := [l])
    rw [hos]
    refine ⟨?_, ?_⟩
    · rw [map_append]
      exact h.payments.orders.append ih.orders
    · intro q hq
      exact (List.mem_append.mp hq).elim (h.payments.paid q) (ih.paid q)

variable {x : Execution}

theorem marketMakerFill_intended {o : Order} {quote receiver : String} {calls : List MinterCall}
    {funds : Coins} {fc : Coins × List Coin} (hquote : o.quoteToken = utf8 quote)
    (hreceiver : o.receiver = utf8 receiver) (htake : funds.take quote o.quoteAmount = .ok fc)
    (hcalls : calls = fillMessages s caller quote receiver o.quoteAmount fc.2) :
    Intended s.tokenMinter caller (.order o) (.relayer calls) [(o, calls)] ∧
      ∀ d, paymentCoins [(o, calls)] d + fc.1 d ≤ funds d := by
  have htakes := Coins.takes_of_take htake
  refine ⟨.paid ⟨quote, receiver, fc.2, hquote, hreceiver, htakes.coins, hcalls⟩, ?_⟩
  intro d
  have htook := (htakes.took d).1
  have hle : paymentCoins [(o, calls)] d ≤ Coins.ofList fc.2 d := by
    subst hcalls
    simp only [paymentCoins, callCoins, fillMessages, flatMap_cons, flatMap_nil, append_nil]
    split
    · simp
    · simp [Coins.ofList]
  omega

/-- **An order brought as an intent is paid by the caller or left to its solver**, and only the slot of
    the market maker is written. -/
theorem Order.execute_intent {o : Order} {funds funds' : Coins} {r : Response} (hi : x.intent = true)
    (h : o.execute env x s funds = .ok (s', funds', r)) :
      (s' = s ∨ s' = { s with marketMaker := some x.relayerMsg }) ∧
      ∃ k a, r = k.response ∧ Intended s.tokenMinter x.caller (.order o) k a ∧
        ∀ d, paymentCoins a d + funds' d ≤ funds d := by
  cases o with
  | v1 o =>
    simp only [Order.execute, executeTokenOrderV1, bind_eq_ok, okOr_eq_ok, fromUtf8_eq_some,
      validateAddr_eq_ok, toU128_eq_ok, hi, if_true, marketMakerFill, pure_eq_ok] at h
    obtain ⟨quote, hquote, receiver, ⟨hrcv, -⟩, base, ⟨-, rfl⟩, amount, ⟨-, rfl⟩, fc, hfc, h⟩ := h
    cases h
    exact ⟨.inr rfl, .relayer _, _, rfl, marketMakerFill_intended hquote hrcv hfc rfl⟩
  | v2 o =>
    simp only [Order.execute, executeTokenOrderV2, bind_eq_ok, okOr_eq_ok, fromUtf8_eq_some,
      validateAddr_eq_ok, hi, true_or, if_true, marketMakerFillV2] at h
    obtain ⟨quote, hquote, receiver, ⟨hrcv, -⟩, h⟩ := h
    split at h
    · simp only [solverMarketMakerFillV2, bind_eq_ok, pure_eq_ok] at h
      obtain ⟨md, -, solver, -, h⟩ := h
      cases h
      exact ⟨.inl rfl, .solver _ _, [], rfl, .solved _ _ _, fun d => (Nat.zero_add _).le⟩
    · simp only [relayerMarketMakerFillV2, bind_eq_ok, okOr_eq_ok, fromUtf8_eq_some, validateAddr_eq_ok,
        toU128_eq_ok, pure_eq_ok] at h
      obtain ⟨quote', hquote', receiver', ⟨hrcv', -⟩, amount, ⟨-, rfl⟩, fc, hfc, h⟩ := h
      cases h
      exact ⟨.inr rfl, .relayer _, _, rfl, marketMakerFill_intended hquote' hrcv' hfc rfl⟩

/-- What a walk over the leaves of an intent leaves as it is. -/
structure Spared (s s' : State) : Prop where
  holdings : s'.holdings = s.holdings
  tokenMinter : s'.tokenMinter = s.tokenMinter

variable {l : Leaf}

theorem Leaf.execute_intent {funds funds' : Coins} {r : Response} (hi : x.intent = true)
    (h : l.execute env x s funds = .ok (s', funds', r)) :
    Spared s s' ∧ ∃ k a, r = k.response ∧ Intended s.tokenMinter x.caller l k a ∧
      ∀ d, paymentCoins a d + funds' d ≤ funds d := by
  cases l with
  | order o =>
    obtain ⟨hs, hk⟩ := Order.execute_intent hi h
    refine ⟨?_, hk⟩
    rcases hs with rfl | rfl <;> exact ⟨rfl, rfl⟩
  | call c =>
    simp only [Leaf.execute, executeCall, bind_eq_ok] at h
    obtain ⟨target, -, predicted, -, h⟩ := h
    obtain ⟨hspared, account, hacc⟩ : Spared s (createProxy env x c target predicted s).1 ∧
        ∃ account, (createProxy env x c target predicted s).2 = accountMessages account := by
      unfold createProxy
      dsimp only
      split
      · exact ⟨⟨rfl, rfl⟩, [.instantiate2 s.config.dummyCodeId _,
          .migrate predicted s.config.cwAccountCodeId _, .updateAdmin predicted predicted], rfl⟩
      · exact ⟨⟨rfl, rfl⟩, [], rfl⟩
    split at h
    · cases h
      exact ⟨hspared, .eureka account target _, [], by rw [hacc]; rfl, .answered c account target _,
        fun d => (Nat.zero_add _).le⟩
    · cases h
      exact ⟨hspared, .call account target _, [], by rw [hacc]; rfl, .called c account target _,
        fun d => (Nat.zero_add _).le⟩

theorem executeBatch_intent (hi : x.intent = true) {salt : U256} :
    ∀ {leaves : List Leaf} {index : Nat} {s s' : State} {funds funds' : Coins} {r : Response},
      executeBatch env x salt index (leaves.map Leaf.toInstruction) s funds = .ok (s', funds', r) →
        Spared s s' ∧ ∃ works a, r = works.flatMap Work.response ∧
          IntendedAll s.tokenMinter x.caller leaves works a ∧ ∀ d, paymentCoins a d + funds' d ≤ funds d
  | [], index, s, s', funds, funds', r, h => by
    cases h
    exact ⟨⟨rfl, rfl⟩, [], [], rfl, .nil, fun d => (Nat.zero_add _).le⟩
  | l :: leaves, index, s, s', funds, funds', r, h => by
    simp only [map_cons, executeBatch_cons, bind_eq_ok, pure_eq_ok] at h
    obtain ⟨⟨s₁, funds₁, r₁⟩, h₁, ⟨s₂, funds₂, r₂⟩, h₂, h⟩ := h
    cases h
    obtain ⟨hs₁, k, a, rfl, hk, hleft⟩ := Leaf.execute_intent hi h₁
    obtain ⟨hs₂, works, b, rfl, hworks, hleft'⟩ := executeBatch_intent hi h₂
    rw [hs₁.tokenMinter] at hworks
    refine ⟨⟨hs₂.holdings.trans hs₁.holdings, hs₂.tokenMinter.trans hs₁.tokenMinter⟩, k :: works, a ++ b, rfl,
      .cons hk hworks, ?_⟩
    intro d
    have h : paymentCoins a d + funds₁ d ≤ funds d := hleft d
    have h' : paymentCoins b d + funds₂ d ≤ funds₁ d := hleft' d
    show paymentCoins (a ++ b) d + funds₂ d ≤ funds d
    rw [paymentCoins_append]
    omega

/-! ## Running what an intent asks for -/

theorem Work.response_quiet {k : Work} (hk : Intended minter caller l k a)
    (hr : k.isRelayer = false) : ∀ m ∈ k.response, m.IsQuiet := by
  have hacc : ∀ account, ∀ m ∈ accountMessages account, m.IsQuiet := by
    intro account m hm
    obtain ⟨c, -, rfl⟩ := List.mem_map.mp hm
    exact isQuiet_plain rfl
  intro m hm
  cases hk with
  | paid h => cases hr
  | solved o address msg =>
    rw [List.mem_singleton.mp hm]
    refine ⟨rfl, ?_⟩
    intro on id hid
    cases hid
    decide
  | called c account target msg =>
    rcases List.mem_append.mp hm with hm | hm
    · exact hacc account m hm
    · rcases List.mem_cons.mp hm with rfl | hm
      · exact isQuiet_plain rfl
      · exact isQuiet_of_mem_writeAck m hm
  | answered c account target msg =>
    rcases List.mem_append.mp hm with hm | hm
    · exact hacc account m hm
    · rw [List.mem_singleton.mp hm]
      refine ⟨rfl, ?_⟩
      intro on id hid
      cases hid
      decide

variable {fuel : Nat}

theorem run_relayerFill_spent {o : Order} {calls : List MinterCall}
    (h : runSub out.recorded env fuel w (relayerFill calls) = .ok w') : Spent out [(o, calls)] w w' := by
  cases fuel with
  | zero => cases h
  | succ fuel =>
    have hreply : ∀ {w₁ result}, runReply env (runSub out.recorded env fuel) w₁ .mmRelayerFill result =
        .ok w' → Spent out [] w₁ w' := by
      intro w₁ result hr
      simp only [runReply, bind_eq_ok] at hr
      obtain ⟨⟨s, messages⟩, hs, hmsgs⟩ := hr
      obtain ⟨hspent, hquiet⟩ := reply_spent (by decide) (by decide) hs
      exact hspent.trans ((quiet_closed out env).foldlM hquiet hmsgs)
    rcases runSub_cases h with ⟨w₁, d, hmsg, ⟨hnone, -⟩ | ⟨on, id, hid, hr⟩⟩ | ⟨e, id, -, hid, hr⟩
    · cases hnone
    · cases hid
      simp only [relayerFill, runMsg, selfMsg, execute, bind_eq_ok, pure_eq_ok] at hmsg
      obtain ⟨⟨s, messages⟩, ⟨_, -, hs⟩, w₂, hrun, hw⟩ := hmsg
      cases hs
      cases hw
      have hpay : Spent out [(o, calls)] w w₁ := by
        cases fuel with
        | zero =>
          cases calls with
          | nil =>
            obtain rfl : _ = w₁ := by simpa using hrun
            exact ⟨rfl, .refl, [(o, [])], .refl _, by simp⟩
          | cons c calls => cases hrun
        | succ fuel =>
          rw [run_minterCalls, map_eq_ok] at hrun
          obtain ⟨y, hy, rfl⟩ := hrun
          rw [orErr_eq_ok] at hy
          exact ⟨rfl, .refl, [(o, calls)], .refl _, by simpa using recorded_foldlM hy⟩
      simpa using hpay.trans (hreply hr)
    · cases hid
      exact (hreply hr).mono (nil_sublist _)

theorem run_intended {k : Work} (hk : Intended minter caller l k a)
    (h : k.response.foldlM (runSub out.recorded env fuel) w = .ok w') : Spent out a w w' := by
  cases hr : k.isRelayer with
  | false =>
    exact ((quiet_closed out env).foldlM (Work.response_quiet hk hr) h).mono (nil_sublist _)
  | true =>
    cases hk with
    | paid hpaid =>
      simp only [Work.response, foldlM_cons, foldlM_nil, bind_eq_ok, pure_eq_ok] at h
      obtain ⟨w₁, h, rfl⟩ := h
      exact run_relayerFill_spent h
    | _ => cases hr

theorem run_intended_all {leaves : List Leaf} {works : List Work}
    (hks : IntendedAll minter caller leaves works a)
    (h : (works.flatMap Work.response).foldlM (runSub out.recorded env fuel) w = .ok w') :
      Spent out a w w' := by
  induction hks generalizing w with
  | nil =>
    obtain rfl : w = w' := by simpa using h
    exact .refl w
  | cons hk hks ih =>
    rw [flatMap_cons, foldlM_append, bind_eq_ok] at h
    obtain ⟨w₁, h₁, h₂⟩ := h
    exact (run_intended hk h₁).trans (ih h₂)

/-! ## The transaction -/

/-- The token orders a packet holds. -/
def Packet.orders (p : Packet) : List Order :=
  match p.data with
  | .zkgm z => z.instruction.orders
  | _ => []

/-- **The messages of an intent spend what the caller pays.** -/
theorem run_executePacket_spent {p : Packet} {relayer : Addr} {relayerMsg : Bytes} {funds : List Coin}
    {messages : Response} (h : executePacket env caller p relayer relayerMsg true funds s =
      .ok (s', messages))
    (hrun : messages.foldlM (runSub out.recorded env fuel) { w with state := s' } = .ok w') :
    ∃ asked, Payments s.tokenMinter caller p.orders asked ∧
      (∀ d, paymentCoins asked d ≤ Coins.ofList funds d) ∧ Spent out asked { w with state := s } w' := by
  unfold executePacket at h
  split at h
  · rename_i z hz
    have horders : p.orders = z.instruction.orders := by rw [Packet.orders, hz]
    simp only [bind_eq_ok, pure_eq_ok] at h
    obtain ⟨⟨s₁, funds₁, r⟩, hexec, h⟩ := h
    cases h
    -- the leaves, in whatever storage their walk begins
    have hrest : ∀ {s₀ : State} {leaves : List Leaf} {works : List Work} {asked : List Payment},
        s₀.holdings = s.holdings → s₀.tokenMinter = s.tokenMinter →
        z.instruction.Holds leaves → Spared s₀ s₁ →
        IntendedAll s₀.tokenMinter caller leaves works asked →
        r = works.flatMap Work.response → Payments s.tokenMinter caller p.orders asked ∧
          Spent out asked { w with state := s } w' := by
      intro s₀ leaves works asked hh ht hholds hspared hworks hr
      subst hr
      rw [horders, hholds.orders]
      have hfirst : Spent out [] { w with state := s }
          { w with state := { s₁ with createdProxyAccount := none } } :=
        .of_holdings (hspared.holdings.trans hh) rfl
      rw [ht] at hworks
      exact ⟨hworks.payments, hfirst.trans (run_intended_all hworks hrun)⟩
    rcases executeInternal_cases hexec with ⟨l, hl⟩ | ⟨is, hi, hbatch⟩ | ⟨q, th, tt, j, -, hfwd⟩
    · rw [hl, executeInternal_leaf] at hexec
      obtain ⟨hspared, k, a, hr, hk, hle⟩ := Leaf.execute_intent rfl hexec
      obtain ⟨hpay, hspent⟩ := hrest rfl rfl (.inr ⟨l, rfl, hl⟩) hspared (.cons hk .nil) (by simpa using hr)
      rw [append_nil] at hpay hspent
      exact ⟨a, hpay, fun d => (Nat.le_add_right _ _).trans (hle d), hspent⟩
    · obtain ⟨leaves, rfl⟩ := exists_leaves_of_execute hbatch
      obtain ⟨hspared, works, a, hr, hworks, hle⟩ := executeBatch_intent rfl hbatch
      have hbegin : ∀ n, ({ s with executingPacketIsBatch := some n } : State).holdings =
        s.holdings := fun _ => rfl
      obtain ⟨hpay, hspent⟩ := hrest (hbegin _) rfl (.inl hi) hspared hworks hr
      exact ⟨a, hpay, fun d => (Nat.le_add_right _ _).trans (hle d), hspent⟩
    · -- a forward is not even looked at
      simp only [executeForward, bind_eq_ok, require_eq_ok, if_true, pure_eq_ok] at hfwd
      obtain ⟨_, -, hfwd⟩ := hfwd
      cases hfwd
      have hfirst : Spent out [] { w with state := s }
          { w with state := { s with createdProxyAccount := none } } := .of_holdings rfl rfl
      have hack := (quiet_closed out env).foldlM isQuiet_of_mem_writeAck hrun
      exact ⟨[], ⟨nil_sublist _, fun q hq => by cases hq⟩, fun d => Nat.zero_le _, hfirst.trans hack⟩
  · cases h

theorem collectAck_holdings {ack : AckData} (h : collectAck s = .ok (s', ack)) :
    s'.holdings = s.holdings := by
  unfold collectAck at h
  split at h
  · simp only [bind_eq_ok, pure_eq_ok] at h
    obtain ⟨acks, -, _, -, _, -, h⟩ := h
    cases h
    rfl
  · simp only [bind_eq_ok, pure_eq_ok] at h
    obtain ⟨ack', -, _, -, h⟩ := h
    cases h
    rfl

/-- **Whatever packet is brought as an intent: no balance, bucket or wrapped token changes but where
    a called contract or solver comes back on its own, nothing is forwarded, and the minter only
    moves the quote amount of an order from the caller to the receiver; the coins it gets are among
    those the caller attached.** -/
theorem intent_unspent {p : Packet} {marketMaker : String} {marketMakerMsg : Bytes} {info : MessageInfo}
    (h : transact out.recorded env info (.onIntentRecvPacket caller p marketMaker marketMakerMsg)
      w = .ok w') :
    Relation.ReflTransGen out.Touches w.state.holdings w'.state.holdings ∧
      (∀ c, HostEvent.sent c ∉ w'.log) ∧
      ∃ paid : List Payment, (paid.map Prod.fst).Sublist p.orders ∧
        (∀ q ∈ paid, PaidFor w.state.tokenMinter caller q.1 q.2) ∧
        (∀ d, paymentCoins paid d ≤ Coins.ofList info.funds d) ∧
        w'.ext.2 = w.ext.2 ++ paid.flatMap Prod.snd := by
  obtain ⟨-, -, hcase⟩ :=
    transact_message_cases (x := ⟨caller, p, marketMaker, marketMakerMsg, 0, true⟩) h
  have hwrite : ∀ {x y : X × List MinterCall} {q ack},
      out.recorded.writeAcknowledgement x q ack = some y → y.2 = x.2 := by
    intro x y q ack hy
    simp only [Outside.recorded, Option.map_eq_some_iff] at hy
    obtain ⟨z, -, rfl⟩ := hy
    rfl
  rcases hcase with ⟨w₁, messages, ack, hok⟩ | hfailed
  · obtain ⟨s, hexec, hrun⟩ := hok.run
    obtain ⟨asked, hpay, hcoins, hspent⟩ := run_executePacket_spent (w := { w with log := [] }) hexec hrun
    obtain ⟨paid, hasked, hext⟩ := hspent.paid
    have hsub : (paid.map Prod.fst).Sublist p.orders := (hasked.map _).trans hpay.orders
    have hpaid : ∀ q ∈ paid, PaidFor w.state.tokenMinter caller q.1 q.2 := fun q hq =>
      hpay.paid q (hasked.subset hq)
    have hle : ∀ d, paymentCoins paid d ≤ Coins.ofList info.funds d :=
      fun d => (paymentCoins_mono hasked d).trans (hcoins d)
    have hlog : w₁.log = [] := hspent.log
    obtain ⟨s', q, -, hcollect, hend⟩ := hok.collect
    have hh : s'.holdings = w₁.state.holdings := (collectAck_holdings hcollect).trans rfl
    rcases hend with ⟨-, rfl⟩ | ⟨-, y, hy, rfl⟩
    · refine ⟨?_, ?_, paid, hsub, hpaid, hle, hext⟩
      · rw [hh]
        exact hspent.holdings
      · intro c hc
        rw [hlog] at hc
        cases hc
    · refine ⟨?_, ?_, paid, hsub, hpaid, hle, (hwrite hy).trans hext⟩
      · rw [hh]
        exact hspent.holdings
      · intro c hc
        rw [hlog] at hc
        simp at hc
  · refine ⟨by rw [hfailed.state], ?_, [], nil_sublist _, fun _ h => (by cases h), fun _ => Nat.zero_le _, ?_⟩
    · intro c hc
      rw [hfailed.log] at hc
      simp at hc
    · rw [hwrite hfailed.ext]
      simp

end Recorded

/-- Every order is filled as an intent by taking the quote amount from the caller. -/
theorem intent_of_order_unspent : ∃ w', transact Outside.ideal.recorded Env.ideal ⟨"ibc", []⟩
        (.onIntentRecvPacket "relayer" (samplePacket (Order.v2 sampleOrder).toInstruction) "relayer" [1])
        ⟨State.fresh, ((), []), []⟩ = .ok w' ∧
      w'.ext.2 = [⟨"minter", .escrow "relayer" "wrapped/uatom" "minter" 5, []⟩,
        ⟨"minter", .unescrow "wrapped/uatom" "bob" 5, []⟩] ∧
      ∀ c, HostEvent.sent c ∉ w'.log := by
  refine ⟨_, rfl, rfl, ?_⟩
  have h := @intent_unspent Unit Outside.ideal Env.ideal "relayer" ⟨State.fresh, ((), []), []⟩ _
    (samplePacket (Order.v2 sampleOrder).toInstruction) "relayer" [1] ⟨"ibc", []⟩ rfl
  exact h.2.1

end UnionVoyager.Zkgm
