import UnionVoyager.Zkgm.Leaf

/-!
# What executing a leaf does

Executing an order or a call only touches part of the storage at once; the rest happens when the
messages of its response run.  This module says, once, what each can be.

* `Work` — what a leaf asks of other contracts; `Leaf.execute_work` — its response is that and nothing
  else.
-/

namespace UnionVoyager.Zkgm

open Lib
open Core (ChannelId Addr Coin)

/-! ## Frames -/

/-- Balances, slots and the configuration are unchanged. -/
structure Frame (s s' : State) : Prop where
  config : s'.config = s.config
  tokenMinter : s'.tokenMinter = s.tokenMinter
  channelBalanceV2 : s'.channelBalanceV2 = s.channelBalanceV2
  slots : s'.slots = s.slots

theorem Frame.refl (s : State) : Frame s s := ⟨rfl, rfl, rfl, rfl⟩

variable {s s' : State}

theorem Frame.trans {s₁ : State} (h : Frame s s₁) (h' : Frame s₁ s') : Frame s s' :=
  ⟨h'.config.trans h.config, h'.tokenMinter.trans h.tokenMinter,
    h'.channelBalanceV2.trans h.channelBalanceV2, h'.slots.trans h.slots⟩

theorem frame_rateLimit {d : String} {n now : Nat} (h : rateLimit s d n now = .ok s') : Frame s s' := by
  obtain ⟨buckets, rfl⟩ := rateLimit_frame h
  exact ⟨rfl, rfl, rfl, rfl⟩

/-- The message creates a denom; it moves no tokens. -/
def MinterMsg.isCreate : MinterMsg → Bool
  | .createDenom .. => true
  | .createDenomV2 .. => true
  | _ => false

variable {x : Execution}

theorem deployV1_frame {o : TokenOrderV1} {wrapped : String} {calls : List MinterCall}
    (h : deployV1 x o wrapped s = .ok (s', calls)) :
    Frame s s' ∧ s'.tokenBucket = s.tokenBucket ∧ ∀ c ∈ calls, c.msg.isCreate = true := by
  unfold deployV1 at h
  split at h
  · cases h
    exact ⟨.refl s, rfl, by simp⟩
  · simp only [bind_eq_ok, pure_eq_ok] at h
    obtain ⟨origin, -, h⟩ := h
    cases h
    refine ⟨⟨rfl, rfl, rfl, rfl⟩, rfl, ?_⟩
    intro c hc
    rw [List.mem_singleton.mp hc]
    rfl

variable {env : Env} {o : TokenOrderV2}

theorem deployV2_frame {wrapped : String} {md : Option TokenMetadata} {canDeploy : Bool}
    {calls : List MinterCall} (h : deployV2 env x o wrapped md canDeploy s = .ok (s', calls)) :
    Frame s s' ∧ s'.tokenBucket = s.tokenBucket ∧ ∀ c ∈ calls, c.msg.isCreate = true := by
  cases md with
  | none =>
    cases h
    exact ⟨.refl s, rfl, by simp⟩
  | some md =>
    simp only [deployV2] at h
    split at h
    · simp only [bind_eq_ok, pure_eq_ok] at h
      obtain ⟨origin, -, h⟩ := h
      cases h
      refine ⟨⟨rfl, rfl, rfl, rfl⟩, rfl, ?_⟩
      intro c hc
      rw [List.mem_singleton.mp hc]
      rfl
    · cases h
      exact ⟨.refl s, rfl, by simp⟩

/-- What minting for the order does first: the wrapped token is created if it is not there, for an
    order of version 2 only if it initialises. -/
def Order.Deploys (env : Env) (x : Execution) (quote : String) (s s' : State)
    (calls : List MinterCall) : Order → Prop
  | .v1 o => env.predictWrappedToken x.path x.packet.destinationChannelId o.baseToken = some quote ∧
    deployV1 x o quote s = .ok (s', calls)
  | .v2 o => ∃ canDeploy, (canDeploy = true → ∀ md, o.metadata.asToken = some md →
      env.predictWrappedTokenFromMetadataImageV2 x.path x.packet.destinationChannelId o.baseToken
        (env.hashing.metadataImage md) = some quote) ∧
    deployV2 env x o quote o.metadata.asToken canDeploy s = .ok (s', calls)

theorem Order.Deploys.frame {o : Order} {quote : String} {calls : List MinterCall}
    (h : o.Deploys env x quote s s' calls) :
    Frame s s' ∧ s'.tokenBucket = s.tokenBucket ∧ ∀ c ∈ calls, c.msg.isCreate = true := by
  cases o with
  | v1 o => exact deployV1_frame h.2
  | v2 o =>
    obtain ⟨canDeploy, -, h⟩ := h
    exact deployV2_frame h

/-! ## The ways an order is filled -/

def Order.solves : Order → Bool
  | .v1 _ => false
  | .v2 o => o.kind == TOKEN_ORDER_KIND_SOLVE

/-- The protocol fills the order unless a market maker asked for it. -/
def Order.protocolFills (env : Env) (x : Execution) (s : State) : Order → Bool
  | .v1 o => decide (o.quoteAmount ≤ o.baseAmount) &&
      ((fromUtf8 o.quoteToken == env.predictWrappedToken x.path x.packet.destinationChannelId
        o.baseToken) || o.baseTokenPath != 0)
  | .v2 o => decide (o.quoteAmount ≤ o.baseAmount) && (o.kind == TOKEN_ORDER_KIND_UNESCROW ||
      match fromUtf8 o.quoteToken with
      | some quote => (wrappedTokenV2 env x o quote s).toOption == some (some quote)
      | none => false)

def Order.leftToRelayer (env : Env) (x : Execution) (s : State) (o : Order) : Bool :=
  !o.solves && (x.intent || !o.protocolFills env x s)

/-- The protocol mints the wrapped token or releases escrowed tokens, a relayer pays, or a solver is
    asked to. -/
inductive Filled (env : Env) (x : Execution) (o : Order) (s : State) : State → Response → Prop
  | mint {s₁ s' : State} {quote : String} {receiver : Addr} {deploy : List MinterCall}
      (hleft : o.leftToRelayer env x s = false) (hquote : o.quoteToken = utf8 quote)
      (hpred : env.Predicts x.path x.packet.destinationChannelId o.baseToken quote)
      (hv1 : o.burns = true →
        env.predictWrappedToken x.path x.packet.destinationChannelId o.baseToken = some quote)
      (hle : o.quoteAmount ≤ o.baseAmount) (hlimit : rateLimit s quote o.quoteAmount env.now = .ok s₁)
      (hdeploy : o.Deploys env x quote s₁ s' deploy) :
      Filled env x o s s' (protocolFill (deploy ++
        mintCalls s' quote receiver x.relayer o.quoteAmount (o.baseAmount - o.quoteAmount)))
  | unescrow {s₁ s' : State} {quote : String} {receiver : Addr} {reversed : U256} {v : Nat}
      (hleft : o.leftToRelayer env x s = false) (hquote : o.quoteToken = utf8 quote) (hburns : o.burns = true)
      (hrev : reverseChannelPath x.path = .ok reversed)
      (hle : o.quoteAmount ≤ o.baseAmount) (hlimit : rateLimit s quote o.quoteAmount env.now = .ok s₁)
      (hv : s.channelBalanceV2 ⟨x.packet.destinationChannelId, reversed, quote, o.baseToken⟩ = some v)
      (hbal : o.baseAmount ≤ v)
      (hs' : s' = s₁.setBalance ⟨x.packet.destinationChannelId, reversed, quote, o.baseToken⟩
        (v - o.baseAmount)) :
      Filled env x o s s' (protocolFill
        (unescrowCalls s' quote receiver x.relayer o.quoteAmount (o.baseAmount - o.quoteAmount)))
  | relayer {s' : State} {quote : String} {receiver : Addr} {coins : List Coin}
      (hleft : o.leftToRelayer env x s = true) (hs' : s' = { s with marketMaker := some x.relayerMsg }) :
      Filled env x o s s'
        [relayerFill (fillMessages s' x.caller quote receiver o.quoteAmount coins)]
  | solver {address : String} {msg : DoSolve} (hleft : o.leftToRelayer env x s = false) :
      Filled env x o s s [⟨.solver address msg, some (.always, .mmSolverFill)⟩]

theorem Order.leftToRelayer_of_protocolFills {o : Order} (hi : x.intent = false)
    (h : o.protocolFills env x s = true) : o.leftToRelayer env x s = false := by
  simp [Order.leftToRelayer, hi, h]

variable {funds funds' : Coins} {r : Response}

theorem marketMakerFillV2_filled
    (hm : (Order.v2 o).solves = false → x.intent = true ∨ (Order.v2 o).protocolFills env x s = false)
    (h : marketMakerFillV2 env x o s funds = .ok (s', funds', r)) : Filled env x (.v2 o) s s' r := by
  unfold marketMakerFillV2 at h
  split at h
  · rename_i hk
    simp only [solverMarketMakerFillV2, bind_eq_ok, pure_eq_ok] at h
    obtain ⟨md, -, solver, -, h⟩ := h
    cases h
    exact .solver (by simp [Order.leftToRelayer, Order.solves, hk])
  · rename_i hk
    have hs : (Order.v2 o).solves = false := by simpa [Order.solves] using hk
    simp only [relayerMarketMakerFillV2, bind_eq_ok, pure_eq_ok, toU128_eq_ok] at h
    obtain ⟨quote, -, receiver, -, amount, ⟨-, rfl⟩, fc, -, h⟩ := h
    cases h
    refine .relayer ?_ rfl
    rcases hm hs with hi | hp
    · simp [Order.leftToRelayer, hs, hi]
    · simp [Order.leftToRelayer, hs, hp]

theorem executeTokenOrderV1_filled {o : TokenOrderV1}
    (h : executeTokenOrderV1 env x o s funds = .ok (s', funds', r)) :
    Filled env x (.v1 o) s s' r := by
  simp only [executeTokenOrderV1, bind_eq_ok, okOr_eq_ok, fromUtf8_eq_some, toU128_eq_ok] at h
  obtain ⟨quote, hquote, receiver, -, base, ⟨-, rfl⟩, amount, ⟨-, rfl⟩, h⟩ := h
  have hmaker : ∀ {r' : Step}, (x.intent = true ∨ (Order.v1 o).protocolFills env x s = false) →
      marketMakerFill x o.quoteAmount quote receiver s funds = .ok r' →
      Filled env x (.v1 o) s r'.1 r'.2.2 := by
    intro r' hm hr'
    simp only [marketMakerFill, bind_eq_ok, pure_eq_ok] at hr'
    obtain ⟨fc, -, rfl⟩ := hr'
    refine .relayer ?_ rfl
    rcases hm with hi | hp
    · simp [Order.leftToRelayer, Order.solves, hi]
    · simp [Order.leftToRelayer, Order.solves, hp]
  split at h
  · rename_i hi
    exact hmaker (.inl hi) h
  · rename_i hi
    have hi : x.intent = false := by simpa using hi
    simp only [bind_eq_ok, okOr_eq_ok] at h
    obtain ⟨wrapped, hwrapped, h⟩ := h
    have hfills : (Order.v1 o).protocolFills env x s =
        (decide (o.quoteAmount ≤ o.baseAmount) && (quote == wrapped || o.baseTokenPath != 0)) := by
      simp only [Order.protocolFills, fromUtf8_eq_some.mpr hquote, hwrapped]
      rfl
    split at h
    · rename_i hcond
      obtain ⟨rfl, hle⟩ := hcond
      simp only [bind_eq_ok, pure_eq_ok] at h
      obtain ⟨s₁, h₁, ⟨s₂, deploy⟩, h₂, h⟩ := h
      cases h
      refine .mint (Order.leftToRelayer_of_protocolFills hi ?_) hquote (.inl hwrapped)
        (fun _ => hwrapped) hle h₁ ⟨hwrapped, h₂⟩
      simp [hfills, hle]
    · rename_i hnot
      split at h
      · rename_i hcond
        simp only [bind_eq_ok, pure_eq_ok, decreaseChannelBalanceV2_eq_ok] at h
        obtain ⟨s₁, h₁, reversed, hrev, s₂, ⟨v, hv, hbal, rfl⟩, h⟩ := h
        cases h
        rw [(frame_rateLimit h₁).channelBalanceV2] at hv
        refine .unescrow (Order.leftToRelayer_of_protocolFills hi ?_) hquote
          (by simpa [Order.burns] using hcond.1) hrev hcond.2 h₁ hv hbal rfl
        simp only [hfills, hcond.2, decide_true, Bool.true_and, Bool.or_eq_true, bne_iff_ne]
        exact .inr hcond.1
      · rename_i hnot'
        refine hmaker (.inr ?_) h
        simp only [hfills]
        grind

theorem wrappedTokenV2_eq_some {quote : String} (h : wrappedTokenV2 env x o quote s = .ok (some quote)) :
    env.Predicts x.path x.packet.destinationChannelId o.baseToken quote ∧
      (Order.v2 o).burns = false := by
  unfold wrappedTokenV2 at h
  split at h
  · rename_i hk
    refine ⟨?_, by simp [Order.burns, hk, TOKEN_ORDER_KIND_ESCROW, TOKEN_ORDER_KIND_UNESCROW]⟩
    dsimp only at h
    split at h
    · simp only [bind_eq_ok, pure_eq_ok, okOr_eq_ok] at h
      obtain ⟨w, hw, hq⟩ := h
      cases hq
      exact .inl hw
    · simp only [bind_eq_ok, pure_eq_ok, okOr_eq_ok] at h
      obtain ⟨w, hw, hq⟩ := h
      cases hq
      exact .inr ⟨_, hw⟩
  · split at h
    · rename_i hk
      refine ⟨?_, by simp [Order.burns, hk, TOKEN_ORDER_KIND_INITIALIZE, TOKEN_ORDER_KIND_UNESCROW]⟩
      split at h
      · simp only [bind_eq_ok, pure_eq_ok, okOr_eq_ok, require_eq_ok] at h
        obtain ⟨w, hw, _, -, hq⟩ := h
        cases hq
        exact .inr ⟨_, hw⟩
      · cases h
    · cases h

theorem executeTokenOrderV2_filled (h : executeTokenOrderV2 env x o s funds = .ok (s', funds', r)) :
    Filled env x (.v2 o) s s' r := by
  simp only [executeTokenOrderV2, bind_eq_ok, okOr_eq_ok, fromUtf8_eq_some] at h
  obtain ⟨quote, hquote, receiver, -, h⟩ := h
  split at h
  · rename_i hor
    refine marketMakerFillV2_filled ?_ h
    intro hs
    rcases hor with hi | hk
    · exact .inl hi
    · simp [Order.solves, hk] at hs
  · rename_i hor
    have hi : x.intent = false := by
      have := (not_or.mp hor).1
      simpa using this
    split at h
    · rename_i hcond
      simp only [protocolFillUnescrowV2, bind_eq_ok, pure_eq_ok, toU128_eq_ok, require_eq_ok,
        decreaseChannelBalanceV2_eq_ok] at h
      obtain ⟨base, ⟨-, rfl⟩, amount, ⟨-, rfl⟩, s₁, h₁, _, -, reversed, hrev, s₂, ⟨v, hv, hbal, rfl⟩, h⟩ := h
      cases h
      rw [(frame_rateLimit h₁).channelBalanceV2] at hv
      refine .unescrow (Order.leftToRelayer_of_protocolFills hi ?_) hquote
        (by simpa [Order.burns] using hcond.1) hrev hcond.2 h₁ hv hbal rfl
      simp [Order.protocolFills, hcond.1, hcond.2]
    · rename_i hunescrow
      simp only [bind_eq_ok] at h
      obtain ⟨wrapped, hwrapped, h⟩ := h
      have hfills : (Order.v2 o).protocolFills env x s = (decide (o.quoteAmount ≤ o.baseAmount) &&
          (o.kind == TOKEN_ORDER_KIND_UNESCROW || wrapped == some quote)) := by
        simp only [Order.protocolFills, fromUtf8_eq_some.mpr hquote, hwrapped]
        rfl
      split at h
      · rename_i hcond
        obtain ⟨rfl, hle⟩ := hcond
        simp only [protocolFillMint, bind_eq_ok, pure_eq_ok, toU128_eq_ok, require_eq_ok] at h
        obtain ⟨base, ⟨-, rfl⟩, amount, ⟨-, rfl⟩, s₁, h₁, _, -, ⟨s₂, deploy⟩, h₂, h⟩ := h
        cases h
        obtain ⟨hpred, hburns⟩ := wrappedTokenV2_eq_some hwrapped
        refine .mint (Order.leftToRelayer_of_protocolFills hi ?_) hquote hpred ?_ hle h₁ ⟨_, ?_, h₂⟩
        · simp [hfills, hle]
        · intro hb
          rw [hburns] at hb
          cases hb
        · -- only an initialising order deploys, and its metadata name the token
          intro hinit md hmd
          have hkind : o.kind = TOKEN_ORDER_KIND_INITIALIZE := by simpa using hinit
          have hne : ¬ o.kind = TOKEN_ORDER_KIND_ESCROW := by
            rw [hkind]
            decide
          simp only [wrappedTokenV2, if_neg hne, if_pos hkind, hmd, bind_eq_ok, okOr_eq_ok,
            pure_eq_ok] at hwrapped
          obtain ⟨w, hw, _, -, hq⟩ := hwrapped
          cases hq
          exact hw
      · rename_i hnot
        refine marketMakerFillV2_filled (fun _ => .inr ?_) h
        simp only [hfills]
        grind

theorem Order.execute_filled {o : Order} (h : o.execute env x s funds = .ok (s', funds', r)) :
    Filled env x o s s' r := by
  cases o with
  | v1 o => exact executeTokenOrderV1_filled h
  | v2 o => exact executeTokenOrderV2_filled h

/-! ## What a leaf asks of other contracts -/

inductive Work where
  | protocol (calls : List MinterCall)
  | relayer (calls : List MinterCall)
  | solver (address : String) (msg : DoSolve)
  | call (account : List AccountMsg) (target : Addr) (msg : CallMsg)
  | eureka (account : List AccountMsg) (target : Addr) (msg : CallMsg)

/-- The work goes through the slot of the market maker. -/
def Work.isRelayer : Work → Bool
  | .relayer _ => true
  | _ => false

/-- The messages that set up a proxy account. -/
def accountMessages (account : List AccountMsg) : Response := account.map fun m => (CosmosMsg.account m).plain

/-- The messages of a response that get the work done and its acknowledgement written. -/
def Work.response : Work → Response
  | .protocol calls => protocolFill calls
  | .relayer calls => [relayerFill calls]
  | .solver address msg => [⟨.solver address msg, some (.always, .mmSolverFill)⟩]
  | .call account target msg => accountMessages account ++
      [(CosmosMsg.contract target msg).plain, writeAck (.raw (Core.word TAG_ACK_SUCCESS.toNat))]
  | .eureka account target msg =>
    accountMessages account ++ [⟨.contract target msg, some (.success, .call)⟩]

def Leaf.leftToRelayer (env : Env) (x : Execution) (s : State) : Leaf → Bool
  | .order o => o.leftToRelayer env x s
  | .call _ => false

/-- What a leaf changes at once: the slot of the market maker if the relayer is to pay. -/
structure Walked (env : Env) (x : Execution) (l : Leaf) (s s' : State) (k : Work) : Prop where
  isRelayer : k.isRelayer = l.leftToRelayer env x s
  slots : s'.slots = if k.isRelayer then { s.slots with marketMaker := some x.relayerMsg } else s.slots
  config : s'.config = s.config

theorem executeCall_work {c : Call} (h : executeCall env x c s funds = .ok (s', funds', r)) :
    ∃ k : Work, r = k.response ∧ Walked env x (.call c) s s' k := by
  simp only [executeCall, bind_eq_ok] at h
  obtain ⟨target, -, predicted, -, h⟩ := h
  obtain ⟨account, hacc, hwalk⟩ : ∃ account, (createProxy env x c target predicted s).2 =
      accountMessages account ∧ ∀ k : Work, k.isRelayer = false →
        Walked env x (.call c) s (createProxy env x c target predicted s).1 k := by
    unfold createProxy
    dsimp only
    split
    · refine ⟨[.instantiate2 s.config.dummyCodeId _, .migrate predicted s.config.cwAccountCodeId _,
        .updateAdmin predicted predicted], rfl, ?_⟩
      intro k hk
      exact ⟨hk, by rw [hk]; rfl, rfl⟩
    · refine ⟨[], rfl, ?_⟩
      intro k hk
      exact ⟨hk, by rw [hk]; rfl, rfl⟩
  split at h
  · cases h
    exact ⟨.eureka account target _, by rw [hacc]; rfl, hwalk _ rfl⟩
  · cases h
    exact ⟨.call account target _, by rw [hacc]; rfl, hwalk _ rfl⟩

theorem Leaf.execute_work {l : Leaf} (h : l.execute env x s funds = .ok (s', funds', r)) :
    ∃ k : Work, r = k.response ∧ Walked env x l s s' k := by
  cases l with
  | call c => exact executeCall_work h
  | order o =>
    have hframe : ∀ {s' : State} {k : Work}, k.isRelayer = false → o.leftToRelayer env x s = false →
        s'.slots = s.slots → s'.config = s.config → Walked env x (.order o) s s' k := by
      intro s' k hk hl hslots hconfig
      exact ⟨by rw [hk, Leaf.leftToRelayer, hl], by rw [hk, hslots]; rfl, hconfig⟩
    cases Order.execute_filled h with
    | mint hleft hquote hpred hv1 hle hlimit hdeploy =>
      have hf := (frame_rateLimit hlimit).trans hdeploy.frame.1
      exact ⟨.protocol _, rfl, hframe rfl hleft hf.slots hf.config⟩
    | unescrow hleft hquote hburns hrev hle hlimit hv hbal hs' =>
      have hf := frame_rateLimit hlimit
      refine ⟨.protocol _, rfl, ?_⟩
      subst hs'
      exact hframe rfl hleft hf.slots hf.config
    | relayer hleft hs' =>
      subst hs'
      exact ⟨.relayer _, rfl, ⟨hleft.symm, rfl, rfl⟩⟩
    | solver hleft => exact ⟨.solver _ _, rfl, hframe rfl hleft rfl rfl⟩

/-! ## What the leaves of a batch ask for -/

/-- The leaves are executed one after the other and ask for these works. -/
inductive Walks (env : Env) (x : Execution) : List Leaf → State → Coins → List Work → State → Coins → Prop
  | nil (s : State) (funds : Coins) : Walks env x [] s funds [] s funds
  | cons {l : Leaf} {ls : List Leaf} {k : Work} {ks : List Work} {s s₁ s' : State}
      {funds funds₁ funds' : Coins} (hl : l.execute env x s funds = .ok (s₁, funds₁, k.response))
      (hk : Walked env x l s s₁ k) (hls : Walks env x ls s₁ funds₁ ks s' funds') :
      Walks env x (l :: ls) s funds (k :: ks) s' funds'

/-- **A batch is executed leaf by leaf.** -/
theorem walks_of_executeBatch {salt : U256} :
    ∀ {leaves : List Leaf} {index : Nat} {s s' : State} {funds funds' : Coins} {r : Response},
      executeBatch env x salt index (leaves.map Leaf.toInstruction) s funds = .ok (s', funds', r) →
        ∃ works, Walks env x leaves s funds works s' funds' ∧ r = works.flatMap Work.response
  | [], index, s, s', funds, funds', r, h => by
    cases h
    exact ⟨[], .nil s funds, rfl⟩
  | l :: leaves, index, s, s', funds, funds', r, h => by
    simp only [List.map_cons, executeBatch_cons, bind_eq_ok, pure_eq_ok] at h
    obtain ⟨⟨s₁, funds₁, r₁⟩, h₁, ⟨s₂, funds₂, r₂⟩, h₂, h⟩ := h
    cases h
    obtain ⟨k, rfl, hk⟩ := Leaf.execute_work h₁
    obtain ⟨works, hworks, rfl⟩ := walks_of_executeBatch h₂
    exact ⟨k :: works, .cons h₁ hk hworks, rfl⟩

theorem Walks.executeBatch_eq {salt : U256} {leaves : List Leaf} {works : List Work}
    (h : Walks env x leaves s funds works s' funds') :
    ∀ index, executeBatch env x salt index (leaves.map Leaf.toInstruction) s funds =
      .ok (s', funds', works.flatMap Work.response) := by
  induction h with
  | nil s funds =>
    intro index
    rfl
  | cons hl hk hls ih =>
    intro index
    simp only [List.map_cons, executeBatch_cons, hl, ok_bind, ih]
    rfl

theorem Walks.frame {leaves : List Leaf} {works : List Work}
    (h : Walks env x leaves s funds works s' funds') :
    s'.slots = if works.any Work.isRelayer then { s.slots with marketMaker := some x.relayerMsg }
      else s.slots := by
  induction h with
  | nil s funds => rfl
  | @cons l ls k ks s s₁ s' funds funds₁ funds' hl hk hls ih =>
    rw [ih, hk.slots, List.any_cons]
    cases k.isRelayer <;> cases ks.any Work.isRelayer <;> rfl

end UnionVoyager.Zkgm
