import UnionVoyager.Zkgm.Hops
import UnionVoyager.Zkgm.Refund
import UnionVoyager.Zkgm.Fill

/-!
# Sending a wrapped token back

A wrapped token is created by the first order that is filled with it, and its origin is recorded: the path
of the packet and the channel it arrived on.  Sent back over that channel and the reversed path it is
unwrapped: burned here, and released at the origin from the balance the escrow was counted under.

* `verifyTokenOrderV2_unwraps` — **an unescrow order burns it.**
* `verifyTokenOrderV1_unwraps` — an order of version 1 does where the path is its own reverse.
-/

namespace UnionVoyager.Zkgm

open Lib Function
open Core (ChannelId Addr Coin)

/-! ## The creation of a wrapped token -/

/-- Executing the order records a wrapped token that was not there. -/
structure Creates (env : Env) (x : Execution) (o : Order) (wrapped : String) (s s' : State) : Prop where
  executes : ∃ funds funds' r, o.execute env x s funds = .ok (s', funds', r)
  absent : s.hashToForeignToken wrapped = none
  recorded : s'.hashToForeignToken wrapped ≠ none

/-- Which prediction named the wrapped token. -/
def NamedBy (env : Env) (x : Execution) (wrapped : String) (s' : State) : Order → Prop
  | .v1 o => env.predictWrappedToken x.path x.packet.destinationChannelId o.baseToken = some wrapped
  | .v2 o => ∃ image, s'.metadataImageOf wrapped = some image ∧
      env.predictWrappedTokenFromMetadataImageV2 x.path x.packet.destinationChannelId o.baseToken
        image = some wrapped

/-- The token is recorded with where it came from. -/
structure Registered (env : Env) (x : Execution) (o : Order) (wrapped : String) (s' : State) : Prop where
  origin : ∃ origin, updateChannelPath x.path x.packet.destinationChannelId = .ok origin ∧
    s'.tokenOrigin wrapped = some origin
  named : NamedBy env x wrapped s' o

theorem rateLimit_registry {s s' : State} {d : String} {n now : Nat}
    (h : rateLimit s d n now = .ok s') : s'.hashToForeignToken = s.hashToForeignToken := by
  obtain ⟨buckets, rfl⟩ := rateLimit_frame h
  rfl

variable {funds funds' : Coins} {r : Response}

section Creation

variable {env : Env} {x : Execution} {wrapped : String} {s s' : State}

theorem deployV1_registers {o : TokenOrderV1} {quote : String} {calls : List MinterCall}
    (hpred : env.predictWrappedToken x.path x.packet.destinationChannelId o.baseToken = some quote)
    (h : deployV1 x o quote s = .ok (s', calls)) (habsent : s.hashToForeignToken wrapped = none)
    (hrecorded : s'.hashToForeignToken wrapped ≠ none) : Registered env x (.v1 o) wrapped s' := by
  unfold deployV1 at h
  split at h
  · cases h
    exact absurd habsent hrecorded
  · simp only [bind_eq_ok, pure_eq_ok] at h
    obtain ⟨origin, horigin, h⟩ := h
    cases h
    by_cases hw : wrapped = quote
    · subst hw
      exact ⟨⟨origin, horigin, by simp⟩, hpred⟩
    · simp only [update_of_ne hw] at hrecorded
      exact absurd habsent hrecorded

variable {o : TokenOrderV2}

theorem deployV2_registers {quote : String} {canDeploy : Bool} {calls : List MinterCall}
    (hpred : canDeploy = true → ∀ md, o.metadata.asToken = some md →
      env.predictWrappedTokenFromMetadataImageV2 x.path x.packet.destinationChannelId o.baseToken
        (env.hashing.metadataImage md) = some quote)
    (h : deployV2 env x o quote o.metadata.asToken canDeploy s = .ok (s', calls))
    (habsent : s.hashToForeignToken wrapped = none) (hrecorded : s'.hashToForeignToken wrapped ≠ none) :
    Registered env x (.v2 o) wrapped s' := by
  cases hmd : o.metadata.asToken with
  | none =>
    rw [hmd] at h
    cases h
    exact absurd habsent hrecorded
  | some md =>
    rw [hmd] at h
    simp only [deployV2] at h
    split at h
    · rename_i hdeploy
      simp only [Bool.and_eq_true] at hdeploy
      simp only [bind_eq_ok, pure_eq_ok] at h
      obtain ⟨origin, horigin, h⟩ := h
      cases h
      by_cases hw : wrapped = quote
      · subst hw
        exact ⟨⟨origin, horigin, by simp⟩, _, by simp, hpred hdeploy.1 md hmd⟩
      · simp only [update_of_ne hw] at hrecorded
        exact absurd habsent hrecorded
    · cases h
      exact absurd habsent hrecorded

theorem Creates.registered {o : Order} (h : Creates env x o wrapped s s') :
    Registered env x o wrapped s' := by
  obtain ⟨funds, funds', r, hexec⟩ := h.executes
  have habsent := h.absent
  have hrecorded := h.recorded
  cases Order.execute_filled hexec with
  | mint hleft hquote hpred hv1 hle hlimit hdeploy =>
    rw [← rateLimit_registry hlimit] at habsent
    cases o with
    | v1 o => exact deployV1_registers hdeploy.1 hdeploy.2 habsent hrecorded
    | v2 o =>
      obtain ⟨canDeploy, hnamed, hdeploy⟩ := hdeploy
      exact deployV2_registers hnamed hdeploy habsent hrecorded
  | unescrow hleft hquote hburns hrev hle hlimit hv hbal hs' =>
    subst hs'
    rw [← rateLimit_registry hlimit] at habsent
    exact absurd habsent hrecorded
  | relayer hleft hs' =>
    subst hs'
    exact absurd habsent hrecorded
  | solver => exact absurd habsent hrecorded

end Creation

/-! ## Sending it back -/

/-- The minter answers every query for a wrapped token. -/
structure Env.Answers (env : Env) : Prop where
  v1 : ∀ path channelId token, ∃ w, env.predictWrappedToken path channelId token = some w
  v2 : ∀ path channelId token image, ∃ w, env.predictWrappedTokenFromMetadataImageV2 path channelId
    token image = some w

/-- What was recorded of the token is still there. -/
structure Kept (wrapped : String) (s s' : State) : Prop where
  tokenOrigin : s'.tokenOrigin wrapped = s.tokenOrigin wrapped
  metadataImageOf : s'.metadataImageOf wrapped = s.metadataImageOf wrapped

section Back

variable {env : Env} {x : Execution} {o : Order} {wrapped : String} {s : State} {info : MessageInfo}
  {reversed : U256} {w : Walk}

theorem originOf_registered (h : Registered env x o wrapped s) (hkept : Kept wrapped s w.state) :
    originOf w.state wrapped = (x.path, some x.packet.destinationChannelId) := by
  obtain ⟨origin, hupd, horigin⟩ := h.origin
  rw [originOf, hkept.tokenOrigin, horigin]
  exact popChannelFromPath_update hupd

theorem verifyTokenOrderV2_unwraps (hanswers : env.Answers) (h : Registered env x o wrapped s)
    (hkept : Kept wrapped s w.state) (hrev : reverseChannelPath x.path = .ok reversed)
    {back : TokenOrderV2} (hkind : back.kind = TOKEN_ORDER_KIND_UNESCROW)
    (hbase : back.baseToken = utf8 wrapped) (hquote : back.quoteToken = o.baseToken)
    (hlt : back.baseAmount < 2 ^ 128) {coins : Coins × List Coin}
    (htake : w.funds.take wrapped back.baseAmount = .ok coins) :
    verifyTokenOrderV2 env info x.packet.destinationChannelId reversed back w =
        .ok ({ w with funds := coins.1 }.push
        (.burnTokens wrapped back.baseAmount w.state.tokenMinter info.sender) coins.2) := by
  have hdenom : fromUtf8 back.baseToken = some wrapped := fromUtf8_eq_some.mpr hbase
  have hamount : toU128 back.baseAmount = .ok back.baseAmount := toU128_eq_ok.mpr ⟨hlt, rfl⟩
  have horigin := originOf_registered h hkept
  obtain ⟨w₁, hw₁⟩ := hanswers.v1 x.path x.packet.destinationChannelId o.baseToken
  obtain ⟨w₂, hw₂⟩ := hanswers.v2 x.path x.packet.destinationChannelId o.baseToken
    ((w.state.metadataImageOf wrapped).getD 0)
  -- one of the two predictions is the one that named the token
  have hnamed : wrapped = w₁ ∨ wrapped = w₂ := by
    cases o with
    | v1 o =>
      have hn : _ = some wrapped := h.named
      exact .inl (Option.some.inj (hn.symm.trans hw₁))
    | v2 o =>
      obtain ⟨image, himage, hn⟩ := h.named
      rw [hkept.metadataImageOf, himage, Option.getD_some] at hw₂
      exact .inr (Option.some.inj (hn.symm.trans hw₂))
  simp only [verifyTokenOrderV2, hdenom, ok_bind, if_pos hkind, horigin, hrev, hquote, hw₁, hw₂, okOr, orErr,
    require, ensure, hnamed, true_and, and_self, if_true, htake, hamount]
  rfl

theorem verifyTokenOrderV1_unwraps {made : TokenOrderV1} (h : Registered env x (.v1 made) wrapped s)
    (hkept : Kept wrapped s w.state) (hrev : reverseChannelPath x.path = .ok x.path)
    {back : TokenOrderV1} (hbase : back.baseToken = utf8 wrapped) (hquote : back.quoteToken = made.baseToken)
    (horigin : w.state.tokenOrigin wrapped = some back.baseTokenPath)
    (hmeta : env.metadata wrapped = some (back.baseTokenName, back.baseTokenSymbol, back.baseTokenDecimals))
    (hlt : back.baseAmount < 2 ^ 128) {coins : Coins × List Coin}
    (htake : w.funds.takeNonZero wrapped back.baseAmount = .ok coins) :
    verifyTokenOrderV1 env info x.packet.destinationChannelId x.path back w =
        .ok ({ w with funds := coins.1 }.push
        (.burnTokens wrapped back.baseAmount w.state.tokenMinter info.sender) coins.2) := by
  have hdenom : fromUtf8 back.baseToken = some wrapped := fromUtf8_eq_some.mpr hbase
  have hamount : toU128 back.baseAmount = .ok back.baseAmount := toU128_eq_ok.mpr ⟨hlt, rfl⟩
  have hsplit := originOf_registered h hkept
  have hn : env.predictWrappedToken x.path x.packet.destinationChannelId made.baseToken =
    some wrapped := h.named
  simp only [verifyTokenOrderV1, hdenom, ok_bind, hmeta, okOr, orErr, require, ensure, if_true, hquote, hn,
    hsplit, hrev, htake, and_self, horigin, Option.getD_some, hamount]
  rfl

end Back

/-! ## The balance at the origin -/

/-- **At the origin, an order that came back over the reversed path is filled from the balance under the
    forward path, or from none.** -/
theorem execute_decreases {env : Env} {x : Execution} {back : Order} {s s' : State} {hops : List ChannelId}
    {denom : String} (hlen : hops.length ≤ 8) (hsmall : SmallIds hops) (hpath : x.path = pathOf hops.reverse)
    (hquote : back.quoteToken = utf8 denom) (h : back.execute env x s funds = .ok (s', funds', r)) :
    s'.channelBalanceV2 = s.channelBalanceV2 ∨
      ∃ v, s.channelBalanceV2 ⟨x.packet.destinationChannelId, pathOf hops, denom, back.baseToken⟩ = some v ∧
        back.baseAmount ≤ v ∧ s'.channelBalanceV2 = update s.channelBalanceV2
          ⟨x.packet.destinationChannelId, pathOf hops, denom, back.baseToken⟩
          (some (v - back.baseAmount)) := by
  cases Order.execute_filled h with
  | mint hleft hquote' hpred hv1 hle hlimit hdeploy =>
    exact .inl ((frame_rateLimit hlimit).trans hdeploy.frame.1).channelBalanceV2
  | relayer hleft hs' =>
    subst hs'
    exact .inl rfl
  | solver hleft => exact .inl rfl
  | @unescrow s₁ _ quote receiver reversed v hleft hquote' hburns hrev hle hlimit hv hbal hs' =>
    obtain rfl : quote = denom := utf8_injective (hquote'.symm.trans hquote)
    have hback : reverseChannelPath x.path = .ok (pathOf hops) := by
      rw [hpath, reverseChannelPath_pathOf (by simpa using hlen)
        (fun c hc => hsmall c (List.mem_reverse.mp hc)), List.reverse_reverse]
    obtain rfl : reversed = pathOf hops := by
      rw [hback] at hrev
      cases hrev
      rfl
    refine .inr ⟨v, hv, hbal, ?_⟩
    rw [hs', State.setBalance, (frame_rateLimit hlimit).channelBalanceV2]

theorem verify_increases {env : Env} {info : MessageInfo} {channelId : ChannelId} {path : U256}
    {o : Order} {w w' : Walk} {denom : String} (hburns : o.burns = false)
    (hbase : o.baseToken = utf8 denom) (h : o.verify env info channelId path w = .ok w') :
    w'.state = w.state.setBalance ⟨channelId, path, denom, o.quoteToken⟩
      (w.state.balance ⟨channelId, path, denom, o.quoteToken⟩ + o.baseAmount) := by
  obtain ⟨base, funds, coins, hbase', -, -, hcase⟩ := Order.verify_cases h
  obtain rfl : base = denom := utf8_injective (hbase'.symm.trans hbase)
  rcases hcase with ⟨hb, -, -⟩ | ⟨-, rfl⟩
  · rw [hburns] at hb
    cases hb
  · rfl

/-! ## There and back -/

section

variable (env : Env) (channelId : ChannelId) (path : U256) (token : Bytes) (wrapped : String)
  (s : State)

/-- A token that was created from an order is burned by the unescrow orders that send it back. -/
def UnwrappedByV2 : Prop :=
  ∀ (info : MessageInfo) (w : Walk) (back : TokenOrderV2) (coins : Coins × List Coin),
    Kept wrapped s w.state → back.kind = TOKEN_ORDER_KIND_UNESCROW → back.baseToken = utf8 wrapped →
    back.quoteToken = token → back.baseAmount < 2 ^ 128 →
    w.funds.take wrapped back.baseAmount = .ok coins →
    verifyTokenOrderV2 env info channelId path back w = .ok ({ w with funds := coins.1 }.push
      (.burnTokens wrapped back.baseAmount w.state.tokenMinter info.sender) coins.2)

/-- A token that was created from an order is burned by the orders of version 1 that send it back and name
    its origin. -/
def UnwrappedByV1 : Prop :=
  ∀ (info : MessageInfo) (w : Walk) (back : TokenOrderV1) (coins : Coins × List Coin),
    Kept wrapped s w.state → back.baseToken = utf8 wrapped → back.quoteToken = token →
    w.state.tokenOrigin wrapped = some back.baseTokenPath →
    env.metadata wrapped = some (back.baseTokenName, back.baseTokenSymbol, back.baseTokenDecimals) →
    back.baseAmount < 2 ^ 128 → w.funds.takeNonZero wrapped back.baseAmount = .ok coins →
    verifyTokenOrderV1 env info channelId path back w = .ok ({ w with funds := coins.1 }.push
      (.burnTokens wrapped back.baseAmount w.state.tokenMinter info.sender) coins.2)

end

/-- The version of an order. -/
def Order.isV1 : Order → Bool
  | .v1 _ => true
  | .v2 _ => false

/-- **There and back over any number of hops.**  A packet that was forwarded along `hops` carries
    `pathOf hops`; sent back along the reversed path a token that its order created is burned; the
    packet then carries the reversed path; and at the origin the balance that is decreased is the
    one the escrow was counted under. -/
theorem unwraps_the_way_it_came {hops : List ChannelId} (heven : Even hops.length)
    (hlen : hops.length ≤ 8) (hsmall : SmallIds hops) :
    travel 5 (pathOf hops) 0 = .ok (pathOf hops) ∧
    reverseChannelPath (pathOf hops) = .ok (pathOf hops.reverse) ∧
    travel 5 (pathOf hops.reverse) 0 = .ok (pathOf hops.reverse) ∧
    (∀ {env : Env} {x : Execution} {o : Order} {wrapped : String} {s s' : State}, env.Answers →
      x.path = pathOf hops → Creates env x o wrapped s s' →
      UnwrappedByV2 env x.packet.destinationChannelId (pathOf hops.reverse) o.baseToken wrapped s' ∧
      (o.isV1 = true → hops.reverse = hops →
        UnwrappedByV1 env x.packet.destinationChannelId (pathOf hops.reverse) o.baseToken wrapped s')) ∧
    (∀ {env : Env} {info : MessageInfo} {channelId : ChannelId} {o back : Order} {w w' : Walk}
        {x : Execution} {s s' : State} {funds funds' : Coins} {r : Response} {denom : String},
      o.burns = false → o.baseToken = utf8 denom → o.verify env info channelId (pathOf hops) w = .ok w' →
      x.path = pathOf hops.reverse → x.packet.destinationChannelId = channelId →
      back.quoteToken = o.baseToken → back.baseToken = o.quoteToken →
      back.execute env x s funds = .ok (s', funds', r) →
      ∃ k, w'.state = w.state.setBalance k (w.state.balance k + o.baseAmount) ∧
        (s'.channelBalanceV2 = s.channelBalanceV2 ∨ ∃ v, s.channelBalanceV2 k = some v ∧
          back.baseAmount ≤ v ∧ s'.channelBalanceV2 =
            update s.channelBalanceV2 k (some (v - back.baseAmount)))) := by
  have hsmall' : SmallIds hops.reverse := fun c hc => hsmall c (List.mem_reverse.mp hc)
  have hrev := reverseChannelPath_pathOf hlen hsmall
  refine ⟨travel_pathOf heven hlen hsmall, hrev,
    travel_pathOf (by simpa using heven) (by simpa using hlen) hsmall', ?_, ?_⟩
  · intro env x o wrapped s s' hanswers hpath hcreates
    have hreg := hcreates.registered
    rw [← hpath] at hrev
    constructor
    · intro info w back coins hkept hkind hbase hquote hlt htake
      exact verifyTokenOrderV2_unwraps hanswers hreg hkept hrev hkind hbase hquote hlt htake
    · intro hv1 hpalindrome info w back coins hkept hbase hquote horigin hmeta hlt htake
      cases o with
      | v1 o =>
        rw [hpalindrome, ← hpath] at hrev ⊢
        exact verifyTokenOrderV1_unwraps hreg hkept hrev hbase hquote horigin hmeta hlt htake
      | v2 o => cases hv1
  · intro env info channelId o back w w' x s s' funds funds' r denom hburns hbase hver hpath hchan
      hquote hback hexec
    refine ⟨_, verify_increases hburns hbase hver, ?_⟩
    have hdec := execute_decreases hlen hsmall hpath (hquote.trans hbase) hexec
    rwa [hchan, hback] at hdec

/-! ## Concrete runs -/

/-- A chain whose wrapped tokens are named after their path, too. -/
def Env.byPath : Env :=
  { Env.ideal with
    predictWrappedToken := fun path _ token =>
      some ("wrapped/" ++ toString path.toNat ++ "/" ++ (fromUtf8 token).getD "")
    predictWrappedTokenFromMetadataImageV2 := fun path _ token _ =>
      some ("wrapped2/" ++ toString path.toNat ++ "/" ++ (fromUtf8 token).getD "") }

/-- An order of version 1 for five `uatom`. -/
def madeV1 (wrapped : String) : TokenOrderV1 :=
  ⟨utf8 "alice", utf8 "bob", utf8 "uatom", 5, "symbol", "name", 6, 0, utf8 wrapped, 5⟩

/-- An order of version 2 that initialises its token. -/
def madeV2 (wrapped : String) : TokenOrderV2 :=
  ⟨utf8 "alice", utf8 "bob", utf8 "uatom", 5, utf8 wrapped, 5, TOKEN_ORDER_KIND_INITIALIZE, .pair [] []⟩

/-- The order of version 1 that sends the token back. -/
def backV1 (wrapped : String) (origin : U256) : TokenOrderV1 :=
  ⟨utf8 "bob", utf8 "alice", utf8 wrapped, 5, "symbol", "name", 6, origin, utf8 "uatom", 5⟩

/-- A packet of one order that was forwarded along these hops. -/
def travelled (hops : List ChannelId) (o : Order) : Execution :=
  ⟨"relayer", samplePacket o.toInstruction, "relayer", [], pathOf hops, false⟩

/-- Storage after a token was created from `uatom`. -/
def createdV1 (wrapped : String) (origin : U256) : State :=
  { State.fresh with
    hashToForeignToken := update State.fresh.hashToForeignToken wrapped (some (utf8 "uatom"))
    tokenOrigin := update State.fresh.tokenOrigin wrapped (some origin) }

def createdV2 (wrapped : String) (origin : U256) : State :=
  { createdV1 wrapped origin with
    metadataImageOf := update State.fresh.metadataImageOf wrapped (some 1) }

def bobPays (wrapped : String) : MessageInfo := ⟨"bob", [⟨wrapped, 5⟩]⟩

theorem createdV1_twoHops :
    Creates Env.byPath (travelled [channelOne, channelTwo] (.v1 (madeV1 "wrapped/8589934593/uatom")))
      (.v1 (madeV1 "wrapped/8589934593/uatom")) "wrapped/8589934593/uatom" State.fresh
      (createdV1 "wrapped/8589934593/uatom" 0x20000000200000001) where
  executes := ⟨Coins.ofList [], _, _, rfl⟩
  absent := rfl
  recorded := by simp [createdV1]

/-- **An order of version 1 refuses to unwrap** a token that an order of version 2 created over no
    hop, and one that an order of version 1 created over the hops 1 and 2, although it comes over
    the reversed path. -/
theorem version_one_does_not_unwrap :
    (Creates Env.byPath (travelled [] (.v2 (madeV2 "wrapped2/0/uatom"))) (.v2 (madeV2 "wrapped2/0/uatom"))
        "wrapped2/0/uatom" State.fresh (createdV2 "wrapped2/0/uatom" 2) ∧
      verifyTokenOrderV1 Env.byPath (bobPays "wrapped2/0/uatom") channelTwo 0 (backV1 "wrapped2/0/uatom" 2)
        ⟨createdV2 "wrapped2/0/uatom" 2, Coins.ofList [⟨"wrapped2/0/uatom", 5⟩], []⟩ =
          .error (.err (.invalidAssetOrigin 2 0))) ∧
    (Creates Env.byPath (travelled [channelOne, channelTwo] (.v1 (madeV1 "wrapped/8589934593/uatom")))
        (.v1 (madeV1 "wrapped/8589934593/uatom")) "wrapped/8589934593/uatom" State.fresh
        (createdV1 "wrapped/8589934593/uatom" 0x20000000200000001) ∧
      reverseChannelPath (pathOf [channelOne, channelTwo]) = .ok (pathOf [channelTwo, channelOne]) ∧
      verifyTokenOrderV1 Env.byPath (bobPays "wrapped/8589934593/uatom") channelTwo
        (pathOf [channelTwo, channelOne]) (backV1 "wrapped/8589934593/uatom" 0x20000000200000001)
        ⟨createdV1 "wrapped/8589934593/uatom" 0x20000000200000001,
          Coins.ofList [⟨"wrapped/8589934593/uatom", 5⟩], []⟩ =
          .error (.err (.invalidAssetOrigin 0x20000000200000001 0))) := by
  refine ⟨⟨⟨⟨Coins.ofList [], _, _, rfl⟩, rfl, ?_⟩, rfl⟩, createdV1_twoHops, rfl, rfl⟩
  simp [createdV2, createdV1]

/-- The token that came over the hops 1 and 2 is unwrapped by an unescrow order. -/
theorem unwraps_over_two_hops : (Even [channelOne, channelTwo].length ∧ [channelOne, channelTwo].length ≤ 8 ∧
      SmallIds [channelOne, channelTwo]) ∧
    reverseChannelPath (pathOf [channelOne, channelTwo]) = .ok (pathOf [channelTwo, channelOne]) ∧
    UnwrappedByV2 Env.byPath channelTwo (pathOf [channelTwo, channelOne]) (utf8 "uatom")
      "wrapped/8589934593/uatom" (createdV1 "wrapped/8589934593/uatom" 0x20000000200000001) := by
  have hsmall : SmallIds [channelOne, channelTwo] := by unfold SmallIds; decide
  obtain ⟨-, hrev, -, hunwraps, -⟩ := @unwraps_the_way_it_came [channelOne, channelTwo]
    (by decide) (by decide) hsmall
  refine ⟨⟨by decide, by decide, hsmall⟩, hrev, ?_⟩
  exact (hunwraps ⟨fun _ _ _ => ⟨_, rfl⟩, fun _ _ _ _ => ⟨_, rfl⟩⟩ rfl createdV1_twoHops).1

end UnionVoyager.Zkgm
