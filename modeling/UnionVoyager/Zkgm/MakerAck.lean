import UnionVoyager.Zkgm.Attached

/-!
# Paying the market maker of an order

A market maker that filled an order is paid with what was sent, on the chain it was sent from: zkgm asks
the minter to release it, to mint it, or to burn it where the maker is the burn address.

* `holds_of_escrow` — what the minter can do right after it escrowed.
* `MinterHoldings.chain` — a chain of coins and cw20 tokens.
-/

namespace UnionVoyager.Zkgm

open Lib Function
open Core (ChannelId Addr Coin)

/-! ## The message -/

namespace Order

def isV2 : Order → Bool
  | v1 _ => false
  | v2 _ => true

/-- A V2 order of nothing is settled by nothing. -/
def skips (o : Order) : Bool := o.isV2 && o.baseAmount == 0

/-- The message that pays the maker of an order. -/
def payment (o : Order) (base : String) (maker burn minter : Addr) : Option MinterMsg :=
  if o.skips then
    none
  else if o.burns then
    some (.mintTokens base o.baseAmount maker)
  else if o.isV2 = true ∧ maker = burn then
    some (.burnTokens base o.baseAmount minter minter)
  else
    some (.unescrow base maker o.baseAmount)

section

variable {o : Order} {base : String} {maker burn minter : Addr}

theorem skips_eq_true : o.skips = true ↔ o.isV2 = true ∧ o.baseAmount = 0 := by
  unfold skips
  rw [Bool.and_eq_true, beq_iff_eq]

theorem payment_skips (h : o.skips = true) : o.payment base maker burn minter = none := by
  unfold payment
  rw [if_pos h]

theorem payment_mint (h : ¬ o.skips = true) (hburns : o.burns = true) :
    o.payment base maker burn minter = some (.mintTokens base o.baseAmount maker) := by
  unfold payment
  rw [if_neg h, if_pos hburns]

theorem payment_burn (h : ¬ o.skips = true) (hburns : o.burns = false)
    (hmaker : o.isV2 = true ∧ maker = burn) :
    o.payment base maker burn minter = some (.burnTokens base o.baseAmount minter minter) := by
  unfold payment
  rw [if_neg h, if_neg (Bool.eq_false_iff.mp hburns), if_pos hmaker]

theorem payment_release (h : ¬ o.skips = true) (hburns : o.burns = false)
    (hmaker : ¬ (o.isV2 = true ∧ maker = burn)) :
    o.payment base maker burn minter = some (.unescrow base maker o.baseAmount) := by
  unfold payment
  rw [if_neg h, if_neg (Bool.eq_false_iff.mp hburns), if_neg hmaker]

end

theorem acknowledge_maker {env : Env} {packet : Packet} {path : U256} {s : State} {o : Order} {base : String}
    {maker burn : Addr} (hbase : o.baseToken = utf8 base) (hlt : o.baseAmount < 2 ^ 128)
    (hmaker : env.validAddr maker = true) (hburn : env.burnAddress = some burn)
    (hcover : o.burns = false → ∃ v, s.channelBalanceV2 (o.key packet.sourceChannelId path base) = some v ∧
      o.baseAmount ≤ v) :
    ∃ s', o.acknowledge env packet path (some (FILL_TYPE_MARKETMAKER, utf8 maker)) s =
      .ok (s', (o.payment base maker burn s.tokenMinter).toList.map fun msg =>
        (CosmosMsg.minter ⟨s.tokenMinter, msg, []⟩).plain) := by
  have hfill : FILL_TYPE_MARKETMAKER ≠ FILL_TYPE_PROTOCOL := by decide
  have hvalid : ∀ e e', validateAddr env (utf8 maker) e e' = .ok maker :=
    fun e e' => validateAddr_eq_ok.mpr ⟨rfl, hmaker⟩
  have hamount : toU128 o.baseAmount = .ok o.baseAmount := toU128_eq_ok.mpr ⟨hlt, rfl⟩
  have hdenom : okOr (fromUtf8 o.baseToken) ContractError.invalidBaseToken = .ok base :=
    okOr_eq_ok.mpr (fromUtf8_eq_some.mpr hbase)
  have haddress : okOr env.burnAddress ContractError.std = .ok burn := okOr_eq_ok.mpr hburn
  have hdecr : o.burns = false → ∃ s', s'.tokenMinter = s.tokenMinter ∧
      decreaseChannelBalanceV2 s packet.sourceChannelId path base o.quoteToken o.baseAmount = .ok s' := by
    intro hescrowed
    obtain ⟨v, hv, hle⟩ := hcover hescrowed
    exact ⟨s.setBalance (o.key packet.sourceChannelId path base) (v - o.baseAmount), rfl,
      decreaseChannelBalanceV2_eq_ok.mpr ⟨v, hv, hle, rfl⟩⟩
  cases o with
  | v1 o =>
    have hskips : ¬ (v1 o).skips = true := by
      rw [skips_eq_true]
      rintro ⟨hv2, -⟩
      cases hv2
    have hv1 : ¬ ((v1 o).isV2 = true ∧ maker = burn) := fun h => by cases h.1
    show ∃ s', acknowledgeTokenOrderV1 env packet path o (some (FILL_TYPE_MARKETMAKER, utf8 maker)) s = _
    unfold acknowledgeTokenOrderV1
    change toU128 o.baseAmount = .ok o.baseAmount at hamount
    change okOr (fromUtf8 o.baseToken) ContractError.invalidBaseToken = .ok base at hdenom
    simp only [hfill, if_false, if_true, hvalid, hdenom, hamount, ok_bind]
    by_cases hpath : o.baseTokenPath = 0
    · have hburns : (v1 o).burns = false := by simp [burns, hpath]
      obtain ⟨s', hminter, hs'⟩ := hdecr hburns
      change decreaseChannelBalanceV2 s packet.sourceChannelId path base o.quoteToken o.baseAmount =
        .ok s' at hs'
      rw [payment_release hskips hburns hv1, if_neg (not_not_intro hpath), hs', ok_bind, minterMsg, hminter]
      exact ⟨s', rfl⟩
    · have hburns : (v1 o).burns = true := bne_iff_ne.mpr hpath
      rw [payment_mint hskips hburns, if_pos hpath]
      exact ⟨s, rfl⟩
  | v2 o =>
    show ∃ s', acknowledgeTokenOrderV2 env packet path o (some (FILL_TYPE_MARKETMAKER, utf8 maker)) s = _
    unfold acknowledgeTokenOrderV2
    change toU128 o.baseAmount = .ok o.baseAmount at hamount
    change okOr (fromUtf8 o.baseToken) ContractError.invalidBaseToken = .ok base at hdenom
    simp only [hfill, if_false, if_true, hdenom, hamount, ok_bind]
    by_cases hzero : o.baseAmount = 0
    · have hskips : (v2 o).skips = true := skips_eq_true.mpr ⟨rfl, hzero⟩
      rw [payment_skips hskips, if_neg (not_not_intro hzero)]
      exact ⟨s, rfl⟩
    have hskips : ¬ (v2 o).skips = true := fun h => hzero (skips_eq_true.mp h).2
    rw [if_pos hzero]
    by_cases hkind : o.kind = TOKEN_ORDER_KIND_UNESCROW
    · have hburns : (v2 o).burns = true := by simp [burns, hkind]
      rw [payment_mint hskips hburns, if_pos hkind, hvalid, ok_bind]
      exact ⟨s, rfl⟩
    have hburns : (v2 o).burns = false := by simp [burns, hkind]
    obtain ⟨s', hminter, hs'⟩ := hdecr hburns
    change decreaseChannelBalanceV2 s packet.sourceChannelId path base o.quoteToken o.baseAmount =
      .ok s' at hs'
    rw [if_neg hkind, hs', ok_bind, haddress, ok_bind]
    by_cases heq : maker = burn
    · rw [payment_burn hskips hburns ⟨rfl, heq⟩, if_pos (congrArg utf8 heq), minterMsg, hminter]
      exact ⟨s', rfl⟩
    · have hne : utf8 maker ≠ utf8 burn := fun h => heq (utf8_injective h)
      rw [payment_release hskips hburns (fun h => heq h.2), if_neg hne, hvalid, ok_bind, minterMsg, hminter]
      exact ⟨s', rfl⟩

end Order

/-! ## Carrying it out -/

/-- What pays the maker of an order: its tokens are released or minted to it, or are burned for it. -/
inductive MakerPaid (o : Order) (base : String) (maker burn : Addr) : List TokenMsg → Prop where
  | nothing (h : o.baseAmount = 0) : MakerPaid o base maker burn []
  | released (h : o.burns = false) : MakerPaid o base maker burn [.bankSend maker base o.baseAmount]
  | releasedCw20 (h : o.burns = false) : MakerPaid o base maker burn [.cw20Transfer base maker o.baseAmount]
  | minted (h : o.burns = true) : MakerPaid o base maker burn [.cw20Mint base maker o.baseAmount]
  | mintedCoins (h : o.burns = true) : MakerPaid o base maker burn [.factoryMint base o.baseAmount maker]
  | burned (h : o.burns = false) (hmaker : maker = burn) :
      MakerPaid o base maker burn [.cw20Burn base o.baseAmount]

section

variable {X : Type}

/-- The acknowledgement goes through with all that it causes, and the maker is paid. -/
def AckSettles (C : Chain X) (m : Minter) (x : X) (env : Env) (packet : Packet) (path : U256)
    (s : State) (o : Order) (base : String) (maker burn : Addr) : Prop :=
  ∃ s' r messages, o.acknowledge env packet path (some (FILL_TYPE_MARKETMAKER, utf8 maker)) s = .ok (s', r) ∧
    Minter.Carries C env.contractAddress r m x messages ∧ MakerPaid o base maker burn messages

/-- The minter can do what the order is acknowledged with: it mints the token, or holds what it releases,
    or holds as a cw20 token what is to be burned. -/
def Settleable (C : Chain X) (m : Minter) (x : X) (o : Order) (base : String) (maker burn : Addr) : Prop :=
  o.skips = true ∨
    if o.burns then m.Mints base ∧ C.mintable x base o.baseAmount
    else if o.isV2 = true ∧ maker = burn then
      m.isCw20 = true ∧ ∃ b, C.cw20 x base = some b ∧ o.baseAmount ≤ b
    else m.CanRelease C x base o.baseAmount

variable {C : Chain X} {m : Minter} {x : X} {validAddr : String → Bool} {o : Order} {base : String}
  {maker burn : Addr}

theorem paid_of_releaseMsg (h : o.burns = false) :
    MakerPaid o base maker burn [m.releaseMsg base maker o.baseAmount] := by
  cases m with
  | cw20 env s =>
    show MakerPaid o base maker burn [if s.nativeTokens base then .bankSend maker base o.baseAmount
      else .cw20Transfer base maker o.baseAmount]
    by_cases hnative : s.nativeTokens base = true
    · rw [if_pos hnative]
      exact .released h
    · rw [if_neg hnative]
      exact .releasedCw20 h
  | tokenfactory env s => exact .released h

theorem paid_of_mintMsg (h : o.burns = true) :
    MakerPaid o base maker burn [m.mintMsg base maker o.baseAmount] := by
  cases m with
  | cw20 env s => exact .minted h
  | tokenfactory env s => exact .mintedCoins h

/-- The calls of the acknowledgement. -/
def payCalls (o : Order) (base : String) (maker burn minter : Addr) : Response :=
  (o.payment base maker burn minter).toList.map fun msg => (CosmosMsg.minter ⟨minter, msg, []⟩).plain

/-- **The minter carries out the payment iff it can.** -/
theorem carries_payCalls_iff (hC : C.Lawful m.contractAddress validAddr) (hmaker : validAddr maker = true) :
    (∃ messages, Minter.Carries C m.zkgm (payCalls o base maker burn m.contractAddress) m x messages ∧
      MakerPaid o base maker burn messages) ↔ Settleable C m x o base maker burn := by
  unfold payCalls Settleable
  by_cases hskips : o.skips = true
  · rw [Order.payment_skips hskips]
    have hzero : o.baseAmount = 0 := (Order.skips_eq_true.mp hskips).2
    exact iff_of_true ⟨[], ⟨m, x, rfl⟩, .nothing hzero⟩ (.inl hskips)
  rw [or_iff_right hskips]
  cases hburns : o.burns with
  | true =>
    rw [Order.payment_mint hskips hburns, if_pos rfl]
    by_cases hmints : m.Mints base
    · have hexec : m.execute ⟨m.zkgm, []⟩ (.mintTokens base o.baseAmount maker) =
          .ok (m, [m.mintMsg base maker o.baseAmount]) := Minter.execute_mintTokens.mpr ⟨hmints, rfl⟩
      simp only [Option.toList_some, List.map_cons, List.map_nil, Minter.carries_one hC hexec]
      rw [Minter.deliver_mint_iff hC hmaker]
      constructor
      · rintro ⟨_, ⟨hdeliver, -⟩, -⟩
        exact ⟨hmints, hdeliver⟩
      · rintro ⟨-, hdeliver⟩
        exact ⟨_, ⟨hdeliver, rfl⟩, paid_of_mintMsg hburns⟩
    · have hrefuses : ∀ r, m.execute ⟨m.zkgm, []⟩ (.mintTokens base o.baseAmount maker) ≠ .ok r :=
        fun r hr => hmints (Minter.execute_mintTokens.mp hr).1
      simp only [Option.toList_some, List.map_cons, List.map_nil]
      refine iff_of_false ?_ (fun h => hmints h.1)
      rintro ⟨messages, hcarries, -⟩
      exact Minter.not_carries hC hrefuses hcarries
  | false =>
    rw [if_neg Bool.false_ne_true]
    by_cases hburn : o.isV2 = true ∧ maker = burn
    · have hamount : o.baseAmount ≠ 0 := fun h => hskips (Order.skips_eq_true.mpr ⟨hburn.1, h⟩)
      rw [Order.payment_burn hskips hburns hburn, if_pos hburn]
      by_cases hcw20 : m.isCw20 = true
      · have hexec : m.execute ⟨m.zkgm, []⟩
            (.burnTokens base o.baseAmount m.contractAddress m.contractAddress) =
            .ok (m, [.cw20Burn base o.baseAmount]) := (Minter.execute_burnTokens hamount).mpr ⟨hcw20, rfl⟩
        simp only [Option.toList_some, List.map_cons, List.map_nil, Minter.carries_one hC hexec]
        rw [hC.cw20Burn]
        constructor
        · rintro ⟨_, ⟨hdeliver, -⟩, -⟩
          exact ⟨hcw20, hdeliver⟩
        · rintro ⟨-, hdeliver⟩
          exact ⟨_, ⟨hdeliver, rfl⟩, .burned hburns hburn.2⟩
      · have hrefuses : ∀ r, m.execute ⟨m.zkgm, []⟩
            (.burnTokens base o.baseAmount m.contractAddress m.contractAddress) ≠ .ok r :=
          fun r hr => hcw20 ((Minter.execute_burnTokens hamount).mp hr).1
        simp only [Option.toList_some, List.map_cons, List.map_nil]
        refine iff_of_false ?_ (fun h => hcw20 h.1)
        rintro ⟨messages, hcarries, -⟩
        exact Minter.not_carries hC hrefuses hcarries
    · rw [Order.payment_release hskips hburns hburn, if_neg hburn]
      have hexec : m.execute ⟨m.zkgm, []⟩ (.unescrow base maker o.baseAmount) =
          .ok (m, [m.releaseMsg base maker o.baseAmount]) := Minter.execute_unescrow
      simp only [Option.toList_some, List.map_cons, List.map_nil, Minter.carries_one hC hexec]
      rw [Minter.deliver_release_iff hC hmaker]
      constructor
      · rintro ⟨_, ⟨hdeliver, -⟩, -⟩
        exact hdeliver
      · intro hdeliver
        exact ⟨_, ⟨hdeliver, rfl⟩, paid_of_releaseMsg hburns⟩

/-! ## After the escrow -/

/-- What a minter notes as native is no contract. -/
def Minter.NotesCoins (C : Chain X) (x : X) : Minter → Prop
  | .cw20 _ s => ∀ denom, s.nativeTokens denom = true → C.cw20 x denom = none
  | .tokenfactory .. => True

theorem holds_of_escrow {m₀ : Minter} {x₀ : X} {owner minter : Addr} {amount : Nat} {funds rest : Coins}
    {coins : List Coin} {messages : List TokenMsg} (hC : C.Lawful m.contractAddress validAddr)
    (htakes : funds.Takes base amount rest coins)
    (hcarry : m₀.carry C m₀.zkgm x₀ ⟨minter, .escrow owner base m.contractAddress amount, coins⟩ =
      some (m, x, messages))
    (howner : owner ≠ m.contractAddress) (hcoins : m₀.NotesCoins C x) (hamount : amount ≠ 0) :
    m.CanRelease C x base amount ∧
      ((m.isCw20 = true ∧ ∃ b, C.cw20 x base = some b ∧ amount ≤ b) ↔ coins = []) := by
  obtain ⟨x₁, hattach, hexec, hdeliver⟩ := Minter.carry_eq_some hcarry
  have hpos : 0 < amount := Nat.pos_of_ne_zero hamount
  cases m₀ with
  | cw20 env s =>
    cases htakes with
    | none _ =>
      have hcall : (Minter.cw20 env s).execute ⟨s.admin, []⟩ (.escrow owner base m.contractAddress amount) =
          .ok (.cw20 env s, [.cw20TransferFrom base owner m.contractAddress amount]) := by
        rw [Minter.execute, Cw20Minter.execute_escrow_nil]
        rfl
      change (Minter.cw20 env s).execute ⟨s.admin, []⟩ _ = _ at hexec
      rw [hcall] at hexec
      cases hexec
      obtain ⟨y, htransf, hy⟩ := Option.bind_eq_some_iff.mp hdeliver
      cases hy
      obtain ⟨b, hb, hle⟩ := hC.cw20TransferFrom howner htransf
      have hnative : ¬ s.nativeTokens base = true := by
        intro hnoted
        rw [hcoins base hnoted] at hb
        cases hb
      refine ⟨?_, iff_of_true ⟨rfl, b, hb, hle⟩ rfl⟩
      show if s.nativeTokens base = true then _ else _
      rw [if_neg hnative]
      exact ⟨b, hb, hle⟩
    | coin _ _ =>
      have hcall : (Minter.cw20 env s).execute ⟨s.admin, [⟨base, amount⟩]⟩
          (.escrow owner base m.contractAddress amount) = .ok (.cw20 env (s.saveNativeToken base), []) := by
        rw [Minter.execute, Cw20Minter.execute_escrow_coin]
        rfl
      change (Minter.cw20 env s).execute ⟨s.admin, [⟨base, amount⟩]⟩ _ = _ at hexec
      rw [hcall] at hexec
      cases hexec
      cases hdeliver
      obtain ⟨hbank, hcontract⟩ := hC.attach_coin hattach
      refine ⟨?_, iff_of_false ?_ (List.cons_ne_nil _ _)⟩
      · have hnoted : (s.saveNativeToken base).nativeTokens base = true := update_self ..
        show if (s.saveNativeToken base).nativeTokens base = true then _ else _
        rw [if_pos hnoted]
        exact ⟨hpos, hbank⟩
      · rintro ⟨-, b, hb, -⟩
        rw [hcontract] at hb
        cases hb
  | tokenfactory env s =>
    change (Minter.tokenfactory env s).execute ⟨s.zkgmAddr, coins⟩ _ = _ at hexec
    simp only [Minter.execute, bind_eq_ok, TokenfactoryMinter.execute_escrow] at hexec
    obtain ⟨_, ⟨hfunds, rfl⟩, hm⟩ := hexec
    cases hm
    cases hdeliver
    cases htakes with
    | none _ => exact absurd hfunds.symm hamount
    | coin _ _ =>
      obtain ⟨hbank, -⟩ := hC.attach_coin hattach
      exact ⟨⟨hpos, hbank⟩, iff_of_false (fun h => Bool.false_ne_true h.1) (List.cons_ne_nil _ _)⟩

/-- **An acknowledgement settles iff the minter can do what it is asked to.** -/
theorem settles_iff {env : Env} {packet : Packet} {path : U256} {s : State} (hbase : o.baseToken = utf8 base)
    (hlt : o.baseAmount < 2 ^ 128) (hburn : env.burnAddress = some burn) (hmaker : env.validAddr maker = true)
    (hC : C.Lawful m.contractAddress env.validAddr) (hzkgm : m.zkgm = env.contractAddress)
    (hminter : s.tokenMinter = m.contractAddress)
    (hcover : o.burns = false → ∃ v, s.channelBalanceV2 (o.key packet.sourceChannelId path base) = some v ∧
      o.baseAmount ≤ v) :
    AckSettles C m x env packet path s o base maker burn ↔ Settleable C m x o base maker burn := by
  obtain ⟨s', hack⟩ := Order.acknowledge_maker hbase hlt hmaker hburn hcover
  rw [hminter] at hack
  change _ = Except.ok (s', payCalls o base maker burn m.contractAddress) at hack
  unfold AckSettles
  rw [← carries_payCalls_iff hC hmaker, hack, ← hzkgm]
  constructor
  · rintro ⟨_, _, messages, heq, hcarries, hpaid⟩
    cases heq
    exact ⟨messages, hcarries, hpaid⟩
  · rintro ⟨messages, hcarries, hpaid⟩
    exact ⟨s', _, messages, rfl, hcarries, hpaid⟩

/-- **A verified order that a market maker filled is settled iff the minter can mint its token, or holds what
    it is to release, or holds as a cw20 token what it is to burn.**  Right after the escrow this only fails
    for coins that are to be burned. -/
theorem maker_settles_iff {env : Env} {info : MessageInfo} {channelId : ChannelId} {path : U256} {w w' : Walk}
    (hverify : o.verify env info channelId path w = .ok w') (hbase : o.baseToken = utf8 base)
    {packet : Packet} {s : State} (hchannel : packet.sourceChannelId = channelId)
    (hburn : env.burnAddress = some burn) (hhuman : env.validAddr burn = true)
    (hmaker : env.validAddr maker = true ∨ o.isV2 = true ∧ maker = burn)
    (hC : C.Lawful m.contractAddress env.validAddr) (hzkgm : m.zkgm = env.contractAddress)
    (hminter : s.tokenMinter = m.contractAddress)
    (hcover : o.burns = false → ∃ v, s.channelBalanceV2 (o.key channelId path base) = some v ∧
      o.baseAmount ≤ v) :
    (AckSettles C m x env packet path s o base maker burn ↔ Settleable C m x o base maker burn) ∧
      ∀ (m₀ : Minter) (x₀ : X) (call : MinterCall) (messages : List TokenMsg),
        w'.response = w.response ++ [(CosmosMsg.minter call).plain] →
        m₀.carry C m₀.zkgm x₀ call = some (m, x, messages) → o.burns = false → o.baseAmount ≠ 0 →
        w.state.tokenMinter = m.contractAddress → info.sender ≠ m.contractAddress → m₀.NotesCoins C x →
        (AckSettles C m x env packet path s o base maker burn ↔
          (o.isV2 = true ∧ maker = burn → call.funds = [])) := by
  obtain ⟨base', funds, coins, hbase', hlt, htakes, hcase⟩ := Order.verify_cases hverify
  obtain rfl : base' = base := utf8_injective (hbase'.symm.trans hbase)
  have hvalid : env.validAddr maker = true := by
    rcases hmaker with hvalid | ⟨-, rfl⟩
    · exact hvalid
    · exact hhuman
  have hiff : AckSettles C m x env packet path s o base' maker burn ↔
      Settleable C m x o base' maker burn := by
    apply settles_iff hbase hlt hburn hvalid hC hzkgm hminter
    rw [hchannel]
    exact hcover
  refine ⟨hiff, ?_⟩
  intro m₀ x₀ call messages hcall hcarry hburns hamount hsent howner hcoins
  rw [hiff]
  rcases hcase with ⟨hyes, -⟩ | ⟨-, rfl⟩
  · rw [hburns] at hyes
    cases hyes
  -- the call is the escrow
  change w.response ++ [(CosmosMsg.minter ⟨w.state.tokenMinter,
    .escrow info.sender base' w.state.tokenMinter o.baseAmount, coins⟩).plain] = _ at hcall
  have hsame := List.append_cancel_left hcall
  cases hsame
  rw [hsent] at hcarry
  obtain ⟨hrelease, hburned⟩ := holds_of_escrow hC htakes hcarry howner hcoins hamount
  have hskips : ¬ o.skips = true := fun h => hamount (Order.skips_eq_true.mp h).2
  unfold Settleable
  rw [or_iff_right hskips, hburns, if_neg Bool.false_ne_true]
  by_cases hto : o.isV2 = true ∧ maker = burn
  · rw [if_pos hto, hburned]
    exact ⟨fun h _ => h, fun h => h hto⟩
  · rw [if_neg hto]
    exact iff_of_true hrelease fun h => absurd h hto

end

/-! ## A chain -/

structure MinterHoldings where
  coins : String → Nat
  contracts : String → Option Nat
  mints : String → Bool

namespace MinterHoldings

def attach : MinterHoldings → List Coin → Option MinterHoldings
  | h, [] => some h
  | h, c :: cs =>
    match h.contracts c.denom with
    | none => attach { h with coins := update h.coins c.denom (h.coins c.denom + c.amount) } cs
    | some _ => none

/-- The minter gives tokens of a contract away. -/
def spend (h : MinterHoldings) (contract : String) (amount : Nat) : Option MinterHoldings :=
  match h.contracts contract with
  | none => none
  | some b =>
    if amount ≤ b then some { h with contracts := update h.contracts contract (some (b - amount)) } else none

def deliver (h : MinterHoldings) : TokenMsg → Option MinterHoldings
  | .bankSend _ denom amount =>
    if 0 < amount ∧ amount ≤ h.coins denom then
      some { h with coins := update h.coins denom (h.coins denom - amount) }
    else
      none
  | .cw20Transfer contract _ amount => h.spend contract amount
  | .cw20Burn contract amount => h.spend contract amount
  | .cw20TransferFrom contract _ _ amount =>
    match h.contracts contract with
    | none => none
    | some b => some { h with contracts := update h.contracts contract (some (b + amount)) }
  | .cw20Mint contract _ _ => if h.mints contract then some h else none
  | .factoryMint denom _ _ => if h.mints denom then some h else none
  | .cw20BurnFrom .. => some h
  | .factoryBurn .. => some h

def chain : Chain MinterHoldings where
  attach := attach
  deliver := deliver
  bank := coins
  cw20 := contracts
  mintable h denom _ := h.mints denom = true

theorem spend_isSome {h : MinterHoldings} {contract : String} {amount : Nat} :
    (∃ h', h.spend contract amount = some h') ↔ ∃ b, h.contracts contract = some b ∧ amount ≤ b := by
  unfold spend
  cases h.contracts contract with
  | none => simp
  | some b => by_cases hle : amount ≤ b <;> simp [hle]

theorem mint_isSome {h : MinterHoldings} {denom : String} :
    (∃ h', (if h.mints denom then some h else none) = some h') ↔ h.mints denom = true := by
  by_cases hmints : h.mints denom = true <;> simp [hmints]

theorem chain_lawful (minter : Addr) (validAddr : String → Bool) : chain.Lawful minter validAddr where
  attach_nil _ := rfl
  attach_coin := by
    intro h h' c hattach
    change (match h.contracts c.denom with
      | none => some { h with coins := update h.coins c.denom (h.coins c.denom + c.amount) }
      | some _ => none) = some h' at hattach
    split at hattach
    · rename_i hnone
      cases hattach
      refine ⟨?_, hnone⟩
      show c.amount ≤ update h.coins c.denom (h.coins c.denom + c.amount) c.denom
      rw [update_self]
      exact Nat.le_add_left ..
    · cases hattach
  bankSend := by
    intro h recipient denom amount _
    show (∃ h', (if 0 < amount ∧ amount ≤ h.coins denom then some _ else none) = some h') ↔ _
    by_cases hok : 0 < amount ∧ amount ≤ h.coins denom
    · rw [if_pos hok]
      exact iff_of_true ⟨_, rfl⟩ hok
    · rw [if_neg hok]
      refine iff_of_false ?_ hok
      rintro ⟨_, heq⟩
      cases heq
  cw20Transfer _ := spend_isSome
  cw20Burn := spend_isSome
  cw20Mint _ := mint_isSome
  factoryMint _ := mint_isSome
  cw20TransferFrom := by
    intro h h' contract owner amount _ hdeliver
    change (match h.contracts contract with
      | none => none
      | some b => some { h with contracts := update h.contracts contract (some (b + amount)) }) =
        some h' at hdeliver
    split at hdeliver
    · cases hdeliver
    · rename_i b _
      cases hdeliver
      refine ⟨b + amount, ?_, Nat.le_add_left ..⟩
      exact update_self ..

end MinterHoldings

namespace Sample

/-- A minter that has nothing yet. -/
def noHoldings : MinterHoldings := ⟨fun _ => 0, fun _ => none, fun _ => false⟩

def fiveCoins : MinterHoldings := { noHoldings with coins := update (fun _ => 0) "uatom" 5 }

/-- Alice's walk with her coins. -/
def aliceWalk : Walk := ⟨State.fresh, Coins.ofList exactInfo.funds, []⟩

def escrowedState : State := State.fresh.setBalance ((Order.v2 sampleOrder).key channelOne 0 "uatom") 5

theorem escrowed_balance :
    escrowedState.channelBalanceV2 ((Order.v2 sampleOrder).key channelOne 0 "uatom") = some 5 := by
  unfold escrowedState State.setBalance
  simp only [update_self]

end Sample

open Sample in
theorem escrowed_coins_settle :
    ∃ w', (Order.v2 sampleOrder).verify Env.ideal exactInfo channelOne 0 aliceWalk = .ok w' ∧
      w'.state = escrowedState ∧
      AckSettles MinterHoldings.chain (.tokenfactory factoryEnv factoryMinter) fiveCoins Env.ideal
        (samplePacket (Order.v2 sampleOrder).toInstruction) 0 escrowedState (.v2 sampleOrder) "uatom" "bob"
        "burn" := by
  refine ⟨_, rfl, rfl, ?_⟩
  have hne : ¬ ((Order.v2 sampleOrder).isV2 = true ∧ "bob" = "burn") := by decide
  have hescrows : ¬ (Order.v2 sampleOrder).burns = true := by decide
  apply (@maker_settles_iff _ MinterHoldings.chain (.tokenfactory factoryEnv factoryMinter)
    fiveCoins (.v2 sampleOrder)
    "uatom" "bob" "burn" Env.ideal exactInfo channelOne 0 aliceWalk _ rfl rfl
    (samplePacket (Order.v2 sampleOrder).toInstruction) escrowedState rfl rfl rfl (.inl rfl)
    (MinterHoldings.chain_lawful _ _) rfl rfl fun _ => ⟨5, escrowed_balance, le_rfl⟩).1.mpr
  refine .inr ?_
  rw [if_neg hescrows, if_neg hne]
  have hholds : 5 ≤ fiveCoins.coins "uatom" := by decide
  exact ⟨by decide, hholds⟩

open Sample in
/-- **Escrowed coins cannot be burned**: either minter took the five coins of the order, and the balance
    covers it, but neither burns them when the maker is the burn address. -/
theorem burn_not_settled : ∃ w', (Order.v2 sampleOrder).verify Env.ideal exactInfo channelOne 0
      aliceWalk = .ok w' ∧
      w'.response = [(CosmosMsg.minter escrowCall).plain] ∧ w'.state = escrowedState ∧
      escrowedState.channelBalanceV2 ((Order.v2 sampleOrder).key channelOne 0 "uatom") = some 5 ∧
      ∀ m₀ ∈ [Minter.cw20 cw20Env cw20Minter, Minter.tokenfactory factoryEnv factoryMinter],
        ∃ m, m₀.carry MinterHoldings.chain "zkgm" noHoldings escrowCall = some (m, fiveCoins, []) ∧
          ¬ AckSettles MinterHoldings.chain m fiveCoins Env.ideal
            (samplePacket (Order.v2 sampleOrder).toInstruction) 0
            escrowedState (.v2 sampleOrder) "uatom" "burn" "burn" := by
  refine ⟨_, rfl, rfl, rfl, escrowed_balance, ?_⟩
  have hnot : ∀ m : Minter, m.zkgm = "zkgm" → m.contractAddress = "minter" →
      ¬ AckSettles MinterHoldings.chain m fiveCoins Env.ideal
        (samplePacket (Order.v2 sampleOrder).toInstruction) 0
        escrowedState (.v2 sampleOrder) "uatom" "burn" "burn" := by
    intro m hzkgm hminter hsettles
    have hburn : (Order.v2 sampleOrder).isV2 = true ∧ "burn" = "burn" := ⟨rfl, rfl⟩
    have hescrows : ¬ (Order.v2 sampleOrder).burns = true := by decide
    have hlt : (Order.v2 sampleOrder).baseAmount < 2 ^ 128 := by decide
    have hlawful : MinterHoldings.chain.Lawful m.contractAddress Env.ideal.validAddr :=
      MinterHoldings.chain_lawful _ _
    have hcover : (Order.v2 sampleOrder).burns = false → ∃ v, escrowedState.channelBalanceV2
        ((Order.v2 sampleOrder).key channelOne 0 "uatom") = some v ∧ (Order.v2 sampleOrder).baseAmount ≤ v :=
      fun _ => ⟨5, escrowed_balance, le_rfl⟩
    have hable := (settles_iff rfl hlt rfl rfl hlawful hzkgm hminter.symm hcover).mp hsettles
    rcases hable with hskips | hable
    · exact absurd hskips (by decide)
    · rw [if_neg hescrows, if_pos hburn] at hable
      obtain ⟨-, b, hb, -⟩ := hable
      cases hb
  intro m₀ hm₀
  simp only [List.mem_cons, List.not_mem_nil, or_false] at hm₀
  rcases hm₀ with rfl | rfl
  · exact ⟨.cw20 cw20Env (cw20Minter.saveNativeToken "uatom"), rfl, hnot _ rfl rfl⟩
  · exact ⟨.tokenfactory factoryEnv factoryMinter, rfl, hnot _ rfl rfl⟩

end UnionVoyager.Zkgm
