import UnionVoyager.Sui.Effect

/-!
# What executing an order comes to

An order that is received is refused with nothing done, refused with something done, filled, or
answered as if it were filled.  Which of these it is can be told from the state before.

* `executeInternal_outcome` — **there are two good ends and two bad ones**.
-/

namespace UnionVoyager.Sui

open Lib Function
open Zkgm (U256 AckData Acknowledgement OP_TOKEN_ORDER INSTR_VERSION_2 TOKEN_ORDER_KIND_INITIALIZE
  TOKEN_ORDER_KIND_ESCROW TOKEN_ORDER_KIND_UNESCROW TOKEN_ORDER_KIND_SOLVE FILL_TYPE_PROTOCOL
    FILL_TYPE_MARKETMAKER)

/-! ## What changes -/

/-- No coin was minted, moved or burned, no balance, token origin or claim changed, and no packet was sent. -/
structure Untouched (w w' : World) : Prop where
  store : w'.store = w.store
  vault : w'.vault = w.vault
  escrow : w'.escrow = w.escrow
  transfers : w'.transfers = w.transfers
  sent : w'.ibc.sent = w.ibc.sent

variable {w w' : World}

theorem Untouched.trans {w'' : World} (h : Untouched w w') (h' : Untouched w' w'') : Untouched w w'' :=
  ⟨h'.store.trans h.store, h'.vault.trans h.vault, h'.escrow.trans h.escrow, h'.transfers.trans h.transfers,
    h'.sent.trans h.sent⟩

theorem Untouched.symm (h : Untouched w w') : Untouched w' w :=
  ⟨h.store.symm, h.vault.symm, h.escrow.symm, h.transfers.symm, h.sent.symm⟩

/-- What receiving never undoes: the origin of a token stays, and no balance is raised. -/
structure Onward (w w' : World) : Prop where
  origins : ∀ d, w.store.tokenOrigin d ≠ none → w'.store.tokenOrigin d ≠ none
  balances : ∀ k, balanceOf w'.store k ≤ balanceOf w.store k

theorem Onward.refl (w : World) : Onward w w := ⟨fun _ h => h, fun _ => Nat.le_refl _⟩

theorem Onward.trans {w'' : World} (h : Onward w w') (h' : Onward w' w'') : Onward w w'' :=
  ⟨fun d hd => h'.origins d (h.origins d hd), fun k => Nat.le_trans (h'.balances k) (h.balances k)⟩

/-- A token has an origin that it did not have, or a balance is lower. -/
def Marked (w w' : World) : Prop :=
  (∃ d, w.store.tokenOrigin d = none ∧ w'.store.tokenOrigin d ≠ none) ∨
    ∃ k, balanceOf w'.store k < balanceOf w.store k

/-- **A mark is never undone.** -/
theorem Onward.not_untouched {w₀ : World} (h : Onward w₀ w) (hm : Marked w w') : ¬ Untouched w₀ w' := by
  intro hsame
  rcases hm with ⟨d, hnone, hsome⟩ | ⟨k, hlt⟩
  · rw [hsame.store] at hsome
    exact h.origins d hsome hnone
  · have hle := h.balances k
    rw [hsame.store] at hlt
    omega

/-! ## Coins paid -/

/-- The coin type a token stands for: the one it names, or the one that was claimed for it. -/
def Stands (s : RelayStore) (token : Bytes) (t : CoinType) : Prop :=
  token = typeNameToQuoteToken t ∨ s.wrappedDenomToT token = some t

/-- Nothing is paid where there is nothing to pay. -/
def coinsTo (recipient : Address) (t : CoinType) (amount : Nat) : List Transfer :=
  if 0 < amount then [⟨recipient, t, amount⟩] else []

def payments (order : TokenOrderV2) (t : CoinType) (relayer : Address) (fee : Nat) : List Transfer :=
  coinsTo order.receiver t order.quoteAmount ++ coinsTo relayer t fee

/-- **What an order asks for.**  The receiver gets the quote amount in the coin of the quote token,
    and the relayer the rest of the base amount if the protocol fills it; the acknowledgement says
    who filled it. -/
def Filled (relayer : Address) (order : TokenOrderV2) (ack : AckData) (w w' : World) : Prop :=
  ∃ t fee fillType maker paid, ack = .tokenOrderAck fillType maker ∧
    (fillType = FILL_TYPE_PROTOCOL ∧ order.quoteAmount + fee = order.baseAmount ∨
      fillType = FILL_TYPE_MARKETMAKER) ∧
    w'.transfers = w.transfers ++ paid ∧ paid.Perm (payments order t relayer fee) ∧
    (paid ≠ [] → Stands w'.store order.quoteToken t)

variable {fee amount : Nat}

variable {order : TokenOrderV2} {t : CoinType} {relayer : Address}

theorem coinType_of_mem_payments {x : Transfer} (h : x ∈ payments order t relayer fee) : x.coinType = t := by
  unfold payments coinsTo at h
  rcases List.mem_append.mp h with h | h <;>
  · split at h
    · rw [List.mem_singleton.mp h]
    · cases h

theorem payments_eq_nil : payments order t relayer fee = [] ↔ order.quoteAmount = 0 ∧ fee = 0 := by
  simp [payments, coinsTo]

variable {ack : AckData}

theorem not_filled (hpaid : w'.transfers = w.transfers ++ payments order t relayer fee)
    (hsome : 0 < order.quoteAmount ∨ 0 < fee) (hstands : ¬ Stands w'.store order.quoteToken t) :
    ¬ Filled relayer order ack w w' := by
  rintro ⟨u, fee', fillType, maker, paid, -, -, htransfers, hperm, hpay⟩
  obtain rfl : payments order t relayer fee = paid := List.append_cancel_left (hpaid.symm.trans htransfers)
  have hne : payments order t relayer fee ≠ [] := by
    rw [Ne, payments_eq_nil]
    omega
  obtain ⟨x, hx⟩ := List.exists_mem_of_ne_nil _ hne
  have htype : t = u := by
    rw [← coinType_of_mem_payments hx, coinType_of_mem_payments (hperm.mem_iff.mp hx)]
  exact hstands (htype ▸ hpay hne)

/-! ## Paying -/

/-- Coins were sent, and of the store only the coins changed. -/
structure Pays (t : CoinType) (paid : List Transfer) (w w' : World) : Prop where
  origins : w'.store.tokenOrigin = w.store.tokenOrigin
  balances : w'.store.channelBalance = w.store.channelBalance
  claims : w'.store.wrappedDenomToT = w.store.wrappedDenomToT
  coin : w.store.bag t ≠ none → w'.store.bag t ≠ none
  transfers : w'.transfers = w.transfers ++ paid

variable {recipient receiver : Address}

section Pays

variable {t : CoinType} {paid paid' : List Transfer} {w w' w'' : World}

theorem Pays.nothing (w : World) : Pays t [] w w := ⟨rfl, rfl, rfl, fun h => h, (List.append_nil _).symm⟩

theorem Pays.trans (h : Pays t paid w w') (h' : Pays t paid' w' w'') : Pays t (paid ++ paid') w w'' := by
  refine ⟨h'.origins.trans h.origins, h'.balances.trans h.balances, h'.claims.trans h.claims, ?_, ?_⟩
  · intro hcoin
    exact h'.coin (h.coin hcoin)
  · rw [h'.transfers, h.transfers, List.append_assoc]

theorem Pays.onward (h : Pays t paid w w') : Onward w w' := by
  refine ⟨?_, ?_⟩
  · intro d hd
    rwa [h.origins]
  · intro k
    rw [balanceOf, balanceOf, h.balances]

theorem Pays.stands (h : Pays t paid w w') {token : Bytes} : Stands w'.store token t ↔
      Stands w.store token t := by
  rw [Stands, Stands, h.claims]

theorem mint_pays (h : w.mint t amount recipient = .ok w') : Pays t [⟨recipient, t, amount⟩] w w' := by
  obtain ⟨c, -, rfl⟩ := mint_ok h
  exact ⟨rfl, rfl, rfl, fun h => h, rfl⟩

theorem unescrow_pays (h : w.unescrow t amount recipient = .ok w') :
    Pays t [⟨recipient, t, amount⟩] w w' := by
  simp only [World.unescrow, bind_eq_ok, pure_eq_ok] at h
  obtain ⟨v, -, -, -, rfl⟩ := h
  exact ⟨rfl, rfl, rfl, fun h => h, rfl⟩

theorem ifPositive_pays {x : Result World} (hx : x = .ok w' → Pays t [⟨recipient, t, amount⟩] w w')
    (h : w.ifPositive amount x = .ok w') : Pays t (coinsTo recipient t amount) w w' := by
  unfold World.ifPositive at h
  unfold coinsTo
  split at h
  · rename_i hpos
    rw [if_pos hpos]
    exact hx h
  · rename_i hpos
    rw [if_neg hpos]
    cases h
    exact Pays.nothing w

theorem peelAddress_self {b r : Bytes} (hlen : b.length = 32) (h : peelAddress b = .ok r) : r = b := by
  unfold peelAddress at h
  rw [if_pos (by omega)] at h
  cases h
  rw [← hlen, List.take_length]

theorem payOrder_pays {pay : World → Nat → Address → Result World}
    (hpay : ∀ w amount recipient w', pay w amount recipient = .ok w' → Pays t [⟨recipient, t, amount⟩] w w')
    (hlen : order.receiver.length = 32) (h : payOrder pay w order relayer = .ok w') :
    Pays t (coinsTo relayer t (order.baseAmount - order.quoteAmount) ++
      coinsTo order.receiver t order.quoteAmount) w w' := by
  simp only [payOrder, bind_eq_ok] at h
  obtain ⟨w₁, hfee, hquote⟩ := h
  have h₁ : Pays t (coinsTo relayer t (order.baseAmount - order.quoteAmount)) w w₁ := by
    refine ifPositive_pays ?_ hfee
    simp only [bind_eq_ok, asU64_eq_ok]
    rintro ⟨fee, ⟨-, rfl⟩, h⟩
    exact hpay _ _ _ _ h
  refine h₁.trans (ifPositive_pays ?_ hquote)
  simp only [bind_eq_ok, asU64_eq_ok]
  rintro ⟨receiver, hrcv, amount, ⟨-, rfl⟩, h⟩
  obtain rfl := peelAddress_self hlen hrcv
  exact hpay _ _ _ _ h

theorem distributeIfPositive_pays {err : Nat} (h : distributeIfPositive w t receiver amount = .ok (err, w')) :
    (err ≠ 0 ∧ 0 < amount ∧ w.store.bag t = none ∧ w' = w) ∨
    (err = 0 ∧ (0 < amount → w.store.bag t ≠ none) ∧ Pays t (coinsTo receiver t amount) w w') := by
  unfold distributeIfPositive at h
  unfold coinsTo
  split at h
  · rename_i hpos
    rw [if_pos hpos]
    rcases distributeCoin_ok h with ⟨rfl, hnone, rfl⟩ | ⟨rfl, value, hbag, -, rfl⟩
    · exact .inl ⟨by decide, hpos, hnone, rfl⟩
    · refine .inr ⟨rfl, ?_, rfl, rfl, rfl, ?_, rfl⟩
      · intro _ hnone
        rw [hbag] at hnone
        cases hnone
      · intro _
        simp [RelayStore.withCoin]
  · rename_i hpos
    rw [if_neg hpos]
    cases h
    exact .inr ⟨rfl, fun hp => absurd hp hpos, Pays.nothing w⟩

end Pays

/-! ## The four ends -/

/-- How an instruction ends that is refused with nothing done if `refuses`, filled if `fills`, and
    that took effect if `effect`.  In the last two ends it is neither: it is refused after something
    was done, or it is answered without the effect. -/
inductive Outcome (refuses fills effect : Prop) (w w' : World) (code : Nat) : Prop
  | refused : refuses → ¬ fills → code ≠ 0 → w' = w → Outcome refuses fills effect w w' code
  | filled : ¬ refuses → fills → code = 0 → Onward w w' → effect → Outcome refuses fills effect w w' code
  | spoiled : ¬ refuses → ¬ fills → code ≠ 0 → Onward w w' → Marked w w' →
      Outcome refuses fills effect w w' code
  | feigned : ¬ refuses → ¬ fills → code = 0 → Onward w w' → ¬ effect → Outcome refuses fills effect w w' code

section Outcome

variable {refuses fills effect : Prop} {w w' : World} {code : Nat}

section

variable (h : Outcome refuses fills effect w w' code)

include h

theorem Outcome.congr {refuses' fills' : Prop} (hr : refuses' ↔ refuses) (hf : fills' ↔ fills) :
    Outcome refuses' fills' effect w w' code := by
  rw [propext hr, propext hf]
  exact h

theorem Outcome.onward : Onward w w' := by
  cases h with
  | refused _ _ _ hsame => exact hsame ▸ Onward.refl w
  | filled _ _ _ honward _ => exact honward
  | spoiled _ _ _ honward _ => exact honward
  | feigned _ _ _ honward _ => exact honward

theorem Outcome.of_refuses (hr : refuses) : code ≠ 0 ∧ w' = w := by
  cases h with
  | refused _ _ hcode hsame => exact ⟨hcode, hsame⟩
  | filled hnot => exact absurd hr hnot
  | spoiled hnot => exact absurd hr hnot
  | feigned hnot => exact absurd hr hnot

theorem Outcome.of_fills (hf : fills) : code = 0 ∧ effect := by
  cases h with
  | refused _ hnot => exact absurd hf hnot
  | filled _ _ hcode _ heffect => exact ⟨hcode, heffect⟩
  | spoiled _ hnot => exact absurd hf hnot
  | feigned _ hnot => exact absurd hf hnot

theorem Outcome.fills_of_effect (hcode : code = 0) (he : effect) : fills := by
  cases h with
  | refused _ _ hne => exact absurd hcode hne
  | filled _ hf => exact hf
  | spoiled _ _ hne => exact absurd hcode hne
  | feigned _ _ _ _ hnot => exact absurd he hnot

theorem Outcome.refuses_of_untouched (hcode : code ≠ 0) {w₀ : World} (honward : Onward w₀ w)
    (hsame : Untouched w₀ w') : refuses ∧ Untouched w₀ w := by
  cases h with
  | refused hr _ _ heq => exact ⟨hr, heq ▸ hsame⟩
  | filled _ _ hzero => exact absurd hzero hcode
  | spoiled _ _ _ _ hm => exact absurd hsame (honward.not_untouched hm)
  | feigned _ _ hzero => exact absurd hzero hcode

end

end Outcome

/-! ## Refusing and filling, told from the state before -/

section Predicates

variable (env : Env) (w : World) (t : CoinType) (packet : Packet) (path : U256) (order : TokenOrderV2)

/-- The order is not for the coin, or its solver is not one of the vaults, or the vault has no lane for it. -/
def SolverRefuses : Prop :=
  typeNameToQuoteToken t ≠ order.quoteToken ∨
    ∃ metadata, env.decodeSolverMetadata order.metadata = some metadata ∧
    if metadata.solverAddress = OWNED_VAULT_OBJECT_KEY then
      ∃ code, solveLane env w.vault.intentWhitelists w.vault.fungibleCounterparties t packet order
        path false = .error code
    else if metadata.solverAddress = ESCROW_VAULT_OBJECT_KEY then
      ∃ code, solveLane env w.escrow.intentWhitelists w.escrow.fungibleCounterparties t packet order
        path false = .error code
    else True

/-- The coin type has been claimed for the token, or can be: nobody did, and its metadata are those
    of the order. -/
def Claims (wrapped : Bytes) (metadata : Option TokenMetadata) : Prop :=
  match w.store.wrappedDenomToT wrapped with
  | some claimed => claimed = t
  | none => ∃ m suiMetadata, metadata = some m ∧ env.decodeSuiTokenMetadata m.initializer = some suiMetadata ∧
    w.vault.getMetadata t = .ok suiMetadata

/-- A market maker has no coin to fill the order with. -/
def MakerRefuses : Prop := 0 < order.quoteAmount ∧ w.store.bag t = none

/-- There is the coin the order asks for. -/
def MakerFills : Prop := 0 < order.quoteAmount → w.store.bag t ≠ none ∧ Stands w.store order.quoteToken t

/-- The order is refused, and nothing is done. -/
def Refuses : Prop :=
  order.receiver.length ≠ 32 ∨
  if order.kind = TOKEN_ORDER_KIND_SOLVE then SolverRefuses env w t packet path order
  else if order.kind = TOKEN_ORDER_KIND_UNESCROW then order.baseAmount < order.quoteAmount
  else
    match wrappedTokenOf env packet path order with
    | .error _ => False
    | .ok (.error _) => True
    | .ok (.ok (wrapped, metadata)) =>
      if order.quoteToken = wrapped ∧ order.quoteAmount ≤ order.baseAmount then
        -- the origin of the token is saved before its claim is looked at
        w.store.tokenOrigin wrapped ≠ none ∧ ¬ Claims env w t wrapped metadata
      else MakerRefuses w t order

/-- The order is filled. -/
def Fills : Prop :=
  order.receiver.length = 32 ∧
  if order.kind = TOKEN_ORDER_KIND_SOLVE then ¬ SolverRefuses env w t packet path order
  else if order.kind = TOKEN_ORDER_KIND_UNESCROW then
    order.quoteAmount ≤ order.baseAmount ∧
    (∃ reversed, reverseChannelPath path = .ok reversed ∧
      Covers w.store ⟨packet.destinationChannelId, reversed, order.quoteToken, order.baseToken⟩
        order.baseAmount) ∧
    (0 < order.baseAmount → w.store.bag t ≠ none ∧ Stands w.store order.quoteToken t)
  else
    match wrappedTokenOf env packet path order with
    | .ok (.ok (wrapped, metadata)) =>
      if order.quoteToken = wrapped ∧ order.quoteAmount ≤ order.baseAmount then Claims env w t
        wrapped metadata
      else MakerFills w t order
    | _ => False

end Predicates

variable {relayerMsg wrapped : Bytes}

section Fill

variable {env : Env} {w w' : World} {t : CoinType} {packet : Packet} {path : U256} {order : TokenOrderV2}
  {relayer : Address} {ack : AckData} {code : Nat} {metadata : Option TokenMetadata}

theorem Outcome.refusal {refuses fills effect : Prop} (hr : refuses) (hf : ¬ fills) (hcode : code ≠ 0) :
    Outcome refuses fills effect w w code := .refused hr hf hcode rfl

theorem solveLane_code {intentWhitelists : Bytes → Bytes → Bool}
    {counterparties : FungibleLane → Option Bytes}
    {intent : Bool} (h : solveLane env intentWhitelists counterparties t packet order path intent =
      .error code) :
    code ≠ 0 := by
  unfold solveLane at h
  split at h
  · cases h
    decide
  · split at h
    · cases h
      decide
    · split at h
      · cases h
        decide
      · split at h <;> cases h
        decide

/-- What a vault answers: the refusal of its lane, or what was asked for is paid. -/
def Solved (lane : Except Nat Bytes) (t : CoinType) (order : TokenOrderV2) (relayer : Address)
    (w w' : World) (code : Nat) : Prop :=
  (code ≠ 0 ∧ w' = w ∧ ∃ e, lane = .error e) ∨
  (code = 0 ∧ (¬ ∃ e, lane = .error e) ∧
    Pays t (coinsTo relayer t (order.baseAmount - order.quoteAmount) ++
      coinsTo order.receiver t order.quoteAmount) w w')

theorem ownedSolve_solved {res : Bytes} (hlen : order.receiver.length = 32)
    (h : w.ownedSolve env t packet order path relayer false = .ok ((res, code), w')) :
    Solved (solveLane env w.vault.intentWhitelists w.vault.fungibleCounterparties t packet order
      path false) t order relayer w w' code := by
  unfold World.ownedSolve at h
  cases hlane : solveLane env w.vault.intentWhitelists w.vault.fungibleCounterparties t packet order
    path false with
  | error e =>
    rw [hlane] at h
    cases h
    exact .inl ⟨solveLane_code hlane, rfl, code, rfl⟩
  | ok beneficiary =>
    rw [hlane] at h
    simp only [bind_eq_ok, pure_eq_ok] at h
    obtain ⟨_, -, w₁, hpay, heq⟩ := h
    cases heq
    exact .inr ⟨rfl, by simp, payOrder_pays (fun _ _ _ _ hm => mint_pays hm) hlen hpay⟩

theorem escrowSolve_solved {res : Bytes} (hlen : order.receiver.length = 32)
    (h : w.escrowSolve env t packet order path relayer false = .ok ((res, code), w')) :
    Solved (solveLane env w.escrow.intentWhitelists w.escrow.fungibleCounterparties t packet order
      path false) t order relayer w w' code := by
  unfold World.escrowSolve at h
  cases hlane : solveLane env w.escrow.intentWhitelists w.escrow.fungibleCounterparties t packet
    order path false with
  | error e =>
    rw [hlane] at h
    cases h
    exact .inl ⟨solveLane_code hlane, rfl, code, rfl⟩
  | ok beneficiary =>
    rw [hlane] at h
    simp only [bind_eq_ok, pure_eq_ok] at h
    obtain ⟨w₁, hpay, heq⟩ := h
    cases heq
    exact .inr ⟨rfl, by simp, payOrder_pays (fun _ _ _ _ hm => unescrow_pays hm) hlen hpay⟩

theorem Solved.outcome {lane : Except Nat Bytes} {refuses : Prop} {maker : Bytes} {ack : AckData}
    (h : Solved lane t order relayer w w' code) (hlane : refuses ↔ ∃ e, lane = .error e)
    (htype : typeNameToQuoteToken t = order.quoteToken)
      (hack : code = 0 → ack = .tokenOrderAck FILL_TYPE_MARKETMAKER maker) :
    Outcome refuses (¬ refuses) (Filled relayer order ack w w') w w' code := by
  rcases h with ⟨hcode, hsame, he⟩ | ⟨hcode, he, hpays⟩
  · exact .refused (hlane.mpr he) (not_not_intro (hlane.mpr he)) hcode hsame
  · have hnot : ¬ refuses := fun hr => he (hlane.mp hr)
    refine .filled hnot hnot hcode hpays.onward
      ⟨t, order.baseAmount - order.quoteAmount, _, maker, _, hack hcode,
      .inr rfl, hpays.transfers, List.perm_append_comm, ?_⟩
    intro _
    exact .inl htype.symm

/-- **Solvers are refused or pay.** -/
theorem solverFill_outcome (hlen : order.receiver.length = 32)
    (h : solverFill env w t packet order path relayer false = .ok ((ack, code), w')) :
    Outcome (SolverRefuses env w t packet path order) (¬ SolverRefuses env w t packet path order)
      (Filled relayer order ack w w') w w' code := by
  simp only [solverFill, bind_eq_ok, orErr_eq_ok] at h
  obtain ⟨metadata, hmetadata, h⟩ := h
  split at h
  · rename_i htype
    cases h
    have hr : SolverRefuses env w t packet path order := .inl htype
    exact .refusal hr (not_not_intro hr) (by decide)
  · rename_i htype
    have htype' : typeNameToQuoteToken t = order.quoteToken := not_not.mp htype
    simp only [bind_eq_ok] at h
    obtain ⟨⟨⟨res, err⟩, w₁⟩, hsolve, h⟩ := h
    dsimp only at h
    have hdone : w' = w₁ ∧ code = err ∧ (code = 0 → ack = .tokenOrderAck FILL_TYPE_MARKETMAKER res) := by
      split at h
      · rename_i herr
        cases h
        exact ⟨rfl, rfl, fun hzero => absurd hzero herr⟩
      · rename_i herr
        cases h
        exact ⟨rfl, (not_not.mp herr).symm, fun _ => rfl⟩
    obtain ⟨rfl, rfl, hack⟩ := hdone
    unfold solveWith at hsolve
    split at hsolve
    · rename_i howned
      simp only [bind_eq_ok] at hsolve
      obtain ⟨-, -, hsolve⟩ := hsolve
      refine (ownedSolve_solved hlen hsolve).outcome ?_ htype' hack
      simp [SolverRefuses, htype', hmetadata, howned]
    · rename_i howned
      split at hsolve
      · rename_i hescrow
        simp only [bind_eq_ok] at hsolve
        obtain ⟨-, -, hsolve⟩ := hsolve
        refine (escrowSolve_solved hlen hsolve).outcome ?_ htype' hack
        rw [SolverRefuses, hmetadata]
        simp only [htype', ne_eq, not_true_eq_false, false_or, Option.some.injEq, exists_eq_left',
          if_neg howned, if_pos hescrow]
      · rename_i hescrow
        cases hsolve
        have hr : SolverRefuses env w t packet path order := by
          right
          exact ⟨metadata, hmetadata, by rw [if_neg howned, if_neg hescrow]; trivial⟩
        exact .refusal hr (not_not_intro hr) (by decide)

/-- **A market maker's order is paid out of the store, in whatever coin the call is for.** -/
theorem marketMakerFill_outcome (hkind : order.kind ≠ TOKEN_ORDER_KIND_SOLVE)
    (hreceiver : receiver = order.receiver)
    (h : marketMakerFill env w t packet relayer relayerMsg path receiver order false =
      .ok ((ack, code), w')) :
    Outcome (MakerRefuses w t order) (MakerFills w t order) (Filled relayer order ack w w') w w' code := by
  subst hreceiver
  unfold marketMakerFill at h
  rw [if_neg hkind] at h
  simp only [bind_eq_ok, asU64_eq_ok] at h
  obtain ⟨amount, ⟨-, rfl⟩, ⟨err, w₁⟩, hpay, h⟩ := h
  dsimp only at h
  rcases distributeIfPositive_pays hpay with ⟨herr, hpos, hnone, rfl⟩ | ⟨rfl, hcoin, hpays⟩
  · rw [if_pos herr] at h
    cases h
    exact .refusal ⟨hpos, hnone⟩ (fun hf => (hf hpos).1 hnone) herr
  · rw [if_neg (by simp)] at h
    cases h
    have hnot : ¬ MakerRefuses w t order := fun hr => hcoin hr.1 hr.2
    have hpaid : w'.transfers = w.transfers ++ payments order t relayer 0 := by
      rw [hpays.transfers, payments]
      simp [coinsTo]
    by_cases hstands : 0 < order.quoteAmount → Stands w.store order.quoteToken t
    · refine .filled hnot (fun hpos => ⟨hcoin hpos, hstands hpos⟩) rfl hpays.onward
        ⟨t, 0, _, relayerMsg, _, rfl, .inr rfl, hpaid, .refl _, ?_⟩
      intro hne
      rw [hpays.stands]
      apply hstands
      by_contra hzero
      exact hne (payments_eq_nil.mpr ⟨by omega, rfl⟩)
    · obtain ⟨hpos, hother⟩ := Classical.not_imp.mp hstands
      refine .feigned hnot (fun hf => hother (hf hpos).2) rfl hpays.onward ?_
      exact not_filled hpaid (.inl hpos) (by rwa [hpays.stands])

/-- **An unescrow order is refused too late, with its balance lowered, or paid in whatever coin the
    call is for, or answered without being looked at.** -/
theorem protocolFillUnescrow_outcome {channelId : UInt32} (hreceiver : receiver = order.receiver)
    (h : protocolFillUnescrow w t channelId path order.baseToken order.quoteToken receiver relayer
      order.baseAmount order.quoteAmount = .ok ((ack, code), w')) : Outcome False
      ((∃ reversed, reverseChannelPath path = .ok reversed ∧
        Covers w.store ⟨channelId, reversed, order.quoteToken, order.baseToken⟩ order.baseAmount) ∧
        (0 < order.baseAmount → w.store.bag t ≠ none ∧ Stands w.store order.quoteToken t))
      (Filled relayer order ack w w') w w' code := by
  subst hreceiver
  simp only [protocolFillUnescrow, bind_eq_ok, ensure_eq_ok] at h
  obtain ⟨-, hle, reversed, hreversed, h⟩ := h
  rcases hdecr : decreaseOutstanding w.store ⟨channelId, reversed, order.quoteToken, order.baseToken⟩
    order.baseAmount with ⟨err, s₁⟩
  rw [hdecr] at h
  dsimp only at h
  by_cases hcovers : Covers w.store ⟨channelId, reversed, order.quoteToken, order.baseToken⟩ order.baseAmount
  · obtain ⟨heq, hbal⟩ := decreaseOutstanding_of_covers hcovers
    rw [heq] at hdecr
    cases hdecr
    rw [if_neg (by simp)] at h
    -- the balance is lowered before anything is paid
    have hlowered : ∀ w₁ : World, w₁.store.channelBalance = (w.store.withBalance
        ⟨channelId, reversed, order.quoteToken, order.baseToken⟩
        (balanceOf w.store ⟨channelId, reversed, order.quoteToken, order.baseToken⟩
          - order.baseAmount)).channelBalance →
        w₁.store.tokenOrigin = w.store.tokenOrigin →
        Onward w w₁ ∧ (0 < order.baseAmount → Marked w w₁) := by
      intro w₁ hbalances horigins
      have hupd : balanceOf w₁.store = update (balanceOf w.store)
          ⟨channelId, reversed, order.quoteToken, order.baseToken⟩
          (balanceOf w.store ⟨channelId, reversed, order.quoteToken, order.baseToken⟩
            - order.baseAmount) := by
        rw [← balanceOf_withBalance]
        funext k
        rw [balanceOf, balanceOf, hbalances]
      refine ⟨⟨?_, ?_⟩, ?_⟩
      · intro d hd
        rwa [horigins]
      · intro k
        rw [hupd]
        by_cases hk : k = ⟨channelId, reversed, order.quoteToken, order.baseToken⟩
        · rw [hk, update_self]
          omega
        · rw [update_of_ne hk]
      · intro hpos
        refine .inr ⟨⟨channelId, reversed, order.quoteToken, order.baseToken⟩, ?_⟩
        rw [hupd, update_self]
        omega
    simp only [bind_eq_ok] at h
    obtain ⟨⟨err₁, w₁⟩, hquote, h⟩ := h
    dsimp only at h
    rcases distributeIfPositive_pays hquote with ⟨herr₁, hpos, hnone, hsame⟩ | ⟨rfl, hcoin₁, hpays₁⟩
    · obtain ⟨honward, hmarked⟩ := hlowered w₁ (by rw [hsame]) (by rw [hsame]; rfl)
      rw [if_pos herr₁] at h
      cases h
      refine .spoiled not_false ?_ herr₁ honward (hmarked (by omega))
      rintro ⟨-, hf⟩
      exact (hf (by omega)).1 hnone
    · rw [if_neg (by simp)] at h
      simp only [bind_eq_ok] at h
      obtain ⟨⟨err₂, w₂⟩, hfee, h⟩ := h
      dsimp only at h
      rcases distributeIfPositive_pays hfee with ⟨herr₂, hpos, hnone, rfl⟩ | ⟨rfl, hcoin₂, hpays₂⟩
      · rw [if_pos herr₂] at h
        cases h
        obtain ⟨honward, hmarked⟩ := hlowered _ hpays₁.balances hpays₁.origins
        refine .spoiled not_false ?_ herr₂ honward (hmarked (by omega))
        rintro ⟨-, hf⟩
        exact hpays₁.coin (hf (by omega)).1 hnone
      · rw [if_neg (by simp)] at h
        cases h
        have hpays := hpays₁.trans hpays₂
        obtain ⟨honward, -⟩ := hlowered _ hpays.balances hpays.origins
        have hpaid : w'.transfers = w.transfers ++
            payments order t relayer (order.baseAmount - order.quoteAmount) :=
          hpays.transfers
        have hstands : Stands w'.store order.quoteToken t ↔ Stands w.store order.quoteToken t := hpays.stands
        by_cases hdenotes : 0 < order.baseAmount → Stands w.store order.quoteToken t
        · have hcoin : 0 < order.baseAmount → w.store.bag t ≠ none := by
            intro hpos hnone
            by_cases hq : 0 < order.quoteAmount
            · exact hcoin₁ hq hnone
            · -- nothing was paid to the receiver, so that the coins are those from before
              have hzero : order.quoteAmount = 0 := by omega
              rw [hzero] at hquote
              cases hquote
              exact hcoin₂ (by omega) hnone
          refine .filled not_false ⟨⟨reversed, hreversed, hcovers⟩, fun hpos =>
            ⟨hcoin hpos, hdenotes hpos⟩⟩ rfl honward
            ⟨t, _, _, [], _, rfl, .inl ⟨rfl, by omega⟩, hpaid, .refl _, ?_⟩
          intro hne
          rw [hstands]
          apply hdenotes
          by_contra hzero
          exact hne (payments_eq_nil.mpr ⟨by omega, by omega⟩)
        · obtain ⟨hpos, hother⟩ := Classical.not_imp.mp hdenotes
          refine .feigned not_false (fun hf => hother (hf.2 hpos).2) rfl honward ?_
          exact not_filled hpaid (by omega) (by rwa [hstands])
  · rcases decreaseOutstanding_eq_zero hdecr with ⟨-, hc⟩ | ⟨herr, -⟩
    · exact absurd hc hcovers
    · rw [if_pos herr] at h
      cases h
      refine .feigned not_false ?_ rfl (Onward.refl w) ?_
      · rintro ⟨⟨reversed', hreversed', hc⟩, -⟩
        rw [hreversed] at hreversed'
        cases hreversed'
        exact hcovers hc
      · rintro ⟨_, _, _, _, _, hack, -⟩
        cases hack

theorem claimWrappedDenom_claims {claimed : Bool}
    (h : claimWrappedDenom env w t wrapped metadata = .ok (claimed, w')) :
    (claimed = false ∧ ¬ Claims env w t wrapped metadata ∧ w' = w) ∨
    (claimed = true ∧ Claims env w t wrapped metadata ∧ Onward w w' ∧ w'.transfers = w.transfers ∧
      w'.store.wrappedDenomToT wrapped = some t) := by
  unfold claimWrappedDenom at h
  unfold Claims
  cases hclaim : w.store.wrappedDenomToT wrapped with
  | some u =>
    rw [hclaim] at h
    cases h
    by_cases hu : u = t
    · subst hu
      exact .inr ⟨by simp, rfl, Onward.refl w, rfl, hclaim⟩
    · exact .inl ⟨by simp [hu], hu, rfl⟩
  | none =>
    rw [hclaim] at h
    cases metadata with
    | none =>
      cases h
      refine .inl ⟨rfl, ?_, rfl⟩
      rintro ⟨m, _, hm, -⟩
      cases hm
    | some metadata =>
      simp only [bind_eq_ok, orErr_eq_ok] at h
      obtain ⟨suiMetadata, hdecode, m, hm, h⟩ := h
      split at h
      · rename_i hne
        cases h
        refine .inl ⟨rfl, ?_, rfl⟩
        rintro ⟨m', suiMetadata', hm', hdecode', hget⟩
        cases hm'
        rw [hdecode] at hdecode'
        cases hdecode'
        rw [hm] at hget
        cases hget
        exact hne rfl
      · rename_i heq
        cases h
        obtain rfl := not_not.mp heq
        refine .inr ⟨rfl, ⟨metadata, m, rfl, hdecode, hm⟩, ⟨fun _ hd => hd, fun _ => Nat.le_refl _⟩, rfl, ?_⟩
        simp

theorem saveTokenOrigin_ok {s' : RelayStore} {channel : UInt32}
    (h : saveTokenOrigin w.store wrapped path channel = .ok s') :
      (w.store.tokenOrigin wrapped ≠ none ∧ s' = w.store) ∨
    (w.store.tokenOrigin wrapped = none ∧ Onward w { w with store := s' } ∧ Marked w { w with store := s' } ∧
      s'.wrappedDenomToT = w.store.wrappedDenomToT) := by
  simp only [saveTokenOrigin, bind_eq_ok] at h
  obtain ⟨updated, -, h⟩ := h
  split at h
  · rename_i hnone
    cases h
    refine .inr ⟨hnone, ⟨?_, fun _ => Nat.le_refl _⟩, .inl ⟨wrapped, hnone, ?_⟩, rfl⟩
    · intro d hd
      by_cases hw : d = wrapped
      · simp [hw]
      · simpa [hw] using hd
    · simp
  · rename_i origin hsome
    cases h
    refine .inl ⟨?_, rfl⟩
    rw [hsome]
    simp

/-- **A wrapped token is minted if its coin type is claimed; the origin of the token is saved in
    either case.** -/
theorem mint_outcome {s₁ : RelayStore} {channel : UInt32}
    (hreceiver : receiver = order.receiver) (hwrapped : order.quoteToken = wrapped)
    (hsave : saveTokenOrigin w.store wrapped path channel = .ok s₁)
    (h : protocolFillMint env { w with store := s₁ } t wrapped receiver relayer order metadata =
      .ok ((ack, code), w')) :
    Outcome (w.store.tokenOrigin wrapped ≠ none ∧ ¬ Claims env w t wrapped metadata)
      (Claims env w t wrapped metadata) (Filled relayer order ack w w') w w' code := by
  subst hreceiver
  have hsaved := saveTokenOrigin_ok hsave
  have hclaims : Claims env { w with store := s₁ } t wrapped metadata ↔ Claims env w t wrapped metadata := by
    have hsame : s₁.wrappedDenomToT = w.store.wrappedDenomToT := by
      rcases hsaved with ⟨-, rfl⟩ | ⟨-, -, -, hsame⟩
      · rfl
      · exact hsame
    simp only [Claims, hsame]
  have honward : Onward w { w with store := s₁ } := by
    rcases hsaved with ⟨-, rfl⟩ | ⟨-, honward, -⟩
    · exact Onward.refl w
    · exact honward
  simp only [protocolFillMint, bind_eq_ok, ensure_eq_ok, asU64_eq_ok] at h
  obtain ⟨-, hle, fee, ⟨-, rfl⟩, ⟨claimed, w₁⟩, hclaim, h⟩ := h
  dsimp only at h
  rcases claimWrappedDenom_claims hclaim with ⟨rfl, hnot, rfl⟩ | ⟨rfl, hclaimed, honward₁,
    htransfers, hstands⟩
  · rw [if_pos (by simp)] at h
    cases h
    rw [hclaims] at hnot
    rcases hsaved with ⟨hsome, rfl⟩ | ⟨hnone, -, hmarked, -⟩
    · exact .refusal ⟨hsome, hnot⟩ hnot (by decide)
    · exact .spoiled (fun hr => hr.1 hnone) hnot (by decide) honward hmarked
  · rw [if_neg (by simp)] at h
    simp only [bind_eq_ok] at h
    obtain ⟨w₂, hquote, w₃, hfee, heq⟩ := h
    cases heq
    have h₂ : Pays t (coinsTo order.receiver t order.quoteAmount) w₁ w₂ := by
      refine ifPositive_pays ?_ hquote
      simp only [bind_eq_ok, asU64_eq_ok]
      rintro ⟨-, -, amount, ⟨-, rfl⟩, hm⟩
      exact mint_pays hm
    have h₃ : Pays t (coinsTo relayer t (order.baseAmount - order.quoteAmount)) w₂ w' := by
      refine ifPositive_pays ?_ hfee
      simp only [bind_eq_ok]
      rintro ⟨-, -, hm⟩
      exact mint_pays hm
    have hpays := h₂.trans h₃
    refine .filled (fun hr => hr.2 (hclaims.mp hclaimed)) (hclaims.mp hclaimed) rfl
      ((honward.trans honward₁).trans hpays.onward) ⟨t, order.baseAmount - order.quoteAmount, _, [],
        _, rfl, .inl ⟨rfl, by omega⟩, ?_, .refl _, ?_⟩
    · rw [hpays.transfers, htransfers]
      rfl
    · intro _
      rw [hpays.stands, hwrapped]
      exact .inr hstands

/-- **What an order comes to.** -/
theorem executeTokenOrder_outcome
    (h : executeTokenOrder env w t packet relayer relayerMsg path order false = .ok ((ack, code), w')) :
    Outcome (Refuses env w t packet path order) (Fills env w t packet path order)
      (Filled relayer order ack w w') w w' code := by
  unfold executeTokenOrder at h
  by_cases hlen : order.receiver.length = 32
  · rw [if_neg (not_not_intro hlen)] at h
    simp only [bind_eq_ok] at h
    obtain ⟨receiver, hpeel, h⟩ := h
    have hrcv := peelAddress_self hlen hpeel
    simp only [Refuses, Fills, hlen, ne_eq, not_true_eq_false, false_or, true_and]
    by_cases hsolve : order.kind = TOKEN_ORDER_KIND_SOLVE
    · rw [if_pos (.inr hsolve)] at h
      rw [if_pos hsolve, if_pos hsolve]
      unfold marketMakerFill at h
      rw [if_pos hsolve] at h
      exact solverFill_outcome hlen h
    · rw [if_neg (by simpa using hsolve)] at h
      rw [if_neg hsolve, if_neg hsolve]
      by_cases hunescrow : order.kind = TOKEN_ORDER_KIND_UNESCROW
      · rw [if_pos hunescrow] at h
        rw [if_pos hunescrow, if_pos hunescrow]
        split at h
        · rename_i hlt
          cases h
          refine .refusal hlt ?_ (by decide)
          rintro ⟨hle, -⟩
          omega
        · rename_i hle
          simp only [bind_eq_ok, asU64_eq_ok] at h
          obtain ⟨base, ⟨-, rfl⟩, quote, ⟨-, rfl⟩, h⟩ := h
          refine (protocolFillUnescrow_outcome hrcv h).congr (iff_false_intro hle) ?_
          exact and_iff_right (by omega)
      · rw [if_neg hunescrow] at h
        rw [if_neg hunescrow, if_neg hunescrow]
        simp only [bind_eq_ok] at h
        obtain ⟨wrapped, hwrapped, h⟩ := h
        rw [hwrapped]
        cases wrapped with
        | error e =>
          cases h
          refine .refusal trivial not_false ?_
          unfold wrappedTokenOf at hwrapped
          split at hwrapped
          · split at hwrapped <;> cases hwrapped
            decide
          · split at hwrapped
            · simp only [bind_eq_ok, pure_eq_ok] at hwrapped
              obtain ⟨_, -, hwrapped⟩ := hwrapped
              cases hwrapped
            · cases hwrapped
              decide
        | ok wrapped =>
          obtain ⟨wrapped, metadata⟩ := wrapped
          dsimp only at h ⊢
          by_cases hmints : order.quoteToken = wrapped ∧ order.quoteAmount ≤ order.baseAmount
          · rw [if_pos hmints] at h
            rw [if_pos hmints, if_pos hmints]
            simp only [bind_eq_ok] at h
            obtain ⟨s₁, hsave, h⟩ := h
            exact mint_outcome hrcv hmints.1 hsave h
          · rw [if_neg hmints] at h
            rw [if_neg hmints, if_neg hmints]
            exact marketMakerFill_outcome hsolve hrcv h
  · rw [if_pos hlen] at h
    cases h
    exact .refusal (.inl hlen) (fun hf => hlen hf.1) (by decide)

end Fill

/-! ## Instructions -/

/-- Only token orders are not refused, in the one version there is. -/
def Instruction.Refuses (env : Env) (w : World) (t : CoinType) (packet : Packet) (path : U256) :
    Instruction → Prop
  | .mk version opcode operand =>
    opcode ≠ OP_TOKEN_ORDER ∨ version ≠ INSTR_VERSION_2 ∨
      ∃ order, operand = .tokenOrder order ∧ Sui.Refuses env w t packet path order

def Instruction.Fills (env : Env) (w : World) (t : CoinType) (packet : Packet) (path : U256) :
    Instruction → Prop
  | .mk version opcode operand =>
    opcode = OP_TOKEN_ORDER ∧ version = INSTR_VERSION_2 ∧
      ∃ order, operand = .tokenOrder order ∧ Sui.Fills env w t packet path order

/-- The instruction took effect, and `ack` says so. -/
def Instruction.TakesEffect (relayer : Address) (ack : AckData) (w w' : World) : Instruction → Prop
  | .mk _ opcode operand => opcode = OP_TOKEN_ORDER ∧ ∃ order, operand = .tokenOrder order ∧
      Filled relayer order ack w w'

theorem Instruction.TakesEffect.ack_eq {instruction : Instruction}
    (h : instruction.TakesEffect relayer ack w w') :
    ∃ fillType maker, ack = .tokenOrderAck fillType maker := by
  obtain ⟨version, opcode, operand⟩ := instruction
  obtain ⟨-, order, -, t, fee, fillType, maker, paid, hack, -⟩ := h
  exact ⟨fillType, maker, hack⟩

theorem executeInternal_outcome {env : Env} {clock : Nat} {packet : Packet} {salt : Bytes} {path : U256}
    {instruction : Instruction} {code : Nat}
    (h : executeInternal env w t clock packet salt path relayer relayerMsg false instruction =
      .ok ((ack, code), w')) :
    Outcome (instruction.Refuses env w t packet path) (instruction.Fills env w t packet path)
      (instruction.TakesEffect relayer ack w w') w w' code := by
  by_cases hop : instruction.opcode = OP_TOKEN_ORDER
  · obtain ⟨version, opcode, operand⟩ := instruction
    simp only [Instruction.opcode] at hop
    subst hop
    simp only [executeInternal, if_true] at h
    simp only [Instruction.Refuses, Instruction.Fills, Instruction.TakesEffect, ne_eq,
      not_true_eq_false, false_or, true_and]
    by_cases hversion : version = INSTR_VERSION_2
    · rw [if_neg (not_not_intro hversion)] at h
      cases operand with
      | tokenOrder order =>
        simpa [hversion] using executeTokenOrder_outcome h
      | forward | batch | other => cases h
    · rw [if_pos hversion] at h
      cases h
      exact .refusal (.inl hversion) (fun hf => hversion hf.1) (by decide)
  · obtain ⟨hcode, rfl⟩ := executeInternal_other hop h
    obtain ⟨version, opcode, operand⟩ := instruction
    exact .refusal (.inl hop) (fun hf => hop hf.1) hcode

end UnionVoyager.Sui
