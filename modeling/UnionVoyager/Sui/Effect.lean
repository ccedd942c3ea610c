import UnionVoyager.Sui.Machine

/-!
# What one instruction moves

For each way an instruction is handled, what it does to the balances, the coins of the store and the supplies.

* `verifyInternal_taken` — sending takes the coin of the order.
* `executeInternal_moved` — receiving moves nothing, or what an unescrow order asks for.
* `acknowledgeInternal_moved`, `timeoutInternal_givenBack` — a refund gives back what was taken.
-/

namespace UnionVoyager.Sui

open Lib Function
open Zkgm (U256 AckData Acknowledgement OP_FORWARD OP_CALL OP_TOKEN_ORDER INSTR_VERSION_0 INSTR_VERSION_2
  TOKEN_ORDER_KIND_UNESCROW TOKEN_ORDER_KIND_SOLVE FILL_TYPE_PROTOCOL FILL_TYPE_MARKETMAKER TAG_ACK_SUCCESS)

/-! ## Balances and holdings -/

def balanceOf (s : RelayStore) (k : ChannelBalancePair) : Nat := (s.channelBalance k).getD 0

def heldOf (s : RelayStore) (t : CoinType) : Nat := (s.bag t).getD 0

def Denotes (k : ChannelBalancePair) (t : CoinType) : Prop := k.token = typeNameToQuoteToken t

theorem denotes_unique (k : ChannelBalancePair) (t u : CoinType) (ht : Denotes k t)
    (hu : Denotes k u) : t = u :=
  typeNameToQuoteToken_injective (ht.symm.trans hu)

/-- **Solvency**: what the store holds of a coin type covers all balances in it. -/
def Solvent (s : RelayStore) : Prop := Backed Denotes (balanceOf s) (heldOf s)

/-- Neither balances nor coins change. -/
def Still (s s' : RelayStore) : Prop := (∀ k, balanceOf s' k = balanceOf s k) ∧ ∀ t, heldOf s' t = heldOf s t

theorem Still.refl (s : RelayStore) : Still s s := ⟨fun _ => rfl, fun _ => rfl⟩

/-- A balance and the coin its base token names change by the same amounts. -/
def Moved (k : ChannelBalancePair) (t : CoinType) (given taken : Nat) (s s' : RelayStore) : Prop :=
  Denotes k t ∧ Shift k t given taken (balanceOf s) (heldOf s) (balanceOf s') (heldOf s')

variable {s s' : RelayStore}

theorem Solvent.still (h : Solvent s) (hs : Still s s') : Solvent s' := h.congr hs.1 hs.2

variable {k : ChannelBalancePair} {t : CoinType}

theorem Solvent.moved (h : Solvent s) {given taken : Nat} (hm : Moved k t given taken s s') :
    Solvent s' := h.shift denotes_unique hm.1 hm.2

/-! ## What stays -/

/-- What no instruction undoes: claims stay, and only forwards touch the packets in flight and the
    IBC store. -/
structure Frame (w w' : World) : Prop where
  inFlight : w'.store.inFlightPacket = w.store.inFlightPacket
  claims : ∀ d t, w.store.wrappedDenomToT d = some t → w'.store.wrappedDenomToT d = some t
  ibc : w'.ibc = w.ibc

theorem Frame.refl (w : World) : Frame w w := ⟨rfl, fun _ _ h => h, rfl⟩

variable {w w' w'' : World}

theorem Frame.trans (h : Frame w w') (h' : Frame w' w'') : Frame w w'' :=
  ⟨h'.inFlight.trans h.inFlight, fun d t hd => h'.claims d t (h.claims d t hd), h'.ibc.trans h.ibc⟩

def Outside (w w' : World) : Prop := w'.store = w.store ∧ w'.ibc = w.ibc

theorem Outside.frame (h : Outside w w') : Frame w w' := by
  refine ⟨by rw [h.1], ?_, h.2⟩
  intro d t hd
  rw [h.1]
  exact hd

theorem Outside.trans (h : Outside w w') (h' : Outside w' w'') : Outside w w'' :=
    ⟨h'.1.trans h.1, h'.2.trans h.2⟩

/-! ## Coins -/

variable {amount value clock : Nat} {recipient relayer receiver : Address}

theorem mint_ok (h : w.mint t amount recipient = .ok w') : ∃ c, w.vault.tokenTypeToTreasury t = some c ∧
      w' = { w with
        vault := w.vault.setSupply t c (c.supply + amount)
        transfers := w.transfers ++ [⟨recipient, t, amount⟩] } := by
  simp only [World.mint, bind_eq_ok, orErr_eq_ok, pure_eq_ok] at h
  obtain ⟨c, hc, -, -, rfl⟩ := h
  exact ⟨c, hc, rfl⟩

theorem mint_outside (h : w.mint t amount recipient = .ok w') : Outside w w' := by
  obtain ⟨c, -, rfl⟩ := mint_ok h
  exact ⟨rfl, rfl⟩

theorem burn_ok (h : w.burn t value = .ok w') : ∃ c, w.vault.tokenTypeToTreasury t = some c ∧
      value ≤ c.supply ∧ w' = { w with vault := w.vault.setSupply t c (c.supply - value) } := by
  simp only [World.burn, bind_eq_ok, orErr_eq_ok, ensure_eq_ok, pure_eq_ok] at h
  obtain ⟨c, hc, -, hle, rfl⟩ := h
  exact ⟨c, hc, hle, rfl⟩

theorem unescrow_outside (h : w.unescrow t amount recipient = .ok w') : Outside w w' := by
  simp only [World.unescrow, bind_eq_ok, pure_eq_ok] at h
  obtain ⟨v, -, -, -, rfl⟩ := h
  exact ⟨rfl, rfl⟩

theorem escrowCoin_outside (h : w.escrowCoin t value = .ok w') : Outside w w' := by
  simp only [World.escrowCoin, bind_eq_ok, pure_eq_ok] at h
  obtain ⟨v, -, rfl⟩ := h
  exact ⟨rfl, rfl⟩

theorem ifPositive_outside {x : Result World} (hx : x = .ok w' → Outside w w')
    (h : w.ifPositive amount x = .ok w') : Outside w w' := by
  unfold World.ifPositive at h
  split at h
  · exact hx h
  · cases h
    exact ⟨rfl, rfl⟩

variable {order : TokenOrderV2}

theorem payOrder_outside {pay : World → Nat → Address → Result World}
    (hpay : ∀ w amount recipient w', pay w amount recipient = .ok w' → Outside w w')
    (h : payOrder pay w order relayer = .ok w') : Outside w w' := by
  simp only [payOrder, bind_eq_ok] at h
  obtain ⟨w₁, hfee, hquote⟩ := h
  have h₁ : Outside w w₁ := by
    refine ifPositive_outside ?_ hfee
    simp only [bind_eq_ok]
    rintro ⟨fee, -, h⟩
    exact hpay _ _ _ _ h
  refine h₁.trans (ifPositive_outside ?_ hquote)
  simp only [bind_eq_ok]
  rintro ⟨receiver, -, amount, -, h⟩
  exact hpay _ _ _ _ h

/-- The store with another amount of a coin. -/
def RelayStore.withCoin (s : RelayStore) (t : CoinType) (value : Nat) : RelayStore :=
  { s with bag := update s.bag t (some value) }

def RelayStore.withBalance (s : RelayStore) (k : ChannelBalancePair) (balance : Nat) : RelayStore :=
  { s with channelBalance := update s.channelBalance k (some balance) }

@[simp] theorem heldOf_withBalance (s : RelayStore) (k : ChannelBalancePair) (b : Nat) :
    heldOf (s.withBalance k b) = heldOf s := rfl

theorem heldOf_withCoin (s : RelayStore) (t : CoinType) (v : Nat) :
    heldOf (s.withCoin t v) = update (heldOf s) t v := by
  funext u
  by_cases h : u = t
  · subst h
    simp [heldOf, RelayStore.withCoin]
  · simp [heldOf, RelayStore.withCoin, h]

theorem balanceOf_withBalance (s : RelayStore) (k : ChannelBalancePair) (b : Nat) :
    balanceOf (s.withBalance k b) = update (balanceOf s) k b := by
  funext u
  by_cases h : u = k
  · subst h
    simp [balanceOf, RelayStore.withBalance]
  · simp [balanceOf, RelayStore.withBalance, h]

theorem moved_of_set {b v given taken : Nat} (hdenotes : Denotes k t)
    (hbalance : balanceOf s' = update (balanceOf s) k b) (hheld : heldOf s' = update (heldOf s) t v)
    (hb : b + given = balanceOf s k + taken) (hv : v + given = heldOf s t + taken) :
      Moved k t given taken s s' := by
  refine ⟨hdenotes, ?_, ?_, ?_, ?_⟩
  · rw [hbalance, update_self]
    exact hb
  · intro k' hk'
    rw [hbalance, update_of_ne hk']
  · rw [hheld, update_self]
    exact hv
  · intro t' ht'
    rw [hheld, update_of_ne ht']

/-! ## Sending -/

/-- What is taken for an order: its wrapped coin is burned, or its coin goes to the store and its balance. -/
def Taken (k : Taking) (w w' : World) : Prop :=
  if k.order.kind = TOKEN_ORDER_KIND_UNESCROW then
    w.store.wrappedDenomToT k.order.baseToken = some k.coinType ∧ w'.store = w.store ∧
      ∃ c, w.vault.tokenTypeToTreasury k.coinType = some c ∧ k.order.baseAmount ≤ c.supply ∧
        w'.vault = w.vault.setSupply k.coinType c (c.supply - k.order.baseAmount)
  else Moved k.key k.coinType 0 k.order.baseAmount w.store w'.store

variable {env : Env} {channelId channel : UInt32}

/-- Of the four branches of a dispatcher two abort. -/
theorem branches_ok {α : Type} {p q r : Prop} [Decidable p] [Decidable q] [Decidable r]
    {a b : Result α} {e e' : Abort}
    {x : α} (h : (if p then a else if q then b else if r then .error e else .error e') = .ok x) :
    a = .ok x ∨ b = .ok x := by
  split_ifs at h
  · exact .inl h
  · exact .inr h

theorem verifyInternal_ok :
    ∀ {path : U256} {instruction : Instruction},
      verifyInternal env w t value channelId path instruction = .ok w' →
      ∃ order, instruction.order = some order ∧
        verifyTokenOrder env w t value channelId (instruction.orderPath path) order = .ok w'
  | path, .mk version opcode (.tokenOrder order), h => by
    simp only [verifyInternal] at h
    rcases branches_ok h with h | h
    · simp only [bind_eq_ok] at h
      obtain ⟨-, -, h⟩ := h
      exact ⟨order, rfl, h⟩
    · simp [bind_eq_ok] at h
  | path, .mk version opcode (.forward forwardPath timeoutHeight timeoutTimestamp instruction), h => by
    simp only [verifyInternal] at h
    rcases branches_ok h with h | h
    · simp [bind_eq_ok] at h
    · simp only [bind_eq_ok] at h
      obtain ⟨-, -, -, -, h⟩ := h
      obtain ⟨order, horder, hverify⟩ := verifyInternal_ok h
      exact ⟨order, horder, hverify⟩
  | path, .mk version opcode (.batch instructions), h => by
    simp only [verifyInternal] at h
    rcases branches_ok h with h | h <;> simp [bind_eq_ok] at h
  | path, .mk version opcode (.other bytes), h => by
    simp only [verifyInternal] at h
    rcases branches_ok h with h | h <;> simp [bind_eq_ok] at h

variable {path : U256}

theorem verifyTokenOrder_taken (howns : Owns w.store order t)
    (h : verifyTokenOrder env w t order.baseAmount channelId path order = .ok w') :
    Taken ⟨channelId, path, order, t⟩ w w' ∧ Frame w w' := by
  unfold Owns at howns
  unfold verifyTokenOrder at h
  unfold Taken
  by_cases hkind : order.kind = TOKEN_ORDER_KIND_UNESCROW
  · rw [if_pos hkind] at howns h ⊢
    simp only [bind_eq_ok] at h
    obtain ⟨_, -, _, -, -, -, -, -, -, -, h⟩ := h
    obtain ⟨c, hc, hle, rfl⟩ := burn_ok h
    exact ⟨⟨howns, rfl, c, hc, hle, rfl⟩, ⟨rfl, fun _ _ h => h, rfl⟩⟩
  · rw [if_neg hkind] at howns h ⊢
    simp only [bind_eq_ok, increaseOutstanding, saveCoinToBag, ensure_eq_ok, asU64_eq_ok, pure_eq_ok] at h
    obtain ⟨s₁, ⟨-, -, rfl⟩, s₂, ⟨sum, ⟨-, rfl⟩, rfl⟩, rfl⟩ := h
    refine ⟨?_, ⟨rfl, fun _ _ h => h, rfl⟩⟩
    refine moved_of_set howns
      (balanceOf_withBalance w.store ⟨channelId, path, order.baseToken, order.quoteToken⟩ _)
      (heldOf_withCoin w.store t _) ?_ ?_
    · rfl
    · rfl

variable {instruction : Instruction}

theorem verifyInternal_taken (hfits : SendFits w.store t value instruction)
    (h : verifyInternal env w t value channelId 0 instruction = .ok w') :
    ∃ k, takingOf channelId 0 instruction t = some k ∧ value = k.order.baseAmount ∧ Owns w.store k.order t ∧
      Taken k w w' ∧ Frame w w' := by
  obtain ⟨order, horder, h⟩ := verifyInternal_ok h
  obtain ⟨rfl, howns⟩ := hfits order horder
  obtain ⟨htaken, hframe⟩ := verifyTokenOrder_taken howns h
  refine ⟨⟨channelId, instruction.orderPath 0, order, t⟩, ?_, rfl, howns, htaken, hframe⟩
  rw [takingOf, horder]
  rfl

/-! ## Paying out -/

theorem distributeCoin_ok {err : Nat} (h : distributeCoin w t receiver amount = .ok (err, w')) :
    (err = ENoCoinInBag ∧ w.store.bag t = none ∧ w' = w) ∨
    (err = 0 ∧ ∃ value, w.store.bag t = some value ∧ amount ≤ value ∧
      w' = { w with
        store := w.store.withCoin t (value - amount)
        transfers := w.transfers ++ [⟨receiver, t, amount⟩] }) := by
  simp only [distributeCoin, bind_eq_ok] at h
  obtain ⟨split, hsplit, h⟩ := h
  unfold splitCoin at hsplit
  cases hbag : w.store.bag t with
  | none =>
    rw [hbag] at hsplit
    cases hsplit
    cases h
    exact .inl ⟨rfl, rfl, rfl⟩
  | some value =>
    rw [hbag] at hsplit
    dsimp only at hsplit
    split at hsplit
    · rename_i hle
      cases hsplit
      cases h
      exact .inr ⟨rfl, value, rfl, hle, rfl⟩
    · cases hsplit

theorem decreaseOutstanding_of_covers (h : Covers s k amount) :
    decreaseOutstanding s k amount = (0, s.withBalance k (balanceOf s k - amount)) ∧
      amount ≤ balanceOf s k := by
  obtain ⟨balance, hbal, hle⟩ := h
  unfold decreaseOutstanding balanceOf
  rw [hbal]
  dsimp only [Option.getD_some]
  rw [if_neg (by omega)]
  exact ⟨rfl, hle⟩

theorem decreaseOutstanding_eq_zero {code : Nat} (h : decreaseOutstanding s k amount = (code, s')) :
    (code = 0 ∧ Covers s k amount) ∨ (code ≠ 0 ∧ s' = s) := by
  unfold decreaseOutstanding at h
  cases hbal : s.channelBalance k with
  | none =>
    rw [hbal] at h
    cases h
    exact .inr ⟨by decide, rfl⟩
  | some balance =>
    rw [hbal] at h
    dsimp only at h
    split at h
    · cases h
      exact .inr ⟨by decide, rfl⟩
    · rename_i hle
      cases h
      exact .inl ⟨rfl, balance, hbal, by omega⟩

theorem moved_lowered (hdenotes : Denotes k t) (hcovers : amount ≤ balanceOf s k)
    (hvalue : s.bag t = some value) (hle : amount ≤ value) :
    Moved k t amount 0 s ((s.withBalance k (balanceOf s k - amount)).withCoin t (value - amount)) := by
  have hheld : heldOf s t = value := by rw [heldOf, hvalue]; rfl
  refine moved_of_set hdenotes (balanceOf_withBalance s k _) (heldOf_withCoin s t _) ?_ ?_
  · omega
  · omega

theorem moved_zero (hdenotes : Denotes k t) : Moved k t 0 0 s (s.withBalance k (balanceOf s k - 0)) := by
  refine moved_of_set hdenotes (balanceOf_withBalance s k _) ?_ rfl rfl
  rw [heldOf_withBalance, update_eq_self]

theorem Solvent.coin (h : Solvent s) (hdenotes : Denotes k t) (hcovers : amount ≤ balanceOf s k)
    (hpos : 0 < amount) : ∃ value, s.bag t = some value ∧ amount ≤ value := by
  have hle := h.le hdenotes
  cases hbag : s.bag t with
  | none =>
    rw [heldOf, hbag, Option.getD_none] at hle
    omega
  | some value =>
    rw [heldOf, hbag, Option.getD_some] at hle
    exact ⟨value, rfl, by omega⟩

/-! ## Receiving -/

/-- Neither balances nor coins of the store change. -/
structure Quiet (w w' : World) : Prop where
  frame : Frame w w'
  still : Still w.store w'.store

theorem Outside.quiet (h : Outside w w') : Quiet w w' := by
  refine ⟨h.frame, ?_⟩
  rw [h.1]
  exact Still.refl w.store

theorem Quiet.refl (w : World) : Quiet w w := ⟨Frame.refl w, Still.refl w.store⟩

theorem Quiet.trans (h : Quiet w w') (h' : Quiet w' w'') : Quiet w w'' := by
  refine ⟨h.frame.trans h'.frame, ?_, ?_⟩
  · intro k
    rw [h'.still.1, h.still.1]
  · intro t
    rw [h'.still.2, h.still.2]

variable {packet : Packet} {intent : Bool}

theorem solveWith_outside {solver : Bytes} {r : Bytes × Nat}
    (h : solveWith env w solver t packet order path relayer intent = .ok (r, w')) : Outside w w' := by
  unfold solveWith at h
  split at h
  · simp only [bind_eq_ok, World.ownedSolve] at h
    obtain ⟨-, -, h⟩ := h
    split at h
    · cases h
      exact ⟨rfl, rfl⟩
    · simp only [bind_eq_ok, pure_eq_ok] at h
      obtain ⟨_, -, w₁, hpay, heq⟩ := h
      cases heq
      exact payOrder_outside (fun _ _ _ _ hm => mint_outside hm) hpay
  · split at h
    · simp only [bind_eq_ok, World.escrowSolve] at h
      obtain ⟨-, -, h⟩ := h
      split at h
      · cases h
        exact ⟨rfl, rfl⟩
      · simp only [bind_eq_ok, pure_eq_ok] at h
        obtain ⟨w₁, hpay, heq⟩ := h
        cases heq
        exact payOrder_outside (fun _ _ _ _ hm => unescrow_outside hm) hpay
    · cases h
      exact ⟨rfl, rfl⟩

variable {a : Answer}

theorem solverFill_outside (h : solverFill env w t packet order path relayer intent = .ok (a, w')) :
    Outside w w' := by
  simp only [solverFill, bind_eq_ok] at h
  obtain ⟨metadata, -, h⟩ := h
  split at h
  · cases h
    exact ⟨rfl, rfl⟩
  · simp only [bind_eq_ok] at h
    obtain ⟨⟨⟨res, err⟩, w₁⟩, hsolve, h⟩ := h
    have hout := solveWith_outside hsolve
    dsimp only at h
    split at h <;> (cases h; exact hout)

variable {relayerMsg salt : Bytes} {metadata : Option TokenMetadata}

theorem marketMakerFill_outside
    (hfits : order.kind = TOKEN_ORDER_KIND_SOLVE ∨ order.quoteAmount = 0 ∨ w.store.bag t = none)
    (h : marketMakerFill env w t packet relayer relayerMsg path receiver order intent = .ok (a, w')) :
    Outside w w' := by
  unfold marketMakerFill at h
  split at h
  · exact solverFill_outside h
  · rename_i hkind
    simp only [bind_eq_ok, asU64_eq_ok] at h
    obtain ⟨amount, ⟨-, rfl⟩, ⟨err, w₁⟩, hpay, h⟩ := h
    have hsame : w₁ = w := by
      unfold distributeIfPositive at hpay
      split at hpay
      · rename_i hpos
        rcases distributeCoin_ok hpay with ⟨-, -, rfl⟩ | ⟨-, value, hbag, -⟩
        · rfl
        · rcases hfits with hs | hs | hs
          · exact absurd hs hkind
          · omega
          · rw [hs] at hbag
            cases hbag
      · cases hpay
        rfl
    dsimp only at h
    split at h <;> (cases h; exact hsame ▸ ⟨rfl, rfl⟩)

theorem claimWrappedDenom_quiet {d : Bytes} {claimed : Bool}
    (h : claimWrappedDenom env w t d metadata = .ok (claimed, w')) : Quiet w w' := by
  unfold claimWrappedDenom at h
  split at h
  · cases h
    exact Quiet.refl w
  · rename_i hnone
    split at h
    · cases h
      exact Quiet.refl w
    · simp only [bind_eq_ok] at h
      obtain ⟨_, -, m, -, h⟩ := h
      split at h
      · cases h
        exact Quiet.refl w
      · cases h
        refine ⟨⟨rfl, ?_, rfl⟩, ⟨fun _ => rfl, fun _ => rfl⟩⟩
        intro d' u hd'
        -- a claim is only made where there was none
        have hne : d' ≠ d := by
          rintro rfl
          rw [hnone] at hd'
          cases hd'
        simpa [hne] using hd'

theorem saveTokenOrigin_quiet {wrapped : Bytes} (h : saveTokenOrigin w.store wrapped path channel = .ok s') :
    Quiet w { w with store := s' } := by
  simp only [saveTokenOrigin, bind_eq_ok] at h
  obtain ⟨updated, -, h⟩ := h
  split at h
  · cases h
    exact ⟨⟨rfl, fun _ _ hd => hd, rfl⟩, ⟨fun _ => rfl, fun _ => rfl⟩⟩
  · cases h
    exact Quiet.refl w

theorem protocolFillMint_quiet {wrapped : Bytes}
    (h : protocolFillMint env w t wrapped receiver relayer order metadata = .ok (a, w')) : Quiet w w' := by
  simp only [protocolFillMint, bind_eq_ok] at h
  obtain ⟨-, -, fee, -, ⟨claimed, w₁⟩, hclaim, h⟩ := h
  have h₁ := claimWrappedDenom_quiet hclaim
  dsimp only at h
  split at h
  · cases h
    exact h₁
  · simp only [bind_eq_ok, pure_eq_ok] at h
    obtain ⟨w₂, hquote, w₃, hfee, heq⟩ := h
    cases heq
    have h₂ : Outside w₁ w₂ := by
      refine ifPositive_outside ?_ hquote
      simp only [bind_eq_ok]
      rintro ⟨-, -, amount, -, hm⟩
      exact mint_outside hm
    have h₃ : Outside w₂ w' := by
      refine ifPositive_outside ?_ hfee
      simp only [bind_eq_ok]
      rintro ⟨-, -, hm⟩
      exact mint_outside hm
    exact h₁.trans (h₂.trans h₃).quiet

theorem distributeIfPositive_ok {err : Nat} (h : distributeIfPositive w t receiver amount = .ok (err, w'))
    (hbag : w.store.bag t = some value) :
    err = 0 ∧ amount ≤ value ∧ w'.store = w.store.withCoin t (value - amount) ∧ w'.ibc = w.ibc := by
  unfold distributeIfPositive at h
  split at h
  · rcases distributeCoin_ok h with ⟨-, hnone, -⟩ | ⟨herr, v, hv, hle, rfl⟩
    · rw [hbag] at hnone
      cases hnone
    · rw [hbag] at hv
      cases hv
      exact ⟨herr, hle, rfl, rfl⟩
  · rename_i hpos
    cases h
    have hzero : amount = 0 := by omega
    refine ⟨rfl, by omega, ?_, rfl⟩
    rw [hzero, Nat.sub_zero, RelayStore.withCoin, ← hbag, update_eq_self]

theorem withCoin_withCoin (s : RelayStore) (t : CoinType) (v v' : Nat) :
    (s.withCoin t v).withCoin t v' = s.withCoin t v' := by
  simp [RelayStore.withCoin]

/-- **An unescrow order lowers its balance and its coin by its base amount**, if it names the coin type it is
    filled with. -/
theorem protocolFillUnescrow_moved {base quote : Bytes} {baseAmount quoteAmount : Nat}
    (hsolvent : Solvent w.store) (hfits : ∀ reversed, reverseChannelPath path = .ok reversed →
      Covers w.store ⟨channel, reversed, quote, base⟩ baseAmount → quote = typeNameToQuoteToken t)
    (h : protocolFillUnescrow w t channel path base quote receiver relayer baseAmount quoteAmount =
      .ok (a, w')) :
    Frame w w' ∧ (Still w.store w'.store ∨ ∃ reversed, reverseChannelPath path = .ok reversed ∧
      Moved ⟨channel, reversed, quote, base⟩ t baseAmount 0 w.store w'.store) := by
  simp only [protocolFillUnescrow, bind_eq_ok, ensure_eq_ok] at h
  obtain ⟨-, hle, reversed, hreversed, h⟩ := h
  rcases hdecr : decreaseOutstanding w.store ⟨channel, reversed, quote, base⟩ baseAmount with ⟨code, s₁⟩
  rw [hdecr] at h
  dsimp only at h
  rcases decreaseOutstanding_eq_zero hdecr with ⟨rfl, hcovers⟩ | ⟨hcode, -⟩
  · obtain ⟨heq, hbal⟩ := decreaseOutstanding_of_covers hcovers
    rw [heq] at hdecr
    cases hdecr
    have hdenotes : Denotes ⟨channel, reversed, quote, base⟩ t := hfits reversed hreversed hcovers
    rw [if_neg (by simp)] at h
    rcases Nat.eq_zero_or_pos baseAmount with rfl | hpos
    · -- nothing is paid for nothing
      obtain rfl : quoteAmount = 0 := by omega
      simp only [distributeIfPositive, Nat.lt_irrefl, if_false, Nat.sub_self] at h
      cases h
      exact ⟨⟨rfl, fun _ _ hd => hd, rfl⟩, .inr ⟨reversed, hreversed, moved_zero hdenotes⟩⟩
    · obtain ⟨value, hbag, hvalue⟩ := hsolvent.coin hdenotes hbal hpos
      simp only [bind_eq_ok] at h
      obtain ⟨⟨err₁, w₁⟩, hquote, h⟩ := h
      obtain ⟨herr₁, hle₁, hs₁, hi₁⟩ := distributeIfPositive_ok hquote hbag
      dsimp only at herr₁ hs₁ hi₁ h
      subst herr₁
      rw [if_neg (by simp)] at h
      simp only [bind_eq_ok] at h
      obtain ⟨⟨err₂, w₂⟩, hfee, h⟩ := h
      have hbag₁ : w₁.store.bag t = some (value - quoteAmount) := by
        rw [hs₁]
        simp [RelayStore.withCoin]
      obtain ⟨herr₂, hle₂, hs₂, hi₂⟩ := distributeIfPositive_ok hfee hbag₁
      dsimp only at herr₂ hs₂ hi₂ h
      subst herr₂
      rw [if_neg (by simp)] at h
      cases h
      have hstore : w'.store = (w.store.withBalance ⟨channel, reversed, quote, base⟩
          (balanceOf w.store ⟨channel, reversed, quote, base⟩ - baseAmount)).withCoin t
            (value - baseAmount) := by
        rw [hs₂, hs₁, withCoin_withCoin, show value - quoteAmount - (baseAmount - quoteAmount) =
          value - baseAmount by omega]
      refine ⟨⟨by rw [hstore]; rfl, ?_, hi₂.trans hi₁⟩, .inr ⟨reversed, hreversed, ?_⟩⟩
      · intro d u hd
        rw [hstore]
        exact hd
      · rw [hstore]
        exact moved_lowered hdenotes hbal hbag hvalue
  · rw [if_pos hcode] at h
    cases h
    exact ⟨Frame.refl w, .inl (Still.refl w.store)⟩

/-- What receiving may do: nothing to balances and coins, or what an unescrow order asks for. -/
def Unescrowed (packet : Packet) (path : U256) (instruction : Instruction) (t : CoinType)
    (s s' : RelayStore) : Prop :=
  Still s s' ∨ ∃ order reversed, instruction.order = some order ∧ order.kind = TOKEN_ORDER_KIND_UNESCROW ∧
    reverseChannelPath path = .ok reversed ∧
    Moved ⟨packet.destinationChannelId, reversed, order.quoteToken, order.baseToken⟩ t order.baseAmount 0 s s'

theorem executeTokenOrder_moved {version opcode : UInt8} (hsolvent : Solvent w.store)
    (hfits : ExecuteFits env w t packet path (.mk version opcode (.tokenOrder order)))
    (h : executeTokenOrder env w t packet relayer relayerMsg path order false = .ok (a, w')) :
    Frame w w' ∧ Unescrowed packet path (.mk version opcode (.tokenOrder order)) t w.store w'.store := by
  have hquiet : Quiet w w' →
      Frame w w' ∧ Unescrowed packet path (.mk version opcode (.tokenOrder order)) t w.store w'.store :=
    fun hq => ⟨hq.frame, .inl hq.still⟩
  simp only [ExecuteFits] at hfits
  unfold executeTokenOrder at h
  split at h
  · cases h
    exact hquiet (Quiet.refl w)
  · simp only [bind_eq_ok] at h
    obtain ⟨receiver, -, h⟩ := h
    split at h
    · rename_i hsolve
      have hkind : order.kind = TOKEN_ORDER_KIND_SOLVE := by simpa using hsolve
      exact hquiet (marketMakerFill_outside (.inl hkind) h).quiet
    · split at h
      · rename_i hkind
        rw [if_pos hkind] at hfits
        split at h
        · cases h
          exact hquiet (Quiet.refl w)
        · simp only [bind_eq_ok, asU64_eq_ok] at h
          obtain ⟨base, ⟨-, rfl⟩, quote, ⟨-, rfl⟩, h⟩ := h
          obtain ⟨hframe, hmoved⟩ := protocolFillUnescrow_moved hsolvent hfits h
          refine ⟨hframe, hmoved.imp_right ?_⟩
          rintro ⟨reversed, hreversed, hmoved⟩
          exact ⟨order, reversed, rfl, hkind, hreversed, hmoved⟩
      · rename_i hkind
        rw [if_neg hkind] at hfits
        simp only [bind_eq_ok] at h
        obtain ⟨wrapped, hwrapped, h⟩ := h
        split at h
        · cases h
          exact hquiet (Quiet.refl w)
        · rename_i token metadata
          split at h
          · simp only [bind_eq_ok] at h
            obtain ⟨s₁, hsave, h⟩ := h
            exact hquiet ((saveTokenOrigin_quiet hsave).trans (protocolFillMint_quiet h))
          · rename_i hmaker
            have hasked : order.kind = TOKEN_ORDER_KIND_SOLVE ∨ order.quoteAmount = 0 ∨
                w.store.bag t = none := by
              rcases hfits with hf | hf | hf | hf
              · exact .inl hf
              · exact .inr (.inl hf)
              · exact .inr (.inr hf)
              · exact absurd (hf token metadata hwrapped) hmaker
            exact hquiet (marketMakerFill_outside hasked h).quiet

theorem sendPacket_zero {i : IBCStore} {timeoutHeight timeoutTimestamp : Nat} {data : Data}
    {r : Packet × IBCStore} :
    i.sendPacket env clock 0 timeoutHeight timeoutTimestamp data ≠ .ok r := by
  intro h
  simp only [IBCStore.sendPacket, bind_eq_ok, orErr_eq_ok, i.fromOne] at h
  obtain ⟨_, hnone, -⟩ := h
  cases hnone

/-- **No forward is carried out.**  The conversion of its path to a channel aborts if there is a
    second channel, and without one the next channel is zero. -/
theorem executeForward_refused {timeoutHeight timeoutTimestamp : Nat} {forwardPath : U256} {version : UInt8}
    (h : executeForward env w clock packet salt path version forwardPath timeoutHeight
      timeoutTimestamp instruction false = .ok (a, w')) : a.2 ≠ 0 ∧ w' = w := by
  simp only [executeForward] at h
  split at h
  · cases h
    exact ⟨by decide, rfl⟩
  · rw [if_neg (by decide)] at h
    simp only [bind_eq_ok] at h
    obtain ⟨⟨tailPath, previous⟩, hfirst, ⟨continuation, next⟩, hsecond, h⟩ := h
    have htail : tailPath = 0 := by
      unfold dequeueChannelFromPath at hfirst
      split at hfirst
      · rename_i hlt
        cases hfirst
        apply BitVec.eq_of_toNat_eq
        rw [BitVec.toNat_ushiftRight, Nat.shiftRight_eq_div_pow, Nat.div_eq_of_lt hlt]
        rfl
      · cases hfirst
    subst htail
    cases hsecond
    dsimp only at h
    split at h
    · cases h
      exact ⟨by decide, rfl⟩
    · simp only [bind_eq_ok] at h
      obtain ⟨_, -, _, -, _, -, sent, hsend, -⟩ := h
      exact absurd hsend sendPacket_zero

theorem executeInternal_other (hop : instruction.opcode ≠ OP_TOKEN_ORDER)
    (h : executeInternal env w t clock packet salt path relayer relayerMsg false instruction = .ok (a, w')) :
    a.2 ≠ 0 ∧ w' = w := by
  obtain ⟨version, opcode, operand⟩ := instruction
  simp only [Instruction.opcode] at hop
  simp only [executeInternal] at h
  rw [if_neg hop] at h
  split at h
  · split at h
    · cases h
      exact ⟨by decide, rfl⟩
    · cases operand with
      | forward _ _ _ _ => exact executeForward_refused h
      | batch | tokenOrder | other => cases h
  · split at h <;> (cases h; exact ⟨by decide, rfl⟩)

theorem executeInternal_moved (hsolvent : Solvent w.store) (hop : instruction.opcode = OP_TOKEN_ORDER)
    (hfits : ExecuteFits env w t packet path instruction)
    (h : executeInternal env w t clock packet salt path relayer relayerMsg false instruction = .ok (a, w')) :
    Frame w w' ∧ Unescrowed packet path instruction t w.store w'.store := by
  obtain ⟨version, opcode, operand⟩ := instruction
  simp only [Instruction.opcode] at hop
  simp only [executeInternal] at h
  rw [if_pos hop] at h
  split at h
  · cases h
    exact ⟨Frame.refl w, .inl (Still.refl w.store)⟩
  · cases operand with
    | tokenOrder order => exact executeTokenOrder_moved hsolvent hfits h
    | forward | batch | other => cases h

/-! ## Acknowledgements and timeouts -/

/-- What was taken for an order goes back to its sender: its wrapped coin is minted again, or its
    coin leaves the store and its balance. -/
def GivenBack (k : Taking) (w w' : World) : Prop :=
  ∃ sender, peelAddress k.order.sender = .ok sender ∧
    if k.order.kind = TOKEN_ORDER_KIND_UNESCROW then
      w.store.wrappedDenomToT k.order.baseToken = some k.coinType ∧ w'.store = w.store ∧
        w'.transfers = w.transfers ++ [⟨sender, k.coinType, k.order.baseAmount⟩] ∧
        ∃ c, w.vault.tokenTypeToTreasury k.coinType = some c ∧
          w'.vault = w.vault.setSupply k.coinType c (c.supply + k.order.baseAmount)
    else
      Moved k.key k.coinType k.order.baseAmount 0 w.store w'.store ∧
        (0 < k.order.baseAmount → w'.transfers = w.transfers ++ [⟨sender, k.coinType, k.order.baseAmount⟩])

theorem refund_givenBack (hsolvent : Solvent w.store) (howns : Owns w.store order t)
    (hcovers : order.kind ≠ TOKEN_ORDER_KIND_UNESCROW →
      Covers w.store ⟨channel, path, order.baseToken, order.quoteToken⟩ order.baseAmount)
    (h : refund w t channel path order = .ok w') : GivenBack ⟨channel, path, order, t⟩ w w' ∧ Frame w w' := by
  unfold Owns at howns
  simp only [refund, bind_eq_ok] at h
  obtain ⟨sender, hsender, h⟩ := h
  by_cases hkind : order.kind = TOKEN_ORDER_KIND_UNESCROW
  · rw [if_pos hkind] at howns h
    simp only [bind_eq_ok, asU64_eq_ok] at h
    obtain ⟨-, -, amount, ⟨-, rfl⟩, h⟩ := h
    have hframe := (mint_outside h).frame
    obtain ⟨c, hc, rfl⟩ := mint_ok h
    refine ⟨⟨sender, hsender, ?_⟩, hframe⟩
    rw [if_pos hkind]
    exact ⟨howns, rfl, rfl, c, hc, rfl⟩
  · rw [if_neg hkind] at howns h
    have hdenotes : Denotes ⟨channel, path, order.baseToken, order.quoteToken⟩ t := howns
    obtain ⟨hdecr, hbal⟩ := decreaseOutstanding_of_covers (hcovers hkind)
    rw [hdecr] at h
    simp only [bind_eq_ok, asU64_eq_ok, pure_eq_ok] at h
    obtain ⟨amount, ⟨-, rfl⟩, ⟨err, w₁⟩, hpay, rfl⟩ := h
    rcases distributeCoin_ok hpay with ⟨-, hnone, rfl⟩ | ⟨-, value, hvalue, hle, rfl⟩
    · -- without a coin of the type there was nothing to give back
      have hzero : order.baseAmount = 0 := by
        by_contra hne
        obtain ⟨value, hvalue, -⟩ := hsolvent.coin hdenotes hbal (Nat.pos_of_ne_zero hne)
        rw [show (w.store.withBalance _ _).bag t = w.store.bag t from rfl, hvalue] at hnone
        cases hnone
      refine ⟨⟨sender, hsender, ?_⟩, ⟨rfl, fun _ _ hd => hd, rfl⟩⟩
      rw [if_neg hkind]
      dsimp only [Taking.key]
      rw [hzero]
      exact ⟨moved_zero hdenotes, fun hpos => absurd hpos (Nat.lt_irrefl 0)⟩
    · refine ⟨⟨sender, hsender, ?_⟩, ⟨rfl, fun _ _ hd => hd, rfl⟩⟩
      rw [if_neg hkind]
      exact ⟨moved_lowered hdenotes hbal hvalue hle, fun _ => rfl⟩

theorem splitCoin_ok (h : splitCoin s t amount = .ok (some s')) :
    ∃ value, s.bag t = some value ∧ amount ≤ value ∧ s' = s.withCoin t (value - amount) := by
  unfold splitCoin at h
  split at h
  · cases h
  · rename_i value hvalue
    split at h
    · rename_i hle
      cases h
      exact ⟨value, hvalue, hle, rfl⟩
    · cases h

/-- **A market maker is settled out of the balance of the order.** -/
theorem settle_moved {maker : Address}
    (hdenotes : Denotes ⟨channel, path, order.baseToken, order.quoteToken⟩ t)
    (h : settle w t channel path order maker = .ok w') :
    Moved ⟨channel, path, order.baseToken, order.quoteToken⟩ t order.baseAmount 0 w.store w'.store ∧
      Frame w w' := by
  unfold settle at h
  rcases hdecr :
    decreaseOutstanding w.store ⟨channel, path, order.baseToken, order.quoteToken⟩ order.baseAmount
      with ⟨code, s₁⟩
  rw [hdecr] at h
  simp only [bind_eq_ok, assert_eq_ok] at h
  obtain ⟨-, rfl, h⟩ := h
  rcases decreaseOutstanding_eq_zero hdecr with ⟨-, hcovers⟩ | ⟨hcode, -⟩
  · obtain ⟨heq, hbal⟩ := decreaseOutstanding_of_covers hcovers
    rw [heq] at hdecr
    cases hdecr
    split at h
    · simp only [bind_eq_ok, asU64_eq_ok, orErr_eq_ok] at h
      obtain ⟨amount, ⟨-, rfl⟩, _, hsplit, s₂, rfl, -, -, h⟩ := h
      obtain ⟨value, hvalue, hle, rfl⟩ := splitCoin_ok hsplit
      obtain ⟨c, -, -, rfl⟩ := burn_ok h
      exact ⟨moved_lowered hdenotes hbal hvalue hle, ⟨rfl, fun _ _ hd => hd, rfl⟩⟩
    · split at h
      · simp only [bind_eq_ok, asU64_eq_ok, orErr_eq_ok] at h
        obtain ⟨amount, ⟨-, rfl⟩, _, hsplit, s₂, rfl, -, -, h⟩ := h
        obtain ⟨value, hvalue, hle, rfl⟩ := splitCoin_ok hsplit
        obtain ⟨hstore, hibc⟩ := escrowCoin_outside h
        rw [hstore]
        refine ⟨moved_lowered hdenotes hbal hvalue hle, ⟨by rw [hstore]; rfl, ?_, hibc⟩⟩
        intro d u hd
        rw [hstore]
        exact hd
      · simp only [bind_eq_ok, asU64_eq_ok, assert_eq_ok, pure_eq_ok] at h
        obtain ⟨amount, ⟨-, rfl⟩, ⟨err, w₁⟩, hpay, -, herr, rfl⟩ := h
        rcases distributeCoin_ok hpay with ⟨hcode, -, -⟩ | ⟨-, value, hvalue, hle, rfl⟩
        · exact absurd (hcode.symm.trans herr) (by decide)
        · exact ⟨moved_lowered hdenotes hbal hvalue hle, ⟨rfl, fun _ _ hd => hd, rfl⟩⟩
  · exact absurd rfl hcode

theorem acknowledgeInternal_ok {success : Bool} {ack : AckData} :
    ∀ {path : U256} {instruction : Instruction},
      acknowledgeInternal w t packet path success ack instruction = .ok w' →
      ∃ order, instruction.order = some order ∧
        acknowledgeTokenOrder w t packet (instruction.orderPath path) order success ack = .ok w'
  | path, .mk version opcode (.tokenOrder order), h => by
    simp only [acknowledgeInternal] at h
    rcases branches_ok h with h | h
    · simp only [bind_eq_ok] at h
      obtain ⟨-, -, h⟩ := h
      exact ⟨order, rfl, h⟩
    · simp [bind_eq_ok] at h
  | path, .mk version opcode (.forward forwardPath timeoutHeight timeoutTimestamp instruction), h => by
    simp only [acknowledgeInternal] at h
    rcases branches_ok h with h | h
    · simp [bind_eq_ok] at h
    · simp only [bind_eq_ok] at h
      obtain ⟨-, -, h⟩ := h
      obtain ⟨order, horder, hack⟩ := acknowledgeInternal_ok h
      exact ⟨order, horder, hack⟩
  | path, .mk version opcode (.batch instructions), h => by
    simp only [acknowledgeInternal] at h
    rcases branches_ok h with h | h <;> simp [bind_eq_ok] at h
  | path, .mk version opcode (.other bytes), h => by
    simp only [acknowledgeInternal] at h
    rcases branches_ok h with h | h <;> simp [bind_eq_ok] at h

theorem timeoutInternal_ok : ∀ {instruction : Instruction},
      timeoutInternal w t packet path instruction = .ok w' →
      ∃ order, instruction.order = some order ∧ refund w t packet.sourceChannelId path order = .ok w'
  | .mk version opcode (.tokenOrder order), h => by
    simp only [timeoutInternal] at h
    rcases branches_ok h with h | h
    · simp only [bind_eq_ok] at h
      obtain ⟨-, -, h⟩ := h
      exact ⟨order, rfl, h⟩
    · simp [bind_eq_ok] at h
  | .mk version opcode (.forward forwardPath timeoutHeight timeoutTimestamp instruction), h => by
    simp only [timeoutInternal] at h
    rcases branches_ok h with h | h
    · simp [bind_eq_ok] at h
    · simp only [bind_eq_ok] at h
      obtain ⟨-, -, h⟩ := h
      obtain ⟨order, horder, hrefund⟩ := timeoutInternal_ok h
      exact ⟨order, horder, hrefund⟩
  | .mk version opcode (.batch instructions), h => by
    simp only [timeoutInternal] at h
    rcases branches_ok h with h | h <;> simp [bind_eq_ok] at h
  | .mk version opcode (.other bytes), h => by
    simp only [timeoutInternal] at h
    rcases branches_ok h with h | h <;> simp [bind_eq_ok] at h

/-- What an acknowledgement does for an order: a failure gives back what was taken, a success at
    most pays it to the market maker. -/
def Settled (k : Taking) (success : Bool) (w w' : World) : Prop :=
  if success then Still w.store w'.store ∨ Moved k.key k.coinType k.order.baseAmount 0 w.store w'.store
  else GivenBack k w w'

/-- **Acknowledging settles the order.** -/
theorem acknowledgeInternal_settled {success : Bool} {ack : AckData} (hsolvent : Solvent w.store)
    (hfits : AckFits w.store t packet.sourceChannelId path success ack instruction)
    (h : acknowledgeInternal w t packet path success ack instruction = .ok w') :
    ∃ k, takingOf packet.sourceChannelId path instruction t = some k ∧ Settled k success w w' ∧ Frame w w' ∧
      (success = false → Owns w.store k.order t) := by
  obtain ⟨order, horder, h⟩ := acknowledgeInternal_ok h
  obtain ⟨hmaker, hfailure⟩ := hfits order horder
  refine ⟨⟨packet.sourceChannelId, instruction.orderPath path, order, t⟩, by rw [takingOf, horder]; rfl, ?_⟩
  have hstill : ∀ {w'' : World}, Outside w w'' → (Still w.store w''.store ∨ Moved
      ⟨packet.sourceChannelId, instruction.orderPath path, order.baseToken, order.quoteToken⟩ t
        order.baseAmount 0
      w.store w''.store) ∧ Frame w w'' := fun hout => ⟨.inl hout.quiet.still, hout.frame⟩
  unfold acknowledgeTokenOrder at h
  unfold Settled
  cases success with
  | false =>
    obtain ⟨howns, hcovers⟩ := hfailure rfl
    obtain ⟨hgiven, hframe⟩ := refund_givenBack hsolvent howns hcovers h
    exact ⟨hgiven, hframe, fun _ => howns⟩
  | true =>
    rw [if_pos rfl] at h
    simp only [if_true]
    rw [← and_assoc]
    refine ⟨?_, fun hfalse => by cases hfalse⟩
    cases ack with
    | raw | batchAck => cases h
    | tokenOrderAck fillType maker =>
      dsimp only at h
      split at h
      · cases h
        exact hstill ⟨rfl, rfl⟩
      · split at h
        · rename_i hfill
          have howns := hmaker rfl maker (by rw [hfill])
          unfold Owns at howns
          simp only [bind_eq_ok] at h
          obtain ⟨address, -, h⟩ := h
          split at h
          · simp only [bind_eq_ok] at h
            obtain ⟨-, -, amount, -, h⟩ := h
            exact hstill (mint_outside h)
          · rename_i hkind
            rw [if_neg hkind] at howns
            obtain ⟨hmoved, hframe⟩ := settle_moved howns h
            exact ⟨.inr hmoved, hframe⟩
        · cases h

theorem timeoutInternal_givenBack (hsolvent : Solvent w.store)
    (hfits : TimeoutFits w.store t packet.sourceChannelId path instruction)
    (h : timeoutInternal w t packet path instruction = .ok w') :
    ∃ k, timeoutTakingOf packet.sourceChannelId path instruction t = some k ∧
      takingOf packet.sourceChannelId path instruction t = some k ∧ GivenBack k w w' ∧ Frame w w' ∧
      Owns w.store k.order t := by
  obtain ⟨order, horder, h⟩ := timeoutInternal_ok h
  obtain ⟨howns, hpath, hcovers⟩ := hfits order horder
  obtain ⟨hgiven, hframe⟩ := refund_givenBack hsolvent howns hcovers h
  refine ⟨⟨packet.sourceChannelId, path, order, t⟩, ?_, ?_, hgiven, hframe, howns⟩
  · rw [timeoutTakingOf, horder]
    rfl
  · rw [takingOf, horder, hpath]
    rfl

end UnionVoyager.Sui
