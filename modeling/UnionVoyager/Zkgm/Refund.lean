import UnionVoyager.Zkgm.Leaf
import UnionVoyager.Zkgm.Ideal

/-!
# Every sent packet but a forward can be completed

`timeout_packet`, and `acknowledge_packet` with the failure acknowledgement, must give back what
`send` took. Verification, timeout and acknowledgement are three dispatchers of their own:
verification accepts a forward, the two others do not know the opcode; and they validate the sender
of an order, which verification never looks at.
-/

namespace UnionVoyager.Zkgm

open Lib List
open Core (ChannelId NonZeroU32 Timestamp Addr Coin)

/-! ## Settling one order -/

/-- What settles an order of `amount` base tokens: nothing for an empty order; burned tokens are
    minted again; escrowed ones are released, or burned when paid to a `maker`. -/
inductive Payout (s : State) (key : BalanceKey) (amount : Nat) (burned maker : Bool) : State → Response → Prop
  | nothing (h : amount = 0) : Payout s key amount burned maker s []
  | mint (recipient : Addr) (h : burned = true) :
      Payout s key amount burned maker s [minterMsg s (.mintTokens key.baseToken amount recipient)]
  | unescrow (recipient : Addr) (v : Nat) (h : burned = false) (hv : s.channelBalanceV2 key = some v)
      (hle : amount ≤ v) :
      Payout s key amount burned maker (s.setBalance key (v - amount))
        [minterMsg s (.unescrow key.baseToken recipient amount)]
  | retire (v : Nat) (h : burned = false) (hm : maker = true) (hv : s.channelBalanceV2 key = some v)
      (hle : amount ≤ v) :
      Payout s key amount burned maker (s.setBalance key (v - amount))
        [minterMsg s (.burnTokens key.baseToken amount s.tokenMinter s.tokenMinter)]

namespace Order

variable {env : Env} {path : U256} {channelId : ChannelId} {packet : Packet} {s s' : State}
  {r : Response} {o : Order}

/-- **What a refund does**: nothing for a V1 order without an amount; burned tokens are minted again, and
    escrowed ones are released, both to the sender, who is an address. -/
theorem refund_cases (h : o.refund env path channelId s = .ok (s', r)) :
    ∃ recipient base, o.sender = utf8 recipient ∧ env.validAddr recipient = true ∧ o.baseToken = utf8 base ∧
      (o.baseAmount = 0 ∧ s' = s ∧ r = [] ∨
        o.burns = true ∧ s' = s ∧ r = [minterMsg s (.mintTokens base o.baseAmount recipient)] ∨
        o.burns = false ∧ ∃ v, s.channelBalanceV2 (o.key channelId path base) = some v ∧ o.baseAmount ≤ v ∧
          s' = s.setBalance (o.key channelId path base) (v - o.baseAmount) ∧
          r = [minterMsg s (.unescrow base recipient o.baseAmount)]) := by
  cases o with
  | v1 o =>
    simp only [refund, Zkgm.refund, bind_eq_ok, validateAddr_eq_ok, toU128_eq_ok, okOr_eq_ok,
      fromUtf8_eq_some] at h
    obtain ⟨sender, ⟨hs, hv⟩, amount, ⟨-, rfl⟩, base, hbase, h⟩ := h
    refine ⟨sender, base, hs, hv, hbase, ?_⟩
    split at h
    · split at h
      · rename_i hpath
        cases h
        exact .inr (.inl ⟨by simpa [burns] using hpath, rfl, rfl⟩)
      · rename_i hpath
        simp only [bind_eq_ok, pure_eq_ok, decreaseChannelBalanceV2_eq_ok] at h
        obtain ⟨s₁, ⟨v, hv', hle, rfl⟩, h⟩ := h
        cases h
        exact .inr (.inr ⟨by simpa [burns] using hpath, v, hv', hle, rfl, rfl⟩)
    · rename_i hzero
      cases h
      exact .inl ⟨by simpa [baseAmount] using hzero, rfl, rfl⟩
  | v2 o =>
    simp only [refund, refundV2, bind_eq_ok, validateAddr_eq_ok, toU128_eq_ok, okOr_eq_ok,
      fromUtf8_eq_some] at h
    obtain ⟨sender, ⟨hs, hv⟩, base, hbase, amount, ⟨-, rfl⟩, h⟩ := h
    refine ⟨sender, base, hs, hv, hbase, ?_⟩
    split at h
    · rename_i hkind
      cases h
      exact .inr (.inl ⟨by simpa [burns] using hkind, rfl, rfl⟩)
    · rename_i hkind
      simp only [bind_eq_ok, pure_eq_ok, decreaseChannelBalanceV2_eq_ok] at h
      obtain ⟨s₁, ⟨v, hv', hle, rfl⟩, h⟩ := h
      cases h
      exact .inr (.inr ⟨by simpa [burns] using hkind, v, hv', hle, rfl, rfl⟩)

theorem refund_payout (h : o.refund env path channelId s = .ok (s', r)) : env.ValidAddr o.sender ∧
      ∃ base, o.baseToken = utf8 base ∧
        Payout s (o.key channelId path base) o.baseAmount o.burns false s' r := by
  obtain ⟨recipient, base, hs, hv, hbase, hcase⟩ := refund_cases h
  refine ⟨⟨recipient, hs, hv⟩, base, hbase, ?_⟩
  rcases hcase with ⟨hzero, rfl, rfl⟩ | ⟨hburns, rfl, rfl⟩ | ⟨hburns, v, hv', hle, rfl, rfl⟩
  · exact .nothing hzero
  · exact .mint recipient hburns
  · exact .unescrow recipient v hburns hv' hle

theorem acknowledge_payout {fillType : U256} {maker : Bytes}
    (h : o.acknowledge env packet path (some (fillType, maker)) s = .ok (s', r)) :
    (fillType = FILL_TYPE_PROTOCOL ∧ s' = s ∧ r = []) ∨
      (fillType = FILL_TYPE_MARKETMAKER ∧ ∃ base, o.baseToken = utf8 base ∧
        Payout s (o.key packet.sourceChannelId path base) o.baseAmount o.burns true s' r) := by
  cases o with
  | v1 o =>
    simp only [acknowledge, acknowledgeTokenOrderV1] at h
    split at h
    · rename_i hft
      cases h
      exact .inl ⟨hft, rfl, rfl⟩
    · split at h
      · rename_i hft
        simp only [bind_eq_ok, validateAddr_eq_ok, okOr_eq_ok, fromUtf8_eq_some, toU128_eq_ok] at h
        obtain ⟨mm, -, base, hbase, amount, ⟨-, rfl⟩, h⟩ := h
        refine .inr ⟨hft, base, hbase, ?_⟩
        split at h
        · rename_i hpath
          cases h
          exact .mint mm (by simpa [burns] using hpath)
        · rename_i hpath
          simp only [bind_eq_ok, pure_eq_ok, decreaseChannelBalanceV2_eq_ok] at h
          obtain ⟨s₁, ⟨v, hv, hle, rfl⟩, h⟩ := h
          cases h
          exact .unescrow mm v (by simpa [burns] using hpath) hv hle
      · cases h
  | v2 o =>
    simp only [acknowledge, acknowledgeTokenOrderV2] at h
    split at h
    · rename_i hft
      cases h
      exact .inl ⟨hft, rfl, rfl⟩
    · split at h
      · rename_i hft
        simp only [bind_eq_ok, okOr_eq_ok, fromUtf8_eq_some, toU128_eq_ok] at h
        obtain ⟨base, hbase, amount, ⟨-, rfl⟩, h⟩ := h
        refine .inr ⟨hft, base, hbase, ?_⟩
        split at h
        · split at h
          · rename_i hkind
            simp only [bind_eq_ok, pure_eq_ok, validateAddr_eq_ok] at h
            obtain ⟨mm, -, h⟩ := h
            cases h
            exact .mint mm (by simpa [burns] using hkind)
          · rename_i hkind
            simp only [bind_eq_ok, decreaseChannelBalanceV2_eq_ok, okOr_eq_ok] at h
            obtain ⟨s₁, ⟨v, hv, hle, rfl⟩, burn, -, h⟩ := h
            split at h
            · cases h
              exact .retire v (by simpa [burns] using hkind) rfl hv hle
            · simp only [bind_eq_ok, pure_eq_ok, validateAddr_eq_ok] at h
              obtain ⟨mm, -, h⟩ := h
              cases h
              exact .unescrow mm v (by simpa [burns] using hkind) hv hle
        · rename_i hzero
          cases h
          exact .nothing (by simpa [baseAmount] using hzero)
      · cases h

/-- **An order whose sender is an address and whose balance is there is refunded.** -/
theorem refund_ok {base : String} (hsender : env.ValidAddr o.sender) (hbase : o.baseToken = utf8 base)
    (hlt : o.baseAmount < 2 ^ 128)
    (hback : o.burns = false → ∃ v, s.channelBalanceV2 (o.key channelId path base) = some v ∧
      o.baseAmount ≤ v) :
    ∃ s' r, o.refund env path channelId s = .ok (s', r) := by
  obtain ⟨addr, hs, hv⟩ := hsender
  have hval : validateAddr env o.sender .invalidSender .unableToValidateSender = .ok addr :=
    validateAddr_eq_ok.mpr ⟨hs, hv⟩
  have hamt : toU128 o.baseAmount = .ok o.baseAmount := toU128_eq_ok.mpr ⟨hlt, rfl⟩
  have hden : okOr (fromUtf8 o.baseToken) ContractError.invalidBaseToken = .ok base :=
    okOr_eq_ok.mpr (fromUtf8_eq_some.mpr hbase)
  have hdec : o.burns = false →
      ∃ s₁, decreaseChannelBalanceV2 s channelId path base o.quoteToken o.baseAmount = .ok s₁ := by
    intro hb
    obtain ⟨v, hv', hle⟩ := hback hb
    exact ⟨_, decreaseChannelBalanceV2_eq_ok.mpr ⟨v, hv', hle, rfl⟩⟩
  cases o with
  | v1 o =>
    simp only [sender, baseAmount, baseToken, quoteToken, burns, bne_eq_false_iff_eq] at hval hamt hden hdec
    simp only [refund, Zkgm.refund, hval, hamt, hden, ok_bind]
    split
    · split
      · exact ⟨_, _, rfl⟩
      · rename_i hpath
        obtain ⟨s₁, h₁⟩ := hdec (by simpa using hpath)
        rw [h₁]
        exact ⟨_, _, rfl⟩
    · exact ⟨_, _, rfl⟩
  | v2 o =>
    simp only [sender, baseAmount, baseToken, quoteToken, burns, beq_eq_false_iff_ne] at hval hamt hden hdec
    simp only [refund, refundV2, hval, hamt, hden, ok_bind]
    split
    · exact ⟨_, _, rfl⟩
    · rename_i hkind
      obtain ⟨s₁, h₁⟩ := hdec hkind
      rw [h₁]
      exact ⟨_, _, rfl⟩

end Order

/-! ## What is taken and what is given back -/

/-- The base tokens an order moves: denom, amount and whether they are burned. -/
def Order.moves (o : Order) : List (String × Nat × Bool) :=
  match fromUtf8 o.baseToken with
  | some base => if o.baseAmount = 0 then [] else [(base, o.baseAmount, o.burns)]
  | none => []

/-- The tokens a response takes from the user, empty movements left out. -/
def taken (r : Response) : List (String × Nat × Bool) :=
  r.filterMap fun m =>
    match m.msg with
    | .minter ⟨_, .escrow _ denom _ amount, _⟩ => if amount = 0 then none else some (denom, amount, false)
    | .minter ⟨_, .burnTokens denom amount _ _, _⟩ => if amount = 0 then none else some (denom, amount, true)
    | _ => none

/-- The tokens a response gives to the user, empty movements left out. -/
def givenBack (r : Response) : List (String × Nat × Bool) :=
  r.filterMap fun m =>
    match m.msg with
    | .minter ⟨_, .unescrow denom _ amount, _⟩ => if amount = 0 then none else some (denom, amount, false)
    | .minter ⟨_, .mintTokens denom amount _, _⟩ => if amount = 0 then none else some (denom, amount, true)
    | _ => none

theorem taken_append (r r' : Response) : taken (r ++ r') = taken r ++ taken r' := filterMap_append

theorem givenBack_append (r r' : Response) : givenBack (r ++ r') = givenBack r ++ givenBack r' :=
    filterMap_append

variable {o : Order}

theorem Order.moves_eq {base : String} (h : o.baseToken = utf8 base) :
    o.moves = if o.baseAmount = 0 then [] else [(base, o.baseAmount, o.burns)] := by
  unfold Order.moves
  rw [fromUtf8_eq_some.mpr h]

variable {info : MessageInfo} {w w' : Walk}

variable {env : Env} {channelId : ChannelId} {path : U256}

theorem Order.verify_taken (h : o.verify env info channelId path w = .ok w') :
    taken w'.response = taken w.response ++ o.moves := by
  obtain ⟨base, funds, coins, hbase, -, -, hcase⟩ := Order.verify_cases h
  rw [Order.moves_eq hbase]
  rcases hcase with ⟨hb, -, rfl⟩ | ⟨hb, rfl⟩
  · simp only [Walk.push, taken_append, hb]
    by_cases h0 : o.baseAmount = 0 <;> simp [taken, CosmosMsg.plain, h0]
  · simp only [Walk.push, taken_append, hb]
    by_cases h0 : o.baseAmount = 0 <;> simp [taken, CosmosMsg.plain, h0]

variable {s : State}

theorem Order.refund_givenBack {s' : State} {r : Response}
    (h : o.refund env path channelId s = .ok (s', r)) : givenBack r = o.moves := by
  obtain ⟨-, base, hbase, hpay⟩ := Order.refund_payout h
  rw [Order.moves_eq hbase]
  cases hpay with
  | nothing h0 => simp [givenBack, h0]
  | mint recipient hb =>
    by_cases h0 : o.baseAmount = 0 <;> simp [givenBack, minterMsg, CosmosMsg.plain, h0, hb, Order.key]
  | unescrow recipient v hb hv hle =>
    by_cases h0 : o.baseAmount = 0 <;> simp [givenBack, minterMsg, CosmosMsg.plain, h0, hb, Order.key]
  | retire v hb hm hv hle => cases hm

/-! ## Balances that cover an instruction -/

/-- What the orders of an instruction escrowed, and where it is counted. -/
def escrows (channelId : ChannelId) (path : U256) (orders : List Order) : List (BalanceKey × Nat) :=
  orders.filterMap fun o =>
    if o.burns then none
    else (fromUtf8 o.baseToken).map fun base => (o.key channelId path base, o.baseAmount)

def escrowedUnder (k : BalanceKey) (l : List (BalanceKey × Nat)) : Nat :=
    ((l.filter fun e => e.1 = k).map Prod.snd).sum

/-- The balances hold what was escrowed. -/
def Backed (s : State) (l : List (BalanceKey × Nat)) : Prop :=
  ∀ e ∈ l, ∃ v, s.channelBalanceV2 e.1 = some v ∧ escrowedUnder e.1 l ≤ v

theorem escrowedUnder_cons (k : BalanceKey) (e : BalanceKey × Nat) (l : List (BalanceKey × Nat)) :
    escrowedUnder k (e :: l) = (if e.1 = k then e.2 else 0) + escrowedUnder k l := by
  unfold escrowedUnder
  by_cases h : e.1 = k <;> simp [h]

variable {l : List (BalanceKey × Nat)}

theorem Backed.take {e : BalanceKey × Nat} (h : Backed s (e :: l)) :
    ∃ v, s.channelBalanceV2 e.1 = some v ∧ e.2 ≤ v ∧ Backed (s.setBalance e.1 (v - e.2)) l := by
  obtain ⟨v, hv, hle⟩ := h e (mem_cons_self ..)
  rw [escrowedUnder_cons, if_pos rfl] at hle
  refine ⟨v, hv, by omega, ?_⟩
  intro e' he'
  obtain ⟨v', hv', hle'⟩ := h e' (mem_cons_of_mem _ he')
  rw [escrowedUnder_cons] at hle'
  by_cases hk : e.1 = e'.1
  · refine ⟨v - e.2, by simp [State.setBalance, hk], ?_⟩
    rw [← hk] at hv' ⊢
    rw [hv] at hv'
    cases hv'
    omega
  · refine ⟨v', ?_, by omega⟩
    simp only [State.setBalance]
    rw [Function.update_of_ne (fun hc => hk hc.symm)]
    exact hv'

theorem Backed.skip {e : BalanceKey × Nat} (h : Backed s (e :: l)) : Backed s l := by
  intro e' he'
  obtain ⟨v, hv, hle⟩ := h e' (mem_cons_of_mem _ he')
  rw [escrowedUnder_cons] at hle
  exact ⟨v, hv, by omega⟩

theorem escrowedUnder_append (k : BalanceKey) (l l' : List (BalanceKey × Nat)) :
    escrowedUnder k (l ++ l') = escrowedUnder k l + escrowedUnder k l' := by
  simp [escrowedUnder]

theorem escrows_append (channelId : ChannelId) (path : U256) (os os' : List Order) :
    escrows channelId path (os ++ os') = escrows channelId path os ++ escrows channelId path os' :=
  filterMap_append

theorem Backed.escrowedUnder_le (h : Backed s l) (k : BalanceKey) : escrowedUnder k l ≤ s.balance k := by
  by_cases hk : ∃ e ∈ l, e.1 = k
  · obtain ⟨e, he, rfl⟩ := hk
    obtain ⟨v, hv, hle⟩ := h e he
    simpa [State.balance, hv] using hle
  · have hnil : l.filter (fun e => e.1 = k) = [] := by
      rw [filter_eq_nil_iff]
      intro e he hek
      exact hk ⟨e, he, by simpa using hek⟩
    simp [escrowedUnder, hnil]

theorem Backed.escrow (h : Backed s l) (k : BalanceKey) (n : Nat) :
    Backed (s.setBalance k (s.balance k + n)) (l ++ [(k, n)]) := by
  intro e he
  rw [escrowedUnder_append, escrowedUnder_cons]
  have hnil : escrowedUnder e.1 [] = 0 := rfl
  by_cases hk : k = e.1
  · subst hk
    refine ⟨s.balance e.1 + n, by simp [State.setBalance], ?_⟩
    have hle := h.escrowedUnder_le e.1
    simp only [if_true, hnil]
    omega
  · have hel : e ∈ l := by
      rcases List.mem_append.mp he with hm | hm
      · exact hm
      · rw [mem_singleton] at hm
        exact absurd (congrArg Prod.fst hm).symm hk
    obtain ⟨v, hv, hle⟩ := h e hel
    refine ⟨v, ?_, ?_⟩
    · simp only [State.setBalance]
      rw [Function.update_of_ne (fun hc => hk hc.symm)]
      exact hv
    · simp only [hk, if_false, hnil]
      omega

/-! ## Verified leaves -/

/-- The orders among some leaves. -/
def ordersOf (leaves : List Leaf) : List Order := leaves.filterMap Leaf.order?

/-- What verification established about the leaves of an instruction. -/
structure Verified (info : MessageInfo) (channelId : ChannelId) (path : U256) (leaves : List Leaf)
    (w w' : Walk) : Prop where
  taken : taken w'.response = taken w.response ++ (ordersOf leaves).flatMap Order.moves
  backed : ∀ l, Backed w.state l → Backed w'.state (l ++ escrows channelId path (ordersOf leaves))
  orders : ∀ o ∈ ordersOf leaves, ∃ base, o.baseToken = utf8 base ∧ o.baseAmount < 2 ^ 128
  calls : ∀ c, Leaf.call c ∈ leaves → c.sender = utf8 info.sender

theorem Order.verify_backed (h : o.verify env info channelId path w = .ok w')
    (hl : Backed w.state l) : Backed w'.state (l ++ escrows channelId path [o]) := by
  obtain ⟨base, funds, coins, hbase, -, -, hcase⟩ := Order.verify_cases h
  rcases hcase with ⟨hb, -, rfl⟩ | ⟨hb, rfl⟩
  · simpa [escrows, hb, Walk.push] using hl
  · simp only [escrows, filterMap_cons, hb, fromUtf8_eq_some.mpr hbase]
    exact hl.escrow (o.key channelId path base) o.baseAmount

theorem Leaf.verified {l : Leaf} (h : l.verify env info channelId path w = .ok w') :
    Verified info channelId path [l] w w' := by
  cases l with
  | order o =>
    have hv : o.verify env info channelId path w = .ok w' := h
    obtain ⟨base, funds, coins, hbase, hlt, -⟩ := Order.verify_cases hv
    constructor
    · simpa [ordersOf, Leaf.order?] using Order.verify_taken hv
    · intro l hl
      exact Order.verify_backed hv hl
    · intro o' ho'
      rw [List.mem_singleton.mp (ho' : o' ∈ [o])]
      exact ⟨base, hbase, hlt⟩
    · intro c hc
      simp at hc
  | call c =>
    simp only [Leaf.verify, bind_eq_ok, verifyCall_eq_ok, pure_eq_ok] at h
    obtain ⟨_, hc, rfl⟩ := h
    have hnone : ordersOf [Leaf.call c] = [] := rfl
    constructor
    · simp [hnone]
    · intro l hl
      simpa [hnone, escrows] using hl
    · intro o ho
      simp [hnone] at ho
    · intro c' hc'
      cases List.mem_singleton.mp hc'
      exact hc

theorem Verified.trans {ls ls' : List Leaf} {w₁ : Walk} (h : Verified info channelId path ls w w₁)
    (h' : Verified info channelId path ls' w₁ w') : Verified info channelId path (ls ++ ls') w w' := by
  have hos : ordersOf (ls ++ ls') = ordersOf ls ++ ordersOf ls' := filterMap_append
  constructor
  · rw [h'.taken, h.taken, hos, flatMap_append, append_assoc]
  · intro l hl
    rw [hos, escrows_append, ← append_assoc]
    exact h'.backed _ (h.backed l hl)
  · intro o ho
    rw [hos, mem_append] at ho
    exact ho.elim (h.orders o) (h'.orders o)
  · intro c hc
    rw [mem_append] at hc
    exact hc.elim (h.calls c) (h'.calls c)

/-- **A verified batch is verified leaf by leaf.** -/
theorem verified_of_verifyBatch : ∀ {leaves : List Leaf} {w w' : Walk},
      verifyBatch env info channelId path (leaves.map Leaf.toInstruction) w = .ok w' →
        Verified info channelId path leaves w w'
  | [], w, w', h => by
    cases h
    exact ⟨by simp [ordersOf], fun l hl => by simpa [ordersOf, escrows] using hl,
      fun o ho => by simp [ordersOf] at ho, fun c hc => by simp at hc⟩
  | l :: leaves, w, w', h => by
    simp only [map_cons, verifyBatch_cons, bind_eq_ok] at h
    obtain ⟨w₁, h₁, h₂⟩ := h
    exact (Leaf.verified h₁).trans (verified_of_verifyBatch h₂)

/-! ## Settling the leaves of a packet -/

/-- A completing loop over leaves. -/
def settle (f : Leaf → State → Result (State × Response)) : List Leaf → State → Result (State × Response)
  | [], s => .ok (s, [])
  | l :: leaves, s => do
    let (s, messages) ← f l s
    let (s, rest) ← settle f leaves s
    pure (s, messages ++ rest)

/-- What timeouts and failed acknowledgements have in common: orders are refunded, and a call with a
    valid sender is completed without touching storage or tokens. -/
structure Completes (env : Env) (path : U256) (channelId : ChannelId)
    (f : Leaf → State → Result (State × Response)) : Prop where
  order : ∀ o s, f (.order o) s = o.refund env path channelId s
  call : ∀ c s, env.ValidAddr c.sender → ∃ r, f (.call c) s = .ok (s, r) ∧ givenBack r = []

section Settle

variable {env : Env} {path : U256} {channelId : ChannelId} {f : Leaf → State → Result (State × Response)}

theorem Order.refund_backed {s' : State} {r : Response} {os : List Order}
    (hback : Backed s (escrows channelId path (o :: os)))
    (h : o.refund env path channelId s = .ok (s', r)) : Backed s' (escrows channelId path os) := by
  obtain ⟨-, base, hbase, hpay⟩ := Order.refund_payout h
  have hcons : escrows channelId path (o :: os) =
      if o.burns then escrows channelId path os
      else (o.key channelId path base, o.baseAmount) :: escrows channelId path os := by
    simp only [escrows, filterMap_cons, fromUtf8_eq_some.mpr hbase]
    cases o.burns <;> rfl
  rw [hcons] at hback
  cases hpay with
  | nothing h0 =>
    cases hb : o.burns with
    | true => simpa [hb] using hback
    | false =>
      rw [hb] at hback
      exact Backed.skip (by simpa using hback)
  | mint recipient hb => simpa [hb] using hback
  | unescrow recipient v hb hv hle =>
    rw [hb] at hback
    obtain ⟨v', hv', -, hrest⟩ := Backed.take (by simpa using hback)
    simp only at hv' hrest
    rw [hv] at hv'
    cases hv'
    exact hrest
  | retire v hb hm hv hle => cases hm

/-- **Backed leaves whose senders are addresses are settled, and everything is given back.** -/
theorem settle_ok (hf : Completes env path channelId f) :
    ∀ {leaves : List Leaf} {s : State}, Backed s (escrows channelId path (ordersOf leaves)) →
      (∀ o ∈ ordersOf leaves, ∃ base, o.baseToken = utf8 base ∧ o.baseAmount < 2 ^ 128) →
      (∀ o ∈ ordersOf leaves, env.ValidAddr o.sender) →
      (∀ c, Leaf.call c ∈ leaves → env.ValidAddr c.sender) →
      ∃ s' r, settle f leaves s = .ok (s', r) ∧ givenBack r = (ordersOf leaves).flatMap Order.moves
  | [], s, _, _, _, _ => ⟨s, [], rfl, rfl⟩
  | .order o :: leaves, s, hback, hwf, hsender, hcall => by
    have hos : ordersOf (.order o :: leaves) = o :: ordersOf leaves := rfl
    rw [hos] at hback hwf hsender
    obtain ⟨base, hbase, hlt⟩ := hwf o (mem_cons_self ..)
    have hbal : o.burns = false →
        ∃ v, s.channelBalanceV2 (o.key channelId path base) = some v ∧ o.baseAmount ≤ v := by
      intro hb
      have hcons : escrows channelId path (o :: ordersOf leaves) =
          (o.key channelId path base, o.baseAmount) :: escrows channelId path (ordersOf leaves) := by
        simp [escrows, hb, fromUtf8_eq_some.mpr hbase]
      rw [hcons] at hback
      obtain ⟨v, hv, hle, -⟩ := hback.take
      exact ⟨v, hv, hle⟩
    obtain ⟨s₁, r₁, h₁⟩ := Order.refund_ok (hsender o (mem_cons_self ..)) hbase hlt hbal
    obtain ⟨s', r, h', hr⟩ := settle_ok hf (Order.refund_backed hback h₁)
      (fun o' ho' => hwf o' (mem_cons_of_mem _ ho'))
      (fun o' ho' => hsender o' (mem_cons_of_mem _ ho'))
      (fun c hc => hcall c (mem_cons_of_mem _ hc))
    refine ⟨s', r₁ ++ r, ?_, ?_⟩
    · simp only [settle, hf.order, h₁, ok_bind, h']
      rfl
    · rw [givenBack_append, Order.refund_givenBack h₁, hr, hos, flatMap_cons]
  | .call c :: leaves, s, hback, hwf, hsender, hcall => by
    have hos : ordersOf (.call c :: leaves) = ordersOf leaves := rfl
    rw [hos] at hback hwf hsender
    obtain ⟨r₁, h₁, hr₁⟩ := hf.call c s (hcall c (mem_cons_self ..))
    obtain ⟨s', r, h', hr⟩ := settle_ok hf hback hwf hsender
      (fun c hc => hcall c (mem_cons_of_mem _ hc))
    refine ⟨s', r₁ ++ r, ?_, ?_⟩
    · simp only [settle, h₁, ok_bind, h']
      rfl
    · rw [givenBack_append, hr₁, hr, hos, nil_append]

/-- **Leaves that are settled have orders whose senders are addresses.** -/
theorem validAddr_of_settle (hf : Completes env path channelId f) :
    ∀ {leaves : List Leaf} {s s' : State} {r : Response}, settle f leaves s = .ok (s', r) →
      ∀ o ∈ ordersOf leaves, env.ValidAddr o.sender
  | [], _, _, _, _, o, ho => by simp [ordersOf] at ho
  | l :: leaves, s, s', r, h, o, ho => by
    simp only [settle, bind_eq_ok] at h
    obtain ⟨⟨s₁, r₁⟩, h₁, ⟨s₂, r₂⟩, h₂, -⟩ := h
    have ih := validAddr_of_settle hf h₂
    cases l with
    | order o' =>
      have ho' : o ∈ o' :: ordersOf leaves := ho
      rcases List.mem_cons.mp ho' with rfl | hmem
      · rw [hf.order] at h₁
        exact (Order.refund_payout h₁).1
      · exact ih o hmem
    | call c => exact ih o ho

end Settle

/-! ## The instructions that can be completed -/

def Instruction.order? : Instruction → Option Order
  | .mk version opcode (.tokenOrderV1 o) =>
    if opcode = OP_TOKEN_ORDER ∧ version = INSTR_VERSION_1 then some (.v1 o) else none
  | .mk version opcode (.tokenOrderV2 o) =>
    if opcode = OP_TOKEN_ORDER ∧ version = INSTR_VERSION_2 then some (.v2 o) else none
  | _ => none

/-- The token orders of an instruction: its own, or those of the batch it is. -/
def Instruction.orders : Instruction → List Order
  | .mk _ _ (.batch instructions) => instructions.filterMap Instruction.order?
  | i => i.order?.toList

def Instruction.Holds (i : Instruction) (leaves : List Leaf) : Prop :=
  i = batchOf leaves ∨ ∃ l : Leaf, leaves = [l] ∧ i = l.toInstruction

theorem Leaf.toInstruction_order? (l : Leaf) : l.toInstruction.order? = l.order? := by
  rcases l with (_ | _) | _ <;> rfl

variable {i : Instruction} {leaves : List Leaf}

theorem Instruction.Holds.orders (h : i.Holds leaves) : i.orders = ordersOf leaves := by
  rcases h with rfl | ⟨l, rfl, rfl⟩
  · simp only [Instruction.orders, batchOf, batchInstruction, ordersOf, filterMap_map]
    exact congrArg (fun f => filterMap f leaves) (funext Leaf.toInstruction_order?)
  · rcases l with (_ | _) | _ <;> rfl

/-- **A verified instruction is a forward, or a leaf or batch of verified leaves.** -/
theorem leaves_of_verify (h : verifyInternal env info channelId path i w = .ok w')
    (hf : i.opcode ≠ OP_FORWARD) :
    ∃ leaves, i.Holds leaves ∧ Verified info channelId path leaves w w' := by
  rcases verifyInternal_cases h with ⟨l, rfl⟩ | ⟨is, rfl, hbatch⟩ | ⟨p, th, tt, j, rfl, -⟩
  · rw [verifyInternal_leaf] at h
    exact ⟨[l], .inr ⟨l, rfl, rfl⟩, Leaf.verified h⟩
  · obtain ⟨leaves, rfl⟩ := exists_leaves_of_verify hbatch
    exact ⟨leaves, .inl rfl, verified_of_verifyBatch hbatch⟩
  · exact absurd rfl hf

section Dispatchers

variable {env : Env} {caller relayer : Addr} {packet : Packet} {path : U256} {s : State}

theorem settle_singleton (f : Leaf → State → Result (State × Response)) (l : Leaf) (s : State) :
    settle f [l] s = f l s := by
  simp only [settle]
  cases f l s with
  | error e => rfl
  | ok r => simp [pure, Except.pure]

theorem timeoutBatch_eq_settle : ∀ (leaves : List Leaf) (s : State),
      timeoutBatch env caller packet relayer path (leaves.map Leaf.toInstruction) s =
        settle (fun l s => l.timeout env caller packet relayer path s) leaves s
  | [], s => rfl
  | l :: leaves, s => by
    simp only [map_cons, timeoutBatch_cons, settle]
    congr 1
    funext r
    rw [timeoutBatch_eq_settle leaves r.1]

theorem acknowledgeBatch_eq_settle : ∀ (leaves : List Leaf) (s : State),
      acknowledgeBatch env caller packet relayer path (leaves.map Leaf.toInstruction) false none s =
        settle (fun l s => l.acknowledge env caller packet relayer path false (.raw []) s) leaves s
  | [], s => rfl
  | l :: leaves, s => by
    simp only [map_cons, acknowledgeBatch_cons, settle, nextAck, ok_bind]
    congr 1
    funext r
    rw [acknowledgeBatch_eq_settle leaves r.1]

theorem timeoutInternal_eq_settle (h : i.Holds leaves) : timeoutInternal env caller packet relayer path i s =
      settle (fun l s => l.timeout env caller packet relayer path s) leaves s := by
  rcases h with rfl | ⟨l, rfl, rfl⟩
  · rw [timeoutInternal_batchOf, timeoutBatch_eq_settle]
  · rw [timeoutInternal_leaf, settle_singleton]

theorem acknowledgeInternal_eq_settle (h : i.Holds leaves) :
    acknowledgeInternal env caller packet relayer path i false (.raw []) s =
      settle (fun l s => l.acknowledge env caller packet relayer path false (.raw []) s) leaves s := by
  rcases h with rfl | ⟨l, rfl, rfl⟩
  · rw [acknowledgeInternal_batchOf, ← acknowledgeBatch_eq_settle]
    rfl
  · rw [acknowledgeInternal_leaf, settle_singleton]

theorem timeout_completes : Completes env path packet.sourceChannelId
    (fun l s => l.timeout env caller packet relayer path s) where
  order _ _ := rfl
  call c s h := by
    obtain ⟨addr, hs, hv⟩ := h
    have hval : validateAddr env c.sender .invalidSender .unableToValidateSender = .ok addr :=
      validateAddr_eq_ok.mpr ⟨hs, hv⟩
    simp only [Leaf.timeout, timeoutCall, hval, ok_bind]
    split
    · exact ⟨_, rfl, rfl⟩
    · exact ⟨_, rfl, rfl⟩

theorem acknowledge_completes : Completes env path packet.sourceChannelId
    (fun l s => l.acknowledge env caller packet relayer path false (.raw []) s) where
  order o s := by
    simp only [Leaf.acknowledge, decodeTokenOrderAck]
    exact Order.acknowledge_none env packet path s o
  call c s _ := ⟨[], rfl, rfl⟩

end Dispatchers

/-! ## Sent packets -/

/-- Timeout and failed acknowledgement of the packet both succeed and give back what `r` took. -/
def Completable (env : Env) (packet : Packet) (r : Response) (s : State) : Prop :=
  ∀ caller relayer, (∃ s' r', timeoutPacket env caller packet relayer s = .ok (s', r') ∧
    givenBack r' = taken r) ∧
    (∃ s' r', acknowledgePacket env caller packet relayer .failure s = .ok (s', r') ∧
      givenBack r' = taken r)

section Entry

variable {env : Env} {caller relayer : Addr} {packet : Packet} {p : ZkgmPacket} {s : State}

theorem timeoutPacket_eq (hdata : packet.data = .zkgm p)
    (hfresh : s.inFlightPacket (packet.commitmentKey env.hashing) = none) :
    timeoutPacket env caller packet relayer s = timeoutInternal env caller packet relayer p.path
      p.instruction s := by
  simp only [timeoutPacket, hdata, hfresh, ite_self]

theorem acknowledgePacket_failure_eq (hdata : packet.data = .zkgm p)
    (hfresh : s.inFlightPacket (packet.commitmentKey env.hashing) = none) :
    acknowledgePacket env caller packet relayer .failure s =
      acknowledgeInternal env caller packet relayer p.path p.instruction false (.raw []) s := by
  simp only [acknowledgePacket, hdata, hfresh, ite_self, Acknowledgement.failure]
  rfl

theorem timeoutInternal_forward (hf : i.opcode = OP_FORWARD) (path : U256) :
    timeoutInternal env caller packet relayer path i s = .error (.err (.unknownOpcode OP_FORWARD)) := by
  obtain ⟨version, opcode, operand⟩ := i
  simp only [Instruction.opcode] at hf
  subst hf
  unfold timeoutInternal
  rw [if_neg (by decide), if_neg (by decide), if_neg (by decide)]

end Entry

/-- **A sent packet can be completed iff it is not a forward and the senders of its orders are
    addresses of the chain**, in any storage `t` that still holds what it escrowed. -/
theorem completes_iff {env env' : Env} {info : MessageInfo} {channelId : ChannelId}
    {timeout : Timestamp} {salt : U256} {i : Instruction} {s s' : State} {r : Response}
    (hsend : send env info channelId timeout salt i s = .ok (s', r))
    (hsender : env'.validAddr info.sender = true) :
    (i.opcode ≠ OP_FORWARD → Backed s' (escrows channelId 0 i.orders)) ∧
      ∀ (packet : Packet) (t : State), packet.sourceChannelId = channelId →
        packet.data = .zkgm ⟨env.hashing.hashSendSalt info.sender salt, 0, i⟩ →
        t.inFlightPacket (packet.commitmentKey env'.hashing) = none →
        Backed t (escrows channelId 0 i.orders) →
        (Completable env' packet r t ↔
          i.opcode ≠ OP_FORWARD ∧ ∀ o ∈ i.orders, env'.ValidAddr o.sender) := by
  simp only [send, bind_eq_ok, pure_eq_ok, Prod.mk.injEq] at hsend
  obtain ⟨w, hw, rfl, rfl⟩ := hsend
  constructor
  · intro hf
    obtain ⟨leaves, hi, hver⟩ := leaves_of_verify hw hf
    rw [hi.orders]
    exact hver.backed [] (fun e he => by simp at he)
  · rintro packet t rfl hdata hfresh hback
    unfold Completable
    simp only [timeoutPacket_eq hdata hfresh, acknowledgePacket_failure_eq hdata hfresh]
    by_cases hf : i.opcode = OP_FORWARD
    · constructor
      · intro hc
        obtain ⟨⟨s₁, r₁, h₁, -⟩, -⟩ := hc "" ""
        rw [timeoutInternal_forward hf] at h₁
        cases h₁
      · intro hc
        exact absurd hf hc.1
    · obtain ⟨leaves, hi, hver⟩ := leaves_of_verify hw hf
      have hcalls : ∀ c, Leaf.call c ∈ leaves → env'.ValidAddr c.sender :=
        fun c hc => ⟨info.sender, hver.calls c hc, hsender⟩
      have htaken : ∀ m, taken (w.response ++ [(CosmosMsg.packetSend m).plain]) =
          (ordersOf leaves).flatMap Order.moves := by
        intro m
        rw [taken_append, hver.taken]
        exact append_nil _
      simp only [timeoutInternal_eq_settle hi, acknowledgeInternal_eq_settle hi, htaken, hi.orders]
        at hback ⊢
      constructor
      · intro hc
        obtain ⟨⟨s₁, r₁, h₁, -⟩, -⟩ := hc "" ""
        exact ⟨hf, validAddr_of_settle timeout_completes h₁⟩
      · rintro ⟨-, hsenders⟩ caller relayer
        exact ⟨settle_ok timeout_completes hback hver.orders hsenders hcalls,
          settle_ok acknowledge_completes hback hver.orders hsenders hcalls⟩

/-! ## A forward that is lost -/

/-- Five `uatom` of alice, to be escrowed. -/
def sampleOrder : TokenOrderV2 where
  sender := utf8 "alice"
  receiver := utf8 "bob"
  baseToken := utf8 "uatom"
  baseAmount := 5
  quoteToken := utf8 "wrapped/uatom"
  quoteAmount := 5
  kind := TOKEN_ORDER_KIND_ESCROW
  metadata := .other []

/-- The order, to be carried on over channels 2 and 1. -/
def sampleForward : Instruction :=
  .mk INSTR_VERSION_0 OP_FORWARD
    (.forward 0x0000000100000002 0 100 (.mk INSTR_VERSION_2 OP_TOKEN_ORDER (.tokenOrderV2 sampleOrder)))

def samplePacket (i : Instruction) : Packet := ⟨channelOne, channelTwo, .zkgm ⟨7, 0, i⟩, .mustBeZero, 100⟩

/-- **The escrow of a forward is lost**: `send` accepts it and takes the five tokens, and neither the
    timeout nor the failed acknowledgement of the packet can give them back. -/
theorem forward_never_completes :
    (∃ s' r, send Env.ideal ⟨"alice", []⟩ channelOne 100 7 sampleForward State.fresh = .ok (s', r) ∧
      taken r = [("uatom", 5, false)] ∧
      timeoutPacket Env.ideal "relayer" (samplePacket sampleForward) "relayer" s' =
        .error (.err (.unknownOpcode OP_FORWARD)) ∧
      acknowledgePacket Env.ideal "relayer" (samplePacket sampleForward) "relayer" .failure s' =
        .error (.err (.unknownOpcode OP_FORWARD))) := by
  refine ⟨_, _, rfl, ?_, ?_, ?_⟩
  · decide
  · rfl
  · rfl

/-- The same order outside a forward is given back. -/
theorem order_completes : ∃ s' r, send Env.ideal ⟨"alice", []⟩ channelOne 100 7
        (Order.v2 sampleOrder).toInstruction State.fresh = .ok (s', r) ∧
      Completable Env.ideal (samplePacket (Order.v2 sampleOrder).toInstruction) r s' := by
  refine ⟨_, _, rfl, ?_⟩
  have h := @completes_iff Env.ideal Env.ideal ⟨"alice", []⟩ channelOne 100 7
    (Order.v2 sampleOrder).toInstruction State.fresh _ _ rfl rfl
  have hback := h.1 (by decide)
  refine (h.2 (samplePacket (Order.v2 sampleOrder).toInstruction) _ rfl rfl rfl hback).mpr ?_
  refine ⟨by decide, ?_⟩
  intro o ho
  rw [List.mem_singleton.mp (ho : o ∈ [Order.v2 sampleOrder])]
  exact ⟨"alice", rfl, rfl⟩

end UnionVoyager.Zkgm
