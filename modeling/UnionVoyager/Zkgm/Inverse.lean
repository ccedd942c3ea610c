import UnionVoyager.Zkgm.Refund

/-!
# A refund undoes what verification did

Verification burns or escrows the base tokens of an order by what the chain knows of the token; a refund
decides by what the order says.  The books of a run set every order that is placed, and not settled yet,
against the channel balances.
-/

namespace UnionVoyager.Zkgm

open Lib Function List
open Core (ChannelId Addr)

/-! ## Placed orders -/

/-- The messages to a recipient that give back what a message to the minter took. -/
inductive GivesBack (minter recipient : Addr) : MinterMsg → Response → Prop
  | unescrow (sender denom holder : String) (amount : Nat) :
      GivesBack minter recipient (.escrow sender denom holder amount)
        [(CosmosMsg.minter ⟨minter, .unescrow denom recipient amount, []⟩).plain]
  | mint (denom : String) (amount : Nat) (holder sender : Addr) :
      GivesBack minter recipient (.burnTokens denom amount holder sender)
        [(CosmosMsg.minter ⟨minter, .mintTokens denom amount recipient, []⟩).plain]
  | escrowedNothing (sender denom holder : String) :
      GivesBack minter recipient (.escrow sender denom holder 0) []
  | burnedNothing (denom : String) (holder sender : Addr) :
      GivesBack minter recipient (.burnTokens denom 0 holder sender) []

/-- An order that verification accepted, with the message that took its base tokens. -/
structure Placed where
  order : Order
  channelId : ChannelId
  path : U256
  call : MinterCall

namespace Placed

/-- What the message escrowed, and where the channel balance counts it. -/
def escrow (p : Placed) : List (BalanceKey × Nat) :=
  match p.call.msg with
  | .escrow _ denom _ amount => [(⟨p.channelId, p.path, denom, p.order.quoteToken⟩, amount)]
  | _ => []

/-- The message says of the base tokens what the order says. -/
structure Sound (p : Placed) (minter : Addr) : Prop where
  minter_eq : p.call.minter = minter
  msg : ∃ base sender, p.order.baseToken = utf8 base ∧ p.order.baseAmount < 2 ^ 128 ∧
    (p.order.burns = true ∧ p.call.msg = .burnTokens base p.order.baseAmount minter sender ∨
      p.order.burns = false ∧ p.call.msg = .escrow sender base minter p.order.baseAmount)

end Placed

/-- **A refund undoes a placed order**: what was taken goes back to the sender of the order, its escrow
    leaves the channel balance, and nothing else changes. -/
structure Undone (p : Placed) (s s' : State) (r : Response) : Prop where
  givesBack : ∃ recipient, p.order.sender = utf8 recipient ∧ GivesBack p.call.minter recipient p.call.msg r
  balance : ∀ k, s'.balance k + escrowedUnder k p.escrow = s.balance k
  frame : s' = { s with channelBalanceV2 := s'.channelBalanceV2 }

/-! ## Balances -/

theorem balance_setBalance (s : State) (k x : BalanceKey) (n : Nat) :
    (s.setBalance k n).balance x = if x = k then n else s.balance x := by
  unfold State.setBalance State.balance
  by_cases hx : x = k
  · subst hx
    simp
  · simp [hx]

theorem escrowedUnder_single (k x : BalanceKey) (n : Nat) :
    escrowedUnder x [(k, n)] = if k = x then n else 0 := by
  rw [escrowedUnder_cons]
  rfl

variable {s s' : State}

theorem balance_of_entry {k : BalanceKey} {v : Nat} (h : s.channelBalanceV2 k = some v) :
    s.balance k = v := by
  rw [State.balance, h, Option.getD_some]

theorem setBalance_ne_none {k x : BalanceKey} {n : Nat} (h : s.channelBalanceV2 x ≠ none) :
    (s.setBalance k n).channelBalanceV2 x ≠ none := by
  unfold State.setBalance
  by_cases hx : x = k
  · subst hx
    simp
  · simpa [hx] using h

/-- Balances that were set off against an escrow. -/
structure Released (p : Placed) (s s' : State) : Prop where
  balance : ∀ k, s'.balance k + escrowedUnder k p.escrow = s.balance k
  frame : s' = { s with channelBalanceV2 := s'.channelBalanceV2 }
  present : ∀ k, s.channelBalanceV2 k ≠ none → s'.channelBalanceV2 k ≠ none

variable {p : Placed}

/-- **Settling a placed order releases its escrow.** -/
theorem Payout.released {r : Response} {base : String} {maker : Bool} (hp : p.Sound s.tokenMinter)
    (hbase : p.order.baseToken = utf8 base)
    (h : Payout s (p.order.key p.channelId p.path base) p.order.baseAmount p.order.burns maker s' r) :
    Released p s s' := by
  obtain ⟨base', sender, hbase', -, hmsg⟩ := hp.msg
  obtain rfl : base' = base := utf8_injective (hbase'.symm.trans hbase)
  have hburns : p.order.burns = true → p.escrow = [] := by
    intro hb
    rcases hmsg with ⟨-, hmsg⟩ | ⟨hb', -⟩
    · simp [Placed.escrow, hmsg]
    · rw [hb] at hb'
      cases hb'
  have hescrow : p.order.burns = false →
      p.escrow = [(p.order.key p.channelId p.path base', p.order.baseAmount)] := by
    intro hb
    rcases hmsg with ⟨hb', -⟩ | ⟨-, hmsg⟩
    · rw [hb] at hb'
      cases hb'
    · simp [Placed.escrow, hmsg, Order.key]
  have hset : ∀ v, p.order.burns = false → s.channelBalanceV2
      (p.order.key p.channelId p.path base') = some v → p.order.baseAmount ≤ v →
      Released p s (s.setBalance (p.order.key p.channelId p.path base') (v - p.order.baseAmount)) := by
    intro v hb hv hle
    refine ⟨?_, rfl, fun k hk => setBalance_ne_none hk⟩
    intro k
    rw [hescrow hb, escrowedUnder_single, balance_setBalance]
    by_cases hk : k = p.order.key p.channelId p.path base'
    · rw [hk, if_pos rfl, if_pos rfl, balance_of_entry hv]
      omega
    · rw [if_neg hk, if_neg (Ne.symm hk), Nat.add_zero]
  cases h with
  | nothing hzero =>
    refine ⟨?_, rfl, fun _ hk => hk⟩
    intro k
    cases hb : p.order.burns with
    | true =>
      rw [hburns hb]
      rfl
    | false =>
      rw [hescrow hb, escrowedUnder_single, hzero, ite_self, Nat.add_zero]
  | mint recipient hb =>
    refine ⟨?_, rfl, fun _ hk => hk⟩
    intro k
    rw [hburns hb]
    rfl
  | unescrow recipient v hb hv hle => exact hset v hb hv hle
  | retire v hb hm hv hle => exact hset v hb hv hle

variable {env : Env}

/-- **A refund that succeeds undoes the order.** -/
theorem undone_of_refund {r : Response} (hp : p.Sound s.tokenMinter)
    (h : p.order.refund env p.path p.channelId s = .ok (s', r)) : Undone p s s' r := by
  obtain ⟨-, base, hbase, hpay⟩ := Order.refund_payout h
  have hrel := hpay.released hp hbase
  obtain ⟨recipient, base', hsender, -, hbase', hcase⟩ := Order.refund_cases h
  obtain rfl : base' = base := utf8_injective (hbase'.symm.trans hbase)
  obtain ⟨base, sender, hbase, -, hmsg⟩ := hp.msg
  obtain rfl : base = base' := utf8_injective (hbase.symm.trans hbase')
  refine ⟨⟨recipient, hsender, ?_⟩, hrel.balance, hrel.frame⟩
  rw [hp.minter_eq]
  rcases hmsg with ⟨hburned, hmsg⟩ | ⟨hburned, hmsg⟩
  · rw [hmsg]
    rcases hcase with ⟨hzero, -, rfl⟩ | ⟨-, -, rfl⟩ | ⟨hnot, -⟩
    · rw [hzero]
      exact .burnedNothing base _ sender
    · exact .mint base _ _ sender
    · rw [hburned] at hnot
      cases hnot
  · rw [hmsg]
    rcases hcase with ⟨hzero, -, rfl⟩ | ⟨hnot, -⟩ | ⟨-, v, -, -, -, rfl⟩
    · rw [hzero]
      exact .escrowedNothing sender base _
    · rw [hburned] at hnot
      cases hnot
    · exact .unescrow sender base _ _

/-- **Verification places an order**: the balance of its key grows by what is escrowed. -/
theorem placed_of_verify {info : MessageInfo} {channelId : ChannelId} {path : U256} {w w' : Walk}
    {o : Order} (h : o.verify env info channelId path w = .ok w') :
    ∃ call, w'.response = w.response ++ [(CosmosMsg.minter call).plain] ∧
      (Placed.mk o channelId path call).Sound w.state.tokenMinter ∧
      (∀ k, w'.state.balance k = w.state.balance k +
        escrowedUnder k (Placed.mk o channelId path call).escrow) ∧
      w'.state = { w.state with channelBalanceV2 := w'.state.channelBalanceV2 } ∧
      (∀ k, w.state.channelBalanceV2 k ≠ none → w'.state.channelBalanceV2 k ≠ none) ∧
      (∀ e ∈ (Placed.mk o channelId path call).escrow, w'.state.channelBalanceV2 e.1 ≠ none) := by
  obtain ⟨base, funds, coins, hbase, hlt, -, hcase⟩ := Order.verify_cases h
  rcases hcase with ⟨hb, -, rfl⟩ | ⟨hb, rfl⟩
  · refine ⟨⟨w.state.tokenMinter, .burnTokens base o.baseAmount w.state.tokenMinter info.sender, coins⟩, rfl,
      ⟨rfl, base, info.sender, hbase, hlt, .inl ⟨hb, rfl⟩⟩, fun k => rfl, rfl, fun k hk => hk, ?_⟩
    intro e he
    cases he
  · refine ⟨⟨w.state.tokenMinter, .escrow info.sender base w.state.tokenMinter o.baseAmount, coins⟩, rfl,
      ⟨rfl, base, info.sender, hbase, hlt, .inr ⟨hb, rfl⟩⟩, ?_, rfl, fun k hk => setBalance_ne_none hk, ?_⟩
    · intro k
      show (w.state.setBalance (o.key channelId path base) _).balance k =
        w.state.balance k + escrowedUnder k [(o.key channelId path base, o.baseAmount)]
      rw [balance_setBalance, escrowedUnder_single]
      by_cases hk : k = o.key channelId path base
      · rw [if_pos hk, if_pos hk.symm, hk]
      · rw [if_neg hk, if_neg (Ne.symm hk), Nat.add_zero]
    · intro e he
      obtain rfl : e = (o.key channelId path base, o.baseAmount) := List.mem_singleton.mp he
      show (w.state.setBalance (o.key channelId path base) _).channelBalanceV2
        (o.key channelId path base) ≠ none
      simp [State.setBalance]

/-! ## The books of a run -/

/-- The storage, the orders that are placed and not settled, and what the balances hold besides. -/
structure OrderBook where
  state : State
  placed : List Placed
  free : BalanceKey → Nat

/-- What orders escrowed together. -/
def held (ps : List Placed) : List (BalanceKey × Nat) := ps.flatMap Placed.escrow

namespace OrderBook

/-- A storage without a placed order. -/
def start (s : State) : OrderBook := ⟨s, [], s.balance⟩

/-- Orders are placed, refunded, and filled; what the protocol filled comes back; and other messages leave
    the channel balances alone. -/
inductive Step : OrderBook → OrderBook → Prop
  | place {l : OrderBook} {env : Env} {info : MessageInfo} {funds : Coins} {r : Response} {w : Walk}
      (p : Placed)
      (hverify : p.order.verify env info p.channelId p.path ⟨l.state, funds, r⟩ = .ok w)
      (hcall : w.response = r ++ [(CosmosMsg.minter p.call).plain]) :
      Step l ⟨w.state, p :: l.placed, l.free⟩
  | refund {l : OrderBook} {env : Env} {s' : State} {r : Response} (p : Placed) (rest : List Placed)
      (hplaced : l.placed.Perm (p :: rest))
      (hrefund : p.order.refund env p.path p.channelId l.state = .ok (s', r)) :
      Step l ⟨s', rest, l.free⟩
  | fill {l : OrderBook} {env : Env} {packet : Packet} {fillType : U256} {maker : Bytes}
      {s' : State} {r : Response}
      (p : Placed) (rest : List Placed) (hplaced : l.placed.Perm (p :: rest))
      (hchannel : packet.sourceChannelId = p.channelId)
      (hack : p.order.acknowledge env packet p.path (some (fillType, maker)) l.state = .ok (s', r)) :
      Step l ⟨s', rest, fun k =>
        if fillType = FILL_TYPE_PROTOCOL then l.free k + escrowedUnder k p.escrow else l.free k⟩
  | unwrap {l : OrderBook} {s' : State} (k : BalanceKey) (n : Nat) (hfree : n ≤ l.free k)
      (hdecrease : decreaseChannelBalanceV2 l.state k.channelId k.path k.baseToken k.quoteToken n = .ok s') :
      Step l ⟨s', l.placed, update l.free k (l.free k - n)⟩
  | other {l : OrderBook} {s' : State} (hbalance : s'.channelBalanceV2 = l.state.channelBalanceV2)
      (hminter : s'.tokenMinter = l.state.tokenMinter) :
      Step l ⟨s', l.placed, l.free⟩

/-- **The books balance**: the channel balances are what the placed orders escrowed, and the rest. -/
structure Balanced (l : OrderBook) : Prop where
  sound : ∀ p ∈ l.placed, p.Sound l.state.tokenMinter
  present : ∀ e ∈ held l.placed, l.state.channelBalanceV2 e.1 ≠ none
  balance : ∀ k, l.state.balance k = l.free k + escrowedUnder k (held l.placed)

variable {l l' : OrderBook}

theorem balanced_start (s : State) : (start s).Balanced where
  sound _ hp := by cases hp
  present _ he := by cases he
  balance _ := rfl

theorem escrowedUnder_held_cons (k : BalanceKey) (p : Placed) (ps : List Placed) :
    escrowedUnder k (held (p :: ps)) = escrowedUnder k p.escrow + escrowedUnder k (held ps) := by
  unfold held
  rw [flatMap_cons, escrowedUnder_append]

variable {ps : List Placed}

theorem escrowedUnder_held_perm (k : BalanceKey) {qs : List Placed} (h : ps.Perm qs) :
    escrowedUnder k (held ps) = escrowedUnder k (held qs) := by
  induction h with
  | nil => rfl
  | cons p h ih => rw [escrowedUnder_held_cons, escrowedUnder_held_cons, ih]
  | swap p q ps =>
    rw [escrowedUnder_held_cons, escrowedUnder_held_cons, escrowedUnder_held_cons, escrowedUnder_held_cons]
    omega
  | trans _ _ ih ih' => rw [ih, ih']

theorem mem_held {e : BalanceKey × Nat} : e ∈ held ps ↔ ∃ p ∈ ps, e ∈ p.escrow := mem_flatMap

theorem Balanced.perm (h : l.Balanced) (hp : l.placed.Perm ps) :
    (⟨l.state, ps, l.free⟩ : OrderBook).Balanced where
  sound p hmem := h.sound p (hp.mem_iff.mpr hmem)
  present e he := by
    obtain ⟨p, hmem, he⟩ := mem_held.mp he
    exact h.present e (mem_held.mpr ⟨p, hp.mem_iff.mpr hmem, he⟩)
  balance k := by
    show l.state.balance k = l.free k + escrowedUnder k (held ps)
    rw [h.balance k, escrowedUnder_held_perm k hp]

/-- **An order whose escrow is released leaves the books.** -/
theorem Balanced.release {rest : List Placed} {free : BalanceKey → Nat}
    (h : (⟨s, p :: rest, free⟩ : OrderBook).Balanced) (hs : Released p s s') :
    (⟨s', rest, free⟩ : OrderBook).Balanced where
  sound q hq := by
    have hminter : s'.tokenMinter = s.tokenMinter := by
      rw [hs.frame]
    show q.Sound s'.tokenMinter
    rw [hminter]
    exact h.sound q (mem_cons_of_mem _ hq)
  present e he := by
    obtain ⟨q, hq, he⟩ := mem_held.mp he
    exact hs.present e.1 (h.present e (mem_held.mpr ⟨q, mem_cons_of_mem _ hq, he⟩))
  balance k := by
    have hbefore : s.balance k = free k + escrowedUnder k (held (p :: rest)) := h.balance k
    have hafter := hs.balance k
    rw [escrowedUnder_held_cons] at hbefore
    show s'.balance k = free k + escrowedUnder k (held rest)
    omega

/-- **One step keeps the books balanced.** -/
theorem Step.balanced (hstep : Step l l') (h : l.Balanced) : l'.Balanced := by
  cases hstep with
  | @place env info funds r w p hver hcall =>
    obtain ⟨call, hresponse, hsound, hbal, hframe, hpresent, hown⟩ := placed_of_verify hver
    obtain rfl : call = p.call := by
      have hsame := append_cancel_left (hresponse.symm.trans hcall)
      simpa [CosmosMsg.plain] using hsame
    have hminter : w.state.tokenMinter = l.state.tokenMinter := by
      rw [hframe]
    constructor
    · intro q hq
      show q.Sound w.state.tokenMinter
      rw [hminter]
      rcases List.mem_cons.mp hq with rfl | hq
      · exact hsound
      · exact h.sound q hq
    · intro e he
      obtain ⟨q, hq, hescrow⟩ := mem_held.mp he
      rcases List.mem_cons.mp hq with rfl | hq
      · exact hown e hescrow
      · exact hpresent e.1 (h.present e (mem_held.mpr ⟨q, hq, hescrow⟩))
    · intro k
      have hbefore := h.balance k
      have hafter : w.state.balance k = l.state.balance k + escrowedUnder k p.escrow := hbal k
      show w.state.balance k = l.free k + escrowedUnder k (held (p :: l.placed))
      rw [escrowedUnder_held_cons]
      omega
  | refund p rest hplaced hrefund =>
    have hp : p.Sound l.state.tokenMinter := h.sound p (hplaced.mem_iff.mpr mem_cons_self)
    obtain ⟨-, base, hbase, hpay⟩ := Order.refund_payout hrefund
    exact (h.perm hplaced).release (hpay.released hp hbase)
  | @fill env packet fillType maker s' r p rest hplaced hchan hack =>
    have hp : p.Sound l.state.tokenMinter := h.sound p (hplaced.mem_iff.mpr mem_cons_self)
    rcases Order.acknowledge_payout hack with ⟨rfl, rfl, -⟩ | ⟨rfl, base, hbase, hpay⟩
    · -- the protocol filled it: the escrow stays, and backs what the other chain minted
      have hperm := h.perm hplaced
      constructor
      · intro q hq
        exact hperm.sound q (mem_cons_of_mem _ hq)
      · intro e he
        obtain ⟨q, hq, he⟩ := mem_held.mp he
        exact hperm.present e (mem_held.mpr ⟨q, mem_cons_of_mem _ hq, he⟩)
      · intro k
        have hbefore : l.state.balance k = l.free k + escrowedUnder k (held (p :: rest)) := hperm.balance k
        rw [escrowedUnder_held_cons] at hbefore
        show l.state.balance k = (if FILL_TYPE_PROTOCOL = FILL_TYPE_PROTOCOL then
          l.free k + escrowedUnder k p.escrow else l.free k) + escrowedUnder k (held rest)
        rw [if_pos rfl]
        omega
    · rw [hchan] at hpay
      have hmaker : FILL_TYPE_MARKETMAKER ≠ FILL_TYPE_PROTOCOL := by decide
      simp only [hmaker, if_false]
      exact (h.perm hplaced).release (hpay.released hp hbase)
  | unwrap k n hfree hdecr =>
    obtain ⟨v, hv, hle, rfl⟩ := decreaseChannelBalanceV2_eq_ok.mp hdecr
    constructor
    · exact h.sound
    · intro e he
      exact setBalance_ne_none (h.present e he)
    · intro x
      have hbefore := h.balance x
      show (l.state.setBalance k (v - n)).balance x =
        update l.free k (l.free k - n) x + escrowedUnder x (held l.placed)
      rw [balance_setBalance]
      by_cases hx : x = k
      · subst hx
        rw [balance_of_entry hv] at hbefore
        rw [if_pos rfl, update_self]
        omega
      · rw [if_neg hx, update_of_ne hx]
        exact hbefore
  | other hbal hminter =>
    constructor
    · intro p hp
      show p.Sound _
      rw [hminter]
      exact h.sound p hp
    · intro e he
      show _ ≠ none
      rw [hbal]
      exact h.present e he
    · intro k
      unfold State.balance
      rw [hbal]
      exact h.balance k

/-- **The books of a run balance.** -/
theorem balanced_of_run (hrun : Relation.ReflTransGen Step (start s) l) : l.Balanced := by
  induction hrun with
  | refl => exact balanced_start s
  | tail _ hstep ih => exact hstep.balanced ih

theorem exists_perm_of_mem (hp : p ∈ ps) : ∃ rest, ps.Perm (p :: rest) := by
  obtain ⟨before, after, rfl⟩ := append_of_mem hp
  exact ⟨before ++ after, perm_middle⟩

/-- **A placed order can be refunded, which undoes it, iff its sender is an address.** -/
theorem Balanced.undone_iff (h : l.Balanced) (hp : p ∈ l.placed) (env : Env) :
    (∃ s' r, p.order.refund env p.path p.channelId l.state = .ok (s', r) ∧ Undone p l.state s' r) ↔
      env.ValidAddr p.order.sender := by
  have hsound := h.sound p hp
  constructor
  · rintro ⟨s', r, hrefund, -⟩
    exact (Order.refund_payout hrefund).1
  · intro hsender
    obtain ⟨base, sender, hbase, hlt, hmsg⟩ := hsound.msg
    have hback : p.order.burns = false → ∃ v,
        l.state.channelBalanceV2 (p.order.key p.channelId p.path base) = some v ∧ p.order.baseAmount ≤ v := by
      intro hburned
      rcases hmsg with ⟨hburned', -⟩ | ⟨-, hmsg⟩
      · rw [hburned] at hburned'
        cases hburned'
      have hescrow : p.escrow = [(p.order.key p.channelId p.path base, p.order.baseAmount)] := by
        simp [Placed.escrow, hmsg, Order.key]
      obtain ⟨rest, hperm⟩ := exists_perm_of_mem hp
      have hpresent := h.present (p.order.key p.channelId p.path base, p.order.baseAmount)
        (mem_held.mpr ⟨p, hp, by rw [hescrow]; exact mem_cons_self⟩)
      obtain ⟨v, hv⟩ := Option.ne_none_iff_exists'.mp hpresent
      have hbal := h.balance (p.order.key p.channelId p.path base)
      rw [escrowedUnder_held_perm _ hperm, escrowedUnder_held_cons, hescrow, escrowedUnder_single, if_pos rfl,
        balance_of_entry hv] at hbal
      exact ⟨v, hv, by omega⟩
    obtain ⟨s', r, hrefund⟩ := Order.refund_ok hsender hbase hlt hback
    exact ⟨s', r, hrefund, undone_of_refund hsound hrefund⟩

/-! ## Refunds in sequence -/

/-- The refunds of several orders, one after the other. -/
def refundAll (env : Env) : List Placed → State → Result (State × List Response)
  | [], s => .ok (s, [])
  | p :: ps, s => do
    let (s, r) ← p.order.refund env p.path p.channelId s
    let (s, rs) ← refundAll env ps s
    pure (s, r :: rs)

/-- Each response gives back what the message of its order took. -/
def GiveBack (ps : List Placed) (rs : List Response) : Prop :=
  List.Forall₂ (fun p r => ∃ recipient, p.order.sender = utf8 recipient ∧
    GivesBack p.call.minter recipient p.call.msg r) ps rs

theorem validAddr_of_refundAll {rs : List Response} (h : refundAll env ps s = .ok (s', rs)) :
    ∀ p ∈ ps, env.ValidAddr p.order.sender := by
  induction ps generalizing s s' rs with
  | nil =>
    intro p hp
    cases hp
  | cons p ps ih =>
    unfold refundAll at h
    simp only [bind_eq_ok] at h
    obtain ⟨⟨s₁, r₁⟩, hfirst, ⟨s₂, rs₂⟩, hrest, -⟩ := h
    intro q hq
    rcases List.mem_cons.mp hq with rfl | hq
    · exact (Order.refund_payout hfirst).1
    · exact ih hrest q hq

/-- **Placed orders can be refunded in sequence, which undoes them all, iff their senders are addresses.** -/
theorem Balanced.undone_all_iff {rest : List Placed} (env : Env) (h : l.Balanced)
    (hp : l.placed.Perm (ps ++ rest)) :
    (∃ s' rs, refundAll env ps l.state = .ok (s', rs) ∧ GiveBack ps rs ∧
        (∀ k, s'.balance k + escrowedUnder k (held ps) = l.state.balance k) ∧
        s' = { l.state with channelBalanceV2 := s'.channelBalanceV2 }) ↔
      ∀ p ∈ ps, env.ValidAddr p.order.sender := by
  constructor
  · rintro ⟨s', rs, hrun, -⟩
    exact validAddr_of_refundAll hrun
  · intro hsenders
    induction ps generalizing l with
    | nil => exact ⟨l.state, [], rfl, .nil, fun k => rfl, rfl⟩
    | cons p ps ih =>
      have hmem : p ∈ l.placed := hp.mem_iff.mpr (mem_append_left _ mem_cons_self)
      obtain ⟨s₁, r₁, hfirst, hundone⟩ := (h.undone_iff hmem env).mpr (hsenders p mem_cons_self)
      have hstep : Step l ⟨s₁, ps ++ rest, l.free⟩ := .refund p (ps ++ rest) hp hfirst
      obtain ⟨s', rs, hrest, hgive, hbal, hframe⟩ := ih (hstep.balanced h) (List.Perm.refl _)
        fun q hq => hsenders q (mem_cons_of_mem _ hq)
      refine ⟨s', r₁ :: rs, ?_, .cons hundone.givesBack hgive, ?_, ?_⟩
      · simp only [refundAll, hfirst, ok_bind, hrest]
        rfl
      · intro k
        have hone := hundone.balance k
        have hmany : s'.balance k + escrowedUnder k (held ps) = s₁.balance k := hbal k
        rw [escrowedUnder_held_cons]
        omega
      · rw [hframe]
        show ({ s₁ with channelBalanceV2 := s'.channelBalanceV2 } : State) = _
        rw [hundone.frame]

end OrderBook

/-! ## Refunds and placements -/

open OrderBook

/-- The refund of an order, right after its verification, gives back what was taken and leaves every channel
    balance as it was before. -/
def Inverts (env : Env) (channelId : ChannelId) (path : U256) (o : Order) (w w' : Walk) : Prop :=
  ∃ call s' r recipient, w'.response = w.response ++ [(CosmosMsg.minter call).plain] ∧
    o.refund env path channelId w'.state = .ok (s', r) ∧
    o.sender = utf8 recipient ∧ GivesBack call.minter recipient call.msg r ∧
    (∀ k, s'.balance k = w.state.balance k) ∧
    s' = { w.state with channelBalanceV2 := s'.channelBalanceV2 }

theorem inverts_iff {env' : Env} {info : MessageInfo} {channelId : ChannelId} {path : U256}
    {o : Order} {w w' : Walk} (h : o.verify env info channelId path w = .ok w') :
    Inverts env' channelId path o w w' ↔ env'.ValidAddr o.sender := by
  constructor
  · rintro ⟨call, s', r, recipient, -, hrefund, -⟩
    exact (Order.refund_payout hrefund).1
  · intro hsender
    obtain ⟨call, hresponse, hsound, hgrown, hframe, -, -⟩ := placed_of_verify h
    have hstep : OrderBook.Step (start w.state) ⟨w'.state, [⟨o, channelId, path, call⟩], w.state.balance⟩ :=
      .place ⟨o, channelId, path, call⟩ h hresponse
    have hbooks := hstep.balanced (balanced_start w.state)
    obtain ⟨s', r, hrefund, hundone⟩ := (hbooks.undone_iff mem_cons_self env').mpr hsender
    obtain ⟨recipient, hrecipient, hgives⟩ := hundone.givesBack
    refine ⟨call, s', r, recipient, hresponse, hrefund, hrecipient, hgives, ?_, ?_⟩
    · intro k
      have hbefore := hgrown k
      have hafter : s'.balance k + escrowedUnder k (Placed.mk o channelId path call).escrow =
          w'.state.balance k :=
        hundone.balance k
      omega
    · rw [hundone.frame]
      show ({ w'.state with channelBalanceV2 := s'.channelBalanceV2 } : State) = _
      rw [hframe]

/-- **A refund is the inverse of the verification of an order iff the sender of the order is an
    address**: right after the verification, and in every run of orders that are placed, refunded
    and filled. -/
theorem refund_inverts_iff (env env' : Env) :
    (∀ (info : MessageInfo) (channelId : ChannelId) (path : U256) (o : Order) (w w' : Walk),
      o.verify env info channelId path w = .ok w' →
        (Inverts env' channelId path o w w' ↔ env'.ValidAddr o.sender)) ∧
    ∀ (s : State) (l : OrderBook), Relation.ReflTransGen OrderBook.Step (start s) l →
      (∀ k, l.state.balance k = l.free k + escrowedUnder k (held l.placed)) ∧
      (∀ (env : Env), ∀ p ∈ l.placed,
        ((∃ s' r, p.order.refund env p.path p.channelId l.state = .ok (s', r) ∧ Undone p l.state s' r) ↔
          env.ValidAddr p.order.sender)) ∧
      ∀ (env : Env) (ps rest : List Placed), l.placed.Perm (ps ++ rest) →
        ((∃ s' rs, refundAll env ps l.state = .ok (s', rs) ∧ GiveBack ps rs ∧
            (∀ k, s'.balance k + escrowedUnder k (held ps) = l.state.balance k) ∧
            s' = { l.state with channelBalanceV2 := s'.channelBalanceV2 }) ↔
          ∀ p ∈ ps, env.ValidAddr p.order.sender) := by
  refine ⟨fun info channelId path o w w' h => inverts_iff h, ?_⟩
  intro s l hrun
  have hbooks := balanced_of_run hrun
  refine ⟨hbooks.balance, fun env p hp => hbooks.undone_iff hp env, ?_⟩
  intro env ps rest hperm
  exact hbooks.undone_all_iff env hperm

namespace Sample

/-- Before any order. -/
def emptyWalk : Walk := ⟨State.fresh, Coins.ofList [], []⟩

/-- A chain on which only alice has an address. -/
def aliceEnv : Env := { Env.ideal with validAddr := fun a => a == "alice" }

/-- An order of alice that names a sender without an address. -/
def strangerOrder : TokenOrderV2 := { sampleOrder with sender := utf8 "nobody" }

end Sample

open Sample in
theorem sample_order_inverted :
    ∃ w', (Order.v2 sampleOrder).verify aliceEnv ⟨"alice", []⟩ channelOne 0 emptyWalk = .ok w' ∧
      Inverts aliceEnv channelOne 0 (.v2 sampleOrder) emptyWalk w' := by
  refine ⟨_, rfl, ?_⟩
  apply ((refund_inverts_iff aliceEnv aliceEnv).1 ⟨"alice", []⟩ channelOne 0 (.v2 sampleOrder)
    emptyWalk _ rfl).mpr
  exact ⟨"alice", rfl, rfl⟩

open Sample in
/-- **An order whose sender is no address is escrowed and cannot be refunded.** -/
theorem stranger_not_refunded :
    ∃ w', (Order.v2 strangerOrder).verify aliceEnv ⟨"alice", []⟩ channelOne 0 emptyWalk = .ok w' ∧
      w'.state.balance ⟨channelOne, 0, "uatom", utf8 "wrapped/uatom"⟩ = 5 ∧
      (Order.v2 strangerOrder).refund aliceEnv 0 channelOne w'.state =
        .error (.err .unableToValidateSender) := by
  refine ⟨_, rfl, ?_, ?_⟩
  · decide
  · rfl

end UnionVoyager.Zkgm
