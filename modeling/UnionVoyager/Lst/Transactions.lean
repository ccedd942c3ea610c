import UnionVoyager.Lst.System
import UnionVoyager.Lst.Effect

/-!
# When a message succeeds together with all messages it leads to

For each call between the contracts, the exact condition under which it and everything below it goes
through, and the state it then ends in.

* `stake_eq_ok`, `rewards_eq_ok`, `staker_rebase_eq_ok`, `unstake_eq_ok` — the calls to and from the staker.
-/

namespace UnionVoyager.Lst

open Lib Function

/-- The contracts know each other, and the validators of the staker are validators of the chain. -/
structure Linked (w : World) : Prop where
  hub_staker : w.hub.stakerAddress = w.stakerAddr
  hub_lst : w.hub.lstAddress = w.lstAddr
  staker_hub : w.staker.lstHub = w.hubAddr
  minter : w.lst.minter = w.hubAddr
  denom : w.hub.config.nativeTokenDenom = w.chain.denom
  hub_ne_staker : w.hubAddr ≠ w.stakerAddr
  configured : ∀ e ∈ w.staker.validators.entries, e.1 ∈ w.chain.validatorSet

variable {stakerHash : Addr → H256} {w w' : World} {d : Nat}

/-- The same contracts on another chain. -/
def World.withChain (w : World) (c : Chain) : World := { w with chain := c }

section WithChain

variable (w : World) (c c' : Chain)

@[simp] theorem withChain_hubAddr : (w.withChain c).hubAddr = w.hubAddr := rfl
@[simp] theorem withChain_stakerAddr : (w.withChain c).stakerAddr = w.stakerAddr := rfl
@[simp] theorem withChain_lstAddr : (w.withChain c).lstAddr = w.lstAddr := rfl
@[simp] theorem withChain_hub : (w.withChain c).hub = w.hub := rfl
@[simp] theorem withChain_staker : (w.withChain c).staker = w.staker := rfl
@[simp] theorem withChain_lst : (w.withChain c).lst = w.lst := rfl
@[simp] theorem withChain_chain : (w.withChain c).chain = c := rfl
@[simp] theorem withChain_withChain : (w.withChain c).withChain c' = w.withChain c' := rfl

end WithChain

/-- The same system with other stores of the hub. -/
def World.withHub (w : World) (s : Hub) : World := { w with hub := s }

section WithHub

variable (w : World) (s s' : Hub) (c : Chain)

@[simp] theorem withHub_hub : (w.withHub s).hub = s := rfl

end WithHub

/-- The same system with another state of the token. -/
def World.withLst (w : World) (t : Cw20) : World := { w with lst := t }

section WithLst

variable (w : World) (t : Cw20)

end WithLst

variable {c : Chain}

theorem Linked.withChain (hw : Linked w) (hdenom : c.denom = w.chain.denom)
    (hset : c.validatorSet = w.chain.validatorSet) : Linked (w.withChain c) :=
  ⟨hw.hub_staker, hw.hub_lst, hw.staker_hub, hw.minter, hw.denom.trans hdenom.symm, hw.hub_ne_staker,
    fun e he => hset ▸ hw.configured e he⟩

theorem Linked.withHub (hw : Linked w) {s : Hub} (hstaker : s.stakerAddress = w.hub.stakerAddress)
    (hlst : s.lstAddress = w.hub.lstAddress)
    (hdenom : s.config.nativeTokenDenom = w.hub.config.nativeTokenDenom) : Linked (w.withHub s) :=
  ⟨hstaker.trans hw.hub_staker, hlst.trans hw.hub_lst, hw.staker_hub, hw.minter, hdenom.trans hw.denom,
    hw.hub_ne_staker, hw.configured⟩

theorem Linked.withLst (hw : Linked w) {t : Cw20} (hminter : t.minter = w.lst.minter) :
    Linked (w.withLst t) :=
  ⟨hw.hub_staker, hw.hub_lst, hw.staker_hub, hminter.trans hw.minter, hw.denom, hw.hub_ne_staker,
    hw.configured⟩

/-! ## Messages to the modules of the chain -/

def CosmosMsg.isWasm : CosmosMsg → Bool
  | .wasm .. => true
  | _ => false

variable {sender staker recipient : Addr}

theorem dispatch_native {m : CosmosMsg} (hm : m.isWasm = false) :
      dispatch stakerHash (d + 1) w sender m = .ok w' ↔
      ∃ c, w.chain.native w.stakerAddr sender m = .ok c ∧ w' = w.withChain c := by
  cases m with
  | wasm contract msg funds => cases hm
  | _ =>
    simp only [dispatch, bind_eq_ok, mapError_eq_ok, pure_eq_ok]
    constructor
    · rintro ⟨c, hc, rfl⟩
      exact ⟨c, hc, rfl⟩
    · rintro ⟨c, hc, rfl⟩
      exact ⟨c, hc, rfl⟩

theorem foldlM_native {msgs : List CosmosMsg} (hmsgs : ∀ m ∈ msgs, m.isWasm = false) :
    msgs.foldlM (fun w m => dispatch stakerHash (d + 1) w sender m) w = .ok w' ↔
      ∃ c, msgs.foldlM (fun c m => c.native w.stakerAddr sender m) w.chain = .ok c ∧ w' = w.withChain c := by
  induction msgs generalizing w with
  | nil =>
    simp only [List.foldlM_nil, pure_eq_ok]
    constructor
    · rintro rfl
      exact ⟨w.chain, rfl, rfl⟩
    · rintro ⟨c, rfl, rfl⟩
      rfl
  | cons m msgs ih =>
    obtain ⟨hm, hrest⟩ := List.forall_mem_cons.mp hmsgs
    simp only [List.foldlM_cons, bind_eq_ok, dispatch_native hm]
    constructor
    · rintro ⟨_, ⟨c, hc, rfl⟩, hfold⟩
      obtain ⟨c', hc', rfl⟩ := (ih hrest).mp hfold
      exact ⟨c', ⟨c, hc, hc'⟩, rfl⟩
    · rintro ⟨c', ⟨c, hc, hc'⟩, rfl⟩
      exact ⟨_, ⟨c, hc, rfl⟩, (ih hrest).mpr ⟨c', hc', rfl⟩⟩

section Native

variable (c : Chain) (staker : Addr)

theorem native_claims (vs : List String) :
    (vs.map CosmosMsg.withdrawDelegatorReward).foldlM (fun c m => c.native staker staker m) c =
      .ok (vs.foldl (fun c v => c.withdrawReward staker v) c) := by
  induction vs generalizing c with
  | nil => rfl
  | cons v vs ih =>
    rw [List.map_cons, List.foldlM_cons, List.foldl_cons, ← ih]
    simp [Chain.native, ensure, pure, Except.pure]

theorem native_delegates (denom : String) (parts : List (String × Nat)) :
    (parts.map fun p => CosmosMsg.delegate p.1 ⟨denom, p.2⟩).foldlM (fun c m => c.native staker staker m) c =
      parts.foldlM (fun c p => c.delegate staker p.1 p.2) c := by
  rw [List.foldlM_map]
  simp [Chain.native, ensure]

theorem native_undelegates (denom : String) (parts : List (String × Nat)) :
    (parts.map fun p => CosmosMsg.undelegate p.1 ⟨denom, p.2⟩).foldlM
      (fun c m => c.native staker staker m) c =
      parts.foldlM (fun c p => c.undelegate p.1 p.2) c := by
  rw [List.foldlM_map]
  simp [Chain.native, ensure]

end Native


theorem foldlM_claim (hstaker : w.stakerAddr = staker) :
    w.chain.claimMsgs.foldlM (fun w m => dispatch stakerHash (d + 1) w staker m) w = .ok w' ↔
      w' = w.withChain (w.chain.claim staker) := by
  subst hstaker
  have hnative : ∀ m ∈ w.chain.claimMsgs, m.isWasm = false := by
    intro m hm
    obtain ⟨v, -, rfl⟩ := List.mem_map.mp hm
    rfl
  rw [foldlM_native hnative, Chain.claimMsgs, native_claims, foldl_claim]
  simp only [Except.ok.injEq, exists_eq_left']

variable {parts : List (String × Nat)}

theorem foldlM_delegates (hstaker : w.stakerAddr = staker) {denom : String} :
    (parts.map fun p => CosmosMsg.delegate p.1 ⟨denom, p.2⟩).foldlM
      (fun w m => dispatch stakerHash (d + 1) w staker m) w = .ok w' ↔
    (∀ p ∈ parts, p.1 ∈ w.chain.validatorSet ∧ 0 < p.2) ∧ sumParts parts ≤ w.chain.bank staker ∧
      w' = w.withChain (w.chain.delegated staker parts) := by
  subst hstaker
  have hnative : ∀ m ∈ parts.map fun p => CosmosMsg.delegate p.1 ⟨denom, p.2⟩, m.isWasm = false := by
    intro m hm
    obtain ⟨p, -, rfl⟩ := List.mem_map.mp hm
    rfl
  simp only [foldlM_native hnative, native_delegates, delegateAll_eq_ok]
  constructor
  · rintro ⟨_, ⟨hall, hsum, rfl⟩, rfl⟩
    exact ⟨hall, hsum, rfl⟩
  · rintro ⟨hall, hsum, rfl⟩
    exact ⟨_, ⟨hall, hsum, rfl⟩, rfl⟩

theorem foldlM_undelegates (hstaker : w.stakerAddr = staker) {denom : String} :
    (parts.map fun p => CosmosMsg.undelegate p.1 ⟨denom, p.2⟩).foldlM
      (fun w m => dispatch stakerHash (d + 1) w staker m) w = .ok w' ↔
    (∀ p ∈ parts, 0 < p.2) ∧ (∀ v, partOf parts v ≤ w.chain.delegations v) ∧
      w' = w.withChain (w.chain.undelegated parts) := by
  subst hstaker
  have hnative : ∀ m ∈ parts.map fun p => CosmosMsg.undelegate p.1 ⟨denom, p.2⟩, m.isWasm = false := by
    intro m hm
    obtain ⟨p, -, rfl⟩ := List.mem_map.mp hm
    rfl
  simp only [foldlM_native hnative, native_undelegates, undelegateAll_eq_ok]
  constructor
  · rintro ⟨_, ⟨hall, hparts, rfl⟩, rfl⟩
    exact ⟨hall, hparts, rfl⟩
  · rintro ⟨hall, hparts, rfl⟩
    exact ⟨_, ⟨hall, hparts, rfl⟩, rfl⟩

/-! ## Parts for the validators -/

/-- The parts of an amount, all together. -/
def Validators.split (v : Validators) (amount : Nat) : List (String × Nat) :=
  v.entries.map fun e => (e.1, amount * e.2 / v.totalShares)

theorem mapM_eq_ok {ε α β : Type} {f : α → Except ε β} {g : α → β} : ∀ {l : List α} {bs : List β},
    (∀ a ∈ l, ∀ b, f a = .ok b ↔ b = g a) → (l.mapM f = .ok bs ↔ bs = l.map g)
  | [], bs, _ => by
    rw [List.mapM_nil, pure_eq_ok, List.map_nil]
    exact eq_comm
  | a :: l, bs, h => by
    obtain ⟨ha, hl⟩ := List.forall_mem_cons.mp h
    simp only [List.mapM_cons, bind_eq_ok, pure_eq_ok, ha, mapM_eq_ok hl, List.map_cons]
    constructor
    · rintro ⟨_, rfl, _, rfl, rfl⟩
      rfl
    · rintro rfl
      exact ⟨_, rfl, _, rfl, rfl⟩

theorem share_le (v : Validators) {e : String × Nat} (he : e ∈ v.entries) : e.2 ≤ v.totalShares :=
  List.le_sum_of_mem (List.mem_map_of_mem he)

theorem sumParts_split (v : Validators) (amount : Nat) :
    sumParts (v.split amount) = (splits amount (v.entries.map Prod.snd)).sum := by
  rw [sumParts, Validators.split, splits, List.map_map, List.map_map]
  rfl

theorem sumParts_split_le (v : Validators) (amount : Nat) : sumParts (v.split amount) ≤ amount := by
  rw [sumParts_split]
  exact splits_sum_le ..

/-- With shares that sum to zero there is nothing to divide by. -/
def Validators.Divisible (v : Validators) : Prop := v.entries = [] ∨ 0 < v.totalShares

/-- Every validator gets a part. -/
def Validators.Reached (v : Validators) (amount : Nat) : Prop := ∀ p ∈ v.split amount, 0 < p.2

variable {amount : Nat}

theorem Validators.Reached.divisible {v : Validators} (h : v.Reached amount) : v.Divisible := by
  by_contra hnot
  obtain ⟨hsome, hzero⟩ := not_or.mp hnot
  obtain ⟨e, he⟩ := List.exists_mem_of_ne_nil _ hsome
  have hpos := h _ (List.mem_map_of_mem he)
  rw [Nat.eq_zero_of_not_pos hzero, Nat.div_zero] at hpos
  exact Nat.lt_irrefl 0 hpos

theorem parts_eq_ok {v : Validators} (hamount : amount < 2 ^ 128) :
    v.parts amount = .ok parts ↔ v.Divisible ∧ parts = v.split amount := by
  rcases Nat.eq_zero_or_pos v.totalShares with hzero | hshares
  · have hdivisible : v.Divisible ↔ v.entries = [] := or_iff_left (by omega)
    rw [hdivisible]
    unfold Validators.parts Validators.split
    cases v.entries with
    | nil =>
      rw [List.mapM_nil, pure_eq_ok, List.map_nil]
      simp [eq_comm]
    | cons e es => simp [calculateValidatorDelegation, hzero]
  · rw [and_iff_right (.inr hshares)]
    apply mapM_eq_ok
    intro e he b
    have hle : amount * e.2 / v.totalShares ≤ amount :=
      Nat.div_le_of_le_mul (by rw [Nat.mul_comm v.totalShares]; exact Nat.mul_le_mul_left _ (share_le v he))
    simp only [calculateValidatorDelegation, bind_eq_ok, mapError_eq_ok, multiplyRatio_eq_ok, pure_eq_ok]
    constructor
    · rintro ⟨_, ⟨-, -, rfl⟩, rfl⟩
      rfl
    · rintro rfl
      exact ⟨_, ⟨hshares, hle.trans_lt hamount, rfl⟩, rfl⟩

theorem split_fst (v : Validators) (amount : Nat) : ∀ p ∈ v.split amount, ∃ e ∈ v.entries, p.1 = e.1 := by
  intro p hp
  obtain ⟨e, he, rfl⟩ := List.mem_map.mp hp
  exact ⟨e, he, rfl⟩

/-! ## What the staker answers -/

variable {funds : List Coin}

section Messages

variable {env : Env} {s : Staker} {c : Chain} {batch : BatchId → Option Batch} {info : MessageInfo}
  {msgs : List CosmosMsg}

theorem staker_sender {q : Querier} {msg : StakerExecuteMsg}
    (h : s.execute env q info msg = .ok msgs) : info.sender = s.lstHub := by
  simp only [Staker.execute, ensureLstHub, bind_eq_ok, ensure_eq_ok] at h
  obtain ⟨-, hsender, -⟩ := h
  exact hsender

theorem receiveUnstaked_messages {q : Querier} {batchId : BatchId}
    (h : s.execute env q info (.receiveUnstakedTokens batchId) = .ok msgs) :
    ∃ expected, msgs = [.wasm s.lstHub (.hub (.receiveUnstakedTokens batchId))
      [⟨q.nativeTokenDenom, expected⟩]] := by
  simp only [Staker.execute, ensureLstHub, Staker.receiveUnstakedTokens, bind_eq_ok, ensure_eq_ok,
    orErr_eq_ok] at h
  obtain ⟨-, -, batch, -, h⟩ := h
  cases batch with
  | submitted batch =>
    simp only [bind_eq_ok, pure_eq_ok] at h
    obtain ⟨-, -, rfl⟩ := h
    exact ⟨_, rfl⟩
  | pending | received => cases h

/-- The messages of a rebase. -/
def Staker.rebaseMsgs (s : Staker) (c : Chain) : List CosmosMsg :=
  c.claimMsgs ++ [.wasm s.lstHub (.hub .receiveRewards) [⟨c.denom, c.claimable⟩]]

variable {sender : Addr} (hsender : sender = s.lstHub)

include hsender

theorem stake_messages {a : Nat} :
    s.execute env ⟨c.denom, batch, c.delegatorRewards⟩ ⟨sender, [⟨c.denom, a⟩]⟩ .stake = .ok msgs ↔
      0 < a ∧ a + c.claimable < 2 ^ 128 ∧ s.validators.Divisible ∧ msgs =
        c.claimMsgs ++ (s.validators.split (a + c.claimable)).map fun p => .delegate p.1 ⟨c.denom, p.2⟩ := by
  subst hsender
  simp only [Staker.execute, ensureLstHub, Staker.stake, bind_eq_ok, ensure_eq_ok, mapError_eq_ok,
    mustPay_eq_ok, u128_eq_ok, pure_eq_ok, Prod.exists, withdrawAllRewards_eq_ok]
  constructor
  · rintro ⟨-, -, a', ⟨hpos, hf⟩, _, _, ⟨-, rfl, rfl⟩, _, ⟨hlt, rfl⟩, parts, hparts, rfl⟩
    obtain rfl : a = a' := by simpa using hf
    obtain ⟨hdivisible, rfl⟩ := (parts_eq_ok hlt).mp hparts
    exact ⟨hpos, hlt, hdivisible, rfl⟩
  · rintro ⟨hpos, hlt, hdivisible, rfl⟩
    exact ⟨(), trivial, a, ⟨hpos, rfl⟩, _, _, ⟨by omega, rfl, rfl⟩, _, ⟨hlt, rfl⟩, _,
      (parts_eq_ok hlt).mpr ⟨hdivisible, rfl⟩, rfl⟩

theorem rebase_messages : s.execute env ⟨c.denom, batch, c.delegatorRewards⟩ ⟨sender, funds⟩
      .rebase = .ok msgs ↔ c.claimable < 2 ^ 128 ∧ msgs = s.rebaseMsgs c := by
  subst hsender
  simp only [Staker.execute, ensureLstHub, Staker.rebase, bind_eq_ok, ensure_eq_ok, pure_eq_ok, Prod.exists,
    withdrawAllRewards_eq_ok]
  constructor
  · rintro ⟨-, -, _, _, ⟨hlt, rfl, rfl⟩, rfl⟩
    exact ⟨hlt, rfl⟩
  · rintro ⟨hlt, rfl⟩
    exact ⟨(), trivial, _, _, ⟨hlt, rfl, rfl⟩, rfl⟩

theorem unstake_messages {u : Nat} (hu : u < 2 ^ 128) :
    s.execute env ⟨c.denom, batch, c.delegatorRewards⟩ ⟨sender, funds⟩ (.unstake u) = .ok msgs ↔
      c.claimable < 2 ^ 128 ∧ s.validators.Divisible ∧
        msgs = s.rebaseMsgs c ++ (s.validators.split u).map fun p => .undelegate p.1 ⟨c.denom, p.2⟩ := by
  subst hsender
  simp only [Staker.execute, ensureLstHub, Staker.unstake, Staker.rebase, bind_eq_ok, ensure_eq_ok,
    pure_eq_ok, Prod.exists, withdrawAllRewards_eq_ok, parts_eq_ok hu]
  constructor
  · rintro ⟨-, -, _, ⟨_, _, ⟨hlt, rfl, rfl⟩, rfl⟩, _, ⟨hdivisible, rfl⟩, rfl⟩
    exact ⟨hlt, hdivisible, rfl⟩
  · rintro ⟨hlt, hdivisible, rfl⟩
    exact ⟨(), trivial, _, ⟨_, _, ⟨hlt, rfl, rfl⟩, rfl⟩, _, ⟨hdivisible, rfl⟩, rfl⟩

end Messages

/-! ## One call -/

/-- The funds of a message have arrived. -/
def World.received (w : World) (sender contract : Addr) (funds : List Coin) : World :=
  w.withChain (w.chain.moved sender contract (amountOf w.chain.denom funds))

section Calls

variable {sender contract : Addr} {funds : List Coin} {msgs : List CosmosMsg}

theorem dispatch_wasm {msg : WasmMsg} : dispatch stakerHash (d + 1) w sender
    (.wasm contract msg funds) = .ok w' ↔
    ∃ w₁ msgs, w.handle stakerHash sender contract msg funds = .ok (w₁, msgs) ∧
      msgs.foldlM (fun w m => dispatch stakerHash d w contract m) w₁ = .ok w' := by
  simp only [dispatch, bind_eq_ok, Prod.exists]

theorem pay_eq_ok {c' : Chain} :
    c.pay sender recipient amount = .ok c' ↔ amount ≤ c.bank sender ∧
      c' = c.moved sender recipient amount := by
  simp only [Chain.pay, bind_eq_ok, ensure_eq_ok, pure_eq_ok]
  constructor
  · rintro ⟨-, hle, rfl⟩
    exact ⟨hle, rfl⟩
  · rintro ⟨hle, rfl⟩
    exact ⟨(), hle, rfl⟩

theorem handle_hub {msg : ExecuteMsg} : w.handle stakerHash sender contract (.hub msg) funds = .ok
    (w', msgs) ↔ amountOf w.chain.denom funds ≤ w.chain.bank sender ∧ contract = w.hubAddr ∧ ∃ r,
      w.hub.execute stakerHash ⟨w.chain.now, contract⟩ w.chain.totalRewards ⟨sender, funds⟩ msg = .ok r ∧
      w' = (w.received sender contract funds).withHub r.hub ∧ msgs = r.messages := by
  simp only [World.handle, bind_eq_ok, mapError_eq_ok, pay_eq_ok, ensure_eq_ok, pure_eq_ok, Prod.mk.injEq]
  constructor
  · rintro ⟨_, ⟨hle, rfl⟩, -, hc, r, hr, rfl, rfl⟩
    exact ⟨hle, hc, r, hr, rfl, rfl⟩
  · rintro ⟨hle, hc, r, hr, rfl, rfl⟩
    exact ⟨_, ⟨hle, rfl⟩, (), hc, r, hr, rfl, rfl⟩

theorem handle_staker {msg : StakerExecuteMsg} :
    w.handle stakerHash sender contract (.staker msg) funds = .ok (w', msgs) ↔
      amountOf w.chain.denom funds ≤ w.chain.bank sender ∧ contract = w.stakerAddr ∧
        w.staker.execute ⟨w.chain.now, contract⟩ w.querier ⟨sender, funds⟩ msg = .ok msgs ∧
        w' = w.received sender contract funds := by
  simp only [World.handle, bind_eq_ok, mapError_eq_ok, pay_eq_ok, ensure_eq_ok, pure_eq_ok, Prod.mk.injEq]
  constructor
  · rintro ⟨_, ⟨hle, rfl⟩, -, hc, _, hr, rfl, rfl⟩
    exact ⟨hle, hc, hr, rfl⟩
  · rintro ⟨hle, hc, hr, rfl⟩
    exact ⟨_, ⟨hle, rfl⟩, (), hc, _, hr, rfl, rfl⟩

theorem handle_cw20 {msg : Cw20ExecuteMsg} : w.handle stakerHash sender contract
      (.cw20 msg) funds = .ok (w', msgs) ↔
      amountOf w.chain.denom funds ≤ w.chain.bank sender ∧ contract = w.lstAddr ∧ ∃ t,
        w.lst.execute sender msg = .ok t ∧ w' = (w.received sender contract funds).withLst t ∧ msgs = [] := by
  simp only [World.handle, bind_eq_ok, mapError_eq_ok, pay_eq_ok, ensure_eq_ok, pure_eq_ok, Prod.mk.injEq]
  constructor
  · rintro ⟨_, ⟨hle, rfl⟩, -, hc, t, ht, rfl, rfl⟩
    exact ⟨hle, hc, t, ht, rfl, rfl⟩
  · rintro ⟨hle, hc, t, ht, rfl, rfl⟩
    exact ⟨_, ⟨hle, rfl⟩, (), hc, t, ht, rfl, rfl⟩

end Calls

/-! ## To the staker and back -/

section Moves

variable (c : Chain) (a b : Addr) (n : Nat)

@[simp] theorem moved_denom : (c.moved a b n).denom = c.denom := rfl
@[simp] theorem moved_validatorSet : (c.moved a b n).validatorSet = c.validatorSet := rfl
@[simp] theorem moved_delegations : (c.moved a b n).delegations = c.delegations := rfl
@[simp] theorem moved_rewards : (c.moved a b n).rewards = c.rewards := rfl
@[simp] theorem moved_claimable : (c.moved a b n).claimable = c.claimable := rfl
@[simp] theorem claim_denom : (c.claim a).denom = c.denom := rfl
@[simp] theorem claim_validatorSet : (c.claim a).validatorSet = c.validatorSet := rfl
@[simp] theorem claim_delegations : (c.claim a).delegations = c.delegations := rfl
@[simp] theorem claim_bank : (c.claim a).bank = update c.bank a (c.bank a + c.claimable) := rfl

theorem moved_bank : (c.moved a b n).bank =
    update (update c.bank a (c.bank a - n)) b (update c.bank a (c.bank a - n) b + n) := rfl

theorem moved_zero : c.moved a b 0 = c := by
  simp [Chain.moved]

theorem moved_recipient {a b : Addr} (h : a ≠ b) : (c.moved a b n).bank b = c.bank b + n := by
  rw [moved_bank, update_self, update_of_ne h.symm]

theorem le_moved_bank : n ≤ (c.moved a b n).bank b := by
  rw [moved_bank, update_self]
  omega

end Moves

/-- `amount` comes from the hub, and is staked with all rewards. -/
def World.staked (w : World) (amount : Nat) : World :=
  w.withChain (((w.chain.moved w.hubAddr w.stakerAddr amount).claim w.stakerAddr).delegated w.stakerAddr
    (w.staker.validators.split (amount + w.chain.claimable)))

/-- When the staker can stake `amount` for the hub. -/
structure World.Stakeable (w : World) (amount : Nat) : Prop where
  positive : 0 < amount
  funds : amount ≤ w.chain.bank w.hubAddr
  fits : amount + w.chain.claimable < 2 ^ 128
  reached : w.staker.validators.Reached (amount + w.chain.claimable)

theorem Linked.querier (hw : Linked w) : w.querier =
      ⟨w.chain.denom, w.hub.queryBatch, w.chain.delegatorRewards⟩ := by
  rw [World.querier, hw.denom]

theorem Linked.split_known (hw : Linked w) (amount : Nat) :
    ∀ p ∈ w.staker.validators.split amount, p.1 ∈ w.chain.validatorSet := by
  intro p hp
  obtain ⟨e, he, heq⟩ := split_fst _ _ p hp
  exact heq ▸ hw.configured e he

theorem stake_eq_ok (hw : Linked w) : dispatch stakerHash (d + 2) w w.hubAddr
    (.wasm w.stakerAddr (.staker .stake) [⟨w.chain.denom, amount⟩]) = .ok w' ↔
      w.Stakeable amount ∧ w' = w.staked amount := by
  have hsum : sumParts (w.staker.validators.split (amount + w.chain.claimable)) ≤
      ((w.chain.moved w.hubAddr w.stakerAddr amount).claim w.stakerAddr).bank w.stakerAddr := by
    rw [claim_bank, update_self, moved_recipient _ _ hw.hub_ne_staker, moved_claimable]
    have hle := sumParts_split_le w.staker.validators (amount + w.chain.claimable)
    omega
  simp only [dispatch_wasm, handle_staker, hw.querier, amountOf_singleton, stake_messages hw.staker_hub.symm]
  constructor
  · rintro ⟨_, _, ⟨hfunds, -, ⟨hpos, hfits, -, rfl⟩, rfl⟩, hrun⟩
    rw [List.foldlM_append, bind_eq_ok] at hrun
    obtain ⟨_, hclaim, hrun⟩ := hrun
    obtain rfl := (foldlM_claim (by rfl)).mp hclaim
    obtain ⟨hall, -, rfl⟩ := (foldlM_delegates (by rfl)).mp hrun
    exact ⟨⟨hpos, hfunds, hfits, fun p hp => (hall p hp).2⟩, by simp [World.received, World.staked]⟩
  · rintro ⟨⟨hpos, hfunds, hfits, hreached⟩, rfl⟩
    refine ⟨_, _, ⟨hfunds, trivial, ⟨hpos, hfits, hreached.divisible, rfl⟩, rfl⟩, ?_⟩
    rw [List.foldlM_append, bind_eq_ok]
    refine ⟨_, (foldlM_claim (by rfl)).mpr rfl, (foldlM_delegates (by rfl)).mpr ⟨?_, ?_, ?_⟩⟩
    · exact fun p hp => ⟨hw.split_known _ p hp, hreached p hp⟩
    · simpa [World.received] using hsum
    · simp [World.received, World.staked]

theorem send_eq_ok {c' : Chain} : c.send sender recipient [⟨c.denom, amount⟩] = .ok c' ↔
      0 < amount ∧ amount ≤ c.bank sender ∧ c' = c.moved sender recipient amount := by
  simp only [Chain.send, bind_eq_ok, ensure_eq_ok, pay_eq_ok, amountOf_singleton]
  constructor
  · rintro ⟨-, ⟨-, hpos⟩, hle, rfl⟩
    exact ⟨hpos _ (List.mem_singleton_self _), hle, rfl⟩
  · rintro ⟨hpos, hle, rfl⟩
    exact ⟨(), ⟨List.cons_ne_nil _ _, by simpa using hpos⟩, hle, rfl⟩

@[simp] theorem received_coin (w : World) (sender contract : Addr) (amount : Nat) :
    w.received sender contract [⟨w.chain.denom, amount⟩] =
      w.withChain (w.chain.moved sender contract amount) := by
  rw [World.received, amountOf_singleton]

@[simp] theorem received_nil (w : World) (sender contract : Addr) : w.received sender contract [] = w := by
  rw [World.received, amountOf_nil, moved_zero]
  rfl

/-- The hub has counted rewards that `sender` paid. -/
def World.credited (w : World) (sender : Addr) (rewards : Nat) : World :=
  (w.withChain (w.chain.moved sender w.hubAddr rewards)).withHub (w.hub.afterRewards rewards)

/-- The hub receives rewards from `sender`, stakes them but for the fee, and pays the fee. -/
def World.rewarded (w : World) (sender : Addr) (rewards : Nat) : World :=
  let w₁ := (w.credited sender rewards).staked (rewards - w.hub.protocolFee rewards)
  w₁.withChain (w₁.chain.moved w.hubAddr w.hub.protocolFeeConfig.feeRecipient (w.hub.protocolFee rewards))

/-- When the hub accepts rewards and can stake them.  A fee of zero is refused, and so is one that
    leaves nothing. -/
structure World.Rewardable (w : World) (sender : Addr) (rewards : Nat) : Prop where
  running : w.hub.stopped = false
  funds : rewards ≤ w.chain.bank sender
  fee_pos : 0 < w.hub.protocolFee rewards
  fee_lt : w.hub.protocolFee rewards < rewards
  issued : w.hub.accountingState.totalIssuedLst ≠ 0
  bonded : w.hub.accountingState.totalBondedNativeTokens + (rewards - w.hub.protocolFee rewards) < 2 ^ 128
  total : w.hub.accountingState.totalRewardAmount + rewards < 2 ^ 128
  fits : rewards - w.hub.protocolFee rewards + w.chain.claimable < 2 ^ 128
  reached : w.staker.validators.Reached (rewards - w.hub.protocolFee rewards + w.chain.claimable)

theorem Linked.credited (hw : Linked w) (sender : Addr) (rewards : Nat) :
    Linked (w.credited sender rewards) :=
  (hw.withChain (c := w.chain.moved sender w.hubAddr rewards) rfl rfl).withHub
    (s := w.hub.afterRewards rewards) rfl rfl rfl

theorem staked_bank_hub (hw : Linked w) (amount : Nat) :
    (w.staked amount).chain.bank w.hubAddr = w.chain.bank w.hubAddr - amount := by
  simp only [World.staked, withChain_chain, Chain.delegated, claim_bank,
    update_of_ne hw.hub_ne_staker, moved_bank, update_self]

theorem fee_eq_ok {fee : Nat} :
    dispatch stakerHash (d + 1) w sender (.bankSend recipient [⟨w.chain.denom, fee⟩]) = .ok w' ↔
      0 < fee ∧ fee ≤ w.chain.bank sender ∧ w' = w.withChain (w.chain.moved sender recipient fee) := by
  rw [dispatch_native (m := .bankSend recipient [⟨w.chain.denom, fee⟩]) rfl]
  simp only [Chain.native, send_eq_ok]
  constructor
  · rintro ⟨_, ⟨hpos, hle, rfl⟩, rfl⟩
    exact ⟨hpos, hle, rfl⟩
  · rintro ⟨hpos, hle, rfl⟩
    exact ⟨_, ⟨hpos, hle, rfl⟩, rfl⟩

theorem restake_eq_ok (hw : Linked w) {rewards : Nat} :
    [CosmosMsg.wasm w.stakerAddr (.staker .stake) [⟨w.chain.denom, rewards - w.hub.protocolFee rewards⟩],
      .bankSend w.hub.protocolFeeConfig.feeRecipient [⟨w.chain.denom, w.hub.protocolFee rewards⟩]].foldlM
        (fun w₁ m => dispatch stakerHash (d + 2) w₁ w.hubAddr m) (w.credited sender rewards) = .ok w' ↔
      (w.credited sender rewards).Stakeable (rewards - w.hub.protocolFee rewards) ∧
        0 < w.hub.protocolFee rewards ∧ w' = w.rewarded sender rewards := by
  have hstake {w' : World} : dispatch stakerHash (d + 2) (w.credited sender rewards) w.hubAddr
      (.wasm w.stakerAddr (.staker .stake) [⟨w.chain.denom, rewards - w.hub.protocolFee rewards⟩]) =
        .ok w' ↔ _ :=
    stake_eq_ok (hw.credited sender rewards)
  have hfee {w' : World} : dispatch stakerHash (d + 2) ((w.credited sender rewards).staked _) w.hubAddr
      (.bankSend w.hub.protocolFeeConfig.feeRecipient [⟨w.chain.denom, w.hub.protocolFee rewards⟩])
        = .ok w' ↔ _ :=
    fee_eq_ok (w := (w.credited sender rewards).staked (rewards - w.hub.protocolFee rewards))
  have hbank : ((w.credited sender rewards).staked (rewards - w.hub.protocolFee rewards)).chain.bank
      w.hubAddr = _ :=
    staked_bank_hub (hw.credited sender rewards) _
  have hrecv : rewards ≤ (w.credited sender rewards).chain.bank w.hubAddr := le_moved_bank ..
  simp only [List.foldlM_cons, List.foldlM_nil, bind_eq_ok, pure_eq_ok]
  constructor
  · rintro ⟨_, hfirst, _, hsecond, rfl⟩
    obtain ⟨hstakeable, rfl⟩ := hstake.mp hfirst
    obtain ⟨hpos, -, rfl⟩ := hfee.mp hsecond
    exact ⟨hstakeable, hpos, rfl⟩
  · rintro ⟨hstakeable, hpos, rfl⟩
    refine ⟨_, hstake.mpr ⟨hstakeable, rfl⟩, _, hfee.mpr ⟨hpos, ?_, rfl⟩, rfl⟩
    rw [hbank]
    have hrest := hstakeable.positive
    change _ ≤ (w.credited sender rewards).chain.bank w.hubAddr - _
    omega

theorem rewards_eq_ok (hw : Linked w) :
    dispatch stakerHash (d + 3) w sender (.wasm w.hubAddr (.hub .receiveRewards) funds) = .ok w' ↔
      ∃ rewards, funds = [⟨w.chain.denom, rewards⟩] ∧ w.Rewardable sender rewards ∧
        w' = w.rewarded sender rewards := by
  simp only [dispatch_wasm, handle_hub, Hub.execute, receiveRewards_eq_ok, hw.denom, hw.hub_staker]
  constructor
  · rintro ⟨_, _, ⟨hfunds, -, _, ⟨hs, rewards, -, rfl, -, -, -, hissued, hb, ht, rfl⟩, rfl, rfl⟩, hrun⟩
    rw [received_coin] at hrun
    obtain ⟨hstakeable, hfee, rfl⟩ := (restake_eq_ok hw).mp hrun
    have hpos := hstakeable.positive
    exact ⟨rewards, rfl, ⟨hs, by simpa using hfunds, hfee, by omega, hissued, hb, ht, hstakeable.fits,
      hstakeable.reached⟩, rfl⟩
  · rintro ⟨rewards, rfl, h, rfl⟩
    have hrecv : rewards ≤ (w.credited sender rewards).chain.bank w.hubAddr := le_moved_bank ..
    have hlt := h.fee_lt
    have htotal := h.total
    refine ⟨_, _,
      ⟨by simpa using h.funds, trivial, _, ⟨h.running, rewards, by omega, rfl, by omega, h.fee_pos.ne',
      hlt.le, h.issued, h.bonded, htotal, rfl⟩, rfl, rfl⟩, ?_⟩
    rw [received_coin]
    exact (restake_eq_ok hw).mpr ⟨⟨by omega, (Nat.sub_le ..).trans hrecv, h.fits, h.reached⟩, h.fee_pos, rfl⟩

/-- All rewards are with the staker. -/
def World.claimed (w : World) : World := w.withChain (w.chain.claim w.stakerAddr)

/-- The staker has claimed all rewards and sent them through the hub. -/
def World.rebased (w : World) : World := w.claimed.rewarded w.stakerAddr w.chain.claimable

theorem Linked.claimed (hw : Linked w) : Linked w.claimed := hw.withChain rfl rfl

@[simp] theorem claim_claimable (c : Chain) (a : Addr) : (c.claim a).claimable = 0 := by
  apply List.sum_eq_zero
  intro n hn
  obtain ⟨v, hv, rfl⟩ := List.mem_map.mp hn
  have hzero : (c.claim a).rewards v = 0 := if_pos hv
  rw [hzero, Nat.zero_div]

theorem foldlM_rebase (hw : Linked w) : (w.staker.rebaseMsgs w.chain).foldlM
    (fun w₁ m => dispatch stakerHash (d + 3) w₁ w.stakerAddr m) w = .ok w' ↔
      w.claimed.Rewardable w.stakerAddr w.chain.claimable ∧ w' = w.rebased := by
  have hrewards {w' : World} : dispatch stakerHash (d + 3) w.claimed w.stakerAddr
      (.wasm w.hubAddr (.hub .receiveRewards) [⟨w.chain.denom, w.chain.claimable⟩]) = .ok w' ↔ _ :=
    rewards_eq_ok hw.claimed
  rw [Staker.rebaseMsgs, List.foldlM_append, bind_eq_ok]
  simp only [foldlM_claim rfl, exists_eq_left, List.foldlM_cons, List.foldlM_nil, bind_eq_ok, pure_eq_ok,
    exists_eq_right, hw.staker_hub]
  refine hrewards.trans ⟨?_, fun h => ⟨_, rfl, h⟩⟩
  rintro ⟨rewards, hcoin, h, rfl⟩
  obtain ⟨-, rfl⟩ : _ ∧ w.chain.claimable = rewards := by simpa using hcoin
  exact ⟨h, rfl⟩

theorem staker_rebase_eq_ok (hw : Linked w) :
    dispatch stakerHash (d + 4) w w.hubAddr (.wasm w.stakerAddr (.staker .rebase) []) = .ok w' ↔
      w.claimed.Rewardable w.stakerAddr w.chain.claimable ∧ w' = w.rebased := by
  simp only [dispatch_wasm, handle_staker, hw.querier, amountOf_nil,
    rebase_messages hw.staker_hub.symm, received_nil]
  constructor
  · rintro ⟨_, _, ⟨-, -, ⟨-, rfl⟩, rfl⟩, hrun⟩
    exact (foldlM_rebase hw).mp hrun
  · rintro ⟨h, rfl⟩
    have htotal := h.total
    exact ⟨_, _, ⟨Nat.zero_le _, trivial, ⟨by omega, rfl⟩, rfl⟩, (foldlM_rebase hw).mpr ⟨h, rfl⟩⟩

/-- The staker has claimed all rewards, sent them through the hub, and unstaked `amount`. -/
def World.unstaked (w : World) (amount : Nat) : World :=
  w.rebased.withChain (w.rebased.chain.undelegated (w.staker.validators.split amount))

/-- When the staker can unstake `amount` for the hub. -/
structure World.Unstakeable (w : World) (amount : Nat) : Prop where
  rewardable : w.claimed.Rewardable w.stakerAddr w.chain.claimable
  reached : w.staker.validators.Reached amount
  delegated : ∀ v, partOf (w.staker.validators.split amount) v ≤ w.rebased.chain.delegations v

theorem unstake_eq_ok (hw : Linked w) (hamount : amount < 2 ^ 128) :
    dispatch stakerHash (d + 4) w w.hubAddr (.wasm w.stakerAddr (.staker (.unstake amount)) []) = .ok w' ↔
      w.Unstakeable amount ∧ w' = w.unstaked amount := by
  simp only [dispatch_wasm, handle_staker, hw.querier, amountOf_nil,
    unstake_messages hw.staker_hub.symm hamount, received_nil]
  constructor
  · rintro ⟨_, _, ⟨-, -, ⟨-, -, rfl⟩, rfl⟩, hrun⟩
    rw [List.foldlM_append, bind_eq_ok] at hrun
    obtain ⟨_, hrebase, hrun⟩ := hrun
    obtain ⟨hreward, rfl⟩ := (foldlM_rebase hw).mp hrebase
    obtain ⟨hreached, hdelegated, rfl⟩ := (foldlM_undelegates (by rfl)).mp hrun
    exact ⟨⟨hreward, hreached, hdelegated⟩, rfl⟩
  · rintro ⟨h, rfl⟩
    have htotal := h.rewardable.total
    refine ⟨_, _, ⟨Nat.zero_le _, trivial, ⟨by omega, h.reached.divisible, rfl⟩, rfl⟩, ?_⟩
    rw [List.foldlM_append, bind_eq_ok]
    exact ⟨_, (foldlM_rebase hw).mpr ⟨h.rewardable, rfl⟩,
      (foldlM_undelegates (by rfl)).mpr ⟨h.reached, h.delegated, rfl⟩⟩

end UnionVoyager.Lst
