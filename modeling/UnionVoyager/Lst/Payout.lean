import UnionVoyager.Lst.Transactions
import UnionVoyager.Lib.Machine

/-!
# Can the staker pay?

The staker with its account and its delegations, called by the hub in any order: to stake, to unstake and to
pay for a batch.  What the hub does with rewards that it is sent during an unstaking is arbitrary.
-/

namespace UnionVoyager.Lst

open Lib Function List

structure Till where
  self : Addr
  staker : Staker
  chain : Chain
  /-- The amounts split to be delegated, and to be undelegated. -/
  stakes : List Nat
  unstakes : List Nat
  owed : List SubmittedBatch
  /-- What came without a call. -/
  given : Nat

def Till.querier (t : Till) (batch : Option SubmittedBatch) : Querier :=
  ⟨t.chain.denom, fun _ => batch.map .submitted, t.chain.delegatorRewards⟩

/-- The account of the staker with `amount` more, or less. -/
def Till.take (t : Till) (amount : Nat) : Till :=
  { t with chain := { t.chain with bank := update t.chain.bank t.self (t.chain.bank t.self + amount) } }

def Till.give (t : Till) (amount : Nat) : TxResult Till := do
  (ensure (amount ≤ t.chain.bank t.self) HostError.insufficientFunds).mapError .host
  return { t with chain :=
    { t.chain with bank := update t.chain.bank t.self (t.chain.bank t.self - amount) } }

/-- The staker handles a message of the hub. -/
def Till.execute (t : Till) (batch : Option SubmittedBatch) (funds : List Coin)
    (msg : StakerExecuteMsg) : TxResult (List CosmosMsg) :=
  (t.staker.execute ⟨t.chain.now, t.self⟩ (t.querier batch) ⟨t.staker.lstHub, funds⟩ msg).mapError .staker

def Till.native (t : Till) (m : CosmosMsg) : TxResult Till := do
  let chain ← (t.chain.native t.self t.self m).mapError .host
  return { t with chain }

/-- The hub stakes `amount`. -/
def Till.stake (t : Till) (amount : Nat) : TxResult Till := do
  let t := t.take amount
  let msgs ← t.execute none [⟨t.chain.denom, amount⟩] .stake
  let t' ← msgs.foldlM Till.native t
  return { t' with stakes := t.stakes ++ [amount + t.chain.claimable] }

/-- A message of the staker.  When the hub is sent rewards, it may stake some of them. -/
def Till.deliver (restake : Nat) (t : Till) : CosmosMsg → TxResult Till
  | .wasm _ _ funds => do
    let t ← t.give (amountOf t.chain.denom funds)
    if restake = 0 then return t else t.stake restake
  | m => t.native m

/-- The staker claims all rewards and sends them to the hub. -/
def Till.rebase (t : Till) (restake : Nat) : TxResult Till := do
  let msgs ← t.execute none [] .rebase
  msgs.foldlM (Till.deliver restake) t

/-- The hub submits a batch that is worth `amount`, a `Uint128`. -/
def Till.unstake (t : Till) (amount restake receiveTime : Nat) : TxResult Till := do
  ensure (amount < 2 ^ 128) (.staker .std)
  let msgs ← t.execute none [] (.unstake amount)
  let t ← msgs.foldlM (Till.deliver restake) t
  return { t with unstakes := t.unstakes ++ [amount], owed := t.owed ++ [⟨0, 0, receiveTime, amount⟩] }

/-- The hub asks for what a batch is owed. -/
def Till.pay (t : Till) (i : Nat) : TxResult Till := do
  let msgs ← t.execute t.owed[i]? [] (.receiveUnstakedTokens i)
  let t ← msgs.foldlM (Till.deliver 0) t
  return { t with owed := t.owed.eraseIdx i }

/-- What happens to the staker. -/
inductive Till.Call where
  | stake (amount : Nat)
  | unstake (amount restake receiveTime : Nat)
  | pay (i : Nat)
  | accrue (validator : String) (atomics : Nat)
  | block (now : Nat)
  | gift (amount : Nat)

/-- A call that fails changes nothing. -/
def Till.attempt (t : Till) : TxResult Till → Till
  | .ok t' => t'
  | .error _ => t

def Till.step (t : Till) : Till.Call → Till × List Unit
  | .stake amount => (t.attempt (t.stake amount), [])
  | .unstake amount restake receiveTime => (t.attempt (t.unstake amount restake receiveTime), [])
  | .pay i => (t.attempt (t.pay i), [])
  | .accrue v atomics => ({ t with chain := t.chain.accrue v atomics }, [])
  | .block now => (if t.chain.now ≤ now then { t with chain := t.chain.block t.self now } else t, [])
  | .gift amount => ({ t.take amount with given := t.given + amount }, [])

variable {t t' : Till} {restake : Nat}

/-! ## What a call does -/

def Till.withChain (t : Till) (c : Chain) : Till := { t with chain := c }

section WithChain

variable (t : Till) (c : Chain)

@[simp] theorem till_withChain_self : (t.withChain c).self = t.self := rfl
@[simp] theorem till_withChain_staker : (t.withChain c).staker = t.staker := rfl
@[simp] theorem till_withChain_chain : (t.withChain c).chain = c := rfl
@[simp] theorem till_withChain_stakes : (t.withChain c).stakes = t.stakes := rfl
@[simp] theorem till_withChain_unstakes : (t.withChain c).unstakes = t.unstakes := rfl
@[simp] theorem till_withChain_owed : (t.withChain c).owed = t.owed := rfl
@[simp] theorem till_withChain_given : (t.withChain c).given = t.given := rfl

end WithChain

theorem native_eq_ok {m : CosmosMsg} :
    t.native m = .ok t' ↔ ∃ c, t.chain.native t.self t.self m = .ok c ∧ t' = t.withChain c := by
  simp only [Till.native, bind_eq_ok, mapError_eq_ok, pure_eq_ok]
  constructor
  · rintro ⟨c, hc, rfl⟩
    exact ⟨c, hc, rfl⟩
  · rintro ⟨c, hc, rfl⟩
    exact ⟨c, hc, rfl⟩

theorem foldlM_till_native {msgs : List CosmosMsg} : msgs.foldlM Till.native t = .ok t' ↔
    ∃ c, msgs.foldlM (fun c m => c.native t.self t.self m) t.chain = .ok c ∧ t' = t.withChain c := by
  induction msgs generalizing t with
  | nil =>
    simp only [foldlM_nil, pure_eq_ok]
    constructor
    · rintro rfl
      exact ⟨t.chain, rfl, rfl⟩
    · rintro ⟨c, rfl, rfl⟩
      rfl
  | cons m msgs ih =>
    simp only [foldlM_cons, bind_eq_ok, native_eq_ok]
    constructor
    · rintro ⟨_, ⟨c, hc, rfl⟩, hfold⟩
      obtain ⟨c', hc', rfl⟩ := ih.mp hfold
      exact ⟨c', ⟨c, hc, hc'⟩, rfl⟩
    · rintro ⟨c', ⟨c, hc, hc'⟩, rfl⟩
      exact ⟨_, ⟨c, hc, rfl⟩, ih.mpr ⟨c', hc', rfl⟩⟩

theorem foldlM_deliver {msgs : List CosmosMsg} (hmsgs : ∀ m ∈ msgs, m.isWasm = false) :
    msgs.foldlM (Till.deliver restake) t = msgs.foldlM Till.native t := by
  induction msgs generalizing t with
  | nil => rfl
  | cons m msgs ih =>
    obtain ⟨hm, hrest⟩ := List.forall_mem_cons.mp hmsgs
    have hdeliver : Till.deliver restake t m = t.native m := by
      cases m with
      | wasm contract msg funds => cases hm
      | _ => rfl
    rw [foldlM_cons, foldlM_cons, hdeliver]
    congr 1
    funext t
    exact ih hrest

theorem claimMsgs_native (c : Chain) : ∀ m ∈ c.claimMsgs, m.isWasm = false := by
  intro m hm
  obtain ⟨v, -, rfl⟩ := List.mem_map.mp hm
  rfl

theorem undelegates_native (denom : String) (parts : List (String × Nat)) :
    ∀ m ∈ parts.map fun p => CosmosMsg.undelegate p.1 ⟨denom, p.2⟩, m.isWasm = false := by
  intro m hm
  obtain ⟨p, -, rfl⟩ := List.mem_map.mp hm
  rfl

theorem till_stake_run {amount : Nat} (h : t.stake amount = .ok t') :
    sumParts (t.staker.validators.split (amount + t.chain.claimable)) ≤
        t.chain.bank t.self + amount + t.chain.claimable ∧
      t' = { t with
        chain := (((t.take amount).chain.claim t.self).delegated t.self
          (t.staker.validators.split (amount + t.chain.claimable)))
        stakes := t.stakes ++ [amount + t.chain.claimable] } := by
  have hmessages {msgs : List CosmosMsg} : (t.take amount).execute none [⟨t.chain.denom, amount⟩]
      .stake = .ok msgs ↔ _ :=
    mapError_eq_ok.trans (stake_messages (c := (t.take amount).chain) rfl)
  simp only [Till.stake, bind_eq_ok, pure_eq_ok] at h
  obtain ⟨msgs, hmsgs, t₁, hrun, rfl⟩ := h
  obtain ⟨-, -, -, rfl⟩ := hmessages.mp hmsgs
  rw [foldlM_till_native] at hrun
  obtain ⟨_, hrun, rfl⟩ := hrun
  rw [foldlM_append, bind_eq_ok] at hrun
  obtain ⟨_, hclaim, hrun⟩ := hrun
  have hclaimed := (native_claims (t.take amount).chain t.self _).symm.trans hclaim
  rw [foldl_claim, Except.ok.injEq] at hclaimed
  subst hclaimed
  have hdelegates := (native_delegates ((t.take amount).chain.claim t.self) t.self ..).symm.trans hrun
  obtain ⟨-, hsum, rfl⟩ := (delegateAll_eq_ok _).mp hdelegates
  refine ⟨?_, rfl⟩
  have hbank : ((t.take amount).chain.claim t.self).bank t.self = t.chain.bank t.self + amount +
      t.chain.claimable := by
    rw [claim_bank, update_self]
    exact congrArg (· + t.chain.claimable) (update_self ..)
  rw [hbank] at hsum
  exact hsum

/-- The rewards were claimed and sent on. -/
def Till.passed (t : Till) : Till :=
  t.withChain { t.chain.claim t.self with
    bank := update (t.chain.claim t.self).bank t.self
      ((t.chain.claim t.self).bank t.self - t.chain.claimable) }

theorem till_rebase_run (h : t.rebase restake = .ok t') :
    (restake = 0 ∧ t' = t.passed) ∨ t.passed.stake restake = .ok t' := by
  have hmessages {msgs : List CosmosMsg} : t.execute none [] .rebase = .ok msgs ↔ _ :=
    mapError_eq_ok.trans (rebase_messages (c := t.chain) rfl)
  simp only [Till.rebase, bind_eq_ok] at h
  obtain ⟨msgs, hmsgs, hrun⟩ := h
  obtain ⟨-, rfl⟩ := hmessages.mp hmsgs
  rw [Staker.rebaseMsgs, foldlM_append, bind_eq_ok] at hrun
  obtain ⟨t₁, hclaim, hrun⟩ := hrun
  rw [foldlM_deliver (claimMsgs_native _), foldlM_till_native] at hclaim
  obtain ⟨c, hc, rfl⟩ := hclaim
  have hclaimed := (native_claims t.chain t.self _).symm.trans hc
  rw [foldl_claim, Except.ok.injEq] at hclaimed
  subst hclaimed
  simp only [foldlM_cons, foldlM_nil, bind_eq_ok, pure_eq_ok, Till.deliver, Till.give, mapError_eq_ok,
    ensure_eq_ok, till_withChain_chain, claim_denom, amountOf_singleton] at hrun
  obtain ⟨t₂, ⟨_, ⟨-, -, rfl⟩, hhub⟩, rfl⟩ := hrun
  split at hhub
  · rename_i hzero
    rw [pure_eq_ok] at hhub
    exact .inl ⟨hzero, hhub.symm⟩
  · exact .inr hhub

theorem till_unstake_run {amount receiveTime : Nat} (h : t.unstake amount restake receiveTime = .ok t') :
    ∃ t₁, t.rebase restake = .ok t₁ ∧
      (∀ v, partOf (t.staker.validators.split amount) v ≤ t₁.chain.delegations v) ∧
      t' = { t₁ with
        chain := t₁.chain.undelegated (t.staker.validators.split amount)
        unstakes := t₁.unstakes ++ [amount]
        owed := t₁.owed ++ [⟨0, 0, receiveTime, amount⟩] } := by
  simp only [Till.unstake, bind_eq_ok, ensure_eq_ok, pure_eq_ok] at h
  obtain ⟨-, hamount, msgs, hmsgs, t₂, hrun, rfl⟩ := h
  have hmessages {msgs : List CosmosMsg} : t.execute none [] (.unstake amount) = .ok msgs ↔ _ :=
    mapError_eq_ok.trans (unstake_messages (c := t.chain) rfl hamount)
  obtain ⟨hclaimable, -, rfl⟩ := hmessages.mp hmsgs
  rw [foldlM_append, bind_eq_ok] at hrun
  obtain ⟨t₁, hrebase, hrun⟩ := hrun
  rw [foldlM_deliver (undelegates_native _ _), foldlM_till_native] at hrun
  obtain ⟨c, hc, rfl⟩ := hrun
  have hundelegates := (native_undelegates t₁.chain t₁.self ..).symm.trans hc
  obtain ⟨-, hparts, rfl⟩ := (undelegateAll_eq_ok _).mp hundelegates
  refine ⟨t₁, ?_, hparts, rfl⟩
  have hmsgs' : t.execute none [] .rebase = .ok (t.staker.rebaseMsgs t.chain) :=
    (mapError_eq_ok.trans (rebase_messages (c := t.chain) rfl)).mpr ⟨hclaimable, rfl⟩
  rw [Till.rebase, hmsgs']
  exact hrebase

theorem till_pay_run {i : Nat} (h : t.pay i = .ok t') : ∃ batch, t.owed[i]? = some batch ∧
    batch.expectedNativeUnstaked ≤ t.chain.bank t.self ∧
    t' = { t with
      chain := { t.chain with
        bank := update t.chain.bank t.self (t.chain.bank t.self - batch.expectedNativeUnstaked) }
      owed := t.owed.eraseIdx i } := by
  simp only [Till.pay, Till.execute, Staker.execute, ensureLstHub, Staker.receiveUnstakedTokens, Till.querier,
    bind_eq_ok, mapError_eq_ok, ensure_eq_ok, orErr_eq_ok, pure_eq_ok] at h
  obtain ⟨msgs, ⟨-, -, batch, hbatch, hmsgs⟩, t₁, hrun, rfl⟩ := h
  obtain ⟨submitted, howed, rfl⟩ := Option.map_eq_some_iff.mp hbatch
  simp only [bind_eq_ok, ensure_eq_ok, pure_eq_ok] at hmsgs
  obtain ⟨-, -, rfl⟩ := hmsgs
  simp only [foldlM_cons, foldlM_nil, bind_eq_ok, pure_eq_ok, Till.deliver, Till.give, mapError_eq_ok,
    ensure_eq_ok, amountOf_singleton, if_true] at hrun
  obtain ⟨_, ⟨_, ⟨-, hle, rfl⟩, rfl⟩, rfl⟩ := hrun
  exact ⟨submitted, howed, hle, rfl⟩

/-! ## The books of the staker -/

/-- What a validator gets of several amounts. -/
def Validators.partsOf (v : Validators) (amounts : List Nat) (validator : String) : Nat :=
  (amounts.map fun amount => partOf (v.split amount) validator).sum

/-- What splitting an amount leaves over. -/
def Validators.dust (v : Validators) (amount : Nat) : Nat := Lib.dust amount (v.entries.map Prod.snd)

def Validators.dusts (v : Validators) (amounts : List Nat) : Nat := (amounts.map v.dust).sum

section Split

variable (v : Validators) (amounts : List Nat) (amount : Nat) (validator : String)

theorem partsOf_concat : v.partsOf (amounts ++ [amount]) validator =
    v.partsOf amounts validator + partOf (v.split amount) validator := by
  simp [Validators.partsOf]

theorem dusts_concat : v.dusts (amounts ++ [amount]) = v.dusts amounts + v.dust amount := by
  simp [Validators.dusts]

theorem sumParts_add_dust : sumParts (v.split amount) + v.dust amount = amount := by
  rw [sumParts_split]
  exact splits_add_dust ..

end Split

/-- `expected_native_unstaked` of several batches. -/
def expectedSum (owed : List SubmittedBatch) : Nat := (owed.map SubmittedBatch.expectedNativeUnstaked).sum

/-- What the submitted batches are owed. -/
def Till.due (t : Till) : Nat := expectedSum t.owed

/-- What is on its way back from the validators. -/
def Chain.maturing (c : Chain) : Nat := (c.unbondings.map Prod.snd).sum

/-- Delegations and funds in terms of all amounts that were split. -/
structure Till.Booked (t : Till) : Prop where
  delegated : ∀ v, t.chain.delegations v + t.staker.validators.partsOf t.unstakes v =
    t.staker.validators.partsOf t.stakes v
  funds : t.chain.bank t.self + t.chain.maturing + t.staker.validators.dusts t.unstakes =
    t.given + t.staker.validators.dusts t.stakes + t.due

theorem Till.Booked.stake (h : t.Booked) {amount : Nat} (hrun : t.stake amount = .ok t') : t'.Booked := by
  obtain ⟨-, rfl⟩ := till_stake_run hrun
  have hsplit := sumParts_add_dust t.staker.validators (amount + t.chain.claimable)
  refine ⟨fun v => ?_, ?_⟩
  · change t.chain.delegations v + partOf (t.staker.validators.split (amount + t.chain.claimable)) v +
      t.staker.validators.partsOf t.unstakes v =
        t.staker.validators.partsOf (t.stakes ++ [amount + t.chain.claimable]) v
    rw [partsOf_concat]
    have hdelegated := h.delegated v
    omega
  · have hbank : (((t.take amount).chain.claim t.self).delegated t.self (t.staker.validators.split
        (amount + t.chain.claimable))).bank t.self = t.chain.bank t.self + amount + t.chain.claimable -
          sumParts (t.staker.validators.split (amount + t.chain.claimable)) := by
      simp only [Chain.delegated, claim_bank, update_self, Till.take]
      rfl
    have hfunds := h.funds
    change _ + t.chain.maturing + t.staker.validators.dusts t.unstakes =
      t.given + t.staker.validators.dusts (t.stakes ++ [amount + t.chain.claimable]) + t.due
    rw [dusts_concat, hbank]
    omega

theorem Till.Booked.passed (h : t.Booked) : t.passed.Booked := by
  have hbank : t.passed.chain.bank t.self = t.chain.bank t.self := by
    simp [Till.passed]
  refine ⟨h.delegated, ?_⟩
  have hfunds := h.funds
  rw [← hbank] at hfunds
  exact hfunds

theorem Till.Booked.rebase (h : t.Booked) (hrun : t.rebase restake = .ok t') : t'.Booked := by
  rcases till_rebase_run hrun with ⟨-, rfl⟩ | hstake
  · exact h.passed
  · exact h.passed.stake hstake

theorem till_rebase_same (hrun : t.rebase restake = .ok t') : t'.staker = t.staker ∧
      t'.unstakes = t.unstakes := by
  rcases till_rebase_run hrun with ⟨-, rfl⟩ | hstake
  · exact ⟨rfl, rfl⟩
  · obtain ⟨-, rfl⟩ := till_stake_run hstake
    exact ⟨rfl, rfl⟩

theorem undelegated_maturing (c : Chain) (parts : List (String × Nat)) :
    (c.undelegated parts).maturing = c.maturing + sumParts parts := by
  simp [Chain.maturing, Chain.undelegated, sumParts, Function.comp_def]

theorem Till.Booked.unstake (h : t.Booked) {amount receiveTime : Nat}
    (hrun : t.unstake amount restake receiveTime = .ok t') : t'.Booked := by
  obtain ⟨t₁, hrebase, hparts, rfl⟩ := till_unstake_run hrun
  have hbooked := h.rebase hrebase
  obtain ⟨hstaker, -⟩ := till_rebase_same hrebase
  have hsplit := sumParts_add_dust t.staker.validators amount
  refine ⟨fun v => ?_, ?_⟩
  · change t₁.chain.delegations v - partOf (t.staker.validators.split amount) v +
      t₁.staker.validators.partsOf (t₁.unstakes ++ [amount]) v = t₁.staker.validators.partsOf t₁.stakes v
    rw [partsOf_concat, hstaker]
    have hdelegated := hbooked.delegated v
    have hle := hparts v
    rw [hstaker] at hdelegated
    omega
  · have hfunds := hbooked.funds
    have hdue : expectedSum (t₁.owed ++ [⟨0, 0, receiveTime, amount⟩]) = t₁.due + amount := by
      simp [Till.due, expectedSum]
    change t₁.chain.bank t₁.self + (t₁.chain.undelegated (t.staker.validators.split amount)).maturing +
      t₁.staker.validators.dusts (t₁.unstakes ++ [amount]) =
        t₁.given + t₁.staker.validators.dusts t₁.stakes +
          expectedSum (t₁.owed ++ [⟨0, 0, receiveTime, amount⟩])
    rw [hdue, undelegated_maturing, dusts_concat, hstaker]
    rw [hstaker] at hfunds
    omega

theorem sum_eraseIdx {batch : SubmittedBatch} : ∀ (owed : List SubmittedBatch)
    (i : Nat), owed[i]? = some batch →
    expectedSum owed = expectedSum (owed.eraseIdx i) + batch.expectedNativeUnstaked
  | [], i, h => by simp at h
  | b :: owed, 0, h => by
    obtain rfl : b = batch := by simpa using h
    simp [expectedSum, Nat.add_comm]
  | b :: owed, i + 1, h => by
    have ih := sum_eraseIdx owed i (by simpa using h)
    simp only [expectedSum, map_cons, sum_cons, eraseIdx_cons_succ] at ih ⊢
    omega

theorem Till.Booked.pay (h : t.Booked) {i : Nat} (hrun : t.pay i = .ok t') : t'.Booked := by
  obtain ⟨batch, hbatch, hle, rfl⟩ := till_pay_run hrun
  refine ⟨h.delegated, ?_⟩
  have hfunds := h.funds
  have hdue : t.due = _ := sum_eraseIdx t.owed i hbatch
  rw [hdue] at hfunds
  change update t.chain.bank t.self _ t.self + t.chain.maturing + t.staker.validators.dusts t.unstakes =
    t.given + t.staker.validators.dusts t.stakes + expectedSum (t.owed.eraseIdx i)
  rw [update_self]
  omega

theorem sum_matured (unbondings : List (Nat × Nat)) (now : Nat) :
    ((unbondings.filter fun u => u.1 ≤ now).map Prod.snd).sum +
      ((unbondings.filter fun u => now < u.1).map Prod.snd).sum =
      (unbondings.map Prod.snd).sum := by
  induction unbondings with
  | nil => rfl
  | cons u unbondings ih =>
    by_cases hu : u.1 ≤ now
    · have hnot : ¬ now < u.1 := by omega
      simp only [filter_cons, hu, hnot, decide_true, decide_false, if_true, map_cons, sum_cons]
      simp only [Bool.false_eq_true, if_false]
      omega
    · have hlt : now < u.1 := by omega
      simp only [filter_cons, hu, hlt, decide_true, decide_false, if_true, map_cons, sum_cons]
      simp only [Bool.false_eq_true, if_false]
      omega

theorem Till.Booked.block (h : t.Booked) (now : Nat) : (t.withChain (t.chain.block t.self now)).Booked := by
  refine ⟨h.delegated, ?_⟩
  have hfunds := h.funds
  have hmatured := sum_matured t.chain.unbondings now
  have hbank : (t.chain.block t.self now).bank t.self =
      t.chain.bank t.self + ((t.chain.unbondings.filter fun u => u.1 ≤ now).map Prod.snd).sum :=
        update_self ..
  change (t.chain.block t.self now).bank t.self + (t.chain.block t.self now).maturing +
    t.staker.validators.dusts t.unstakes = t.given + t.staker.validators.dusts t.stakes + t.due
  rw [hbank]
  unfold Chain.maturing Chain.block at *
  simp only
  omega

theorem Till.Booked.gift (h : t.Booked) (amount : Nat) :
    Till.Booked { t.take amount with given := t.given + amount } := by
  refine ⟨h.delegated, ?_⟩
  have hfunds := h.funds
  have hbank : (t.take amount).chain.bank t.self = t.chain.bank t.self + amount := update_self ..
  change (t.take amount).chain.bank t.self + t.chain.maturing + t.staker.validators.dusts t.unstakes =
    t.given + amount + t.staker.validators.dusts t.stakes + t.due
  rw [hbank]
  omega

theorem Till.Booked.accrue (h : t.Booked) (v : String) (atomics : Nat) :
    (t.withChain (t.chain.accrue v atomics)).Booked := by
  unfold Chain.accrue
  split
  · exact ⟨h.delegated, h.funds⟩
  · exact h

theorem Till.Booked.attempt (h : t.Booked) {r : TxResult Till} (hr : ∀ t', r = .ok t' → t'.Booked) :
    (t.attempt r).Booked := by
  cases r with
  | ok t' => exact hr t' rfl
  | error e => exact h

/-- **Every call keeps the books.** -/
theorem till_booked_step (h : t.Booked) (call : Till.Call) : (t.step call).1.Booked := by
  cases call with
  | stake amount => exact h.attempt fun _ hrun => h.stake hrun
  | unstake amount restake receiveTime => exact h.attempt fun _ hrun => h.unstake hrun
  | pay i => exact h.attempt fun _ hrun => h.pay hrun
  | accrue v atomics => exact h.accrue v atomics
  | block now =>
    simp only [Till.step]
    split
    · exact h.block now
    · exact h
  | gift amount => exact h.gift amount

/-- The staker before it is called. -/
structure Till.Fresh (t : Till) : Prop where
  delegations : ∀ v, t.chain.delegations v = 0
  unbondings : t.chain.unbondings = []
  stakes : t.stakes = []
  unstakes : t.unstakes = []
  owed : t.owed = []
  given : t.given = t.chain.bank t.self

theorem Till.Fresh.booked (h : t.Fresh) : t.Booked := by
  refine ⟨fun v => ?_, ?_⟩
  · rw [h.delegations, h.stakes, h.unstakes, Nat.zero_add]
  · rw [Chain.maturing, Till.due, expectedSum, h.unbondings, h.stakes, h.unstakes, h.owed, h.given]
    simp

/-- What each Undelegate message of an unstaking takes is delegated to its validator. -/
def Till.CanUndelegate (t : Till) (amount : Nat) : Prop :=
  ∀ v, partOf (t.staker.validators.split amount) v ≤ t.chain.delegations v

/-- **When the staker can unstake, and when it can pay**, after any calls: iff no validator is asked
    for more parts in all than it was given, and iff the splits of the unstaked amounts left over no
    more than those of the staked amounts and what was given. -/
theorem staker_pays_iff (hfresh : t.Fresh) (calls : List Till.Call) :
    let t := Machine.run Till.step t calls
    (∀ amount restake t₁, t.rebase restake = .ok t₁ → (t₁.CanUndelegate amount ↔ ∀ v,
      t.staker.validators.partsOf (t.unstakes ++ [amount]) v ≤ t.staker.validators.partsOf t₁.stakes v)) ∧
      (t.chain.unbondings = [] → (t.due ≤ t.chain.bank t.self ↔
        t.staker.validators.dusts t.unstakes ≤ t.given + t.staker.validators.dusts t.stakes)) := by
  intro t
  have hbooked : t.Booked :=
    Machine.state_invariant (I := Till.Booked) (fun _ call h => till_booked_step h call) hfresh.booked calls
  constructor
  · intro amount restake t₁ hrebase
    obtain ⟨hstaker, hunstakes⟩ := till_rebase_same hrebase
    refine forall_congr' fun v => ?_
    have hdelegated := (hbooked.rebase hrebase).delegated v
    rw [hstaker, hunstakes] at hdelegated
    rw [hstaker, partsOf_concat]
    omega
  · intro hnone
    have hfunds := hbooked.funds
    rw [Chain.maturing, hnone, map_nil, sum_nil] at hfunds
    omega

/-! ## A staker to evaluate on -/

/-- A staker for two validators of equal shares. -/
def sampleTill : Till where
  self := "staker"
  staker := ⟨"hub", .sample⟩
  chain := ⟨"au", ["v1", "v2"], Validators.sample_nodup, 15, 0, fun _ => 0, fun _ => 0, fun _ => 0, []⟩
  stakes := []
  unstakes := []
  owed := []
  given := 0

theorem sampleTill_fresh : sampleTill.Fresh := ⟨fun _ => rfl, rfl, rfl, rfl, rfl, rfl⟩

/-- The state after some calls. -/
def sampleCalls (calls : List Till.Call) : Till := Machine.run Till.step sampleTill calls

theorem staker_pays_sample : (sampleCalls [.stake 4, .unstake 2 0 0, .block 100]).due ≤
    (sampleCalls [.stake 4, .unstake 2 0 0, .block 100]).chain.bank "staker" :=
  ((staker_pays_iff sampleTill_fresh [.stake 4, .unstake 2 0 0, .block 100]).2 (by decide)).mpr (by decide)

/-- **The staker falls short.**  Of 9 staked 3 at a time each validator has 3, and unstaking 8 asks
    each for 4.  Of 4 staked, unstaking 3 brings back 2. -/
theorem staker_falls_short : (let t := sampleCalls [.stake 3, .stake 3, .stake 3]
    t.stakes.sum = 9 ∧ ¬ t.CanUndelegate 8) ∧
      let t := sampleCalls [.stake 4, .unstake 3 0 0, .block 100]
      t.chain.unbondings = [] ∧ t.due = 3 ∧ t.chain.bank "staker" = 2 :=
  ⟨⟨by decide, fun h => absurd (h "v1") (by decide)⟩, by decide, by decide,
    by decide⟩

end UnionVoyager.Lst
