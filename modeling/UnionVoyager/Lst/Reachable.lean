import UnionVoyager.Lst.Outcome

/-!
# Reachable states of hub, staker and token

* `Orderly` — the contracts know each other, the hub runs, it holds the LST of the pending batch,
  and while no LST is issued nothing is bonded, delegated or earned.
* `reachable_orderly` — every state that is reached without the administrator is orderly.
-/

namespace UnionVoyager.Lst

open Lib Function

def World.run (stakerHash : Addr → H256) (w : World) (acts : List Act) : World :=
    acts.foldl (World.act stakerHash) w

/-- A new hub with its staker and its token.  Their accounts may hold native tokens already. -/
structure Deployed (w : World) : Prop where
  linked : Linked w
  hub : ∃ env msg, Hub.init env msg = .ok w.hub
  supply : w.lst.totalSupply = 0
  balances : ∀ a, w.lst.balances a = 0
  allowances : ∀ p, w.lst.allowances p = none
  delegations : ∀ v, w.chain.delegations v = 0
  rewards : ∀ v, w.chain.rewards v = 0

/-- Reached from a new system, without the administrator and the monitors. -/
def Reachable (stakerHash : Addr → H256) (w : World) : Prop :=
  ∃ w₀ acts, Deployed w₀ ∧ (∀ a ∈ acts, a.isAdmin = false) ∧ w = w₀.run stakerHash acts

/-- Nothing is bonded, delegated or earned. -/
structure World.Idle (w : World) : Prop where
  bonded : w.hub.accountingState.totalBondedNativeTokens = 0
  delegations : ∀ v, w.chain.delegations v = 0
  rewards : ∀ v, w.chain.rewards v = 0

structure Orderly (w : World) : Prop where
  linked : Linked w
  running : w.hub.stopped = false
  custody : w.lst.Custody w.hubAddr w.hub.accountingState.totalIssuedLst
    w.hub.currentPendingBatch.totalLstToBurn
  idle : w.hub.accountingState.totalIssuedLst = 0 → w.Idle

variable {stakerHash : Addr → H256} {w w' : World}

theorem World.Idle.congr (h : w.Idle) (haccounting : w'.hub.accountingState = w.hub.accountingState)
    (hdelegations : w'.chain.delegations = w.chain.delegations)
    (hrewards : w'.chain.rewards = w.chain.rewards) : w'.Idle :=
  ⟨by rw [haccounting]; exact h.bonded, by rw [hdelegations]; exact h.delegations,
    by rw [hrewards]; exact h.rewards⟩

theorem Deployed.orderly (h : Deployed w) : Orderly w := by
  obtain ⟨env, msg, hinit⟩ := h.hub
  simp only [Hub.init, bind_eq_ok, pure_eq_ok, u64_eq_ok] at hinit
  obtain ⟨-, -, -, -, _, -, hhub⟩ := hinit
  have haccounting : w.hub.accountingState = ⟨0, 0, 0⟩ := by rw [← hhub]
  have hpending : w.hub.currentPendingBatch.totalLstToBurn = 0 := by
    rw [← hhub]
    rfl
  refine ⟨h.linked, by rw [← hhub], ⟨?_, h.supply.le.trans (Nat.zero_le _), ?_, fun s => h.allowances _⟩, ?_⟩
  · exact Backed.empty.congr h.balances fun _ => rfl
  · rw [hpending]
    exact Nat.zero_le _
  · intro _
    exact ⟨by rw [haccounting], h.delegations, h.rewards⟩

theorem Linked.staked (hw : Linked w) (amount : Nat) : Linked (w.staked amount) := hw.withChain rfl rfl

theorem Linked.rewarded (hw : Linked w) (sender : Addr) (rewards : Nat) :
    Linked (w.rewarded sender rewards) :=
  ((hw.credited sender rewards).staked _).withChain rfl rfl

theorem Linked.unstaked (hw : Linked w) (amount : Nat) : Linked (w.unstaked amount) :=
  (hw.claimed.rewarded _ _).withChain rfl rfl

theorem Orderly.rewarded (h : Orderly w) {sender : Addr} {rewards : Nat}
    (hrewardable : w.Rewardable sender rewards) : Orderly (w.rewarded sender rewards) :=
  ⟨h.linked.rewarded sender rewards, h.running, h.custody, fun hzero => absurd hzero hrewardable.issued⟩

theorem Orderly.rebased (h : Orderly w)
    (hrewardable : w.claimed.Rewardable w.stakerAddr w.chain.claimable) : Orderly w.rebased :=
  ⟨h.linked.claimed.rewarded _ _, h.running, h.custody, fun hzero => absurd hzero hrewardable.issued⟩

theorem Orderly.bonded (h : Orderly w) (sender : Addr) (amount : Nat) (mintTo : Addr) {mint : Nat}
    (hpos : 0 < mint) : Orderly (w.bonded sender amount mintTo mint) := by
  refine ⟨((h.linked.bond sender amount mint).staked amount).withLst rfl, h.running,
    h.custody.minted mintTo mint, ?_⟩
  intro hzero
  have hissued : w.hub.accountingState.totalIssuedLst + mint = 0 := hzero
  omega

theorem Submittable.lt_issued (h : w.Submittable) :
    w.hub.currentPendingBatch.totalLstToBurn < w.hub.accountingState.totalIssuedLst := by
  have hissued : w.hub.accountingState.totalIssuedLst - w.hub.currentPendingBatch.totalLstToBurn ≠ 0 :=
    h.unstakeable.rewardable.issued
  omega

section

variable (h : Orderly w)

include h

theorem Orderly.submitted (hsubmittable : w.Submittable) : Orderly w.submitted := by
  refine ⟨(h.linked.closed.unstaked _).withLst rfl, h.running, h.custody.burned, ?_⟩
  intro hzero
  have hissued : w.hub.accountingState.totalIssuedLst - w.hub.currentPendingBatch.totalLstToBurn = 0 := hzero
  have hlt := Submittable.lt_issued hsubmittable
  omega

theorem Orderly.unbonded {sender : Addr} (hne : sender ≠ w.hubAddr) {amount : Nat}
    (howned : amount ≤ w.lst.balances sender) (request : UnstakeRequest) (allowance : Nat) :
    Orderly (w.unbonded stakerHash sender amount request allowance) := by
  refine ⟨(h.linked.withHub (s := w.hub.afterUnbond _ request amount) rfl rfl rfl).withLst rfl, h.running, ?_,
    fun hzero => (h.idle hzero).congr rfl rfl rfl⟩
  have hcustody := (h.custody.allowed hne w.hubAddr (allowance - amount)).moved hne howned w.hubAddr
  rwa [if_pos rfl] at hcustody

theorem Orderly.moved (sender recipient : Addr) (amount : Nat) :
    Orderly (w.withChain (w.chain.moved sender recipient amount)) :=
  ⟨h.linked.withChain rfl rfl, h.running, h.custody, fun hzero => (h.idle hzero).congr rfl rfl rfl⟩

theorem Orderly.withHub {s : Hub} (hstaker : s.stakerAddress = w.hub.stakerAddress)
    (hlst : s.lstAddress = w.hub.lstAddress) (hdenom :
      s.config.nativeTokenDenom = w.hub.config.nativeTokenDenom)
    (hstopped : s.stopped = w.hub.stopped) (haccounting : s.accountingState = w.hub.accountingState)
    (hpending : s.currentPendingBatch = w.hub.currentPendingBatch) : Orderly (w.withHub s) := by
  refine ⟨h.linked.withHub hstaker hlst hdenom, hstopped.trans h.running, ?_, ?_⟩
  · rw [withHub_hub, haccounting, hpending]
    exact h.custody
  · rw [withHub_hub, haccounting]
    intro hzero
    exact (h.idle hzero).congr haccounting rfl rfl

/-- **What a message of an account does keeps a system orderly.** -/
theorem Outcome.orderly {sender : Addr} (hne : sender ≠ w.hubAddr) {msg : WasmMsg}
    (houtcome : Outcome stakerHash w sender msg w') : Orderly w' := by
  cases houtcome with
  | bond amount mint hshares hpos => exact h.bonded sender amount _ hpos
  | unbond request allowance howned => exact h.unbonded hne howned request allowance
  | submitBatch hsubmittable => exact h.submitted hsubmittable
  | receiveRewards rewards hreward => exact h.rewarded hreward
  | rebase hreward => exact h.rebased hreward
  | receiveBatch | receiveUnstakedTokens => exact (h.moved ..).withHub rfl rfl rfl rfl rfl rfl
  | withdraw key amount => exact (h.withHub (s := w.hub.afterWithdraw key) rfl rfl rfl rfl rfl rfl).moved ..
  | token t amount hexecuted =>
    have hminter : t.minter = w.lst.minter := execute_minter hexecuted
    refine ⟨(h.linked.withChain (c := w.chain.moved sender w.lstAddr amount) rfl rfl).withLst
      hminter, h.running, ?_, fun hzero => (h.idle hzero).congr rfl rfl rfl⟩
    exact h.custody.execute h.linked.minter hne hexecuted

theorem Orderly.accrue (v : String) (atomics : Nat) : Orderly (w.withChain (w.chain.accrue v atomics)) := by
  unfold Chain.accrue
  split
  · rename_i hpos
    refine ⟨h.linked.withChain rfl rfl, h.running, h.custody, ?_⟩
    intro hzero
    have hnone := (h.idle hzero).delegations v
    omega
  · exact h

theorem act_orderly {a : Act} (hadmin : a.isAdmin = false) : Orderly (w.act stakerHash a) := by
  cases a with
  | execute sender contract msg funds =>
    simp only [World.act]
    split
    · exact h
    · rename_i hsender
      have hne : sender ≠ w.hubAddr := fun heq => hsender (.inl heq)
      split
      · rename_i w' hrun
        exact (transact_outcome h.linked hne hadmin hrun).orderly h hne
      · exact h
  | send sender recipient amount =>
    simp only [World.act]
    split
    · exact h
    · split
      · rename_i c hpay
        obtain ⟨-, rfl⟩ := pay_eq_ok.mp hpay
        exact h.moved sender recipient amount
      · exact h
  | accrue v atomics => exact h.accrue v atomics
  | block now =>
    simp only [World.act]
    split
    · exact ⟨h.linked.withChain (c := w.chain.block w.stakerAddr now) rfl rfl, h.running, h.custody,
        fun hzero => (h.idle hzero).congr rfl rfl rfl⟩
    · exact h

theorem run_orderly {acts : List Act} (hadmin : ∀ a ∈ acts, a.isAdmin = false) :
    Orderly (w.run stakerHash acts) := by
  induction acts generalizing w with
  | nil => exact h
  | cons a acts ih =>
    obtain ⟨ha, hrest⟩ := List.forall_mem_cons.mp hadmin
    exact ih (act_orderly h ha) hrest

end

theorem reachable_orderly (h : Reachable stakerHash w) : Orderly w := by
  obtain ⟨w₀, acts, hdeployed, hadmin, rfl⟩ := h
  exact run_orderly hdeployed.orderly hadmin

theorem Orderly.assets_eq_zero (h : Orderly w) (hzero : w.hub.accountingState.totalIssuedLst = 0) :
    w.assets = 0 := by
  have hidle := h.idle hzero
  have hsum : (w.chain.validatorSet.map w.chain.rewards).sum = 0 := by
    apply List.sum_eq_zero
    intro n hn
    obtain ⟨v, -, rfl⟩ := List.mem_map.mp hn
    exact hidle.rewards v
  rw [World.assets, hidle.bonded, Chain.pending, hsum, Nat.zero_div]

/-! ## A system to evaluate on -/

def sampleChain : Chain where
  denom := "au"
  validatorSet := ["v1", "v2"]
  nodup := Validators.sample_nodup
  unbondingTime := 15
  now := 0
  bank := fun a => if a = "alice" then 1000000 else 0
  delegations := fun _ => 0
  rewards := fun _ => 0
  unbondings := []

/-- The hub of `sampleHub`, with a staker for two validators of equal shares. -/
def sampleWorld : World where
  hubAddr := "hub"
  stakerAddr := "staker"
  lstAddr := "lst"
  hub := sampleHub
  staker := ⟨"hub", .sample⟩
  lst := ⟨"hub", 0, fun _ => 0, fun _ => none⟩
  chain := sampleChain

theorem sampleWorld_deployed : Deployed sampleWorld where
  linked := ⟨rfl, rfl, rfl, rfl, rfl, by decide, by decide⟩
  hub := ⟨⟨0, "hub"⟩, sampleInit, sampleHub_init⟩
  supply := rfl
  balances := fun _ => rfl
  allowances := fun _ => rfl
  delegations := fun _ => rfl
  rewards := fun _ => rfl

def sampleBond (amount : Nat) : Act := .execute "alice" "hub" (.hub (.bond "alice" 0)) [⟨"au", amount⟩]

/-- Alice asks for `amount` LST to be unbonded. -/
def sampleUnbond (amount : Nat) : List Act :=
  [.execute "alice" "lst" (.cw20 (.increaseAllowance "hub" amount)) [],
   .execute "alice" "hub" (.hub (.unbond amount)) []]

/-- Anyone submits the pending batch. -/
def sampleSubmit : Act := .execute "bob" "hub" (.hub .submitBatch) []

theorem sample_reachable {acts : List Act} (hadmin : ∀ a ∈ acts, a.isAdmin = false) :
    Reachable (fun _ => []) (sampleWorld.run (fun _ => []) acts) :=
  ⟨sampleWorld, acts, sampleWorld_deployed, hadmin, rfl⟩

/-- Alice has bonded 1000, wants `amount` LST back, and the first validator has earned `rewards`. The batch is
    ready. -/
def sampleRequested (amount rewards : Nat) : World :=
  sampleWorld.run (fun _ => [])
    ([sampleBond 1000] ++ sampleUnbond amount ++ [.accrue "v1" (rewards * 10 ^ 18), .block 10])

theorem sampleRequested_reachable (amount rewards : Nat) : Reachable (fun _ => [])
    (sampleRequested amount rewards) := by
  apply sample_reachable
  simp [sampleBond, sampleUnbond, Act.isAdmin, ExecuteMsg.isAdmin]

end UnionVoyager.Lst
