import UnionVoyager.Lst.Chain

/-!
# Hub, staker, LST token and chain together

A message is carried out with all the messages it leaves, depth first, and a transaction that fails leaves
no trace.  The LST is the token of `cosmwasm/cw20-base`, with the hub as its minter.
-/

namespace UnionVoyager.Lst

open Lib Function

/-! ## The LST token -/

structure Cw20 where
  minter : Addr
  totalSupply : Nat
  balances : Addr → Nat
  /-- By owner and spender. -/
  allowances : Addr × Addr → Option Nat

inductive Cw20Error where
  | unauthorized
  | noAllowance (owner spender : Addr)
  | overflow
  deriving DecidableEq

abbrev Cw20Result := Except Cw20Error

/-- Move `amount` from `owner` to `recipient`. -/
def Cw20.move (t : Cw20) (owner recipient : Addr) (amount : Nat) : Cw20Result Cw20 := do
  ensure (amount ≤ t.balances owner) .overflow
  let balances := update t.balances owner (t.balances owner - amount)
  return { t with balances := update balances recipient (balances recipient + amount) }

def Cw20.deductAllowance (t : Cw20) (owner spender : Addr) (amount : Nat) : Cw20Result Cw20 := do
  let allowance ← orErr (t.allowances (owner, spender)) (.noAllowance owner spender)
  ensure (amount ≤ allowance) .overflow
  return { t with allowances := update t.allowances (owner, spender) (some (allowance - amount)) }

def Cw20.execute (t : Cw20) (sender : Addr) : Cw20ExecuteMsg → Cw20Result Cw20
  | .transfer recipient amount => t.move sender recipient amount
  | .burn amount => do
    ensure (amount ≤ t.balances sender) .overflow
    ensure (amount ≤ t.totalSupply) .overflow
    return { t with
      balances := update t.balances sender (t.balances sender - amount)
      totalSupply := t.totalSupply - amount }
  | .mint recipient amount => do
    ensure (sender = t.minter) .unauthorized
    ensure (t.totalSupply + amount < 2 ^ 128) .overflow
    return { t with
      balances := update t.balances recipient (t.balances recipient + amount)
      totalSupply := t.totalSupply + amount }
  | .increaseAllowance spender amount =>
    .ok { t with
      allowances := update t.allowances (sender, spender)
        (some ((t.allowances (sender, spender)).getD 0 + amount)) }
  | .transferFrom owner recipient amount => do
    let t ← t.deductAllowance owner sender amount
    t.move owner recipient amount

/-! ## Messages -/

structure World where
  hubAddr : Addr
  stakerAddr : Addr
  lstAddr : Addr
  hub : Hub
  staker : Staker
  lst : Cw20
  chain : Chain

inductive TxError where
  | hub (e : ContractError)
  | staker (e : StakerError)
  | cw20 (e : Cw20Error)
  | host (e : HostError)
  deriving DecidableEq

abbrev TxResult := Except TxError

/-- What the staker's queries return. -/
def World.querier (w : World) : Querier :=
    ⟨w.hub.config.nativeTokenDenom, w.hub.queryBatch, w.chain.delegatorRewards⟩

/-- A contract receives the funds of a message and handles it. -/
def World.handle (stakerHash : Addr → H256) (w : World) (sender contract : Addr) (msg : WasmMsg)
    (funds : List Coin) : TxResult (World × List CosmosMsg) := do
  let chain ← (w.chain.pay sender contract (amountOf w.chain.denom funds)).mapError .host
  let w := { w with chain }
  match msg with
  | .hub msg =>
    ensure (contract = w.hubAddr) (.host .noContract)
    let r ← (w.hub.execute stakerHash ⟨w.chain.now, contract⟩ w.chain.totalRewards ⟨sender, funds⟩
      msg).mapError .hub
    return ({ w with hub := r.hub }, r.messages)
  | .staker msg =>
    ensure (contract = w.stakerAddr) (.host .noContract)
    let messages ← (w.staker.execute ⟨w.chain.now, contract⟩ w.querier ⟨sender, funds⟩ msg).mapError .staker
    return (w, messages)
  | .cw20 msg =>
    ensure (contract = w.lstAddr) (.host .noContract)
    let lst ← (w.lst.execute sender msg).mapError .cw20
    return ({ w with lst }, [])

/-- A message to a module of the chain.  The delegations kept here are those of the staker. -/
def Chain.native (c : Chain) (staker sender : Addr) : CosmosMsg → HostResult Chain
  | .wasm .. => .error .noContract
  | .bankSend toAddress amount => c.send sender toAddress amount
  | .delegate validator amount => do
    ensure (sender = staker) .notTheDelegator
    c.delegate sender validator amount.amount
  | .undelegate validator amount => do
    ensure (sender = staker) .notTheDelegator
    c.undelegate validator amount.amount
  | .withdrawDelegatorReward validator => do
    ensure (sender = staker) .notTheDelegator
    return c.withdrawReward sender validator

/-- A message and, depth first, all messages it leads to.  The host bounds the depth of calls. -/
def dispatch (stakerHash : Addr → H256) : Nat → World → Addr → CosmosMsg → TxResult World
  | 0, _, _, _ => .error (.host .callDepth)
  | depth + 1, w, sender, .wasm contract msg funds => do
    let (w, messages) ← w.handle stakerHash sender contract msg funds
    messages.foldlM (fun w m => dispatch stakerHash depth w contract m) w
  | _ + 1, w, sender, m => do
    let chain ← (w.chain.native w.stakerAddr sender m).mapError .host
    return { w with chain }

/-- The limit of the host for nested calls. -/
def maxCallDepth : Nat := 500

/-- What happens to the system from outside: an account calls a contract or sends native tokens, a validator
    earns rewards, or a block passes. -/
inductive Act where
  | execute (sender contract : Addr) (msg : WasmMsg) (funds : List Coin)
  | send (sender recipient : Addr) (amount : Nat)
  | accrue (validator : String) (atomics : Nat)
  | block (now : Nat)

/-- The messages of the administrator and the monitors. -/
def ExecuteMsg.isAdmin : ExecuteMsg → Bool
  | .transferOwnership .. => true
  | .acceptOwnership => true
  | .revokeOwnershipTransfer => true
  | .updateConfig .. => true
  | .circuitBreaker => true
  | .resumeContract .. => true
  | .slashBatches .. => true
  | _ => false

def Act.isAdmin : Act → Bool
  | .execute _ _ (.hub msg) _ => msg.isAdmin
  | _ => false

def World.isContract (w : World) (a : Addr) : Prop := a = w.hubAddr ∨ a = w.stakerAddr ∨ a = w.lstAddr

instance (w : World) (a : Addr) : Decidable (w.isContract a) := inferInstanceAs (Decidable (_ ∨ _ ∨ _))

/-- A transaction of an account. -/
def World.transact (stakerHash : Addr → H256) (w : World) (sender contract : Addr) (msg : WasmMsg)
    (funds : List Coin) : TxResult World :=
  dispatch stakerHash maxCallDepth w sender (.wasm contract msg funds)

/-- Contracts start no transactions, transactions that fail change nothing, and time does not go back. -/
def World.act (stakerHash : Addr → H256) (w : World) : Act → World
  | .execute sender contract msg funds =>
    if w.isContract sender then w
    else
      match w.transact stakerHash sender contract msg funds with
      | .ok w' => w'
      | .error _ => w
  | .send sender recipient amount =>
    if w.isContract sender then w
    else
      match w.chain.pay sender recipient amount with
      | .ok chain => { w with chain }
      | .error _ => w
  | .accrue validator atomics => { w with chain := w.chain.accrue validator atomics }
  | .block now => if w.chain.now ≤ now then { w with chain := w.chain.block w.stakerAddr now } else w

end UnionVoyager.Lst
