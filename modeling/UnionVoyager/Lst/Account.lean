import UnionVoyager.Lst.Effect
import UnionVoyager.Lib.Machine

/-!
# The hub and its bank account, in any surroundings

A machine over the hub, its balance of the native token, and the messages it handed to the host that
are not yet carried out.  Its inputs are calls of any account with any message, funds, block time
and answer of the distribution module, the host carrying out the next message, and deposits from
outside.  Nothing is assumed of the staker and of the LST contract: they may call back between any
two messages.  The output is the events of the hub.
-/

namespace UnionVoyager.Lst

open Lib

structure Account where
  hub : Hub
  balance : Nat
  outbox : List CosmosMsg

inductive Input where
  | call (now : Nat) (total : List DecCoin) (info : MessageInfo) (msg : ExecuteMsg)
  | deliver
  | deposit (amount : Nat)

def Account.denom (a : Account) : String := a.hub.config.nativeTokenDenom

/-- A call comes with its funds.  The messages it leaves are carried out before older ones. -/
def Account.call (stakerHash : Addr → H256) (self : Addr) (a : Account) (now : Nat)
    (total : List DecCoin) (info : MessageInfo) (msg : ExecuteMsg) : Account × List Event :=
  match a.hub.execute stakerHash ⟨now, self⟩ total info msg with
  | .ok r => (⟨r.hub, a.balance + amountOf a.denom info.funds, r.messages ++ a.outbox⟩, r.events)
  | .error _ => (a, [])

/-- The coins of the next message leave, if they are there. -/
def Account.deliver (a : Account) : Account :=
  match a.outbox with
  | [] => a
  | m :: rest =>
    if amountOf a.denom m.coins ≤ a.balance then ⟨a.hub, a.balance - amountOf a.denom m.coins, rest⟩ else a

def Account.step (stakerHash : Addr → H256) (self : Addr) (a : Account) : Input → Account × List Event
  | .call now total info msg => a.call stakerHash self now total info msg
  | .deliver => (a.deliver, [])
  | .deposit amount => ({ a with balance := a.balance + amount }, [])

/-- A new hub, whose address may hold tokens already. -/
def Account.init (hub : Hub) (balance : Nat) : Account := ⟨hub, balance, []⟩

variable {stakerHash : Addr → H256} {self : Addr} {a : Account}

theorem call_of_ok {now : Nat} {total : List DecCoin} {info : MessageInfo} {msg : ExecuteMsg}
    {r : Response} (h : a.hub.execute stakerHash ⟨now, self⟩ total info msg = .ok r) :
    a.call stakerHash self now total info msg =
      (⟨r.hub, a.balance + amountOf a.denom info.funds, r.messages ++ a.outbox⟩, r.events) := by
  unfold Account.call
  rw [h]

variable (stakerHash self a)

theorem call_cases (now : Nat) (total : List DecCoin) (info : MessageInfo) (msg : ExecuteMsg) :
    a.call stakerHash self now total info msg = (a, []) ∨
      ∃ r, a.hub.execute stakerHash ⟨now, self⟩ total info msg = .ok r ∧
        a.call stakerHash self now total info msg =
          (⟨r.hub, a.balance + amountOf a.denom info.funds, r.messages ++ a.outbox⟩, r.events) := by
  unfold Account.call
  split
  · rename_i r h
    exact .inr ⟨r, h, rfl⟩
  · exact .inl rfl

theorem deliver_cases : a.deliver = a ∨ ∃ m rest, a.outbox = m :: rest ∧
    amountOf a.denom m.coins ≤ a.balance ∧
    a.deliver = ⟨a.hub, a.balance - amountOf a.denom m.coins, rest⟩ := by
  unfold Account.deliver
  split
  · exact .inl rfl
  · rename_i m rest h
    split
    · rename_i hle
      exact .inr ⟨m, rest, h, hle, rfl⟩
    · exact .inl rfl

@[simp] theorem deliver_hub : a.deliver.hub = a.hub := by
  rcases deliver_cases a with h | ⟨m, rest, -, -, h⟩ <;> rw [h]

end UnionVoyager.Lst
