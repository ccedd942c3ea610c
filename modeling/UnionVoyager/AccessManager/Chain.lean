import UnionVoyager.AccessManager.Manager
import UnionVoyager.Lib.CallStack

/-!
# The access manager among other contracts

`access-managed`: a contract whose functions the manager guards.  It lives on one chain with its
manager and with contracts of which nothing is known but that each writes its own storage alone.

* `Managed`, `ensureCanCall`, `setAuthority`, `handleConsumeScheduledOpReply` — the guarded contract.
* `Chain.exec`, `Chain.reply`, `Chain.system` — a call and a report, by the contract they are for.
* `Chain.stacked` — the execution ids are a stack of running calls.
-/

namespace UnionVoyager.AccessManager

open Lib Lib.Submessages

/-! ## What the manager sends -/

section Manager

variable {H : Type} [DecidableEq H] {crates : Crates H}

/-- The message that sets the authority of a target, or none. -/
def ExecuteMsg.sent (crates : Crates H) : ExecuteMsg → List SubMsg
  | .updateAuthority target newAuthority => [⟨target, crates.setAuthorityJson newAuthority, [], false⟩]
  | _ => []

variable {ctx : ExecCtx} {s s' : State H}

theorem execute_subs {msg : ExecuteMsg} {subs : List SubMsg} (h : execute crates ctx s msg = .ok (s', subs))
    (hmsg : ∀ target data, msg ≠ .execute target data) : subs = msg.sent crates := by
  cases msg with
  | updateAuthority target newAuthority =>
    obtain ⟨⟨s₁, sub⟩, hupd, hpure⟩ := bind_eq_ok.mp h
    cases hpure
    obtain ⟨s₂, -, hpure⟩ := bind_eq_ok.mp hupd
    cases hpure
    rfl
  | schedule | cancel =>
    obtain ⟨_, -, hpure⟩ := bind_eq_ok.mp h
    cases hpure
    rfl
  | execute target data => exact absurd rfl (hmsg target data)
  | _ => exact (silent_eq_ok.mp h).2

theorem consumeOperation_frame {ctx : QueryCtx} {id : H} {nonce : Nonce}
    (h : consumeOperation ctx s id = .ok (s', nonce)) :
      ∃ schedules, s' = { s with schedules := schedules } := by
  obtain ⟨_, -, -, -, rfl⟩ := consumeOperation_eq_ok.mp h
  exact ⟨_, rfl⟩

theorem checkAuthorized_frame (h : checkAuthorized crates ctx s = .ok s') :
    ∃ schedules, s' = { s with schedules := schedules } := by
  rcases checkAuthorized_effect crates h with ⟨-, rfl⟩ | ⟨_, _, -, hcons⟩
  · exact ⟨_, rfl⟩
  · exact consumeOperation_frame hcons

/-- **Only an execute changes the stack.** -/
theorem execute_stack {msg : ExecuteMsg} {subs : List SubMsg} (h : execute crates ctx s msg = .ok (s', subs))
    (hmsg : ∀ target data, msg ≠ .execute target data) : s'.executionIdStack = s.executionIdStack := by
  by_cases hrestricted : restricted msg = true
  · obtain ⟨s₁, hcheck, hframe⟩ := execute_restricted crates hrestricted h
    obtain ⟨schedules, rfl⟩ := checkAuthorized_frame hcheck
    exact hframe.executionIdStack
  · cases msg with
    | renounceRole roleId callerConfirmation => exact (execute_renounceRole crates h).2.1.executionIdStack
    | schedule target data when =>
      obtain ⟨_, -, -, -, -, rfl⟩ := execute_schedule crates h
      rfl
    | cancel caller target data =>
      obtain ⟨_, _, -, -, rfl, -⟩ := execute_cancel crates h
      rfl
    | execute target data => exact absurd rfl (hmsg target data)
    | consumeScheduledOp caller data =>
      obtain ⟨-, -, _, hcons⟩ := execute_consumeScheduledOp crates h
      obtain ⟨schedules, rfl⟩ := consumeOperation_frame hcons
      rfl
    | _ => exact absurd rfl hrestricted

end Manager

/-! ## The guarded contract -/

structure MessageInfo where
  sender : Addr
  funds : List Coin

/-- A call that a contract asks for; its sender is the contract. -/
structure OutMsg where
  contractAddr : Addr
  msg : String
  funds : List Coin
  id : Nat
  onSuccess : Bool
  onError : Bool

structure Call where
  sender : Addr
  contractAddr : Addr
  msg : String
  funds : List Coin

def OutMsg.toSub (owner : Addr) (m : OutMsg) : Sub Call Nat :=
  ⟨⟨owner, m.contractAddr, m.msg, m.funds⟩, m.id, m.onSuccess, m.onError⟩

/-- What a guarded contract understands: the message of `access-managed`, a restricted one, or one
    of its own. -/
inductive ManagedMsg (T : Type) where
  | setAuthority (newAuthority : Addr)
  | restricted (value : T)
  | own

/-- The storage of a guarded contract: that of `access-managed`, and its own. -/
structure Managed (σ : Type) where
  authority : Addr
  consumingSchedule : Bool
  own : σ

inductive ManagedError where
  | std
  | accessManagedUnauthorized (caller : Addr)
  | accessManagedInvalidAuthority (authority : Addr)

/-- What is on the chain: the time, the storages of the two contracts, and all else. -/
structure ChainState (H σ X : Type) where
  now : Nat
  manager : State H
  managed : Managed σ
  rest : X

variable {H T σ X : Type} [DecidableEq H]

/-- What is left open. -/
structure Chain (H T σ X : Type) where
  crates : Crates H
  manager : Addr
  target : Addr
  parse : String → Option (ManagedMsg T)
  json : T → String
  /-- `Selector::extract_from_serialize`. -/
  selector : T → Selector
  /-- The handler of a restricted message that may go ahead. -/
  handle : ChainState H σ X → MessageInfo → T → Option (σ × List OutMsg)
  /-- The messages and reports of the contract's own. -/
  own : ChainState H σ X → MessageInfo → String → Option (σ × List OutMsg)
  ownReply : ChainState H σ X → Nat → Bool → Option (σ × List OutMsg)
  /-- The coins of a call go to the contract it is for. -/
  transfer : X → Addr → Addr → List Coin → Option X
  /-- `query_wasm_contract_info` does not fail. -/
  contractExists : X → Addr → Bool
  others : ChainState H σ X → Call → Option (X × List OutMsg)
  othersReply : ChainState H σ X → Addr → Nat → Bool → Option (X × List OutMsg)
  otherCanCall : X → Addr → Addr → Selector → Option CanCall
  otherIsConsumingScheduledOp : X → Addr → Option Selector

namespace Chain

variable (ch : Chain H T σ X)

def ACCESS_MANAGED_CONSUME_SCHEDULED_OP_REPLY_ID : Nat := 0xffffffffffffffff

def EXECUTE_REPLY_ID : Nat := 1

def queryCtx (w : ChainState H σ X) : QueryCtx := ⟨ch.manager, w.now⟩

/-- The `CanCall` query to the authority of the contract. -/
def queryCanCall (w : ChainState H σ X) (caller : Addr) (selector : Selector) : Except ManagedError CanCall :=
  if w.managed.authority = ch.manager then
    orErr (canCall ch.crates (ch.queryCtx w) w.manager caller ch.target selector).toOption .std
  else
    orErr (ch.otherCanCall w.rest w.managed.authority caller selector) .std

inductive EnsureCanCallResult (T : Type) where
  | msg (value : T)
  | scheduled (subs : List OutMsg)

/-- First the schedule is used up, and then the contract calls itself. -/
def scheduledMsgs (authority caller : Addr) (value : T) : List OutMsg :=
  [{ contractAddr := authority
     msg := ch.crates.json (.consumeScheduledOp caller (ch.json value))
     funds := []
     id := 0
     onSuccess := false
     onError := false },
   { contractAddr := ch.target
     msg := ch.json value
     funds := []
     id := ACCESS_MANAGED_CONSUME_SCHEDULED_OP_REPLY_ID
     onSuccess := true
     onError := false }]

def ensureCanCall (w : ChainState H σ X) (info : MessageInfo) (value : T) :
    Except ManagedError (Managed σ × EnsureCanCallResult T) := do
  let answer ← ch.queryCanCall w info.sender (ch.selector value)
  match answer with
  | .immediate => pure (w.managed, .msg value)
  | .unauthorized => .error (.accessManagedUnauthorized info.sender)
  | .withDelay _ =>
    pure ({ w.managed with consumingSchedule := true },
      .scheduled (ch.scheduledMsgs w.managed.authority info.sender value))

def setAuthority (w : ChainState H σ X) (info : MessageInfo) (newAuthority : Addr) :
    Except ManagedError (Managed σ) := do
  ensure (info.sender = w.managed.authority) (.accessManagedUnauthorized info.sender)
  ensure (ch.contractExists w.rest newAuthority = true) (.accessManagedInvalidAuthority newAuthority)
  pure { w.managed with authority := newAuthority }

/-- What the contract's own code writes and asks for. -/
def ownResult (m : Managed σ) (x : Option (σ × List OutMsg)) :
    Except ManagedError (Managed σ × List OutMsg) :=
  orErr (x.map fun (own, outs) => ({ m with own := own }, outs)) .std

/-- The entry point of a guarded contract. -/
def executeManaged (w : ChainState H σ X) (info : MessageInfo) (text : String) :
    Except ManagedError (Managed σ × List OutMsg) := do
  let msg ← orErr (ch.parse text) .std
  match msg with
  | .setAuthority newAuthority => do
    let m ← ch.setAuthority w info newAuthority
    pure (m, [])
  | .restricted value => do
    let (m, result) ← ch.ensureCanCall w info value
    match result with
    | .msg value => ownResult m (ch.handle w info value)
    | .scheduled subs => pure (m, subs)
  | .own => ownResult w.managed (ch.own w info text)

/-- The panics of the source are failures. -/
def replyManaged (w : ChainState H σ X) (id : Nat) (ok : Bool) :
    Except ManagedError (Managed σ × List OutMsg) :=
  if id = ACCESS_MANAGED_CONSUME_SCHEDULED_OP_REPLY_ID then do
    ensure (ok = true ∧ w.managed.consumingSchedule = true) .std
    pure ({ w.managed with consumingSchedule := false }, [])
  else
    ownResult w.managed (ch.ownReply w id ok)

def isConsumingScheduledOp (w : ChainState H σ X) (contract : Addr) : Option Selector :=
  if contract = ch.target then
    some (if w.managed.consumingSchedule then Contract.IS_CONSUMING_SCHEDULED_OP else "")
  else
    ch.otherIsConsumingScheduledOp w.rest contract

/-! ## Calls and reports -/

def execCtx (w : ChainState H σ X) (sender : Addr) (funds : List Coin) (msg : ExecuteMsg) : ExecCtx :=
  ⟨ch.queryCtx w, sender, funds, ch.crates.json msg, ch.isConsumingScheduledOp w⟩

/-- The manager asks to hear of the success of an execute. -/
def managerSub (sub : SubMsg) : Sub Call Nat :=
  ⟨⟨ch.manager, sub.contractAddr, sub.msg, sub.funds⟩, if sub.replyOnSuccess then EXECUTE_REPLY_ID else 0,
    sub.replyOnSuccess, false⟩

section

variable (c : Call) (w : ChainState H σ X)

def execManager : Option (ChainState H σ X × List (Sub Call Nat)) := do
  let msg ← ch.crates.fromJson c.msg
  let (s, subs) ← (execute ch.crates (ch.execCtx w c.sender c.funds msg) w.manager msg).toOption
  pure ({ w with manager := s }, subs.map ch.managerSub)

def execTarget : Option (ChainState H σ X × List (Sub Call Nat)) := do
  let (m, outs) ← (ch.executeManaged w ⟨c.sender, c.funds⟩ c.msg).toOption
  pure ({ w with managed := m }, outs.map (OutMsg.toSub ch.target))

def execOther : Option (ChainState H σ X × List (Sub Call Nat)) := do
  let (x, outs) ← ch.others w c
  pure ({ w with rest := x }, outs.map (OutMsg.toSub c.contractAddr))

def exec : Option (ChainState H σ X × List (Sub Call Nat)) := do
  let rest ← ch.transfer w.rest c.sender c.contractAddr c.funds
  let w := { w with rest := rest }
  if c.contractAddr = ch.manager then ch.execManager c w
  else if c.contractAddr = ch.target then ch.execTarget c w
  else ch.execOther c w

end

def reply (owner : Addr) (id : Nat) (ok : Bool) (w : ChainState H σ X) :
    Option (ChainState H σ X × List (Sub Call Nat)) :=
  if owner = ch.manager then
    if id = EXECUTE_REPLY_ID ∧ ok = true then
      (AccessManager.reply w.manager).toOption.map fun s => ({ w with manager := s }, [])
    else
      none
  else if owner = ch.target then
    (ch.replyManaged w id ok).toOption.map fun (m, outs) =>
      ({ w with managed := m }, outs.map (OutMsg.toSub ch.target))
  else
    (ch.othersReply w owner id ok).map fun (x, outs) => ({ w with rest := x }, outs.map (OutMsg.toSub owner))

def system : System (ChainState H σ X) Call Addr Nat where
  owner := Call.contractAddr
  exec := ch.exec
  reply := ch.reply

/-! ## What a call does -/

variable {ch : Chain H T σ X} {c : Call} {w w' : ChainState H σ X} {ss : List (Sub Call Nat)}

theorem exec_eq_some :
    ch.exec c w = some (w', ss) ↔ ∃ rest, ch.transfer w.rest c.sender c.contractAddr c.funds = some rest ∧
      (if c.contractAddr = ch.manager then ch.execManager c { w with rest := rest }
        else if c.contractAddr = ch.target then ch.execTarget c { w with rest := rest }
        else ch.execOther c { w with rest := rest }) = some (w', ss) := Option.bind_eq_some_iff

theorem execManager_eq_some : ch.execManager c w = some (w', ss) ↔
      ∃ msg s subs, ch.crates.fromJson c.msg = some msg ∧
      execute ch.crates (ch.execCtx w c.sender c.funds msg) w.manager msg = .ok (s, subs) ∧
      w' = { w with manager := s } ∧ ss = subs.map ch.managerSub := by
  unfold execManager
  constructor
  · intro h
    obtain ⟨msg, hmsg, h⟩ := Option.bind_eq_some_iff.mp h
    obtain ⟨⟨s, subs⟩, hexec, h⟩ := Option.bind_eq_some_iff.mp h
    cases h
    exact ⟨msg, s, subs, hmsg, toOption_eq_some.mp hexec, rfl, rfl⟩
  · rintro ⟨msg, s, subs, hmsg, hexec, rfl, rfl⟩
    exact Option.bind_eq_some_iff.mpr ⟨msg, hmsg, Option.bind_eq_some_iff.mpr
      ⟨(s, subs), toOption_eq_some.mpr hexec, rfl⟩⟩

theorem execTarget_eq_some :
    ch.execTarget c w = some (w', ss) ↔ ∃ m outs,
      ch.executeManaged w ⟨c.sender, c.funds⟩ c.msg = .ok (m, outs) ∧
      w' = { w with managed := m } ∧ ss = outs.map (OutMsg.toSub ch.target) := by
  unfold execTarget
  constructor
  · intro h
    obtain ⟨⟨m, outs⟩, hexec, h⟩ := Option.bind_eq_some_iff.mp h
    cases h
    exact ⟨m, outs, toOption_eq_some.mp hexec, rfl, rfl⟩
  · rintro ⟨m, outs, hexec, rfl, rfl⟩
    exact Option.bind_eq_some_iff.mpr ⟨(m, outs), toOption_eq_some.mpr hexec, rfl⟩

theorem exec_manager (hc : c.contractAddr = ch.manager) (h : ch.exec c w = some (w', ss)) :
    ∃ rest msg s subs, ch.crates.fromJson c.msg = some msg ∧
      execute ch.crates (ch.execCtx { w with rest := rest } c.sender c.funds msg) w.manager msg =
        .ok (s, subs) ∧
      w' = { w with rest := rest, manager := s } ∧ ss = subs.map ch.managerSub := by
  obtain ⟨rest, -, h⟩ := exec_eq_some.mp h
  rw [if_pos hc] at h
  obtain ⟨msg, s, subs, hmsg, hexec, rfl, rfl⟩ := execManager_eq_some.mp h
  exact ⟨rest, msg, s, subs, hmsg, hexec, rfl, rfl⟩

theorem exec_other (hc : c.contractAddr ≠ ch.manager) (h : ch.exec c w = some (w', ss)) :
    w'.manager = w.manager := by
  obtain ⟨rest, -, h⟩ := exec_eq_some.mp h
  rw [if_neg hc] at h
  by_cases ht : c.contractAddr = ch.target
  · rw [if_pos ht] at h
    obtain ⟨m, outs, -, rfl, -⟩ := execTarget_eq_some.mp h
    rfl
  · rw [if_neg ht] at h
    obtain ⟨⟨x, outs⟩, -, h⟩ := Option.bind_eq_some_iff.mp h
    cases h
    rfl

variable {id : Nat}

omit [DecidableEq H] in
theorem reply_manager {ok : Bool} (h : ch.reply ch.manager id ok w = some (w', ss)) :
      id = EXECUTE_REPLY_ID ∧ ss = [] ∧
      w' = { w with manager := { w.manager with executionIdStack := w.manager.executionIdStack.tail } } := by
  unfold reply at h
  rw [if_pos rfl] at h
  split at h
  · rename_i hid
    obtain ⟨s, hs, h⟩ := Option.map_eq_some_iff.mp h
    cases h
    refine ⟨hid.1, rfl, ?_⟩
    have hpop := toOption_eq_some.mp hs
    unfold AccessManager.reply at hpop
    cases hstack : w.manager.executionIdStack with
    | nil =>
      rw [hstack] at hpop
      cases hpop
    | cons k stack =>
      rw [hstack] at hpop
      cases hpop
      rfl
  · cases h

omit [DecidableEq H] in
theorem reply_other {owner : Addr} {ok : Bool} (ho : owner ≠ ch.manager)
    (h : ch.reply owner id ok w = some (w', ss)) : w'.manager = w.manager := by
  unfold reply at h
  rw [if_neg ho] at h
  split at h
  · obtain ⟨⟨m, outs⟩, -, h⟩ := Option.map_eq_some_iff.mp h
    cases h
    rfl
  · obtain ⟨⟨x, outs⟩, -, h⟩ := Option.map_eq_some_iff.mp h
    cases h
    rfl

/-! ## The stack -/

/-- The execution id that a call of the manager pushes. -/
def pushes (ch : Chain H T σ X) (c : Call) : Option H :=
  if c.contractAddr = ch.manager then
    match ch.crates.fromJson c.msg with
    | some (.execute target data) => (ch.crates.extractFromData data).map (hashExecutionId ch.crates target)
    | _ => none
  else
    none

def pops (ch : Chain H T σ X) (owner : Addr) (id : Nat) : Bool := owner = ch.manager ∧ id = EXECUTE_REPLY_ID

theorem exec_pushes (hc : c.contractAddr = ch.manager) (h : ch.exec c w = some (w', ss)) :
    (∃ target data k funds, ch.crates.fromJson c.msg = some (.execute target data) ∧ ch.pushes c = some k ∧
        w'.manager.executionIdStack = k :: w.manager.executionIdStack ∧
        ss = [ch.managerSub ⟨target, data, funds, true⟩]) ∨
      ∃ msg, ch.crates.fromJson c.msg = some msg ∧ ch.pushes c = none ∧
        w'.manager.executionIdStack = w.manager.executionIdStack ∧
        ss = (msg.sent ch.crates).map ch.managerSub := by
  obtain ⟨rest, msg, s, subs, hmsg, hexec, rfl, rfl⟩ := exec_manager hc h
  unfold pushes
  rw [if_pos hc, hmsg]
  by_cases hexecute : ∃ target data, msg = .execute target data
  · obtain ⟨target, data, rfl⟩ := hexecute
    obtain ⟨answer, s₁, selector, -, -, hcons, hsel, rfl, rfl⟩ := execute_execute ch.crates hexec
    have hstack : s₁.executionIdStack = w.manager.executionIdStack := by
      rcases hcons with ⟨nonce, hcons⟩ | ⟨-, rfl⟩
      · obtain ⟨schedules, rfl⟩ := consumeOperation_frame hcons
        rfl
      · rfl
    refine .inl ⟨target, data, hashExecutionId ch.crates target selector, _, rfl, ?_, ?_, rfl⟩
    · simp only [hsel, Option.map_some]
    · exact congrArg _ hstack
  · have hother : ∀ target data, msg ≠ .execute target data :=
      fun target data heq => hexecute ⟨target, data, heq⟩
    refine .inr ⟨msg, rfl, ?_, execute_stack hexec hother, ?_⟩
    · cases msg with
      | execute target data => exact absurd rfl (hother target data)
      | _ => rfl
    · rw [execute_subs hexec hother]

omit [DecidableEq H] in
theorem pops_eq_true {owner : Addr} : ch.pops owner id = true ↔ owner = ch.manager ∧
      id = EXECUTE_REPLY_ID := by
  unfold pops
  exact decide_eq_true_iff

omit [DecidableEq H] in
theorem sent_quiet (ch : Chain H T σ X) (msg : ExecuteMsg) :
    ∀ s ∈ (msg.sent ch.crates).map ch.managerSub, ch.pops ch.manager s.id = false := by
  intro s hs
  obtain ⟨sub, hsub, rfl⟩ := List.mem_map.mp hs
  have hreply : sub.replyOnSuccess = false := by
    cases msg with
    | updateAuthority target newAuthority =>
      obtain rfl := List.mem_singleton.mp hsub
      rfl
    | _ => cases hsub
  rw [Bool.eq_false_iff, ne_eq, pops_eq_true]
  rintro ⟨-, hid⟩
  unfold managerSub EXECUTE_REPLY_ID at hid
  rw [hreply] at hid
  cases hid

theorem stacked (ch : Chain H T σ X) :
    Stacked ch.system (fun w => w.manager.executionIdStack) (fun c _ => ch.pushes c) ch.pops where
  exec := by
    intro c w w' ss h
    by_cases hc : c.contractAddr = ch.manager
    · rcases exec_pushes hc h with ⟨_, _, k, _, -, hpush, hstack, -⟩ | ⟨msg, -, hpush, hstack, -⟩
      · rw [hstack, hpush]
        rfl
      · rw [hstack, hpush]
        rfl
    · unfold pushes
      rw [if_neg hc, exec_other hc h]
      rfl
  pushed := by
    intro c w w' ss k h hpush
    have hc : c.contractAddr = ch.manager := by
      by_contra hc
      unfold pushes at hpush
      rw [if_neg hc] at hpush
      cases hpush
    rcases exec_pushes hc h with ⟨_, _, _, _, -, -, -, rfl⟩ | ⟨_, -, hnone, -⟩
    · exact ⟨_, rfl, rfl, rfl, pops_eq_true.mpr ⟨hc, rfl⟩⟩
    · rw [hnone] at hpush
      cases hpush
  quiet := by
    intro c w w' ss h hpush s hs
    by_cases hc : c.contractAddr = ch.manager
    · rcases exec_pushes hc h with ⟨_, _, k, _, -, hsome, -⟩ | ⟨msg, -, -, -, rfl⟩
      · rw [hsome] at hpush
        cases hpush
      · show ch.pops c.contractAddr s.id = false
        rw [hc]
        exact sent_quiet ch msg s hs
    · rw [Bool.eq_false_iff, ne_eq, pops_eq_true]
      exact fun h => hc h.1
  popped := by
    intro o i ok w w' ss h hpops
    obtain ⟨rfl, -⟩ := pops_eq_true.mp hpops
    obtain ⟨-, rfl, rfl⟩ := reply_manager h
    exact ⟨rfl, rfl⟩
  kept := by
    intro o i ok w w' ss h hpops
    have ho : o ≠ ch.manager := by
      rintro rfl
      obtain ⟨hid, -⟩ := reply_manager h
      exact absurd (pops_eq_true.mpr ⟨rfl, hid⟩) (by rw [hpops]; exact Bool.false_ne_true)
    refine ⟨congrArg State.executionIdStack (reply_other ho h), ?_⟩
    intro s _
    rw [Bool.eq_false_iff, ne_eq, pops_eq_true]
    exact fun h => ho h.1

end Chain

end UnionVoyager.AccessManager
