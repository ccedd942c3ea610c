import UnionVoyager.AccessManager.Direct
import UnionVoyager.AccessManager.Schedule
import UnionVoyager.AccessManager.Writes

/-!
# Who causes what

The manager and a guarded contract among arbitrary other contracts, over whole transactions with all
the calls that they cause.

* `manager_parent` — what the manager sends is what it was told to send; `restricted_from`, `authority_from`.
* `Sound`, `Reachable.changes_caused` — **every change comes from an account with the role for it.**
-/

namespace UnionVoyager.AccessManager

open Lib Lib.Submessages Function

/-- The name of the message that sets the authority of a guarded contract. -/
def SET_AUTHORITY : Selector := "set_authority"

/-! ## Texts of executions -/

theorem executionText_toList (target : Addr) (selector : Selector) :
    (executionText target selector).toList = target.toList ++ ':' :: selector.toList := by
  simp [executionText, String.toList_append]

theorem executionText_inj {target target' : Addr} {selector selector' : Selector}
    (htarget : ':' ∉ target.toList)
    (htarget' : ':' ∉ target'.toList) (h : executionText target selector = executionText target' selector') :
    (target, selector) = (target', selector') := by
  have hlist := congrArg String.toList h
  rw [executionText_toList, executionText_toList] at hlist
  obtain ⟨ht, hs⟩ := append_cons_inj htarget htarget' hlist
  rw [String.toList_inj.mp ht, String.toList_inj.mp hs]

theorem executionText_same {target : Addr} {selector selector' : Selector}
    (h : executionText target selector = executionText target selector') : selector = selector' := by
  have hlist := congrArg String.toList h
  rw [executionText_toList, executionText_toList] at hlist
  exact String.toList_inj.mp (List.cons.inj (List.append_cancel_left hlist)).2

theorem executionText_execute_ne (target target' : Addr) :
    executionText target "execute" ≠ executionText target' SET_AUTHORITY := by
  intro h
  have hlast := congrArg (fun text => text.toList.getLast?) h
  simp only [executionText_toList] at hlast
  have hexec : (target.toList ++ ':' :: "execute".toList).getLast? = some 'e' := by
    rw [List.getLast?_append_of_ne_nil _ (by simp)]
    rfl
  have hset : (target'.toList ++ ':' :: SET_AUTHORITY.toList).getLast? = some 'y' := by
    rw [List.getLast?_append_of_ne_nil _ (by simp)]
    rfl
  rw [hexec, hset] at hlast
  exact absurd hlast (by decide)

variable {H T σ X : Type} [DecidableEq H]

namespace Chain

variable (ch : Chain H T σ X)

/-- What the hash, JSON and the contract's own parser are relied on for.  A selector that is found
in a message is the name of the message; none need be found, as where the key is written with
escapes. -/
structure Lawful : Prop where
  distinct : ch.target ≠ ch.manager
  sha256_injective : Injective ch.crates.sha256
  fromJson_json : ∀ msg, ch.crates.fromJson (ch.crates.json msg) = some msg
  extract_fromJson : ∀ {data msg selector}, ch.crates.fromJson data = some msg →
    ch.crates.extractFromData data = some selector → selector = msg.selector
  extract_setAuthorityJson : ∀ a, ch.crates.extractFromData (ch.crates.setAuthorityJson a) =
    some SET_AUTHORITY
  extract_parse : ∀ {data a selector}, ch.parse data = some (.setAuthority a) →
    ch.crates.extractFromData data = some selector → selector = SET_AUTHORITY

/-- The states between transactions; anything else may happen on the chain in between. -/
inductive Reachable : ChainState H σ X → Prop where
  | start {w : ChainState H σ X} {ctx : ExecCtx} {initialAdmin : Addr} (hctx : ctx.toQueryCtx = ch.queryCtx w)
      (h : init ctx initialAdmin = .ok w.manager) : Reachable w
  | passed {w : ChainState H σ X} {now : Nat} {rest : X} (h : Reachable w) (hnow : w.now ≤ now) :
      Reachable { w with now := now, rest := rest }
  | transaction {w w' : ChainState H σ X} {c : Call} (h : Reachable w) (hc : c.sender ≠ ch.manager)
      (hruns : Runs ch.system (.call c) w (some w')) : Reachable w'

/-! ## Running executes -/

/-- The execute that a call of the manager is. -/
def executes (c : Call) : Option (Addr × Selector) :=
  if c.contractAddr = ch.manager then
    match ch.crates.fromJson c.msg with
    | some (.execute target data) => (ch.crates.extractFromData data).map fun selector => (target, selector)
    | _ => none
  else
    none

/-- The innermost of the calls that is an execute. -/
def innermost (around : List (Call × ChainState H σ X)) : Option (Addr × Selector) :=
  around.findSome? fun cw => ch.executes cw.1

def hashExecution (e : Addr × Selector) : H := hashExecutionId ch.crates e.1 e.2

omit [DecidableEq H] in
theorem pushes_eq (c : Call) : ch.pushes c = (ch.executes c).map ch.hashExecution := by
  unfold pushes executes
  split
  · cases ch.crates.fromJson c.msg with
    | none => rfl
    | some msg =>
      cases msg with
      | execute target data =>
        show _ = Option.map ch.hashExecution (Option.map _ _)
        rw [Option.map_map]
        rfl
      | _ => rfl
  · rfl

omit [DecidableEq H] in
theorem head?_pushedBy (around : List (Call × ChainState H σ X)) :
    (pushedBy (fun c _ => ch.pushes c) around).head? = (ch.innermost around).map ch.hashExecution := by
  unfold pushedBy innermost
  rw [List.head?_filterMap, List.map_findSome?]
  congr 1
  funext cw
  exact pushes_eq ch cw.1

/-! ## Where a call comes from -/

def Holds (w : ChainState H σ X) (roleId : RoleId) (account : Addr) : Prop :=
  hasRole (ch.queryCtx w) w.manager roleId account ≠ .no

/-- The call comes from an account with the role, or from the manager in the execute of such an account. -/
def From (role : State H → RoleId) (around : List (Call × ChainState H σ X)) (c : Call)
    (w : ChainState H σ X) : Prop :=
  c.sender ≠ ch.manager ∧ ch.Holds w (role w.manager) c.sender ∨
    c.sender = ch.manager ∧ ∃ p w₁ rest, around = (p, w₁) :: rest ∧ p.contractAddr = ch.manager ∧
      ch.crates.fromJson p.msg = some (.execute c.contractAddr c.msg) ∧ p.sender ≠ ch.manager ∧
      ch.Holds w₁ (role w₁.manager) p.sender

variable {ch} {c₀ c p : Call} {w₀ w w' w₁ w₂ : ChainState H σ X} {ss : List (Sub Call Nat)}
  {around rest : List (Call × ChainState H σ X)} {t : Task Call Addr Nat}

theorem exec_sender (h : ch.exec c w = some (w', ss)) : ∀ s ∈ ss, s.call.sender = c.contractAddr := by
  obtain ⟨x, -, h⟩ := exec_eq_some.mp h
  intro s hs
  by_cases hm : c.contractAddr = ch.manager
  · rw [if_pos hm] at h
    obtain ⟨_, _, subs, -, -, -, rfl⟩ := execManager_eq_some.mp h
    obtain ⟨sub, -, rfl⟩ := List.mem_map.mp hs
    exact hm.symm
  · rw [if_neg hm] at h
    by_cases ht : c.contractAddr = ch.target
    · rw [if_pos ht] at h
      obtain ⟨m, outs, -, -, rfl⟩ := execTarget_eq_some.mp h
      obtain ⟨out, -, rfl⟩ := List.mem_map.mp hs
      exact ht.symm
    · rw [if_neg ht] at h
      obtain ⟨⟨y, outs⟩, -, h⟩ := Option.bind_eq_some_iff.mp h
      cases h
      obtain ⟨out, -, rfl⟩ := List.mem_map.mp hs
      rfl

omit [DecidableEq H] in
theorem reply_sender {owner : Addr} {id : Nat} {ok : Bool}
    (h : ch.reply owner id ok w = some (w', ss)) : ∀ s ∈ ss, s.call.sender = owner := by
  intro s hs
  by_cases hm : owner = ch.manager
  · subst hm
    obtain ⟨-, rfl, -⟩ := reply_manager h
    cases hs
  · unfold reply at h
    rw [if_neg hm] at h
    split at h
    case isTrue ht =>
      obtain ⟨⟨m, outs⟩, -, h⟩ := Option.map_eq_some_iff.mp h
      cases h
      obtain ⟨out, -, rfl⟩ := List.mem_map.mp hs
      exact ht.symm
    case isFalse =>
      obtain ⟨⟨x, outs⟩, -, h⟩ := Option.map_eq_some_iff.mp h
      cases h
      obtain ⟨out, -, rfl⟩ := List.mem_map.mp hs
      rfl

theorem manager_parent (h : Reaches ch.system (.call c₀) w₀ around (.call c) w)
    (hc₀ : c₀.sender ≠ ch.manager) (hc : c.sender = ch.manager) :
    ∃ p w₁ rest w₂ ss, around = (p, w₁) :: rest ∧ ch.exec p w₁ = some (w₂, ss) ∧ p.contractAddr = ch.manager ∧
      (ch.crates.fromJson p.msg = some (.execute c.contractAddr c.msg) ∨
        ∃ new, ch.crates.fromJson p.msg = some (.updateAuthority c.contractAddr new) ∧
          c.msg = ch.crates.setAuthorityJson new) := by
  cases around with
  | nil =>
    obtain rfl : c₀ = c := h.begins
    exact absurd hc hc₀
  | cons head rest =>
    obtain ⟨p, w₁⟩ := head
    obtain ⟨w₂, ss, hexec, hinner⟩ := h.parent rfl
    refine ⟨p, w₁, rest, w₂, ss, rfl, hexec, ?_⟩
    rcases hinner.begins with ⟨s, hs, rfl⟩ | ⟨i, ok, v, v', ss', hreply, s, hs, rfl⟩
    · have hp : p.contractAddr = ch.manager := (exec_sender hexec s hs).symm.trans hc
      refine ⟨hp, ?_⟩
      rcases exec_pushes hp hexec with ⟨target, data, _, funds, hmsg, -, -, rfl⟩ | ⟨msg, hmsg, -, -, rfl⟩
      · obtain rfl := List.mem_singleton.mp hs
        exact .inl hmsg
      · obtain ⟨sub, hsub, rfl⟩ := List.mem_map.mp hs
        cases msg with
        | updateAuthority target new =>
          obtain rfl := List.mem_singleton.mp hsub
          exact .inr ⟨new, hmsg, rfl⟩
        | _ => cases hsub
    · -- the manager answers no report with a call
      have hp : p.contractAddr = ch.manager := (reply_sender hreply s hs).symm.trans hc
      have hreply : ch.reply p.contractAddr i ok v = some (v', ss') := hreply
      rw [hp] at hreply
      obtain ⟨-, rfl, -⟩ := reply_manager hreply
      cases hs

/-! ## Who is behind a call of the manager -/

variable {target : Addr} {data : String} {selector : Selector} {msg : ExecuteMsg}

omit [DecidableEq H] in
theorem isExecuting_eq_true [DecidableEq H] {s : State H} : isExecuting ch.crates s target selector = true ↔
      s.executionIdStack.head? = some (hashExecutionId ch.crates target selector) := decide_eq_true_iff

theorem head?_of_executed (h : Reaches ch.system (.call c₀) w₀ ((p, w₁) :: rest) t w) (ht : t.Single)
    (hp : p.contractAddr = ch.manager) (hmsg : ch.crates.fromJson p.msg = some (.execute target data))
    (hselector : ch.crates.extractFromData data = some selector) :
    w.manager.executionIdStack.head? = some (hashExecutionId ch.crates target selector) := by
  have hstack := (stacked ch).running h ht
  have hpush : ch.pushes p = some (hashExecutionId ch.crates target selector) := by
    unfold pushes
    rw [if_pos hp, hmsg]
    show (ch.crates.extractFromData data).map _ = _
    rw [hselector]
    rfl
  have hpushed : pushedBy (fun c _ => ch.pushes c) ((p, w₁) :: rest) =
      hashExecutionId ch.crates target selector :: pushedBy (fun c _ => ch.pushes c) rest :=
    List.filterMap_cons_some hpush
  rw [hstack, hpushed]
  rfl

theorem restricted_selector (hmsg : restricted msg = true) :
    msg.selector ≠ "execute" ∧ msg.selector ≠ SET_AUTHORITY := by
  cases msg with
  | renounceRole | schedule | cancel | execute | consumeScheduledOp => cases hmsg
  | _ => simp [ExecuteMsg.selector, SET_AUTHORITY]

theorem head?_of_self_execute (hch : ch.Lawful) (h : Reaches ch.system (.call c₀) w₀ around (.call p) w₁)
    (hc₀ : c₀.sender ≠ ch.manager) (hp : p.contractAddr = ch.manager) (hsender : p.sender = ch.manager)
    (hmsg : ch.crates.fromJson p.msg = some (.execute target data)) :
    w₁.manager.executionIdStack.head? = some (hashExecutionId ch.crates ch.manager "execute") := by
  obtain ⟨q, v, rest, _, _, rfl, hqexec, hq, hasked⟩ := manager_parent h hc₀ hsender
  rcases hasked with hexec | ⟨new, -, hset⟩
  · rw [hp] at hexec
    -- the manager took the selector from the message when it executed it
    obtain ⟨_, msg, _, _, hmsg', hexecute, -, -⟩ := exec_manager hq hqexec
    obtain rfl := Option.some.inj (hexec.symm.trans hmsg')
    obtain ⟨-, -, selector, -, -, -, hsel, -, -⟩ := execute_execute ch.crates hexecute
    obtain rfl := hch.extract_fromJson hmsg hsel
    exact head?_of_executed h trivial hq hexec hsel
  · have hsel := hch.extract_setAuthorityJson new
    rw [← hset] at hsel
    have hname : SET_AUTHORITY = "execute" := hch.extract_fromJson hmsg hsel
    exact absurd hname (by decide)

/-- **Who has the manager execute a restricted function of its own is an account with the role for it.** -/
theorem execute_restricted_holds (hch : ch.Lawful) (h : Reaches ch.system (.call c₀) w₀ around (.call p) w₁)
    (hc₀ : c₀.sender ≠ ch.manager) (hp : p.contractAddr = ch.manager) (hexec : ch.exec p w₁ = some (w₂, ss))
    (hexecute : ch.crates.fromJson p.msg = some (.execute ch.manager data))
    (hdata : ch.crates.fromJson data = some msg) (hmsg : restricted msg = true) :
    p.sender ≠ ch.manager ∧ ch.Holds w₁ (msg.requiredRole w₁.manager) p.sender := by
  obtain ⟨x, msg', s, subs, hmsg', hexec', -, -⟩ := exec_manager hp hexec
  obtain rfl := Option.some.inj (hexecute.symm.trans hmsg')
  obtain ⟨answer, _, _, hans, hauthorized, -, -, -, -⟩ := execute_execute ch.crates hexec'
  have hself : canCallSelf ch.crates (ch.queryCtx w₁) w₁.manager p.sender data = .ok answer := by
    unfold canCallExtended at hans
    exact (if_pos rfl).symm.trans hans
  by_cases hsender : p.sender = ch.manager
  · -- the function on top of the stack is `execute` itself
    exfalso
    rw [hsender] at hself
    obtain ⟨selector, hsel, hexecuting⟩ := canCallSelf_this hself hauthorized
    obtain rfl := hch.extract_fromJson hdata hsel
    have htop := isExecuting_eq_true.mp hexecuting
    rw [head?_of_self_execute hch h hc₀ hp hsender hexecute] at htop
    have htext := hch.sha256_injective (Option.some.inj htop)
    exact (restricted_selector hmsg).1 (executionText_same htext).symm
  · exact ⟨hsender, canCallSelf_restricted hmsg hdata hsender hself hauthorized⟩

theorem restricted_from (hch : ch.Lawful) (h : Reaches ch.system (.call c₀) w₀ around (.call c) w)
    (hc₀ : c₀.sender ≠ ch.manager) (hc : c.contractAddr = ch.manager)
    (hexec : ch.exec c w = some (w', ss)) (hjson : ch.crates.fromJson c.msg = some msg)
    (hmsg : restricted msg = true) : ch.From msg.requiredRole around c w := by
  by_cases hsender : c.sender = ch.manager
  · obtain ⟨p, w₁, rest, w₂, ss', rfl, hpexec, hp, hasked⟩ := manager_parent h hc₀ hsender
    rcases hasked with hexecute | ⟨new, -, hset⟩
    · have hexecute' := hexecute
      rw [hc] at hexecute'
      obtain ⟨hother, hholds⟩ :=
        execute_restricted_holds hch (h.ancestor (List.nil_append _).symm) hc₀ hp hpexec hexecute' hjson hmsg
      exact .inr ⟨hsender, p, w₁, rest, rfl, hp, hexecute, hother, hholds⟩
    · -- a message that sets an authority is none of the manager's
      have hsel := hch.extract_setAuthorityJson new
      rw [← hset] at hsel
      exact absurd (hch.extract_fromJson hjson hsel).symm (restricted_selector hmsg).2
  · obtain ⟨x, msg', s, subs, hmsg', hexec', -, -⟩ := exec_manager hc hexec
    obtain rfl := Option.some.inj (hjson.symm.trans hmsg')
    obtain ⟨answer, hans, hauthorized⟩ := execute_canCallSelf hmsg hexec'
    exact .inl ⟨hsender, canCallSelf_restricted hmsg (hch.fromJson_json _) hsender hans hauthorized⟩

/-! ## Who is behind a new authority -/

theorem executeManaged_authority {info : MessageInfo} {text : String} {m : Managed σ}
    {outs : List OutMsg} (h : ch.executeManaged w info text = .ok (m, outs)) :
    m.authority = w.managed.authority ∨
      ∃ new, ch.parse text = some (.setAuthority new) ∧ info.sender = w.managed.authority := by
  obtain ⟨msg, hmsg, h⟩ := bind_eq_ok.mp h
  have hown : ∀ {m₀ : Managed σ} {x : Option (σ × List OutMsg)}, ownResult m₀ x = .ok (m, outs) →
      m.authority = m₀.authority := by
    intro m₀ x hx
    obtain ⟨⟨own, outs'⟩, -, heq⟩ := Option.map_eq_some_iff.mp (orErr_eq_ok.mp hx)
    cases heq
    rfl
  cases msg with
  | setAuthority new =>
    obtain ⟨m₁, hset, -⟩ := bind_eq_ok.mp h
    obtain ⟨_, hsender, -⟩ := bind_eq_ok.mp hset
    exact .inr ⟨new, orErr_eq_ok.mp hmsg, ensure_eq_ok.mp hsender⟩
  | restricted value =>
    left
    obtain ⟨⟨m₁, result⟩, hensure, h⟩ := bind_eq_ok.mp h
    have hm₁ : m₁.authority = w.managed.authority := by
      obtain ⟨answer, -, hpure⟩ := bind_eq_ok.mp hensure
      cases answer with
      | immediate | withDelay =>
        cases hpure
        rfl
      | unauthorized => cases hpure
    cases result with
    | msg value' => exact (hown h).trans hm₁
    | scheduled subs =>
      cases h
      exact hm₁
  | own => exact .inl (hown h)

theorem exec_authority (h : ch.exec c w = some (w', ss))
    (hchange : w'.managed.authority ≠ w.managed.authority) : c.contractAddr = ch.target ∧
      ∃ new, ch.parse c.msg = some (.setAuthority new) ∧ c.sender = w.managed.authority := by
  obtain ⟨x, -, h⟩ := exec_eq_some.mp h
  by_cases hm : c.contractAddr = ch.manager
  · rw [if_pos hm] at h
    obtain ⟨_, _, _, -, -, rfl, -⟩ := execManager_eq_some.mp h
    exact absurd rfl hchange
  · rw [if_neg hm] at h
    by_cases ht : c.contractAddr = ch.target
    · rw [if_pos ht] at h
      obtain ⟨m, outs, hexec, rfl, -⟩ := execTarget_eq_some.mp h
      rcases executeManaged_authority hexec with hsame | hset
      · exact absurd hsame hchange
      · exact ⟨ht, hset⟩
    · rw [if_neg ht] at h
      obtain ⟨⟨y, outs⟩, -, h⟩ := Option.bind_eq_some_iff.mp h
      cases h
      exact absurd rfl hchange

theorem execute_setAuthority_holds (hch : ch.Lawful) (h : Reaches ch.system (.call c₀) w₀ around (.call p) w₁)
    (hc₀ : c₀.sender ≠ ch.manager) (hp : p.contractAddr = ch.manager) (hexec : ch.exec p w₁ = some (w₂, ss))
    (hexecute : ch.crates.fromJson p.msg = some (.execute ch.target data))
    (hdata : ∀ selector, ch.crates.extractFromData data = some selector → selector = SET_AUTHORITY) :
    p.sender ≠ ch.manager ∧ ch.Holds w₁ (functionRole ch.target SET_AUTHORITY w₁.manager) p.sender := by
  obtain ⟨x, msg', s, subs, hmsg', hexec', -, -⟩ := exec_manager hp hexec
  obtain rfl := Option.some.inj (hexecute.symm.trans hmsg')
  obtain ⟨answer, _, _, hans, hauthorized, -, -, -, -⟩ := execute_execute ch.crates hexec'
  have hcall : canCall ch.crates (ch.queryCtx w₁) w₁.manager p.sender ch.target SET_AUTHORITY =
      .ok answer := by
    unfold canCallExtended at hans
    have hbind := (if_neg hch.distinct).symm.trans hans
    obtain ⟨selector, hsel, hcall⟩ := bind_eq_ok.mp hbind
    obtain rfl := hdata selector (orErr_eq_ok.mp hsel)
    exact hcall
  rcases canCall_cases hcall hauthorized with hinternal | ⟨hsender, hexecuting⟩ | hholds
  · exact absurd hinternal (by decide)
  · exfalso
    have htop := isExecuting_eq_true.mp hexecuting
    rw [head?_of_self_execute hch h hc₀ hp hsender hexecute] at htop
    exact executionText_execute_ne _ _ (hch.sha256_injective (Option.some.inj htop))
  · exact hholds

theorem authority_from (hch : ch.Lawful) (h : Reaches ch.system (.call c₀) w₀ around (.call c) w)
    (hc₀ : c₀.sender ≠ ch.manager) (hexec : ch.exec c w = some (w', ss))
      (hauthority : w.managed.authority = ch.manager)
    (hchange : w'.managed.authority ≠ w.managed.authority) :
    ch.From (functionRole ch.target SET_AUTHORITY) around c w ∨
      ∃ p w₁ rest new, around = (p, w₁) :: rest ∧ p.contractAddr = ch.manager ∧
        ch.crates.fromJson p.msg = some (.updateAuthority ch.target new) ∧
        ch.From (fun _ => RoleId.ADMIN_ROLE) rest p w₁ := by
  obtain ⟨ht, new, hparse, hsender⟩ := exec_authority hexec hchange
  rw [hauthority] at hsender
  obtain ⟨p, w₁, rest, w₂, ss', rfl, hpexec, hp, hasked⟩ := manager_parent h hc₀ hsender
  have hreached := h.ancestor (List.nil_append _).symm
  rcases hasked with hexecute | ⟨new', hupd, -⟩
  · have hexecute' := hexecute
    rw [ht] at hexecute'
    obtain ⟨hother, hholds⟩ :=
      execute_setAuthority_holds hch hreached hc₀ hp hpexec hexecute' fun _ => hch.extract_parse hparse
    exact .inl (.inr ⟨hsender, p, w₁, rest, rfl, hp, hexecute, hother, hholds⟩)
  · rw [ht] at hupd
    exact .inr ⟨p, w₁, rest, new', rfl, hp, hupd, restricted_from hch hreached hc₀ hp hpexec hupd rfl⟩

/-! ## Transactions -/

variable (ch) in
/-- A call on the way of the transaction does this to the state. -/
def MadeBy (c₀ : Call) (w₀ : ChainState H σ X) (change : ChainState H σ X → ChainState H σ X → Prop) : Prop :=
  ∃ around c w w' ss, Reaches ch.system (.call c₀) w₀ around (.call c) w ∧
    ch.exec c w = some (w', ss) ∧ change w w'

variable (ch) in
/-- A message of the manager that is about the item comes from an account with the role that it asks
for, or is the renounce of an account itself. -/
def Written (item : Item) (around : List (Call × ChainState H σ X)) (c : Call)
    (w : ChainState H σ X) : Prop :=
  ∃ msg, c.contractAddr = ch.manager ∧ ch.crates.fromJson c.msg = some msg ∧ msg.writes item ∧
    (ch.From msg.requiredRole around c w ∨
      ∃ roleId, msg = .renounceRole roleId c.sender ∧ item = .member roleId c.sender)

variable (ch) in
/-- The account has its role revoked by one with the admin role of the role, or renounces it itself. -/
def Left (roleId : RoleId) (account : Addr) (around : List (Call × ChainState H σ X)) (c : Call)
    (w : ChainState H σ X) : Prop :=
  c.contractAddr = ch.manager ∧
    (ch.crates.fromJson c.msg = some (.revokeRole roleId account) ∧
        ch.From (fun s => getRoleAdmin s roleId) around c w ∨
      ch.crates.fromJson c.msg = some (.renounceRole roleId account) ∧ c.sender = account)

variable (ch) in
/-- The authority is set in the execute of an account with the role of that function, or is updated
    by an admin. -/
def GivenAway (around : List (Call × ChainState H σ X)) (c : Call) (w : ChainState H σ X) : Prop :=
  ch.From (functionRole ch.target SET_AUTHORITY) around c w ∨
    ∃ p w₁ rest new, around = (p, w₁) :: rest ∧ p.contractAddr = ch.manager ∧
      ch.crates.fromJson p.msg = some (.updateAuthority ch.target new) ∧
      ch.From (fun _ => RoleId.ADMIN_ROLE) rest p w₁

omit [DecidableEq H] in
theorem holds_congr {roleId : RoleId} {account : Addr} (hnow : w'.now = w.now)
    (hkept : (Item.member roleId account).Kept w.manager w'.manager) (h : ch.Holds w roleId account) :
    ch.Holds w' roleId account := by
  have hslot : w'.manager.roleMembers (roleId, account) = w.manager.roleMembers (roleId, account) := hkept
  intro hno
  obtain ⟨hpublic, hsince⟩ := hasRole_eq_no.mp hno
  rw [hslot] at hsince
  have htime : (ch.queryCtx w').timestamp = (ch.queryCtx w).timestamp := hnow
  rw [htime] at hsince
  exact h (hasRole_eq_no.mpr ⟨hpublic, hsince⟩)

theorem exec_now (h : ch.exec c w = some (w', ss)) : w'.now = w.now := by
  obtain ⟨x, -, h⟩ := exec_eq_some.mp h
  by_cases hm : c.contractAddr = ch.manager
  · rw [if_pos hm] at h
    obtain ⟨_, _, _, -, -, rfl, -⟩ := execManager_eq_some.mp h
    rfl
  · rw [if_neg hm] at h
    by_cases ht : c.contractAddr = ch.target
    · rw [if_pos ht] at h
      obtain ⟨_, _, -, rfl, -⟩ := execTarget_eq_some.mp h
      rfl
    · rw [if_neg ht] at h
      obtain ⟨_, -, h⟩ := Option.bind_eq_some_iff.mp h
      cases h
      rfl

omit [DecidableEq H] in
theorem replyManaged_authority {id : Nat} {ok : Bool} {m : Managed σ} {outs : List OutMsg}
    (h : ch.replyManaged w id ok = .ok (m, outs)) : m.authority = w.managed.authority := by
  unfold replyManaged at h
  split at h
  · obtain ⟨_, -, hpure⟩ := bind_eq_ok.mp h
    cases hpure
    rfl
  · obtain ⟨_, -, heq⟩ := Option.map_eq_some_iff.mp (orErr_eq_ok.mp h)
    cases heq
    rfl

omit [DecidableEq H] in
/-- **A report changes nothing that anyone needs a role for.** -/
theorem reply_frame {owner : Addr} {id : Nat} {ok : Bool} (h : ch.reply owner id ok w = some (w', ss)) :
    w'.now = w.now ∧ w'.managed.authority = w.managed.authority ∧ ∀ item :
      Item, item.Kept w.manager w'.manager := by
  by_cases hm : owner = ch.manager
  · subst hm
    obtain ⟨-, -, rfl⟩ := reply_manager h
    exact ⟨rfl, rfl, fun _ => Item.kept_stack _⟩
  · have hmanager := reply_other hm h
    unfold reply at h
    rw [if_neg hm] at h
    rw [hmanager]
    refine and_assoc.mp ⟨?_, fun _ => Item.Kept.refl _⟩
    split at h
    · obtain ⟨_, hreply, h⟩ := Option.map_eq_some_iff.mp h
      cases h
      exact ⟨rfl, replyManaged_authority (toOption_eq_some.mp hreply)⟩
    · obtain ⟨_, -, h⟩ := Option.map_eq_some_iff.mp h
      cases h
      exact ⟨rfl, rfl⟩

/-- **What a transaction changes, a call on its way changes.** -/
theorem madeBy_of_runs (kept : ChainState H σ X → ChainState H σ X → Prop) (hrefl : ∀ w, kept w w)
    (htrans : ∀ {w w' w''}, kept w w' → kept w' w'' → kept w w'')
    (hreply : ∀ {owner id ok w w' ss}, ch.reply owner id ok w = some (w', ss) → kept w w')
    (h : Runs ch.system (.call c₀) w₀ (some w₁)) (hchange : ¬ kept w₀ w₁) :
    ch.MadeBy c₀ w₀ fun w w' => ¬ kept w w' := by
  by_contra hnone
  refine hchange (h.rel_of_reached hrefl htrans hreply ?_)
  intro around c w w' ss hreached hexec
  by_contra hnot
  exact hnone ⟨around, c, w, w', ss, hreached, hexec, hnot⟩

variable (ch) in
/-- What is true of a transaction and of all that it causes. -/
structure Sound (c₀ : Call) (w₀ : ChainState H σ X) : Prop where
  /-- Where a call or a report begins, the innermost running execute is on top of the stack. -/
  top : ∀ {around t w}, Reaches ch.system (.call c₀) w₀ around t w → t.Single →
    w.manager.executionIdStack.head? = (ch.innermost around).map ch.hashExecution
  emptied : ∀ {w₁}, Runs ch.system (.call c₀) w₀ (some w₁) → w₁.manager.executionIdStack = []
  /-- The manager is let through to internal functions, and to the one that it is executing. -/
  asManager : ∀ {around t w target selector answer}, Reaches ch.system (.call c₀) w₀ around t w → t.Single →
    canCall ch.crates (ch.queryCtx w) w.manager ch.manager target selector = .ok answer →
      answer ≠ .unauthorized →
    isInternal selector = true ∨ ∃ e, ch.innermost around = some e ∧
      executionText e.1 e.2 = executionText target selector ∧
      (':' ∉ target.toList → ':' ∉ e.1.toList → e = (target, selector))
  written : ∀ {around c w w' ss} {item : Item}, Reaches ch.system (.call c₀) w₀ around (.call c) w →
    ch.exec c w = some (w', ss) → ¬ item.Kept w.manager w'.manager → ch.Written item around c w
  authority : ∀ {around c w w' ss}, Reaches ch.system (.call c₀) w₀ around (.call c) w →
    ch.exec c w = some (w', ss) → w.managed.authority = ch.manager →
    w'.managed.authority ≠ w.managed.authority → ch.GivenAway around c w
  left : ∀ {around c w w' ss roleId account}, Reaches ch.system (.call c₀) w₀ around (.call c) w →
    ch.exec c w = some (w', ss) → ch.Holds w roleId account → ¬ ch.Holds w' roleId account →
    ch.Left roleId account around c w
  /-- What the transaction changes as a whole, one of the calls changes. -/
  made : ∀ {w₁}, Runs ch.system (.call c₀) w₀ (some w₁) →
    (∀ item : Item, ¬ item.Kept w₀.manager w₁.manager →
      ch.MadeBy c₀ w₀ fun w w' => ¬ item.Kept w.manager w'.manager) ∧
    (w₁.managed.authority ≠ w₀.managed.authority →
      ch.MadeBy c₀ w₀ fun w w' => w'.managed.authority ≠ w.managed.authority) ∧
    ∀ roleId account, ch.Holds w₀ roleId account → ¬ ch.Holds w₁ roleId account →
      ch.MadeBy c₀ w₀ fun w w' => ch.Holds w roleId account ∧ ¬ ch.Holds w' roleId account

theorem Reachable.stack_nil (h : ch.Reachable w) : w.manager.executionIdStack = [] := by
  induction h with
  | @start w ctx initialAdmin _ h =>
    obtain ⟨⟨s, newMember⟩, hgrant, hpure⟩ := bind_eq_ok.mp h
    obtain rfl := pure_eq_ok.mp hpure
    exact (Contract.grantRoleUnchecked_frame hgrant).executionIdStack
  | passed _ _ ih => exact ih
  | transaction _ _ hruns ih => exact ((stacked ch).balanced hruns).trans ih

theorem head?_of_reached (hstack : w₀.manager.executionIdStack = [])
    (h : Reaches ch.system (.call c₀) w₀ around t w) (ht : t.Single) :
    w.manager.executionIdStack.head? = (ch.innermost around).map ch.hashExecution := by
  have hrunning := (stacked ch).running h ht
  rw [hstack, List.append_nil] at hrunning
  rw [hrunning, head?_pushedBy]

theorem written_of_exec (hch : ch.Lawful) (h : Reaches ch.system (.call c₀) w₀ around (.call c) w)
    (hc₀ : c₀.sender ≠ ch.manager) (hexec : ch.exec c w = some (w', ss)) {item : Item}
    (hchange : ¬ item.Kept w.manager w'.manager) : ch.Written item around c w := by
  have hc : c.contractAddr = ch.manager := by
    by_contra hother
    rw [exec_other hother hexec] at hchange
    exact hchange (Item.Kept.refl _)
  obtain ⟨x, msg, s, subs, hmsg, hexec', rfl, -⟩ := exec_manager hc hexec
  have hwrites : msg.writes item := by
    by_contra hnot
    exact hchange (execute_kept hexec' hnot)
  refine ⟨msg, hc, hmsg, hwrites, ?_⟩
  rcases restricted_of_writes hwrites with hrestricted | ⟨roleId, account, rfl, rfl⟩
  · exact .inl (restricted_from hch h hc₀ hc hexec hmsg hrestricted)
  · have hself : account = c.sender := (execute_renounceRole ch.crates hexec').1
    subst hself
    exact .inr ⟨roleId, rfl, rfl⟩

theorem left_of_exec (hch : ch.Lawful) (h : Reaches ch.system (.call c₀) w₀ around (.call c) w)
    (hc₀ : c₀.sender ≠ ch.manager) (hexec : ch.exec c w = some (w', ss)) {roleId : RoleId}
    {account : Addr} (hbefore : ch.Holds w roleId account) (hafter : ¬ ch.Holds w' roleId account) :
    ch.Left roleId account around c w := by
  have hnow := exec_now hexec
  obtain ⟨msg, hc, hmsg, -, -⟩ := written_of_exec hch h hc₀ hexec fun hkept =>
    hafter (holds_congr hnow hkept hbefore)
  obtain ⟨x, msg', s, subs, hmsg', hexec', rfl, -⟩ := exec_manager hc hexec
  obtain rfl := Option.some.inj (hmsg.symm.trans hmsg')
  have hlost := execute_lost hexec' hbefore (not_ne_iff.mp hafter)
  refine ⟨hc, ?_⟩
  cases msg with
  | revokeRole r a =>
    obtain ⟨rfl, rfl⟩ := Prod.mk.inj (Option.some.inj hlost)
    exact .inl ⟨hmsg, restricted_from hch h hc₀ hc hexec hmsg rfl⟩
  | renounceRole r a =>
    obtain ⟨rfl, rfl⟩ := Prod.mk.inj (Option.some.inj hlost)
    exact .inr ⟨hmsg, (execute_renounceRole ch.crates hexec').1.symm⟩
  | _ => cases hlost

/-- **Every change of who may do what comes from an account that may make it.** -/
theorem Reachable.changes_caused (hch : ch.Lawful) (h : ch.Reachable w₀)
    (hc₀ : c₀.sender ≠ ch.manager) : w₀.manager.executionIdStack = [] ∧ ch.Sound c₀ w₀ := by
  have hstack := h.stack_nil
  refine ⟨hstack, ?_⟩
  exact
    { top := head?_of_reached hstack
      emptied := fun hruns => ((stacked ch).balanced hruns).trans hstack
      asManager := by
        intro around t w target selector answer hreached ht hcall hauthorized
        rcases canCall_cases hcall hauthorized with hinternal | ⟨-, hexecuting⟩ | ⟨hother, -⟩
        · exact .inl hinternal
        · have htop := isExecuting_eq_true.mp hexecuting
          rw [head?_of_reached hstack hreached ht] at htop
          obtain ⟨e, he, hhash⟩ := Option.map_eq_some_iff.mp htop
          have htext : executionText e.1 e.2 = executionText target selector := hch.sha256_injective hhash
          exact .inr ⟨e, he, htext, fun htarget htarget' => executionText_inj htarget' htarget htext⟩
        · exact absurd rfl hother
      written := fun hreached hexec => written_of_exec hch hreached hc₀ hexec
      authority := fun hreached hexec => authority_from hch hreached hc₀ hexec
      left := fun hreached hexec => left_of_exec hch hreached hc₀ hexec
      made := by
        intro w₁ hruns
        refine ⟨fun item => ?_, ?_, fun roleId account hbefore hafter => ?_⟩
        · exact madeBy_of_runs (fun w w' => item.Kept w.manager w'.manager) (fun w => .refl w.manager) .trans
            (fun hr => (reply_frame hr).2.2 item) hruns
        · exact madeBy_of_runs (fun w w' => w'.managed.authority = w.managed.authority) (fun _ => rfl)
            (fun h h' => h'.trans h) (fun hr => (reply_frame hr).2.1) hruns
        · -- the time of the block stays what it is
          obtain ⟨around, c, w, w', ss, hreached, hexec, hnot⟩ := madeBy_of_runs
            (fun w w' => w'.now = w.now ∧ (ch.Holds w roleId account → ch.Holds w' roleId account))
            (fun _ => ⟨rfl, id⟩) (fun h h' => ⟨h'.1.trans h.1, h'.2 ∘ h.2⟩)
            (fun hr => ⟨(reply_frame hr).1, holds_congr (reply_frame hr).1 ((reply_frame hr).2.2 _)⟩) hruns
            fun hkept => hafter (hkept.2 hbefore)
          refine ⟨around, c, w, w', ss, hreached, hexec, ?_⟩
          by_contra hboth
          exact hnot ⟨exec_now hexec, fun hholds => by_contra fun hlost => hboth ⟨hholds, hlost⟩⟩ }

end Chain

/-! ## A counter that is given away -/

namespace Sample

theorem counter_lawful : counter.Lawful where
  distinct := by decide
  sha256_injective := injective_id
  fromJson_json := ofJson_jsonOf
  extract_fromJson := by
    intro data msg selector h hsel
    have hjson : ofJson data = some msg := h
    have hplain : ¬ SetsAuthority data := by
      intro hset
      unfold ofJson at hjson
      split at hjson
      case isTrue hall =>
        have hb := List.all_eq_true.mp hall 'b' (List.mem_of_head? hset)
        exact absurd hb (by decide)
      case isFalse => cases hjson
    replace hsel : (if SetsAuthority data then _ else _) = _ := hsel
    rw [if_neg hplain, hjson] at hsel
    exact (Option.some.inj hsel).symm
  extract_setAuthorityJson := by
    intro a
    refine if_pos ?_
    show ("b" ++ a).toList.head? = some 'b'
    rw [String.toList_append]
    rfl
  extract_parse := by
    intro data a selector h hsel
    have hset : SetsAuthority data := by
      by_contra hplain
      replace h : (if SetsAuthority data then _ else if data =
          "count" then some (ManagedMsg.restricted ()) else none) =
          some (ManagedMsg.setAuthority a) := h
      rw [if_neg hplain] at h
      split at h <;> cases h
    replace hsel : (if SetsAuthority data then _ else _) = _ := hsel
    rw [if_pos hset] at hsel
    exact (Option.some.inj hsel).symm

def counterDeployed : ChainState String Nat Unit := ⟨1, start, ⟨"m", false, 0⟩, ()⟩

/-- Everyone may set the authority of the counter. -/
def opening : ExecuteMsg := .setTargetFunctionRole "t" [SET_AUTHORITY] RoleId.PUBLIC_ROLE

def rootOpens : Call := ⟨"root", "m", jsonOf opening, []⟩

def counterOpened : ChainState String Nat Unit :=
  { counterDeployed with
    manager := { start with
      targetAllowedRoles := update start.targetAllowedRoles ("t", SET_AUTHORITY) (some RoleId.PUBLIC_ROLE) } }

/-- Someone gives the counter to himself. -/
def anyoneTakes : Call := ⟨"c", "m", jsonOf (.execute "t" "bc"), []⟩

def counterTaking : ChainState String Nat Unit :=
  { counterOpened with manager := { counterOpened.manager with executionIdStack := ["t:set_authority"] } }

def counterTaken : ChainState String Nat Unit := { counterTaking with managed := ⟨"c", false, 0⟩ }

def managerGives : Call := ⟨"m", "t", "bc", []⟩

theorem counter_exec (sender : Addr) (msg : ExecuteMsg) (subs : List SubMsg) {w : ChainState String Nat Unit}
    {s : State String} (h : execute counter.crates (counter.execCtx w sender [] msg) w.manager msg =
      .ok (s, subs)) :
    counter.exec ⟨sender, "m", jsonOf msg, []⟩ w =
      some ({ w with manager := s }, subs.map counter.managerSub) := by
  apply Chain.exec_eq_some.mpr
  refine ⟨(), rfl, (if_pos rfl).trans ?_⟩
  exact Chain.execManager_eq_some.mpr ⟨msg, s, subs, ofJson_jsonOf msg, h, rfl, rfl⟩

theorem counter_checkAuthorized (sender : Addr) (msg : ExecuteMsg) {w : ChainState String Nat Unit}
    (h : ∀ data, ofJson data = some msg →
      canCallSelf counter.crates (counter.queryCtx w) w.manager sender data = .ok .immediate) :
    checkAuthorized counter.crates (counter.execCtx w sender [] msg) w.manager = .ok w.manager :=
  bind_eq_ok.mpr ⟨.immediate, h _ (ofJson_jsonOf msg), rfl⟩

theorem counterDeployed_reachable : counter.Reachable counterDeployed := by
  refine @Chain.Reachable.start _ _ _ _ _ counter counterDeployed deployed "root" rfl ?_
  exact init_eq

theorem rootOpens_exec : counter.exec rootOpens counterDeployed = some (counterOpened, []) := by
  have hcheck := counter_checkAuthorized "root" opening (w := counterDeployed) <| by
    intro data hdata
    unfold canCallSelf getAdminRestrictions
    rw [show counter.crates.fromJson data = some opening from hdata]
    rfl
  refine counter_exec "root" opening [] (silent_eq_ok.mpr ⟨?_, rfl⟩)
  exact bind_eq_ok.mpr ⟨start, hcheck, rfl⟩

theorem counterOpened_reachable : counter.Reachable counterOpened := by
  have hroot : rootOpens.sender ≠ counter.manager := by
    show "root" ≠ "m"
    decide
  exact .transaction counterDeployed_reachable hroot (.accepted rootOpens_exec .done)

theorem anyoneTakes_exec : counter.exec anyoneTakes counterOpened =
    some (counterTaking, [counter.managerSub ⟨"t", "bc", [], true⟩]) :=
  counter_exec "c" (.execute "t" "bc") [⟨"t", "bc", [], true⟩] rfl

theorem anyoneTakes_sender : anyoneTakes.sender ≠ counter.manager := by
  show "c" ≠ "m"
  decide

theorem managerGives_exec : counter.exec managerGives counterTaking = some (counterTaken, []) := rfl

end Sample

open Sample in
theorem counterOpened_sound : counterOpened.manager.executionIdStack = [] ∧
      counter.Sound anyoneTakes counterOpened :=
  Chain.Reachable.changes_caused counter_lawful counterOpened_reachable anyoneTakes_sender

open Sample in
/-- **The authority of a contract is given away without an admin.** -/
theorem authority_without_admin :
    ¬ ∀ (ch : Chain String Unit Nat Unit) (w₀ : ChainState String Nat Unit) (c₀ : Call), ch.Lawful →
      ch.Reachable w₀ →
      c₀.sender ≠ ch.manager → ∀ around c w w' ss, Reaches ch.system (.call c₀) w₀ around (.call c) w →
      ch.exec c w = some (w', ss) → w.managed.authority = ch.manager →
        w'.managed.authority ≠ w.managed.authority →
      ∃ p w₁, (p, w₁) ∈ (c, w) :: around ∧ p.sender ≠ ch.manager ∧
        ch.Holds w₁ RoleId.ADMIN_ROLE p.sender := by
  intro h
  have hreached : Reaches counter.system (.call anyoneTakes) counterOpened
      ([] ++ [(anyoneTakes, counterOpened)])
      (.call managerGives) counterTaking := .within anyoneTakes_exec (.first .start)
  obtain ⟨p, w₁, hmem, hother, hholds⟩ := h counter counterOpened anyoneTakes counter_lawful
    counterOpened_reachable anyoneTakes_sender _ _ _ _ _ hreached managerGives_exec rfl (by decide)
  simp only [List.nil_append, List.mem_cons, Prod.mk.injEq, List.not_mem_nil, or_false] at hmem
  rcases hmem with ⟨rfl, rfl⟩ | ⟨rfl, rfl⟩
  · exact hother rfl
  · exact hholds rfl

end UnionVoyager.AccessManager
