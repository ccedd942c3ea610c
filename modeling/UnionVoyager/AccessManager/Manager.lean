import UnionVoyager.AccessManager.Types

/-!
# The access manager

The contract that says who may call what, and when.

* `canCall`, `canCallSelf`, `canCallExtended` — whether a caller may call a target.
* `Contract` — the functions behind the messages; those whose names end in `Unchecked` have no guard.
* `execute`, `reply`, `init` — the entry points.
-/

namespace UnionVoyager.AccessManager

open Lib Function

variable {H : Type} [DecidableEq H] (crates : Crates H)

def expiration : Nat := 7 * 24 * 60 * 60

def minSetback : Nat := 5 * 24 * 60 * 60

def hashOperation (caller target : Addr) (data : String) : H := crates.sha256 (Op.text ⟨caller, target, data⟩)

def hashExecutionId (target : Addr) (selector : Selector) : H := crates.sha256 (executionText target selector)

def checkSelector (data : String) : Result H Selector := orErr (crates.extractFromData data) .std

/-! ## What the stores say -/

/-- The sum has 64 bits. -/
def isExpired (ctx : QueryCtx) (timepoint : Nat) : Bool := (timepoint + expiration) % 2 ^ 64 ≤ ctx.timestamp

def isTargetClosed (s : State H) (target : Addr) : Bool := ((s.targets target).getD default).closed

def getTargetFunctionRole (s : State H) (target : Addr) (selector : Selector) : Result H RoleId := do
  ensure (isInternal selector = false) (.accessManager (.internalSelector selector))
  pure ((s.targetAllowedRoles (target, selector)).getD default)

def getTargetAdminDelay (ctx : QueryCtx) (s : State H) (target : Addr) : Nat :=
  ((s.targets target).getD default).adminDelay.get ctx.timestamp

def getRoleAdmin (s : State H) (roleId : RoleId) : RoleId := ((s.roles roleId).getD default).admin

def getRoleGuardian (s : State H) (roleId : RoleId) : RoleId := ((s.roles roleId).getD default).guardian

section

variable (ctx : QueryCtx) (s : State H) (roleId : RoleId)

def getRoleGrantDelay : Nat :=
  ((s.roles roleId).getD default).grantDelay.get ctx.timestamp

def getAccess (account : Addr) : FullAccess :=
  let access := (s.roleMembers (roleId, account)).getD default
  let delay := access.delay.getFull ctx.timestamp
  ⟨access.since, delay.valueBefore, delay.valueAfter, delay.effectDate⟩

def hasRole (account : Addr) : HasRole :=
  if roleId = RoleId.PUBLIC_ROLE then
    .yes none
  else
    let access := getAccess ctx s roleId account
    if access.since ≠ 0 ∧ access.since ≤ ctx.timestamp then .yes (nonZero access.currentDelay) else .no

end

def getSchedule (ctx : QueryCtx) (s : State H) (id : H) : Option Nat :=
  match (s.schedules id).bind Schedule.timepoint with
  | some timepoint => if isExpired ctx timepoint then none else some timepoint
  | none => none

def getNonce (s : State H) (id : H) : Nonce := ((s.schedules id).map Schedule.nonce).getD default

/-- A call of the target is being executed right now. -/
def isExecuting (s : State H) (target : Addr) (selector : Selector) : Bool :=
  s.executionIdStack.head? = some (hashExecutionId crates target selector)

/-! ## Who may call what -/

/-- What the holder of a role may do. -/
def CanCall.ofDelay (delay : Nat) : CanCall :=
  match nonZero delay with
  | some delay => .withDelay delay
  | none => .immediate

section

variable (ctx : QueryCtx) (s : State H)

def canCall (caller target : Addr) (selector : Selector) : Result H CanCall :=
  if isInternal selector then
    pure .immediate
  else if isTargetClosed s target then
    pure .unauthorized
  else if caller = ctx.addressThis then
    pure (if isExecuting crates s target selector then .immediate else .unauthorized)
  else do
    let roleId ← getTargetFunctionRole s target selector
    match hasRole ctx s roleId caller with
    | .no => pure .unauthorized
    | .yes (some executionDelay) => pure (.withDelay executionDelay)
    | .yes none => pure .immediate

/-- Whether a call of the manager is restricted to admins, to which role, and with which delay. -/
def getAdminRestrictions (data : String) : Result H (Bool × RoleId × Nat) :=
  match crates.fromJson data with
  | some (.labelRole ..) | some (.setRoleAdmin ..) | some (.setRoleGuardian ..) | some (.setGrantDelay ..)
  | some (.setTargetAdminDelay ..) => pure (true, RoleId.ADMIN_ROLE, 0)
  | some (.updateAuthority target _) | some (.setTargetClosed target _) | some
      (.setTargetFunctionRole target _ _) =>
    pure (true, RoleId.ADMIN_ROLE, getTargetAdminDelay ctx s target)
  | some (.grantRole roleId _ _) | some (.revokeRole roleId _) => pure (true, getRoleAdmin s roleId, 0)
  | _ => do
    let selector ← checkSelector crates data
    let roleId ← getTargetFunctionRole s ctx.addressThis selector
    pure (false, roleId, 0)

def canCallSelf (caller : Addr) (data : String) : Result H CanCall :=
  if caller = ctx.addressThis then do
    let selector ← checkSelector crates data
    pure (if isExecuting crates s ctx.addressThis selector then .immediate else .unauthorized)
  else do
    let (adminRestricted, roleId, operationDelay) ← getAdminRestrictions crates ctx s data
    if adminRestricted = false ∧ isTargetClosed s ctx.addressThis then
      pure .unauthorized
    else
      match hasRole ctx s roleId caller with
      | .no => pure .unauthorized
      | .yes executionDelay => pure (.ofDelay (max operationDelay (executionDelay.getD 0)))

def canCallExtended (caller target : Addr) (data : String) : Result H CanCall :=
  if target = ctx.addressThis then
    canCallSelf crates ctx s caller data
  else do
    let selector ← checkSelector crates data
    canCall crates ctx s caller target selector

end

/-! ## Delayed operations -/

/-- `_consume_scheduled_op`, by the hash of the operation. -/
def consumeOperation (ctx : QueryCtx) (s : State H) (operationId : H) : Result H (State H × Nonce) :=
  let schedule := (s.schedules operationId).getD default
  match schedule.timepoint with
  | none => .error (.accessManager (.notScheduled operationId))
  | some timepoint =>
    if timepoint > ctx.timestamp then
      .error (.accessManager (.notReady operationId))
    else if isExpired ctx timepoint then
      .error (.accessManager (.expired operationId))
    else
      pure ({ s with schedules := update s.schedules operationId (some ⟨none, schedule.nonce⟩) },
        schedule.nonce)

/-- The caller may make this call of the manager now; a call with a delay uses up its schedule. -/
def checkAuthorized (ctx : ExecCtx) (s : State H) : Result H (State H) := do
  let answer ← canCallSelf crates ctx.toQueryCtx s ctx.msgSender ctx.msgData
  match answer with
  | .unauthorized => do
    let (_, requiredRole, _) ← getAdminRestrictions crates ctx.toQueryCtx s ctx.msgData
    .error (.accessManager (.unauthorizedAccount ctx.msgSender requiredRole))
  | .immediate => pure s
  | .withDelay _ => do
    let (s, _) ← consumeOperation ctx.toQueryCtx s
      (hashOperation crates ctx.msgSender ctx.addressThis ctx.msgData)
    pure s

variable {s s' : State H}

theorem consumeOperation_eq_ok {ctx : QueryCtx} {id : H} {nonce : Nonce} :
      consumeOperation ctx s id = .ok (s', nonce) ↔
      ∃ w, s.schedules id = some ⟨some w, nonce⟩ ∧ w ≤ ctx.timestamp ∧ isExpired ctx w = false ∧
        s' = { s with schedules := update s.schedules id (some ⟨none, nonce⟩) } := by
  unfold consumeOperation
  rcases hslot : s.schedules id with _ | ⟨_ | w, n⟩
  · simp only [Option.getD_none]
    constructor
    · intro h
      cases h
    · rintro ⟨w, h, -⟩
      cases h
  · simp
  · simp only [Option.getD_some, Option.some.injEq, Schedule.mk.injEq]
    split
    · constructor
      · intro h
        cases h
      · rintro ⟨w', ⟨rfl, -⟩, hready, -⟩
        omega
    · split
      · constructor
        · intro h
          cases h
        · rintro ⟨w', ⟨rfl, -⟩, -, hfresh, -⟩
          simp_all
      · constructor
        · intro h
          cases h
          exact ⟨w, ⟨rfl, rfl⟩, by omega, by simp_all, rfl⟩
        · rintro ⟨w', ⟨rfl, rfl⟩, -, -, rfl⟩
          rfl

variable {ctx : ExecCtx}

theorem checkAuthorized_effect (h : checkAuthorized crates ctx s = .ok s') :
    (canCallSelf crates ctx.toQueryCtx s ctx.msgSender ctx.msgData = .ok .immediate ∧ s' = s) ∨
    ∃ delay nonce, canCallSelf crates ctx.toQueryCtx s ctx.msgSender ctx.msgData = .ok (.withDelay delay) ∧
      consumeOperation ctx.toQueryCtx s (hashOperation crates ctx.msgSender ctx.addressThis ctx.msgData) =
        .ok (s', nonce) := by
  unfold checkAuthorized at h
  obtain ⟨answer, hans, h⟩ := bind_eq_ok.mp h
  cases answer with
  | unauthorized =>
    obtain ⟨_, -, hfail⟩ := bind_eq_ok.mp h
    cases hfail
  | immediate => exact .inl ⟨hans, (pure_eq_ok.mp h).symm⟩
  | withDelay delay =>
    obtain ⟨⟨s₁, nonce⟩, hcons, h⟩ := bind_eq_ok.mp h
    obtain rfl := pure_eq_ok.mp h
    exact .inr ⟨delay, nonce, hans, hcons⟩

namespace Contract

/-! ## Roles -/

def grantRoleUnchecked (ctx : ExecCtx) (s : State H) (roleId : RoleId) (account : Addr)
    (grantDelay executionDelay : Nat) : Result H (State H × Bool) := do
  ensure (roleId ≠ RoleId.PUBLIC_ROLE) (.accessManager (.lockedRole roleId))
  match s.roleMembers (roleId, account) with
  | none =>
    pure ({ s with
      roleMembers := update s.roleMembers (roleId, account)
        (some ⟨ctx.timestamp + grantDelay, .new executionDelay⟩) }, true)
  | some access =>
    pure ({ s with
      roleMembers := update s.roleMembers (roleId, account)
        (some { access with delay := (access.delay.withUpdate ctx.timestamp executionDelay 0).1 }) }, false)

def revokeRoleUnchecked (s : State H) (roleId : RoleId) (account : Addr) : Result H (State H × Bool) := do
  ensure (roleId ≠ RoleId.PUBLIC_ROLE) (.accessManager (.lockedRole roleId))
  pure ({ s with roleMembers := update s.roleMembers (roleId, account) none },
    (s.roleMembers (roleId, account)).isSome)

/-- The admin role and the public role are locked. -/
def ensureUnlocked (roleId : RoleId) : Result H Unit :=
  ensure (roleId ≠ RoleId.ADMIN_ROLE ∧ roleId ≠ RoleId.PUBLIC_ROLE) (.accessManager (.lockedRole roleId))

def setRoleAdminUnchecked (s : State H) (roleId admin : RoleId) : Result H (State H) := do
  ensureUnlocked roleId
  pure { s with roles := update s.roles roleId (some { (s.roles roleId).getD default with admin := admin }) }

def setRoleGuardianUnchecked (s : State H) (roleId guardian : RoleId) : Result H (State H) := do
  ensureUnlocked roleId
  pure { s with
    roles := update s.roles roleId (some { (s.roles roleId).getD default with guardian := guardian }) }

section

variable (ctx : ExecCtx) (s : State H) (roleId : RoleId)

def setGrantDelayUnchecked (newDelay : Nat) : Result H (State H) := do
  ensure (roleId ≠ RoleId.PUBLIC_ROLE) (.accessManager (.lockedRole roleId))
  let role := (s.roles roleId).getD default
  pure { s with
    roles := update s.roles roleId
      (some { role with grantDelay := (role.grantDelay.withUpdate ctx.timestamp newDelay minSetback).1 }) }

def labelRole (label : String) : Result H (State H) := do
  let s ← checkAuthorized crates ctx s
  ensureUnlocked roleId
  pure { s with roleLabels := update s.roleLabels roleId (some label) }

def grantRole (account : Addr) (executionDelay : Nat) : Result H (State H) := do
  let s ← checkAuthorized crates ctx s
  let (s, _) ← grantRoleUnchecked ctx s roleId account (getRoleGrantDelay ctx.toQueryCtx s roleId)
    executionDelay
  pure s

def revokeRole (account : Addr) : Result H (State H) := do
  let s ← checkAuthorized crates ctx s
  let (s, _) ← revokeRoleUnchecked s roleId account
  pure s

def renounceRole (callerConfirmation : Addr) : Result H (State H) :=
  if callerConfirmation = ctx.msgSender then do
    let (s, _) ← revokeRoleUnchecked s roleId callerConfirmation
    pure s
  else
    .error (.accessManager .badConfirmation)

end

def setRoleAdmin (ctx : ExecCtx) (s : State H) (roleId admin : RoleId) : Result H (State H) := do
  let s ← checkAuthorized crates ctx s
  setRoleAdminUnchecked s roleId admin

def setRoleGuardian (ctx : ExecCtx) (s : State H) (roleId guardian : RoleId) : Result H (State H) := do
  let s ← checkAuthorized crates ctx s
  setRoleGuardianUnchecked s roleId guardian

def setGrantDelay (ctx : ExecCtx) (s : State H) (roleId : RoleId) (newDelay : Nat) : Result H (State H) := do
  let s ← checkAuthorized crates ctx s
  setGrantDelayUnchecked ctx s roleId newDelay

/-! ## Targets -/

def setTargetFunctionRoleUnchecked (s : State H) (target : Addr) (selector : Selector) (roleId : RoleId) :
    Result H (State H) := do
  ensure (isInternal selector = false) (.accessManager (.internalSelector selector))
  pure { s with
    targetAllowedRoles := update s.targetAllowedRoles (target, selector) (some roleId) }

section

variable (ctx : ExecCtx) (s : State H) (target : Addr)

def setTargetFunctionRole (selectors : List Selector) (roleId : RoleId) : Result H (State H) := do
  let s ← checkAuthorized crates ctx s
  selectors.foldlM (fun s selector => setTargetFunctionRoleUnchecked s target selector roleId) s

def setTargetAdminDelay (newDelay : Nat) : Result H (State H) := do
  let s ← checkAuthorized crates ctx s
  let config := (s.targets target).getD default
  pure { s with
    targets := update s.targets target
      (some { config with adminDelay :=
        (config.adminDelay.withUpdate ctx.timestamp newDelay minSetback).1 }) }

def setTargetClosed (closed : Bool) : Result H (State H) := do
  let s ← checkAuthorized crates ctx s
  pure { s with
    targets := update s.targets target (some { (s.targets target).getD default with closed := closed }) }

end

def updateAuthority (ctx : ExecCtx) (s : State H) (target newAuthority : Addr) :
    Result H (State H × SubMsg) := do
  let s ← checkAuthorized crates ctx s
  pure (s, ⟨target, crates.setAuthorityJson newAuthority, [], false⟩)

/-! ## Delayed operations -/

section

variable (ctx : ExecCtx) (s : State H)

def schedule (target : Addr) (data : String) (when : Nat) : Result H (State H × H × Nonce) := do
  let caller := ctx.msgSender
  let answer ← canCallExtended crates ctx.toQueryCtx s caller target data
  match answer with
  | .immediate | .unauthorized => do
    let selector ← checkSelector crates data
    .error (.accessManager (.unauthorizedCall caller target selector))
  | .withDelay setback => do
    let minWhen := ctx.timestamp + setback
    if when < minWhen then do
      let selector ← checkSelector crates data
      .error (.accessManager (.unauthorizedCall caller target selector))
    else do
      let operationId := hashOperation crates caller target data
      ensure (getSchedule ctx.toQueryCtx s operationId = none)
        (.accessManager (.alreadyScheduled operationId))
      let nonce := getNonce s operationId + 1
      pure ({ s with
        schedules := update s.schedules operationId (some ⟨some (max when minWhen), nonce⟩) },
        operationId, nonce)

/-- An available schedule is used up even where there is no delay now. -/
def consumeAvailable (immediate : Bool) (operationId : H) : Result H (State H × Nonce) :=
  if immediate = false ∨ (getSchedule ctx.toQueryCtx s operationId).isSome then
    consumeOperation ctx.toQueryCtx s operationId
  else
    pure (s, 0)

/-- The call goes out with its id on top of the stack; the reply takes it off again. -/
def execute (target : Addr) (data : String) : Result H (State H × SubMsg × Nonce) := do
  let caller := ctx.msgSender
  let answer ← canCallExtended crates ctx.toQueryCtx s caller target data
  if answer = .unauthorized then do
    let selector ← checkSelector crates data
    .error (.accessManager (.unauthorizedCall caller target selector))
  else do
    let (s, nonce) ← consumeAvailable ctx s (answer = .immediate) (hashOperation crates caller target data)
    let selector ← checkSelector crates data
    pure ({ s with executionIdStack := hashExecutionId crates target selector :: s.executionIdStack },
      ⟨target, data, ctx.value, true⟩, nonce)

/-- An account other than the caller may cancel as an admin, or as a guardian of the role of the function. -/
def ensureCanCancel (caller target : Addr) (selector : Selector) : Result H Unit := do
  let roleId ← getTargetFunctionRole s target selector
  ensure (hasRole ctx.toQueryCtx s RoleId.ADMIN_ROLE ctx.msgSender ≠ .no ∨
      hasRole ctx.toQueryCtx s (getRoleGuardian s roleId) ctx.msgSender ≠ .no)
    (.accessManager (.unauthorizedCancel ctx.msgSender caller target selector))

def cancel (caller target : Addr) (data : String) : Result H (State H × Nonce) := do
  let selector ← checkSelector crates data
  let operationId := hashOperation crates caller target data
  let schedule := (s.schedules operationId).getD default
  ensure (schedule.timepoint ≠ none) (.accessManager (.notScheduled operationId))
  onlyIf (caller ≠ ctx.msgSender) (ensureCanCancel ctx s caller target selector)
  pure ({ s with schedules := update s.schedules operationId (some { schedule with timepoint := none }) },
    schedule.nonce)

end

/-- The selector of the query that a managed contract answers while it consumes a schedule. -/
def IS_CONSUMING_SCHEDULED_OP : Selector := "is_consuming_scheduled_op"

def consumeScheduledOp (ctx : ExecCtx) (s : State H) (caller : Addr) (data : String) :
    Result H (State H) := do
  let target := ctx.msgSender
  let selector ← orErr (ctx.isConsumingScheduledOp target) .std
  ensure (selector = IS_CONSUMING_SCHEDULED_OP) (.accessManager (.unauthorizedConsume target))
  let (s, _) ← consumeOperation ctx.toQueryCtx s (hashOperation crates caller target data)
  pure s

end Contract

/-! ## Entry points -/

def init (ctx : ExecCtx) (initialAdmin : Addr) : Result H (State H) := do
  let (s, _) ← Contract.grantRoleUnchecked ctx .empty RoleId.ADMIN_ROLE initialAdmin 0 0
  pure s

/-- No message goes out. -/
def silent (x : Result H (State H)) : Result H (State H × List SubMsg) := x >>= fun s => pure (s, [])

open Contract in
def execute (ctx : ExecCtx) (s : State H) : ExecuteMsg → Result H (State H × List SubMsg)
  | .labelRole roleId label => silent (labelRole crates ctx s roleId label)
  | .grantRole roleId account executionDelay => silent (grantRole crates ctx s roleId account executionDelay)
  | .revokeRole roleId account => silent (revokeRole crates ctx s roleId account)
  | .renounceRole roleId callerConfirmation => silent (renounceRole ctx s roleId callerConfirmation)
  | .setRoleAdmin roleId admin => silent (setRoleAdmin crates ctx s roleId admin)
  | .setRoleGuardian roleId guardian => silent (setRoleGuardian crates ctx s roleId guardian)
  | .setGrantDelay roleId grantDelay => silent (setGrantDelay crates ctx s roleId grantDelay)
  | .setTargetAdminDelay target newDelay => silent (setTargetAdminDelay crates ctx s target newDelay)
  | .setTargetClosed target closed => silent (setTargetClosed crates ctx s target closed)
  | .setTargetFunctionRole target selectors roleId =>
    silent (setTargetFunctionRole crates ctx s target selectors roleId)
  | .updateAuthority target newAuthority => do
    let (s, msg) ← updateAuthority crates ctx s target newAuthority
    pure (s, [msg])
  | .schedule target data when => do
    let (s, _) ← schedule crates ctx s target data when
    pure (s, [])
  | .cancel caller target data => do
    let (s, _) ← cancel crates ctx s caller target data
    pure (s, [])
  | .execute target data => do
    let (s, msg, _) ← Contract.execute crates ctx s target data
    pure (s, [msg])
  | .consumeScheduledOp caller data => silent (consumeScheduledOp crates ctx s caller data)

/-- The reply to a call that was executed; without an id to take off, the contract panics. -/
def reply (s : State H) : Result H (State H) :=
  match s.executionIdStack with
  | [] => .error .std
  | _ :: stack => .ok { s with executionIdStack := stack }

/-! ## What a message changes -/

/-- The functions that ask for an authorized caller. -/
def restricted : ExecuteMsg → Bool
  | .labelRole .. | .grantRole .. | .revokeRole .. | .setRoleAdmin .. | .setRoleGuardian
      .. | .setGrantDelay ..
  | .setTargetAdminDelay .. | .setTargetClosed .. | .setTargetFunctionRole .. | .updateAuthority .. => true
  | .renounceRole .. | .schedule .. | .cancel .. | .execute .. | .consumeScheduledOp .. => false

/-- Delayed operations and running executes are as before, and only `lost` may have lost its role. -/
structure Frame (s s' : State H) (lost : Option (RoleId × Addr)) : Prop where
  schedules : s'.schedules = s.schedules
  executionIdStack : s'.executionIdStack = s.executionIdStack
  roleMembers : ∀ member, s.roleMembers member ≠ none → s'.roleMembers member = none → lost = some member

omit [DecidableEq H] in
theorem Frame.refl (s : State H) (lost : Option (RoleId × Addr)) : Frame s s lost :=
  ⟨rfl, rfl, fun _ hin hout => absurd hout hin⟩

variable {subs : List SubMsg}

omit [DecidableEq H] in
theorem silent_eq_ok {x : Result H (State H)} : silent x = .ok (s', subs) ↔ x = .ok s' ∧ subs = [] := by
  unfold silent
  rw [bind_eq_ok]
  constructor
  · rintro ⟨s, hx, hs⟩
    cases hs
    exact ⟨hx, rfl⟩
  · rintro ⟨hx, rfl⟩
    exact ⟨s', hx, rfl⟩

variable {roleId : RoleId} {target : Addr}

namespace Contract

omit [DecidableEq H] in
theorem ensureUnlocked_frame {x : State H} {lost : Option (RoleId × Addr)}
    (h : (ensureUnlocked roleId >>= fun _ => pure x) = (.ok s' : Result H (State H)))
    (hx : Frame s x lost) : Frame s s' lost := by
  obtain ⟨_, -, hpure⟩ := bind_eq_ok.mp h
  cases hpure
  exact hx

variable {account : Addr}

omit [DecidableEq H] in
theorem grantRoleUnchecked_eq_ok {grantDelay executionDelay : Nat} {newMember : Bool}
    (h : grantRoleUnchecked ctx s roleId account grantDelay executionDelay = .ok (s', newMember)) :
    roleId ≠ RoleId.PUBLIC_ROLE ∧ ∃ access,
      s' = { s with roleMembers := update s.roleMembers (roleId, account) (some access) } ∧
      ∀ before, s.roleMembers (roleId, account) = some before → access.since = before.since := by
  obtain ⟨_, hpublic, h⟩ := bind_eq_ok.mp h
  refine ⟨ensure_eq_ok.mp hpublic, ?_⟩
  cases hslot : s.roleMembers (roleId, account) with
  | none =>
    rw [hslot] at h
    cases h
    exact ⟨_, rfl, nofun⟩
  | some access =>
    rw [hslot] at h
    cases h
    refine ⟨_, rfl, ?_⟩
    rintro before hbefore
    obtain rfl := Option.some.inj hbefore
    rfl

omit [DecidableEq H] in
theorem grantRoleUnchecked_frame {grantDelay executionDelay : Nat} {newMember : Bool}
    (h : grantRoleUnchecked ctx s roleId account grantDelay executionDelay = .ok (s', newMember)) :
    Frame s s' none := by
  obtain ⟨-, access, rfl, -⟩ := grantRoleUnchecked_eq_ok h
  refine ⟨rfl, rfl, ?_⟩
  intro member hin hout
  dsimp only at hout
  by_cases hm : member = (roleId, account)
  · subst hm
    rw [update_self] at hout
    cases hout
  · rw [update_of_ne hm] at hout
    exact absurd hout hin

omit [DecidableEq H] in
theorem revokeRoleUnchecked_eq_ok {wasMember : Bool}
    (h : revokeRoleUnchecked s roleId account = .ok (s', wasMember)) :
    s' = { s with roleMembers := update s.roleMembers (roleId, account) none } := by
  obtain ⟨_, -, hpure⟩ := bind_eq_ok.mp h
  cases hpure
  rfl

omit [DecidableEq H] in
theorem revokeRoleUnchecked_frame {wasMember : Bool}
    (h : revokeRoleUnchecked s roleId account = .ok (s', wasMember)) :
    Frame s s' (some (roleId, account)) := by
  obtain rfl := revokeRoleUnchecked_eq_ok h
  refine ⟨rfl, rfl, ?_⟩
  intro member hin hout
  by_contra hm
  dsimp only at hout
  rw [update_of_ne (fun heq => hm (by rw [heq]))] at hout
  exact hin hout

omit [DecidableEq H] in
theorem setTargetFunctionRole_frame (selectors : List Selector) : ∀ {s s' : State H},
      selectors.foldlM (fun s selector => setTargetFunctionRoleUnchecked s target selector roleId)
        s = .ok s' →
      Frame s s' none := by
  induction selectors with
  | nil =>
    intro s s' h
    cases h
    exact .refl s none
  | cons selector selectors ih =>
    intro s s' h
    rw [List.foldlM_cons] at h
    obtain ⟨s₁, hone, hrest⟩ := bind_eq_ok.mp h
    obtain ⟨_, -, hpure⟩ := bind_eq_ok.mp hone
    cases hpure
    obtain ⟨hschedules, hstack, hmembers⟩ := ih hrest
    exact ⟨hschedules, hstack, hmembers⟩

end Contract

/-- Who a message takes a role from. -/
def ExecuteMsg.lost : ExecuteMsg → Option (RoleId × Addr)
  | .revokeRole roleId account => some (roleId, account)
  | .renounceRole roleId callerConfirmation => some (roleId, callerConfirmation)
  | _ => none

open Contract in
/-- **A restricted function checks its caller, and touches no schedule itself.** -/
theorem execute_restricted {msg : ExecuteMsg} (hmsg : restricted msg = true)
    (h : execute crates ctx s msg = .ok (s', subs)) :
    ∃ s₁, checkAuthorized crates ctx s = .ok s₁ ∧ Frame s₁ s' msg.lost := by
  cases msg with
  | labelRole | setRoleAdmin | setRoleGuardian =>
    obtain ⟨s₁, hcheck, h⟩ := bind_eq_ok.mp (silent_eq_ok.mp h).1
    exact ⟨s₁, hcheck, ensureUnlocked_frame h ⟨rfl, rfl, fun _ hin hout => absurd hout hin⟩⟩
  | grantRole roleId account executionDelay =>
    obtain ⟨s₁, hcheck, h⟩ := bind_eq_ok.mp (silent_eq_ok.mp h).1
    obtain ⟨⟨s₂, newMember⟩, hgrant, hpure⟩ := bind_eq_ok.mp h
    cases hpure
    exact ⟨s₁, hcheck, grantRoleUnchecked_frame hgrant⟩
  | revokeRole roleId account =>
    obtain ⟨s₁, hcheck, h⟩ := bind_eq_ok.mp (silent_eq_ok.mp h).1
    obtain ⟨⟨s₂, wasMember⟩, hrevoke, hpure⟩ := bind_eq_ok.mp h
    cases hpure
    exact ⟨s₁, hcheck, revokeRoleUnchecked_frame hrevoke⟩
  | setGrantDelay roleId grantDelay =>
    obtain ⟨s₁, hcheck, h⟩ := bind_eq_ok.mp (silent_eq_ok.mp h).1
    obtain ⟨_, -, hpure⟩ := bind_eq_ok.mp h
    cases hpure
    exact ⟨s₁, hcheck, rfl, rfl, fun _ hin hout => absurd hout hin⟩
  | setTargetAdminDelay | setTargetClosed =>
    obtain ⟨s₁, hcheck, hpure⟩ := bind_eq_ok.mp (silent_eq_ok.mp h).1
    cases hpure
    exact ⟨s₁, hcheck, rfl, rfl, fun _ hin hout => absurd hout hin⟩
  | setTargetFunctionRole target selectors roleId =>
    obtain ⟨s₁, hcheck, h⟩ := bind_eq_ok.mp (silent_eq_ok.mp h).1
    exact ⟨s₁, hcheck, setTargetFunctionRole_frame selectors h⟩
  | updateAuthority target newAuthority =>
    obtain ⟨⟨s₁, sub⟩, hupd, hpure⟩ := bind_eq_ok.mp h
    cases hpure
    obtain ⟨s₂, hcheck, hpure⟩ := bind_eq_ok.mp hupd
    cases hpure
    exact ⟨_, hcheck, .refl _ _⟩
  | renounceRole | schedule | cancel | execute | consumeScheduledOp => cases hmsg

theorem execute_renounceRole {confirmation : Addr}
    (h : execute crates ctx s (.renounceRole roleId confirmation) = .ok (s', subs)) :
    confirmation = ctx.msgSender ∧ Frame s s' (some (roleId, confirmation)) ∧ subs = [] := by
  obtain ⟨hrenounce, rfl⟩ := silent_eq_ok.mp h
  unfold Contract.renounceRole at hrenounce
  split at hrenounce
  case isTrue heq =>
    obtain ⟨⟨s₂, wasMember⟩, hrevoke, hpure⟩ := bind_eq_ok.mp hrenounce
    cases hpure
    exact ⟨heq, Contract.revokeRoleUnchecked_frame hrevoke, rfl⟩
  case isFalse => cases hrenounce

variable {data : String}

theorem execute_schedule {when : Nat}
    (h : execute crates ctx s (.schedule target data when) = .ok (s', subs)) :
    ∃ delay, canCallExtended crates ctx.toQueryCtx s ctx.msgSender target data = .ok (.withDelay delay) ∧
      ctx.timestamp + delay ≤ when ∧
      getSchedule ctx.toQueryCtx s (hashOperation crates ctx.msgSender target data) = none ∧ subs = [] ∧
      s' = { s with
        schedules := update s.schedules (hashOperation crates ctx.msgSender target data)
          (some ⟨some (max when (ctx.timestamp + delay)),
            getNonce s (hashOperation crates ctx.msgSender target data) + 1⟩) } := by
  obtain ⟨⟨s₁, id, nonce⟩, hschedule, hpure⟩ := bind_eq_ok.mp h
  cases hpure
  obtain ⟨answer, hans, h⟩ := bind_eq_ok.mp hschedule
  have hfail : ∀ {x : Except (ContractError H) Selector} {f : Selector → ContractError H}
      {r : State H × H × Nonce},
      (x >>= fun selector => (.error (f selector) : Result H (State H × H × Nonce))) ≠ .ok r := by
    intro x f r hbind
    obtain ⟨_, -, herror⟩ := bind_eq_ok.mp hbind
    cases herror
  cases answer with
  | immediate | unauthorized => exact absurd h hfail
  | withDelay delay =>
    dsimp only at h
    split at h
    · exact absurd h hfail
    · rename_i hwhen
      obtain ⟨_, hnone, hpure⟩ := bind_eq_ok.mp h
      cases hpure
      exact ⟨delay, hans, Nat.not_lt.mp hwhen, ensure_eq_ok.mp hnone, rfl, rfl⟩

theorem execute_cancel {caller : Addr}
    (h : execute crates ctx s (.cancel caller target data) = .ok (s', subs)) :
    ∃ w nonce, s.schedules (hashOperation crates caller target data) = some ⟨some w, nonce⟩ ∧ subs = [] ∧
      s' = { s with
        schedules := update s.schedules (hashOperation crates caller target data) (some ⟨none, nonce⟩) } ∧
      (caller ≠ ctx.msgSender → ∃ selector roleId, crates.extractFromData data = some selector ∧
        getTargetFunctionRole s target selector = .ok roleId ∧
        (hasRole ctx.toQueryCtx s RoleId.ADMIN_ROLE ctx.msgSender ≠ .no ∨
          hasRole ctx.toQueryCtx s (getRoleGuardian s roleId) ctx.msgSender ≠ .no)) := by
  obtain ⟨⟨s₁, nonce⟩, hcancel, hpure⟩ := bind_eq_ok.mp h
  cases hpure
  obtain ⟨selector, hsel, h⟩ := bind_eq_ok.mp hcancel
  obtain ⟨_, hsched, h⟩ := bind_eq_ok.mp h
  obtain ⟨_, hmay, hpure⟩ := bind_eq_ok.mp h
  cases hpure
  have hstands := ensure_eq_ok.mp hsched
  rcases hslot : s.schedules (hashOperation crates caller target data) with _ | ⟨_ | w, nonce⟩
  · rw [hslot] at hstands
    exact absurd rfl hstands
  · rw [hslot] at hstands
    exact absurd rfl hstands
  · refine ⟨w, nonce, rfl, rfl, rfl, ?_⟩
    intro hother
    obtain ⟨roleId, hrole, hguard⟩ := bind_eq_ok.mp (onlyIf_eq_ok.mp hmay (by simpa using hother))
    exact ⟨selector, roleId, orErr_eq_ok.mp hsel, hrole, ensure_eq_ok.mp hguard⟩

theorem execute_execute (h : execute crates ctx s (.execute target data) = .ok (s', subs)) :
      ∃ answer s₁ selector,
      canCallExtended crates ctx.toQueryCtx s ctx.msgSender target data = .ok answer ∧
        answer ≠ .unauthorized ∧
      ((∃ nonce, consumeOperation ctx.toQueryCtx s
        (hashOperation crates ctx.msgSender target data) = .ok (s₁, nonce)) ∨
        answer = .immediate ∧ s₁ = s) ∧
      crates.extractFromData data = some selector ∧
      s' = { s₁ with executionIdStack := hashExecutionId crates target selector :: s₁.executionIdStack } ∧
      subs = [⟨target, data, ctx.value, true⟩] := by
  obtain ⟨⟨s₂, sub, nonce⟩, hexec, hpure⟩ := bind_eq_ok.mp h
  cases hpure
  obtain ⟨answer, hans, h⟩ := bind_eq_ok.mp hexec
  split at h
  · obtain ⟨_, -, herror⟩ := bind_eq_ok.mp h
    cases herror
  · rename_i hauthorized
    obtain ⟨⟨s₁, n⟩, hcons, h⟩ := bind_eq_ok.mp h
    obtain ⟨selector, hsel, hpure⟩ := bind_eq_ok.mp h
    cases hpure
    refine ⟨answer, s₁, selector, hans, hauthorized, ?_, orErr_eq_ok.mp hsel, rfl, rfl⟩
    unfold Contract.consumeAvailable at hcons
    split at hcons
    · exact .inl ⟨_, hcons⟩
    · rename_i hnone
      cases hcons
      refine .inr ⟨?_, rfl⟩
      by_contra hdelay
      exact hnone (.inl (decide_eq_false hdelay))

theorem execute_consumeScheduledOp {caller : Addr}
    (h : execute crates ctx s (.consumeScheduledOp caller data) = .ok (s', subs)) :
    ctx.isConsumingScheduledOp ctx.msgSender = some Contract.IS_CONSUMING_SCHEDULED_OP ∧ subs = [] ∧
      ∃ nonce, consumeOperation ctx.toQueryCtx s (hashOperation crates caller ctx.msgSender data) =
        .ok (s', nonce) := by
  obtain ⟨hcons, rfl⟩ := silent_eq_ok.mp h
  obtain ⟨selector, hselector, h⟩ := bind_eq_ok.mp hcons
  obtain ⟨_, heq, h⟩ := bind_eq_ok.mp h
  obtain ⟨⟨s₁, nonce⟩, hop, hpure⟩ := bind_eq_ok.mp h
  cases hpure
  have hsel : selector = Contract.IS_CONSUMING_SCHEDULED_OP := ensure_eq_ok.mp heq
  exact ⟨by rw [orErr_eq_ok.mp hselector, hsel], rfl, nonce, hop⟩

end UnionVoyager.AccessManager
