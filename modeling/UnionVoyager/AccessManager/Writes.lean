import UnionVoyager.AccessManager.Chain

/-!
# What a message writes, and who may send it

* `Item` — a target, the role of a function, a role, or a member of a role; `ExecuteMsg.writes` —
  the items that a message is about.
* `execute_kept` — **a message writes no other item.**
* `canCallSelf_this`, `canCallSelf_restricted`, `canCall_cases` — who is let through.
* `execute_lost` — **an account loses a role to a revoke, or renounces it itself.**
-/

namespace UnionVoyager.AccessManager

open Lib Function

/-! ## The items -/

inductive Item where
  | target (target : Addr)
  | functionRole (target : Addr) (selector : Selector)
  | role (roleId : RoleId)
  | member (roleId : RoleId) (account : Addr)

variable {H : Type}

/-- The store says of the item what it said before. -/
def Item.Kept (s s' : State H) : Item → Prop
  | .target a => s'.targets a = s.targets a
  | .functionRole a selector => s'.targetAllowedRoles (a, selector) = s.targetAllowedRoles (a, selector)
  | .role roleId => s'.roles roleId = s.roles roleId
  | .member roleId account => s'.roleMembers (roleId, account) = s.roleMembers (roleId, account)

def ExecuteMsg.writes (item : Item) : ExecuteMsg → Prop
  | .grantRole roleId account _ | .revokeRole roleId account | .renounceRole roleId account =>
    item = .member roleId account
  | .setRoleAdmin roleId _ | .setRoleGuardian roleId _ | .setGrantDelay roleId _ => item = .role roleId
  | .setTargetAdminDelay target _ | .setTargetClosed target _ => item = .target target
  | .setTargetFunctionRole target selectors _ => ∃ selector ∈ selectors, item = .functionRole target selector
  | _ => False

variable {target account : Addr} {roleId : RoleId}

namespace Item

variable {s s' s'' : State H} {item : Item}

theorem Kept.refl (s : State H) : item.Kept s s := by
  cases item <;> rfl

theorem Kept.trans (h : item.Kept s s') (h' : item.Kept s' s'') : item.Kept s s'' := by
  cases item <;> exact Eq.trans h' h

theorem kept_schedules (schedules : H → Option Schedule) : item.Kept s { s with schedules := schedules } := by
  cases item <;> rfl

theorem kept_stack (stack : List H) : item.Kept s { s with executionIdStack := stack } := by
  cases item <;> rfl

theorem kept_labels (labels : RoleId → Option String) : item.Kept s { s with roleLabels := labels } := by
  cases item <;> rfl

theorem kept_target {config : Option TargetConfig} (h : item ≠ .target target) :
    item.Kept s { s with targets := update s.targets target config } := by
  cases item with
  | target a => exact update_of_ne (fun heq => h (by rw [heq])) ..
  | _ => rfl

theorem kept_functionRole {selector : Selector} {roleId : Option RoleId}
    (h : item ≠ .functionRole target selector) :
    item.Kept s { s with targetAllowedRoles := update s.targetAllowedRoles (target, selector) roleId } := by
  cases item with
  | functionRole a sel => exact update_of_ne (fun heq => h (by cases heq; rfl)) ..
  | _ => rfl

theorem kept_role {role : Option Role} (h : item ≠ .role roleId) :
    item.Kept s { s with roles := update s.roles roleId role } := by
  cases item with
  | role r => exact update_of_ne (fun heq => h (by rw [heq])) ..
  | _ => rfl

theorem kept_member {access : Option Access} (h : item ≠ .member roleId account) :
    item.Kept s { s with roleMembers := update s.roleMembers (roleId, account) access } := by
  cases item with
  | member r a => exact update_of_ne (fun heq => h (by cases heq; rfl)) ..
  | _ => rfl

end Item

/-! ## What a message writes -/

namespace Contract

variable {s s' : State H} {item : Item}

theorem setTargetFunctionRole_kept (selectors : List Selector) : ∀ {s s' : State H},
      selectors.foldlM (fun s selector => setTargetFunctionRoleUnchecked s target selector roleId)
        s = .ok s' →
      (∀ selector ∈ selectors, item ≠ .functionRole target selector) → item.Kept s s' := by
  induction selectors with
  | nil =>
    intro s s' h _
    cases h
    exact .refl s
  | cons selector selectors ih =>
    intro s s' h hitem
    rw [List.foldlM_cons] at h
    obtain ⟨s₁, hone, hrest⟩ := bind_eq_ok.mp h
    obtain ⟨_, -, hpure⟩ := bind_eq_ok.mp hone
    cases hpure
    have hfirst : item.Kept s { s with
        targetAllowedRoles := update s.targetAllowedRoles (target, selector) (some roleId) } :=
      Item.kept_functionRole (hitem _ (List.mem_cons_self ..))
    exact hfirst.trans (ih hrest fun sel hsel => hitem sel (List.mem_cons_of_mem _ hsel))

end Contract

variable [DecidableEq H] {crates : Crates H} {ctx : ExecCtx} {s s' : State H} {msg : ExecuteMsg}
  {subs : List SubMsg} {item : Item}

theorem checkAuthorized_kept (h : checkAuthorized crates ctx s = .ok s') : item.Kept s s' := by
  obtain ⟨schedules, rfl⟩ := checkAuthorized_frame h
  exact Item.kept_schedules _

variable {query : QueryCtx}

theorem consumeOperation_kept {id : H} {nonce : Nonce}
    (h : consumeOperation query s id = .ok (s', nonce)) : item.Kept s s' := by
  obtain ⟨schedules, rfl⟩ := consumeOperation_frame h
  exact Item.kept_schedules _

open Contract in
theorem execute_kept (h : execute crates ctx s msg = .ok (s', subs)) (hitem : ¬ msg.writes item) :
    item.Kept s s' := by
  cases msg with
  | labelRole roleId label =>
    obtain ⟨s₁, hcheck, h⟩ := bind_eq_ok.mp (silent_eq_ok.mp h).1
    obtain ⟨_, -, hpure⟩ := bind_eq_ok.mp h
    cases hpure
    exact (checkAuthorized_kept hcheck).trans (Item.kept_labels _)
  | grantRole roleId account executionDelay =>
    obtain ⟨s₁, hcheck, h⟩ := bind_eq_ok.mp (silent_eq_ok.mp h).1
    obtain ⟨⟨s₂, newMember⟩, hgrant, hpure⟩ := bind_eq_ok.mp h
    cases hpure
    obtain ⟨-, access, rfl, -⟩ := grantRoleUnchecked_eq_ok hgrant
    exact (checkAuthorized_kept hcheck).trans (Item.kept_member hitem)
  | revokeRole roleId account =>
    obtain ⟨s₁, hcheck, h⟩ := bind_eq_ok.mp (silent_eq_ok.mp h).1
    obtain ⟨⟨s₂, wasMember⟩, hrevoke, hpure⟩ := bind_eq_ok.mp h
    cases hpure
    obtain rfl := revokeRoleUnchecked_eq_ok hrevoke
    exact (checkAuthorized_kept hcheck).trans (Item.kept_member hitem)
  | renounceRole roleId callerConfirmation =>
    obtain ⟨hrenounce, -⟩ := silent_eq_ok.mp h
    unfold renounceRole at hrenounce
    split at hrenounce
    · obtain ⟨⟨s₂, wasMember⟩, hrevoke, hpure⟩ := bind_eq_ok.mp hrenounce
      cases hpure
      obtain rfl := revokeRoleUnchecked_eq_ok hrevoke
      exact Item.kept_member hitem
    · cases hrenounce
  | setRoleAdmin | setRoleGuardian | setGrantDelay =>
    obtain ⟨s₁, hcheck, h⟩ := bind_eq_ok.mp (silent_eq_ok.mp h).1
    obtain ⟨_, -, hpure⟩ := bind_eq_ok.mp h
    cases hpure
    exact (checkAuthorized_kept hcheck).trans (Item.kept_role hitem)
  | setTargetAdminDelay | setTargetClosed =>
    obtain ⟨s₁, hcheck, hpure⟩ := bind_eq_ok.mp (silent_eq_ok.mp h).1
    cases hpure
    exact (checkAuthorized_kept hcheck).trans (Item.kept_target hitem)
  | setTargetFunctionRole target selectors roleId =>
    obtain ⟨s₁, hcheck, h⟩ := bind_eq_ok.mp (silent_eq_ok.mp h).1
    refine (checkAuthorized_kept hcheck).trans (setTargetFunctionRole_kept selectors h ?_)
    exact fun selector hsel heq => hitem ⟨selector, hsel, heq⟩
  | updateAuthority target newAuthority =>
    obtain ⟨⟨s₁, sub⟩, hupd, hpure⟩ := bind_eq_ok.mp h
    cases hpure
    obtain ⟨s₂, hcheck, hpure⟩ := bind_eq_ok.mp hupd
    cases hpure
    exact checkAuthorized_kept hcheck
  | schedule target data when =>
    obtain ⟨_, -, -, -, -, rfl⟩ := execute_schedule crates h
    exact Item.kept_schedules _
  | cancel caller target data =>
    obtain ⟨_, _, -, -, rfl, -⟩ := execute_cancel crates h
    exact Item.kept_schedules _
  | execute target data =>
    obtain ⟨answer, s₁, selector, -, -, hcons, -, rfl, -⟩ := execute_execute crates h
    refine Item.Kept.trans ?_ (Item.kept_stack _)
    rcases hcons with ⟨nonce, hcons⟩ | ⟨-, rfl⟩
    · exact consumeOperation_kept hcons
    · exact .refl _
  | consumeScheduledOp caller data =>
    obtain ⟨-, -, _, hcons⟩ := execute_consumeScheduledOp crates h
    exact consumeOperation_kept hcons

theorem restricted_of_writes (h : msg.writes item) :
    restricted msg = true ∨ ∃ roleId account, msg = .renounceRole roleId account ∧
      item = .member roleId account := by
  cases msg with
  | renounceRole roleId callerConfirmation => exact .inr ⟨_, _, rfl, h⟩
  | schedule | cancel | execute | consumeScheduledOp => exact h.elim
  | _ => exact .inl rfl

/-! ## Who is let through -/

/-- The role that a restricted message asks for. -/
def ExecuteMsg.requiredRole (s : State H) : ExecuteMsg → RoleId
  | .grantRole roleId _ _ | .revokeRole roleId _ => getRoleAdmin s roleId
  | _ => RoleId.ADMIN_ROLE

/-- The role of a function, which is that of the admins unless another one is set. -/
def functionRole (target : Addr) (selector : Selector) (s : State H) : RoleId :=
  (s.targetAllowedRoles (target, selector)).getD default

variable {data : String}

omit [DecidableEq H] in
theorem getAdminRestrictions_restricted (hmsg : restricted msg = true)
    (hjson : crates.fromJson data = some msg) :
    ∃ delay, getAdminRestrictions crates query s data = .ok (true, msg.requiredRole s, delay) := by
  unfold getAdminRestrictions
  rw [hjson]
  cases msg with
  | renounceRole | schedule | cancel | execute | consumeScheduledOp => cases hmsg
  | _ => exact ⟨_, rfl⟩

variable {answer : CanCall}

theorem canCallSelf_restricted {caller : Addr} (hmsg : restricted msg = true)
    (hjson : crates.fromJson data = some msg)
    (hcaller : caller ≠ query.addressThis) (h : canCallSelf crates query s caller data = .ok answer)
    (hanswer : answer ≠ .unauthorized) : hasRole query s (msg.requiredRole s) caller ≠ .no := by
  unfold canCallSelf at h
  rw [if_neg hcaller] at h
  obtain ⟨delay, hrestrictions⟩ : ∃ delay, getAdminRestrictions crates query s data =
    .ok (true, msg.requiredRole s, delay) := getAdminRestrictions_restricted hmsg hjson
  rw [hrestrictions, ok_bind] at h
  dsimp only at h
  intro hno
  rw [hno] at h
  cases h
  exact hanswer rfl

theorem canCallSelf_this (h : canCallSelf crates query s query.addressThis data = .ok answer)
    (hanswer : answer ≠ .unauthorized) : ∃ selector, crates.extractFromData data = some selector ∧
      isExecuting crates s query.addressThis selector = true := by
  unfold canCallSelf at h
  rw [if_pos rfl] at h
  obtain ⟨selector, hsel, h⟩ := bind_eq_ok.mp h
  refine ⟨selector, orErr_eq_ok.mp hsel, ?_⟩
  by_contra hexecuting
  rw [if_neg hexecuting] at h
  cases h
  exact hanswer rfl

theorem canCall_cases {caller : Addr} {selector : Selector}
    (h : canCall crates query s caller target selector = .ok answer) (hanswer : answer ≠ .unauthorized) :
    isInternal selector = true ∨
      caller = query.addressThis ∧ isExecuting crates s target selector = true ∨
      caller ≠ query.addressThis ∧ hasRole query s (functionRole target selector s) caller ≠ .no := by
  unfold canCall at h
  split at h
  case isTrue hinternal => exact .inl hinternal
  case isFalse hinternal =>
    split at h
    · cases h
      exact absurd rfl hanswer
    · split at h
      case isTrue hthis =>
        refine .inr (.inl ⟨hthis, ?_⟩)
        by_contra hexecuting
        rw [if_neg hexecuting] at h
        cases h
        exact hanswer rfl
      case isFalse hthis =>
        refine .inr (.inr ⟨hthis, ?_⟩)
        obtain ⟨roleId, hrole, h⟩ := bind_eq_ok.mp h
        obtain ⟨_, -, hpure⟩ := bind_eq_ok.mp hrole
        obtain rfl := pure_eq_ok.mp hpure
        intro hno
        unfold functionRole at hno
        rw [hno] at h
        cases h
        exact hanswer rfl

theorem execute_canCallSelf (hmsg : restricted msg = true) (h : execute crates ctx s msg = .ok (s', subs)) :
    ∃ answer, canCallSelf crates ctx.toQueryCtx s ctx.msgSender ctx.msgData = .ok answer ∧
      answer ≠ .unauthorized := by
  obtain ⟨s₁, hcheck, -⟩ := execute_restricted crates hmsg h
  rcases checkAuthorized_effect crates hcheck with ⟨hans, -⟩ | ⟨delay, nonce, hans, -⟩
  · exact ⟨_, hans, nofun⟩
  · exact ⟨_, hans, nofun⟩

/-! ## Who loses a role -/

omit [DecidableEq H] in
theorem hasRole_eq_no : hasRole query s roleId account = .no ↔ roleId ≠ RoleId.PUBLIC_ROLE ∧
      ∀ access, s.roleMembers (roleId, account) = some access → access.since = 0 ∨
        query.timestamp < access.since := by
  unfold hasRole getAccess
  by_cases hpublic : roleId = RoleId.PUBLIC_ROLE
  · rw [if_pos hpublic]
    constructor
    · exact nofun
    · rintro ⟨h, -⟩
      exact absurd hpublic h
  · rw [if_neg hpublic]
    cases hslot : s.roleMembers (roleId, account) with
    | none =>
      constructor
      · exact fun _ => ⟨hpublic, nofun⟩
      · intro _
        rfl
    | some access =>
      simp only [Option.getD_some, ite_eq_right_iff, reduceCtorEq, imp_false, Option.some.injEq, forall_eq']
      constructor
      · intro h
        exact ⟨hpublic, by omega⟩
      · rintro ⟨-, h⟩
        omega

theorem execute_lost (h : execute crates ctx s msg = .ok (s', subs))
    (hbefore : hasRole query s roleId account ≠ .no)
    (hafter : hasRole query s' roleId account = .no) : msg.lost = some (roleId, account) := by
  by_cases hwrites : msg.writes (.member roleId account)
  · cases msg with
    | grantRole r a executionDelay =>
      -- a grant sets a new delay, and leaves the time of the membership alone
      exfalso
      obtain ⟨rfl, rfl⟩ := Item.member.inj hwrites
      obtain ⟨s₁, hcheck, h⟩ := bind_eq_ok.mp (silent_eq_ok.mp h).1
      obtain ⟨⟨s₂, newMember⟩, hgrant, hpure⟩ := bind_eq_ok.mp h
      cases hpure
      obtain ⟨schedules, rfl⟩ := checkAuthorized_frame hcheck
      obtain ⟨hpublic, access, rfl, hsince⟩ := Contract.grantRoleUnchecked_eq_ok hgrant
      have hnew := (hasRole_eq_no.mp hafter).2 access (update_self ..)
      refine hbefore (hasRole_eq_no.mpr ⟨hpublic, ?_⟩)
      intro before hslot
      rw [← hsince before hslot]
      exact hnew
    | revokeRole | renounceRole =>
      obtain ⟨rfl, rfl⟩ := Item.member.inj hwrites
      rfl
    | setTargetFunctionRole target selectors r =>
      obtain ⟨selector, -, heq⟩ := hwrites
      cases heq
    | _ => cases hwrites
  · exfalso
    have hkept : s'.roleMembers (roleId, account) = s.roleMembers (roleId, account) := execute_kept h hwrites
    obtain ⟨hpublic, hslot⟩ := hasRole_eq_no.mp hafter
    rw [hkept] at hslot
    exact hbefore (hasRole_eq_no.mpr ⟨hpublic, hslot⟩)

end UnionVoyager.AccessManager
