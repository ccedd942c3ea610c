import UnionVoyager.Lib.Result

/-!
# The data of the access manager

* `Delay` — a duration that changes in the future; `update_covers` — the step lemma of its updates,
  `run_covers` — the run lemma.
* `ExecuteMsg`, `State`, `Ctx` — the messages of the manager, its stores, and what a message is handled with.
* `text_injective` — it identifies a call whose caller and target have no slash.
-/

namespace UnionVoyager.AccessManager

open Lib

abbrev Addr := String

abbrev RoleId := UInt64

def RoleId.ADMIN_ROLE : RoleId := 0

def RoleId.PUBLIC_ROLE : RoleId := 0xffffffffffffffff

abbrev Selector := String

def INTERNAL_PREFIX : String := "$$"

def isInternal (selector : Selector) : Bool := INTERNAL_PREFIX.toList.isPrefixOf selector.toList

/-- `NonZero::new`. -/
def nonZero (n : Nat) : Option Nat := if n = 0 then none else some n

/-! ## Delays -/

structure Delay where
  effectDate : Nat
  valueBefore : Nat
  valueAfter : Nat

instance : Inhabited Delay := ⟨⟨0, 0, 0⟩⟩

structure UnpackedDelay where
  effectDate : Nat
  valueBefore : Nat
  valueAfter : Nat

namespace Delay

def new (delay : Nat) : Delay := ⟨0, 0, delay⟩

def getFull (d : Delay) (timepoint : Nat) : UnpackedDelay :=
  if d.effectDate ≤ timepoint then ⟨0, d.valueAfter, 0⟩ else ⟨d.effectDate, d.valueBefore, d.valueAfter⟩

def get (d : Delay) (timepoint : Nat) : Nat := (d.getFull timepoint).valueBefore

/-- The delay with a new value, and when that takes effect: not before the old value has passed.
    The sum of two `u64` is not checked. -/
def withUpdate (d : Delay) (timestamp newValue minSetback : Nat) : Delay × Nat :=
  let value := d.get timestamp
  let setback := max minSetback (value - newValue)
  let effect := (timestamp + setback) % 2 ^ 64
  (⟨effect, value, newValue⟩, effect)

end Delay

/-! ## Stores -/

structure TargetConfig where
  adminDelay : Delay
  closed : Bool
  deriving Inhabited

structure Access where
  /-- The role may be used from here on; 0 stands for never. -/
  since : Nat
  delay : Delay
  deriving Inhabited

structure FullAccess where
  since : Nat
  currentDelay : Nat
  pendingDelay : Nat
  effect : Nat

structure Role where
  admin : RoleId
  guardian : RoleId
  grantDelay : Delay
  deriving Inhabited

abbrev Nonce := UInt32

structure Schedule where
  /-- When the operation can be executed, if it can. -/
  timepoint : Option Nat
  nonce : Nonce
  deriving Inhabited

inductive CanCall where
  | unauthorized
  | immediate
  | withDelay (delay : Nat)
  deriving DecidableEq

inductive HasRole where
  | no
  | yes (executionDelay : Option Nat)
  deriving DecidableEq

structure Coin where
  denom : String
  amount : Nat

variable {H : Type}

/-- The stores of the manager; the execution ids are those of the running executes, the innermost first. -/
structure State (H : Type) where
  targets : Addr → Option TargetConfig
  targetAllowedRoles : Addr × Selector → Option RoleId
  roles : RoleId → Option Role
  roleMembers : RoleId × Addr → Option Access
  schedules : H → Option Schedule
  executionIdStack : List H
  roleLabels : RoleId → Option String

def State.empty : State H := ⟨fun _ => none, fun _ => none, fun _ => none, fun _ => none, fun _ =>
    none, [], fun _ => none⟩

/-! ## Messages -/

inductive ExecuteMsg where
  | labelRole (roleId : RoleId) (label : String)
  | grantRole (roleId : RoleId) (account : Addr) (executionDelay : Nat)
  | revokeRole (roleId : RoleId) (account : Addr)
  | renounceRole (roleId : RoleId) (callerConfirmation : Addr)
  | setRoleAdmin (roleId : RoleId) (admin : RoleId)
  | setRoleGuardian (roleId : RoleId) (guardian : RoleId)
  | setGrantDelay (roleId : RoleId) (grantDelay : Nat)
  | setTargetAdminDelay (target : Addr) (newDelay : Nat)
  | setTargetClosed (target : Addr) (closed : Bool)
  | setTargetFunctionRole (target : Addr) (selectors : List Selector) (roleId : RoleId)
  | updateAuthority (target newAuthority : Addr)
  | schedule (target : Addr) (data : String) (when : Nat)
  | cancel (caller target : Addr) (data : String)
  | execute (target : Addr) (data : String)
  | consumeScheduledOp (caller : Addr) (data : String)
  deriving DecidableEq

/-- The name of a message in JSON. -/
def ExecuteMsg.selector : ExecuteMsg → Selector
  | .labelRole .. => "label_role"
  | .grantRole .. => "grant_role"
  | .revokeRole .. => "revoke_role"
  | .renounceRole .. => "renounce_role"
  | .setRoleAdmin .. => "set_role_admin"
  | .setRoleGuardian .. => "set_role_guardian"
  | .setGrantDelay .. => "set_grant_delay"
  | .setTargetAdminDelay .. => "set_target_admin_delay"
  | .setTargetClosed .. => "set_target_closed"
  | .setTargetFunctionRole .. => "set_target_function_role"
  | .updateAuthority .. => "update_authority"
  | .schedule .. => "schedule"
  | .cancel .. => "cancel"
  | .execute .. => "execute"
  | .consumeScheduledOp .. => "consume_scheduled_op"

inductive AccessManagerError (H : Type) where
  | alreadyScheduled (operationId : H)
  | notScheduled (operationId : H)
  | notReady (operationId : H)
  | expired (operationId : H)
  | lockedRole (roleId : RoleId)
  | badConfirmation
  | unauthorizedAccount (msgSender : Addr) (requiredRoleId : RoleId)
  | unauthorizedCall (caller target : Addr) (selector : Selector)
  | unauthorizedConsume (target : Addr)
  | unauthorizedCancel (msgSender caller target : Addr) (selector : Selector)
  | internalSelector (selector : Selector)

inductive ContractError (H : Type) where
  | std
  | accessManager (error : AccessManagerError H)

abbrev Result (H : Type) := Except (ContractError H)

/-- A message for another contract, and whether the manager wants to hear of its success. -/
structure SubMsg where
  contractAddr : Addr
  msg : String
  funds : List Coin
  replyOnSuccess : Bool

/-- The hash, and the JSON that the manager reads and writes. -/
structure Crates (H : Type) where
  sha256 : String → H
  /-- the only top level key of an object -/
  extractFromData : String → Option Selector
  fromJson : String → Option ExecuteMsg
  json : ExecuteMsg → String
  /-- the message of a managed contract that sets its authority -/
  setAuthorityJson : Addr → String

structure QueryCtx where
  addressThis : Addr
  /-- The time of the block in seconds. -/
  timestamp : Nat

structure ExecCtx extends QueryCtx where
  msgSender : Addr
  value : List Coin
  msgData : String
  /-- What a contract answers when asked whether it is consuming a schedule. -/
  isConsumingScheduledOp : Addr → Option Selector

/-! ## Operations -/

/-- A call of a target by a caller. -/
structure Op where
  caller : Addr
  target : Addr
  data : String
  deriving DecidableEq

/-- What `hash_operation` hashes. -/
def Op.text (op : Op) : String := op.caller ++ "/" ++ op.target ++ "/" ++ op.data

/-- What `_hash_execution_id` hashes. -/
def executionText (target : Addr) (selector : Selector) : String := target ++ ":" ++ selector

theorem append_cons_inj {α : Type} {a : α} : ∀ {l l' r r' : List α}, a ∉ l → a ∉ l' →
    l ++ a :: r = l' ++ a :: r' → l = l' ∧ r = r'
  | [], [], _, _, _, _, h => ⟨rfl, (List.cons.inj h).2⟩
  | [], b :: l', _, _, _, hl', h => absurd (List.cons.inj h).1 (fun heq => hl' (heq ▸ List.mem_cons_self ..))
  | b :: l, [], _, _, hl, _, h => absurd (List.cons.inj h).1 (fun heq => hl (heq ▸ List.mem_cons_self ..))
  | b :: l, b' :: l', _, _, hl, hl', h => by
    obtain ⟨rfl, htail⟩ := List.cons.inj h
    obtain ⟨rfl, hr⟩ := append_cons_inj (fun hm => hl (List.mem_cons_of_mem _ hm))
      (fun hm => hl' (List.mem_cons_of_mem _ hm)) htail
    exact ⟨rfl, hr⟩

theorem text_toList (op : Op) :
    op.text.toList = op.caller.toList ++ '/' :: (op.target.toList ++ '/' :: op.data.toList) := by
  simp [Op.text, String.toList_append]

theorem text_injective {op op' : Op} (hcaller : '/' ∉ op.caller.toList) (htarget : '/' ∉ op.target.toList)
    (hcaller' : '/' ∉ op'.caller.toList) (htarget' : '/' ∉ op'.target.toList)
      (h : op.text = op'.text) : op = op' := by
  have hlist := congrArg String.toList h
  rw [text_toList, text_toList] at hlist
  obtain ⟨hc, hrest⟩ := append_cons_inj hcaller hcaller' hlist
  obtain ⟨ht, hd⟩ := append_cons_inj htarget htarget' hrest
  cases op
  cases op'
  simp only [Op.mk.injEq]
  exact ⟨String.toList_inj.mp hc, String.toList_inj.mp ht, String.toList_inj.mp hd⟩

/-! ## Delays over time -/

structure DelayUpdate where
  timestamp : Nat
  newValue : UInt32
  minSetback : UInt32

/-- No setback reaches past the last second. -/
def DelayUpdate.InTime (u : DelayUpdate) : Prop := u.timestamp + 2 ^ 32 ≤ 2 ^ 64

namespace Delay

variable {d : Delay} {v t t' now : Nat} {u : DelayUpdate}

def update (d : Delay) (u : DelayUpdate) : Delay :=
  (d.withUpdate u.timestamp u.newValue.toNat u.minSetback.toNat).1

def run (d : Delay) (us : List DelayUpdate) : Delay := us.foldl update d

/-- The values are of the type `u32`. -/
structure Fits (d : Delay) : Prop where
  before : d.valueBefore < 2 ^ 32
  after : d.valueAfter < 2 ^ 32

/-- A lower value is pending. -/
def Falling (d : Delay) (t : Nat) : Prop := t < d.effectDate ∧ d.valueAfter < d.valueBefore

/-- From `now` on, the value is at least `v` less the time since `t`. -/
def Covers (d : Delay) (v t now : Nat) : Prop := ∀ t', now ≤ t' → v ≤ d.get t' + (t' - t)

theorem get_eq (d : Delay) (t : Nat) : d.get t = if d.effectDate ≤
    t then d.valueAfter else d.valueBefore := by
  unfold get getFull
  split <;> rfl

theorem Fits.get_lt (h : d.Fits) (t : Nat) : d.get t < 2 ^ 32 := by
  rw [get_eq]
  split
  · exact h.after
  · exact h.before

theorem Fits.update (h : d.Fits) (u : DelayUpdate) : (d.update u).Fits := ⟨h.get_lt _, u.newValue.toNat_lt⟩

theorem Fits.run (h : d.Fits) (us : List DelayUpdate) : (d.run us).Fits := by
  induction us generalizing d with
  | nil => exact h
  | cons u us ih => exact ih (h.update u)

theorem get_update (h : d.Fits) (hu : u.InTime) (t : Nat) : (d.update u).get t =
    if u.timestamp + max u.minSetback.toNat (d.get u.timestamp - u.newValue.toNat) ≤ t then u.newValue.toNat
      else d.get u.timestamp := by
  have hvalue := h.get_lt u.timestamp
  have hsetback := u.minSetback.toNat_lt
  have hwrap : (u.timestamp + max u.minSetback.toNat (d.get u.timestamp - u.newValue.toNat)) % 2 ^ 64 =
      u.timestamp + max u.minSetback.toNat (d.get u.timestamp - u.newValue.toNat) := by
    refine Nat.mod_eq_of_lt ?_
    unfold DelayUpdate.InTime at hu
    omega
  rw [get_eq]
  unfold Delay.update withUpdate
  simp only [hwrap]

theorem update_covers (hfits : d.Fits) (hin : u.InTime) (h : d.Covers v t now) (hle : t ≤ now)
    (hnow : now ≤ u.timestamp) : (d.update u).Covers v t u.timestamp := by
  intro t' ht'
  have hv := h u.timestamp hnow
  rw [get_update hfits hin]
  split <;> omega

theorem run_covers {us : List DelayUpdate} (hfits : d.Fits) (hin : ∀ u ∈ us, u.InTime)
    (hsorted : us.Pairwise fun a b => a.timestamp ≤ b.timestamp)
    (hus : ∀ u ∈ us, now ≤ u.timestamp ∧ u.timestamp ≤ t') (h : d.Covers v t now) (hle : t ≤ now)
    (hnow : now ≤ t') : v ≤ (d.run us).get t' + (t' - t) := by
  induction us generalizing d now with
  | nil => exact h t' hnow
  | cons u us ih =>
    obtain ⟨hfirst, hrest⟩ := List.pairwise_cons.mp hsorted
    obtain ⟨hu, hu'⟩ := hus u List.mem_cons_self
    refine ih (hfits.update u) (fun w hw => hin w (List.mem_cons_of_mem u hw)) hrest ?_
      (update_covers hfits (hin u List.mem_cons_self) h hle hu) (by omega) hu'
    intro w hw
    exact ⟨hfirst w hw, (hus w (List.mem_cons_of_mem u hw)).2⟩

theorem covers_of_not_falling (h : ¬ d.Falling t) : d.Covers (d.get t) t t := by
  intro t' ht'
  unfold Falling at h
  rw [get_eq, get_eq]
  split <;> split <;> omega

theorem covers_update (hfits : d.Fits) (hin : u.InTime) (hu : u.timestamp ≤ t) :
    (d.update u).Covers ((d.update u).get t) u.timestamp t := by
  intro t' ht'
  rw [get_update hfits hin, get_update hfits hin]
  split <;> split <;> omega

/-- **A delay falls no faster than time passes**, counted from now where no lower value is pending,
    and else from the update that requested it. -/
theorem get_le_run (d : Delay) (hfits : d.Fits) {past future : List DelayUpdate}
    (hin : ∀ u ∈ past ++ future, u.InTime) (hle : t ≤ t')
    (hsorted : future.Pairwise fun a b => a.timestamp ≤ b.timestamp) (hpast : ∀ u ∈ past, u.timestamp ≤ t)
    (hfuture : ∀ u ∈ future, t ≤ u.timestamp ∧ u.timestamp ≤ t') :
    (¬ (d.run past).Falling t → (d.run past).get t ≤ (d.run (past ++ future)).get t' + (t' - t)) ∧
      ∀ u, past.getLast? = some u →
        (d.run past).get t ≤ (d.run (past ++ future)).get t' + (t' - u.timestamp) := by
  have happend : d.run (past ++ future) = (d.run past).run future := List.foldl_append
  have hnext : ∀ u ∈ future, u.InTime := fun u hu => hin u (List.mem_append_right _ hu)
  rw [happend]
  refine ⟨fun h => run_covers (hfits.run past) hnext hsorted hfuture (covers_of_not_falling h)
    (Nat.le_refl t) hle, ?_⟩
  intro u hlast
  obtain ⟨us, rfl⟩ := List.getLast?_eq_some_iff.mp hlast
  have hu : u.timestamp ≤ t := hpast u (by simp)
  have hrun : d.run (us ++ [u]) = (d.run us).update u := List.foldl_concat ..
  have hlastIn : u.InTime := hin u (by simp)
  have hfits' := hfits.run us
  rw [hrun]
  exact run_covers (hfits'.update u) hnext hsorted hfuture (covers_update hfits' hlastIn hu) hu hle

theorem get_le_run_regranted :
    ((new 10).run [⟨0, 4, 0⟩]).get 3 ≤ ((new 10).run [⟨0, 4, 0⟩, ⟨3, 7, 5⟩]).get 8 + (8 - 0) :=
  (@get_le_run 3 8 (new 10) ⟨by decide, by decide⟩ [⟨0, 4, 0⟩] [⟨3, 7, 5⟩]
    (by simp [DelayUpdate.InTime]) (by decide) (by simp) (by simp) (by simp)).2 ⟨0, 4, 0⟩ rfl

/-- Ten seconds are left right before the lower value takes effect, and none after it; and so at the
    end of time, where it takes effect at once. -/
theorem lowered_at_once :
    ¬ ((new 10).run [⟨0, 0, 0⟩]).get 9 ≤ ((new 10).run [⟨0, 0, 0⟩]).get 10 + (10 - 9) ∧
    ¬ (new 10).get (2 ^ 64 - 7) ≤ ((new 10).run [⟨2 ^ 64 - 6, 0, 0⟩]).get (2 ^ 64 - 6) + 1 := by decide

end Delay

end UnionVoyager.AccessManager
