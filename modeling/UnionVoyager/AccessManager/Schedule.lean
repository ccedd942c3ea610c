import UnionVoyager.AccessManager.Manager
import UnionVoyager.Lib.Machine

/-!
# Delayed operations

The manager under any messages of any senders, at times that never go back.

* `SlotInv` — what the table of schedules says is what the last entry about that hash asked for.
-/

namespace UnionVoyager.AccessManager

open Lib Lib.Machine Function

variable {H : Type} [DecidableEq H] (crates : Crates H)

structure World (H : Type) where
  now : Nat
  state : State H

structure Message where
  /-- the time since the message before it -/
  elapsed : Nat
  sender : Addr
  value : List Coin
  isConsumingScheduledOp : Addr → Option Selector
  msg : ExecuteMsg

inductive Input where
  | message (message : Message)
  | reply

/-- A message that went through: what it was handled with, and the stores before and after it. -/
structure Entry (H : Type) where
  ctx : ExecCtx
  before : State H
  msg : ExecuteMsg
  after : State H

def Message.ctx (this : Addr) (now : Nat) (m : Message) : ExecCtx :=
  ⟨⟨this, now⟩, m.sender, m.value, crates.json m.msg, m.isConsumingScheduledOp⟩

/-- A message that fails, and a reply, leave nothing behind in the record. -/
def step (this : Addr) (w : World H) : Input → World H × List (Entry H)
  | .message m =>
    let now := w.now + m.elapsed
    let ctx := m.ctx crates this now
    match execute crates ctx w.state m.msg with
    | .ok (s, _) => (⟨now, s⟩, [⟨ctx, w.state, m.msg, s⟩])
    | .error _ => (⟨now, w.state⟩, [])
  | .reply =>
    match reply w.state with
    | .ok s => ({ w with state := s }, [])
    | .error _ => (w, [])

/-! ## The operations of a message -/

namespace ExecuteMsg

/-- The operation that a message schedules. -/
def scheduled (sender : Addr) : ExecuteMsg → Option Op
  | .schedule target data _ => some ⟨sender, target, data⟩
  | _ => none

/-- The operation that a message cancels. -/
def cancelled : ExecuteMsg → Option Op
  | .cancel caller target data => some ⟨caller, target, data⟩
  | _ => none

/-- The operation that takes effect with a message: one that the manager executes, one that a target
confirms, or a call of the manager itself. -/
def performed (this sender : Addr) (msgData : String) : ExecuteMsg → Option Op
  | .execute target data => some ⟨sender, target, data⟩
  | .consumeScheduledOp caller data => some ⟨caller, sender, data⟩
  | msg => if restricted msg then some ⟨sender, this, msgData⟩ else none

end ExecuteMsg

def Op.id (op : Op) : H := hashOperation crates op.caller op.target op.data

/-- When an operation may take effect, as the table has it. -/
def State.timepoint (s : State H) (id : H) : Option Nat := (s.schedules id).bind Schedule.timepoint

namespace Entry

variable (e : Entry H)

def now : Nat := e.ctx.timestamp

def scheduled : Option Op := e.msg.scheduled e.ctx.msgSender

def cancelled : Option Op := e.msg.cancelled

def performed : Option Op := e.msg.performed e.ctx.addressThis e.ctx.msgSender e.ctx.msgData

/-- The caller of the operation may call its target, with a delay. -/
def Delayed (op : Op) : Prop :=
  ∃ delay, canCallExtended crates e.ctx.toQueryCtx e.before op.caller op.target op.data =
    .ok (.withDelay delay)

/-- The entry schedules the operation for `w`, while the delay in force is `delay`. -/
structure Schedules (op : Op) (delay w : Nat) : Prop where
  scheduled : e.scheduled = some op
  inForce : canCallExtended crates e.ctx.toQueryCtx e.before op.caller op.target op.data =
    .ok (.withDelay delay)
  timepoint : e.after.timepoint (op.id crates) = some w

/-- The operation takes effect and uses up a schedule. -/
structure Spends (op : Op) : Prop where
  performed : e.performed = some op
  stood : e.before.timepoint (op.id crates) ≠ none
  used : e.after.timepoint (op.id crates) = none

/-- The sender is an admin, or a guardian of the role that the function of the operation needs. -/
def Guards (op : Op) : Prop :=
  ∃ selector roleId, crates.extractFromData op.data = some selector ∧
    getTargetFunctionRole e.before op.target selector = .ok roleId ∧
    (hasRole e.ctx.toQueryCtx e.before RoleId.ADMIN_ROLE e.ctx.msgSender ≠ .no ∨
      hasRole e.ctx.toQueryCtx e.before (getRoleGuardian e.before roleId) e.ctx.msgSender ≠ .no)

/-- The entry is one that the manager made. -/
def Valid : Prop := ∃ subs, execute crates e.ctx e.before e.msg = .ok (e.after, subs)

end Entry

/-- The operation was scheduled for `w`, no sooner than the delay of that time allowed, and since
then it has been neither scheduled again nor cancelled, and no execution has used its schedule. -/
def Standing (past : List (Entry H)) (op : Op) (w : Nat) : Prop :=
  ∃ before e mid delay, past = before ++ e :: mid ∧ e.Schedules crates op delay w ∧ e.now + delay ≤ w ∧
    ∀ e' ∈ mid, e'.scheduled ≠ some op ∧ e'.cancelled ≠ some op ∧ ¬ e'.Spends crates op

/-- What an entry may do, given what came before it. -/
structure Sound (past : List (Entry H)) (e : Entry H) : Prop where
  performed : ∀ op, e.performed = some op → e.Delayed crates op → e.Spends crates op
  spends : ∀ op, e.Spends crates op → ∃ w, Standing crates past op w ∧ w ≤ e.now ∧ e.now < w + expiration
  cancelled : ∀ op, e.cancelled = some op →
    (∃ w, Standing crates past op w) ∧ (e.ctx.msgSender = op.caller ∨ e.Guards crates op)

/-! ## What an entry does to the table -/

theorem timepoint_update_self (s : State H) (id : H) (schedule : Schedule) :
    State.timepoint { s with schedules := update s.schedules id (some schedule) } id =
      schedule.timepoint := by
  simp [State.timepoint]

variable {s : State H}

theorem consumeOperation_slot {ctx : QueryCtx} {s' : State H} {id : H} {nonce : Nonce}
    (h : consumeOperation ctx s id = .ok (s', nonce)) :
    (∃ w, s.timepoint id = some w ∧ w ≤ ctx.timestamp ∧ ctx.timestamp < w + expiration) ∧
      s'.timepoint id = none ∧ ∀ id', id' ≠ id → s'.schedules id' = s.schedules id' := by
  obtain ⟨w, hslot, hready, hfresh, rfl⟩ := consumeOperation_eq_ok.mp h
  refine ⟨⟨w, by rw [State.timepoint, hslot]; rfl, hready, ?_⟩, timepoint_update_self s id _, ?_⟩
  · have hlt : ctx.timestamp < (w + expiration) % 2 ^ 64 := Nat.not_le.mp (of_decide_eq_false hfresh)
    exact Nat.lt_of_lt_of_le hlt (Nat.mod_le _ _)
  · intro id' hne
    exact update_of_ne hne _ _

/-- What an entry does to the slot of a hash: nothing, or it schedules an operation there, or it
    empties it. -/
inductive SlotStep (e : Entry H) (id : H) : Prop where
  | same (h : e.after.schedules id = e.before.schedules id)
  | schedules (op : Op) (delay w : Nat) (hid : op.id crates = id) (h : e.Schedules crates op delay w)
      (hw : e.now + delay ≤ w)
  | emptied (h : e.after.timepoint id = none)

variable {e : Entry H}

theorem consumeOperation_slotStep {id : H} {nonce : Nonce}
    (h : consumeOperation e.ctx.toQueryCtx e.before id = .ok (s, nonce))
    (hafter : e.after.schedules = s.schedules) (id' : H) : SlotStep crates e id' := by
  obtain ⟨-, hnone, hother⟩ := consumeOperation_slot h
  by_cases hid : id' = id
  · subst hid
    refine .emptied ?_
    rw [State.timepoint, hafter]
    exact hnone
  · exact .same (by rw [hafter, hother id' hid])

theorem restricted_schedules (hvalid : e.Valid crates) (hmsg : restricted e.msg = true) :
    (canCallSelf crates e.ctx.toQueryCtx e.before e.ctx.msgSender e.ctx.msgData = .ok .immediate ∧
        e.after.schedules = e.before.schedules) ∨
      ∃ s nonce, e.after.schedules = s.schedules ∧ consumeOperation e.ctx.toQueryCtx e.before
        (hashOperation crates e.ctx.msgSender e.ctx.addressThis e.ctx.msgData) = .ok (s, nonce) := by
  obtain ⟨subs, hvalid⟩ := hvalid
  obtain ⟨s₁, hcheck, hframe⟩ := execute_restricted crates hmsg hvalid
  rcases checkAuthorized_effect crates hcheck with ⟨himmediate, rfl⟩ | ⟨delay, nonce, -, hcons⟩
  · exact .inl ⟨himmediate, hframe.schedules⟩
  · exact .inr ⟨s₁, nonce, hframe.schedules, hcons⟩

omit [DecidableEq H] in
theorem performed_of_restricted (hmsg : restricted e.msg = true) :
    e.performed = some ⟨e.ctx.msgSender, e.ctx.addressThis, e.ctx.msgData⟩ := by
  unfold Entry.performed
  cases hcase : e.msg <;> rw [hcase] at hmsg <;> first | rfl | cases hmsg

/-- **Step lemma for the table.** -/
theorem slotStep (hvalid : e.Valid crates) (id : H) : SlotStep crates e id := by
  by_cases hmsg : restricted e.msg = true
  · rcases restricted_schedules crates hvalid hmsg with ⟨-, hsame⟩ | ⟨s, nonce, hafter, hcons⟩
    · exact .same (congrFun hsame id)
    · exact consumeOperation_slotStep crates hcons hafter id
  · obtain ⟨subs, hvalid⟩ := hvalid
    cases hcase : e.msg with
    | renounceRole roleId confirmation =>
      rw [hcase] at hvalid
      exact .same (congrFun (execute_renounceRole crates hvalid).2.1.schedules id)
    | schedule target data when =>
      rw [hcase] at hvalid
      obtain ⟨delay, hdelay, hwhen, -, -, hafter⟩ := execute_schedule crates hvalid
      by_cases hid : id = hashOperation crates e.ctx.msgSender target data
      · refine .schedules ⟨e.ctx.msgSender, target, data⟩ delay (max when (e.now + delay)) hid.symm
          ⟨?_, hdelay, ?_⟩ (Nat.le_max_right ..)
        · rw [Entry.scheduled, hcase]
          rfl
        · rw [hafter]
          exact timepoint_update_self ..
      · refine .same ?_
        rw [hafter]
        exact update_of_ne hid _ _
    | cancel caller target data =>
      rw [hcase] at hvalid
      obtain ⟨w, nonce, -, -, hafter, -⟩ := execute_cancel crates hvalid
      by_cases hid : id = hashOperation crates caller target data
      · refine .emptied ?_
        rw [hafter, hid]
        exact timepoint_update_self ..
      · refine .same ?_
        rw [hafter]
        exact update_of_ne hid _ _
    | execute target data =>
      rw [hcase] at hvalid
      obtain ⟨answer, s₁, selector, -, -, hcons, -, hafter, -⟩ := execute_execute crates hvalid
      rcases hcons with ⟨nonce, hcons⟩ | ⟨-, rfl⟩
      · exact consumeOperation_slotStep crates hcons (by rw [hafter]) id
      · exact .same (by rw [hafter])
    | consumeScheduledOp caller data =>
      rw [hcase] at hvalid
      obtain ⟨-, -, nonce, hcons⟩ := execute_consumeScheduledOp crates hvalid
      exact consumeOperation_slotStep crates hcons rfl id
    | _ => exact absurd (by rw [hcase]; rfl) hmsg

variable {op : Op}

theorem touched (hvalid : e.Valid crates)
    (hsame : e.after.schedules (op.id crates) = e.before.schedules (op.id crates)) :
    e.scheduled ≠ some op ∧ e.cancelled ≠ some op ∧ ¬ e.Spends crates op := by
  have htimepoint : e.after.timepoint (op.id crates) = e.before.timepoint (op.id crates) := by
    rw [State.timepoint, State.timepoint, hsame]
  obtain ⟨subs, hvalid⟩ := hvalid
  refine ⟨?_, ?_, fun h => h.stood (htimepoint.symm.trans h.used)⟩
  · intro hsched
    unfold Entry.scheduled ExecuteMsg.scheduled at hsched
    split at hsched
    case h_1 target data when hmsg =>
      cases hsched
      rw [hmsg] at hvalid
      obtain ⟨delay, -, -, -, -, hafter⟩ := execute_schedule crates hvalid
      rw [hafter] at hsame
      have hslot := (update_self ..).symm.trans hsame
      have hnonce : getNonce e.before (Op.id crates ⟨e.ctx.msgSender, target, data⟩) =
          getNonce e.before (hashOperation crates e.ctx.msgSender target data) + 1 := by
        unfold getNonce
        rw [← hslot]
        rfl
      exact absurd hnonce.symm (by simp [Op.id])
    case h_2 => cases hsched
  · intro hcancelled
    unfold Entry.cancelled ExecuteMsg.cancelled at hcancelled
    split at hcancelled
    case h_1 caller target data hmsg =>
      cases hcancelled
      rw [hmsg] at hvalid
      obtain ⟨w, nonce, hslot, -, hafter, -⟩ := execute_cancel crates hvalid
      rw [hafter] at htimepoint
      have hnone := (timepoint_update_self e.before (hashOperation crates caller target data)
        _).symm.trans htimepoint
      have hsome : e.before.timepoint (hashOperation crates caller target data) = some w := by
        rw [State.timepoint, hslot]
        rfl
      rw [Op.id, hsome] at hnone
      cases hnone
    case h_2 => cases hcancelled

theorem spends_of_delayed (hvalid : e.Valid crates) (hperformed : e.performed = some op)
    (hdelayed : e.Delayed crates op) : e.Spends crates op := by
  have hspends : ∀ {s : State H} {nonce : Nonce}, e.after.schedules = s.schedules →
      consumeOperation e.ctx.toQueryCtx e.before (op.id crates) = .ok (s, nonce) → e.Spends crates op := by
    intro s nonce hafter hcons
    obtain ⟨⟨w, hstood, -⟩, hnone, -⟩ := consumeOperation_slot hcons
    refine ⟨hperformed, by rw [hstood]; simp, ?_⟩
    rw [State.timepoint, hafter]
    exact hnone
  obtain ⟨delay, hdelayed⟩ := hdelayed
  by_cases hmsg : restricted e.msg = true
  · obtain rfl : (⟨e.ctx.msgSender, e.ctx.addressThis, e.ctx.msgData⟩ : Op) = op :=
      Option.some.inj ((performed_of_restricted hmsg).symm.trans hperformed)
    rcases restricted_schedules crates hvalid hmsg with ⟨himmediate, -⟩ | ⟨s, nonce, hafter, hcons⟩
    · rw [canCallExtended, if_pos rfl, himmediate] at hdelayed
      cases hdelayed
    · exact hspends hafter hcons
  · obtain ⟨subs, hvalid⟩ := hvalid
    have hperformed' := hperformed
    unfold Entry.performed ExecuteMsg.performed at hperformed'
    split at hperformed'
    case h_1 target data hcase =>
      cases hperformed'
      rw [hcase] at hvalid
      obtain ⟨answer, s₁, selector, hans, -, hcons, -, hafter, -⟩ := execute_execute crates hvalid
      rw [hans] at hdelayed
      cases hdelayed
      rcases hcons with ⟨nonce, hcons⟩ | ⟨himmediate, -⟩
      · exact hspends (by rw [hafter]) hcons
      · cases himmediate
    case h_2 caller data hcase =>
      cases hperformed'
      rw [hcase] at hvalid
      obtain ⟨-, -, nonce, hcons⟩ := execute_consumeScheduledOp crates hvalid
      exact hspends rfl hcons
    case h_3 => cases (if_neg hmsg).symm.trans hperformed'

theorem Entry.Spends.inTime (hvalid : e.Valid crates) (h : e.Spends crates op) :
    ∃ w, e.before.timepoint (op.id crates) = some w ∧ w ≤ e.now ∧ e.now < w + expiration := by
  have hsame : e.after.schedules ≠ e.before.schedules := by
    intro heq
    refine h.stood ?_
    rw [State.timepoint, ← heq]
    exact h.used
  by_cases hmsg : restricted e.msg = true
  · obtain rfl : (⟨e.ctx.msgSender, e.ctx.addressThis, e.ctx.msgData⟩ : Op) = op :=
      Option.some.inj ((performed_of_restricted hmsg).symm.trans h.performed)
    rcases restricted_schedules crates hvalid hmsg with ⟨-, heq⟩ | ⟨s, nonce, -, hcons⟩
    · exact absurd heq hsame
    · exact (consumeOperation_slot hcons).1
  · obtain ⟨subs, hvalid⟩ := hvalid
    have hperf := h.performed
    unfold Entry.performed ExecuteMsg.performed at hperf
    split at hperf
    case h_1 target data hcase =>
      cases hperf
      rw [hcase] at hvalid
      obtain ⟨answer, s₁, selector, -, -, hcons, -, hafter, -⟩ := execute_execute crates hvalid
      rcases hcons with ⟨nonce, hcons⟩ | ⟨-, rfl⟩
      · exact (consumeOperation_slot hcons).1
      · exact absurd (by rw [hafter]) hsame
    case h_2 caller data hcase =>
      cases hperf
      rw [hcase] at hvalid
      obtain ⟨-, -, nonce, hcons⟩ := execute_consumeScheduledOp crates hvalid
      exact (consumeOperation_slot hcons).1
    case h_3 => cases (if_neg hmsg).symm.trans hperf

theorem cancelled_by (hvalid : e.Valid crates) (h : e.cancelled = some op) :
    (∃ w, e.before.timepoint (op.id crates) = some w) ∧
      (e.ctx.msgSender = op.caller ∨ e.Guards crates op) := by
  obtain ⟨subs, hvalid⟩ := hvalid
  unfold Entry.cancelled ExecuteMsg.cancelled at h
  split at h
  case h_1 caller target data hmsg =>
    cases h
    rw [hmsg] at hvalid
    obtain ⟨w, nonce, hslot, -, -, hmay⟩ := execute_cancel crates hvalid
    refine ⟨⟨w, by rw [State.timepoint, Op.id, hslot]; rfl⟩, ?_⟩
    by_cases hcaller : caller = e.ctx.msgSender
    · exact .inl hcaller.symm
    · exact .inr (hmay hcaller)
  case h_2 => cases h

/-! ## What a run does to the table -/

/-- The slot says what the last entry about its hash asked for. -/
def Backed (past : List (Entry H)) (s : State H) : Prop :=
  ∀ id w, s.timepoint id = some w → ∃ before e mid op delay, past = before ++ e :: mid ∧ op.id crates = id ∧
    e.Schedules crates op delay w ∧ e.now + delay ≤ w ∧
    ∀ e' ∈ mid, e'.after.schedules id = e'.before.schedules id

theorem Backed.concat {past : List (Entry H)} (h : Backed crates past e.before)
    (hvalid : e.Valid crates) : Backed crates (past ++ [e]) e.after := by
  intro id w hw
  cases slotStep crates hvalid id with
  | same hsame =>
    obtain ⟨before, e₀, mid, op, delay, rfl, hid, hschedules, hdelay, hmid⟩ :=
      h id w (by rw [State.timepoint, ← hsame]; exact hw)
    refine ⟨before, e₀, mid ++ [e], op, delay, by simp, hid, hschedules, hdelay, ?_⟩
    intro e' he'
    rcases List.mem_append.mp he' with he' | he'
    · exact hmid e' he'
    · cases List.mem_singleton.mp he'
      exact hsame
  | schedules op delay w' hid hschedules hdelay =>
    have hw' := hschedules.timepoint
    rw [hid, hw] at hw'
    cases hw'
    exact ⟨past, e, [], op, delay, rfl, hid, hschedules, hdelay, by simp⟩
  | emptied hnone =>
    rw [hw] at hnone
    cases hnone

/-- What is kept along a run. -/
structure RunInv (w : World H) (tr : List (Entry H)) : Prop where
  backed : Backed crates tr w.state
  along : Along (fun past e => e.Valid crates ∧ Backed crates past e.before) tr

theorem step_inv (this : Addr) {w : World H} {tr : List (Entry H)} (h : RunInv crates w tr)
    (i : Input) : RunInv crates (step crates this w i).1 (tr ++ (step crates this w i).2) := by
  cases i with
  | message m =>
    unfold step
    dsimp only
    split
    · rename_i s subs hok
      have hvalid : Entry.Valid crates ⟨m.ctx crates this (w.now + m.elapsed), w.state, m.msg, s⟩ :=
        ⟨subs, hok⟩
      exact ⟨Backed.concat crates (e := ⟨m.ctx crates this (w.now + m.elapsed), w.state, m.msg, s⟩)
        h.backed hvalid, along_concat.mpr ⟨h.along, hvalid, h.backed⟩⟩
    · rw [List.append_nil]
      exact ⟨h.backed, h.along⟩
  | reply =>
    unfold step
    dsimp only
    split
    · rename_i s hok
      rw [List.append_nil]
      unfold reply at hok
      split at hok
      · cases hok
      · cases hok
        exact ⟨h.backed, h.along⟩
    · rw [List.append_nil]
      exact h

theorem entry_of_mem {this : Addr} {w : World H} {is : List Input} (h : e ∈ trace (step crates this) w is) :
    ∃ m, .message m ∈ is ∧ e.msg = m.msg ∧ e.ctx.msgSender = m.sender ∧ e.ctx.addressThis = this ∧
      e.ctx.msgData = crates.json m.msg := by
  obtain ⟨past, i, rest, rfl, he⟩ := (mem_trace is w).mp h
  cases i with
  | message m =>
    unfold step at he
    dsimp only at he
    split at he
    · cases List.mem_singleton.mp he
      exact ⟨m, by simp, rfl, rfl, rfl, rfl⟩
    · cases he
  | reply =>
    unfold step at he
    dsimp only at he
    split at he <;> cases he

/-! ## Texts -/

/-- The operation that a message performs or cancels. -/
def Message.Names (this : Addr) (m : Message) (op : Op) : Prop :=
  m.msg.performed this m.sender (crates.json m.msg) = some op ∨ m.msg.cancelled = some op

/-- No operation that is performed or cancelled has the text of another one that is scheduled. -/
def Legible (this : Addr) (is : List Input) : Prop :=
  ∀ m m', .message m ∈ is → .message m' ∈ is → ∀ op op', m.msg.scheduled m.sender = some op →
    m'.Names crates this op' → op.text = op'.text → op = op'

/-- The names of callers and targets are addresses, which have no slash. -/
structure NoSlash (op : Op) : Prop where
  caller : '/' ∉ op.caller.toList
  target : '/' ∉ op.target.toList

omit [DecidableEq H] in
theorem legible_of_no_slash {this : Addr} {is : List Input}
    (hscheduled : ∀ m, .message m ∈ is → ∀ op, m.msg.scheduled m.sender = some op → NoSlash op)
    (hnames : ∀ m, .message m ∈ is → ∀ op, m.Names crates this op → NoSlash op) : Legible crates this is := by
  intro m m' hm hm' op op' hop hop' htext
  have h := hscheduled m hm op hop
  have h' := hnames m' hm' op' hop'
  exact text_injective h.caller h.target h'.caller h'.target htext

/-! ## Soundness -/

theorem standing_of_backed (hsha : Injective crates.sha256) {past : List (Entry H)}
    (hvalid : ∀ e ∈ past, e.Valid crates) (hbacked : Backed crates past s) {w : Nat}
    (hw : s.timepoint (op.id crates) = some w)
    (hlegible : ∀ e ∈ past, ∀ op', e.scheduled = some op' → op'.text = op.text → op' = op) :
    Standing crates past op w := by
  obtain ⟨before, e, mid, op', delay, rfl, hid, hschedules, hdelay, hmid⟩ := hbacked _ w hw
  obtain rfl : op' = op := hlegible e (by simp) op' hschedules.scheduled (hsha hid)
  refine ⟨before, e, mid, delay, rfl, hschedules, hdelay, ?_⟩
  intro e' he'
  exact touched crates (hvalid e' (by simp [he'])) (hmid e' he')

/-- **Delayed operations take effect only as scheduled.** -/
theorem runs_as_scheduled (hsha : Injective crates.sha256) {ctx : ExecCtx} {initialAdmin : Addr} {s : State H}
    (hinit : init ctx initialAdmin = .ok s) (is : List Input) (hlegible : Legible crates ctx.addressThis is) :
    Along (Sound crates) (trace (step crates ctx.addressThis) ⟨ctx.timestamp, s⟩ is) := by
  have hempty : Backed crates ([] : List (Entry H)) s := by
    obtain ⟨⟨s', newMember⟩, hgrant, hpure⟩ := bind_eq_ok.mp hinit
    cases hpure
    intro id w hw
    rw [State.timepoint, (Contract.grantRoleUnchecked_frame hgrant).schedules] at hw
    cases hw
  have hinv := invariant (fun w tr i h => step_inv crates ctx.addressThis h i)
    (I := RunInv crates) (s := ⟨ctx.timestamp, s⟩) ⟨hempty, along_nil⟩ is
  intro past e rest hsplit
  have hmem : ∀ e' ∈ past ++ [e], e' ∈ trace (step crates ctx.addressThis) ⟨ctx.timestamp, s⟩ is := by
    intro e' he'
    rw [hsplit]
    rcases List.mem_append.mp he' with he' | he'
    · exact List.mem_append_left _ he'
    · cases List.mem_singleton.mp he'
      simp
  obtain ⟨hvalid, hbacked⟩ := hinv.along past e rest hsplit
  have hpast : ∀ e' ∈ past, e'.Valid crates := by
    intro e' he'
    obtain ⟨before, after, -, hvalid', -⟩ := hinv.along.of_mem (hmem e' (List.mem_append_left _ he'))
    exact hvalid'
  -- what the entry names is named by its message, and what was scheduled by an earlier one
  have hstanding : ∀ {op : Op} {w : Nat}, e.performed = some op ∨ e.cancelled = some op →
      e.before.timepoint (op.id crates) = some w → Standing crates past op w := by
    intro op w hnames hw
    refine standing_of_backed crates hsha hpast hbacked hw ?_
    intro e' he' op' hsched htext
    obtain ⟨m, hm, hmsg, hsender, -, -⟩ := entry_of_mem crates (hmem e' (List.mem_append_left _ he'))
    obtain ⟨m', hm', hmsg', hsender', hthis', hdata'⟩ := entry_of_mem crates (hmem e (by simp))
    refine hlegible m m' hm hm' op' op ?_ ?_ htext
    · rw [← hmsg, ← hsender]
      exact hsched
    · unfold Message.Names
      rw [← hdata', ← hmsg', ← hsender']
      unfold Entry.performed at hnames
      rwa [hthis'] at hnames
  refine ⟨fun op hperf hdelayed => spends_of_delayed crates hvalid hperf hdelayed, ?_, ?_⟩
  · intro op hspends
    obtain ⟨w, hw, hready, hfresh⟩ := hspends.inTime crates hvalid
    exact ⟨w, hstanding (.inl hspends.performed) hw, hready, hfresh⟩
  · intro op hcancelled
    obtain ⟨⟨w, hw⟩, hby⟩ := cancelled_by crates hvalid hcancelled
    exact ⟨⟨w, hstanding (.inr hcancelled) hw⟩, hby⟩

/-! ## Two runs -/

namespace Sample

/-- A call of `t`, and one of a target that is no address; the two have the same text. -/
def data : String := "\x7b\"k\":[\"/\x7b\", \": 1\x7d\"]\x7d"

def otherTarget : Addr := "t/\x7b\"k\":[\""

def otherData : String := "\x7b\", \": 1\x7d\"]\x7d"

def grant : ExecuteMsg := .grantRole RoleId.ADMIN_ROLE "c" 10

def grantJson : String :=
    "\x7b\"grant_role\":\x7b\"role_id\":\"0\",\"account\":\"c\",\"execution_delay\":10\x7d\x7d"

/-- The texts that the runs below read and write; what follows an object is not read. -/
def texts : Crates String where
  sha256 := id
  extractFromData d := if d = data then some "k" else if d = otherData then some ", " else none
  fromJson d := if d = grantJson then some grant else none
  json m := if m = grant then grantJson else ""
  setAuthorityJson a := "\x7b\"set_authority\":\x7b\"new_authority\":\"" ++ a ++ "\"\x7d\x7d"

def sent (elapsed : Nat) (sender : Addr) (msg : ExecuteMsg) : Input :=
    .message ⟨elapsed, sender, [], fun _ => none, msg⟩

def deployed : ExecCtx := ⟨⟨"m", 1⟩, "root", [], "", fun _ => none⟩

/-- The stores after the contract was set up. -/
def start : State String :=
  { State.empty with
    roleMembers := update (fun _ => none) (RoleId.ADMIN_ROLE, "root") (some ⟨1, .new 0⟩) }

theorem init_eq : init deployed "root" = .ok start := rfl

/-- An admin with a delay of ten seconds schedules a call and makes it. -/
def scheduledCall (target : Addr) (d : String) : List Input :=
  [sent 0 "root" grant, sent 4 "c" (.schedule target d 20), sent 20 "c" (.execute "t" data)]

theorem mem_scheduledCall {target : Addr} {d : String} {m : Message}
    (h : .message m ∈ scheduledCall target d) :
    m.sender = "root" ∧ m.msg = grant ∨ m.sender = "c" ∧ m.msg = .schedule target d 20 ∨
      m.sender = "c" ∧ m.msg = .execute "t" data := by
  simp only [scheduledCall, sent, List.mem_cons, Input.message.injEq, List.not_mem_nil, or_false] at h
  rcases h with rfl | rfl | rfl
  · exact .inl ⟨rfl, rfl⟩
  · exact .inr (.inl ⟨rfl, rfl⟩)
  · exact .inr (.inr ⟨rfl, rfl⟩)

theorem scheduledCall_legible : Legible texts "m" (scheduledCall "t" data) := by
  refine legible_of_no_slash texts ?_ ?_
  · intro m hm op hop
    rcases mem_scheduledCall hm with ⟨hs, hmsg⟩ | ⟨hs, hmsg⟩ | ⟨hs, hmsg⟩
    · rw [hmsg] at hop
      cases hop
    · rw [hmsg, hs] at hop
      cases hop
      exact ⟨by decide, by decide⟩
    · rw [hmsg] at hop
      cases hop
  · intro m hm op hop
    rcases mem_scheduledCall hm with ⟨hs, hmsg⟩ | ⟨hs, hmsg⟩ | ⟨hs, hmsg⟩
    · rw [Message.Names, hmsg, hs] at hop
      rcases hop with hop | hop
      · cases hop
        exact ⟨by decide, by decide⟩
      · cases hop
    · rw [Message.Names, hmsg] at hop
      rcases hop with hop | hop <;> cases hop
    · rw [Message.Names, hmsg, hs] at hop
      rcases hop with hop | hop
      · cases hop
        exact ⟨by decide, by decide⟩
      · cases hop

end Sample

open Sample in
theorem runs_as_scheduled_sample : Along (Sound texts)
    (trace (step texts "m") ⟨1, start⟩ (scheduledCall "t" data)) :=
  runs_as_scheduled texts injective_id init_eq _ scheduledCall_legible

namespace Sample

def otherRun : List (Entry String) := trace (step texts "m") ⟨1, start⟩ (scheduledCall otherTarget otherData)

theorem otherRun_performed : otherRun.map Entry.performed =
    [some ⟨"root", "m", grantJson⟩, none, some ⟨"c", "t", data⟩] := by decide

theorem otherRun_scheduled : otherRun.map Entry.scheduled =
      [none, some ⟨"c", otherTarget, otherData⟩, none] := by
  decide

theorem otherRun_delayed : otherRun.map (fun e =>
    (canCallExtended texts e.ctx.toQueryCtx e.before "c" "t" data).toOption) =
      [some .unauthorized, some (.withDelay 10), some (.withDelay 10)] := by decide

end Sample

open Sample in
/-- A call that is delayed is made on the schedule of another one. -/
theorem other_target_scheduled :
    ¬ ∀ (crates : Crates String), Injective crates.sha256 → ∀ (ctx : ExecCtx) (initialAdmin : Addr)
      (s : State String), init ctx initialAdmin = .ok s → ∀ is : List Input,
        Along (Sound crates) (trace (step crates ctx.addressThis) ⟨ctx.timestamp, s⟩ is) := by
  intro h
  have hsound : Along (Sound texts) otherRun := h texts injective_id deployed "root" start init_eq _
  obtain ⟨e₀, e₁, e₂, hrun⟩ : ∃ e₀ e₁ e₂, otherRun = [e₀, e₁, e₂] :=
    List.length_eq_three.mp (by rw [← List.length_map (f := Entry.performed), otherRun_performed]; rfl)
  have hperf := otherRun_performed
  have hsched := otherRun_scheduled
  have hdelayed := otherRun_delayed
  rw [hrun] at hsound hperf hsched hdelayed
  simp only [List.map_cons, List.map_nil, List.cons.injEq, and_true] at hperf hsched hdelayed
  have hlast := hsound [e₀, e₁] e₂ [] rfl
  have hans : e₂.Delayed texts ⟨"c", "t", data⟩ := by
    refine ⟨10, ?_⟩
    cases hcase : canCallExtended texts e₂.ctx.toQueryCtx e₂.before "c" "t" data with
    | error err =>
      rw [hcase] at hdelayed
      cases hdelayed.2.2
    | ok answer =>
      rw [hcase] at hdelayed
      rw [Option.some.inj hdelayed.2.2]
  -- the schedule that it uses up is none of those asked for
  obtain ⟨w, ⟨before, e, mid, delay, hpast, hschedules, -⟩, -⟩ :=
    hlast.spends _ (hlast.performed _ hperf.2.2 hans)
  have hmem : e ∈ [e₀, e₁] := by
    rw [hpast]
    simp
  have hnot := hschedules.scheduled
  simp only [List.mem_cons, List.not_mem_nil, or_false] at hmem
  rcases hmem with rfl | rfl
  · rw [hsched.1] at hnot
    cases hnot
  · rw [hsched.2.1] at hnot
    exact absurd (Option.some.inj hnot) (by decide)

end UnionVoyager.AccessManager
