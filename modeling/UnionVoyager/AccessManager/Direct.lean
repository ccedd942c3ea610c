import Mathlib.Logic.Equiv.List
import Mathlib.Tactic.DeriveEncodable
import UnionVoyager.AccessManager.Chain

/-!
# Calling a guarded contract directly

A caller with a delay schedules a message and later sends it to the contract itself, which uses the
schedule up and then calls itself.  The call to itself is guarded again, with the contract as its
caller.

* `runs_direct_iff`, `runs_direct_none` — what a direct call comes to; `not_runs_self` — the call to itself.
-/

namespace UnionVoyager.AccessManager

open Lib Lib.Submessages

variable {H T σ X : Type} [DecidableEq H]

namespace Chain

variable (ch : Chain H T σ X)

/-! ## The call and its parts -/

def directCall (caller : Addr) (value : T) (funds : List Coin) : Call :=
    ⟨caller, ch.target, ch.json value, funds⟩

/-- The contract calls itself. -/
def selfCall (value : T) : Call := ch.directCall ch.target value []

def consumeCall (caller : Addr) (value : T) : Call :=
  ⟨ch.target, ch.manager, ch.crates.json (.consumeScheduledOp caller (ch.json value)), []⟩

def operationId (caller : Addr) (value : T) : H := hashOperation ch.crates caller ch.target (ch.json value)

/-- What JSON and an empty list of coins are. -/
structure Wired : Prop where
  distinct : ch.target ≠ ch.manager
  parse_json : ∀ value, ch.parse (ch.json value) = some (.restricted value)
  fromJson_json : ∀ msg, ch.crates.fromJson (ch.crates.json msg) = some msg
  transfer_nil : ∀ x a b, ch.transfer x a b [] = some x

section

variable (w : ChainState H σ X) (caller : Addr) (value : T)

/-- The answer of the manager for a caller of the contract. -/
def answerTo : Result H CanCall :=
  canCall ch.crates (ch.queryCtx w) w.manager caller ch.target (ch.selector value)

/-- The schedule of the message stands, is ready, and has not expired. -/
def Scheduled : Prop :=
  ∃ t nonce, w.manager.schedules (ch.operationId caller value) = some ⟨some t, nonce⟩ ∧ t ≤ w.now ∧
    isExpired (ch.queryCtx w) t = false

/-- The schedule of the message is used up. -/
def consumed : ChainState H σ X :=
  { w with
    manager := { w.manager with
      schedules := Function.update w.manager.schedules (ch.operationId caller value)
        (some ⟨none, getNonce w.manager (ch.operationId caller value)⟩) } }

end

def HandlerRuns (w : ChainState H σ X) (info : MessageInfo) (value : T)
    (r : Option (ChainState H σ X)) : Prop :=
  match ch.handle w info value with
  | none => r = none
  | some (own, outs) =>
    Runs ch.system (.subs ch.target (outs.map (OutMsg.toSub ch.target)))
      { w with managed := { w.managed with own := own } } r

end Chain

/-- The contract says, or no longer says, that it is consuming a schedule. -/
def ChainState.flagged (w : ChainState H σ X) (consuming : Bool) : ChainState H σ X :=
  { w with managed := { w.managed with consumingSchedule := consuming } }

namespace Chain

variable {ch : Chain H T σ X} {w w' : ChainState H σ X} {caller : Addr} {value : T}
  {funds : List Coin} {rest : X} {r : Option (ChainState H σ X)} {delay : Nat}

theorem not_scheduled_consumed : ¬ ch.Scheduled (ch.consumed w caller value) caller value := by
  rintro ⟨t, nonce, hslot, -⟩
  have hused : (ch.consumed w caller value).manager.schedules (ch.operationId caller value) =
      some ⟨none, getNonce w.manager (ch.operationId caller value)⟩ := Function.update_self ..
  rw [hused] at hslot
  cases hslot

/-! ## What the contract does with a restricted message -/

theorem queryCanCall_manager (hauthority : w.managed.authority = ch.manager) :
    ch.queryCanCall w caller (ch.selector value) = orErr (ch.answerTo w caller value).toOption .std := by
  unfold queryCanCall
  rw [if_pos hauthority]
  rfl

section

variable (hch : ch.Wired)

include hch

theorem executeManaged_restricted : ch.executeManaged w ⟨caller, funds⟩ (ch.json value) =
      (ch.ensureCanCall w ⟨caller, funds⟩ value >>= fun (m, result) =>
        match result with
        | .msg value => ownResult m (ch.handle w ⟨caller, funds⟩ value)
        | .scheduled subs => pure (m, subs)) := by
  unfold executeManaged
  rw [hch.parse_json]
  rfl

theorem exec_direct (htransfer : ch.transfer w.rest caller ch.target funds = some rest) :
    ch.exec (ch.directCall caller value funds) w =
      ch.execTarget (ch.directCall caller value funds) { w with rest := rest } := by
  unfold exec
  show (ch.transfer w.rest caller ch.target funds).bind _ = _
  rw [htransfer, Option.bind_some]
  show (if ch.target = ch.manager then _ else if ch.target = ch.target then _ else _) = _
  rw [if_neg hch.distinct, if_pos rfl]

theorem execTarget_withDelay (hauthority : w.managed.authority = ch.manager)
    (hanswer : ch.answerTo w caller value = .ok (.withDelay delay)) :
    ch.execTarget (ch.directCall caller value funds) w = some (w.flagged true,
      (ch.scheduledMsgs ch.manager caller value).map (OutMsg.toSub ch.target)) := by
  apply execTarget_eq_some.mpr
  refine ⟨(w.flagged true).managed, ch.scheduledMsgs ch.manager caller value, ?_, rfl, rfl⟩
  show ch.executeManaged w ⟨caller, funds⟩ (ch.json value) = _
  rw [executeManaged_restricted hch]
  unfold ensureCanCall
  rw [queryCanCall_manager hauthority, hanswer, hauthority]
  rfl

theorem exec_withDelay (hauthority : w.managed.authority = ch.manager)
    (hanswer : ch.answerTo w caller value = .ok (.withDelay delay))
    (htransfer : ch.transfer w.rest caller ch.target funds = some rest) :
    ch.system.exec (ch.directCall caller value funds) w =
      some (ChainState.flagged { w with rest := rest } true,
      (ch.scheduledMsgs ch.manager caller value).map (OutMsg.toSub ch.target)) :=
  (exec_direct hch htransfer).trans (execTarget_withDelay (w := { w with rest := rest }) hch
    hauthority hanswer)

theorem execTarget_immediate (hauthority : w.managed.authority = ch.manager)
    (hanswer : ch.answerTo w caller value = .ok .immediate) :
    ch.execTarget (ch.directCall caller value funds) w = (ch.handle w ⟨caller, funds⟩ value).map
          fun (own, outs) =>
        ({ w with managed := { w.managed with own := own } }, outs.map (OutMsg.toSub ch.target)) := by
  unfold execTarget
  show ((ch.executeManaged w ⟨caller, funds⟩ (ch.json value)).toOption.bind _ : Option _) = _
  rw [executeManaged_restricted hch]
  unfold ensureCanCall
  rw [queryCanCall_manager hauthority, hanswer]
  show ((ownResult w.managed (ch.handle w ⟨caller, funds⟩ value)).toOption.bind _ : Option _) = _
  cases ch.handle w ⟨caller, funds⟩ value <;> rfl

theorem execTarget_refused (hauthority : w.managed.authority = ch.manager)
    (hanswer : ∀ answer, ch.answerTo w caller value = .ok answer → answer = .unauthorized) :
    ch.execTarget (ch.directCall caller value funds) w = none := by
  unfold execTarget
  show ((ch.executeManaged w ⟨caller, funds⟩ (ch.json value)).toOption.bind _ : Option _) = _
  rw [executeManaged_restricted hch]
  unfold ensureCanCall
  rw [queryCanCall_manager hauthority]
  cases h : ch.answerTo w caller value with
  | error e => rfl
  | ok answer =>
    obtain rfl := hanswer answer h
    rfl

theorem execTarget_immediate_runs (hauthority : w.managed.authority = ch.manager)
    (hanswer : ch.answerTo w caller value = .ok .immediate)
    (htransfer : ch.transfer w.rest caller ch.target funds = some w.rest) :
    Runs ch.system (.call (ch.directCall caller value funds)) w r ↔
      ch.HandlerRuns w ⟨caller, funds⟩ value r := by
  have hexec : ch.system.exec (ch.directCall caller value funds) w =
      (ch.handle w ⟨caller, funds⟩ value).map fun (own, outs) =>
        ({ w with managed := { w.managed with own := own } }, outs.map (OutMsg.toSub ch.target)) :=
    (exec_direct hch htransfer).trans (execTarget_immediate hch hauthority hanswer)
  rw [Runs.call_iff, hexec]
  unfold HandlerRuns
  cases ch.handle w ⟨caller, funds⟩ value with
  | none => simp
  | some result =>
    obtain ⟨own, outs⟩ := result
    constructor
    · rintro (⟨hnone, -⟩ | ⟨w', ss, heq, hruns⟩)
      · cases hnone
      · cases heq
        exact hruns
    · intro hruns
      exact .inr ⟨_, _, rfl, hruns⟩

end

/-! ## What the manager does with the schedule -/

theorem consumeOperation_scheduled :
    (∃ s nonce, consumeOperation (ch.queryCtx w) w.manager (ch.operationId caller value) = .ok (s, nonce)) ↔
      ch.Scheduled w caller value := by
  constructor
  · rintro ⟨s, nonce, h⟩
    obtain ⟨t, hslot, hready, hfresh, -⟩ := consumeOperation_eq_ok.mp h
    exact ⟨t, nonce, hslot, hready, hfresh⟩
  · rintro ⟨t, nonce, hslot, hready, hfresh⟩
    exact ⟨_, nonce, consumeOperation_eq_ok.mpr ⟨t, hslot, hready, hfresh, rfl⟩⟩

theorem consumeOperation_consumed {s : State H} {nonce : Nonce}
    (h : consumeOperation (ch.queryCtx w) w.manager (ch.operationId caller value) = .ok (s, nonce)) :
    { w with manager := s } = ch.consumed w caller value := by
  obtain ⟨t, hslot, -, -, rfl⟩ := consumeOperation_eq_ok.mp h
  have hnonce : getNonce w.manager (ch.operationId caller value) = nonce := by
    unfold getNonce
    rw [hslot]
    rfl
  unfold consumed
  rw [hnonce]

/-- **The manager uses the schedule up if it is ready**, while the contract says that it is consuming one. -/
theorem exec_consume_iff (hch : ch.Wired) (hflag : w.managed.consumingSchedule = true)
    {ss : List (Sub Call Nat)} : ch.exec (ch.consumeCall caller value) w = some (w', ss) ↔
      ch.Scheduled w caller value ∧ w' = ch.consumed w caller value ∧ ss = [] := by
  have hasks : ch.isConsumingScheduledOp w ch.target = some Contract.IS_CONSUMING_SCHEDULED_OP := by
    unfold isConsumingScheduledOp
    rw [if_pos rfl, if_pos hflag]
  have hexec : ch.exec (ch.consumeCall caller value) w = ch.execManager (ch.consumeCall caller value) w := by
    unfold exec
    show (ch.transfer w.rest ch.target ch.manager []).bind _ = _
    rw [hch.transfer_nil, Option.bind_some]
    exact if_pos rfl
  rw [hexec, execManager_eq_some]
  constructor
  · rintro ⟨msg, s, subs, hmsg, hexecute, rfl, rfl⟩
    obtain rfl := Option.some.inj ((hch.fromJson_json _).symm.trans hmsg)
    obtain ⟨-, rfl, nonce, hcons⟩ := execute_consumeScheduledOp ch.crates hexecute
    exact ⟨consumeOperation_scheduled.mp ⟨_, _, hcons⟩, consumeOperation_consumed hcons, rfl⟩
  · rintro ⟨hsched, rfl, rfl⟩
    obtain ⟨s, nonce, hcons⟩ := consumeOperation_scheduled.mpr hsched
    refine ⟨_, s, [], hch.fromJson_json _, ?_, (consumeOperation_consumed hcons).symm, rfl⟩
    show silent (Contract.consumeScheduledOp ch.crates _ w.manager caller (ch.json value)) = _
    apply silent_eq_ok.mpr
    refine ⟨?_, rfl⟩
    unfold Contract.consumeScheduledOp
    apply bind_eq_ok.mpr
    refine ⟨Contract.IS_CONSUMING_SCHEDULED_OP, orErr_eq_ok.mpr hasks, ?_⟩
    apply bind_eq_ok.mpr
    refine ⟨(), ensure_eq_ok.mpr rfl, ?_⟩
    apply bind_eq_ok.mpr
    exact ⟨(s, nonce), hcons, rfl⟩

theorem runs_consume_iff (hch : ch.Wired) (hflag : w.managed.consumingSchedule = true) :
    Runs ch.system (.call (ch.consumeCall caller value)) w (some w') ↔
      ch.Scheduled w caller value ∧ w' = ch.consumed w caller value := by
  rw [Runs.call_iff]
  constructor
  · rintro (⟨-, hnone⟩ | ⟨w₁, ss, h, hs⟩)
    · cases hnone
    · obtain ⟨hsched, rfl, rfl⟩ := (exec_consume_iff hch hflag).mp h
      exact ⟨hsched, Option.some.inj (Runs.nil_iff.mp hs)⟩
  · rintro ⟨hsched, rfl⟩
    exact .inr ⟨_, [], (exec_consume_iff hch hflag).mpr ⟨hsched, rfl, rfl⟩, .done⟩

/-! ## The two calls -/

omit [DecidableEq H] in
theorem reply_self_iff (hch : ch.Wired) {ss : List (Sub Call Nat)} :
    ch.reply ch.target ACCESS_MANAGED_CONSUME_SCHEDULED_OP_REPLY_ID true w = some (w', ss) ↔
      w.managed.consumingSchedule = true ∧ w' = w.flagged false ∧ ss = [] := by
  unfold reply replyManaged
  rw [if_neg hch.distinct, if_pos rfl, if_pos rfl]
  by_cases hflag : w.managed.consumingSchedule = true
  · rw [ensure, if_pos ⟨rfl, hflag⟩]
    constructor
    · intro h
      cases h
      exact ⟨hflag, rfl, rfl⟩
    · rintro ⟨-, rfl, rfl⟩
      rfl
  · rw [ensure, if_neg fun h => hflag h.2]
    constructor
    · exact nofun
    · rintro ⟨h, -⟩
      exact absurd h hflag

theorem runs_direct_iff (hch : ch.Wired) (hauthority : w.managed.authority = ch.manager)
    (hanswer : ch.answerTo w caller value = .ok (.withDelay delay))
    (htransfer : ch.transfer w.rest caller ch.target funds = some rest) :
    Runs ch.system (.call (ch.directCall caller value funds)) w (some w') ↔
      ch.Scheduled w caller value ∧ ∃ w₁, Runs ch.system (.call (ch.selfCall value))
          ((ch.consumed { w with rest := rest } caller value).flagged true) (some w₁) ∧
        w₁.managed.consumingSchedule = true ∧ w' = w₁.flagged false := by
  have hexec := exec_withDelay hch hauthority hanswer htransfer
  have hsubs : Runs ch.system (.call (ch.directCall caller value funds)) w (some w') ↔
      Runs ch.system
        (.subs ch.target ((ch.scheduledMsgs ch.manager caller value).map (OutMsg.toSub ch.target)))
        (ChainState.flagged { w with rest := rest } true) (some w') := by
    rw [Runs.call_iff, hexec]
    constructor
    · rintro (⟨hnone, -⟩ | ⟨_, _, heq, hs⟩)
      · cases hnone
      · cases heq
        exact hs
    · intro hs
      exact .inr ⟨_, _, rfl, hs⟩
  rw [hsubs]
  show Runs ch.system (.subs ch.target (_ :: _)) _ _ ↔ _
  rw [Runs.cons_silent_iff rfl rfl]
  constructor
  · rintro ⟨w₁, hcons, hs⟩
    have hcons : Runs ch.system (.call (ch.consumeCall caller value))
        (ChainState.flagged { w with rest := rest } true) (some w₁) := hcons
    obtain ⟨hsched, rfl⟩ := (runs_consume_iff hch rfl).mp hcons
    obtain ⟨r₁, w₂, hself, hheard, hdone⟩ := Runs.cons_iff.mp hs
    obtain rfl := Option.some.inj (Runs.nil_iff.mp hdone)
    refine ⟨hsched, ?_⟩
    cases r₁ with
    | none =>
      rcases Runs.heard_iff.mp hheard with ⟨-, hok, -⟩ | ⟨hwants, -⟩
      · cases hok
      · cases hwants
    | some w₃ =>
      rcases Runs.heard_iff.mp hheard with ⟨hwants, -⟩ | ⟨-, w₄, ss, hreply, hrest⟩
      · cases hwants
      · obtain ⟨hflag, rfl, rfl⟩ := (reply_self_iff hch).mp hreply
        obtain rfl := Option.some.inj (Runs.nil_iff.mp hrest)
        exact ⟨w₃, hself, hflag, rfl⟩
  · rintro ⟨hsched, w₁, hself, hflag, rfl⟩
    have hcons : Runs ch.system (.call (ch.consumeCall caller value))
        (ChainState.flagged { w with rest := rest } true)
        (some (ch.consumed (ChainState.flagged { w with rest := rest } true) caller value)) :=
      (runs_consume_iff hch rfl).mpr ⟨hsched, rfl⟩
    refine ⟨_, hcons, ?_⟩
    apply Runs.cons_iff.mpr
    refine ⟨some w₁, w₁.flagged false, hself, ?_, .done⟩
    exact .answered rfl ((reply_self_iff hch).mpr ⟨hflag, rfl, rfl⟩) .done

theorem runs_direct_none (hch : ch.Wired) (hauthority : w.managed.authority = ch.manager)
    (hanswer : ch.answerTo w caller value = .ok (.withDelay delay))
    (htransfer : ch.transfer w.rest caller ch.target funds = some rest)
      (hscheduled : ¬ ch.Scheduled w caller value) :
    Runs ch.system (.call (ch.directCall caller value funds)) w none := by
  have hexec := exec_withDelay hch hauthority hanswer htransfer
  have hrefused : ch.exec (ch.consumeCall caller value)
      (ChainState.flagged { w with rest := rest } true) = none := by
    rw [Option.eq_none_iff_forall_not_mem]
    rintro ⟨w₁, ss⟩ h
    exact hscheduled ((exec_consume_iff hch rfl).mp h).1
  refine .accepted hexec (.stopped (.refused hrefused) ?_)
  exact .unhandled rfl

theorem not_runs_self (hch : ch.Wired) (hauthority : w.managed.authority = ch.manager)
    (hanswer : ch.answerTo w ch.target value ≠ .ok .immediate) :
    ¬ Runs ch.system (.call (ch.selfCall value)) w (some w') := by
  intro hruns
  have hnil : ∀ v : ChainState H σ X, ch.transfer v.rest ch.target ch.target [] = some v.rest :=
    fun v => hch.transfer_nil _ _ _
  cases hcase : ch.answerTo w ch.target value with
  | error e =>
    have hrefused : ch.system.exec (ch.selfCall value) w = none :=
      (exec_direct hch (hnil w)).trans (execTarget_refused hch hauthority fun answer h => by
        rw [hcase] at h
        cases h)
    cases (Runs.refused hrefused).deterministic hruns
  | ok answer =>
    cases answer with
    | unauthorized =>
      have hrefused : ch.system.exec (ch.selfCall value) w = none :=
        (exec_direct hch (hnil w)).trans (execTarget_refused hch hauthority fun answer h => by
          rw [hcase] at h
          cases h
          rfl)
      cases (Runs.refused hrefused).deterministic hruns
    | immediate => exact hanswer hcase
    | withDelay delay =>
      -- the contract would have to use the same schedule up twice
      obtain ⟨-, w₁, hself, -, -⟩ := (runs_direct_iff hch hauthority hcase (hnil w)).mp hruns
      have hagain : ch.answerTo ((ch.consumed w ch.target value).flagged true) ch.target value =
          .ok (.withDelay delay) := hcase
      obtain ⟨hsched, -⟩ :=
        (runs_direct_iff (w := (ch.consumed w ch.target value).flagged true) hch hauthority hagain
          (hnil _)).mp hself
      exact not_scheduled_consumed hsched

/-! ## Whether the message is handled -/

variable (ch) in
/-- The call goes through, its message is handled once, as for its caller at once, and the schedule
    is used up. -/
def Served (w : ChainState H σ X) (rest : X) (caller : Addr) (value : T) (funds : List Coin) : Prop :=
  ∃ w', Runs ch.system (.call (ch.directCall caller value funds)) w (some w') ∧
    ch.HandlerRuns (ch.consumed { w with rest := rest } caller value) ⟨caller, funds⟩ value (some w') ∧
    w'.managed.consumingSchedule = false

variable (ch) in
/-- The contract may call its function without a delay, and the handler does for the contract, which
sends no coins and says that it is consuming a schedule, what it does for the caller. -/
def ServesItself (w : ChainState H σ X) (rest : X) (caller : Addr) (value : T) (funds : List Coin) : Prop :=
  ch.answerTo w ch.target value = .ok .immediate ∧ ∃ w₁,
    ch.HandlerRuns ((ch.consumed { w with rest := rest } caller value).flagged true) ⟨ch.target, []⟩
      value (some w₁) ∧
    w₁.managed.consumingSchedule = true ∧
    ch.HandlerRuns (ch.consumed { w with rest := rest } caller value) ⟨caller, funds⟩ value
      (some (w₁.flagged false))

theorem runs_self_iff (hch : ch.Wired) (hauthority : w.managed.authority = ch.manager) :
    Runs ch.system (.call (ch.selfCall value)) w (some w') ↔
      ch.answerTo w ch.target value = .ok .immediate ∧ ch.HandlerRuns w ⟨ch.target, []⟩ value (some w') := by
  constructor
  · intro hruns
    by_cases hans : ch.answerTo w ch.target value = .ok .immediate
    · exact ⟨hans, (execTarget_immediate_runs hch hauthority hans (hch.transfer_nil _ _ _)).mp hruns⟩
    · exact absurd hruns (not_runs_self hch hauthority hans)
  · rintro ⟨hans, hhandler⟩
    exact (execTarget_immediate_runs hch hauthority hans (hch.transfer_nil _ _ _)).mpr hhandler

/-- **A scheduled message is served iff the contract serves itself; without a schedule the call fails.** -/
theorem direct_served_iff (hch : ch.Wired) (hauthority : w.managed.authority = ch.manager)
    {delay : Nat} (hanswer : ch.answerTo w caller value = .ok (.withDelay delay))
    (htransfer : ch.transfer w.rest caller ch.target funds = some rest) :
    (ch.Scheduled w caller value →
      (ch.Served w rest caller value funds ↔ ch.ServesItself w rest caller value funds)) ∧
    (¬ ch.Scheduled w caller value →
      Runs ch.system (.call (ch.directCall caller value funds)) w none) := by
  refine ⟨fun hsched => ?_, runs_direct_none hch hauthority hanswer htransfer⟩
  have hdirect : ∀ w', Runs ch.system (.call (ch.directCall caller value funds)) w (some w') ↔ _ :=
    fun w' => runs_direct_iff hch hauthority hanswer htransfer
  have hself : ∀ w₁, Runs ch.system (.call (ch.selfCall value))
      ((ch.consumed { w with rest := rest } caller value).flagged true) (some w₁) ↔ _ :=
    fun w₁ => runs_self_iff hch hauthority
  constructor
  · rintro ⟨w', hruns, hhandler, -⟩
    obtain ⟨-, w₁, hrunsSelf, hflag, rfl⟩ := (hdirect w').mp hruns
    obtain ⟨himmediate, hown⟩ := (hself w₁).mp hrunsSelf
    exact ⟨himmediate, w₁, hown, hflag, hhandler⟩
  · rintro ⟨himmediate, w₁, hown, hflag, hhandler⟩
    have hrunsSelf := (hself w₁).mpr ⟨himmediate, hown⟩
    exact ⟨w₁.flagged false, (hdirect _).mpr ⟨hsched, w₁, hrunsSelf, hflag, rfl⟩, hhandler, rfl⟩

end Chain

/-! ## A counter -/

namespace Sample

instance encodableUInt64 : Encodable UInt64 :=
    Encodable.ofEquiv _ ⟨UInt64.toFin, UInt64.ofFin, fun _ => rfl, fun _ => rfl⟩

instance encodableChar : Encodable Char := Encodable.ofLeftInverse Char.toNat Char.ofNat Char.ofNat_toNat

instance encodableString : Encodable String :=
  Encodable.ofEquiv (List Char)
    ⟨String.toList, String.ofList, fun _ => String.ofList_toList, fun _ => String.toList_ofList⟩

deriving instance Encodable for ExecuteMsg

/-- A message as a text of so many letters. -/
@[irreducible] def jsonOf (msg : ExecuteMsg) : String :=
    String.ofList (List.replicate (Encodable.encode msg) 'a')

def ofJson (text : String) : Option ExecuteMsg :=
  if text.toList.all (· = 'a') then Encodable.decode text.toList.length else none

theorem ofJson_jsonOf (msg : ExecuteMsg) : ofJson (jsonOf msg) = some msg := by
  unfold ofJson jsonOf
  rw [String.toList_ofList, if_pos (by simp), List.length_replicate, Encodable.encodek]

def SetsAuthority (text : String) : Prop := text.toList.head? = some 'b'

instance (text : String) : Decidable (SetsAuthority text) := inferInstanceAs (Decidable (_ = _))

def counterTexts : Crates String where
  sha256 := id
  extractFromData data :=
    if SetsAuthority data then some "set_authority"
    else ((ofJson data).map ExecuteMsg.selector).or (if data = "count" then some "count" else none)
  fromJson := ofJson
  json := jsonOf
  setAuthorityJson newAuthority := "b" ++ newAuthority

/-- A contract that counts how often its only function is called, on a chain without other contracts. -/
def counter : Chain String Unit Nat Unit where
  crates := counterTexts
  manager := "m"
  target := "t"
  parse text :=
    if SetsAuthority text then some (.setAuthority (String.ofList text.toList.tail))
    else if text = "count" then some (.restricted ()) else none
  json _ := "count"
  selector _ := "count"
  handle w _ _ := some (w.managed.own + 1, [])
  own _ _ _ := none
  ownReply _ _ _ := none
  transfer x _ _ _ := some x
  contractExists _ _ := true
  others _ _ := none
  othersReply _ _ _ _ := none
  otherCanCall _ _ _ _ := none
  otherIsConsumingScheduledOp _ _ := none

theorem counter_wired : counter.Wired where
  distinct := by decide
  parse_json _ := (if_neg (by decide : ¬ SetsAuthority "count")).trans (if_pos rfl)
  fromJson_json := ofJson_jsonOf
  transfer_nil _ _ _ := rfl

/-- An account with a delay of ten seconds has scheduled a call; the function is for its role. -/
def counting (members : RoleId × Addr → Option Access) : ChainState String Nat Unit where
  now := 100
  manager :=
    { State.empty with
      targetAllowedRoles := fun key => if key = ("t", "count") then some 5 else none
      roleMembers := members
      schedules := fun id => if id = "c/t/count" then some ⟨some 50, 1⟩ else none }
  managed := ⟨"m", false, 0⟩
  rest := ()

def callerOnly : RoleId × Addr → Option Access := fun key =>
    if key = (5, "c") then some ⟨1, .new 10⟩ else none

def callerAndTarget : RoleId × Addr → Option Access := fun key =>
  if key = (5, "t") then some ⟨1, .new 0⟩ else callerOnly key

theorem counting_scheduled (members : RoleId × Addr → Option Access) :
    counter.Scheduled (counting members) "c" () := ⟨50, 1, rfl, Nat.le_of_ble_eq_true rfl, rfl⟩

theorem counting_handled (members : RoleId × Addr → Option Access) (consuming : Bool) (info : MessageInfo) :
    counter.HandlerRuns ((counter.consumed (counting members) "c" ()).flagged consuming) info ()
      (some ({ (counter.consumed (counting members) "c" ()) with managed := ⟨"m", consuming, 1⟩ })) := .done

end Sample

open Sample in
/-- A counter that has the role itself serves the scheduled call. -/
theorem counter_served : counter.Served (counting callerAndTarget) () "c" () [] := by
  have hserved := Chain.direct_served_iff counter_wired
    (show (counting callerAndTarget).managed.authority = counter.manager from rfl)
    (show counter.answerTo (counting callerAndTarget) "c" () = .ok (.withDelay 10) from rfl)
    (show counter.transfer () "c" "t" [] = some () from rfl)
  refine (hserved.1 (counting_scheduled _)).mpr ⟨rfl, _, counting_handled _ true _, rfl, ?_⟩
  exact counting_handled _ false _

open Sample in
/-- **A contract without the role refuses a call that is scheduled and ready**, which it would
    handle at once. -/
theorem delayed_call_refused :
    ¬ ∀ (ch : Chain String Unit Nat Unit) (w : ChainState String Nat Unit) (rest : Unit)
      (caller : Addr) (delay : Nat),
      ch.Wired → w.managed.authority = ch.manager → ch.answerTo w caller () = .ok (.withDelay delay) →
      ch.transfer w.rest caller ch.target [] = some rest → ch.Scheduled w caller () →
      (∃ w', ch.HandlerRuns (ch.consumed { w with rest := rest } caller ()) ⟨caller, []⟩ () (some w')) →
      ch.Served w rest caller () [] := by
  intro h
  obtain ⟨w', hruns, -⟩ := h counter (counting callerOnly) () "c" 10 counter_wired rfl rfl rfl
    (counting_scheduled _) ⟨_, counting_handled callerOnly false _⟩
  obtain ⟨-, w₁, hself, -⟩ := (Chain.runs_direct_iff counter_wired rfl rfl rfl).mp hruns
  refine Chain.not_runs_self counter_wired rfl ?_ hself
  show (Except.ok CanCall.unauthorized : Result String CanCall) ≠ .ok .immediate
  exact nofun

end UnionVoyager.AccessManager
