import UnionVoyager.Lst.Account

/-!
# The bounds of the configuration

`init` bounds the protocol fee rate and the batch period; `update_config` writes either without a check.

* `bounds_iff` — the bounds hold in every state of a run iff every update of the administrator keeps them.
-/

namespace UnionVoyager.Lst

open Lib Machine Account

variable {stakerHash : Addr → H256} {self : Addr} {env : Env} {s : Hub} {total : List DecCoin}
  {info : MessageInfo} {r : Response}

/-- What `init` checks of the configuration. -/
structure Hub.ConfigBounds (s : Hub) : Prop where
  feeRate : s.protocolFeeConfig.feeRate ≤ FEE_RATE_DENOMINATOR
  batchPeriod : s.config.batchPeriodSeconds ≤ s.config.unbondingPeriodSeconds

theorem init_bounds {msg : InitMsg} (h : Hub.init env msg = .ok s) : s.ConfigBounds := by
  simp only [Hub.init, bind_eq_ok, ensure_eq_ok, pure_eq_ok] at h
  obtain ⟨-, hperiod, -, hrate, -, -, rfl⟩ := h
  exact ⟨hrate, hperiod⟩

/-! ## Fees -/

theorem fee_le_of_bounds (h : s.ConfigBounds) (rewards : Nat) : s.protocolFee rewards ≤ rewards := by
  apply Nat.div_le_of_le_mul
  exact Nat.mul_le_mul_right rewards h.feeRate

/-- `protocol_fee is <= received_rewards; qed;` -/
def feePanic : ContractError := .panic "protocol_fee is <= received_rewards; qed;"

theorem receiveRewards_no_feePanic (h : ∀ rewards, s.protocolFee rewards ≤ rewards)
    (info : MessageInfo) : receiveRewards s info ≠ .error feePanic := by
  have havoid : Avoids (· = feePanic) (receiveRewards s info) := by
    unfold receiveRewards
    refine .bind (.ensure fun _ => by simp [feePanic]) fun _ _ => ?_
    refine .bind ?_ fun rewards _ => .bind ?_ fun fee hfee =>
      .bind (.ensure fun _ => by simp [feePanic]) fun _ _ => ?_
    · intro e he
      cases hp : mustPay info s.config.nativeTokenDenom with
      | error p =>
        rw [hp] at he
        cases he
        simp [feePanic]
      | ok a =>
        rw [hp] at he
        cases he
    · unfold multiplyRatio u128
      split
      · exact .error (by simp [feePanic])
      · split
        · exact .ok _
        · exact .error (by simp [feePanic])
    · -- the subtraction cannot fail, as the fee is within the rewards
      obtain ⟨-, -, rfl⟩ := multiplyRatio_eq_ok.mp hfee
      have hle : s.protocolFeeConfig.feeRate * rewards / FEE_RATE_DENOMINATOR ≤ rewards := h rewards
      rw [checkedSub, if_pos hle, ok_bind]
      refine .bind (.ensure fun _ => by simp [feePanic]) fun _ _ => .bind ?_ fun _ _ =>
        .bind ?_ fun _ _ => .pure _
      · unfold u128
        split
        · exact .ok _
        · exact .error (by simp [feePanic])
      · unfold u128
        split
        · exact .ok _
        · exact .error (by simp [feePanic])
  intro h
  exact havoid _ h rfl

/-! ## Who writes the configuration -/

/-- The stores after an update of the configuration. -/
def Hub.afterConfig (s : Hub) (fee : Option ProtocolFeeConfig) (monitors : Option (List Addr))
    (batchPeriod unbondingPeriod : Option Nat) : Hub :=
  { s with
    protocolFeeConfig := fee.getD s.protocolFeeConfig
    monitors := monitors.getD s.monitors
    config := { s.config with
      batchPeriodSeconds := batchPeriod.getD s.config.batchPeriodSeconds
      unbondingPeriodSeconds := unbondingPeriod.getD s.config.unbondingPeriodSeconds } }

variable {fee : Option ProtocolFeeConfig} {monitors : Option (List Addr)}
    {batchPeriod unbondingPeriod : Option Nat}

theorem updateConfig_eq_ok : updateConfig s info fee monitors batchPeriod unbondingPeriod = .ok r ↔
    info.funds = [] ∧ s.admin = info.sender ∧
      r = ⟨s.afterConfig fee monitors batchPeriod unbondingPeriod, [],
        [.updateConfig fee monitors batchPeriod unbondingPeriod]⟩ := by
  simp only [updateConfig, ensureAdmin, bind_eq_ok, ensure_eq_ok, mapError_eq_ok, nonpayable_eq_ok,
    pure_eq_ok]
  constructor
  · rintro ⟨-, hf, -, ha, rfl⟩
    exact ⟨hf, ha, rfl⟩
  · rintro ⟨hf, ha, rfl⟩
    exact ⟨(), hf, (), ha, rfl⟩

/-- An update that the hub accepts keeps the bounds; every other input does. -/
def KeepsBounds (a : Account) : Input → Prop
  | .call _ _ info (.updateConfig fee _ batchPeriod unbondingPeriod) =>
    info.sender = a.hub.admin → info.funds = [] →
      (fee.getD a.hub.protocolFeeConfig).feeRate ≤ FEE_RATE_DENOMINATOR ∧
      batchPeriod.getD a.hub.config.batchPeriodSeconds ≤
        unbondingPeriod.getD a.hub.config.unbondingPeriodSeconds
  | _ => True

theorem call_bounds {a : Account} {now : Nat} {msg : ExecuteMsg} (ha : a.hub.ConfigBounds) :
    (a.call stakerHash self now total info msg).1.hub.ConfigBounds ↔
      KeepsBounds a (.call now total info msg) := by
  by_cases hmsg : msg.isUpdateConfig = false
  · have hkeeps : KeepsBounds a (.call now total info msg) := by
      cases msg <;> first | exact trivial | cases hmsg
    refine iff_of_true ?_ hkeeps
    rcases call_cases stakerHash self a now total info msg with h | ⟨r, hr, h⟩
    · rw [h]
      exact ha
    · rw [h]
      obtain ⟨hconfig, hfee⟩ := (execute_effect hr).2 hmsg
      exact ⟨hfee ▸ ha.feeRate, hconfig ▸ ha.batchPeriod⟩
  · cases msg with
    | updateConfig fee monitors batchPeriod unbondingPeriod =>
      show _ ↔ (info.sender = a.hub.admin → info.funds = [] → _)
      by_cases hacc : info.sender = a.hub.admin ∧ info.funds = []
      · have hr : a.hub.execute stakerHash ⟨now, self⟩ total info
            (.updateConfig fee monitors batchPeriod unbondingPeriod) = .ok _ :=
          updateConfig_eq_ok.mpr ⟨hacc.2, hacc.1.symm, rfl⟩
        rw [call_of_ok hr]
        constructor
        · intro h _ _
          exact ⟨h.feeRate, h.batchPeriod⟩
        · intro h
          obtain ⟨hrate, hperiod⟩ := h hacc.1 hacc.2
          exact ⟨hrate, hperiod⟩
      · have hrefused : (a.call stakerHash self now total info
            (.updateConfig fee monitors batchPeriod unbondingPeriod)).1 = a := by
          rcases call_cases stakerHash self a now total info
            (.updateConfig fee monitors batchPeriod unbondingPeriod) with h | ⟨r, hr, -⟩
          · rw [h]
          · obtain ⟨hf, hadmin, -⟩ := updateConfig_eq_ok.mp hr
            exact absurd ⟨hadmin.symm, hf⟩ hacc
        rw [hrefused]
        refine iff_of_true ha ?_
        intro hadmin hf
        exact absurd ⟨hadmin, hf⟩ hacc
    | _ => exact absurd rfl hmsg

theorem step_bounds {a : Account} (ha : a.hub.ConfigBounds) (i : Input) :
    (a.step stakerHash self i).1.hub.ConfigBounds ↔ KeepsBounds a i := by
  cases i with
  | call now total info msg => exact call_bounds ha
  | deliver => exact iff_of_true (by rw [step, deliver_hub]; exact ha) trivial
  | deposit amount => exact iff_of_true ha trivial

/-- What the code relies on in one state: the bounds, fees within the rewards, and an expectation
    that holds. -/
structure Hub.FeesSound (s : Hub) : Prop where
  bounds : s.ConfigBounds
  split : ∀ rewards, s.protocolFee rewards + (rewards - s.protocolFee rewards) = rewards
  expected : ∀ info, receiveRewards s info ≠ .error feePanic

theorem Hub.ConfigBounds.sound (h : s.ConfigBounds) : s.FeesSound where
  bounds := h
  split rewards := Nat.add_sub_cancel' (fee_le_of_bounds h rewards)
  expected := receiveRewards_no_feePanic (fee_le_of_bounds h)

theorem bounds_run_iff (is : List Input) : ∀ a : Account, a.hub.ConfigBounds →
    ((∀ past rest, is = past ++ rest → (run (step stakerHash self) a past).hub.ConfigBounds) ↔
      Meets (step stakerHash self) KeepsBounds a is) := by
  induction is with
  | nil =>
    intro a ha
    refine iff_of_true ?_ trivial
    intro past rest h
    obtain ⟨rfl, -⟩ := List.append_eq_nil_iff.mp h.symm
    exact ha
  | cons i is ih =>
    intro a ha
    rw [Meets, ← step_bounds ha i]
    constructor
    · intro h
      have hnext := h [i] is rfl
      refine ⟨hnext, (ih _ hnext).mp ?_⟩
      intro past rest hsplit
      exact h (i :: past) rest (by rw [hsplit]; rfl)
    · rintro ⟨hnext, hmeets⟩ past rest hsplit
      cases past with
      | nil => exact ha
      | cons j past =>
        obtain ⟨rfl, htail⟩ := List.cons.inj hsplit
        exact (ih _ hnext).mpr hmeets past rest htail

/-- **The bounds of `init` hold in every state of a run iff every accepted `update_config` keeps them**, and
    with them what `receive_rewards` expects. -/
theorem fees_sound_iff {msg : InitMsg} (hinit : Hub.init env msg = .ok s) (balance : Nat) (is : List Input) :
    (∀ past rest, is = past ++ rest →
      (run (step stakerHash self) (init s balance) past).hub.FeesSound) ↔
    Meets (step stakerHash self) KeepsBounds (init s balance) is := by
  have hs : (init s balance).hub.ConfigBounds := init_bounds hinit
  rw [← bounds_run_iff is _ hs]
  constructor
  · intro h past rest hsplit
    exact (h past rest hsplit).bounds
  · intro h past rest hsplit
    exact (h past rest hsplit).sound

def samplePayment : Input := .call 5 [] ⟨"alice", [⟨"au", 100⟩]⟩ (.bond "alice" 0)

def sampleUpdate (feeRate batchPeriodSeconds : Nat) : Input :=
  .call 5 [] ⟨"admin", []⟩ (.updateConfig (some ⟨feeRate, "treasury"⟩) none (some batchPeriodSeconds) none)

theorem fees_sound_after_update :
    (run (step utf8 "hub") (init sampleHub 0)
      [samplePayment, sampleUpdate 5000 15]).hub.FeesSound := by
  apply (fees_sound_iff sampleHub_init 0 [samplePayment, sampleUpdate 5000 15]).mpr _ _ [] rfl
  refine ⟨trivial, ?_, trivial⟩
  intro _ _
  decide

/-- Updates that `init` would have refused: the bounds are gone, and rewards make the hub panic. -/
theorem fees_unsound_after_update :
    ¬ (run (step utf8 "hub") (init sampleHub 0)
      [samplePayment, sampleUpdate 200000 30]).hub.FeesSound ∧
    receiveRewards (run (step utf8 "hub") (init sampleHub 0)
      [samplePayment, sampleUpdate 200000 30]).hub ⟨"bob", [⟨"au", 10⟩]⟩ = .error feePanic := by
  have hrate : (run (step utf8 "hub") (init sampleHub 0)
      [samplePayment, sampleUpdate 200000 30]).hub.protocolFeeConfig.feeRate = 200000 := rfl
  refine ⟨?_, rfl⟩
  intro h
  have hbound := h.bounds.feeRate
  rw [hrate] at hbound
  exact absurd hbound (by decide)

end UnionVoyager.Lst
