import UnionVoyager.Evm.Basic
import UnionVoyager.Lib.Machine

/-!
# The vesting manager

Every key has a vesting account and a schedule.  `release` recomputes what is vested from the balance of
the account and what was released before, and pays the difference to the beneficiary.

* `vestedAmount_eq_ok`, `releasable_eq_ok` — when the views succeed, and what they return.
* `received_eq` — the balance and what was released are what was received.
-/

namespace UnionVoyager.Evm.Vesting

open Lib Lib.Machine Function

/-! ## The contracts -/

inductive VestingError where
  | unauthorized
  | zeroAddress
  | cliffExceedsDuration

abbrev Result := Except (Revert VestingError)

abbrev Key := Bytes32

structure VestingSchedule where
  beneficiary : Address
  cliff : UInt64
  start : UInt64
  duration : UInt64
  released : Address → Nat

/-- The storage of the manager, the accounts that have code, and the tokens. -/
structure State (T : Type) where
  /-- `block.timestamp` -/
  timestamp : Nat
  schedules : Key → VestingSchedule
  deployed : Key → Bool
  tokens : Address → T

/-- What is outside of the contracts: the code of each token, and `CREATE3.predictDeterministicAddress`. -/
structure Env (T : Type) where
  erc20 : Address → Erc20 T
  vestingAccount : Key → Address

variable {T : Type} (env : Env T)

def released (s : State T) (key : Key) (token : Address) : Nat := (s.schedules key).released token

def VestingSchedule.endTime (v : VestingSchedule) : Result Nat :=
    checked 64 (v.start.toNat + v.duration.toNat)

def vestingSchedule (v : VestingSchedule) (totalAllocation timestamp : Nat) : Result Nat := do
  let cliffTime ← checked 64 (v.start.toNat + v.cliff.toNat)
  if timestamp < cliffTime then
    pure 0
  else
    let endTime ← v.endTime
    if endTime ≤ timestamp then
      pure totalAllocation
    else
      let elapsed ← checkedSub timestamp v.start.toNat
      let product ← checked 256 (totalAllocation * elapsed)
      checkedDiv product v.duration.toNat

section

variable (s : State T) (key : Key) (token : Address)

def currentBalance : Nat :=
  (env.erc20 token).balanceOf (s.tokens token) (env.vestingAccount key)

def vestedAmount (timestamp : Nat) : Result Nat := do
  let totalAllocation ← checked 256 (currentBalance env s key token + released s key token)
  vestingSchedule (s.schedules key) totalAllocation timestamp

/-- The time is cast to 64 bits; the subtraction is checked. -/
def releasable : Result Nat := do
  let vested ← vestedAmount env s key token (s.timestamp % 2 ^ 64)
  checkedSub vested (released s key token)

/-- What was released of a token is counted before the account pays the beneficiary. -/
def release : Result (State T) := do
  let amount ← releasable env s key token
  let released ← checked 256 (released s key token + amount)
  let v := s.schedules key
  let s ← pure { s with
    schedules := Function.update s.schedules key
      { v with released := Function.update v.released token released } }
  ensure (s.deployed key = true) .failedCall
  let t ← orErr ((env.erc20 token).transfer (s.tokens token) (env.vestingAccount key) v.beneficiary
    amount) .failedCall
  pure { s with tokens := Function.update s.tokens token t }

end

def deployVestingAccount (s : State T) (key : Key) : State T :=
  if s.deployed key then s else { s with deployed := Function.update s.deployed key true }

/-- `permitted` is what the authority answers to the modifier `restricted`. -/
def update (s : State T) (permitted : Bool) (key : Key) (beneficiary : Address)
    (start cliff duration : UInt64) : Result (State T) := do
  ensure (permitted = true) (.custom .unauthorized)
  ensure (beneficiary ≠ 0) (.custom .zeroAddress)
  ensure (cliff ≤ duration) (.custom .cliffExceedsDuration)
  let v :=
    { s.schedules key with beneficiary := beneficiary, cliff := cliff, start := start, duration := duration }
  pure (deployVestingAccount { s with schedules := Function.update s.schedules key v } key)

/-- One transaction, or the next block.  Between the transactions of the manager a token may do anything. -/
inductive Op (T : Type) where
  | block (timestamp : Nat)
  | token (token : Address) (storage : T)
  | release (key : Key) (token : Address)
  | update (permitted : Bool) (key : Key) (beneficiary : Address) (start cliff duration : UInt64)

def next (s : State T) : Op T → State T
  | .block timestamp => { s with timestamp := timestamp }
  | .token token storage => { s with tokens := Function.update s.tokens token storage }
  | .release key token => transact s (release env s key token)
  | .update permitted key beneficiary start cliff duration =>
    transact s (update s permitted key beneficiary start cliff duration)

/-- The manager as it was initialised. -/
def init (timestamp : Nat) (tokens : Address → T) : State T where
  timestamp := timestamp
  schedules _ := ⟨0, 0, 0, 0, fun _ => 0⟩
  deployed _ := false
  tokens := tokens

/-! ## What is vested -/

variable {v : VestingSchedule} {timestamp n : Nat}

namespace VestingSchedule

/-- A schedule that `update` accepts and whose sums have 64 bits. -/
structure Accepted (v : VestingSchedule) : Prop where
  cliff_le : v.cliff.toNat ≤ v.duration.toNat
  cliff_fits : v.start.toNat + v.cliff.toNat < 2 ^ 64
  duration_fits : v.start.toNat + v.duration.toNat < 2 ^ 64

def share (v : VestingSchedule) (total timestamp : Nat) : Nat :=
  if timestamp < v.start.toNat + v.cliff.toNat then 0
  else if v.start.toNat + v.duration.toNat ≤ timestamp then total
  else total * (timestamp - v.start.toNat) / v.duration.toNat

/-- The time is between the cliff and the end. -/
def Between (v : VestingSchedule) (timestamp : Nat) : Prop :=
  v.start.toNat + v.cliff.toNat ≤ timestamp ∧ timestamp < v.start.toNat + v.duration.toNat

instance (v : VestingSchedule) (timestamp : Nat) : Decidable (v.Between timestamp) :=
  inferInstanceAs (Decidable (_ ∧ _))

/-- Computing the share does not overflow. -/
structure Room (v : VestingSchedule) (total timestamp : Nat) : Prop where
  fits : total < 2 ^ 256
  product : v.Between timestamp → total * (timestamp - v.start.toNat) < 2 ^ 256

instance (v : VestingSchedule) (total timestamp : Nat) : Decidable (v.Room total timestamp) :=
  decidable_of_iff (total < 2 ^ 256 ∧ (v.Between timestamp → total * (timestamp - v.start.toNat) < 2 ^ 256))
    ⟨fun h => ⟨h.1, h.2⟩, fun h => ⟨h.fits, h.product⟩⟩

theorem vestingSchedule_eq_ok (hv : v.Accepted) {total : Nat} : vestingSchedule v total timestamp = .ok n ↔
      (v.Between timestamp → total * (timestamp - v.start.toNat) < 2 ^ 256) ∧
        v.share total timestamp = n := by
  have hcliff := hv.cliff_fits
  have hduration := hv.duration_fits
  have hle := hv.cliff_le
  unfold vestingSchedule share endTime Between
  rw [checked_of_lt hcliff, ok_bind]
  by_cases hbefore : timestamp < v.start.toNat + v.cliff.toNat
  · rw [if_pos hbefore, if_pos hbefore, pure_eq_ok]
    constructor
    · intro hn
      exact ⟨fun hbetween => absurd hbefore (Nat.not_lt.mpr hbetween.1), hn⟩
    · rintro ⟨-, hn⟩
      exact hn
  · rw [if_neg hbefore, if_neg hbefore, checked_of_lt hduration, ok_bind]
    by_cases hafter : v.start.toNat + v.duration.toNat ≤ timestamp
    · rw [if_pos hafter, if_pos hafter, pure_eq_ok]
      constructor
      · intro hn
        exact ⟨fun hbetween => absurd hbetween.2 (Nat.not_lt.mpr hafter), hn⟩
      · rintro ⟨-, hn⟩
        exact hn
    · have hstart : v.start.toNat ≤ timestamp := by omega
      have hpos : v.duration.toNat ≠ 0 := by omega
      rw [if_neg hafter, if_neg hafter]
      simp only [bind_eq_ok, checkedSub_eq_ok, checked_eq_ok, checkedDiv_eq_ok]
      constructor
      · rintro ⟨_, ⟨-, rfl⟩, _, ⟨hproduct, rfl⟩, -, hn⟩
        exact ⟨fun _ => hproduct, hn⟩
      · rintro ⟨hproduct, hn⟩
        exact ⟨_, ⟨hstart, rfl⟩, _, ⟨hproduct (by omega), rfl⟩, hpos, hn⟩

theorem share_le (v : VestingSchedule) (total timestamp : Nat) : v.share total timestamp ≤ total := by
  unfold share
  split
  · exact Nat.zero_le _
  · split
    · exact Nat.le_refl _
    · have hle : timestamp - v.start.toNat ≤ v.duration.toNat := by omega
      calc total * (timestamp - v.start.toNat) / v.duration.toNat
          ≤ total * v.duration.toNat / v.duration.toNat :=
            Nat.div_le_div_right (Nat.mul_le_mul_left total hle)
        _ ≤ total := Nat.div_le_of_le_mul (Nat.le_of_eq (Nat.mul_comm _ _))

theorem share_mono (v : VestingSchedule) {total total' : Nat} (h : total ≤ total') (timestamp : Nat) :
    v.share total timestamp ≤ v.share total' timestamp := by
  unfold share
  split
  · exact Nat.le_refl _
  · split
    · exact h
    · exact Nat.div_le_div_right (Nat.mul_le_mul_right _ h)

/-- **The share only grows with time.** -/
theorem share_later (hv : v.Accepted) (total : Nat) {now later : Nat} (h : now ≤ later) :
    v.share total now ≤ v.share total later := by
  have hcliff := hv.cliff_le
  by_cases hbefore : now < v.start.toNat + v.cliff.toNat
  · rw [share, if_pos hbefore]
    exact Nat.zero_le _
  · by_cases hend : v.start.toNat + v.duration.toNat ≤ later
    · rw [share.eq_1 v total later, if_neg (by omega), if_pos hend]
      exact share_le v total now
    · have hnow : ¬ v.start.toNat + v.duration.toNat ≤ now := by omega
      have hlater : ¬ later < v.start.toNat + v.cliff.toNat := by omega
      simp only [share, hbefore, hend, hnow, hlater, if_false]
      exact Nat.div_le_div_right (Nat.mul_le_mul_left total (by omega))

end VestingSchedule

variable {s s' : State T}

section

variable (key : Key) (token : Address)

def total (s : State T) : Nat := currentBalance env s key token + released s key token

variable {env key token}

theorem vestedAmount_eq_ok (hv : (s.schedules key).Accepted) :
      vestedAmount env s key token timestamp = .ok n ↔
      (s.schedules key).Room (total env key token s) timestamp ∧
      (s.schedules key).share (total env key token s) timestamp = n := by
  unfold vestedAmount total
  simp only [bind_eq_ok, checked_eq_ok, VestingSchedule.vestingSchedule_eq_ok hv]
  constructor
  · rintro ⟨_, ⟨hroom, rfl⟩, hproduct, hn⟩
    exact ⟨⟨hroom, hproduct⟩, hn⟩
  · rintro ⟨⟨hroom, hproduct⟩, hn⟩
    exact ⟨_, ⟨hroom, rfl⟩, hproduct, hn⟩

theorem releasable_eq_ok (hv : (s.schedules key).Accepted) (hnow : s.timestamp < 2 ^ 64) :
    releasable env s key token = .ok n ↔
      (s.schedules key).Room (total env key token s) s.timestamp ∧
      released s key token ≤ (s.schedules key).share (total env key token s) s.timestamp ∧
      (s.schedules key).share (total env key token s) s.timestamp - released s key token = n := by
  unfold releasable
  rw [Nat.mod_eq_of_lt hnow]
  simp only [bind_eq_ok, checkedSub_eq_ok, vestedAmount_eq_ok hv]
  constructor
  · rintro ⟨_, ⟨hroom, rfl⟩, hle, hn⟩
    exact ⟨hroom, hle, hn⟩
  · rintro ⟨hroom, hle, hn⟩
    exact ⟨_, ⟨hroom, rfl⟩, hle, hn⟩

end

/-! ## One transaction -/

/-- What a release did: it counted the amount and paid it. -/
structure Released (key : Key) (token : Address) (amount : Nat) (s s' : State T) : Prop where
  timestamp : s'.timestamp = s.timestamp
  counted : s'.schedules = Function.update s.schedules key
    { s.schedules key with
      released := Function.update (s.schedules key).released token (released s key token + amount) }
  others : ∀ t, t ≠ token → s'.tokens t = s.tokens t
  covered : amount ≤ currentBalance env s key token
  paid : (env.erc20 token).balanceOf (s'.tokens token) =
    Ledger.moved ((env.erc20 token).balanceOf (s.tokens token)) (env.vestingAccount key)
      (s.schedules key).beneficiary amount

variable {env}

variable {key : Key} {token : Address}

theorem release_eq_ok (h : release env s key token = .ok s') :
    ∃ amount, releasable env s key token = .ok amount ∧ Released env key token amount s s' := by
  simp only [release, bind_eq_ok, checked_eq_ok, ensure_eq_ok, orErr_eq_ok, pure_eq_ok] at h
  obtain ⟨amount, hamount, _, ⟨-, rfl⟩, _, rfl, _, -, t, ht, rfl⟩ := h
  obtain ⟨hcovered, hpaid⟩ := (env.erc20 token).transfer_moves ht
  refine ⟨amount, hamount, rfl, rfl, ?_, hcovered, ?_⟩
  · intro t' ht'
    exact update_of_ne ht' _ _
  · simp only [update_self]
    exact hpaid

theorem update_eq_ok {permitted : Bool} {beneficiary : Address} {start cliff duration : UInt64} :
    update s permitted key beneficiary start cliff duration = .ok s' ↔
      (permitted = true ∧ beneficiary ≠ 0 ∧ cliff ≤ duration) ∧
      s' = deployVestingAccount { s with
        schedules := Function.update s.schedules key { s.schedules key with
          beneficiary := beneficiary, cliff := cliff, start := start, duration := duration } } key := by
  simp only [update, bind_eq_ok, ensure_eq_ok, pure_eq_ok, exists_const]
  tauto

@[simp] theorem deployVestingAccount_timestamp (s : State T) (key : Key) :
    (deployVestingAccount s key).timestamp = s.timestamp := by
  unfold deployVestingAccount
  split <;> rfl

@[simp] theorem deployVestingAccount_schedules (s : State T) (key : Key) :
    (deployVestingAccount s key).schedules = s.schedules := by
  unfold deployVestingAccount
  split <;> rfl

@[simp] theorem deployVestingAccount_tokens (s : State T) (key : Key) :
    (deployVestingAccount s key).tokens = s.tokens := by
  unfold deployVestingAccount
  split <;> rfl

/-! ## One vesting account and one token -/

variable (env) (κ : Key) (tok : Address)

/-- What arrives at the account. -/
def arrives (s : State T) : Op T → Nat
  | .block _ => 0
  | .token token storage =>
    if token = tok then
      (env.erc20 tok).balanceOf storage (env.vestingAccount κ) - currentBalance env s κ tok
    else
      0
  | .release key token =>
    if token = tok ∧ (s.schedules key).beneficiary = env.vestingAccount κ then
      released (next env s (.release key token)) key token - released s key token
    else
      0
  | .update .. => 0

def step (s : State T) (op : Op T) : State T × List Nat := (next env s op, [arrives env κ tok s op])

/-- Everything received since the state `s`, with the balance there. -/
def received (s : State T) (ops : List (Op T)) : Nat :=
    currentBalance env s κ tok + (trace (step env κ tok) s ops).sum

/-- Time does not go back and has the 64 bits it is cast to, tokens only arrive at the account, no other key
has this account, and the sums of the schedule have 64 bits. -/
def Allowed (s : State T) : Op T → Prop
  | .block timestamp => s.timestamp ≤ timestamp ∧ timestamp < 2 ^ 64
  | .token token storage => token = tok →
    currentBalance env s κ tok ≤ (env.erc20 tok).balanceOf storage (env.vestingAccount κ)
  | .release key _ => env.vestingAccount key = env.vestingAccount κ → key = κ
  | .update _ key _ start cliff duration => key = κ →
    start.toNat + cliff.toNat < 2 ^ 64 ∧ start.toNat + duration.toNat < 2 ^ 64

/-- **The condition.**  No amount overflows, and an update vests at least what was released. -/
def Keeps (s : State T) : Op T → Prop
  | .block timestamp => (s.schedules κ).Room (total env κ tok s) timestamp
  | .update permitted key beneficiary start cliff duration =>
    permitted = true ∧ beneficiary ≠ 0 ∧ cliff ≤ duration → key = κ →
      let v := { s.schedules κ with
        beneficiary := beneficiary, cliff := cliff, start := start, duration := duration }
      v.Room (total env κ tok s) s.timestamp ∧ released s κ tok ≤ v.share (total env κ tok s) s.timestamp
  | op => (s.schedules κ).Room (total env κ tok s + arrives env κ tok s op) s.timestamp

instance (s : State T) : (op : Op T) → Decidable (Allowed env κ tok s op)
  | .block _ => inferInstanceAs (Decidable (_ ∧ _))
  | .token _ _ => inferInstanceAs (Decidable (_ → _ ≤ _))
  | .release _ _ => inferInstanceAs (Decidable (_ = _ → _ = _))
  | .update .. => inferInstanceAs (Decidable (_ = _ → _ ∧ _))

instance (s : State T) : (op : Op T) → Decidable (Keeps env κ tok s op)
  | .block timestamp => inferInstanceAs (Decidable ((s.schedules κ).Room (total env κ tok s) timestamp))
  | .token token storage => inferInstanceAs (Decidable ((s.schedules κ).Room
      (total env κ tok s + arrives env κ tok s (.token token storage)) s.timestamp))
  | .release key token => inferInstanceAs (Decidable ((s.schedules κ).Room
      (total env κ tok s + arrives env κ tok s (.release key token)) s.timestamp))
  | .update .. => inferInstanceAs (Decidable (_ ∧ _ ∧ _ → _ = _ → _ ∧ _ ≤ _))

/-- What is known of the schedule and of the time in every state. -/
structure Inv (s : State T) : Prop where
  accepted : (s.schedules κ).Accepted
  timestamp : s.timestamp < 2 ^ 64

/-- `releasable` does not revert. -/
def Available (s : State T) : Prop := ∃ amount, releasable env s κ tok = .ok amount

variable {env κ tok}

theorem available_iff (h : Inv κ s) : Available env κ tok s ↔
      (s.schedules κ).Room (total env κ tok s) s.timestamp ∧
      released s κ tok ≤ (s.schedules κ).share (total env κ tok s) s.timestamp := by
  simp [Available, releasable_eq_ok h.accepted h.timestamp]

/-! ### A release -/

namespace Released

variable {key : Key} {token : Address} {amount : Nat} {s s' : State T}

theorem released_eq (h : Released env key token amount s s') (κ : Key) (tok : Address) :
    released s' κ tok = released s κ tok + if key = κ ∧ token = tok then amount else 0 := by
  unfold Vesting.released
  rw [h.counted]
  by_cases hkey : κ = key
  · subst hkey
    rw [update_self]
    by_cases htok : tok = token
    · subst htok
      simp [Vesting.released]
    · simp [update_of_ne htok, Ne.symm htok]
  · simp [update_of_ne hkey, Ne.symm hkey]

theorem terms_eq (h : Released env key token amount s s') (κ : Key) :
    ∃ r, s'.schedules κ = { s.schedules κ with released := r } := by
  rw [h.counted]
  by_cases hkey : κ = key
  · subst hkey
    exact ⟨_, update_self _ _ _⟩
  · exact ⟨(s.schedules κ).released, update_of_ne hkey _ _⟩

/-- **A release moves what it counts, and what it pays to the account arrives there.** -/
theorem total_eq (h : Released env key token amount s s')
    (hkey : env.vestingAccount key = env.vestingAccount κ → key = κ) :
    total env κ tok s' = total env κ tok s +
      if token = tok ∧ (s.schedules key).beneficiary = env.vestingAccount κ then amount else 0 := by
  unfold total
  rw [h.released_eq]
  by_cases htok : token = tok
  · subst htok
    have hbal : currentBalance env s' κ token = Ledger.moved
        ((env.erc20 token).balanceOf (s.tokens token)) (env.vestingAccount key) (s.schedules key).beneficiary
        amount (env.vestingAccount κ) := by
      rw [← h.paid]
      rfl
    by_cases hown : key = κ
    · subst hown
      have hmoved : currentBalance env s' key token + amount = currentBalance env s key token +
          if (s.schedules key).beneficiary = env.vestingAccount key then amount else 0 := by
        rw [hbal]
        exact Ledger.moved_add _ h.covered
      simp only [and_self, if_true, true_and]
      omega
    · have hne : env.vestingAccount κ ≠ env.vestingAccount key := fun heq => hown (hkey heq.symm)
      have hmoved : currentBalance env s' κ token = currentBalance env s κ token +
          if (s.schedules key).beneficiary = env.vestingAccount κ then amount else 0 := by
        rw [hbal]
        exact Ledger.moved_of_ne _ _ _ hne
      rw [hmoved]
      simp only [hown, false_and, if_false, true_and, Nat.add_zero]
      omega
  · have hbal : currentBalance env s' κ tok = currentBalance env s κ tok := by
      unfold currentBalance
      rw [h.others tok (Ne.symm htok)]
    rw [hbal]
    simp [htok]

end Released

variable (env) in
theorem next_release (s : State T) (key : Key) (token : Address) :
      (∃ amount, releasable env s key token = .ok amount ∧
      Released env key token amount s (next env s (.release key token))) ∨
    next env s (.release key token) = s := by
  rcases transact_cases s (release env s key token) with hok | hsame
  · exact .inl (release_eq_ok hok)
  · exact .inr hsame

theorem arrives_release {amount : Nat}
    (h : Released env key token amount s (next env s (.release key token))) :
    arrives env κ tok s (.release key token) =
      if token = tok ∧ (s.schedules key).beneficiary = env.vestingAccount κ then amount else 0 := by
  have hrel := h.released_eq key token
  simp only [and_self, if_true] at hrel
  rw [arrives, hrel, Nat.add_sub_cancel_left]

theorem arrives_of_eq (h : next env s (.release key token) = s) :
    arrives env κ tok s (.release key token) = 0 := by
  rw [arrives, h, Nat.sub_self]
  split <;> rfl

variable (env) in
theorem next_update_total (s : State T) (permitted : Bool) (key : Key) (beneficiary : Address)
    (start cliff duration : UInt64) :
    let s' := next env s (.update permitted key beneficiary start cliff duration)
    s'.tokens = s.tokens ∧ s'.timestamp = s.timestamp ∧ ∀ κ tok, released s' κ tok = released s κ tok := by
  simp only [next]
  cases h : update s permitted key beneficiary start cliff duration with
  | error e => exact ⟨rfl, rfl, fun _ _ => rfl⟩
  | ok s' =>
    obtain ⟨-, rfl⟩ := update_eq_ok.mp h
    simp only [transact_ok, deployVestingAccount_tokens, deployVestingAccount_timestamp, released,
      deployVestingAccount_schedules, true_and]
    intro κ tok
    by_cases hkey : κ = key
    · subst hkey
      rw [update_self]
    · rw [update_of_ne hkey]

variable {op : Op T}

/-- **The balance and what was released grow by what arrives.** -/
theorem next_total (h : Allowed env κ tok s op) :
    total env κ tok (next env s op) = total env κ tok s + arrives env κ tok s op := by
  cases op with
  | block timestamp => rfl
  | token token storage =>
    by_cases htok : token = tok
    · subst htok
      have hle : currentBalance env s κ token ≤ (env.erc20 token).balanceOf storage
        (env.vestingAccount κ) := h rfl
      simp only [total, currentBalance, next, update_self, arrives, if_true] at hle ⊢
      simp only [released]
      omega
    · simp [total, currentBalance, next, arrives, htok, update_of_ne (Ne.symm htok), released]
  | release key token =>
    rcases next_release env s key token with ⟨amount, -, hrel⟩ | hsame
    · rw [hrel.total_eq h, arrives_release hrel]
    · rw [arrives_of_eq hsame, hsame, Nat.add_zero]
  | update permitted key beneficiary start cliff duration =>
    obtain ⟨htokens, -, hrel⟩ := next_update_total env s permitted key beneficiary start cliff duration
    simp only [total, currentBalance, htokens, hrel, arrives, Nat.add_zero]

/-- **What was released never falls.** -/
theorem next_released_le (s : State T) (op : Op T) : released s κ tok ≤ released (next env s op) κ tok := by
  cases op with
  | block | token => exact Nat.le_refl _
  | release key token =>
    rcases next_release env s key token with ⟨amount, -, hrel⟩ | hsame
    · rw [hrel.released_eq]
      exact Nat.le_add_right _ _
    · exact Nat.le_of_eq (by rw [hsame])
  | update permitted key beneficiary start cliff duration =>
    obtain ⟨-, -, hrel⟩ := next_update_total env s permitted key beneficiary start cliff duration
    exact Nat.le_of_eq (hrel κ tok).symm

theorem accepted_congr {r : Address → Nat} (h : v.Accepted) :
    ({ v with released := r } : VestingSchedule).Accepted := ⟨h.cliff_le, h.cliff_fits, h.duration_fits⟩

theorem inv_next (hinv : Inv κ s) (h : Allowed env κ tok s op) : Inv κ (next env s op) := by
  cases op with
  | block timestamp => exact ⟨hinv.accepted, h.2⟩
  | token token storage => exact ⟨hinv.accepted, hinv.timestamp⟩
  | release key token =>
    rcases next_release env s key token with ⟨amount, -, hrel⟩ | hsame
    · refine ⟨?_, hrel.timestamp ▸ hinv.timestamp⟩
      obtain ⟨r, hr⟩ := hrel.terms_eq κ
      rw [hr]
      exact accepted_congr hinv.accepted
    · rw [hsame]
      exact hinv
  | update permitted key beneficiary start cliff duration =>
    simp only [next]
    cases hu : update s permitted key beneficiary start cliff duration with
    | error e => exact hinv
    | ok s' =>
      obtain ⟨⟨-, -, hcliff⟩, rfl⟩ := update_eq_ok.mp hu
      refine ⟨?_, by simpa using hinv.timestamp⟩
      simp only [transact_ok, deployVestingAccount_schedules]
      by_cases hkey : key = κ
      · subst hkey
        obtain ⟨hcliffFits, hdurationFits⟩ := h rfl
        rw [update_self]
        exact ⟨UInt64.le_iff_toNat_le.mp hcliff, hcliffFits, hdurationFits⟩
      · rw [update_of_ne (Ne.symm hkey)]
        exact hinv.accepted

/-- **One step keeps `releasable` from reverting exactly under the condition.** -/
theorem available_next (hinv : Inv κ s) (h : Allowed env κ tok s op) (havail : Available env κ tok s) :
    Available env κ tok (next env s op) ↔ Keeps env κ tok s op := by
  have hnext : Inv κ (next env s op) := inv_next hinv h
  have htotal := next_total h
  obtain ⟨hroom, hrel⟩ := (available_iff hinv).mp havail
  rw [available_iff hnext, htotal]
  cases op with
  | block timestamp =>
    have hlater : (s.schedules κ).share (total env κ tok s) s.timestamp ≤
        (s.schedules κ).share (total env κ tok s) timestamp := VestingSchedule.share_later hinv.accepted _ h.1
    constructor
    · rintro ⟨hroom', -⟩
      exact hroom'
    · intro hroom'
      exact ⟨hroom', Nat.le_trans hrel hlater⟩
  | token token storage =>
    have hmore : (s.schedules κ).share (total env κ tok s) s.timestamp ≤
        (s.schedules κ).share (total env κ tok s + arrives env κ tok s (.token token storage)) s.timestamp :=
      VestingSchedule.share_mono _ (Nat.le_add_right _ _) _
    constructor
    · rintro ⟨hroom', -⟩
      exact hroom'
    · intro hroom'
      exact ⟨hroom', Nat.le_trans hrel hmore⟩
  | release key token =>
    have hmore : (s.schedules κ).share (total env κ tok s) s.timestamp ≤
        (s.schedules κ).share (total env κ tok s + arrives env κ tok s (.release key token)) s.timestamp :=
      VestingSchedule.share_mono _ (Nat.le_add_right _ _) _
    rcases next_release env s key token with ⟨amount, hamount, hpaid⟩ | hsame
    · obtain ⟨r, hr⟩ := hpaid.terms_eq κ
      rw [hpaid.timestamp, hr]
      constructor
      · rintro ⟨hroom', -⟩
        exact ⟨hroom'.fits, hroom'.product⟩
      · intro hroom'
        refine ⟨⟨hroom'.fits, hroom'.product⟩, Nat.le_trans ?_ hmore⟩
        rw [hpaid.released_eq]
        by_cases hown : key = κ ∧ token = tok
        · -- what is counted is the whole share
          obtain ⟨rfl, rfl⟩ := hown
          obtain ⟨-, -, rfl⟩ := (releasable_eq_ok hinv.accepted hinv.timestamp).mp hamount
          rw [if_pos ⟨rfl, rfl⟩]
          omega
        · rw [if_neg hown]
          exact hrel
    · rw [hsame]
      constructor
      · rintro ⟨hroom', -⟩
        exact hroom'
      · intro hroom'
        exact ⟨hroom', Nat.le_trans hrel hmore⟩
  | update permitted key beneficiary start cliff duration =>
    simp only [arrives, Nat.add_zero]
    simp only [next, Keeps]
    cases hu : update s permitted key beneficiary start cliff duration with
    | error e =>
      have hrefused : ¬ (permitted = true ∧ beneficiary ≠ 0 ∧ cliff ≤ duration) := by
        intro hacc
        rw [update_eq_ok.mpr ⟨hacc, rfl⟩] at hu
        cases hu
      constructor
      · intro _ hacc
        exact absurd hacc hrefused
      · intro _
        exact ⟨hroom, hrel⟩
    | ok s' =>
      obtain ⟨hacc, rfl⟩ := update_eq_ok.mp hu
      simp only [transact_ok, released, deployVestingAccount_schedules, deployVestingAccount_timestamp]
      by_cases hkey : key = κ
      · subst hkey
        rw [update_self]
        constructor
        · intro hkept _ _
          exact hkept
        · intro hkept
          exact hkept hacc rfl
      · rw [update_of_ne (Ne.symm hkey)]
        constructor
        · intro _ _ hown
          exact absurd hown hkey
        · intro _
          exact ⟨hroom, hrel⟩

section

variable (env κ tok)

/-- What should hold in a run from the state `s`, for every way to cut it. -/
structure Kept (s : State T) (ops : List (Op T)) : Prop where
  available : ∀ past rest, ops = past ++ rest → Available env κ tok (run (step env κ tok) s past)
  /-- A release brings what was released to the vested share of everything received. -/
  share : ∀ past rest s', ops = past ++ .release κ tok :: rest →
    release env (run (step env κ tok) s past) κ tok = .ok s' →
    released s' κ tok = (s'.schedules κ).share (received env κ tok s past) s'.timestamp
  monotone : ∀ past mid rest, ops = past ++ mid ++ rest →
    released (run (step env κ tok) s past) κ tok ≤ released (run (step env κ tok) s (past ++ mid)) κ tok
  bounded : ∀ past rest, ops = past ++ rest →
    released (run (step env κ tok) s past) κ tok ≤ received env κ tok s past

end

theorem inv_run {ops : List (Op T)} (hinv : Inv κ s)
    (h : Meets (step env κ tok) (Allowed env κ tok) s ops) : Inv κ (run (step env κ tok) s ops) :=
  invariant_of_meets (I := fun s _ => Inv κ s) (fun _ _ _ hs hop => inv_next hs hop) hinv h

theorem received_eq {ops : List (Op T)} (hnew : released s κ tok = 0)
    (h : Meets (step env κ tok) (Allowed env κ tok) s ops) :
    total env κ tok (run (step env κ tok) s ops) = received env κ tok s ops := by
  refine invariant_of_meets (I := fun s' tr => total env κ tok s' = currentBalance env s κ tok + tr.sum)
    ?_ ?_ h
  · intro s' tr op hs' hop
    simp only [step, List.sum_append, List.sum_singleton, next_total hop, hs', Nat.add_assoc]
  · simp [total, hnew]

theorem released_le_run (s : State T) (ops : List (Op T)) :
    released s κ tok ≤ released (run (step env κ tok) s ops) κ tok := by
  induction ops generalizing s with
  | nil => exact Nat.le_refl _
  | cons op ops ih => exact Nat.le_trans (next_released_le s op) (ih _)

theorem share_after_release (hinv : Inv κ s) (h : release env s κ tok = .ok s') :
    released s' κ tok = (s'.schedules κ).share (total env κ tok s) s'.timestamp := by
  obtain ⟨amount, hamount, hrel⟩ := release_eq_ok h
  obtain ⟨-, hle, rfl⟩ := (releasable_eq_ok hinv.accepted hinv.timestamp).mp hamount
  obtain ⟨r, hr⟩ := hrel.terms_eq κ
  have hshare : (s'.schedules κ).share (total env κ tok s) s'.timestamp =
      (s.schedules κ).share (total env κ tok s) s.timestamp := by
    rw [hr, hrel.timestamp]
    rfl
  rw [hshare, hrel.released_eq, if_pos ⟨rfl, rfl⟩]
  omega

theorem inv_init (tokens : Address → T) (h : timestamp < 2 ^ 64) : Inv κ (init timestamp tokens) :=
  ⟨⟨Nat.le_refl _, by simp [init], by simp [init]⟩, h⟩

theorem available_init (tokens : Address → T) (h : timestamp < 2 ^ 64) :
    Available env κ tok (init timestamp tokens) := by
  rw [available_iff (inv_init tokens h)]
  have hnone : ¬ ((init timestamp tokens).schedules κ).Between timestamp :=
    by simp [VestingSchedule.Between, init]
  refine ⟨⟨?_, fun hbetween => absurd hbetween hnone⟩, Nat.zero_le _⟩
  exact (env.erc20 tok).balanceOf_lt (tokens tok) (env.vestingAccount κ)

/-- **Vesting is history independent and never stuck exactly in the runs that meet the condition.** -/
theorem kept_iff (env : Env T) (κ : Key) (tok : Address) {timestamp : Nat} {tokens : Address → T}
    {ops : List (Op T)} (htime : timestamp < 2 ^ 64)
    (hallowed : Meets (step env κ tok) (Allowed env κ tok) (init timestamp tokens) ops) :
    Kept env κ tok (init timestamp tokens) ops ↔
      Meets (step env κ tok) (Keeps env κ tok) (init timestamp tokens) ops := by
  have hinit : Inv κ (init timestamp tokens) := inv_init tokens htime
  have havailable : (∀ past rest, ops = past ++ rest →
      Available env κ tok (run (step env κ tok) (init timestamp tokens) past)) ↔
      Meets (step env κ tok) (Keeps env κ tok) (init timestamp tokens) ops :=
    forall_states_iff (A := Allowed env κ tok) (fun _ _ hs hop _ => inv_next hs hop)
      (fun _ _ => available_next) ops _ hinit (available_init tokens htime) hallowed
  constructor
  · intro hkept
    exact havailable.mp hkept.available
  · intro hmeets
    refine ⟨havailable.mpr hmeets, ?_, ?_, ?_⟩
    · rintro past rest s' rfl hrelease
      have hpast := ((meets_append _ _ _).mp hallowed).1
      rw [← received_eq rfl hpast]
      exact share_after_release (inv_run hinit hpast) hrelease
    · rintro past mid rest rfl
      rw [run_append]
      exact released_le_run _ _
    · rintro past rest rfl
      rw [← received_eq rfl ((meets_append _ _ _).mp hallowed).1]
      exact Nat.le_add_left _ _

/-! ## A schedule replaced after its end -/

namespace Sample

def contracts : Env Standard where
  erc20 _ := standard
  vestingAccount key := key.setWidth 160

/-- A hundred tokens for the vesting account of the key 1. -/
def funded : Standard := (Standard.empty.mint 1 100).getD .empty

def start : State Standard := init 100 fun _ => .empty

/-- Everything is vested by the time it is released. -/
def vested : List (Op Standard) := [.update true 1 7 10 5 20, .token 5 funded, .release 1 5]

end Sample

open Sample in
theorem kept_sample : Kept contracts 1 5 start vested :=
  (kept_iff contracts 1 5 (by decide) (by decide)).mpr (by decide)

open Sample in
/-- **Another update makes `releasable` panic.** -/
theorem stuck_after_update :
    Meets (step contracts 1 5) (Allowed contracts 1 5) start (vested ++ [.update true 1 7 1000 0 10]) ∧
    ¬ Kept contracts 1 5 start (vested ++ [.update true 1 7 1000 0 10]) := by
  refine ⟨by decide, ?_⟩
  intro hkept
  obtain ⟨amount, hamount⟩ := hkept.available _ [] (List.append_nil _).symm
  have hpanics : releasable contracts (run (step contracts 1 5) start
      (vested ++ [.update true 1 7 1000 0 10])) 1 5 = .error .arithmetic := by rfl
  rw [hpanics] at hamount
  cases hamount

end UnionVoyager.Evm.Vesting
