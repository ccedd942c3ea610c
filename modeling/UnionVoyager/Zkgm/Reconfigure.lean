import UnionVoyager.Evm.UnionversalToken
import UnionVoyager.Zkgm.Batch
import UnionVoyager.Zkgm.RateLimit

/-!
# Reconfiguring a token bucket

`set_bucket_config` changes capacity and rate of a bucket and leaves alone what it holds, unless it
is told to reset it. What is refilled for the time before is computed later, with the new rate, and
what exceeds the new capacity stays.

* `Reconfigured` — what holds after any calls; `reconfigured_bounds` — **it does, of both.**
-/

namespace UnionVoyager.Zkgm

open Lib
open Evm.UnionversalToken (Bucket solidityLimiter)

/-! ## The two contracts -/

/-- `SetBucketConfig`, on the entry of the denom. -/
def setBucketConfig (entry : Option TokenBucket) (capacity refillRate : Nat) (reset : Bool)
    (now : Nat) : Except TokenBucketError TokenBucket :=
  match entry with
  | some tokenBucket => tokenBucket.update capacity refillRate reset
  | none => TokenBucket.new capacity refillRate now

/-- `rate_limit`, on the entry of the denom. -/
def chargeEntry (denom : String) (entry : Option TokenBucket) (amount now : Nat) :
    Result (Option TokenBucket) := do
  let tokenBucket ← okOr entry (.tokenBucketIsAbsent denom)
  let tokenBucket ← tokenBucket.rateLimit amount now
  pure (some tokenBucket)

/-- The entry of a denom of the cosmwasm contract. -/
def limiter (denom : String) : Limiter (Option TokenBucket) Failure where
  capacity entry := (entry.map (·.capacity)).getD 0
  available entry := (entry.map (·.available)).getD 0
  refillRate entry := (entry.map (·.refillRate)).getD 0
  lastRefill entry := (entry.map (·.lastRefill)).getD 0
  charge := chargeEntry denom
  configure entry capacity refillRate reset now :=
    (setBucketConfig entry capacity refillRate reset now).toOption.map some

/-! ## Rust -/

/-- What a refill at a time makes of a bucket. -/
structure Refilled (b : TokenBucket) (now : Nat) (b' : TokenBucket) : Prop where
  capacity : b'.capacity = b.capacity
  refillRate : b'.refillRate = b.refillRate
  available : b'.available ≤
    max b.available (min b.capacity (b.available + b.refillRate * (now - b.lastRefill)))
  lastRefill : b'.lastRefill ≤ now
  settled : b'.refillRate * (now - b'.lastRefill) = 0

variable {b : TokenBucket} {now amount : Nat}

section

variable (hclock : b.lastRefill ≤ now)

include hclock

theorem refill_refilled {b' : TokenBucket} (h : b.refill now = .ok b') : Refilled b now b' := by
  unfold TokenBucket.refill at h
  split at h
  · cases h
    exact ⟨rfl, rfl, le_max_left _ _, le_refl _, by simp⟩
  · split at h
    · omega
    · dsimp only at h
      split at h
      · cases h
        exact ⟨rfl, rfl, le_max_left _ _, hclock, by omega⟩
      · cases h
        refine ⟨rfl, rfl, ?_, le_refl _, by simp⟩
        show min b.capacity _ ≤ _
        omega

theorem refill_noPanic : Avoids Failure.isPanic (b.refill now) := by
  unfold TokenBucket.refill
  split
  · exact .ok _
  · rw [if_neg (by omega)]
    dsimp only
    split <;> exact .ok _

theorem rateLimit_refilled {b' : TokenBucket} (h : b.rateLimit amount now = .ok b') :
    b' = b ∧ amount = 0 ∨
      ∃ c, Refilled b now c ∧ amount ≤ c.available ∧ b' = { c with available := c.available - amount } := by
  unfold TokenBucket.rateLimit at h
  split at h
  · next hzero =>
    cases h
    exact .inl ⟨rfl, hzero⟩
  · simp only [bind_eq_ok, require_eq_ok, pure_eq_ok] at h
    obtain ⟨c, hrefill, _, hle, rfl⟩ := h
    exact .inr ⟨c, refill_refilled hclock hrefill, hle, rfl⟩

theorem rateLimit_noPanic : Avoids Failure.isPanic (b.rateLimit amount now) := by
  unfold TokenBucket.rateLimit
  split
  · exact .ok _
  · exact (refill_noPanic hclock).bind fun _ _ => (require_noPanic _ _).bind fun _ _ => .pure _

end

theorem limiter_charged {denom : String} {entry entry' : Option TokenBucket}
    (hclock : (limiter denom).lastRefill entry ≤ now)
      (h : (limiter denom).charge entry amount now = .ok entry') :
    (limiter denom).Charged entry amount now entry' := by
  cases entry with
  | none => cases h
  | some b =>
    simp only [limiter, chargeEntry, bind_eq_ok, okOr_eq_ok, pure_eq_ok, Option.some.injEq] at h
    obtain ⟨_, rfl, b', hb', rfl⟩ := h
    rcases rateLimit_refilled (show b.lastRefill ≤ now from hclock) hb' with ⟨rfl, rfl⟩ | ⟨c, hc, hle, rfl⟩
    · exact ⟨rfl, rfl, le_refl _, le_max_right _ _, hclock⟩
    · obtain ⟨hcapacity, hrate, havailable, hlast, hsettled⟩ := hc
      refine ⟨hcapacity, hrate, ?_, ?_, hlast⟩
      · show max (c.available - amount)
          (min c.capacity (c.available - amount + c.refillRate * (now - c.lastRefill))) +
          amount ≤ max b.available (min b.capacity (b.available + b.refillRate * (now - b.lastRefill)))
        rw [hsettled]
        omega
      · show c.available - amount ≤ max b.capacity b.available
        omega

theorem limiter_sound (denom : String) : (limiter denom).Sound Failure.isPanic := by
  refine ⟨limiter_charged, ?_, ?_⟩
  · intro entry amount now e hclock h
    cases entry with
    | none =>
      cases h
      exact fun hpanic => hpanic
    | some b =>
      have havoids : Avoids Failure.isPanic (chargeEntry denom (some b) amount now) :=
        (rateLimit_noPanic (show b.lastRefill ≤ now from hclock)).bind fun _ _ => .pure _
      exact havoids e h
  · intro entry entry' capacity refillRate reset now hclock h
    obtain ⟨b', hb', rfl⟩ := Option.map_eq_some_iff.mp h
    cases entry with
    | none =>
      have hnew : TokenBucket.new capacity refillRate now = .ok b' := toOption_eq_some.mp hb'
      simp only [TokenBucket.new, bind_eq_ok, pure_eq_ok] at hnew
      obtain ⟨_, -, _, -, rfl⟩ := hnew
      exact le_refl _
    | some b =>
      have hupd : b.update capacity refillRate reset = .ok b' := toOption_eq_some.mp hb'
      simp only [TokenBucket.update, bind_eq_ok, pure_eq_ok] at hupd
      obtain ⟨_, -, _, -, rfl⟩ := hupd
      exact hclock

/-! ## Solidity -/

theorem solidity_lastRefill {b b' : Bucket} (hclock : b.lastRefill ≤ now)
    (h : b.rateLimit amount now = .ok b') :
    b'.lastRefill ≤ now ∧ b'.available ≤ max b.capacity b.available := by
  unfold Bucket.rateLimit at h
  split at h
  · cases h
    exact ⟨hclock, le_max_right _ _⟩
  · simp only [bind_eq_ok, ensure_eq_ok, pure_eq_ok] at h
    obtain ⟨c, hrefill, _, -, rfl⟩ := h
    unfold Bucket.refill at hrefill
    split at hrefill
    · cases hrefill
      exact ⟨le_refl _, le_trans (Nat.sub_le _ _) (le_max_right _ _)⟩
    · simp only [bind_eq_ok, Evm.checkedSub_eq_ok] at hrefill
      obtain ⟨_, -, hrefill⟩ := hrefill
      split at hrefill
      · obtain rfl := pure_eq_ok.mp hrefill
        refine ⟨le_refl _, le_trans (Nat.sub_le _ _) ?_⟩
        simp only [Bucket.clampToCapacity]
        split <;> omega
      · obtain rfl := pure_eq_ok.mp hrefill
        exact ⟨hclock, le_trans (Nat.sub_le _ _) (le_max_right _ _)⟩

theorem solidity_noPanic {b : Bucket} (hclock : b.lastRefill ≤ now) :
    Avoids (· = .arithmetic) (b.rateLimit amount now) := by
  have hrefill : Avoids (· = .arithmetic) (b.refill now) := by
    have helapsed : (Evm.checkedSub now b.lastRefill : Evm.UnionversalToken.Result Nat) =
        .ok (now - b.lastRefill) :=
      if_pos hclock
    unfold Bucket.refill
    split
    · exact .ok _
    · rw [helapsed, ok_bind]
      dsimp only
      split <;> exact .pure _
  unfold Bucket.rateLimit
  split
  · exact .ok _
  · exact hrefill.bind fun _ _ => (Avoids.ensure fun _ h => by cases h).bind fun _ _ => .pure _

theorem solidityLimiter_sound : solidityLimiter.Sound (· = .arithmetic) := by
  refine ⟨?_, fun hclock h => solidity_noPanic hclock _ h, ?_⟩
  · intro b b' amount now hclock h
    have hdrawn := Bucket.rateLimit_draws h
    obtain ⟨hlast, havailable⟩ := solidity_lastRefill hclock h
    exact ⟨hdrawn.capacity, hdrawn.refillRate, hdrawn.level, havailable, hlast⟩
  · intro b b' capacity refillRate reset now hclock h
    have hconfig : b.setConfig capacity refillRate reset now = .ok b' := toOption_eq_some.mp h
    simp only [Bucket.setConfig, bind_eq_ok, pure_eq_ok] at hconfig
    obtain ⟨_, -, _, -, rfl⟩ := hconfig
    show Bucket.lastRefill _ ≤ now
    split
    · exact le_refl _
    · exact hclock

/-! ## Any calls -/

section calls

variable {β ε : Type} (L : Limiter β ε) (broken : ε → Prop) (b : β) (now : Nat) (calls : List Limiter.Call)

/-- What holds of a bucket after any calls; the clock never goes back.  The bucket right after the
    last change of its configuration is `base`, and `since` the time of that. -/
structure Reconfigured : Prop where
  unbroken : ∀ e ∈ Machine.trace L.step (.start b now) calls, ¬ broken e
  available : ∀ w, w = Machine.run L.step (.start b now) calls →
    L.available w.bucket ≤ max (L.capacity w.bucket) (L.available w.base)
  accepted : ∀ w, w = Machine.run L.step (.start b now) calls →
    w.accepted ≤ max (L.available w.base)
      (min (L.capacity w.base) (L.available w.base + L.refillRate w.base * (w.since - L.lastRefill w.base))) +
      L.refillRate w.base * (w.now - w.since)
  /-- A change that left no more than the capacity, and nothing to refill for the time before. -/
  settled : ∀ w, w = Machine.run L.step (.start b now) calls → L.available w.base ≤ L.capacity w.base →
    L.available w.bucket ≤ L.capacity w.bucket ∧
      (L.capacity w.base ≤ L.available w.base ∨ L.lastRefill w.base = w.since →
        w.accepted ≤ min (L.available w.base) (L.capacity w.base) + L.refillRate w.base * (w.now - w.since))

variable {L broken b now}

theorem Reconfigured.of_sound (hL : L.Sound broken) (hclock : L.lastRefill b ≤ now) :
    Reconfigured L broken b now calls := by
  obtain ⟨hbounds, hunbroken⟩ := hL.bounds hclock calls
  refine ⟨hunbroken, ?_, ?_, ?_⟩
  · rintro w rfl
    have havailable := hbounds.available
    have hcapacity := hbounds.capacity
    omega
  · rintro w rfl
    exact hbounds.accepted_le
  · rintro w rfl hbase
    refine ⟨hbounds.within hbase, fun hsettled => ?_⟩
    have hacc := hbounds.accepted_le
    rw [L.level_eq hsettled] at hacc
    rwa [min_eq_left hbase]

end calls

/-- **The bounds of both buckets, over any charges and changes of configuration, from before the first.** -/
theorem reconfigured_bounds (denom : String) (now : Nat) (calls : List Limiter.Call) :
    Reconfigured (limiter denom) Failure.isPanic none now calls ∧
      Reconfigured solidityLimiter (· = .arithmetic) ⟨0, 0, 0, 0⟩ now calls :=
  ⟨.of_sound calls (limiter_sound denom) (Nat.zero_le _),
    .of_sound calls solidityLimiter_sound (Nat.zero_le _)⟩

namespace Sample

/-- The capacity is lowered from 100 to 10. -/
def lowered : List Limiter.Call := [.configure 0 100 1 false, .configure 1 10 1 false, .charge 0 50]

/-- The rate is raised from 1 to 1000, long after the bucket was emptied. -/
def raised : List Limiter.Call :=
  [.configure 0 100 1 false, .charge 0 100, .configure 100 100 1000 false, .charge 0 100]

/-- From time 1 on. -/
def after {β ε : Type} (L : Limiter β ε) (b : β) (calls : List Limiter.Call) : Limiter.Watch β :=
  Machine.run L.step (.start b 1) calls

end Sample

open Sample in
/-- **What a bucket held stays above a lowered capacity, and time before a change is refilled at the
    new rate**: 50 are accepted of a bucket of 10, which then holds 50, and 100 at the time of a
    change that left nothing. -/
theorem stale_amount_drawn : (after (limiter "muno") none lowered).accepted = 50 ∧
      (after (limiter "muno") none lowered).bucket = some ⟨10, 50, 1, 2⟩ ∧
      (after (limiter "muno") none raised).accepted = 100 ∧
      (after (limiter "muno") none raised).base = some ⟨100, 0, 1000, 1⟩ ∧
      (after (limiter "muno") none raised).now = (after (limiter "muno") none raised).since ∧
      (after solidityLimiter ⟨0, 0, 0, 0⟩ lowered).accepted = 50 ∧
      (after solidityLimiter ⟨0, 0, 0, 0⟩ lowered).bucket = ⟨10, 50, 1, 2⟩ ∧
      (after solidityLimiter ⟨0, 0, 0, 0⟩ raised).accepted = 100 ∧
      (after solidityLimiter ⟨0, 0, 0, 0⟩ raised).base = ⟨100, 0, 1000, 1⟩ := by
  decide

end UnionVoyager.Zkgm
