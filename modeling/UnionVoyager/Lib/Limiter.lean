import Mathlib.Algebra.Order.Ring.Nat
import UnionVoyager.Lib.Machine

/-!
# Buckets that are refilled lazily

A bucket is charged with amounts; what it holds grows with time up to its capacity, and the growth
is computed when it is charged.  Capacity and rate may change between charges.

* `Limiter` — a kind of bucket, and its functions; `level` — what could be drawn at a time.
* `Sound.bounds` — **over any calls, what is accepted since then is no more than the level after it
  and what is refilled meanwhile**, and what is held no more than the capacity or what was held
  then.
-/

namespace Lib

universe u v

structure Limiter (β : Type u) (ε : Type v) where
  capacity : β → Nat
  available : β → Nat
  refillRate : β → Nat
  lastRefill : β → Nat
  /-- With an amount, at a time. -/
  charge : β → Nat → Nat → Except ε β
  /-- With a capacity, a rate, whether to fill the bucket, and the time. -/
  configure : β → Nat → Nat → Bool → Nat → Option β

namespace Limiter

variable {β : Type u} {ε : Type v} (L : Limiter β ε)

/-- What could be drawn at a time. -/
def level (b : β) (now : Nat) : Nat :=
  max (L.available b) (min (L.capacity b) (L.available b + L.refillRate b * (now - L.lastRefill b)))

/-- **The level rises at most with the refill rate.** -/
theorem level_later (b : β) (now later : Nat) :
    L.level b later ≤ L.level b now + L.refillRate b * (later - now) := by
  have h : L.refillRate b * (later - L.lastRefill b) ≤
      L.refillRate b * (now - L.lastRefill b) + L.refillRate b * (later - now) := by
    rw [← Nat.mul_add]
    exact Nat.mul_le_mul_left _ (by omega)
  unfold level
  omega

theorem level_le (b : β) (now : Nat) : L.level b now ≤ max (L.capacity b) (L.available b) := by
  unfold level
  omega

variable {b : β} {now : Nat}

theorem level_eq (h : L.capacity b ≤ L.available b ∨ L.lastRefill b = now) :
    L.level b now = L.available b := by
  unfold level
  rcases h with h | h
  · omega
  · rw [h, Nat.sub_self, Nat.mul_zero]
    omega

/-- The amount was drawn from the bucket at this time. -/
structure Charged (b : β) (amount now : Nat) (b' : β) : Prop where
  capacity : L.capacity b' = L.capacity b
  refillRate : L.refillRate b' = L.refillRate b
  level : L.level b' now + amount ≤ L.level b now
  available : L.available b' ≤ max (L.capacity b) (L.available b)
  lastRefill : L.lastRefill b' ≤ now

/-- What the functions keep of a bucket that was last refilled in the past; `broken` are the errors
    that must not happen. -/
structure Sound (broken : ε → Prop) : Prop where
  charged : ∀ {b b' amount now}, L.lastRefill b ≤ now → L.charge b amount now = .ok b' →
    L.Charged b amount now b'
  unbroken : ∀ {b amount now e}, L.lastRefill b ≤ now → L.charge b amount now = .error e → ¬ broken e
  configured : ∀ {b b' capacity refillRate reset now}, L.lastRefill b ≤ now →
    L.configure b capacity refillRate reset now = some b' → L.lastRefill b' ≤ now

/-- A bucket at a time, as it was after it was configured last, at another time, and what was
    accepted since. -/
structure Watch (β : Type u) where
  bucket : β
  now : Nat
  base : β
  since : Nat
  accepted : Nat

/-- A call, some time after the one before it. -/
inductive Call where
  | charge (wait amount : Nat)
  | configure (wait capacity refillRate : Nat) (reset : Bool)

/-- A call that fails leaves the bucket as it was. -/
def step (w : Watch β) : Call → Watch β × List ε
  | .charge wait amount =>
    match L.charge w.bucket amount (w.now + wait) with
    | .ok b => ({ w with bucket := b, now := w.now + wait, accepted := w.accepted + amount }, [])
    | .error e => ({ w with now := w.now + wait }, [e])
  | .configure wait capacity refillRate reset =>
    match L.configure w.bucket capacity refillRate reset (w.now + wait) with
    | some b => (⟨b, w.now + wait, b, w.now + wait, 0⟩, [])
    | none => ({ w with now := w.now + wait }, [])

/-- A bucket that nothing was accepted from. -/
def Watch.start (b : β) (now : Nat) : Watch β := ⟨b, now, b, now, 0⟩

structure Bounds (w : Watch β) : Prop where
  clock : L.lastRefill w.bucket ≤ w.now ∧ w.since ≤ w.now
  capacity : L.capacity w.bucket = L.capacity w.base
  refillRate : L.refillRate w.bucket = L.refillRate w.base
  available : L.available w.bucket ≤ max (L.capacity w.base) (L.available w.base)
  accepted : w.accepted + L.level w.bucket w.now ≤ L.level w.base w.since + L.refillRate w.base *
    (w.now - w.since)

theorem bounds_start (h : L.lastRefill b ≤ now) : L.Bounds (.start b now) := by
  refine ⟨⟨h, Nat.le_refl _⟩, rfl, rfl, Nat.le_max_right _ _, ?_⟩
  simp only [Watch.start, Nat.zero_add]
  omega

variable {w : Watch β}

/-- Time passes. -/
theorem Bounds.later (h : L.Bounds w) (wait : Nat) : L.Bounds { w with now := w.now + wait } := by
  obtain ⟨⟨hclock, hsince⟩, hcapacity, hrate, havailable, hacc⟩ := h
  refine ⟨⟨by simp only; omega, by simp only; omega⟩, hcapacity, hrate, havailable, ?_⟩
  have hlater := L.level_later w.bucket w.now (w.now + wait)
  have hwait : w.now + wait - w.now = wait := by omega
  have hsplit : w.now + wait - w.since = (w.now - w.since) + wait := by omega
  rw [hwait, hrate] at hlater
  show w.accepted + L.level w.bucket (w.now + wait) ≤
    L.level w.base w.since + L.refillRate w.base * (w.now + wait - w.since)
  rw [hsplit, Nat.mul_add]
  omega

variable {L}

theorem Sound.step_bounds {broken : ε → Prop} (hL : L.Sound broken) (h : L.Bounds w) (c : Call) :
    L.Bounds (L.step w c).1 ∧ ∀ e ∈ (L.step w c).2, ¬ broken e := by
  cases c with
  | charge wait amount =>
    have hlater := h.later L wait
    cases hcharge : L.charge w.bucket amount (w.now + wait) with
    | ok b =>
      have hstep : L.step w (.charge wait amount) =
          ({ w with bucket := b, now := w.now + wait, accepted := w.accepted + amount }, []) := by
        simp only [step, hcharge]
      have hdrawn : L.Charged w.bucket amount (w.now + wait) b := hL.charged hlater.clock.1 hcharge
      rw [hstep]
      refine ⟨⟨⟨hdrawn.lastRefill, hlater.clock.2⟩, hdrawn.capacity.trans h.capacity,
        hdrawn.refillRate.trans h.refillRate, ?_, ?_⟩, by simp⟩
      · have hheld := hdrawn.available
        have hbefore := h.available
        have hcapacity := h.capacity
        show L.available b ≤ max (L.capacity w.base) (L.available w.base)
        omega
      · have hlevel := hdrawn.level
        have hacc := hlater.accepted
        simp only at hacc ⊢
        omega
    | error e =>
      have hstep : L.step w (.charge wait amount) = ({ w with now := w.now + wait }, [e]) := by
        simp only [step, hcharge]
      rw [hstep]
      refine ⟨hlater, fun e' he' => ?_⟩
      rw [List.mem_singleton.mp he']
      exact hL.unbroken hlater.clock.1 hcharge
  | configure wait capacity refillRate reset =>
    have hlater := h.later L wait
    cases hconfigure : L.configure w.bucket capacity refillRate reset (w.now + wait) with
    | some b =>
      have hstep : L.step w (.configure wait capacity refillRate reset) = (.start b (w.now + wait), []) := by
        simp only [step, hconfigure, Watch.start]
      rw [hstep]
      exact ⟨L.bounds_start (hL.configured hlater.clock.1 hconfigure), by simp⟩
    | none =>
      have hstep : L.step w (.configure wait capacity refillRate reset) =
          ({ w with now := w.now + wait }, []) := by
        simp only [step, hconfigure]
      rw [hstep]
      exact ⟨hlater, by simp⟩

theorem Sound.bounds {broken : ε → Prop} (hL : L.Sound broken) (h : L.lastRefill b ≤ now)
    (calls : List Call) : L.Bounds (Machine.run L.step (.start b now) calls) ∧
      ∀ e ∈ Machine.trace L.step (.start b now) calls, ¬ broken e := by
  refine Machine.invariant (I := fun w errors => L.Bounds w ∧ ∀ e ∈ errors, ¬ broken e) ?_
    ⟨L.bounds_start h, fun e he => absurd he List.not_mem_nil⟩ calls
  rintro w errors c ⟨hbounds, herrors⟩
  obtain ⟨hnext, hnew⟩ := hL.step_bounds hbounds c
  refine ⟨hnext, fun e he => ?_⟩
  rcases List.mem_append.mp he with he | he
  · exact herrors e he
  · exact hnew e he

/-- A bucket configured with no more than its capacity keeps within it. -/
theorem Bounds.within (h : L.Bounds w) (hbase : L.available w.base ≤ L.capacity w.base) :
    L.available w.bucket ≤ L.capacity w.bucket := by
  have havailable := h.available
  have hcapacity := h.capacity
  omega

theorem Bounds.accepted_le (h : L.Bounds w) :
    w.accepted ≤ L.level w.base w.since + L.refillRate w.base * (w.now - w.since) :=
  le_trans (Nat.le_add_right _ _) h.accepted

end Limiter

end Lib
