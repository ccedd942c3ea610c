import UnionVoyager.Lib.Machine
import Mathlib.Data.List.Perm.Basic

/-!
# The keyring that workers share

`lib/concurrent-keyring/src/lib.rs`: a ring buffer with the addresses that are free, and a map from
the addresses to the signers.  `ConcurrentKeyring::with` pops an address, calls a closure with the
signer, awaits the future it returns, and pushes the address back; a panic inside the future is
caught, one in the closure itself is not.

* `step` — a call of `with` begins, or the future of one ends; calls interleave in any order.
-/

namespace UnionVoyager.Keyring

open Lib Function List

structure KeyringEntry (A S : Type) where
  address : A
  signer : S

variable {A S : Type} [DecidableEq A]

/-- The keyring, and the address that each unfinished call of `with` has popped. -/
structure ConcurrentKeyring (A S : Type) where
  name : String
  capacity : Nat
  addressesBuffer : List A
  signers : A → Option S
  inUse : List A

/-- `ConcurrentKeyring::new`; an `ArrayQueue` of capacity 0 is a panic. -/
def new (name : String) (shuffle : List (KeyringEntry A S) → List (KeyringEntry A S))
    (entries : List (KeyringEntry A S)) : Option (ConcurrentKeyring A S) :=
  if entries.isEmpty then
    none
  else
    let shuffled := shuffle entries
    some {
      name
      capacity := entries.length
      addressesBuffer := shuffled.map KeyringEntry.address
      signers := shuffled.foldl (fun signers key => update signers key.address (some key.signer))
        fun _ => none
      inUse := [] }

inductive Input (S : Type) where
  /-- A call of `with` begins; its closure panics for the signers in `panics`. -/
  | start (panics : S → Bool)
  /-- The future of the call at a place ends, in a panic or not. -/
  | finish (call : Nat) (panicked : Bool)

inductive Output (A : Type) where
  /-- "high traffic in keyring" -/
  | highTraffic
  | using (address : A)
  | closurePanicked (address : A)
  | returned (address : A)
  /-- "ConcurrentKeyring::with future panicked" -/
  | futurePanicked (address : A)
  /-- The expectation "key is present; qed;" fails. -/
  | keyMissing (address : A)
  /-- The expectation "no additional items are added; qed;" fails. -/
  | bufferFull (address : A)

namespace ConcurrentKeyring

/-- `with`, up to its `await`. -/
def start (k : ConcurrentKeyring A S) (panics : S → Bool) : ConcurrentKeyring A S × List (Output A) :=
  match k.addressesBuffer with
  | [] => (k, [.highTraffic])
  | address :: addressesBuffer =>
    let k := { k with addressesBuffer }
    match k.signers address with
    | none => (k, [.keyMissing address])
    | some secret =>
      if panics secret then
        (k, [.closurePanicked address])
      else
        ({ k with inUse := k.inUse ++ [address] }, [.using address])

/-- `with`, from its `await` on. -/
def finish (k : ConcurrentKeyring A S) (call : Nat) (panicked : Bool) :
    ConcurrentKeyring A S × List (Output A) :=
  match k.inUse[call]? with
  | none => (k, [])
  | some address =>
    let k := { k with inUse := k.inUse.eraseIdx call }
    if k.addressesBuffer.length < k.capacity then
      ({ k with addressesBuffer := k.addressesBuffer ++ [address] },
        [if panicked then .futurePanicked address else .returned address])
    else
      (k, [.bufferFull address])

def step (k : ConcurrentKeyring A S) : Input S → ConcurrentKeyring A S × List (Output A)
  | .start panics => k.start panics
  | .finish call panicked => k.finish call panicked

/-- Every address of the keyring is free or in use, and none is so twice. -/
structure Accounted (k : ConcurrentKeyring A S) : Prop where
  once : (k.addressesBuffer ++ k.inUse).Nodup
  all : ∀ address, address ∈ k.addressesBuffer ++ k.inUse ↔ (k.signers address).isSome

/-- A call begins whose closure panics with the signer at the front. -/
def PanicsEarly (k : ConcurrentKeyring A S) : Input S → Prop
  | .start panics => ∃ address rest secret, k.addressesBuffer = address :: rest ∧
      k.signers address = some secret ∧ panics secret = true
  | .finish .. => False

/-- No more addresses are around than the buffer has room for. -/
def Fits (k : ConcurrentKeyring A S) : Prop := k.addressesBuffer.length + k.inUse.length ≤ k.capacity

variable {k : ConcurrentKeyring A S}

omit [DecidableEq A] in
theorem start_fits (h : k.Fits) (panics : S → Bool) :
    (k.start panics).1.Fits ∧ ∀ address, Output.bufferFull address ∉ (k.start panics).2 := by
  unfold Fits at h ⊢
  unfold start
  split
  · exact ⟨h, by simp⟩
  · rename_i address rest hbuffer
    rw [hbuffer, length_cons] at h
    dsimp only
    split
    · exact ⟨by simp only; omega, by simp⟩
    · split
      · exact ⟨by simp only; omega, by simp⟩
      · refine ⟨?_, by simp⟩
        simp only [length_append, length_singleton]
        omega

omit [DecidableEq A] in
/-- **The buffer never overflows**: an address is pushed only after it was popped. -/
theorem finish_fits (h : k.Fits) (call : Nat) (panicked : Bool) :
    (k.finish call panicked).1.Fits ∧ ∀ address, Output.bufferFull address ∉ (k.finish call panicked).2 := by
  unfold Fits at h ⊢
  unfold finish
  split
  · exact ⟨h, by simp⟩
  · rename_i address hcall
    have hlt : call < k.inUse.length := (List.getElem?_eq_some_iff.mp hcall).1
    have hlen : (k.inUse.eraseIdx call).length + 1 = k.inUse.length := by
      rw [length_eraseIdx_of_lt hlt]
      omega
    dsimp only
    rw [if_pos (by omega)]
    refine ⟨?_, by cases panicked <;> simp⟩
    simp only [length_append, length_singleton]
    omega

omit [DecidableEq A] in
theorem step_fits (h : k.Fits) (i : Input S) :
    (k.step i).1.Fits ∧ ∀ address, Output.bufferFull address ∉ (k.step i).2 := by
  cases i with
  | start panics => exact start_fits h panics
  | finish call panicked => exact finish_fits h call panicked

omit [DecidableEq A] in
theorem Accounted.congr {k' : ConcurrentKeyring A S} (h : k.Accounted) (hsigners : k'.signers = k.signers)
    (hperm : (k'.addressesBuffer ++ k'.inUse).Perm (k.addressesBuffer ++ k.inUse)) : k'.Accounted := by
  refine ⟨hperm.nodup_iff.mpr h.once, fun address => ?_⟩
  rw [hperm.mem_iff, hsigners]
  exact h.all address

omit [DecidableEq A] in
theorem step_accounted_iff (hfits : k.Fits) (h : k.Accounted) (i : Input S) :
    (k.step i).1.Accounted ↔ ¬ k.PanicsEarly i := by
  cases i with
  | start panics =>
    simp only [step, start, PanicsEarly]
    split
    · rename_i hbuffer
      simp [hbuffer, h]
    · rename_i address rest hbuffer
      have hmem : address ∈ k.addressesBuffer ++ k.inUse := by simp [hbuffer]
      obtain ⟨secret, hsecret⟩ := Option.isSome_iff_exists.mp ((h.all address).mp hmem)
      rw [hsecret, hbuffer]
      dsimp only
      split
      · rename_i hpanics
        refine iff_of_false (fun hafter => ?_) (fun hno => hno ⟨address, rest, secret, rfl, hsecret, hpanics⟩)
        -- the address has a signer, and is nowhere
        have hnowhere : address ∉ rest ++ k.inUse := by
          have honce := h.once
          rw [hbuffer, cons_append] at honce
          exact (List.nodup_cons.mp honce).1
        exact hnowhere ((hafter.all address).mpr (by simp only [hsecret, Option.isSome_some]))
      · rename_i hpanics
        refine iff_of_true (h.congr rfl ?_) ?_
        · dsimp only
          rw [hbuffer, ← append_assoc]
          exact (perm_append_singleton address _)
        · rintro ⟨address', rest', secret', heq, hsecret', hpanics'⟩
          cases heq
          rw [hsecret] at hsecret'
          cases hsecret'
          exact hpanics hpanics'
  | finish call panicked =>
    refine iff_of_true ?_ id
    simp only [step, finish]
    split
    · exact h
    · rename_i address hcall
      obtain ⟨hlt, rfl⟩ := List.getElem?_eq_some_iff.mp hcall
      have hlen : (k.inUse.eraseIdx call).length + 1 = k.inUse.length := by
        rw [length_eraseIdx_of_lt hlt]
        omega
      unfold Fits at hfits
      rw [if_pos (by omega)]
      refine h.congr rfl ?_
      dsimp only
      rw [append_assoc, singleton_append]
      exact (getElem_cons_eraseIdx_perm hlt).append_left _

end ConcurrentKeyring

open ConcurrentKeyring

theorem isSome_signers (entries : List (KeyringEntry A S)) : ∀ (signers : A → Option S) (address : A),
    ((entries.foldl (fun signers key => update signers key.address (some key.signer)) signers : A → Option S)
      address).isSome ↔
      address ∈ entries.map KeyringEntry.address ∨ (signers address).isSome := by
  induction entries with
  | nil => simp
  | cons key entries ih =>
    intro signers address
    rw [foldl_cons, ih, map_cons, mem_cons]
    by_cases hsame : address = key.address
    · subst hsame
      simp
    · rw [update_of_ne hsame]
      simp [hsame]

variable {name : String} {shuffle : List (KeyringEntry A S) → List (KeyringEntry A S)}
  {entries : List (KeyringEntry A S)} {k : ConcurrentKeyring A S}

theorem new_fits (hshuffle : (shuffle entries).Perm entries)
    (h : new name shuffle entries = some k) : k.Fits := by
  unfold new at h
  split at h
  · cases h
  · cases h
    simp [Fits, hshuffle.length_eq]

theorem new_accounted_iff (hshuffle : (shuffle entries).Perm entries)
    (h : new name shuffle entries = some k) :
    k.Accounted ↔ (entries.map KeyringEntry.address).Nodup := by
  unfold new at h
  split at h
  · cases h
  · cases h
    rw [← (hshuffle.map KeyringEntry.address).nodup_iff]
    constructor
    · intro haccounted
      simpa using haccounted.once
    · intro hnodup
      refine ⟨by simpa using hnodup, fun address => ?_⟩
      rw [isSome_signers]
      simp

abbrev run (k : ConcurrentKeyring A S) (is : List (Input S)) : ConcurrentKeyring A S := Machine.run step k is

omit [DecidableEq A] in
theorem run_fits (h : k.Fits) (is : List (Input S)) : (run k is).Fits :=
  Machine.state_invariant (I := Fits) (fun _ i hk => (step_fits hk i).1) h is

/-- **Every address is free or in use, and in use once, in every state of a run iff** the entries
    have different addresses and no closure panics before it returns a future. -/
theorem accounted_iff (hshuffle : (shuffle entries).Perm entries)
    (h : new name shuffle entries = some k) (is : List (Input S)) :
    ((∀ past rest, is = past ++ rest → (run k past).Accounted) ↔
        (entries.map KeyringEntry.address).Nodup ∧ Machine.Meets step (fun k i => ¬ k.PanicsEarly i) k is) ∧
      ∀ address, Output.bufferFull address ∉ Machine.trace step k is := by
  have hfits := new_fits hshuffle h
  constructor
  · rw [← new_accounted_iff hshuffle h]
    have hiff := fun hnew : k.Accounted => Machine.forall_states_iff (I := Fits) (G := Accounted)
      (A := fun _ _ => True) (C := fun k i => ¬ k.PanicsEarly i) (fun _ i hk _ _ => (step_fits hk i).1)
      (fun _ i hk _ haccounted => step_accounted_iff hk haccounted i) is k hfits hnew
      (Machine.meets_of_forall (P := fun _ => True) k fun _ _ => trivial)
    constructor
    · intro hall
      have hnew : k.Accounted := hall [] is rfl
      exact ⟨hnew, (hiff hnew).mp hall⟩
    · rintro ⟨hnew, hmeets⟩
      exact (hiff hnew).mpr hmeets
  · intro address hmem
    obtain ⟨past, i, rest, -, hout⟩ := (Machine.mem_trace is k).mp hmem
    exact (step_fits (run_fits hfits past) i).2 address hout

namespace Sample

/-- Keys whose addresses and signers are numbers, in their own order. -/
def keyring (addresses : List Nat) : ConcurrentKeyring Nat Nat where
  name := "sample"
  capacity := addresses.length
  addressesBuffer := addresses
  signers := (addresses.map fun a => KeyringEntry.mk a a).foldl
    (fun signers key => update signers key.address (some key.signer)) fun _ => none
  inUse := []

def keys (addresses : List Nat) : List (KeyringEntry Nat Nat) := addresses.map fun a => ⟨a, a⟩

/-- A call whose closure returns a future. -/
def call : Input Nat := .start fun _ => false

/-- A call whose closure panics. -/
def brokenCall : Input Nat := .start fun _ => true

end Sample

open Sample in
/-- The theorem at two keys, with two calls that overlap and one that panics in its future. -/
theorem keyring_accounted_sample :
      (run (keyring [1, 2]) [call, call, .finish 1 true, .finish 0 false]).Accounted ∧
      ¬ (run (keyring [1, 2]) [brokenCall]).Accounted := by
  have hnew : new "sample" id (keys [1, 2]) = some (keyring [1, 2]) := rfl
  constructor
  · refine ((accounted_iff (List.Perm.refl _) hnew [call, call, .finish 1 true, .finish 0 false]).1.mpr
      ⟨by decide, ?_⟩) _ [] (append_nil _).symm
    refine ⟨?_, ?_, id, id, trivial⟩
    · rintro ⟨_, _, _, -, -, hpanics⟩
      cases hpanics
    · rintro ⟨_, _, _, -, -, hpanics⟩
      cases hpanics
  · intro hafter
    have hall : ∀ past rest, [brokenCall] = past ++ rest → (run (keyring [1, 2]) past).Accounted := by
      intro past rest heq
      rcases List.append_eq_singleton_iff.mp heq.symm with ⟨rfl, -⟩ | ⟨rfl, -⟩
      · exact (new_accounted_iff (List.Perm.refl _) hnew).mpr (by decide)
      · exact hafter
    have hmeets := ((accounted_iff (List.Perm.refl _) hnew [brokenCall]).1.mp hall).2
    exact hmeets.1 ⟨1, [2], 1, rfl, rfl, rfl⟩

open Sample in
/-- **A closure that panics before it returns a future**: its address is neither free nor in use any
    more.  **Two entries with the same address**: two calls use it at once. -/
theorem closure_panic_loses : Machine.trace step (keyring [1])
      [brokenCall, call] = [.closurePanicked 1, .highTraffic] ∧
      (run (keyring [1, 1]) [call, call]).inUse = [1, 1] ∧
      ¬ ∀ (entries : List (KeyringEntry Nat Nat)) (k : ConcurrentKeyring Nat Nat) (is : List (Input Nat)),
        new "sample" id entries = some k → (run k is).Accounted := by
  refine ⟨rfl, rfl, fun h => ?_⟩
  have hlost := ((h (keys [1]) (keyring [1]) [brokenCall] rfl).all 1).mpr rfl
  exact (not_mem_nil hlost).elim

end UnionVoyager.Keyring
