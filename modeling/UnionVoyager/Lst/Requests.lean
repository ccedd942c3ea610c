import UnionVoyager.Lst.Account
import Mathlib.Algebra.BigOperators.Group.Finset.Piecewise

/-!
# The books of unstake requests

What the events so far say of the requests of a batch, and how the four stores agree with it.

* `books_effect` — every effect of a message keeps the books.
-/

namespace UnionVoyager.Lst

open Lib Function Finset

/-! ## What the events say -/

/-- The sum of a quantity over the events. -/
def tally (f : Event → Nat) (tr : List Event) : Nat := (tr.map f).sum

@[simp] theorem tally_append (f : Event → Nat) (tr tr' : List Event) :
    tally f (tr ++ tr') = tally f tr + tally f tr' := by
  simp [tally]

@[simp] theorem tally_singleton (f : Event → Nat) (e : Event) : tally f [e] = f e := by
  simp [tally]

def named (f : Event → Option Addr) (tr : List Event) : Finset Addr := (tr.filterMap f).toFinset

theorem named_concat (f : Event → Option Addr) (tr : List Event) (e : Event) :
    named f (tr ++ [e]) = (f e).elim (named f tr) (fun staker => insert staker (named f tr)) := by
  ext staker
  rw [named, List.filterMap_append, List.toFinset_append, mem_union]
  cases h : f e with
  | none => simp [named, h]
  | some staker' => simp [named, h, or_comm]

variable {tr evs : List Event} {staker : Addr}

theorem mem_named {f : Event → Option Addr} : staker ∈ named f tr ↔ ∃ e ∈ tr, f e = some staker := by
  rw [named, List.mem_toFinset, List.mem_filterMap]

def Event.requestedIn (b : BatchId) (staker : Addr) : Event → Nat
  | .unbond staker' batch amount _ => if batch = b ∧ staker' = staker then amount else 0
  | _ => 0

def Event.isNewIn (b : BatchId) : Event → Nat
  | .unbond _ batch _ isNewRequest => if batch = b ∧ isNewRequest = true then 1 else 0
  | _ => 0

def Event.paidIn (b : BatchId) : Event → Nat
  | .withdraw _ batch _ amount => if batch = b then amount else 0
  | _ => 0

def Event.paysIn (b : BatchId) (staker : Addr) : Event → Nat
  | .withdraw staker' batch _ _ => if batch = b ∧ staker' = staker then 1 else 0
  | _ => 0

def Event.unbonderIn (b : BatchId) : Event → Option Addr
  | .unbond staker batch _ _ => if batch = b then some staker else none
  | _ => none

def Event.withdrawerIn (b : BatchId) : Event → Option Addr
  | .withdraw staker batch _ _ => if batch = b then some staker else none
  | _ => none

section

variable (tr : List Event) (b : BatchId)

/-- All that an account asked for in a batch. -/
def requested (staker : Addr) : Nat := tally (Event.requestedIn b staker) tr

/-- The number of requests ever created in a batch. -/
def newRequests : Nat := tally (Event.isNewIn b) tr

def paid : Nat := tally (Event.paidIn b) tr

/-- The number of times an account was paid for a batch. -/
def payments (staker : Addr) : Nat := tally (Event.paysIn b staker) tr

/-- The accounts with a request in a batch. -/
def stakers : Finset Addr := named (Event.unbonderIn b) tr

/-- The accounts that withdrew from a batch. -/
def withdrawn : Finset Addr := named (Event.withdrawerIn b) tr

end

section Quiet

variable {evs : List Event} (hquiet : ∀ e ∈ evs, e.ofRequest = false) (tr : List Event) (b : BatchId)
include hquiet

theorem tally_quiet {f : Event → Nat} (hf : ∀ e : Event, e.ofRequest = false → f e = 0) :
    tally f (tr ++ evs) = tally f tr := by
  have hzero : tally f evs = 0 := by
    apply List.sum_eq_zero
    intro n hn
    obtain ⟨e, he, rfl⟩ := List.mem_map.mp hn
    exact hf e (hquiet e he)
  rw [tally_append, hzero, Nat.add_zero]

theorem requested_quiet (staker : Addr) : requested (tr ++ evs) b staker = requested tr b staker :=
  tally_quiet hquiet tr fun e he => by cases e <;> first | rfl | cases he

theorem newRequests_quiet : newRequests (tr ++ evs) b = newRequests tr b :=
  tally_quiet hquiet tr fun e he => by cases e <;> first | rfl | cases he

theorem paid_quiet : paid (tr ++ evs) b = paid tr b :=
  tally_quiet hquiet tr fun e he => by cases e <;> first | rfl | cases he

theorem payments_quiet (staker : Addr) : payments (tr ++ evs) b staker = payments tr b staker :=
  tally_quiet hquiet tr fun e he => by cases e <;> first | rfl | cases he

theorem named_quiet {f : Event → Option Addr} (hf : ∀ e : Event, e.ofRequest = false → f e = none) :
    named f (tr ++ evs) = named f tr := by
  have hnil : evs.filterMap f = [] := List.filterMap_eq_nil_iff.mpr fun e he => hf e (hquiet e he)
  rw [named, List.filterMap_append, hnil, List.append_nil, named]

theorem stakers_quiet : stakers (tr ++ evs) b = stakers tr b :=
  named_quiet hquiet tr fun e he => by cases e <;> first | rfl | cases he

theorem withdrawn_quiet : withdrawn (tr ++ evs) b = withdrawn tr b :=
  named_quiet hquiet tr fun e he => by cases e <;> first | rfl | cases he

end Quiet

section Unbond

variable (tr : List Event) (b b' : BatchId) (staker staker' : Addr) (amount : Nat) (isNew : Bool)

theorem requested_unbond : requested (tr ++ [.unbond staker' b' amount isNew]) b staker =
    requested tr b staker + if b' = b ∧ staker' = staker then amount else 0 := by
  simp [requested, Event.requestedIn]

theorem newRequests_unbond : newRequests (tr ++ [.unbond staker' b' amount isNew]) b =
    newRequests tr b + if b' = b ∧ isNew = true then 1 else 0 := by
  simp [newRequests, Event.isNewIn]

theorem paid_unbond : paid (tr ++ [.unbond staker' b' amount isNew]) b = paid tr b := by
  simp [paid, Event.paidIn]

theorem payments_unbond : payments (tr ++ [.unbond staker' b' amount isNew]) b staker =
      payments tr b staker := by
  simp [payments, Event.paysIn]

theorem withdrawn_unbond : withdrawn (tr ++ [.unbond staker' b' amount isNew]) b = withdrawn tr b :=
    named_concat ..

theorem stakers_unbond : stakers (tr ++ [.unbond staker' b' amount isNew]) b =
    if b' = b then insert staker' (stakers tr b) else stakers tr b := by
  rw [stakers, named_concat, Event.unbonderIn]
  split <;> rfl

end Unbond

section Withdraw

variable (tr : List Event) (b b' : BatchId) (staker staker' withdrawTo : Addr) (amount : Nat)

theorem requested_withdraw : requested (tr ++ [.withdraw staker' b' withdrawTo amount]) b staker =
    requested tr b staker := by
  simp [requested, Event.requestedIn]

theorem newRequests_withdraw : newRequests (tr ++ [.withdraw staker' b' withdrawTo amount]) b =
      newRequests tr b := by
  simp [newRequests, Event.isNewIn]

theorem paid_withdraw : paid (tr ++ [.withdraw staker' b' withdrawTo amount]) b =
    paid tr b + if b' = b then amount else 0 := by
  simp [paid, Event.paidIn]

theorem payments_withdraw : payments (tr ++ [.withdraw staker' b' withdrawTo amount]) b staker =
    payments tr b staker + if b' = b ∧ staker' = staker then 1 else 0 := by
  simp [payments, Event.paysIn]

theorem stakers_withdraw : stakers (tr ++ [.withdraw staker' b' withdrawTo amount]) b =
      stakers tr b := named_concat ..

theorem withdrawn_withdraw : withdrawn (tr ++ [.withdraw staker' b' withdrawTo amount]) b =
    if b' = b then insert staker' (withdrawn tr b) else withdrawn tr b := by
  rw [withdrawn, named_concat, Event.withdrawerIn]
  split <;> rfl

end Withdraw

variable {b : BatchId}

theorem requested_eq_zero (h : staker ∉ stakers tr b) : requested tr b staker = 0 := by
  apply List.sum_eq_zero
  intro n hn
  obtain ⟨e, he, rfl⟩ := List.mem_map.mp hn
  cases e with
  | unbond staker' batch amount isNew =>
    rw [Event.requestedIn, if_neg]
    rintro ⟨rfl, rfl⟩
    exact h (mem_named.mpr ⟨_, he, if_pos rfl⟩)
  | _ => rfl

theorem sum_requested_unbond (tr : List Event) (b : BatchId) (staker : Addr) (amount : Nat) (isNew : Bool) :
    ∑ st ∈ insert staker (stakers tr b), requested (tr ++ [.unbond staker b amount isNew]) b st =
      ∑ st ∈ stakers tr b, requested tr b st + amount := by
  simp only [requested_unbond, true_and, sum_add_distrib, sum_ite_eq, mem_insert_self, if_true]
  rw [sum_insert_of_eq_zero_if_notMem requested_eq_zero]

theorem paid_eq_zero (h : withdrawn tr b = ∅) : paid tr b = 0 := by
  apply List.sum_eq_zero
  intro n hn
  obtain ⟨e, he, rfl⟩ := List.mem_map.mp hn
  cases e with
  | withdraw staker batch withdrawTo amount =>
    rw [Event.paidIn, if_neg]
    rintro rfl
    have hmem : staker ∈ withdrawn tr batch := mem_named.mpr ⟨_, he, if_pos rfl⟩
    rw [h] at hmem
    exact absurd hmem (notMem_empty staker)
  | _ => rfl

/-! ## The stores and the events -/

/-- The total and the number of requests of a batch, from the store it is in, as `query_batch` finds it. -/
def Hub.batchOf (s : Hub) (b : BatchId) : Option (Nat × Nat) :=
  match s.receivedBatches b, s.submittedBatches b with
  | some batch, _ => some (batch.totalLstToBurn, batch.unstakeRequestsCount)
  | none, some batch => some batch.fixed
  | none, none =>
    if s.currentPendingBatch.batchId = b then
      some (s.currentPendingBatch.totalLstToBurn, s.currentPendingBatch.unstakeRequestsCount)
    else none

/-- The accounts with a request in a batch that is not paid yet. -/
def unpaid (tr : List Event) (b : BatchId) : Finset Addr := stakers tr b \ withdrawn tr b

/-- **The stores agree with the events.** -/
structure Books (stakerHash : Addr → H256) (s : Hub) (tr : List Event) : Prop where
  submitted_lt : ∀ b, s.submittedBatches b ≠ none → b < s.currentPendingBatch.batchId
  received_lt : ∀ b, s.receivedBatches b ≠ none → b < s.currentPendingBatch.batchId
  apart : ∀ b, s.submittedBatches b ≠ none → s.receivedBatches b = none
  later : ∀ b, s.currentPendingBatch.batchId < b → stakers tr b = ∅
  fresh : ∀ b, s.currentPendingBatch.batchId < b → newRequests tr b = 0
  stored : ∀ b staker, s.unstakeRequests ⟨b, stakerHash staker⟩ =
    if staker ∈ unpaid tr b then some ⟨b, staker, requested tr b staker⟩ else none
  foreign : ∀ b h, (∀ staker, h ≠ stakerHash staker) → s.unstakeRequests ⟨b, h⟩ = none
  same : s.unstakeRequestsByStakerHash = s.unstakeRequests
  total : ∀ b total count, s.batchOf b = some (total, count) → ∑ st ∈ stakers tr b, requested tr b st = total
  count : ∀ b total count, s.batchOf b = some (total, count) → newRequests tr b = count
  ready : ∀ b, s.receivedBatches b = none → withdrawn tr b = ∅
  asked : ∀ b, withdrawn tr b ⊆ stakers tr b
  payment : ∀ staker b withdrawTo amount, .withdraw staker b withdrawTo amount ∈ tr →
    ∃ batch, s.receivedBatches b = some batch ∧ amount = batch.payout (requested tr b staker)
  once : ∀ b staker, payments tr b staker = if staker ∈ withdrawn tr b then 1 else 0
  paid : ∀ b batch, s.receivedBatches b = some batch →
    paid tr b = ∑ st ∈ withdrawn tr b, batch.payout (requested tr b st)

variable {stakerHash : Addr → H256} {env : Env} {s s' : Hub} {tr : List Event} {info : MessageInfo}
    {r : Response}

/-! ### The pending batch -/

theorem Books.pending_unreceived (h : Books stakerHash s tr) :
    s.receivedBatches s.currentPendingBatch.batchId = none := by
  by_contra hne
  exact absurd (h.received_lt _ hne) (Nat.lt_irrefl _)

theorem Books.pending_unsubmitted (h : Books stakerHash s tr) :
    s.submittedBatches s.currentPendingBatch.batchId = none := by
  by_contra hne
  exact absurd (h.submitted_lt _ hne) (Nat.lt_irrefl _)

theorem Books.pending_batchOf (h : Books stakerHash s tr) : s.batchOf s.currentPendingBatch.batchId =
    some (s.currentPendingBatch.totalLstToBurn, s.currentPendingBatch.unstakeRequestsCount) := by
  rw [Hub.batchOf, h.pending_unreceived, h.pending_unsubmitted]
  exact if_pos rfl

theorem Books.pending_unpaid (h : Books stakerHash s tr) :
    unpaid tr s.currentPendingBatch.batchId = stakers tr s.currentPendingBatch.batchId := by
  rw [unpaid, h.ready _ h.pending_unreceived, sdiff_empty]

theorem books_init {env : Env} {msg : InitMsg} (h : Hub.init env msg = .ok s) : Books stakerHash s [] := by
  simp only [Hub.init, bind_eq_ok, pure_eq_ok] at h
  obtain ⟨-, -, -, -, -, -, rfl⟩ := h
  have hzero : ∀ b total count, (if BatchId.one = b then some (0, 0) else none) = some (total, count) →
      total = 0 ∧ count = 0 := by
    intro b total count hb
    obtain ⟨-, h⟩ := Option.ite_none_right_eq_some.mp hb
    cases h
    exact ⟨rfl, rfl⟩
  exact {
    submitted_lt := fun _ hb => absurd rfl hb
    received_lt := fun _ hb => absurd rfl hb
    apart := fun _ _ => rfl
    later := fun _ _ => rfl
    fresh := fun _ _ => rfl
    stored := fun _ _ => rfl
    foreign := fun _ _ _ => rfl
    same := rfl
    total := fun b total count hb => (hzero b total count hb).1.symm
    count := fun b total count hb => (hzero b total count hb).2.symm
    ready := fun _ _ => rfl
    asked := fun _ => empty_subset _
    payment := fun _ _ _ _ hmem => absurd hmem List.not_mem_nil
    once := fun _ _ => rfl
    paid := fun _ _ hb => by cases hb }

/-! ### Batches move, requests stay -/

section

variable (h : Books stakerHash s tr)

include h

theorem Books.moved (hquiet : ∀ e ∈ evs, e.ofRequest = false)
    (hrequests : s'.unstakeRequests = s.unstakeRequests)
    (hsame : s'.unstakeRequestsByStakerHash = s.unstakeRequestsByStakerHash)
    (hpending : s.currentPendingBatch.batchId ≤ s'.currentPendingBatch.batchId)
    (hsubmitted : ∀ b, s'.submittedBatches b ≠ none →
      b < s'.currentPendingBatch.batchId ∧ s'.receivedBatches b = none)
    (hlt : ∀ b, s'.receivedBatches b ≠ none → b < s'.currentPendingBatch.batchId)
    (hreceived : ∀ b batch, s.receivedBatches b = some batch → s'.receivedBatches b = some batch)
    (hbatch : ∀ b total count, s'.batchOf b = some (total, count) →
      s.batchOf b = some (total, count) ∨ total = 0 ∧ count = 0 ∧ s.currentPendingBatch.batchId < b) :
    Books stakerHash s' (tr ++ evs) where
  submitted_lt b hb := (hsubmitted b hb).1
  received_lt := hlt
  apart b hb := (hsubmitted b hb).2
  later b hb := by
    rw [stakers_quiet hquiet]
    exact h.later b (Nat.lt_of_le_of_lt hpending hb)
  fresh b hb := by
    rw [newRequests_quiet hquiet]
    exact h.fresh b (Nat.lt_of_le_of_lt hpending hb)
  stored b staker := by
    rw [hrequests, h.stored, unpaid, unpaid, stakers_quiet hquiet, withdrawn_quiet hquiet,
      requested_quiet hquiet]
  foreign b hash hforeign := by
    rw [hrequests]
    exact h.foreign b hash hforeign
  same := by rw [hsame, hrequests, h.same]
  total b total count hb := by
    rw [stakers_quiet hquiet]
    simp only [requested_quiet hquiet]
    rcases hbatch b total count hb with hold | ⟨rfl, rfl, hnew⟩
    · exact h.total b total count hold
    · rw [h.later b hnew, sum_empty]
  count b total count hb := by
    rw [newRequests_quiet hquiet]
    rcases hbatch b total count hb with hold | ⟨rfl, rfl, hnew⟩
    · exact h.count b total count hold
    · exact h.fresh b hnew
  ready b hb := by
    rw [withdrawn_quiet hquiet]
    apply h.ready
    by_contra hne
    obtain ⟨batch, hbatch⟩ := Option.ne_none_iff_exists'.mp hne
    rw [hreceived b batch hbatch] at hb
    cases hb
  asked b := by
    rw [withdrawn_quiet hquiet, stakers_quiet hquiet]
    exact h.asked b
  payment staker b withdrawTo amount hmem := by
    rcases List.mem_append.mp hmem with hmem | hmem
    · obtain ⟨batch, hbatch, hamount⟩ := h.payment staker b withdrawTo amount hmem
      exact ⟨batch, hreceived b batch hbatch, by rw [requested_quiet hquiet, hamount]⟩
    · exact absurd (hquiet _ hmem) (by simp [Event.ofRequest])
  once b staker := by
    rw [payments_quiet hquiet, withdrawn_quiet hquiet]
    exact h.once b staker
  paid b batch hb := by
    rw [paid_quiet hquiet, withdrawn_quiet hquiet]
    simp only [requested_quiet hquiet]
    cases hold : s.receivedBatches b with
    | some old =>
      obtain rfl : old = batch := by
        rw [hreceived b old hold] at hb
        exact Option.some.inj hb
      exact h.paid b old hold
    | none =>
      rw [paid_eq_zero (h.ready b hold), h.ready b hold, sum_empty]

theorem Books.still (hsame : s.SameBatches s') (hquiet : ∀ e ∈ evs, e.ofRequest = false) :
    Books stakerHash s' (tr ++ evs) := by
  refine h.moved hquiet hsame.requests hsame.requestsByHash ?_ ?_ ?_ ?_ ?_
  · rw [hsame.pending]
  · rw [hsame.submitted, hsame.pending, hsame.received]
    exact fun b hb => ⟨h.submitted_lt b hb, h.apart b hb⟩
  · rw [hsame.received, hsame.pending]
    exact h.received_lt
  · rw [hsame.received]
    exact fun _ _ hb => hb
  · intro b total count hb
    rw [Hub.batchOf, hsame.received, hsame.submitted, hsame.pending] at hb
    exact .inl hb

theorem Books.slash {submitted : BatchId → Option SubmittedBatch}
    (hfixed : ∀ b, (submitted b).map SubmittedBatch.fixed = (s.submittedBatches b).map SubmittedBatch.fixed)
    (hquiet : ∀ e ∈ evs, e.ofRequest = false) :
    Books stakerHash { s with submittedBatches := submitted } (tr ++ evs) := by
  have hnone : ∀ b, submitted b ≠ none → s.submittedBatches b ≠ none := by
    intro b hb hs
    have hmap := hfixed b
    rw [hs, Option.map_none, Option.map_eq_none_iff] at hmap
    exact hb hmap
  refine h.moved hquiet rfl rfl (Nat.le_refl _) ?_ h.received_lt (fun _ _ hb => hb) ?_
  · exact fun b hb => ⟨h.submitted_lt b (hnone b hb), h.apart b (hnone b hb)⟩
  · intro b total count hb
    refine .inl ?_
    have hmap := hfixed b
    unfold Hub.batchOf at hb ⊢
    cases hr : s.receivedBatches b with
    | some batch => simpa [hr] using hb
    | none =>
      cases hs : s.submittedBatches b with
      | some batch =>
        obtain ⟨batch', hb', heq⟩ := Option.map_eq_some_iff.mp (hmap.trans (by rw [hs, Option.map_some]))
        simp only [hr, hb'] at hb
        rw [← hb, heq]
      | none =>
        rw [hs, Option.map_none, Option.map_eq_none_iff] at hmap
        simpa [hr, hmap] using hb

theorem Books.submit (unbondAmount : Nat) (hquiet : ∀ e ∈ evs, e.ofRequest = false) :
    Books stakerHash (s.afterSubmit env unbondAmount) (tr ++ evs) := by
  refine h.moved hquiet rfl rfl (Nat.le_succ _) ?_ ?_ (fun _ _ hb => hb) ?_
  · intro b hb
    by_cases hp : b = s.currentPendingBatch.batchId
    · subst hp
      exact ⟨Nat.lt_succ_self _, h.pending_unreceived⟩
    · have hold : s.submittedBatches b ≠ none := by rwa [afterSubmit_submitted, update_of_ne hp] at hb
      exact ⟨Nat.lt_succ_of_lt (h.submitted_lt b hold), h.apart b hold⟩
  · exact fun b hb => Nat.lt_succ_of_lt (h.received_lt b hb)
  · intro b total count hb
    by_cases hp : b = s.currentPendingBatch.batchId
    · -- the batch that was pending is now submitted, with the same total and count
      subst hp
      rw [h.pending_batchOf]
      simpa [Hub.batchOf, h.pending_unreceived, Hub.submission, SubmittedBatch.fixed] using hb
    · rw [Hub.batchOf, afterSubmit_received, afterSubmit_submitted, update_of_ne hp] at hb
      unfold Hub.batchOf
      split at hb
      · exact .inl hb
      · exact .inl hb
      · obtain ⟨hnext, hzero⟩ := Option.ite_none_right_eq_some.mp hb
        cases hzero
        exact .inr ⟨rfl, rfl, by rw [← hnext]; exact Nat.lt_succ_self _⟩

theorem Books.receive {b₀ : BatchId} {batch : SubmittedBatch}
    (hsub : s.submittedBatches b₀ = some batch) (hquiet : ∀ e ∈ evs, e.ofRequest = false) :
    Books stakerHash (s.afterReceive b₀ batch) (tr ++ evs) := by
  have hne : s.submittedBatches b₀ ≠ none := by rw [hsub]; exact Option.some_ne_none _
  refine h.moved hquiet rfl rfl (Nat.le_refl _) ?_ ?_ ?_ ?_
  · intro b hb
    by_cases hp : b = b₀
    · subst hp
      exact absurd (update_self ..) hb
    · rw [afterReceive_submitted, update_of_ne hp] at hb
      rw [afterReceive_received, update_of_ne hp]
      exact ⟨h.submitted_lt b hb, h.apart b hb⟩
  · intro b hb
    by_cases hp : b = b₀
    · subst hp
      exact h.submitted_lt b hne
    · rw [afterReceive_received, update_of_ne hp] at hb
      exact h.received_lt b hb
  · intro b old hb
    have hp : b ≠ b₀ := by
      rintro rfl
      rw [h.apart b hne] at hb
      cases hb
    rw [afterReceive_received, update_of_ne hp]
    exact hb
  · intro b total count hb
    refine .inl ?_
    by_cases hp : b = b₀
    · subst hp
      simpa [Hub.batchOf, h.apart b hne, hsub, SubmittedBatch.fixed] using hb
    · rw [Hub.batchOf, afterReceive_received, afterReceive_submitted, update_of_ne hp, update_of_ne hp] at hb
      exact hb

end

/-! ### Requests and withdrawals -/

variable (hinj : Injective stakerHash)
include hinj

theorem key_ne {b' : BatchId} {staker' : Addr} (h : ¬ (b' = b ∧ staker' = staker)) :
    (⟨b, stakerHash staker⟩ : UnstakeRequestKey) ≠ ⟨b', stakerHash staker'⟩ := by
  intro heq
  injection heq with hb hs
  exact h ⟨hb.symm, (hinj hs).symm⟩

theorem Books.unbond (h : Books stakerHash s tr) {sender : Addr} {amount : Nat} {request : UnstakeRequest}
    (hupsert : upsertRequest s.currentPendingBatch.batchId sender amount
      (s.unstakeRequests (s.pendingKey stakerHash sender)) = .ok request) :
    Books stakerHash (s.afterUnbond (s.pendingKey stakerHash sender) request amount)
      (tr ++ [.unbond sender s.currentPendingBatch.batchId amount
        (s.unstakeRequests (s.pendingKey stakerHash sender)).isNone]) := by
  set b₀ := s.currentPendingBatch.batchId with hb₀
  have hkeyEq : s.pendingKey stakerHash sender = ⟨b₀, stakerHash sender⟩ := rfl
  have hstored : s.unstakeRequests (s.pendingKey stakerHash sender) =
      if sender ∈ stakers tr b₀ then some ⟨b₀, sender, requested tr b₀ sender⟩ else none := by
    rw [← h.pending_unpaid]
    exact h.stored b₀ sender
  have hrequest : request = ⟨b₀, sender, requested tr b₀ sender + amount⟩ := by
    rw [(upsertRequest_eq_ok.mp hupsert).1, hstored]
    split
    · rfl
    · rw [requested_eq_zero ‹_›]
      rfl
  have hready : withdrawn tr b₀ = ∅ := h.ready b₀ h.pending_unreceived
  -- which of the batches a total is about
  have hbatch : ∀ b, b ≠ b₀ →
      (s.afterUnbond (s.pendingKey stakerHash sender) request amount).batchOf b = s.batchOf b := by
    intro b hb
    unfold Hub.batchOf
    rw [afterUnbond_received, afterUnbond_submitted, afterUnbond_batchId, if_neg fun heq => hb heq.symm,
      if_neg fun heq => hb heq.symm]
  have hpending : (s.afterUnbond (s.pendingKey stakerHash sender) request amount).batchOf b₀ =
      some (s.currentPendingBatch.totalLstToBurn + amount, s.currentPendingBatch.unstakeRequestsCount +
        if (s.unstakeRequests (s.pendingKey stakerHash sender)).isNone then 1 else 0) := by
    unfold Hub.batchOf
    rw [afterUnbond_received, afterUnbond_submitted, afterUnbond_batchId, h.pending_unreceived,
      h.pending_unsubmitted, if_pos hb₀.symm]
    rfl
  constructor
  case submitted_lt => exact h.submitted_lt
  case received_lt => exact h.received_lt
  case apart => exact h.apart
  case later =>
    intro b hb
    rw [afterUnbond_batchId] at hb
    rw [stakers_unbond, if_neg (Nat.ne_of_lt hb)]
    exact h.later b hb
  case fresh =>
    intro b hb
    rw [afterUnbond_batchId] at hb
    rw [newRequests_unbond, if_neg fun heq => Nat.ne_of_lt hb heq.1]
    exact h.fresh b hb
  case stored =>
    intro b staker
    rw [afterUnbond_requests, hkeyEq, unpaid, stakers_unbond, withdrawn_unbond, requested_unbond]
    by_cases hkey : b₀ = b ∧ sender = staker
    · obtain ⟨rfl, rfl⟩ := hkey
      rw [if_pos rfl, hready, sdiff_empty, if_pos (mem_insert_self ..), if_pos ⟨rfl, rfl⟩, ← hrequest]
      exact update_self ..
    · rw [update_of_ne (key_ne hinj hkey), h.stored, if_neg hkey, Nat.add_zero, unpaid]
      congr 1
      split
      · rename_i hb
        have hstaker : staker ≠ sender := fun heq => hkey ⟨hb, heq.symm⟩
        simp [hstaker]
      · rfl
  case foreign =>
    intro b hash hforeign
    rw [afterUnbond_requests, update_of_ne]
    · exact h.foreign b hash hforeign
    · intro heq
      injection heq with _ hhash
      exact hforeign sender hhash
  case same => rw [afterUnbond_requestsByHash, afterUnbond_requests, h.same]
  case total =>
    intro b total count hb
    by_cases hp : b = b₀
    · subst hp
      rw [hpending] at hb
      injection hb with hb
      injection hb with htotal
      rw [stakers_unbond, if_pos rfl, sum_requested_unbond, h.total b₀ _ _ h.pending_batchOf, htotal]
    · rw [hbatch b hp] at hb
      rw [stakers_unbond, if_neg fun heq => hp heq.symm, ← h.total b total count hb]
      apply sum_congr rfl
      intro st _
      rw [requested_unbond, if_neg fun heq => hp heq.1.symm, Nat.add_zero]
  case count =>
    intro b total count hb
    by_cases hp : b = b₀
    · subst hp
      rw [hpending] at hb
      injection hb with hb
      injection hb with _ hcount
      rw [newRequests_unbond, h.count b₀ _ _ h.pending_batchOf, ← hcount]
      simp only [true_and]
    · rw [hbatch b hp] at hb
      rw [newRequests_unbond, if_neg fun heq => hp heq.1.symm]
      exact h.count b total count hb
  case ready =>
    intro b hb
    rw [withdrawn_unbond]
    exact h.ready b hb
  case asked =>
    intro b
    rw [withdrawn_unbond, stakers_unbond]
    split
    · exact (h.asked b).trans (subset_insert ..)
    · exact h.asked b
  case payment =>
    intro staker b withdrawTo x hmem
    simp only [List.mem_append, List.mem_singleton, reduceCtorEq, or_false] at hmem
    obtain ⟨batch, hrecv, hx⟩ := h.payment staker b withdrawTo x hmem
    refine ⟨batch, hrecv, ?_⟩
    rw [requested_unbond, if_neg, Nat.add_zero, hx]
    rintro ⟨rfl, -⟩
    rw [h.pending_unreceived] at hrecv
    cases hrecv
  case once =>
    intro b staker
    rw [payments_unbond, withdrawn_unbond]
    exact h.once b staker
  case paid =>
    intro b batch hrecv
    rw [paid_unbond, withdrawn_unbond, h.paid b batch hrecv]
    apply sum_congr rfl
    intro st _
    rw [requested_unbond, if_neg, Nat.add_zero]
    rintro ⟨rfl, -⟩
    rw [afterUnbond_received, h.pending_unreceived] at hrecv
    cases hrecv

theorem Books.withdraw (h : Books stakerHash s tr) {sender withdrawTo : Addr} {b₁ : BatchId}
    {batch : ReceivedBatch}
    {request : UnstakeRequest} (hreceived : s.receivedBatches b₁ = some batch)
    (hrequest : s.unstakeRequests ⟨b₁, stakerHash sender⟩ = some request) :
    Books stakerHash (s.afterWithdraw ⟨b₁, stakerHash sender⟩)
      (tr ++ [.withdraw sender b₁ withdrawTo (batch.payout request.amount)]) := by
  have hstored := h.stored b₁ sender
  rw [hrequest] at hstored
  obtain ⟨hmem, heq⟩ := Option.some_eq_ite_none_right.mp hstored
  cases heq
  have hopen : sender ∉ withdrawn tr b₁ := (Finset.mem_sdiff.mp hmem).2
  constructor
  case submitted_lt => exact h.submitted_lt
  case received_lt => exact h.received_lt
  case apart => exact h.apart
  case later =>
    intro b hb
    rw [stakers_withdraw]
    exact h.later b hb
  case fresh =>
    intro b hb
    rw [newRequests_withdraw]
    exact h.fresh b hb
  case stored =>
    intro b staker
    rw [afterWithdraw_requests, unpaid, stakers_withdraw, withdrawn_withdraw, requested_withdraw]
    by_cases hkey : b₁ = b ∧ sender = staker
    · obtain ⟨rfl, rfl⟩ := hkey
      rw [if_pos rfl, if_neg (by simp)]
      exact update_self ..
    · rw [update_of_ne (key_ne hinj hkey), h.stored, unpaid]
      congr 1
      split
      · rename_i hb
        have hstaker : staker ≠ sender := fun heq => hkey ⟨hb, heq.symm⟩
        simp [hstaker]
      · rfl
  case foreign =>
    intro b hash hforeign
    rw [afterWithdraw_requests, update_of_ne]
    · exact h.foreign b hash hforeign
    · intro heq
      injection heq with _ hhash
      exact hforeign sender hhash
  case same => rw [afterWithdraw_requestsByHash, afterWithdraw_requests, h.same]
  case total =>
    intro b total count hb
    simp only [stakers_withdraw, requested_withdraw]
    exact h.total b total count hb
  case count =>
    intro b total count hb
    rw [newRequests_withdraw]
    exact h.count b total count hb
  case ready =>
    intro b hb
    rw [withdrawn_withdraw, if_neg]
    · exact h.ready b hb
    · rintro rfl
      rw [afterWithdraw_received, hreceived] at hb
      cases hb
  case asked =>
    intro b
    rw [withdrawn_withdraw, stakers_withdraw]
    split
    · rename_i hb
      subst hb
      exact insert_subset (Finset.mem_sdiff.mp hmem).1 (h.asked b₁)
    · exact h.asked b
  case payment =>
    intro staker b withdrawTo' x hevent
    rw [requested_withdraw]
    rcases List.mem_append.mp hevent with hold | hnew
    · exact h.payment staker b withdrawTo' x hold
    · cases List.mem_singleton.mp hnew
      exact ⟨batch, hreceived, rfl⟩
  case once =>
    intro b staker
    rw [payments_withdraw, withdrawn_withdraw, h.once]
    by_cases hkey : b₁ = b ∧ sender = staker
    · obtain ⟨rfl, rfl⟩ := hkey
      rw [if_neg hopen, if_pos ⟨rfl, rfl⟩, if_pos rfl, if_pos (mem_insert_self ..)]
    · rw [if_neg hkey, Nat.add_zero]
      congr 1
      split
      · rename_i hb
        have hstaker : staker ≠ sender := fun heq => hkey ⟨hb, heq.symm⟩
        simp [hstaker]
      · rfl
  case paid =>
    intro b batch' hb
    simp only [requested_withdraw]
    rw [paid_withdraw, withdrawn_withdraw, h.paid b batch' hb]
    split
    · rename_i heq
      subst heq
      obtain rfl : batch = batch' := Option.some.inj (hreceived.symm.trans hb)
      rw [sum_insert hopen, Nat.add_comm]
    · rw [Nat.add_zero]

theorem books_effect (h : Books stakerHash s tr) (heffect : Effect stakerHash env s info r) :
    Books stakerHash r.hub (tr ++ r.events) := by
  cases heffect with
  | still same flow quiet => exact h.still same quiet
  | unbond amount request upsert hub flow events =>
    rw [hub, events]
    exact h.unbond hinj upsert
  | submit unbondAmount hub flow quiet =>
    rw [hub]
    exact h.submit unbondAmount quiet
  | receive batchId batch submitted funds hub flow quiet =>
    rw [hub]
    exact h.receive submitted quiet
  | withdraw batchId withdrawTo batch request received stored positive hub flow events =>
    rw [hub, events]
    exact h.withdraw hinj received stored
  | slash submitted hub fixed flow quiet =>
    rw [hub]
    exact h.slash fixed quiet

end UnionVoyager.Lst
