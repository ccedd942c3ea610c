import UnionVoyager.Lst.Requests
import UnionVoyager.Lib.Escrow
import UnionVoyager.Lib.Rounding

/-!
# Withdrawals are covered and fair

What the hub owes for a received batch is what it received less what it paid.  Its balance covers what it
owes and the coins of the messages still under way, so every withdrawal can be paid.
-/

namespace UnionVoyager.Lst

open Lib Function Machine

variable {stakerHash : Addr → H256} {self : Addr} {s : Hub} {tr : List Event}
  {batch : ReceivedBatch}

/-! ## What a batch pays -/

/-- What a request of `amount` is worth in a batch, once it is received. -/
def Hub.entitlement (s : Hub) (b : BatchId) (amount : Nat) : Nat :=
  (s.receivedBatches b).elim 0 fun batch => batch.payout amount

def owed (s : Hub) (tr : List Event) (b : BatchId) : Nat :=
  (s.receivedBatches b).elim 0 fun batch => batch.receivedNativeUnstaked - paid tr b

theorem Books.requested_total (h : Books stakerHash s tr) {b : BatchId}
    (hb : s.receivedBatches b = some batch) :
      ∑ st ∈ stakers tr b, requested tr b st = batch.totalLstToBurn := by
  apply h.total b _ batch.unstakeRequestsCount
  rw [Hub.batchOf, hb]

theorem Books.worth_le (h : Books stakerHash s tr) {b : BatchId}
    (hb : s.receivedBatches b = some batch) :
    ∑ st ∈ unpaid tr b, batch.payout (requested tr b st) + Lst.paid tr b ≤ batch.receivedNativeUnstaked := by
  rw [h.paid b batch hb, unpaid, Finset.sum_sdiff (h.asked b)]
  exact sum_parts_le _ _ _ _ (Nat.le_of_eq (h.requested_total hb))

theorem Books.unpaid_le_owed (h : Books stakerHash s tr) (b : BatchId) :
    ∑ st ∈ unpaid tr b, s.entitlement b (requested tr b st) ≤ owed s tr b := by
  unfold owed Hub.entitlement
  cases hb : s.receivedBatches b with
  | none => simp
  | some batch =>
    have hworth := h.worth_le hb
    simp only [Option.elim_some]
    omega

/-! ## The balance -/

/-- The balance covers the coins under way and what the batches are owed. -/
structure Covered (a : Account) (tr : List Event) : Prop where
  outbox : outflow a.denom a.outbox ≤ a.balance
  batches : Backed (fun _ _ => True) (owed a.hub tr) (fun _ : Unit => a.balance - outflow a.denom a.outbox)

def Account.after (a : Account) (info : MessageInfo) (r : Response) : Account :=
  ⟨r.hub, a.balance + amountOf a.denom info.funds, r.messages ++ a.outbox⟩

section Call

variable {a : Account} {now : Nat} {info : MessageInfo} {r : Response}

theorem Effect.denom (h : Effect stakerHash ⟨now, self⟩ a.hub info r) : (a.after info r).denom = a.denom := by
  cases h with
  | still same flow quiet => exact same.denom
  | unbond amount request upsert hub flow events => rw [Account.denom, Account.after, hub]; rfl
  | submit unbondAmount hub flow quiet => rw [Account.denom, Account.after, hub]; rfl
  | receive batchId batch submitted funds hub flow quiet => rw [Account.denom, Account.after, hub]; rfl
  | withdraw batchId withdrawTo batch request received stored positive hub flow events =>
    rw [Account.denom, Account.after, hub]; rfl
  | slash submitted hub fixed flow quiet => rw [Account.denom, Account.after, hub]; rfl

theorem after_outflow (hdenom : (a.after info r).denom = a.denom) :
    outflow (a.after info r).denom (a.after info r).outbox = outflow a.denom r.messages +
      outflow a.denom a.outbox := by
  rw [hdenom]
  exact outflow_append ..

@[simp] theorem after_balance : (a.after info r).balance = a.balance + amountOf a.denom info.funds := rfl

theorem Covered.keep {tr' : List Event} (h : Covered a tr) (hdenom : (a.after info r).denom = a.denom)
    (howed : ∀ b, owed r.hub tr' b = owed a.hub tr b)
    (hflow : outflow a.denom r.messages ≤ amountOf a.denom info.funds) : Covered (a.after info r) tr' := by
  have hout := h.outbox
  constructor
  · rw [after_outflow hdenom, after_balance]
    omega
  · refine h.batches.mono (fun b => Nat.le_of_eq (howed b)) ?_
    intro _
    rw [after_outflow hdenom, after_balance]
    omega

theorem Covered.receive (hbooks : Books stakerHash a.hub tr) (h : Covered a tr)
    (hdenom : (a.after info r).denom = a.denom) {batchId : BatchId} {batch : SubmittedBatch}
    (hsubmitted : a.hub.submittedBatches batchId = some batch)
    (hfunds : amountOf a.denom info.funds = batch.expectedNativeUnstaked)
    (hhub : r.hub = a.hub.afterReceive batchId batch) (hflow : outflow a.denom r.messages = 0)
    (hquiet : ∀ e ∈ r.events, e.ofRequest = false) : Covered (a.after info r) (tr ++ r.events) := by
  have hnone : a.hub.receivedBatches batchId = none :=
    hbooks.apart batchId (by rw [hsubmitted]; exact Option.some_ne_none _)
  have hout := h.outbox
  constructor
  · rw [after_outflow hdenom, after_balance]
    omega
  · rw [after_outflow hdenom, after_balance, hflow, hfunds]
    have hshift : Shift batchId () 0 batch.expectedNativeUnstaked (owed a.hub tr)
        (fun _ => a.balance - outflow a.denom a.outbox) (owed r.hub (tr ++ r.events))
        (fun _ => a.balance + batch.expectedNativeUnstaked - (0 + outflow a.denom a.outbox)) := by
      refine ⟨?_, ?_, by omega, fun _ hne => absurd rfl hne⟩
      · rw [owed, owed, hnone, hhub, afterReceive_received, update_self, paid_quiet hquiet,
          paid_eq_zero (hbooks.ready batchId hnone)]
        simp
      · intro b hb
        rw [owed, owed, hhub, afterReceive_received, update_of_ne hb, paid_quiet hquiet]
    exact h.batches.shift (fun _ _ _ _ _ => rfl) trivial hshift

theorem Covered.withdraw (hbooks' : Books stakerHash r.hub (tr ++ r.events)) (h : Covered a tr)
    (hdenom : (a.after info r).denom = a.denom) {batchId : BatchId} {sender withdrawTo : Addr}
    {key : UnstakeRequestKey} {payout : Nat}
    (hreceived : a.hub.receivedBatches batchId = some batch)
    (hhub : r.hub = a.hub.afterWithdraw key) (hflow : outflow a.denom r.messages = payout)
    (hevents : r.events = [.withdraw sender batchId withdrawTo payout]) :
    Covered (a.after info r) (tr ++ r.events) := by
  have hout := h.outbox
  have hreceived' : r.hub.receivedBatches batchId = some batch :=
    by rw [hhub, afterWithdraw_received, hreceived]
  -- after the payment the batch is still not overdrawn
  have hworth := hbooks'.worth_le hreceived'
  rw [hevents, paid_withdraw, if_pos rfl] at hworth
  have howed : owed a.hub tr batchId = batch.receivedNativeUnstaked - paid tr batchId := by
    rw [owed, hreceived, Option.elim_some]
  have hheld : owed a.hub tr batchId ≤ a.balance - outflow a.denom a.outbox := h.batches.le (t := ()) trivial
  have hshift : Shift batchId () payout 0 (owed a.hub tr) (fun _ => a.balance - outflow a.denom a.outbox)
      (owed r.hub (tr ++ r.events)) (fun _ => a.balance - outflow a.denom a.outbox - payout) := by
    refine ⟨?_, ?_, by omega, fun _ hne => absurd rfl hne⟩
    · rw [howed, owed, hreceived', Option.elim_some, hevents, paid_withdraw, if_pos rfl]
      omega
    · intro b hb
      rw [owed, owed, hhub, afterWithdraw_received, hevents, paid_withdraw, if_neg fun heq =>
        hb heq.symm, Nat.add_zero]
  have hbacked := h.batches.shift (fun _ _ _ _ _ => rfl) trivial hshift
  constructor
  · rw [after_outflow hdenom, after_balance]
    omega
  · refine hbacked.mono (fun _ => Nat.le_refl _) ?_
    intro _
    rw [after_outflow hdenom, after_balance]
    omega

theorem covered_effect (hinj : Injective stakerHash) (hbooks : Books stakerHash a.hub tr) (h : Covered a tr)
    (heffect : Effect stakerHash ⟨now, self⟩ a.hub info r) : Covered (a.after info r) (tr ++ r.events) := by
  have hbooks' := books_effect hinj hbooks heffect
  have hdenom := heffect.denom
  cases heffect with
  | still same flow quiet =>
    refine h.keep hdenom ?_ flow
    intro b
    rw [owed, owed, paid_quiet quiet, same.received]
  | unbond amount request upsert hub flow events =>
    refine h.keep hdenom ?_ (flow.trans_le (Nat.zero_le _))
    intro b
    rw [owed, owed, events, paid_unbond, hub, afterUnbond_received]
  | submit unbondAmount hub flow quiet =>
    refine h.keep hdenom ?_ (flow.trans_le (Nat.zero_le _))
    intro b
    rw [owed, owed, paid_quiet quiet, hub, afterSubmit_received]
  | slash submitted hub fixed flow quiet =>
    refine h.keep hdenom ?_ (flow.trans_le (Nat.zero_le _))
    intro b
    rw [owed, owed, paid_quiet quiet, hub]
  | receive batchId batch submitted funds hub flow quiet =>
    exact h.receive hbooks hdenom submitted funds hub flow quiet
  | withdraw batchId withdrawTo batch request received stored positive hub flow events =>
    exact h.withdraw hbooks' hdenom received hub flow events

end Call

/-- The books agree and the balance covers what is owed. -/
structure Sound (stakerHash : Addr → H256) (a : Account) (tr : List Event) : Prop where
  books : Books stakerHash a.hub tr
  covered : Covered a tr

theorem sound_init {env : Env} {msg : InitMsg} (h : Hub.init env msg = .ok s) (balance : Nat) :
    Sound stakerHash (.init s balance) [] := by
  have hnone : s.receivedBatches = fun _ => none := by
    simp only [Hub.init, bind_eq_ok, pure_eq_ok] at h
    obtain ⟨-, -, -, -, -, -, rfl⟩ := h
    rfl
  refine ⟨books_init h, Nat.zero_le _, ?_⟩
  have hzero : owed (Account.init s balance).hub [] = fun _ => 0 := by
    funext b
    rw [owed, Account.init, hnone, Option.elim_none]
  rw [hzero]
  exact .empty

theorem sound_step (hinj : Injective stakerHash) {a : Account} (h : Sound stakerHash a tr) (i : Input) :
    Sound stakerHash (a.step stakerHash self i).1 (tr ++ (a.step stakerHash self i).2) := by
  cases i with
  | call now total info msg =>
    rcases call_cases stakerHash self a now total info msg with hcall | ⟨r, hr, hcall⟩
    · rw [Account.step, hcall, List.append_nil]
      exact h
    · rw [Account.step, hcall]
      have heffect := (execute_effect hr).1
      exact ⟨books_effect hinj h.books heffect, covered_effect hinj h.books h.covered heffect⟩
  | deliver =>
    rw [Account.step, List.append_nil]
    refine ⟨by rw [deliver_hub]; exact h.books, ?_⟩
    rcases deliver_cases a with hsame | ⟨m, rest, hbox, hle, hnext⟩
    · rw [hsame]
      exact h.covered
    · have hout := h.covered.outbox
      rw [hbox, outflow_cons] at hout
      rw [hnext]
      constructor
      · show outflow a.denom rest ≤ a.balance - amountOf a.denom m.coins
        omega
      · refine h.covered.batches.mono (fun _ => Nat.le_refl _) ?_
        intro _
        show a.balance - outflow a.denom a.outbox ≤ a.balance - amountOf a.denom m.coins - outflow
          a.denom rest
        rw [hbox, outflow_cons]
        omega
  | deposit amount =>
    rw [Account.step, List.append_nil]
    have hout := h.covered.outbox
    refine ⟨h.books, ?_, h.covered.batches.mono (fun _ => Nat.le_refl _) ?_⟩
    · show outflow a.denom a.outbox ≤ a.balance + amount
      omega
    · intro _
      show a.balance - outflow a.denom a.outbox ≤ a.balance + amount - outflow a.denom a.outbox
      omega

/-- Withdrawals from the hub are covered and fair. -/
structure FairWithdrawals (stakerHash : Addr → H256) (a : Account) (tr : List Event) : Prop where
  /-- What is stored for an account in a batch: all it asked for there, until it withdrew. -/
  stored : ∀ b staker, a.hub.unstakeRequests ⟨b, stakerHash staker⟩ =
    if staker ∈ unpaid tr b then some ⟨b, staker, requested tr b staker⟩ else none
  /-- Nothing else is stored. -/
  foreign : ∀ b h, (∀ staker, h ≠ stakerHash staker) → a.hub.unstakeRequests ⟨b, h⟩ = none
  /-- Both maps hold the same entries. -/
  same : a.hub.unstakeRequestsByStakerHash = a.hub.unstakeRequests
  /-- Requests not withdrawn and requests withdrawn sum to the total of the batch. -/
  total : ∀ b total count, a.hub.batchOf b = some (total, count) →
    ∑ st ∈ unpaid tr b, requested tr b st + ∑ st ∈ withdrawn tr b, requested tr b st = total
  /-- The count of a batch is the number of requests ever created in it. -/
  count : ∀ b total count, a.hub.batchOf b = some (total, count) → newRequests tr b = count
  /-- Every payment is the part of the account in its batch, rounded down, of the batch as it is received. -/
  payment : ∀ staker b withdrawTo amount, .withdraw staker b withdrawTo amount ∈ tr →
    ∃ batch, a.hub.receivedBatches b = some batch ∧
      amount = batch.receivedNativeUnstaked * requested tr b staker / batch.totalLstToBurn
  /-- No account is paid twice for a batch. -/
  once : ∀ b staker, payments tr b staker ≤ 1
  /-- No more is paid for a batch than was received for it. -/
  paid_le : ∀ b batch, a.hub.receivedBatches b = some batch → paid tr b ≤ batch.receivedNativeUnstaked
  /-- The balance covers all unpaid requests of received batches, beyond the coins already under way. -/
  covers : ∀ B : Finset BatchId, ∑ b ∈ B, ∑ st ∈ unpaid tr b, a.hub.entitlement b (requested tr b st) +
    outflow a.denom a.outbox ≤ a.balance

theorem Sound.fair {a : Account} (h : Sound stakerHash a tr) : FairWithdrawals stakerHash a tr where
  stored := h.books.stored
  foreign := h.books.foreign
  same := h.books.same
  total b total count hb := by
    rw [unpaid, Finset.sum_sdiff (h.books.asked b)]
    exact h.books.total b total count hb
  count := h.books.count
  payment := h.books.payment
  once b staker := by
    rw [h.books.once]
    split <;> omega
  paid_le b batch hb := (Nat.le_add_left ..).trans (h.books.worth_le hb)
  covers B := by
    have howed : ∑ b ∈ B, owed a.hub tr b ≤ a.balance - outflow a.denom a.outbox :=
      h.covered.batches () B fun _ _ => trivial
    have hle := Finset.sum_le_sum fun b (_ : b ∈ B) => h.books.unpaid_le_owed b
    have hout := h.covered.outbox
    omega

/-- **Withdrawals are solvent and fair** in every state of every run of the hub, in any surroundings. -/
theorem withdrawals_sound (hinj : Injective stakerHash) {env : Env} {msg : InitMsg}
    (hinit : Hub.init env msg = .ok s) (balance : Nat) (is : List Input) :
    FairWithdrawals stakerHash (run (Account.step stakerHash self) (.init s balance) is)
      (trace (Account.step stakerHash self) (.init s balance) is) := by
  have hsound : Sound stakerHash (run (Account.step stakerHash self) (.init s balance) is)
      (trace (Account.step stakerHash self) (.init s balance) is) :=
    invariant (I := Sound stakerHash) (fun _ _ i h => sound_step hinj h i) (sound_init hinit balance) is
  exact hsound.fair

/-- Two accounts unbond, the batch is submitted and received, and one of them withdraws. -/
def sampleWithdrawal : List Input :=
  [.call 1 [] ⟨"alice", [⟨"au", 100⟩]⟩ (.bond "alice" 0), .deliver, .deliver,
   .call 2 [] ⟨"alice", []⟩ (.unbond 40), .deliver, .call 3 [] ⟨"bob", []⟩ (.unbond 15), .deliver,
   .call 10 [] ⟨"carol", []⟩ .submitBatch, .deliver, .deliver,
   .call 30 [] ⟨"staker", [⟨"au", 55⟩]⟩ (.receiveUnstakedTokens 1),
   .call 31 [] ⟨"alice", []⟩ (.withdraw "alice" 1), .deliver]

theorem withdrawals_sound_sample :
    FairWithdrawals utf8 (run (Account.step utf8 "hub") (.init sampleHub 0) sampleWithdrawal)
      (trace (Account.step utf8 "hub") (.init sampleHub 0) sampleWithdrawal) :=
  withdrawals_sound utf8_injective sampleHub_init 0 sampleWithdrawal

example : (run (Account.step utf8 "hub") (.init sampleHub 0) sampleWithdrawal).balance = 15 := by decide

end UnionVoyager.Lst
