import UnionVoyager.Lib.Machine
import Mathlib.Data.List.Count
import Mathlib.Order.WellFounded

/-!
# The transaction plugins

`voyager/plugins/transaction`: `SubmitTransaction` of `cosmos` and `SubmitMulticall` of `evm`, and
the calls they make when a transaction fails.  A message is taken to be one that `process_msgs` has
an arm for; errors that the engine retries with the same call are left out.
-/

namespace UnionVoyager.Transaction

open Lib Machine List

variable {M : Type} {msgs : List M} {answer : Answer}

/-! ## `cosmos` -/

/-- `process_msgs` gives the encoded length of a message, or rejects it. -/
structure Cosmos (M : Type) where
  encodedLen : M → Option Nat
  maxTxSize : Nat

/-- What the chain answers to a transaction. -/
inductive Answer where
  | success
  | failedAt (msgIdx : Nat)
  | failed

inductive Event (M : Type) where
  | sent (tx : List M)
  /-- By its index, or because it was submitted alone. -/
  | blamed (msg : M)
  | panicked
  deriving DecidableEq

namespace Cosmos

variable (c : Cosmos M)

def accepts (msg : M) : Bool := (c.encodedLen msg).isSome

/-- `approximate_size`. -/
def size (msgs : List M) : Nat := (msgs.map fun msg => (c.encodedLen msg).getD 0).sum

/-- A failed transaction blames the message of the index, or the only one it has. -/
def blame (processed : List M) : Answer → List (Event M)
  | .success => []
  | .failedAt msgIdx => (processed[msgIdx]?).toList.map .blamed
  | .failed => if processed.length = 1 then processed.map .blamed else []

/-- The calls for messages whose transaction failed; none is a panic of `remove`. -/
def resubmit (msgs : List M) : Answer → Option (List (List M))
  | .success => some []
  | .failedAt msgIdx =>
    if msgs.length = 1 then some []
    else if msgIdx < msgs.length then
      let msgs := msgs.eraseIdx msgIdx
      some (if msgs.isEmpty then [] else [msgs])
    else none
  | .failed => if msgs.length = 1 then some [] else some (msgs.map fun msg => [msg])

/-- `do_send_transaction` and what `call` makes of its result. -/
def submitTransaction (msgs : List M) (answer : Answer) : List (List M) × List (Event M) :=
  let processed := msgs.filter c.accepts
  if processed.isEmpty then ([], [])
  else if c.maxTxSize < c.size processed then
    if processed.length = 1 then ([], [])
    else ([processed.take ((processed.length + 1) / 2), processed.drop ((processed.length + 1) / 2)], [])
  else match answer with
    | .success => ([], [.sent processed])
    | answer => match resubmit msgs answer with
      | some calls => (calls, blame processed answer)
      | none => ([], [.panicked])

/-- The calls of a `seq` are made one after the other, each with all that comes of it. -/
def step (pending : List (List M)) (answer : Answer) : List (List M) × List (Event M) :=
  match pending with
  | [] => ([], [])
  | msgs :: rest =>
    let (calls, events) := c.submitTransaction msgs answer
    (calls ++ rest, events)

/-- The index is one of the transaction, and if the message it removes is accepted, so are those before it. -/
def Aligned (pending : List (List M)) (answer : Answer) : Prop :=
  ∀ msgs rest msgIdx, pending = msgs :: rest → answer = .failedAt msgIdx →
    msgIdx < (msgs.filter c.accepts).length ∧
      ∀ msg, msgs[msgIdx]? = some msg → c.accepts msg → ∀ other ∈ msgs.take msgIdx, c.accepts other

end Cosmos

/-- The messages of the transactions that went through, in order. -/
def sent (events : List (Event M)) : List M := events.flatMap fun
  | .sent tx => tx
  | _ => []

theorem sent_blame (processed : List M) (answer : Answer) : sent (Cosmos.blame processed answer) = [] := by
  cases answer with
  | success => rfl
  | failedAt msgIdx =>
    rw [Cosmos.blame]
    cases processed[msgIdx]? <;> rfl
  | failed =>
    rw [Cosmos.blame]
    split_ifs
    · simp [sent]
    · rfl

theorem not_panicked_blame (processed : List M) (answer : Answer) :
    .panicked ∉ Cosmos.blame processed answer := by
  cases answer with
  | success => simp [Cosmos.blame]
  | failedAt msgIdx => simp [Cosmos.blame]
  | failed =>
    rw [Cosmos.blame]
    split_ifs <;> simp

theorem resubmit_isSome {c : Cosmos M} (haligned : c.Aligned [msgs] answer) :
    (Cosmos.resubmit msgs answer).isSome := by
  cases answer with
  | success => rfl
  | failedAt msgIdx =>
    obtain ⟨hidx, -⟩ := haligned msgs [] msgIdx rfl rfl
    have hlt : msgIdx < msgs.length := lt_of_lt_of_le hidx (length_filter_le _ _)
    rw [Cosmos.resubmit, if_pos hlt]
    split_ifs <;> rfl
  | failed =>
    rw [Cosmos.resubmit]
    split_ifs <;> rfl

theorem flatten_halves (msgs : List M) (n : Nat) : [msgs.take n, msgs.drop n].flatten = msgs := by
  rw [flatten_cons, flatten_singleton, take_append_drop]

theorem flatten_singletons (msgs : List M) : (msgs.map fun msg => [msg]).flatten = msgs := by
  simp [← flatMap_def]

section Survivors

variable [DecidableEq M] {c : Cosmos M} {events : List (Event M)} {before after : List M}

/-- Messages that must not be lost: accepted, not too large alone, and not blamed. -/
def Innocent (c : Cosmos M) (events : List (Event M)) (msg : M) : Prop :=
  c.accepts msg ∧ c.size [msg] ≤ c.maxTxSize ∧ .blamed msg ∉ events

/-- What is left of some messages: in order, and every innocent one. -/
structure Keeps (c : Cosmos M) (events : List (Event M)) (before after : List M) : Prop where
  order : after.Sublist before
  count : ∀ msg, Innocent c events msg → after.count msg = before.count msg

theorem Keeps.refl : Keeps c events msgs msgs :=
  ⟨.refl msgs, fun _ _ => rfl⟩

theorem Keeps.of_blamed {msg : M} : Keeps c [.blamed msg] [msg] [] where
  order := nil_sublist _
  count := by
    rintro other ⟨-, -, hblamed⟩
    have hne : msg ≠ other := by
      rintro rfl
      exact hblamed (mem_singleton_self _)
    rw [count_nil, count_singleton, beq_false_of_ne hne]
    rfl

theorem eraseIdx_keeps {msgIdx : Nat} (hlt : msgIdx < msgs.length)
    (hbefore : ∀ msg, msgs[msgIdx]? = some msg → c.accepts msg → ∀ other ∈ msgs.take msgIdx,
      c.accepts other) :
    Keeps c (Cosmos.blame (msgs.filter c.accepts) (.failedAt msgIdx)) (msgs.filter c.accepts)
      ((msgs.eraseIdx msgIdx).filter c.accepts) := by
  refine ⟨(eraseIdx_sublist msgs msgIdx).filter _, ?_⟩
  rintro msg ⟨-, -, hblamed⟩
  have hsplit : msgs = msgs.take msgIdx ++ msgs[msgIdx] :: msgs.drop (msgIdx + 1) := by
    rw [← drop_eq_getElem_cons hlt, take_append_drop]
  rw [eraseIdx_eq_take_drop_succ]
  by_cases haccepts : c.accepts msgs[msgIdx] = true
  · have hfilter : msgs.filter c.accepts
        = msgs.take msgIdx ++ msgs[msgIdx] :: (msgs.drop (msgIdx + 1)).filter c.accepts := by
      conv_lhs => rw [hsplit]
      rw [filter_append, filter_cons_of_pos haccepts,
        List.filter_eq_self.mpr (hbefore _ (getElem?_eq_getElem hlt) haccepts)]
    have hlen : (msgs.take msgIdx).length = msgIdx := length_take_of_le hlt.le
    have hne : msgs[msgIdx] ≠ msg := by
      rintro rfl
      apply hblamed
      rw [Cosmos.blame, hfilter, getElem?_append_right hlen.le, hlen]
      simp
    rw [hfilter, filter_append,
      List.filter_eq_self.mpr (hbefore _ (getElem?_eq_getElem hlt) haccepts), List.count_append,
      List.count_append, count_cons_of_ne hne]
  · conv_rhs => rw [hsplit]
    rw [filter_append, filter_append, filter_cons_of_neg haccepts]

theorem resubmit_keeps {calls : List (List M)} (hne : msgs.filter c.accepts ≠ [])
    (hfailed : answer ≠ .success) (haligned : c.Aligned [msgs] answer)
    (h : Cosmos.resubmit msgs answer = some calls) :
    Keeps c (Cosmos.blame (msgs.filter c.accepts) answer) (msgs.filter c.accepts)
      (calls.flatten.filter c.accepts) := by
  have hsingle : msgs.length = 1 → ∃ msg, msgs = [msg] ∧ msgs.filter c.accepts = [msg] := by
    intro hlen
    obtain ⟨msg, rfl⟩ := List.length_eq_one_iff.mp hlen
    refine ⟨msg, rfl, ?_⟩
    by_cases haccepts : c.accepts msg = true
    · exact filter_cons_of_pos haccepts
    · exact absurd (filter_cons_of_neg haccepts) hne
  cases answer with
  | success => exact absurd rfl hfailed
  | failedAt msgIdx =>
    obtain ⟨hidx, hbefore⟩ := haligned msgs [] msgIdx rfl rfl
    have hlt : msgIdx < msgs.length := lt_of_lt_of_le hidx (length_filter_le _ _)
    rw [Cosmos.resubmit, if_pos hlt] at h
    split_ifs at h with hlen <;> cases h
    · obtain ⟨msg, rfl, hfilter⟩ := hsingle hlen
      obtain rfl : msgIdx = 0 := by
        rw [length_singleton] at hlt
        omega
      rw [hfilter]
      exact Keeps.of_blamed
    · have hflatten : (if (msgs.eraseIdx msgIdx).isEmpty then [] else [msgs.eraseIdx msgIdx]).flatten
          = msgs.eraseIdx msgIdx := by
        split_ifs with hempty
        · exact (List.isEmpty_iff.mp hempty).symm
        · exact flatten_singleton
      rw [hflatten]
      exact eraseIdx_keeps hlt hbefore
  | failed =>
    rw [Cosmos.resubmit] at h
    split_ifs at h with hlen <;> cases h
    · obtain ⟨msg, rfl, hfilter⟩ := hsingle hlen
      rw [hfilter]
      exact Keeps.of_blamed
    · rw [flatten_singletons]
      exact Keeps.refl

theorem submitTransaction_keeps (haligned : c.Aligned [msgs] answer) :
    Keeps c (c.submitTransaction msgs answer).2 (msgs.filter c.accepts)
        (sent (c.submitTransaction msgs answer).2 ++
          (c.submitTransaction msgs answer).1.flatten.filter c.accepts) ∧
      .panicked ∉ (c.submitTransaction msgs answer).2 := by
  unfold Cosmos.submitTransaction
  extract_lets processed
  split_ifs with hempty hlarge hlen
  · rw [show msgs.filter c.accepts = [] from List.isEmpty_iff.mp hempty]
    exact ⟨Keeps.refl, not_mem_nil⟩
  · obtain ⟨msg, hmsg⟩ := List.length_eq_one_iff.mp hlen
    refine ⟨⟨nil_sublist _, ?_⟩, not_mem_nil⟩
    rintro other ⟨-, hsize, -⟩
    have hne : msg ≠ other := by
      rintro rfl
      rw [hmsg] at hlarge
      omega
    rw [show msgs.filter c.accepts = [msg] from hmsg, count_singleton, beq_false_of_ne hne]
    rfl
  · refine ⟨?_, not_mem_nil⟩
    have hflatten : ([processed.take ((processed.length + 1) / 2),
        processed.drop ((processed.length + 1) / 2)].flatten).filter c.accepts = msgs.filter c.accepts := by
      rw [flatten_halves, filter_filter]
      simp
    rw [hflatten]
    exact Keeps.refl
  · have hne : msgs.filter c.accepts ≠ [] := fun hnil => hempty (List.isEmpty_iff.mpr hnil)
    split
    · refine ⟨?_, by simp⟩
      have hsent : sent [.sent processed] ++ ([] : List (List M)).flatten.filter c.accepts = processed := by
        simp [sent]
      rw [hsent]
      exact Keeps.refl
    · rename_i hfailed
      obtain ⟨calls, hcalls⟩ := Option.isSome_iff_exists.mp (resubmit_isSome haligned)
      simp only [hcalls, sent_blame, nil_append]
      exact ⟨resubmit_keeps hne hfailed haligned hcalls, not_panicked_blame _ _⟩

theorem Keeps.mono {events' : List (Event M)} (h : Keeps c events before after)
    (hevents : events ⊆ events') : Keeps c events' before after :=
  ⟨h.order, fun msg ⟨haccepts, hsize, hblamed⟩ =>
    h.count msg ⟨haccepts, hsize, fun hmem => hblamed (hevents hmem)⟩⟩

theorem Keeps.trans {between : List M} (h : Keeps c events before between)
    (h' : Keeps c events between after) : Keeps c events before after :=
  ⟨h'.order.trans h.order, fun msg hmsg => (h'.count msg hmsg).trans (h.count msg hmsg)⟩

theorem Keeps.frame (h : Keeps c events before after) (left right : List M) :
    Keeps c events (left ++ (before ++ right)) (left ++ (after ++ right)) where
  order := (List.Sublist.refl left).append (h.order.append (List.Sublist.refl right))
  count := by
    intro msg hmsg
    simp only [List.count_append, h.count msg hmsg]

structure Progress (c : Cosmos M) (msgs : List M) (pending : List (List M))
    (events : List (Event M)) : Prop where
  keeps : Keeps c events (msgs.filter c.accepts) (sent events ++ pending.flatten.filter c.accepts)
  no_panic : .panicked ∉ events

theorem Progress.step {pending : List (List M)} (h : Progress c msgs pending events)
    (haligned : c.Aligned pending answer) :
    Progress c msgs (c.step pending answer).1 (events ++ (c.step pending answer).2) := by
  cases pending with
  | nil =>
    rw [Cosmos.step, append_nil]
    exact h
  | cons first rest =>
    have haligned' : c.Aligned [first] answer := by
      rintro _ _ msgIdx ⟨⟩ hans
      exact haligned first rest msgIdx rfl hans
    obtain ⟨hkeeps, hpanic⟩ := submitTransaction_keeps haligned'
    refine ⟨?_, ?_⟩
    · have hframe := (hkeeps.mono (subset_append_right events _)).frame (sent events)
        (rest.flatten.filter c.accepts)
      have hbefore := h.keeps.mono (subset_append_left events (c.submitTransaction first answer).2)
      rw [flatten_cons, filter_append] at hbefore
      have htrans := hbefore.trans hframe
      simpa [Cosmos.step, sent] using htrans
    · intro hmem
      rcases List.mem_append.mp hmem with hmem | hmem
      · exact h.no_panic hmem
      · exact hpanic hmem

/-- **Only blamed messages are lost**, and nothing panics, in a run whose steps are aligned. -/
theorem only_blamed_dropped {msgs : List M} {answers : List Answer}
    (haligned : Meets c.step c.Aligned [msgs] answers) (hdone : run c.step [msgs] answers = []) :
    (∀ msg, Innocent c (trace c.step [msgs] answers) msg →
        (sent (trace c.step [msgs] answers)).count msg = msgs.count msg) ∧
      (sent (trace c.step [msgs] answers)).Sublist msgs ∧ .panicked ∉ trace c.step [msgs] answers := by
  have hinit : Progress c msgs [msgs] [] := by
    refine ⟨?_, not_mem_nil⟩
    rw [flatten_singleton]
    exact Keeps.refl
  have hrun := invariant_of_meets (I := Progress c msgs) (fun _ _ _ h haligned => h.step haligned)
    hinit haligned
  obtain ⟨hkeeps, hpanic⟩ := hrun
  rw [hdone, flatten_nil, filter_nil, append_nil] at hkeeps
  refine ⟨?_, hkeeps.order.trans filter_sublist, hpanic⟩
  intro msg hmsg
  rw [hkeeps.count msg hmsg, count_filter hmsg.1]

end Survivors

namespace Sample

/-- Every message but `0` is accepted. -/
def cosmos : Cosmos Nat := ⟨fun msg => if msg = 0 then none else some 1, 10⟩

end Sample

open Sample in
theorem only_blamed_dropped_pair :
    (sent (trace cosmos.step [[1, 0, 2]] [.failedAt 0, .success])).count 2 = 1 := by
  have haligned : Meets cosmos.step cosmos.Aligned [[1, 0, 2]] [.failedAt 0, .success] := by
    refine ⟨?_, ?_, trivial⟩
    · rintro _ _ _ ⟨⟩ ⟨⟩
      decide
    · rintro _ _ _ - ⟨⟩
  exact (only_blamed_dropped haligned rfl).1 2 (by unfold Innocent; decide)

open Sample in
/-- The index that the chain gives removes the message in front of the one that failed. -/
theorem innocent_lost :
    run cosmos.step [[0, 1, 2]] [.failedAt 1, .success] = [] ∧
      Innocent cosmos (trace cosmos.step [[0, 1, 2]] [.failedAt 1, .success]) 1 ∧
      sent (trace cosmos.step [[0, 1, 2]] [.failedAt 1, .success]) = [2] := by
  unfold Innocent
  decide

/-! ## Splitting -/

/-- What the chain answers to a multicall: it may be too large to estimate its gas, or to send it. -/
inductive EvmAnswer where
  | success
  | tooLargeToEstimate
  | tooLargeToSend

/-- `submit_transaction` and what `call` makes of its result; only the second error looks for a
    single message. -/
def submitMulticall (msgs : List M) : EvmAnswer → List (List M)
  | .success => []
  | .tooLargeToEstimate => [msgs.take (msgs.length / 2), msgs.drop (msgs.length / 2)]
  | .tooLargeToSend =>
    if msgs.length = 1 then [] else [msgs.take (msgs.length / 2), msgs.drop (msgs.length / 2)]

/-- The calls under a multicall, for some answer that the chain may give. -/
def evmNext (may : List M → EvmAnswer → Prop) (msgs : List M) (calls : List (List M)) : Prop :=
  ∃ answer, may msgs answer ∧ calls = submitMulticall msgs answer

/-- The calls under a transaction that is too large, or that the chain takes or refuses. -/
def Cosmos.next (c : Cosmos M) (msgs : List M) (calls : List (List M)) : Prop :=
  ∃ answer, (answer = .success ∨ answer = .failed) ∧ calls = (c.submitTransaction msgs answer).1

section Tree

variable {next : List M → List (List M) → Prop} {keeps : M → Bool}

def Child (next : List M → List (List M) → Prop) (call msgs : List M) : Prop :=
      ∃ calls, next msgs calls ∧ call ∈ calls

inductive Leaves (next : List M → List (List M) → Prop) : List (List M) → List (List M) → Prop where
  | nil : Leaves next [] []
  | leaf {msgs rest leaves} : next msgs [] → Leaves next rest leaves →
      Leaves next (msgs :: rest) (msgs :: leaves)
  | node {msgs calls rest leaves} : next msgs calls → calls ≠ [] → Leaves next (calls ++ rest) leaves →
      Leaves next (msgs :: rest) leaves

/-- The tree of calls under any messages. -/
structure Splits (next : List M → List (List M) → Prop) (keeps : M → Bool) : Prop where
  ends : ∀ msgs, Acc (Child next) msgs
  nonempty : ∀ msgs calls, next msgs calls → [] ∉ calls
  once : ∀ msgs leaves, Leaves next [msgs] leaves → leaves.flatten.filter keeps = msgs.filter keeps
  /-- A message that is too large on its own is dropped. -/
  single : ∀ msg calls, next [msg] calls → calls = []

/-- Calls that carry fewer messages, and none that carries none. -/
structure Shrinks (next : List M → List (List M) → Prop) (keeps : M → Bool) : Prop where
  shorter : ∀ msgs calls, next msgs calls → ∀ call ∈ calls, call ≠ [] ∧ call.length < msgs.length
  flatten : ∀ msgs calls, next msgs calls → calls ≠ [] → calls.flatten.filter keeps = msgs.filter keeps

theorem Shrinks.splits (h : Shrinks next keeps) : Splits next keeps where
  ends := by
    have hsub : Subrelation (Child next) (InvImage (· < ·) length) := by
      rintro call msgs ⟨calls, hnext, hmem⟩
      exact (h.shorter msgs calls hnext call hmem).2
    exact (hsub.wf (InvImage.wf _ Nat.lt_wfRel.wf)).apply
  nonempty := by
    intro msgs calls hnext hmem
    exact (h.shorter msgs calls hnext [] hmem).1 rfl
  once := by
    have hpending : ∀ pending leaves, Leaves next pending leaves →
        leaves.flatten.filter keeps = pending.flatten.filter keeps := by
      intro pending leaves hleaves
      induction hleaves with
      | nil => rfl
      | leaf _ _ ih => rw [flatten_cons, flatten_cons, filter_append, filter_append, ih]
      | node hnext hne _ ih =>
        rw [ih, flatten_append, flatten_cons, filter_append, filter_append,
          h.flatten _ _ hnext hne]
    intro msgs leaves hleaves
    rw [hpending _ _ hleaves, flatten_singleton]
  single := by
    intro msg calls hnext
    rw [eq_nil_iff_forall_not_mem]
    intro call hmem
    obtain ⟨hne, hlt⟩ := h.shorter [msg] calls hnext call hmem
    exact hne (List.length_eq_zero_iff.mp (Nat.lt_one_iff.mp hlt))

theorem halves_shorter {call : List M} {n : Nat} (hpos : 0 < n) (hlt : n < msgs.length)
    (hmem : call ∈ [msgs.take n, msgs.drop n]) : call ≠ [] ∧ call.length < msgs.length := by
  rw [ne_nil_iff_length_pos]
  rcases List.mem_pair.mp hmem with rfl | rfl
  · rw [length_take]
    omega
  · rw [length_drop]
    omega

theorem Cosmos.next_shrinks (c : Cosmos M) : Shrinks c.next c.accepts := by
  have hcalls : ∀ msgs calls, c.next msgs calls → calls = [] ∨
      (∀ call ∈ calls, call ≠ [] ∧ call.length < msgs.length) ∧
        calls.flatten.filter c.accepts = msgs.filter c.accepts := by
    rintro msgs _ ⟨answer, hans, rfl⟩
    unfold submitTransaction
    extract_lets processed
    have hle : processed.length ≤ msgs.length := length_filter_le _ _
    split_ifs with hempty hlarge hlen
    · exact .inl rfl
    · exact .inl rfl
    · right
      have hpos : processed.length ≠ 0 := fun h =>
        hempty (List.isEmpty_iff.mpr (List.length_eq_zero_iff.mp h))
      refine ⟨?_, ?_⟩
      · intro call hmem
        obtain ⟨hne, hlt⟩ := halves_shorter (by omega) (by omega) hmem
        exact ⟨hne, lt_of_lt_of_le hlt hle⟩
      · rw [flatten_halves, filter_filter]
        simp
    · rcases hans with rfl | rfl
      · exact .inl rfl
      · by_cases hsingle : msgs.length = 1
        · left
          simp only [resubmit, if_pos hsingle]
        · right
          have hpos : processed ≠ [] := fun h => hempty (List.isEmpty_iff.mpr h)
          have hne : msgs ≠ [] := fun h => hpos (by simp only [processed, h, filter_nil])
          simp only [resubmit, if_neg hsingle, flatten_singletons, and_true]
          intro call hmem
          obtain ⟨msg, -, rfl⟩ := List.mem_map.mp hmem
          refine ⟨cons_ne_nil msg [], ?_⟩
          have hlen := List.length_pos_iff.mpr hne
          rw [length_singleton]
          omega
  constructor
  · intro msgs calls hnext call hmem
    rcases hcalls msgs calls hnext with rfl | ⟨hshorter, -⟩
    · exact absurd hmem not_mem_nil
    · exact hshorter call hmem
  · intro msgs calls hnext hne
    exact ((hcalls msgs calls hnext).resolve_left hne).2

theorem evmNext_shrinks {may : List M → EvmAnswer → Prop}
    (hestimate : ∀ msgs, msgs.length ≤ 1 → ¬ may msgs .tooLargeToEstimate)
    (hsend : ¬ may [] .tooLargeToSend) : Shrinks (evmNext may) fun _ => true := by
  have hcalls : ∀ msgs calls, evmNext may msgs calls →
      calls = [] ∨ 1 < msgs.length ∧ calls = [msgs.take (msgs.length / 2), msgs.drop (msgs.length / 2)] := by
    rintro msgs _ ⟨answer, hmay, rfl⟩
    cases answer with
    | success => exact .inl rfl
    | tooLargeToEstimate =>
      refine .inr ⟨?_, rfl⟩
      by_contra hle
      exact hestimate msgs (Nat.not_lt.mp hle) hmay
    | tooLargeToSend =>
      rw [submitMulticall]
      split_ifs with hlen
      · exact .inl rfl
      · refine .inr ⟨?_, rfl⟩
        have hpos : msgs.length ≠ 0 := by
          intro hzero
          rw [List.length_eq_zero_iff.mp hzero] at hmay
          exact hsend hmay
        omega
  constructor
  · intro msgs calls hnext call hmem
    rcases hcalls msgs calls hnext with rfl | ⟨hlt, rfl⟩
    · exact absurd hmem not_mem_nil
    · exact halves_shorter (by omega) (by omega) hmem
  · intro msgs calls hnext hne
    obtain ⟨-, rfl⟩ := (hcalls msgs calls hnext).resolve_left hne
    rw [flatten_halves]

/-- **Splitting ends iff the chain can estimate every multicall of at most one message.** -/
theorem splits_iff (c : Cosmos M) (may : List M → EvmAnswer → Prop) :
    (Splits c.next c.accepts ∧ Splits (evmNext may) fun _ => true) ↔
      (∀ msgs, msgs.length ≤ 1 → ¬ may msgs .tooLargeToEstimate) ∧ ¬ may [] .tooLargeToSend := by
  constructor
  · rintro ⟨-, hsplits⟩
    refine ⟨?_, ?_⟩
    · intro msgs hle hmay
      apply hsplits.nonempty msgs _ ⟨_, hmay, rfl⟩
      rw [submitMulticall, Nat.div_eq_of_lt (by omega)]
      exact mem_cons_self
    · intro hmay
      apply hsplits.nonempty [] _ ⟨_, hmay, rfl⟩
      simp [submitMulticall]
  · rintro ⟨hestimate, hsend⟩
    exact ⟨c.next_shrinks.splits, (evmNext_shrinks hestimate hsend).splits⟩

/-- A message whose gas is not estimated is submitted again, for ever. -/
theorem single_resubmitted :
    ¬ Splits (evmNext fun (msgs : List Nat) answer => msgs = [0] ∧ answer = .tooLargeToEstimate)
      fun _ => true := by
  intro h
  have hnil := h.single 0 _ ⟨.tooLargeToEstimate, ⟨rfl, rfl⟩, rfl⟩
  exact absurd hnil (by decide)

end Tree

end UnionVoyager.Transaction
