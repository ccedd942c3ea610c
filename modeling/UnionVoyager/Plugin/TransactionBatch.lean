import UnionVoyager.Lib.Result
import Mathlib.Data.Finset.Sort

/-!
# The transaction-batch plugin

`voyager/plugins/transaction-batch`: the pass over the events of one spec.  The heights `H` are
those of one chain, all with a revision number or all without.  The order of a `HashMap` is that of
the first entries, and the query of the client state succeeds.

* `splitReady`, `mkReadyOps`, `runPass`; `checkTarget` — what
  `MakeTransactionBatchesWithUpdate::call` checks first.
-/

namespace UnionVoyager.TransactionBatch

open Lib Function List

inductive EventProvableHeight (H : Type) where
  | min (height : H)
  | exactly (height : H)
  deriving DecidableEq

def EventProvableHeight.height {H : Type} : EventProvableHeight H → H
  | .min height => height
  | .exactly height => height

structure BatchableEvent (H E : Type) where
  /-- In milliseconds. -/
  firstSeenAt : Nat
  provableHeight : EventProvableHeight H
  event : E

/-- The wait is in nanoseconds; the minimum is only logged. -/
structure ClientConfig where
  maxBatchSize : Nat
  maxWaitTime : Nat

/-- What the pass is given: an event with the time at which it is read, an earlier batch, or anything else. -/
inductive Msg (C H E : Type) where
  /-- `timeout` is that of a `PacketSend`, in milliseconds. -/
  | chainEvent (clientId : C) (timeout : Option Nat) (event : BatchableEvent H E)
  | eventBatch (clientId : C) (events : List (BatchableEvent H E))
  | unexpected

variable {C H E : Type} [DecidableEq C] [LinearOrder H]

/-- A batch, with the indices of the messages it is from. -/
abbrev Batch (H E : Type) := List (Nat × BatchableEvent H E)

/-- The events that are put into a batcher, with their client. -/
def Msg.batched : Msg C H E → List (C × BatchableEvent H E)
  | .chainEvent clientId timeout event =>
    if timeout.any (· ≤ event.firstSeenAt) then [] else [(clientId, event)]
  | .eventBatch clientId events => events.map (clientId, ·)
  | .unexpected => []

/-- The entries of all batchers: index, client and event. -/
def entries (msgs : List (Msg C H E)) : List (C × Nat × BatchableEvent H E) :=
  msgs.zipIdx.flatMap fun (msg, idx) => msg.batched.map fun (clientId, event) => (clientId, idx, event)

/-! ## `split_ready` -/

def isOverdue (config : ClientConfig) (now firstSeenAt : Nat) : Bool :=
    firstSeenAt * 1000000 + config.maxWaitTime < now

/-- `Itertools::chunks`, of at least one element. -/
def chunks {α : Type} (size : Nat) : List α → List (List α)
  | [] => []
  | a :: l => (a :: l.take (size - 1)) :: chunks size (l.drop (size - 1))
  termination_by l => l.length
  decreasing_by simp only [length_drop, length_cons]; omega

def sortByHeight (events : Batch H E) : Batch H E :=
  events.insertionSort fun a b => a.2.provableHeight.height ≤ b.2.provableHeight.height

/-- The overdue events first, each part by height. -/
def arranged (config : ClientConfig) (now : Nat) (events : Batch H E) : Batch H E :=
  let events := events.insertionSort fun a b => a.2.firstSeenAt ≤ b.2.firstSeenAt
  let (overdue, fresh) := events.partition fun e => isOverdue config now e.2.firstSeenAt
  sortByHeight overdue ++ sortByHeight fresh

def isReady (config : ClientConfig) (now : Nat) (chunk : Batch H E) : Bool :=
  chunk.length = config.maxBatchSize ∨ chunk.any fun e => isOverdue config now e.2.firstSeenAt

/-- The batches that go out, and those that are deferred. -/
def splitReady (config : ClientConfig) (now : Nat) (events : Batch H E) :
    List (Batch H E) × List (Batch H E) :=
  (chunks config.maxBatchSize (arranged config now events)).partition (isReady config now)

/-! ## `mk_ready_ops` and the call -/

/-- The least of the minimal heights, and the exact heights. -/
def targetHeights (heights : List (EventProvableHeight H)) : Option H × Finset H :=
  heights.foldl (fun acc elem => match elem with
    | .min height => (some ((acc.1.map (min · height)).getD height), acc.2)
    | .exactly height => (acc.1, insert height acc.2)) (none, ∅)

/-- A `MakeTransactionBatchesWithUpdate` behind a `WaitForHeight`. -/
structure WaitedCall (H E : Type) where
  waitFor : H
  batches : List (List (BatchableEvent H E))

def heightsOf (batches : List (List (BatchableEvent H E))) : List (EventProvableHeight H) :=
  batches.flatten.map BatchableEvent.provableHeight

def mkReadyOps (batches : List (List (BatchableEvent H E))) : List (WaitedCall H E) :=
  let (minTargetHeight, exactTargetHeights) := targetHeights (heightsOf batches)
  (exactTargetHeights.sort (· ≤ ·) ++ minTargetHeight.toList).map fun height => ⟨height, batches⟩

inductive TargetHeights (H : Type) where
  | none
  | min (height : H)
  | exact (heights : List H)

inductive CallError (H : Type) where
  | mixed
  | missingState (latestHeight targetHeight : H)

def TargetHeights.merge : TargetHeights H → EventProvableHeight H → Except (CallError H) (TargetHeights H)
  | .none, .min elem => .ok (.min elem)
  | .none, .exactly elem => .ok (.exact [elem])
  | .min acc, .min elem => .ok (.min (max elem acc))
  | .exact acc, .exactly elem => .ok (.exact (acc ++ [elem]))
  | _, _ => .error .mixed

def checkTarget (latestHeight : H) (batches : List (List (BatchableEvent H E))) :
    Except (CallError H) Unit := do
  match ← (heightsOf batches).foldlM TargetHeights.merge .none with
  | .min targetHeight => ensure (targetHeight ≤ latestHeight) (.missingState latestHeight targetHeight)
  | _ => pure ()

/-! ## `MakeTransactionBatchesWithUpdate::call` and the requests for updates -/

structure ClientStateMeta (X H : Type) where
  counterpartyChainId : X
  counterpartyHeight : H

/-- Without the type of the client. -/
structure FetchUpdateHeaders (X C H : Type) where
  counterpartyChainId : X
  chainId : X
  clientId : C
  updateFrom : H
  updateTo : H

/-- Messages with proofs at a height, or an update with the batches that wait for it. -/
inductive CallOp (X C H E : Type) where
  | makeMsgs (originChainProofHeight : H) (batches : List (List (BatchableEvent H E)))
  | fetchUpdate (request : FetchUpdateHeaders X C H) (batches : List (List (BatchableEvent H E)))

section Call

variable {X : Type} (moduleChainId : X) (queryLatestHeight : X → H)
    (stateMeta : ClientStateMeta X H) (clientId : C)

/-- The height the events are proven at. -/
def CallOp.height : CallOp X C H E → H
  | .makeMsgs height _ => height
  | .fetchUpdate request _ => request.updateTo

def CallOp.batches : CallOp X C H E → List (List (BatchableEvent H E))
  | .makeMsgs _ batches => batches
  | .fetchUpdate _ batches => batches

def CallOp.request : CallOp X C H E → Option (FetchUpdateHeaders X C H)
  | .makeMsgs _ _ => none
  | .fetchUpdate request _ => some request

/-- A batch of the `Exact` branch; a panic has no error. -/
def exactOp : List (BatchableEvent H E) → Except (Option (CallError H)) (CallOp X C H E)
  | ⟨firstSeenAt, .exactly targetHeight, event⟩ :: rest =>
    let events := ⟨firstSeenAt, .exactly targetHeight, event⟩ :: rest
    if stateMeta.counterpartyHeight = targetHeight then .ok (.makeMsgs stateMeta.counterpartyHeight [events])
    else .ok (.fetchUpdate ⟨moduleChainId, stateMeta.counterpartyChainId, clientId,
      stateMeta.counterpartyHeight, targetHeight⟩ [events])
  | _ => .error none

def makeTransactionBatches (batches : List (List (BatchableEvent H E))) :
    Except (Option (CallError H)) (List (CallOp X C H E)) :=
  let latestHeight := queryLatestHeight stateMeta.counterpartyChainId
  match (heightsOf batches).foldlM TargetHeights.merge .none with
  | .error e => .error (some e)
  | .ok .none => .error none
  | .ok (.min targetHeight) =>
    if latestHeight < targetHeight then .error (some (.missingState latestHeight targetHeight))
    else if targetHeight ≤ stateMeta.counterpartyHeight then .ok
      [.makeMsgs stateMeta.counterpartyHeight batches]
    else .ok [.fetchUpdate ⟨moduleChainId, stateMeta.counterpartyChainId, clientId,
      stateMeta.counterpartyHeight,
      if latestHeight < targetHeight then targetHeight else latestHeight⟩ batches]
  | .ok (.exact _) => batches.mapM (exactOp moduleChainId stateMeta clientId)

/-- The update `MakeBatchTransaction::call` asks for when proofs were unavailable. -/
def eventsNoProofAvailableMsg (eventsNoProofAvailable : List (BatchableEvent H E)) :
    Option (CallOp X C H E) :=
  if eventsNoProofAvailable.isEmpty then none
  else some (.fetchUpdate ⟨moduleChainId, moduleChainId, clientId, stateMeta.counterpartyHeight,
    queryLatestHeight moduleChainId⟩ [eventsNoProofAvailable])

end Call

/-! ## `run_pass_internal` -/

structure PassResult (C H E : Type) where
  optimizeFurther : List (C × Batch H E)
  ready : List (C × List (WaitedCall H E))

def clients (msgs : List (Msg C H E)) : List C := ((entries msgs).map Prod.fst).dedup

def eventsOf (msgs : List (Msg C H E)) (clientId : C) : Batch H E :=
  ((entries msgs).filter (·.1 = clientId)).map Prod.snd

section Pass

variable (config : C → ClientConfig) (now : C → Nat)

def split (msgs : List (Msg C H E)) (clientId : C) : List (Batch H E) × List (Batch H E) :=
  splitReady (config clientId) (now clientId) (eventsOf msgs clientId)

/-- The ready batches of a client, without the indices. -/
def readyBatches (msgs : List (Msg C H E)) (clientId : C) : List (List (BatchableEvent H E)) :=
  (split config now msgs clientId).1.map (map Prod.snd)

def runPass (msgs : List (Msg C H E)) : PassResult C H E where
  optimizeFurther := (clients msgs).flatMap fun c => (split config now msgs c).2.map (c, ·)
  ready := (clients msgs).flatMap fun c => match readyBatches config now msgs c with
    | [] => []
    | batches => [(c, mkReadyOps batches)]

end Pass

/-- The events in the batches that are deferred and in the calls that are made. -/
def PassResult.carried (r : PassResult C H E) : List (C × BatchableEvent H E) :=
  (r.optimizeFurther.flatMap fun (c, batch) => batch.map fun e => (c, e.2)) ++
    r.ready.flatMap fun (c, ops) => ops.flatMap fun op => op.batches.flatten.map (c, ·)

/-! ## Target heights -/

section Heights

variable {batches : List (List (BatchableEvent H E))} {heights : List (EventProvableHeight H)} {m : H}

structure Found (heights : List (EventProvableHeight H)) (found : Option H × Finset H) : Prop where
  least : ∀ m, found.1 = some m → .min m ∈ heights ∧ ∀ h, .min h ∈ heights → m ≤ h
  some : ∀ h, .min h ∈ heights → found.1 ≠ none
  exact : ∀ h, h ∈ found.2 ↔ .exactly h ∈ heights

theorem targetHeights_found (heights : List (EventProvableHeight H)) :
    Found heights (targetHeights heights) := by
  induction heights using reverseRecOn with
  | nil => exact ⟨by simp [targetHeights], by simp, by simp [targetHeights]⟩
  | append_singleton heights elem ih =>
    obtain ⟨hleast, hsome, hexact⟩ := ih
    unfold targetHeights at hleast hsome hexact ⊢
    rw [foldl_concat]
    generalize heights.foldl _ _ = found at hleast hsome hexact ⊢
    obtain ⟨least, exact⟩ := found
    cases elem with
    | min height =>
      refine ⟨?_, by simp, by simpa using hexact⟩
      intro m hm
      cases least with
      | none =>
        obtain rfl : height = m := by simpa using hm
        refine ⟨by simp, ?_⟩
        intro h hh
        rcases List.mem_append.mp hh with hh | hh
        · exact absurd rfl (hsome h hh)
        · simp_all
      | some least =>
        obtain rfl : min least height = m := by simpa using hm
        obtain ⟨hmem, hle⟩ := hleast least rfl
        refine ⟨?_, ?_⟩
        · rcases min_choice least height with h | h <;> simp [h, hmem]
        · intro h hh
          rcases List.mem_append.mp hh with hh | hh
          · exact (min_le_left _ _).trans (hle h hh)
          · obtain rfl : h = height := by simpa using hh
            exact min_le_right _ _
    | exactly height =>
      refine ⟨by simpa using hleast, by simpa using hsome, ?_⟩
      intro h
      simp only [Finset.mem_insert, hexact, mem_append, mem_singleton, EventProvableHeight.exactly.injEq]
      exact or_comm

theorem mkReadyOps_eq_map (batches : List (List (BatchableEvent H E))) : ∃ targets : List H,
    mkReadyOps batches = targets.map (⟨·, batches⟩) ∧
      targets.length = (targetHeights (heightsOf batches)).2.card +
        (targetHeights (heightsOf batches)).1.toList.length ∧
      ∀ m, m ∈ targets ↔ m ∈ (targetHeights (heightsOf batches)).2 ∨
        (targetHeights (heightsOf batches)).1 = some m :=
  ⟨(targetHeights (heightsOf batches)).2.sort (· ≤ ·) ++ (targetHeights (heightsOf batches)).1.toList, rfl,
    by rw [length_append, Finset.length_sort],
    fun m => by rw [mem_append, Finset.mem_sort, Option.mem_toList]⟩

omit [LinearOrder H] in
theorem mem_heightsOf {elem : EventProvableHeight H} :
    elem ∈ heightsOf batches ↔ ∃ e ∈ batches.flatten, e.provableHeight = elem := mem_map

/-! ## The height that is waited for -/

theorem merge_constant (h : ∀ elem ∈ heights, elem = .min m) :
    heights.foldlM TargetHeights.merge (.min m) = .ok (.min m) := by
  induction heights with
  | nil => rfl
  | cons elem heights ih =>
    obtain ⟨rfl, hrest⟩ := List.forall_mem_cons.mp h
    rw [foldlM_cons, TargetHeights.merge, max_self, ok_bind]
    exact ih hrest

theorem checkTarget_constant {latest : H} (h : ∀ elem ∈ heightsOf batches, elem = .min m)
    (hle : m ≤ latest) : checkTarget latest batches = .ok () := by
  unfold checkTarget
  generalize heightsOf batches = heights at h
  cases heights with
  | nil => rfl
  | cons elem heights =>
    obtain ⟨rfl, hrest⟩ := List.forall_mem_cons.mp h
    rw [foldlM_cons, TargetHeights.merge, ok_bind, merge_constant hrest, ok_bind]
    exact ensure_eq_ok.mpr hle

/-- **Every call for events with minimal heights is behind a height at which all are provable, and
    so passes its check at that height and above, iff the heights are all equal.** -/
theorem waits_iff (hmin : ∀ e ∈ batches.flatten, ∃ h, e.provableHeight = .min h) :
    (∀ op ∈ mkReadyOps batches, (∀ e ∈ op.batches.flatten, e.provableHeight.height ≤ op.waitFor) ∧
        ∀ latest, op.waitFor ≤ latest → checkTarget latest op.batches = .ok ()) ↔
      ∀ e ∈ batches.flatten, ∀ e' ∈ batches.flatten, e.provableHeight.height = e'.provableHeight.height := by
  obtain ⟨targets, hops, -, htargets⟩ := mkReadyOps_eq_map batches
  obtain ⟨hleast, hsome, hexact⟩ := targetHeights_found (heightsOf batches)
  have hmem : ∀ m, m ∈ targets ↔ (targetHeights (heightsOf batches)).1 = some m := by
    intro m
    rw [htargets, hexact, mem_heightsOf]
    refine or_iff_right ?_
    rintro ⟨e, he, hheight⟩
    obtain ⟨h, hh⟩ := hmin e he
    simp_all
  have hheights : ∀ e ∈ batches.flatten, .min e.provableHeight.height ∈ heightsOf batches := by
    intro e he
    obtain ⟨h, hh⟩ := hmin e he
    exact mem_heightsOf.mpr ⟨e, he, by rw [hh, EventProvableHeight.height]⟩
  rw [hops]
  constructor
  · intro hwaits e he e' he'
    obtain ⟨m, hm⟩ := Option.ne_none_iff_exists'.mp (hsome _ (hheights e he))
    obtain ⟨hall, -⟩ := hwaits ⟨m, batches⟩ (List.mem_map.mpr ⟨m, (hmem m).mpr hm, rfl⟩)
    have heq : ∀ x ∈ batches.flatten, x.provableHeight.height = m :=
      fun x hx => le_antisymm (hall x hx) ((hleast m hm).2 _ (hheights x hx))
    rw [heq e he, heq e' he']
  · intro hequal op hop
    obtain ⟨m, hm, rfl⟩ := List.mem_map.mp hop
    obtain ⟨e, he, hheight⟩ := mem_heightsOf.mp (hleast m ((hmem m).mp hm)).1
    have heq : ∀ x ∈ batches.flatten, x.provableHeight.height = m := by
      intro x hx
      rw [hequal x hx e he, hheight, EventProvableHeight.height]
    refine ⟨fun x hx => (heq x hx).le, fun latest hle => checkTarget_constant ?_ hle⟩
    intro elem helem
    obtain ⟨x, hx, rfl⟩ := mem_heightsOf.mp helem
    obtain ⟨h, hh⟩ := hmin x hx
    rw [hh, ← heq x hx, hh, EventProvableHeight.height]

namespace Sample

def event (height : EventProvableHeight Nat) : BatchableEvent Nat Unit := ⟨0, height, ()⟩

def equals : List (List (BatchableEvent Nat Unit)) := [[event (.min 3)], [event (.min 3)]]

/-- A client's two events that are provable at different heights. -/
def exacts : List (Msg Unit Nat Unit) :=
  [.chainEvent () none (event (.exactly 1)), .chainEvent () none (event (.exactly 2))]

end Sample

open Sample in
theorem waits_equal : (∀ e ∈ equals.flatten, e.provableHeight = .min 3) ∧ ∀ op ∈ mkReadyOps equals,
    (∀ e ∈ op.batches.flatten, e.provableHeight.height ≤ op.waitFor) ∧
      ∀ latest, op.waitFor ≤ latest → checkTarget latest op.batches = .ok () :=
  ⟨by decide, (waits_iff (by simp [equals, event])).mpr (by decide)⟩

open Sample in
/-- The wait ends at the lower height, where the call is refused. -/
theorem lower_height_waited : (mkReadyOps [[event (.min 3)], [event (.min 5)]]).map WaitedCall.waitFor = [3] ∧
      checkTarget 3 [[event (.min 3)], [event (.min 5)]] = .error (.missingState 3 5) :=
  ⟨by simp [mkReadyOps, heightsOf, targetHeights, event], rfl⟩

/-! ## One target height -/

/-- All heights are minimal, or they are the same exact one. -/
def OneTarget (batches : List (List (BatchableEvent H E))) : Prop :=
  (∀ e ∈ batches.flatten, ∃ h, e.provableHeight = .min h) ∨ ∃ h, ∀ e ∈ batches.flatten,
    e.provableHeight = .exactly h

theorem mkReadyOps_eq_nil : mkReadyOps batches = [] ↔ batches.flatten = [] := by
  constructor
  · intro hnil
    obtain ⟨targets, hops, -, htargets⟩ := mkReadyOps_eq_map batches
    obtain ⟨-, hsome, hexact⟩ := targetHeights_found (heightsOf batches)
    rw [hops, map_eq_nil_iff] at hnil
    rw [hnil] at htargets
    refine List.eq_nil_iff_forall_not_mem.mpr fun e he => ?_
    have hmem : e.provableHeight ∈ heightsOf batches := mem_heightsOf.mpr ⟨e, he, rfl⟩
    cases hheight : e.provableHeight with
    | min height =>
      obtain ⟨m, hm⟩ := Option.ne_none_iff_exists'.mp (hsome height (hheight ▸ hmem))
      exact not_mem_nil ((htargets m).mpr (.inr hm))
    | exactly height =>
        exact not_mem_nil ((htargets height).mpr (.inl ((hexact height).mpr (hheight ▸ hmem))))
  · intro hnil
    simp [mkReadyOps, heightsOf, hnil, targetHeights]

theorem length_mkReadyOps_le_one : (mkReadyOps batches).length ≤ 1 ↔ OneTarget batches := by
  obtain ⟨targets, hops, hlen, -⟩ := mkReadyOps_eq_map batches
  obtain ⟨hleast, hsome, hexact⟩ := targetHeights_found (heightsOf batches)
  rw [hops, length_map, hlen]
  generalize targetHeights (heightsOf batches) = found at hleast hsome hexact ⊢
  obtain ⟨least, exact⟩ := found
  simp only [mem_heightsOf] at hleast hsome hexact
  constructor
  · intro hle
    by_cases hnone : least = none
    · subst hnone
      rcases Nat.le_one_iff_eq_zero_or_eq_one.mp (by simpa using hle) with hcard | hcard
      · refine .inl fun e he => ?_
        cases hheight : e.provableHeight with
        | min h => exact ⟨h, rfl⟩
        | exactly h => exact absurd ((hexact h).mpr ⟨e, he, hheight⟩) (by simp [Finset.card_eq_zero.mp hcard])
      · obtain ⟨h, rfl⟩ := Finset.card_eq_one.mp hcard
        refine .inr ⟨h, fun e he => ?_⟩
        cases hheight : e.provableHeight with
        | min h' => exact absurd rfl (hsome h' ⟨e, he, hheight⟩)
        | exactly h' => rw [Finset.mem_singleton.mp ((hexact h').mpr ⟨e, he, hheight⟩)]
    · obtain ⟨m, rfl⟩ := Option.ne_none_iff_exists'.mp hnone
      have hcard : exact = ∅ := Finset.card_eq_zero.mp (by simpa using hle)
      refine .inl fun e he => ?_
      cases hheight : e.provableHeight with
      | min h => exact ⟨h, rfl⟩
      | exactly h => exact absurd ((hexact h).mpr ⟨e, he, hheight⟩) (by simp [hcard])
  · rintro (hmin | ⟨h, hall⟩)
    · have hempty : exact = ∅ := by
        refine Finset.eq_empty_of_forall_notMem fun h hh => ?_
        obtain ⟨e, he, hheight⟩ := (hexact h).mp hh
        obtain ⟨h', hh'⟩ := hmin e he
        simp_all
      cases least <;> simp [hempty]
    · have hsub : exact ⊆ {h} := by
        intro h' hh'
        obtain ⟨e, he, hheight⟩ := (hexact h').mp hh'
        simpa using hheight.symm.trans (hall e he)
      have hcard := Finset.card_le_card hsub
      cases least with
      | none => simpa using hcard
      | some m =>
        obtain ⟨⟨e, he, hheight⟩, -⟩ := hleast m rfl
        exact absurd (hheight.symm.trans (hall e he)) (by simp)

end Heights

/-! ## What the pass carries -/

section Lists

variable {α κ : Type}

theorem chunks_flatten (size : Nat) (l : List α) : (chunks size l).flatten = l := by
  induction l using chunks.induct size with
  | case1 => simp [chunks]
  | case2 a l ih => rw [chunks, flatten_cons, ih, cons_append, take_append_drop]

theorem flatMap_perm_iff {f g extra : κ → List α} {ks : List κ} (h : ∀ k ∈ ks, (f k).Perm (g k ++ extra k)) :
    (ks.flatMap f).Perm (ks.flatMap g) ↔ ∀ k ∈ ks, extra k = [] := by
  have hperm : (ks.flatMap f).Perm (ks.flatMap g ++ ks.flatMap extra) :=
    (List.Perm.flatMap_left ks h).trans (flatMap_append_perm ks g extra).symm
  rw [← flatMap_eq_nil_iff]
  constructor
  · intro hfg
    have hlen := (hfg.symm.trans hperm).length_eq
    rw [length_append] at hlen
    exact List.length_eq_zero_iff.mp (by omega)
  · intro hnil
    rwa [hnil, append_nil] at hperm

theorem flatMap_filter_perm [DecidableEq κ] (f : α → κ) (l : List α) {ks : List κ}
    (hnodup : ks.Nodup) : (ks.flatMap fun k => l.filter (f · = k)).Perm (l.filter (f · ∈ ks)) := by
  induction ks with
  | nil => simp
  | cons k ks ih =>
    obtain ⟨hk, hnodup⟩ := List.nodup_cons.mp hnodup
    have hsplit := filter_append_perm (f · = k) (l.filter (f · ∈ k :: ks))
    rw [filter_filter, filter_filter] at hsplit
    refine List.Perm.trans ?_ hsplit
    rw [flatMap_cons]
    have hhead : l.filter (f · = k) = l.filter fun a => decide (f a = k) && decide (f a ∈ k :: ks) := by
      refine filter_congr fun a _ => ?_
      by_cases h : f a = k <;> simp [h]
    have htail : l.filter (f · ∈ ks) = l.filter fun a => (!decide (f a = k)) && decide (f a ∈ k :: ks) := by
      refine filter_congr fun a _ => ?_
      by_cases h : f a = k <;> simp_all
    rw [← hhead, ← htail]
    exact (ih hnodup).append_left _

end Lists

theorem arranged_perm (config : ClientConfig) (now : Nat) (events : Batch H E) :
    (arranged config now events).Perm events := by
  simp only [arranged, partition_eq_filter_filter, sortByHeight]
  refine ((perm_insertionSort _ _).append (perm_insertionSort _ _)).trans ?_
  exact (filter_append_perm _ _).trans (perm_insertionSort _ _)

theorem splitReady_perm (config : ClientConfig) (now : Nat) (events : Batch H E) :
    ((splitReady config now events).2.flatten ++ (splitReady config now events).1.flatten).Perm events := by
  simp only [splitReady, partition_eq_filter_filter, ← flatten_append]
  refine (List.Perm.flatten (List.perm_append_comm.trans (filter_append_perm _ _))).trans ?_
  rw [chunks_flatten]
  exact arranged_perm config now events

omit [DecidableEq C] [LinearOrder H] in
theorem entries_events (msgs : List (Msg C H E)) :
    (entries msgs).map (fun x => (x.1, x.2.2)) = msgs.flatMap Msg.batched := by
  simp only [entries, map_flatMap, map_map, comp_def, Prod.mk.eta, map_id']
  conv_rhs => rw [← zipIdx_map_fst 0 msgs, flatMap_map]

omit [LinearOrder H] in
theorem clients_events_perm (msgs : List (Msg C H E)) :
    ((clients msgs).flatMap fun c => (eventsOf msgs c).map fun e => (c, e.2)).Perm
      (msgs.flatMap Msg.batched) := by
  have hnodup : (clients msgs).Nodup := nodup_dedup _
  have hgroups := (flatMap_filter_perm Prod.fst (entries msgs) hnodup).map fun x => (x.1, x.2.2)
  have hall : (entries msgs).filter (fun x => x.1 ∈ clients msgs) = entries msgs := by
    refine List.filter_eq_self.mpr fun x hx => ?_
    exact decide_eq_true (List.mem_dedup.mpr (mem_map_of_mem hx))
  rw [hall, entries_events] at hgroups
  refine List.Perm.trans (List.Perm.of_eq ?_) hgroups
  rw [map_flatMap]
  congr 1
  funext c
  unfold eventsOf
  rw [map_map]
  refine map_congr_left fun x hx => ?_
  rw [← of_decide_eq_true (List.mem_filter.mp hx).2]
  rfl

variable (config : C → ClientConfig) (now : C → Nat) (msgs : List (Msg C H E))

theorem carried_perm : (runPass config now msgs).carried.Perm ((clients msgs).flatMap fun c =>
    (split config now msgs c).2.flatten.map (fun e => (c, e.2)) ++
      (mkReadyOps (readyBatches config now msgs c)).flatMap fun op => op.batches.flatten.map (c, ·)) := by
  refine List.Perm.trans (List.Perm.of_eq ?_) (flatMap_append_perm ..)
  unfold PassResult.carried runPass
  simp only [flatMap_assoc]
  congr 1
  · congr 1
    funext c
    simp only [flatMap_map, map_flatten]
    rw [← flatMap_def]
  · congr 1
    funext c
    cases hready : readyBatches config now msgs c with
    | nil => simp [mkReadyOps, targetHeights, heightsOf]
    | cons batch batches => simp

/-- **No event is lost by a pass, and none is carried twice iff every client's ready events have one
    target height.** -/
theorem carried_perm_iff : (runPass config now msgs).carried.Perm (msgs.flatMap Msg.batched) ↔
    ∀ c ∈ clients msgs, OneTarget (readyBatches config now msgs c) := by
  have hinput := clients_events_perm msgs
  have hsplit : ∀ c ∈ clients msgs, ((split config now msgs c).2.flatten.map (fun e => (c, e.2)) ++
        (mkReadyOps (readyBatches config now msgs c)).flatMap fun op => op.batches.flatten.map (c, ·)).Perm
      ((eventsOf msgs c).map (fun e => (c, e.2)) ++
        (mkReadyOps (readyBatches config now msgs c)).tail.flatMap fun op =>
          op.batches.flatten.map (c, ·)) := by
    intro c _
    obtain ⟨targets, hops, -, -⟩ := mkReadyOps_eq_map (readyBatches config now msgs c)
    have hparts : ((split config now msgs c).2.flatten.map (fun e => (c, e.2)) ++
        (readyBatches config now msgs c).flatten.map (c, ·)).Perm
          ((eventsOf msgs c).map fun e => (c, e.2)) := by
      have h := (splitReady_perm (config c) (now c) (eventsOf msgs c)).map fun e => (c, e.2)
      rw [map_append] at h
      simpa only [readyBatches, ← map_flatten, map_map, split, comp_def] using h
    cases targets with
    | nil =>
      rw [mkReadyOps_eq_nil.mp hops] at hparts
      rw [hops]
      simpa using hparts
    | cons m targets =>
      simp only [hops, map_cons, flatMap_cons, tail_cons, ← append_assoc]
      exact hparts.append_right _
  rw [(carried_perm config now msgs).congr_left, (hinput.congr_right _).symm, flatMap_perm_iff hsplit]
  refine forall₂_congr fun c _ => ?_
  rw [← length_mkReadyOps_le_one]
  have hnil : mkReadyOps (readyBatches config now msgs c) = [] ↔ _ := mkReadyOps_eq_nil
  obtain ⟨targets, hops, -, -⟩ := mkReadyOps_eq_map (readyBatches config now msgs c)
  rw [hops] at hnil ⊢
  match targets with
  | [] => simp
  | [_] => simp
  | _ :: _ :: _ =>
    have hne : (readyBatches config now msgs c).flatten ≠ [] := fun h => absurd (hnil.mpr h) (by simp)
    simp only [map_cons, tail_cons, flatMap_cons, append_eq_nil_iff, map_eq_nil_iff, hne,
      length_cons, false_and, false_iff]
    omega

open Sample in
/-- Both events go out with the call for either height. -/
theorem exacts_repeated : ¬ (runPass (fun _ => ⟨2, 0⟩) (fun _ => 0) exacts).carried.Perm
    (exacts.flatMap Msg.batched) := by
  intro h
  have hlen := h.length_eq
  simp [PassResult.carried, runPass, clients, entries, exacts, Msg.batched, readyBatches, split,
    splitReady, eventsOf,
    arranged, isOverdue, sortByHeight, EventProvableHeight.height, chunks, isReady, mkReadyOps,
      heightsOf, targetHeights,
    event, comp_def] at hlen

/-! ## Exact heights -/

section Exact

omit [DecidableEq C]

variable {X : Type} {own : X} {latest : X → H} {stateMeta : ClientStateMeta X H} {clientId : C}
variable {batches : List (List (BatchableEvent H E))}

theorem chunks_getElem? {α : Type} {size : Nat} (hsize : 0 < size) (l : List α) (k : Nat) :
    (chunks size l)[k]? = if k * size < l.length then some ((l.drop (k * size)).take size) else none := by
  induction l using chunks.induct size generalizing k with
  | case1 => simp [chunks]
  | case2 a l ih =>
    rw [chunks]
    obtain ⟨n, rfl⟩ : ∃ n, size = n + 1 := ⟨size - 1, by omega⟩
    cases k with
    | zero => simp
    | succ k =>
      have hdrop : (a :: l).drop ((k + 1) * (n + 1)) = (l.drop n).drop (k * (n + 1)) := by
        rw [drop_drop, Nat.succ_mul, ← Nat.add_assoc, drop_succ_cons, Nat.add_comm]
      rw [Nat.add_sub_cancel] at ih ⊢
      rw [getElem?_cons_succ, ih, hdrop, length_drop, Nat.succ_mul, length_cons]
      exact if_congr (by omega) rfl rfl

variable (own stateMeta clientId) in
theorem exactOp_ok {batch : List (BatchableEvent H E)} (hne : batch ≠ [])
    (hexact : ∀ e ∈ batch, ∃ h, e.provableHeight = .exactly h) :
    ∃ x, exactOp own stateMeta clientId batch = .ok x ∧ x.batches = [batch] ∧
      ∃ e ∈ batch, e.provableHeight.height = x.height := by
  obtain ⟨⟨firstSeenAt, height, event⟩, rest, rfl⟩ := exists_cons_of_ne_nil hne
  obtain ⟨h, hh⟩ := hexact _ mem_cons_self
  obtain rfl : height = .exactly h := hh
  by_cases heq : stateMeta.counterpartyHeight = h
  · exact ⟨_, if_pos heq, rfl, _, mem_cons_self, heq.symm⟩
  · exact ⟨_, if_neg heq, rfl, _, mem_cons_self, rfl⟩

variable (own stateMeta clientId) in
theorem mapM_exactOp (hne : ∀ b ∈ batches, b ≠ [])
    (hexact : ∀ e ∈ batches.flatten, ∃ h, e.provableHeight = .exactly h) :
    ∃ ops, batches.mapM (exactOp own stateMeta clientId) = .ok ops ∧
      (∀ b ∈ batches, ∃ x ∈ ops, x.batches = [b]) ∧
      ∀ x ∈ ops, ∃ b ∈ batches, x.batches = [b] ∧ ∃ e ∈ b, e.provableHeight.height = x.height := by
  induction batches with
  | nil => exact ⟨[], rfl, by simp, by simp⟩
  | cons batch batches ih =>
    obtain ⟨hbatch, hne⟩ := List.forall_mem_cons.mp hne
    rw [flatten_cons] at hexact
    obtain ⟨x, hx, hspec⟩ := exactOp_ok own stateMeta clientId hbatch
      fun e he => hexact e (mem_append_left _ he)
    obtain ⟨ops, hops, hin, hout⟩ := ih hne fun e he => hexact e (mem_append_right _ he)
    refine ⟨x :: ops, by simp [mapM_cons, hx, hops], List.forall_mem_cons.mpr ⟨?_, ?_⟩,
      List.forall_mem_cons.mpr ⟨?_, ?_⟩⟩
    · exact ⟨x, mem_cons_self, hspec.1⟩
    · intro b hb
      obtain ⟨y, hy, hyb⟩ := hin b hb
      exact ⟨y, mem_cons_of_mem _ hy, hyb⟩
    · exact ⟨batch, mem_cons_self, hspec⟩
    · intro y hy
      obtain ⟨b, hb, hyb⟩ := hout y hy
      exact ⟨b, mem_cons_of_mem _ hb, hyb⟩

theorem merge_exactly {heights : List (EventProvableHeight H)}
    (hexact : ∀ elem ∈ heights, ∃ h, elem = .exactly h) :
    ∀ acc, ∃ acc', heights.foldlM TargetHeights.merge (.exact acc) = .ok (.exact acc') := by
  induction heights with
  | nil => exact fun acc => ⟨acc, rfl⟩
  | cons elem heights ih =>
    obtain ⟨⟨h, rfl⟩, hrest⟩ := List.forall_mem_cons.mp hexact
    intro acc
    rw [foldlM_cons, TargetHeights.merge, ok_bind]
    exact ih hrest _

theorem makeTransactionBatches_exact (hflat : batches.flatten ≠ [])
    (hexact : ∀ e ∈ batches.flatten, ∃ h, e.provableHeight = .exactly h) :
    makeTransactionBatches own latest stateMeta clientId batches =
      batches.mapM (exactOp own stateMeta clientId) := by
  have hheights : ∀ elem ∈ heightsOf batches, ∃ h, elem = .exactly h := by
    intro elem helem
    obtain ⟨e, he, rfl⟩ := mem_heightsOf.mp helem
    exact hexact e he
  have hne : heightsOf batches ≠ [] := fun h => hflat (List.map_eq_nil_iff.mp h)
  unfold makeTransactionBatches
  obtain ⟨elem, rest, hrest⟩ := exists_cons_of_ne_nil hne
  rw [hrest] at hheights ⊢
  obtain ⟨⟨h, rfl⟩, htail⟩ := List.forall_mem_cons.mp hheights
  obtain ⟨acc, hacc⟩ := merge_exactly htail [h]
  rw [foldlM_cons, TargetHeights.merge, ok_bind, hacc]

variable (config : ClientConfig) (now : Nat) (events : Batch H E)

/-- The `k`-th `max_batch_size` events in the order in which they are sent. -/
def blockAt (k : Nat) : Batch H E :=
  ((arranged config now events).drop (k * config.maxBatchSize)).take config.maxBatchSize

/-- The `i`-th and the `j`-th event share a block that is full or has an overdue event. -/
def SentTogether (i j : Nat) : Prop :=
  i / config.maxBatchSize = j / config.maxBatchSize ∧
    ((i / config.maxBatchSize + 1) * config.maxBatchSize ≤ events.length ∨
      ∃ k e, k / config.maxBatchSize = i / config.maxBatchSize ∧ (arranged config now events)[k]? = some e ∧
        isOverdue config now e.2.firstSeenAt)

variable {config now events}

theorem mem_blockAt (hsize : 0 < config.maxBatchSize) {k : Nat} {x : Nat × BatchableEvent H E} :
    x ∈ blockAt config now events k ↔ ∃ n, n / config.maxBatchSize = k ∧
      (arranged config now events)[n]? = some x := by
  rw [blockAt, mem_iff_getElem?]
  constructor
  · rintro ⟨m, hm⟩
    rw [getElem?_take] at hm
    split at hm
    · rename_i hlt
      rw [getElem?_drop] at hm
      refine ⟨k * config.maxBatchSize + m, ?_, hm⟩
      rw [Nat.add_comm, Nat.add_mul_div_right _ _ hsize, Nat.div_eq_of_lt hlt, Nat.zero_add]
    · cases hm
  · rintro ⟨n, rfl, hn⟩
    refine ⟨n % config.maxBatchSize, ?_⟩
    rw [getElem?_take_of_lt (Nat.mod_lt n hsize), getElem?_drop, Nat.div_add_mod', hn]

theorem mem_ready (hsize : 0 < config.maxBatchSize) {batch : Batch H E} :
    batch ∈ (splitReady config now events).1 ↔ ∃ i e, (arranged config now events)[i]? = some e ∧
      SentTogether config now events i i ∧ batch = blockAt config now events (i / config.maxBatchSize) := by
  have hlen := (arranged_perm config now events).length_eq
  have hready : ∀ k, k * config.maxBatchSize < (arranged config now events).length →
      (isReady config now (blockAt config now events k) ↔ (k + 1) * config.maxBatchSize ≤ events.length ∨
        ∃ n e, n / config.maxBatchSize = k ∧ (arranged config now events)[n]? = some e ∧
          isOverdue config now e.2.firstSeenAt) := by
    intro k hk
    rw [isReady, decide_eq_true_iff, Nat.succ_mul]
    refine or_congr ?_ ?_
    · rw [blockAt, length_take, length_drop]
      omega
    · simp only [any_eq_true, mem_blockAt hsize]
      grind
  simp only [splitReady, partition_eq_filter_filter, mem_filter, mem_iff_getElem? (l := chunks _ _),
    chunks_getElem? hsize]
  constructor
  · rintro ⟨⟨k, hk⟩, hisReady⟩
    split at hk
    · rename_i hlt
      cases hk
      refine ⟨k * config.maxBatchSize, _, getElem?_eq_getElem hlt, ⟨rfl, ?_⟩, ?_⟩
      · rw [Nat.mul_div_cancel _ hsize]
        exact (hready k hlt).mp hisReady
      · rw [Nat.mul_div_cancel _ hsize, blockAt]
    · cases hk
  · rintro ⟨i, e, hi, ⟨-, hsent⟩, rfl⟩
    have hlt : i / config.maxBatchSize * config.maxBatchSize < (arranged config now events).length :=
      (Nat.div_mul_le_self _ _).trans_lt (List.getElem?_eq_some_iff.mp hi).1
    exact ⟨⟨_, if_pos hlt⟩, (hready _ hlt).mpr hsent⟩

/-- **Every event is proven at its own height iff events of different heights are not sent together.** -/
theorem exact_proven_iff (hsize : 0 < config.maxBatchSize)
    (hexact : ∀ e ∈ events, ∃ h, e.2.provableHeight = .exactly h) :
    (∀ op ∈ mkReadyOps ((splitReady config now events).1.map (map Prod.snd)),
      ∃ ops, makeTransactionBatches own latest stateMeta clientId op.batches = .ok ops ∧
        ∀ x ∈ ops, ∀ e ∈ x.batches.flatten, e.provableHeight.height = x.height) ↔
    ∀ i j a b, (arranged config now events)[i]? = some a → (arranged config now events)[j]? = some b →
      SentTogether config now events i j → a.2.provableHeight.height = b.2.provableHeight.height := by
  have hbatches : ∀ batch, batch ∈ (splitReady config now events).1.map (map Prod.snd) ↔
      ∃ i e, (arranged config now events)[i]? = some e ∧ SentTogether config now events i i ∧
        batch = (blockAt config now events (i / config.maxBatchSize)).map Prod.snd := by
    intro batch
    simp only [mem_map, mem_ready hsize]
    grind
  have hall : ∀ e ∈ ((splitReady config now events).1.map (map Prod.snd)).flatten,
      ∃ h, e.provableHeight = .exactly h := by
    intro e he
    obtain ⟨_, hbatch, he⟩ := List.mem_flatten.mp he
    obtain ⟨i, -, -, -, rfl⟩ := (hbatches _).mp hbatch
    obtain ⟨p, hp, rfl⟩ := List.mem_map.mp he
    obtain ⟨n, -, hn⟩ := (mem_blockAt hsize).mp hp
    exact hexact p ((arranged_perm config now events).subset (mem_of_getElem? hn))
  have hblock : ∀ i n x, n / config.maxBatchSize = i / config.maxBatchSize →
      (arranged config now events)[n]? = some x →
      x.2 ∈ (blockAt config now events (i / config.maxBatchSize)).map Prod.snd :=
    fun i n x hn hx => mem_map_of_mem ((mem_blockAt hsize).mpr ⟨n, hn, hx⟩)
  generalize (splitReady config now events).1.map (map Prod.snd) = batches at hbatches hall ⊢
  have hne : ∀ batch ∈ batches, batch ≠ [] := by
    intro batch hbatch
    obtain ⟨i, e, hi, -, rfl⟩ := (hbatches batch).mp hbatch
    exact ne_nil_of_mem (hblock i i e rfl hi)
  obtain ⟨ops, hmap, hin, hout⟩ := mapM_exactOp own stateMeta clientId hne hall
  obtain ⟨targets, htargets, -, -⟩ := mkReadyOps_eq_map batches
  constructor
  · intro hproven i j a b ha hb hsent
    have hbatch := (hbatches _).mpr ⟨i, a, ha, ⟨rfl, hsent.2⟩, rfl⟩
    have hflat : batches.flatten ≠ [] := ne_nil_of_mem (mem_flatten_of_mem hbatch (hblock i i a rfl ha))
    obtain ⟨op, hop⟩ := exists_mem_of_ne_nil _ (mt mkReadyOps_eq_nil.mp hflat)
    obtain ⟨ops', hops', hown⟩ := hproven op hop
    rw [htargets] at hop
    obtain ⟨m, -, rfl⟩ := List.mem_map.mp hop
    rw [makeTransactionBatches_exact hflat hall, hmap] at hops'
    cases hops'
    obtain ⟨x, hx, hspec⟩ := hin _ hbatch
    have hproof := hown x hx
    rw [hspec, flatten_singleton] at hproof
    rw [hproof _ (hblock i i a rfl ha), hproof _ (hblock i j b hsent.1.symm hb)]
  · intro hequal op hop
    have hflat : batches.flatten ≠ [] := mt mkReadyOps_eq_nil.mpr (ne_nil_of_mem hop)
    rw [htargets] at hop
    obtain ⟨m, -, rfl⟩ := List.mem_map.mp hop
    refine ⟨ops, by rw [makeTransactionBatches_exact hflat hall, hmap], ?_⟩
    intro x hx e he
    obtain ⟨batch, hbatch, hspec, e', he', hheight⟩ := hout x hx
    rw [hspec, flatten_singleton] at he
    obtain ⟨i, -, -, hsent, rfl⟩ := (hbatches batch).mp hbatch
    obtain ⟨p, hp, rfl⟩ := List.mem_map.mp he
    obtain ⟨p', hp', rfl⟩ := List.mem_map.mp he'
    obtain ⟨n, hn, hp⟩ := (mem_blockAt hsize).mp hp
    obtain ⟨n', hn', hp'⟩ := (mem_blockAt hsize).mp hp'
    rw [← hheight]
    exact hequal n n' p p' hp hp' ⟨hn.trans hn'.symm, by rw [hn]; exact hsent.2⟩

end Exact

/-- Two events that are provable at different heights. -/
def Sample.heights : Batch Nat Unit := [(0, Sample.event (.exactly 1)), (1, Sample.event (.exactly 2))]

open Sample in
theorem exact_proven_single : (∀ e ∈ heights, ∃ h, e.2.provableHeight = .exactly h) ∧
    ∀ op ∈ mkReadyOps ((splitReady ⟨1, 0⟩ 0 heights).1.map (map Prod.snd)),
      ∃ ops, makeTransactionBatches "a" (fun _ => 2) ⟨"b", 0⟩ () op.batches = .ok ops ∧
        ∀ x ∈ ops, ∀ e ∈ x.batches.flatten, e.provableHeight.height = x.height := by
  have hexact : ∀ e ∈ heights, ∃ h, e.2.provableHeight = .exactly h := by simp [heights, event]
  refine ⟨hexact, (exact_proven_iff (by decide) hexact).mpr ?_⟩
  rintro i j a b ha hb ⟨hij, -⟩
  obtain rfl : i = j := by simpa using hij
  rw [Option.some.inj (ha.symm.trans hb)]

open Sample in
/-- With one update for both, the second event is proven at the height of the first. -/
theorem exact_straddled : ¬ ∀ op ∈ mkReadyOps ((splitReady ⟨2, 0⟩ 0 heights).1.map (map Prod.snd)),
    ∃ ops, makeTransactionBatches "a" (fun _ => 2) ⟨"b", 0⟩ () op.batches = .ok ops ∧
      ∀ x ∈ ops, ∀ e ∈ x.batches.flatten, e.provableHeight.height = x.height := by
  have hready : (splitReady ⟨2, 0⟩ 0 heights).1.map (map Prod.snd) =
      [[event (.exactly 1), event (.exactly 2)]] := by
    simp [splitReady, heights, arranged, isOverdue, sortByHeight, EventProvableHeight.height,
      chunks, isReady, event]
  have hcall : makeTransactionBatches "a" (fun _ => 2) ⟨"b", 0⟩ ()
      [[event (.exactly 1), event (.exactly 2)]] =
      .ok [.fetchUpdate ⟨"a", "b", (), 0, 1⟩ [[event (.exactly 1), event (.exactly 2)]]] := rfl
  rw [hready]
  intro h
  obtain ⟨op, hop⟩ := exists_mem_of_ne_nil (mkReadyOps [[event (.exactly 1), event (.exactly 2)]])
    (mt mkReadyOps_eq_nil.mp (by simp))
  obtain ⟨targets, htargets, -, -⟩ := mkReadyOps_eq_map [[event (.exactly 1), event (.exactly 2)]]
  obtain ⟨ops, hops, hproven⟩ := h op hop
  rw [htargets] at hop
  obtain ⟨m, -, rfl⟩ := List.mem_map.mp hop
  rw [hcall] at hops
  cases hops
  exact absurd (hproven _ mem_cons_self (event (.exactly 2)) (by simp [CallOp.batches])) (by decide)

/-! ## The chain an update is for -/

section Requests

omit [DecidableEq C]

variable {X : Type}

/-- The request is for the client's counterparty, and to one of its heights. -/
structure FetchUpdateHeaders.For (r : FetchUpdateHeaders X C H) (own : X)
    (stateMeta : ClientStateMeta X H) (HeightOf : X → H → Prop) : Prop where
  counterparty : r.counterpartyChainId = own
  chain : r.chainId = stateMeta.counterpartyChainId
  height : HeightOf stateMeta.counterpartyChainId r.updateTo

variable {own : X} {latest : X → H} {stateMeta : ClientStateMeta X H} {HeightOf : X → H → Prop} {clientId : C}

theorem mem_of_mapM_exactOp {x : CallOp X C H E} : ∀ {batches : List (List (BatchableEvent H E))}
    {ops : List (CallOp X C H E)}, batches.mapM (exactOp own stateMeta clientId) = .ok ops → x ∈ ops →
      ∃ b ∈ batches, exactOp own stateMeta clientId b = .ok x := by
  intro batches
  induction batches with
  | nil =>
    intro ops h hx
    cases h
    cases hx
  | cons b batches ih =>
    intro ops h hx
    simp only [mapM_cons, bind_eq_ok, pure_eq_ok] at h
    obtain ⟨y, hy, ys, hys, rfl⟩ := h
    rcases List.mem_cons.mp hx with rfl | hx
    · exact ⟨b, mem_cons_self, hy⟩
    · obtain ⟨b', hb', hb⟩ := ih hys hx
      exact ⟨b', mem_cons_of_mem _ hb', hb⟩

theorem makeTransactionBatches_for {batches : List (List (BatchableEvent H E))} {ops : List (CallOp X C H E)}
    (hlatest : ∀ c, HeightOf c (latest c))
    (hevents : ∀ e ∈ batches.flatten, HeightOf stateMeta.counterpartyChainId e.provableHeight.height)
    (hcall : makeTransactionBatches own latest stateMeta clientId batches = .ok ops)
      {op : CallOp X C H E} (hop : op ∈ ops)
    {r : FetchUpdateHeaders X C H} (hr : op.request = some r) : r.For own stateMeta HeightOf := by
  simp only [makeTransactionBatches] at hcall
  split at hcall
  · cases hcall
  · cases hcall
  · split at hcall
    · cases hcall
    · split at hcall <;> cases hcall <;> obtain rfl := List.mem_singleton.mp hop
      · cases hr
      · cases hr
        exact ⟨rfl, rfl, hlatest _⟩
  · obtain ⟨batch, hbatch, hx⟩ := mem_of_mapM_exactOp hcall hop
    unfold exactOp at hx
    split at hx
    · dsimp only at hx
      split at hx <;> cases hx <;> cases hr
      exact ⟨rfl, rfl, hevents _ (mem_flatten_of_mem hbatch mem_cons_self)⟩
    · cases hx

/-- **Every update that is asked for is for the chain the client tracks iff no proof was
    unavailable**, or the client tracks the chain it is on. -/
theorem requests_for_iff (hlatest : ∀ c, HeightOf c (latest c)) {batches : List (List (BatchableEvent H E))}
    (hevents : ∀ e ∈ batches.flatten, HeightOf stateMeta.counterpartyChainId e.provableHeight.height)
    (eventsNoProofAvailable : List (BatchableEvent H E)) :
    ((∀ ops, makeTransactionBatches own latest stateMeta clientId batches = .ok ops →
        ∀ op ∈ ops, ∀ r, op.request = some r → r.For own stateMeta HeightOf) ∧
      ∀ op, eventsNoProofAvailableMsg own latest stateMeta clientId eventsNoProofAvailable = some op →
        ∀ r, op.request = some r → r.For own stateMeta HeightOf) ↔
    eventsNoProofAvailable = [] ∨ own = stateMeta.counterpartyChainId := by
  rw [and_iff_right fun ops hcall op hop r hr => makeTransactionBatches_for hlatest hevents hcall hop hr]
  unfold eventsNoProofAvailableMsg
  cases eventsNoProofAvailable with
  | nil => simp
  | cons e rest =>
    rw [or_iff_right (cons_ne_nil e rest)]
    constructor
    · intro hfor
      exact (hfor _ rfl _ rfl).chain
    · rintro rfl op h r hr
      cases h
      cases hr
      exact ⟨rfl, rfl, hlatest _⟩

end Requests

open Sample in
theorem requests_for_none : (∀ e ∈ equals.flatten, e.provableHeight.height = 3) ∧
    (∀ ops, makeTransactionBatches "a" (fun _ => 3) ⟨"b", 0⟩ () equals = .ok ops →
      ∀ op ∈ ops, ∀ r, op.request = some r → r.For "a" ⟨"b", 0⟩ fun _ h => h = 3) ∧
    ∀ op, eventsNoProofAvailableMsg "a" (fun _ => 3) ⟨"b", 0⟩ ()
      ([] : List (BatchableEvent Nat Unit)) = some op →
      ∀ r, op.request = some r → r.For "a" ⟨"b", 0⟩ fun _ h => h = 3 :=
  have hevents : ∀ e ∈ equals.flatten, e.provableHeight.height = 3 := by decide
  have hlatest : ∀ _ : String, 3 = 3 := fun _ => rfl
  ⟨hevents, (@requests_for_iff _ _ _ _ _ "a" (fun _ => 3) ⟨"b", 0⟩ (fun _ h => h = 3) () hlatest _
    hevents []).mpr (.inl rfl)⟩

open Sample in
/-- The update is asked for on the chain it is for. -/
theorem own_chain_requested : ¬ ∀ op, eventsNoProofAvailableMsg "a" (fun _ => 3) ⟨"b", 0⟩ ()
    [event (.min 3)] = some op →
    ∀ r, op.request = some r → r.For "a" ⟨"b", 0⟩ fun _ h => h = 3 := by
  intro h
  exact absurd (h _ rfl _ rfl).chain (by decide)

end UnionVoyager.TransactionBatch
