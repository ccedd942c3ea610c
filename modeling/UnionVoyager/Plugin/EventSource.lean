import Mathlib.Data.Set.Function
import UnionVoyager.Lib.Machine

/-!
# The event sources

`fetch_blocks` of `voyager/plugins/event-source`, the same for `evm`, `cosmwasm` and `gno`, and the
`WaitForHeight` calls in between.  Heights are of one revision: the calls with a height of another
one fail.

* `fetchBlocks_spec` — what one call fetches; `Progress.step`, `remaining_step` — what a step keeps and gains.
-/

namespace UnionVoyager.EventSource

open Lib Machine Function List

structure Indexer where
  chunkBlockFetchSize : Nat
  chunk_pos : 0 < chunkBlockFetchSize
  /-- `until`, given by an `IndexRange`. -/
  untilHeight : Option Nat

/-- The call that is left besides the ones for single blocks. -/
inductive Call where
  | nothing
  | waitForHeight (height : Nat)
  | fetchBlocks (height : Nat)

/-- A block for which `FetchBlock` or `FetchGetLogs` was called, and what was finalized then. -/
structure Fetched where
  height : Nat
  latest : Nat
  deriving DecidableEq

namespace Indexer

variable (x : Indexer)

/-- The sum of two `u64`, and `min` with the end of the range. -/
def nextHeight (height latest : Nat) : Nat :=
  let nextHeight := (max 1 (min (latest - height) x.chunkBlockFetchSize) + height) % 2 ^ 64
  min nextHeight (x.untilHeight.getD nextHeight)

/-- `fetch_blocks` for a height that is not the last one of a range. -/
def fetchChunk (height latest : Nat) : List Nat × Call :=
  if height ≤ latest then
    let nextHeight := x.nextHeight height latest
    (range' height (nextHeight - height), .waitForHeight nextHeight)
  else ([], .waitForHeight height)

def fetchBlocks (height latest : Nat) : List Nat × Call :=
  match x.untilHeight with
  | none => x.fetchChunk height latest
  | some untilHeight =>
    if height > untilHeight then ([], .nothing)
    else if height = untilHeight then ([height], .nothing)
    else x.fetchChunk height latest

/-- The next call is made when the chain has finalized a height. -/
def step (call : Call) (latest : Nat) : Call × List Fetched :=
  match call with
  | .nothing => (.nothing, [])
  | .waitForHeight height =>
    (if latest ≥ height then .fetchBlocks height else .waitForHeight height, [])
  | .fetchBlocks height =>
    let (heights, call) := x.fetchBlocks height latest
    (call, heights.map fun height => ⟨height, latest⟩)

def Within (height : Nat) : Prop := ∀ untilHeight ∈ x.untilHeight, height ≤ untilHeight

/-- The last height of the range is fetched when it is finalized; and the next height is an `u64`. -/
def Ready (call : Call) (latest : Nat) : Prop :=
  latest + 1 < 2 ^ 64 ∧ ∀ height ∈ x.untilHeight, call = .fetchBlocks height → height ≤ latest

/-- The heights fetched so far are the ones from the start up to the call that is left. -/
structure Progress (start : Nat) (call : Call) (fetched : List Fetched) : Prop where
  heights : fetched.map Fetched.height = range' start fetched.length
  blocks : ∀ block ∈ fetched, block.height ≤ block.latest ∧ x.Within block.height
  pending : ∀ height, call = .waitForHeight height ∨ call = .fetchBlocks height →
    start + fetched.length = height ∧ x.Within height
  done : call = .nothing → ∃ last, x.untilHeight = some last ∧ start + fetched.length = last + 1

variable {x} {start height latest : Nat}

theorem nextHeight_bounds (hle : height ≤ latest) (hlt : latest + 1 < 2 ^ 64)
    (huntil : ∀ untilHeight ∈ x.untilHeight, height < untilHeight) :
    height < x.nextHeight height latest ∧ x.nextHeight height latest ≤ max latest (height + 1) ∧
      x.Within (x.nextHeight height latest) := by
  unfold Within nextHeight
  extract_lets next
  have hnext : next = max 1 (min (latest - height) x.chunkBlockFetchSize) + height :=
    Nat.mod_eq_of_lt (by omega)
  cases hx : x.untilHeight with
  | none => simp; omega
  | some untilHeight =>
    have hu := huntil untilHeight hx
    rw [Option.getD_some]
    refine ⟨by omega, by omega, ?_⟩
    rintro _ ⟨⟩
    exact Nat.min_le_right _ _

/-- A call fetches the next blocks up to the finalized one, or the last block of the range. -/
theorem fetchBlocks_spec (hle : x.Within height) (hready : x.Ready (.fetchBlocks height) latest) :
    ∃ n, (height ≤ latest → 0 < n) ∧ (0 < n → height + n ≤ latest + 1) ∧
      (x.fetchBlocks height latest = (range' height n, .waitForHeight (height + n)) ∧ x.Within (height + n) ∨
        x.fetchBlocks height latest = (range' height n, .nothing) ∧ x.untilHeight = some height ∧ n = 1) := by
  by_cases hlast : x.untilHeight = some height
  · have hfinal := hready.2 height hlast rfl
    refine ⟨1, fun _ => Nat.one_pos, fun _ => by omega, .inr ⟨?_, hlast, rfl⟩⟩
    simp [fetchBlocks, hlast]
  · have hlt : ∀ untilHeight ∈ x.untilHeight, height < untilHeight := by
      intro untilHeight hx
      refine Nat.lt_of_le_of_ne (hle untilHeight hx) ?_
      rintro rfl
      exact hlast hx
    have hchunk : x.fetchBlocks height latest = x.fetchChunk height latest := by
      unfold fetchBlocks
      cases hx : x.untilHeight with
      | none => rfl
      | some untilHeight =>
        have hu := hlt untilHeight hx
        show (if height > untilHeight then _ else _) = _
        rw [if_neg (by omega), if_neg (by omega)]
    rw [hchunk, fetchChunk]
    split_ifs with hcmp
    · obtain ⟨hnext, hmax, huntil⟩ := nextHeight_bounds hcmp hready.1 hlt
      refine ⟨x.nextHeight height latest - height, fun _ => by omega, fun _ => by omega, .inl ?_⟩
      rw [Nat.add_sub_cancel' (Nat.le_of_lt hnext)]
      exact ⟨rfl, huntil⟩
    · exact ⟨0, fun h => absurd h hcmp, fun h => by omega, .inl ⟨rfl, hle⟩⟩

variable {call : Call} {fetched : List Fetched}

theorem Progress.step (h : x.Progress start call fetched) (hready : x.Ready call latest) :
    x.Progress start (x.step call latest).1 (fetched ++ (x.step call latest).2) := by
  cases call with
  | nothing => simpa only [Indexer.step, append_nil] using h
  | waitForHeight next =>
    have hpending := h.pending next (.inl rfl)
    rw [Indexer.step, append_nil]
    split_ifs
    · refine ⟨h.heights, h.blocks, ?_, nofun⟩
      intro other hother
      obtain rfl : next = other := by simpa using hother
      exact hpending
    · refine ⟨h.heights, h.blocks, ?_, nofun⟩
      intro other hother
      obtain rfl : next = other := by simpa using hother
      exact hpending
  | fetchBlocks next =>
    obtain ⟨hlength, hle⟩ := h.pending next (.inr rfl)
    obtain ⟨n, -, hfinal, hcase⟩ := fetchBlocks_spec hle hready
    have hwithin : ∀ k, k < next + n → x.Within k := by
      intro k hk untilHeight hx
      rcases hcase with ⟨-, huntil⟩ | ⟨-, hlast, rfl⟩
      · exact Nat.le_of_lt (Nat.lt_of_lt_of_le hk (huntil untilHeight hx))
      · cases hlast.symm.trans hx
        omega
    have happend : ∀ blocks : List Fetched, blocks = (range' next n).map (fun height => ⟨height, latest⟩) →
        (fetched ++ blocks).length = fetched.length + n ∧
          (fetched ++ blocks).map Fetched.height = range' start (fetched.length + n) ∧
          ∀ block ∈ fetched ++ blocks, block.height ≤ block.latest ∧ x.Within block.height := by
      rintro _ rfl
      refine ⟨by simp, ?_, ?_⟩
      · rw [map_append, h.heights, map_map, ← range'_append_1, hlength]
        simp [comp_def]
      · intro block hblock
        rcases List.mem_append.mp hblock with hblock | hblock
        · exact h.blocks block hblock
        · obtain ⟨k, hk, rfl⟩ := List.mem_map.mp hblock
          rw [mem_range'_1] at hk
          refine ⟨?_, hwithin k hk.2⟩
          show k ≤ latest
          omega
    obtain ⟨hlen, hheights, hfetched⟩ := happend _ rfl
    rcases hcase with ⟨heq, huntil⟩ | ⟨heq, hlast, rfl⟩
    · rw [Indexer.step, heq]
      refine ⟨hheights.trans (by rw [hlen]), hfetched, ?_, nofun⟩
      intro other hother
      obtain rfl : next + n = other := by simpa using hother
      exact ⟨by rw [hlen]; omega, huntil⟩
    · rw [Indexer.step, heq]
      exact ⟨hheights.trans (by rw [hlen]), hfetched, by simp, fun _ => ⟨next, hlast, by rw [hlen]; omega⟩⟩

theorem progress_run {latests : List Nat} (hstart : x.Within start)
    (hmeets : Meets x.step x.Ready (.fetchBlocks start) latests) :
    x.Progress start (run x.step (.fetchBlocks start) latests)
      (trace x.step (.fetchBlocks start) latests) := by
  refine invariant_of_meets (I := x.Progress start) (fun _ _ _ h hready => h.step hready) ?_ hmeets
  refine ⟨rfl, by simp, ?_, nofun⟩
  intro height hheight
  obtain rfl : start = height := by simpa using hheight
  exact ⟨rfl, hstart⟩

/-- The steps until a height is fetched, once it is finalized. -/
def remaining (height : Nat) : Call → Nat
  | .nothing => 0
  | .waitForHeight next => 2 * (height + 1 - next)
  | .fetchBlocks next => 2 * (height + 1 - next) - 1

theorem remaining_step (h : x.Progress start call fetched) (hready : x.Ready call latest)
    (hle : height ≤ latest) :
    remaining height (x.step call latest).1 ≤ remaining height call - 1 := by
  cases call with
  | nothing => exact Nat.zero_le _
  | waitForHeight next =>
    rw [Indexer.step]
    split_ifs with hcmp
    · exact Nat.le_refl _
    · simp only [remaining]
      omega
  | fetchBlocks next =>
    obtain ⟨n, hpos, -, hcase⟩ := fetchBlocks_spec (h.pending next (.inr rfl)).2 hready
    rcases hcase with ⟨heq, -⟩ | ⟨heq, -, -⟩
    · rw [Indexer.step, heq]
      simp only [remaining]
      omega
    · rw [Indexer.step, heq]
      exact Nat.zero_le _

theorem Progress.remaining_le (h : x.Progress start call fetched) (height : Nat) :
    remaining height call ≤ 2 * (height + 1 - start) := by
  cases call with
  | nothing => exact Nat.zero_le _
  | waitForHeight next =>
    have hpending := (h.pending next (.inl rfl)).1
    simp only [remaining]
    omega
  | fetchBlocks next =>
    have hpending := (h.pending next (.inr rfl)).1
    simp only [remaining]
    omega

theorem Progress.lt_of_remaining (h : x.Progress start call fetched) (hwithin : x.Within height)
    (hzero : remaining height call = 0) : height < start + fetched.length := by
  cases call with
  | nothing =>
    obtain ⟨last, hlast, hlen⟩ := h.done rfl
    have hle := hwithin last hlast
    omega
  | waitForHeight next =>
    have hpending := (h.pending next (.inl rfl)).1
    simp only [remaining] at hzero
    omega
  | fetchBlocks next =>
    have hpending := (h.pending next (.inr rfl)).1
    simp only [remaining] at hzero
    omega

theorem remaining_run (latests : List Nat) : ∀ (call : Call) (fetched : List Fetched),
    x.Progress start call fetched → Meets x.step x.Ready call latests →
      (∀ latest ∈ latests, height ≤ latest) →
      remaining height (run x.step call latests) ≤ remaining height call - latests.length := by
  induction latests with
  | nil =>
    intro call fetched _ _ _
    exact Nat.le_refl _
  | cons latest latests ih =>
    intro call fetched h hmeets hle
    obtain ⟨hhead, htail⟩ := List.forall_mem_cons.mp hle
    have hstep := remaining_step h hmeets.1 hhead
    have hrest := ih _ _ (h.step hmeets.1) hmeets.2 htail
    rw [run, length_cons]
    omega

/-- Only the first call may be for a height that is not finalized. -/
theorem meets_ready {latests : List Nat} (hmono : latests.Pairwise (· ≤ ·))
    (hlt : ∀ latest ∈ latests, latest + 1 < 2 ^ 64) : ∀ call : Call,
      (∀ height ∈ x.untilHeight, call = .fetchBlocks height → ∀ latest ∈ latests.head?, height ≤ latest) →
        Meets x.step x.Ready call latests := by
  induction latests with
  | nil => exact fun _ _ => trivial
  | cons latest latests ih =>
    intro call hfirst
    obtain ⟨hhead, htail⟩ := List.pairwise_cons.mp hmono
    obtain ⟨hlthead, hlttail⟩ := List.forall_mem_cons.mp hlt
    refine ⟨⟨hlthead, fun height hx hcall => hfirst height hx hcall latest rfl⟩, ih htail hlttail _ ?_⟩
    intro height hx hcall later hlater
    have hle := hhead later (mem_of_mem_head? hlater)
    cases call with
    | nothing => cases hcall
    | waitForHeight next =>
      rw [Indexer.step] at hcall
      split_ifs at hcall with hcmp
      cases hcall
      omega
    | fetchBlocks next =>
      unfold Indexer.step fetchBlocks fetchChunk at hcall
      grind

/-- **Every block is fetched once**, in order, not before it is finalized, and at the latest two
    steps for each block after it is. -/
theorem every_block_once {latests : List Nat} (hstart : x.Within start)
    (hmono : latests.Pairwise (· ≤ ·)) (hlt : ∀ latest ∈ latests, latest + 1 < 2 ^ 64)
    (hfinal : x.untilHeight = some start → ∀ latest ∈ latests.head?, start ≤ latest) :
    (trace x.step (.fetchBlocks start) latests).map Fetched.height
        = range' start (trace x.step (.fetchBlocks start) latests).length ∧
      (∀ block ∈ trace x.step (.fetchBlocks start) latests, block.height ≤ block.latest ∧
        x.Within block.height) ∧
      ∀ height past rest, latests = past ++ rest → start ≤ height → x.Within height →
        (∀ latest ∈ rest, height ≤ latest) → 2 * (height + 1 - start) ≤ rest.length →
        height ∈ (trace x.step (.fetchBlocks start) latests).map Fetched.height := by
  have hmeets : Meets x.step x.Ready (.fetchBlocks start) latests := by
    refine meets_ready hmono hlt _ ?_
    rintro height hx ⟨⟩
    exact hfinal hx
  have hrun := progress_run hstart hmeets
  refine ⟨hrun.heights, hrun.blocks, ?_⟩
  rintro height past rest rfl hge hwithin hle hlong
  obtain ⟨hpast, hrest⟩ := (meets_append _ past rest).mp hmeets
  have hbefore := progress_run hstart hpast
  have hafter := remaining_run rest _ _ hbefore hrest hle
  rw [← run_append] at hafter
  have hstarted := hbefore.remaining_le height
  have hpassed := hrun.lt_of_remaining hwithin (by omega)
  rw [hrun.heights, mem_range'_1]
  exact ⟨hge, hpassed⟩

theorem every_block_once_range :
    3 ∈ (trace (⟨2, Nat.two_pos, some 3⟩ : Indexer).step (.fetchBlocks 1)
      [2, 2, 3, 3, 4, 4, 4, 4]).map Fetched.height := by
  have hwithin : ∀ height ≤ 3, (⟨2, Nat.two_pos, some 3⟩ : Indexer).Within height := by
    rintro height hle _ ⟨⟩
    exact hle
  exact (every_block_once (hwithin 1 (by decide)) (by decide) (by decide) nofun).2.2 3 [2, 2]
    [3, 3, 4, 4, 4, 4] rfl (by decide) (hwithin 3 (by decide)) (by decide) (by decide)

/-- A range of one block is not waited for. -/
theorem fetched_before_finalized :
    trace (⟨1, Nat.one_pos, some 5⟩ : Indexer).step (.fetchBlocks 5) [3] = [⟨5, 3⟩] := by
  decide

end Indexer

/-! ## Fetching a block twice -/

section Firsts

variable {E K : Type} [DecidableEq K] (key : E → Option K)

/-- Of the events with one key only the first is left, and none with a key seen before. -/
def firsts : List K → List E → List E
  | _, [] => []
  | seen, e :: es => match key e with
    | none => e :: firsts seen es
    | some k => if k ∈ seen then firsts seen es else e :: firsts (k :: seen) es

variable {key}

theorem countP_firsts (k : K) (es : List E) : ∀ seen : List K,
    (firsts key seen es).countP (key · = some k) = if k ∉ seen ∧ ∃ e ∈ es, key e = some k then 1 else 0 := by
  induction es with
  | nil => simp [firsts]
  | cons e es ih =>
    intro seen
    rw [firsts]
    cases hkey : key e with
    | none => simp [ih, hkey]
    | some k' =>
      by_cases hk : k' = k
      · subst hk
        by_cases hseen : k' ∈ seen <;> simp [ih, hkey, hseen]
      · by_cases hseen : k' ∈ seen <;> simp [ih, hkey, hseen, hk, Ne.symm hk]

theorem count_firsts [DecidableEq E] {e : E} (hkey : key e = none) (es : List E) : ∀ seen : List K,
    (firsts key seen es).count e = es.count e := by
  induction es with
  | nil => simp [firsts]
  | cons e' es ih =>
    intro seen
    rw [firsts]
    cases hkey' : key e' with
    | none => simp [ih, count_cons]
    | some k =>
      have hne : e' ≠ e := by
        rintro rfl
        cases hkey.symm.trans hkey'
      by_cases hseen : k ∈ seen <;> simp [ih, hseen, hne]

theorem mem_of_mem_firsts {e : E} : ∀ {es : List E} {seen : List K}, e ∈ firsts key seen es → e ∈ es
  | e' :: es, seen, h => by
    rw [firsts] at h
    cases hkey : key e' with
    | none =>
      rw [hkey] at h
      exact (List.mem_cons.mp h).elim (· ▸ .head _) fun h => .tail _ (mem_of_mem_firsts h)
    | some k =>
      simp only [hkey] at h
      split at h
      · exact .tail _ (mem_of_mem_firsts h)
      · exact (List.mem_cons.mp h).elim (· ▸ .head _) fun h => .tail _ (mem_of_mem_firsts h)

end Firsts

/-- What `fetch_block` reads of the events of `cosmwasm`, and its configuration. -/
structure EventFetcher (E K H : Type) where
  hash : E → H
  /-- The channel and the batch hash of a `WasmBatchSend`. -/
  batch : E → Option K
  isTrivial : E → Bool
  /-- It parses, and names no other contract than the configured one. -/
  isOurs : E → Bool
  indexTrivialEvents : Bool

namespace EventFetcher

variable {E K H : Type} [DecidableEq K] [DecidableEq H] (x : EventFetcher E K H)

def indexes (e : E) : Bool := !x.isTrivial e || x.indexTrivialEvents

def makeChainEvent (seenBatches : List K) (e : E) : List E × List K :=
  if x.indexes e then
    match x.batch e with
    | none => ([e], seenBatches)
    | some k => if k ∈ seenBatches then ([], seenBatches) else ([e], k :: seenBatches)
  else ([], seenBatches)

def firstPass : List K → List E → List E
  | _, [] => []
  | seenBatches, e :: es =>
    let (op, seenBatches) := x.makeChainEvent seenBatches e
    op ++ firstPass seenBatches es

/-- `EventState` only decides what is logged. -/
def secondPass : List H → List K → List E → List E
  | _, _, [] => []
  | alreadySeen, seenBatches, e :: es =>
    if x.hash e ∈ alreadySeen then secondPass alreadySeen seenBatches es
    else
      let (op, seenBatches) := x.makeChainEvent seenBatches e
      op ++ secondPass (x.hash e :: alreadySeen) seenBatches es

/-- The transactions of all pages, and the events of the block itself. -/
def events (pages : List (List (List E))) (blockEvents : List E) : List E :=
  (pages.flatten.flatten ++ blockEvents).filter x.isOurs

def fetchBlock (alreadySeen : Option (List H)) (events : List E) : List E × Option (List H) :=
  match alreadySeen with
  | none => (x.firstPass [] events, some (events.map x.hash))
  | some alreadySeen => (x.secondPass alreadySeen [] events, none)

def bothPasses (first block : List E) : List E :=
  let (ops, alreadySeen) := x.fetchBlock none first
  ops ++ (x.fetchBlock alreadySeen block).1

variable [DecidableEq E]

/-- Every event as often as in the block, and of every batch one. -/
structure Completed (ops block : List E) : Prop where
  events : ∀ e, x.indexes e → x.batch e = none → ops.count e = block.count e
  batches : ∀ k, ops.countP (x.batch · = some k) = if ∃ e ∈ block, x.indexes e ∧
    x.batch e = some k then 1 else 0

/-- The first answer misses none of several equal events, and none or all of a batch. -/
structure Apart (first block : List E) : Prop where
  events : ∀ e ∈ block, x.indexes e → x.batch e = none →
    first.count e = block.count e ∨ e ∉ first ∧ block.count e = 1
  batches : ∀ k, (∃ e ∈ first, x.indexes e ∧ x.batch e = some k) →
    ∀ e ∈ block, x.indexes e → x.batch e = some k → e ∈ first

variable {x} {first block : List E}

omit [DecidableEq E] [DecidableEq H] in
theorem firstPass_eq (es : List E) : ∀ seen :
    List K, x.firstPass seen es = firsts x.batch seen (es.filter x.indexes) := by
  induction es with
  | nil => exact fun _ => rfl
  | cons e es ih =>
    intro seen
    rw [firstPass, makeChainEvent]
    by_cases hindex : x.indexes e = true
    · rw [filter_cons_of_pos hindex, firsts, if_pos hindex]
      cases x.batch e with
      | none => simp [ih]
      | some k => by_cases hseen : k ∈ seen <;> simp [ih, hseen]
    · rw [filter_cons_of_neg hindex, if_neg hindex]
      exact ih seen

omit [DecidableEq E] in
theorem secondPass_eq (es : List E) : ∀ (already : List H) (seen : List K),
    x.secondPass already seen es = x.firstPass seen (firsts (fun e => some (x.hash e)) already es) := by
  induction es with
  | nil => exact fun _ _ => rfl
  | cons e es ih =>
    intro already seen
    by_cases halready : x.hash e ∈ already <;> simp [secondPass, firsts, firstPass, halready, ih]

section

variable (hhash : Set.InjOn x.hash {e | e ∈ block})

include hhash

omit [DecidableEq K] in
theorem count_missed (hsub : first ⊆ block) (e : E) :
    (firsts (fun e => some (x.hash e)) (first.map x.hash) block).count e = if e ∉ first ∧
      e ∈ block then 1 else 0 := by
  by_cases he : e ∈ block
  · have hcount := @countP_firsts E H _ (fun e => some (x.hash e)) (x.hash e) block (first.map x.hash)
    have hseen : x.hash e ∈ first.map x.hash ↔ e ∈ first := by
      refine ⟨fun h => ?_, mem_map_of_mem⟩
      obtain ⟨e', he', heq⟩ := List.mem_map.mp h
      exact hhash (hsub he') he heq ▸ he'
    have hthere : ∃ e' ∈ block, some (x.hash e') = some (x.hash e) := ⟨e, he, rfl⟩
    simp only [hseen, hthere, and_true] at hcount
    simp only [he, and_true]
    rw [List.count, ← hcount]
    refine countP_congr fun e' he' => ?_
    simp only [beq_iff_eq, Option.some.injEq, decide_eq_true_iff]
    exact (hhash.eq_iff (mem_of_mem_firsts he') he).symm
  · rw [if_neg fun h => he h.2]
    exact List.count_eq_zero.mpr fun h => he (mem_of_mem_firsts h)

omit [DecidableEq K] in
theorem mem_missed (hsub : first ⊆ block) {e : E} :
    e ∈ firsts (fun e => some (x.hash e)) (first.map x.hash) block ↔ e ∉ first ∧ e ∈ block := by
  rw [← count_pos_iff, count_missed hhash hsub]
  split_ifs with h <;> simp [h]

theorem count_bothPasses (hsub : first ⊆ block) {e : E} (hindex : x.indexes e)
    (hbatch : x.batch e = none) :
    (x.bothPasses first block).count e = first.count e + if e ∉ first ∧ e ∈ block then 1 else 0 := by
  simp only [bothPasses, fetchBlock, secondPass_eq, firstPass_eq, List.count_append, count_firsts hbatch,
    count_filter hindex, count_missed hhash hsub]

theorem countP_bothPasses (hsub : first ⊆ block) (k : K) :
    (x.bothPasses first block).countP (x.batch · = some k) =
      (if ∃ e ∈ first, x.indexes e ∧ x.batch e = some k then 1 else 0) +
        if ∃ e ∈ block, e ∉ first ∧ x.indexes e ∧ x.batch e = some k then 1 else 0 := by
  simp only [bothPasses, fetchBlock, secondPass_eq, firstPass_eq, countP_append, countP_firsts, not_mem_nil,
    not_false_eq_true, true_and]
  refine congrArg₂ (· + ·) (if_congr ?_ rfl rfl) (if_congr ?_ rfl rfl)
  · simp only [mem_filter, and_assoc]
  · simp only [mem_filter, mem_missed hhash hsub, and_assoc, and_left_comm]

theorem count_bothPasses_iff (hsub : first ⊆ block) {e : E}
    (hmissed : first.count e ≤ block.count e) (hindex : x.indexes e) (hbatch : x.batch e = none) :
    (x.bothPasses first block).count e = block.count e ↔
      (e ∈ block → first.count e = block.count e ∨ e ∉ first ∧ block.count e = 1) := by
  rw [count_bothPasses hhash hsub hindex hbatch]
  simp only [← count_pos_iff]
  split_ifs <;> omega

theorem countP_bothPasses_iff (hsub : first ⊆ block) (k : K) :
    (x.bothPasses first block).countP (x.batch · = some k) =
        (if ∃ e ∈ block, x.indexes e ∧ x.batch e = some k then 1 else 0) ↔
      ((∃ e ∈ first, x.indexes e ∧ x.batch e = some k) →
        ∀ e ∈ block, x.indexes e → x.batch e = some k → e ∈ first) := by
  rw [countP_bothPasses hhash hsub]
  by_cases hfirst : ∃ e ∈ first, x.indexes e ∧ x.batch e = some k
  · have hblock : ∃ e ∈ block, x.indexes e ∧ x.batch e = some k := by
      obtain ⟨e, he, hspec⟩ := hfirst
      exact ⟨e, hsub he, hspec⟩
    rw [if_pos hfirst, if_pos hblock]
    split_ifs with hnot
    · obtain ⟨e, he, hfirst', hindex, hbatch⟩ := hnot
      exact iff_of_false (by omega) fun h => hfirst' (h hfirst e he hindex hbatch)
    · refine iff_of_true rfl fun _ e he hindex hbatch => ?_
      by_contra hfirst'
      exact hnot ⟨e, he, hfirst', hindex, hbatch⟩
  · refine iff_of_true ?_ fun h => absurd h hfirst
    rw [if_neg hfirst, Nat.zero_add]
    refine if_congr ?_ rfl rfl
    grind

end

/-- **Both passes complete the block iff** what the first answer misses stands apart. -/
theorem completed_iff (hhash : Set.InjOn x.hash {e | x.isOurs e})
    {pages pages' : List (List (List E))} {blockEvents : List E}
    (hmissed : ∀ e, (x.events pages blockEvents).count e ≤ (x.events pages' blockEvents).count e) :
    x.Completed (x.bothPasses (x.events pages blockEvents) (x.events pages' blockEvents))
      (x.events pages' blockEvents) ↔
      x.Apart (x.events pages blockEvents) (x.events pages' blockEvents) := by
  have hours : {e | e ∈ x.events pages' blockEvents} ⊆ {e | x.isOurs e} := fun e he => of_mem_filter he
  replace hhash := hhash.mono hours
  generalize x.events pages blockEvents = first at *
  generalize x.events pages' blockEvents = block at *
  have hsub : first ⊆ block := by
    intro e he
    exact List.count_pos_iff.mp (Nat.lt_of_lt_of_le (List.count_pos_iff.mpr he) (hmissed e))
  constructor
  · intro h
    constructor
    · intro e he hindex hbatch
      exact (count_bothPasses_iff hhash hsub (hmissed e) hindex hbatch).mp (h.events e hindex hbatch) he
    · intro k
      exact (countP_bothPasses_iff hhash hsub k).mp (h.batches k)
  · intro h
    constructor
    · intro e hindex hbatch
      exact (count_bothPasses_iff hhash hsub (hmissed e) hindex hbatch).mpr fun he =>
        h.events e he hindex hbatch
    · intro k
      exact (countP_bothPasses_iff hhash hsub k).mpr (h.batches k)

/-- The tens are the batch, if there are any. -/
def sampleFetcher : EventFetcher Nat Nat Nat where
  hash := id
  batch e := if e < 10 then none else some (e / 10)
  isTrivial _ := false
  isOurs _ := true
  indexTrivialEvents := true

theorem completed_iff_missed : sampleFetcher.Completed
    (sampleFetcher.bothPasses (sampleFetcher.events [[[1]]] [])
    (sampleFetcher.events [[[1], [11]]] [])) (sampleFetcher.events [[[1], [11]]] []) := by
  have hsub : (sampleFetcher.events [[[1]]] []).Sublist (sampleFetcher.events [[[1], [11]]] []) := by decide
  refine (completed_iff (fun _ _ _ _ h => h) fun e => hsub.count_le e).mpr ⟨by decide, ?_⟩
  rintro k ⟨e, he, -, hbatch⟩
  obtain rfl : e = 1 := List.mem_singleton.mp he
  cases hbatch

/-- One of two equal events is lost, and a batch of two events is there twice. -/
theorem lost_or_repeated : sampleFetcher.bothPasses [1] [1, 1] = [1] ∧
    sampleFetcher.bothPasses [11] [11, 12] = [11, 12] := by
  decide

end EventFetcher

end UnionVoyager.EventSource
