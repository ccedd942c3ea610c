import UnionVoyager.Core.Evolve
import UnionVoyager.Core.Provable

/-!
# Chains connected by sound light clients

A world is a family of chains, each running the IBC core.  A chain has a block under construction
and a history of finished blocks, each with its provable store and its time.  Transactions and block
ends of all chains interleave in any order.

`tracks i k` is the chain that client `k` of chain `i` follows.  A client answers a query about a
height from the finished block of that height (`soundQuerier`): it accepts a membership proof only
if the block maps the path to the value, a non-membership proof only if it maps it to nothing, and
reports the time of the block.  It may still refuse for reasons of its own.  Everything else a
transaction sees is arbitrary.

* `step_case` — **what one action can do**.
* `proven_block`, `absent_block` — what an accepted proof says about the tracked chain.
* `proven_connection`, `proven_channel` — **what it says of a connection or a channel holds of the
  present one, up to `Le`**.
-/

namespace UnionVoyager.Net

open Core Lib Function

/-- A finished block: its provable store and its time. -/
structure Block where
  store : H256 → Option H256
  time : Timestamp

/-- A chain: the storage of its core, the time of the block under construction, and the finished
    blocks, by height. -/
structure Chain where
  core : State
  now : Timestamp
  blocks : List Block

/-- A chain on which the core was just deployed. -/
def Chain.genesis (t : Timestamp) : Chain := ⟨.init, t, []⟩

def Chain.block? (c : Chain) (h : Height) : Option Block := c.blocks[h.toNat]?

/-- The block under construction is finished; the next one is `elapsed` later. -/
def Chain.endBlock (c : Chain) (elapsed : Nat) : Chain :=
  ⟨c.core, c.now + elapsed, c.blocks ++ [⟨c.core.commitments, c.now⟩]⟩

variable {ι : Type}

abbrev World (ι : Type) := ι → Chain

def World.genesis (t : ι → Timestamp) : World ι := fun i => .genesis (t i)

/-- Light clients that answer about a height from the block of that height; `q` may refuse. -/
def soundQuerier (view : ClientId → Height → Option Block) (q : Querier) : Querier :=
  { q with
    getTimestamp := fun impl k h =>
      if (q.getTimestamp impl k h).isSome then (view k h).map Block.time else none
    verifyMembership := fun impl r => q.verifyMembership impl r &&
      (view r.clientId r.height).any fun b => b.store r.path == some r.value
    verifyNonMembership := fun impl r => q.verifyNonMembership impl r &&
      (view r.clientId r.height).any fun b => b.store r.path == none }

/-- What a transaction on chain `i` sees. -/
def World.env (tracks : ι → ClientId → ι) (w : World ι) (i : ι) (env : Env) : Env :=
  { env with
    blockTime := (w i).now
    querier := soundQuerier (fun k => (w (tracks i k)).block?) env.querier }

/-! ## What an accepted proof says -/

variable {tracks : ι → ClientId → ι} {w : World ι}

theorem Chain.mem_of_block? {c : Chain} {h : Height} {b : Block} (hb : c.block? h = some b) :
    b ∈ c.blocks := List.mem_of_getElem? hb

theorem proven_block {i : ι} {env : Env} {k : ClientId} {h : Height} {path value : Bytes}
    (hp : Proven (w.env tracks i env) k h path value) :
    ∃ b ∈ (w (tracks i k)).blocks, b.store path = some value := by
  obtain ⟨impl, proof, hv⟩ := hp
  simp only [World.env, soundQuerier, Bool.and_eq_true, Option.any_eq_true, beq_iff_eq] at hv
  obtain ⟨-, b, hb, hs⟩ := hv
  exact ⟨b, Chain.mem_of_block? hb, hs⟩

theorem absent_block {i : ι} {env : Env} {k : ClientId} {h : Height} {path : Bytes} {impl : Addr}
    {t : Timestamp} (ht : (w.env tracks i env).querier.getTimestamp impl k h = some t)
    (hp : ProvenAbsent (w.env tracks i env) k h path) :
    ∃ b ∈ (w (tracks i k)).blocks, b.store path = none ∧ b.time = t := by
  obtain ⟨impl', proof, hv⟩ := hp
  simp only [World.env, soundQuerier, Bool.and_eq_true, Option.any_eq_true, beq_iff_eq] at hv
  obtain ⟨-, b, hb, hs⟩ := hv
  refine ⟨b, Chain.mem_of_block? hb, hs, ?_⟩
  simp only [World.env, soundQuerier] at ht
  split at ht
  · rw [hb] at ht
    simpa using ht
  · cases ht

/-! ## Actions -/

variable [DecidableEq ι]

/-- One action: a transaction on a chain, or the end of its block. -/
inductive Action (ι : Type) where
  | tx (chain : ι) (env : Env) (info : MessageInfo) (msg : ExecuteMsg)
  | endBlock (chain : ι) (elapsed : Nat)

/-- A transaction with one of the unverified messages. -/
def Action.isForce : Action ι → Bool
  | .tx _ _ _ m => m.isForce
  | .endBlock _ _ => false

/-- The world with the core storage of chain `i` replaced. -/
def World.setCore (w : World ι) (i : ι) (s : State) : World ι := update w i { w i with core := s }

section

variable (H : Hashing) (tracks : ι → ClientId → ι) (w : World ι)

/-- The world after an action, and what was dispatched to apps, by chain. -/
def step : Action ι → World ι × List (ι × Dispatch)
  | .tx i env info m =>
    let r := Core.step H (w i).core ⟨w.env tracks i env, info, m⟩
    (w.setCore i r.1, r.2.map fun d => (i, d))
  | .endBlock i elapsed => (update w i ((w i).endBlock elapsed), [])

def run (as : List (Action ι)) : World ι :=
  Machine.run (step H tracks) w as

/-- Everything dispatched to apps by a list of actions. -/
def trace (as : List (Action ι)) : List (ι × Dispatch) :=
  Machine.trace (step H tracks) w as

end

theorem setCore_self (w : World ι) (i : ι) : w.setCore i (w i).core = w := update_eq_self i w

@[simp] theorem setCore_core (w : World ι) (i : ι) (s : State) : (w.setCore i s i).core = s := by
  simp [World.setCore]

theorem setCore_of_ne {i j : ι} (h : j ≠ i) (w : World ι) (s : State) : w.setCore i s j = w j :=
    update_of_ne h ..

theorem setCore_keeps (P : State → Prop) {w : World ι} {i j : ι} {s s' : State}
    (hkeeps : j = i → P s → P s') (h : P (w.setCore i s j).core) : P (w.setCore i s' j).core := by
  by_cases hj : j = i
  · subst hj
    rw [setCore_core] at h ⊢
    exact hkeeps rfl h
  · rw [setCore_of_ne hj] at h ⊢
    exact h

@[simp] theorem setCore_blocks (w : World ι) (i j : ι) (s : State) :
    (w.setCore i s j).blocks = (w j).blocks := by
  by_cases h : j = i
  · subst h
    simp [World.setCore]
  · rw [setCore_of_ne h]

@[simp] theorem setCore_now (w : World ι) (i j : ι) (s : State) : (w.setCore i s j).now = (w j).now := by
  by_cases h : j = i
  · subst h
    simp [World.setCore]
  · rw [setCore_of_ne h]

/-- **What one action can do.** -/
inductive StepCase (H : Hashing) (tracks : ι → ClientId → ι) (w : World ι) (a : Action ι) :
    World ι → List (ι × Dispatch) → Prop
  | refused : StepCase H tracks w a w []
  | accepted {i : ι} {env : Env} {info : MessageInfo} {m : ExecuteMsg} {s : State}
      {msgs : List Dispatch} : a = .tx i env info m →
      Effect H (w.env tracks i env) info (w i).core m s msgs →
      StepCase H tracks w a (w.setCore i s) (msgs.map fun d => (i, d))
  | ended {i : ι} {elapsed : Nat} : a = .endBlock i elapsed →
      StepCase H tracks w a (update w i ((w i).endBlock elapsed)) []

theorem step_case (H : Hashing) (tracks : ι → ClientId → ι) (w : World ι) (a : Action ι) :
    StepCase H tracks w a (step H tracks w a).1 (step H tracks w a).2 := by
  cases a with
  | tx i env info m =>
    simp only [step]
    rcases Core.step_cases H (w i).core ⟨w.env tracks i env, info, m⟩ with he | he
    · rw [he, List.map_nil, setCore_self]
      exact .refused
    · exact .accepted rfl he
  | endBlock i elapsed => exact .ended rfl

/-! ## Two chains -/

/-- The two chains. -/
inductive Side where
  | a
  | b
  deriving DecidableEq

def Side.other : Side → Side
  | .a => .b
  | .b => .a

@[simp] theorem Side.other_other (i : Side) : i.other.other = i := by cases i <;> rfl

def twoChains (i : Side) (_ : ClientId) : Side := i.other

/-- A transaction of a relayer that nothing but the chains' own checks can refuse. -/
def relay {ι : Type} (i : ι) (m : RestrictedExecuteMsg) : Action ι :=
  .tx i (.permissive .accepting) ⟨"relayer", []⟩ (.restricted m)

end UnionVoyager.Net

/-! ## What a past block says about the present -/

namespace UnionVoyager.Net

open Core Lib Function

/-- The present storage explains what its blocks commit to. -/
structure Faithful (H : Hashing) (c : Chain) : Prop where
  wellFormed : WellFormed c.core
  provable : ProvableHandshake H c.core
  connection : ∀ b ∈ c.blocks, ∀ i v, b.store ((StorePath.connection i).key H) = some v →
    ∃ x x', v = commitConnection H x ∧ c.core.connections i = some x' ∧ x.Le x'
  channel : ∀ b ∈ c.blocks, ∀ i v, b.store ((StorePath.channel i).key H) = some v →
    ∃ x x', v = commitChannel H x ∧ c.core.channels i = some x' ∧ x.Le x'

theorem genesis_faithful (H : Hashing) (t : Timestamp) : Faithful H (.genesis t) where
  wellFormed := init_wellFormed
  provable := (init_provable H).handshake
  connection b hb := by cases hb
  channel b hb := by cases hb

variable {H : Hashing} {c : Chain}

theorem Faithful.evolve (h : Faithful H c) {s : State} (hwf : WellFormed s)
    (hp : ProvableHandshake H s) (he : Evolves c.core s) : Faithful H { c with core := s } where
  wellFormed := hwf
  provable := hp
  connection b hb i v hv := by
    obtain ⟨x, x', hx, hx', hle⟩ := h.connection b hb i v hv
    obtain ⟨x'', hx'', hle'⟩ := he.connection i x' hx'
    exact ⟨x, x'', hx, hx'', hle.trans hle'⟩
  channel b hb i v hv := by
    obtain ⟨x, x', hx, hx', hle⟩ := h.channel b hb i v hv
    obtain ⟨x'', hx'', hle'⟩ := he.channel i x' hx'
    exact ⟨x, x'', hx, hx'', hle.trans hle'⟩

theorem Faithful.endBlock (h : Faithful H c) (elapsed : Nat) : Faithful H (c.endBlock elapsed) where
  wellFormed := h.wellFormed
  provable := h.provable
  connection b hb i v hv := by
    rcases List.mem_append.mp hb with hb | hb
    · exact h.connection b hb i v hv
    · rw [List.mem_singleton.mp hb] at hv
      have hnow := h.provable.connection i
      rw [show committed H c.core (.connection i) = some v from hv] at hnow
      obtain ⟨x, hx, hxv⟩ := Option.map_eq_some_iff.mp hnow.symm
      exact ⟨x, x, hxv.symm, hx, .refl x⟩
  channel b hb i v hv := by
    rcases List.mem_append.mp hb with hb | hb
    · exact h.channel b hb i v hv
    · rw [List.mem_singleton.mp hb] at hv
      have hnow := h.provable.channel i
      rw [show committed H c.core (.channel i) = some v from hv] at hnow
      obtain ⟨x, hx, hxv⟩ := Option.map_eq_some_iff.mp hnow.symm
      exact ⟨x, x, hxv.symm, hx, .refl x⟩

section Runs

variable {ι : Type} {tracks : ι → ClientId → ι} {w : World ι}

theorem proven_connection (hH : H.CollisionFree) {i : ι} {env : Env} {k : ClientId} {n : Height}
    {d : ConnectionId} {x : Connection} (hf : Faithful H (w (tracks i k)))
    (hp : Proven (w.env tracks i env) k n ((StorePath.connection d).key H) (commitConnection H x)) :
    ∃ x', (w (tracks i k)).core.connections d = some x' ∧ x.Le x' := by
  obtain ⟨b, hb, hv⟩ := proven_block hp
  obtain ⟨y, x', hy, hx', hle⟩ := hf.connection b hb d _ hv
  obtain rfl := commitConnection_injective hH hy
  exact ⟨x', hx', hle⟩

theorem proven_channel (hH : H.CollisionFree) {i : ι} {env : Env} {k : ClientId} {n : Height}
    {d : ChannelId} {x : Channel} (hf : Faithful H (w (tracks i k)))
    (hp : Proven (w.env tracks i env) k n ((StorePath.channel d).key H) (commitChannel H x)) :
    ∃ x', (w (tracks i k)).core.channels d = some x' ∧ x.Le x' := by
  obtain ⟨b, hb, hv⟩ := proven_block hp
  obtain ⟨y, x', hy, hx', hle⟩ := hf.channel b hb d _ hv
  obtain rfl := commitChannel_injective hH hy
  exact ⟨x', hx', hle⟩

variable [DecidableEq ι]

theorem step_faithful (hH : H.CollisionFree) (a : Action ι) (h : ∀ i, Faithful H (w i)) (i : ι) :
    Faithful H ((step H tracks w a).1 i) := by
  generalize hw : (step H tracks w a).1 = w', ho : (step H tracks w a).2 = out
  have hcase := step_case H tracks w a
  rw [hw, ho] at hcase
  cases hcase with
  | refused => exact h i
  | @accepted j env info m s msgs _ heff =>
    by_cases hi : i = j
    · subst hi
      have hwf := effect_wellFormed heff (h i).wellFormed
      have hp := effect_provableHandshake hH heff (h i).provable
      have hev := effect_evolves (h i).wellFormed heff
      unfold World.setCore
      rw [update_self]
      exact (h i).evolve hwf hp hev
    · rw [setCore_of_ne hi]
      exact h i
  | @ended j elapsed _ =>
    by_cases hi : i = j
    · subst hi
      rw [update_self]
      exact (h i).endBlock elapsed
    · rw [update_of_ne hi]
      exact h i

theorem run_faithful (hH : H.CollisionFree) (t : ι → Timestamp) (as : List (Action ι)) (i : ι) :
    Faithful H (run H tracks (World.genesis t) as i) := by
  have h : ∀ i, Faithful H (run H tracks (World.genesis t) as i) :=
    Machine.state_invariant (I := fun w : World ι => ∀ i, Faithful H (w i))
      (fun w a hw i => step_faithful hH a hw i) (fun i => genesis_faithful H (t i)) as
  exact h i

end Runs

end UnionVoyager.Net
