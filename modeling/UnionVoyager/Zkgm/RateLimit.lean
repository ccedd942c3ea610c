import UnionVoyager.Zkgm.Intent

/-!
# The rate limit

The bucket of a denom is refilled lazily and drawn from by the fills of the protocol, with the quote
amount; what is released is the quote amount to the receiver and the fee to the relayer.
-/

namespace UnionVoyager.Zkgm

open Lib List
open Core (ChannelId Addr Coin)

/-! ## The bucket -/

inductive TokenBucketError where
  | zeroCapacity
  | zeroRefillRate

namespace TokenBucket

def new (capacity refillRate now : Nat) : Except TokenBucketError TokenBucket := do
  ensure (capacity ≠ 0) .zeroCapacity
  ensure (refillRate ≠ 0) .zeroRefillRate
  pure ⟨capacity, capacity, refillRate, now⟩

def update (b : TokenBucket) (capacity refillRate : Nat) (reset : Bool) :
    Except TokenBucketError TokenBucket := do
  ensure (capacity ≠ 0) .zeroCapacity
  ensure (refillRate ≠ 0) .zeroRefillRate
  pure { b with
    capacity := capacity
    refillRate := refillRate
    available := if b.lastRefill = 0 ∨ reset = true then capacity else b.available }

/-- The bucket holds no more than its capacity. -/
def Within (b : TokenBucket) : Prop := b.available ≤ b.capacity

/-- What can be drawn from the bucket at a time. -/
def level (b : TokenBucket) (now : Nat) : Nat :=
    min b.capacity (b.available + b.refillRate * (now - b.lastRefill))

theorem level_le_capacity (b : TokenBucket) (now : Nat) : b.level now ≤ b.capacity := min_le_left _ _

theorem level_later (b : TokenBucket) (now later : Nat) :
    b.level later ≤ b.level now + b.refillRate * (later - now) := by
  have h : b.refillRate * (later - b.lastRefill) ≤
      b.refillRate * (now - b.lastRefill) + b.refillRate * (later - now) := by
    rw [← Nat.mul_add]
    exact Nat.mul_le_mul_left _ (by omega)
  unfold level
  omega

end TokenBucket

structure Draws (now amount : Nat) (b b' : TokenBucket) : Prop where
  capacity : b'.capacity = b.capacity
  refillRate : b'.refillRate = b.refillRate
  within : b'.Within
  level : b'.level now + amount ≤ b.level now

variable {b b' : TokenBucket}

theorem Draws.refl {now : Nat} (h : b.Within) : Draws now 0 b b := ⟨rfl, rfl, h, le_rfl⟩

theorem Draws.trans {now n m : Nat} {b₁ : TokenBucket} (h : Draws now n b b₁)
    (h' : Draws now m b₁ b') : Draws now (n + m) b b' := by
  refine ⟨h'.capacity.trans h.capacity, h'.refillRate.trans h.refillRate, h'.within, ?_⟩
  have h₁ := h.level
  have h₂ := h'.level
  omega

theorem TokenBucket.refill_draws {now : Nat} (hb : b.Within) (h : b.refill now = .ok b') :
    Draws now 0 b b' ∧ b'.refillRate * (now - b'.lastRefill) = 0 := by
  unfold TokenBucket.Within at hb
  unfold TokenBucket.refill at h
  split at h
  · cases h
    refine ⟨⟨rfl, rfl, hb, ?_⟩, by simp⟩
    simp only [TokenBucket.level, Nat.sub_self, Nat.mul_zero, Nat.add_zero]
    omega
  · split at h
    · cases h
    · dsimp only at h
      split at h
      · cases h
        exact ⟨.refl hb, by omega⟩
      · cases h
        refine ⟨⟨rfl, rfl, min_le_left _ _, ?_⟩, by simp⟩
        simp only [TokenBucket.level, Nat.sub_self, Nat.mul_zero, Nat.add_zero]
        omega

theorem TokenBucket.rateLimit_draws {amount now : Nat} (hb : b.Within)
    (h : b.rateLimit amount now = .ok b') : Draws now amount b b' := by
  unfold TokenBucket.rateLimit at h
  split at h
  · rename_i hzero
    cases h
    subst hzero
    exact .refl hb
  · simp only [bind_eq_ok, require_eq_ok, pure_eq_ok] at h
    obtain ⟨b₁, hrefill, _, hle, rfl⟩ := h
    obtain ⟨hdraws, hnone⟩ := TokenBucket.refill_draws hb hrefill
    have hwithin : b₁.available ≤ b₁.capacity := hdraws.within
    refine ⟨hdraws.capacity, hdraws.refillRate, le_trans (Nat.sub_le _ _) hwithin, ?_⟩
    have hold := hdraws.level
    simp only [TokenBucket.level, hnone] at hold ⊢
    omega

/-- The amount was drawn from the bucket of the denom, if it was within its capacity. -/
def Drawn (now : Nat) (d : String) (amount : Nat) (s s' : State) : Prop :=
  ∀ b, s.tokenBucket d = some b → b.Within → ∃ b', s'.tokenBucket d = some b' ∧ Draws now amount b b'

variable {d : String} {s s' : State}

theorem Drawn.of_bucket {now : Nat} (h : s'.tokenBucket d = s.tokenBucket d) : Drawn now d 0 s s' := by
  intro b hb hwithin
  exact ⟨b, h.trans hb, .refl hwithin⟩

theorem Drawn.trans {now n m : Nat} {s₁ : State} (h : Drawn now d n s s₁) (h' : Drawn now d m s₁ s') :
    Drawn now d (n + m) s s' := by
  intro b hb hwithin
  obtain ⟨b₁, hb₁, hdraws⟩ := h b hb hwithin
  obtain ⟨b', hb', hdraws'⟩ := h' b₁ hb₁ hdraws.within
  exact ⟨b', hb', hdraws.trans hdraws'⟩

theorem rateLimit_drawn {denom : String} {amount now : Nat} (hon : s.config.rateLimitDisabled = false)
    (h : rateLimit s denom amount now = .ok s') : Drawn now d (if denom = d then amount else 0) s s' := by
  unfold rateLimit at h
  rw [hon] at h
  simp only [Bool.false_eq_true, if_false, bind_eq_ok, okOr_eq_ok, pure_eq_ok] at h
  obtain ⟨b, hb, b', hb', rfl⟩ := h
  by_cases hd : denom = d
  · subst hd
    intro c hc hwithin
    obtain rfl : b = c := Option.some.inj (hb.symm.trans hc)
    exact ⟨b', by simp, by simpa using TokenBucket.rateLimit_draws hwithin hb'⟩
  · rw [if_neg hd]
    exact .of_bucket (by simp [Function.update_of_ne (Ne.symm hd)])

/-! ## What the protocol releases -/

/-- What a message asks the minter to mint or to release of the denom. -/
def MinterMsg.released (d : String) : MinterMsg → Nat
  | .mintTokens denom amount _ => if denom = d then amount else 0
  | .unescrow denom _ amount => if denom = d then amount else 0
  | _ => 0

def CosmosMsg.released (d : String) : CosmosMsg → Nat
  | .minter call => call.msg.released d
  | _ => 0

/-- What the protocol itself releases of the denom; the calls a relayer pays for are wrapped. -/
def released (d : String) (r : Response) : Nat := (r.map fun m => m.msg.released d).sum

@[simp] theorem released_append (d : String) (r r' : Response) :
    released d (r ++ r') = released d r + released d r' := by
  simp [released]

def releasedCalls (d : String) (calls : List MinterCall) : Nat := (calls.map fun c => c.msg.released d).sum

@[simp] theorem releasedCalls_append (d : String) (cs cs' : List MinterCall) :
    releasedCalls d (cs ++ cs') = releasedCalls d cs + releasedCalls d cs' := by
  simp [releasedCalls]

theorem released_protocolFill (d : String) (calls : List MinterCall) :
    released d (protocolFill calls) = releasedCalls d calls := by
  have hack : released d [writeAck protocolAck] = 0 := rfl
  rw [protocolFill, released_append, hack]
  simp only [released, releasedCalls, map_map]
  rfl

def isProtocolFill (r : Response) : Bool :=
  r.any fun m =>
    match m.msg with
    | .internalWriteAck (.tokenOrderAck fillType _) => fillType == FILL_TYPE_PROTOCOL
    | _ => false

theorem isProtocolFill_protocolFill (calls : List MinterCall) :
    isProtocolFill (protocolFill calls) = true := by
  simp [isProtocolFill, protocolFill, writeAck, protocolAck, CosmosMsg.plain]

/-- What the protocol releases for an order: the quote amount to the receiver, the fee to the relayer. -/
structure Fill where
  denom : String
  quote : Nat
  fee : Nat

def Fill.quoteOf (d : String) (f : Fill) : Nat := if f.denom = d then f.quote else 0

def Fill.feeOf (d : String) (f : Fill) : Nat := if f.denom = d then f.fee else 0

def quotes (d : String) (fills : List Fill) : Nat := (fills.map (Fill.quoteOf d)).sum

def fees (d : String) (fills : List Fill) : Nat := (fills.map (Fill.feeOf d)).sum

@[simp] theorem quotes_append (d : String) (fs fs' : List Fill) :
    quotes d (fs ++ fs') = quotes d fs + quotes d fs' := by
  simp [quotes]

@[simp] theorem fees_append (d : String) (fs fs' : List Fill) :
    fees d (fs ++ fs') = fees d fs + fees d fs' := by
  simp [fees]

def Leaf.fill? (r : Response) : Leaf → Option Fill
  | .order o =>
    if isProtocolFill r then
      (fromUtf8 o.quoteToken).map fun d => ⟨d, o.quoteAmount, o.baseAmount - o.quoteAmount⟩
    else
      none
  | .call _ => none

/-- The fills of the leaves, each in the storage the ones before it lead to. -/
def fillsOf (env : Env) (x : Execution) : List Leaf → State → Coins → List Fill
  | [], _, _ => []
  | l :: ls, s, funds =>
    match l.execute env x s funds with
    | .ok (s', funds', r) => (l.fill? r).toList ++ fillsOf env x ls s' funds'
    | .error _ => []

def Instruction.leaf? : Instruction → Option Leaf
  | .mk version opcode (.call c) =>
    if opcode = OP_CALL ∧ version = INSTR_VERSION_0 then some (.call c) else none
  | i => i.order?.map Leaf.order

theorem Leaf.toInstruction_leaf? (l : Leaf) : l.toInstruction.leaf? = some l := by
  rcases l with (_ | _) | _ <;> rfl

/-- The fills of an instruction: its own, or those of the batch it is. -/
def Instruction.fills (env : Env) (x : Execution) (s : State) (funds : Coins) : Instruction → List Fill
  | .mk _ _ (.batch instructions) =>
    fillsOf env x (instructions.filterMap Instruction.leaf?)
      { s with executingPacketIsBatch := some instructions.length } funds
  | i => fillsOf env x i.leaf?.toList s funds

/-! ## What an order draws -/

theorem releasedCalls_deploy {deploy : List MinterCall} (h : ∀ c ∈ deploy, c.msg.isCreate = true) :
    releasedCalls d deploy = 0 := by
  have hzero : ∀ c ∈ deploy, c.msg.released d = 0 := by
    intro c hc
    have hcreate := h c hc
    cases hm : c.msg with
    | createDenom | createDenomV2 => rfl
    | _ =>
      rw [hm] at hcreate
      cases hcreate
  rw [releasedCalls, map_congr_left hzero]
  simp

theorem releasedCalls_callIf (d : String) (n : Nat) {c : MinterCall} {denom : String}
    (hc : c.msg.released d = if denom = d then n else 0) :
    releasedCalls d (callIf n c) = if denom = d then n else 0 := by
  unfold callIf
  split
  · simpa [releasedCalls] using hc
  · have hzero : n = 0 := by omega
    subst hzero
    simp [releasedCalls]

theorem releasedCalls_mintCalls (d : String) (s : State) (denom : String) (receiver relayer : Addr)
    (n fee : Nat) : releasedCalls d (mintCalls s denom receiver relayer n fee) =
      if denom = d then n + fee else 0 := by
  rw [mintCalls, releasedCalls_append, releasedCalls_callIf d n rfl, releasedCalls_callIf d fee rfl]
  split <;> rfl

theorem releasedCalls_unescrowCalls (d : String) (s : State) (denom : String) (receiver relayer : Addr)
    (n fee : Nat) : releasedCalls d (unescrowCalls s denom receiver relayer n fee) =
      if denom = d then n + fee else 0 := by
  rw [unescrowCalls, releasedCalls_append, releasedCalls_callIf d n rfl, releasedCalls_callIf d fee rfl]
  split <;> rfl

variable {x : Execution}

/-- A fill of the protocol draws the quote amount and releases the base amount; nothing else draws or
    releases anything. -/
inductive Limited (env : Env) (o : Order) (s s' : State) (r : Response) : Prop
  | protocol {quote : String} {s₁ : State} (hquote : fromUtf8 o.quoteToken = some quote)
      (hlimit : rateLimit s quote o.quoteAmount env.now = .ok s₁)
      (hbucket : s'.tokenBucket = s₁.tokenBucket) (hfill : isProtocolFill r = true)
      (hreleased : ∀ d, released d r =
        if quote = d then o.quoteAmount + (o.baseAmount - o.quoteAmount) else 0)
  | other (hbucket : s'.tokenBucket = s.tokenBucket) (hfill : isProtocolFill r = false)
      (hreleased : ∀ d, released d r = 0)

section Orders

variable {env : Env} {x : Execution} {s s' : State} {funds funds' : Coins} {r : Response}

theorem Filled.limited {o : Order} (h : Filled env x o s s' r) : Limited env o s s' r := by
  cases h with
  | mint hleft hquote hpred hv1 hle hlimit hdeploy =>
    obtain ⟨-, hbucket, hcreate⟩ := hdeploy.frame
    refine .protocol (fromUtf8_eq_some.mpr hquote) hlimit hbucket (isProtocolFill_protocolFill _) ?_
    intro d
    rw [released_protocolFill, releasedCalls_append, releasedCalls_deploy hcreate, releasedCalls_mintCalls,
      Nat.zero_add]
  | unescrow hleft hquote hburns hrev hle hlimit hv hbal hs' =>
    refine .protocol (fromUtf8_eq_some.mpr hquote) hlimit (by rw [hs']; rfl)
      (isProtocolFill_protocolFill _) ?_
    intro d
    rw [released_protocolFill, releasedCalls_unescrowCalls]
  | relayer hleft hs' =>
    subst hs'
    exact .other rfl rfl fun _ => rfl
  | solver => exact .other rfl rfl fun _ => rfl

/-- The amount was drawn, and that and the fees were released. -/
structure Metered (now : Nat) (d : String) (fills : List Fill) (s s' : State) (r : Response) : Prop where
  drawn : Drawn now d (quotes d fills) s s'
  released : released d r = quotes d fills + fees d fills
  config : s'.config = s.config
  executingPacket : s'.executingPacket = s.executingPacket

theorem Metered.trans {now : Nat} {fs fs' : List Fill} {s₁ : State} {r' : Response}
    (h : Metered now d fs s s₁ r)
    (h' : Metered now d fs' s₁ s' r') : Metered now d (fs ++ fs') s s' (r ++ r') := by
  refine ⟨?_, ?_, h'.config.trans h.config, h'.executingPacket.trans h.executingPacket⟩
  · rw [quotes_append]
    exact h.drawn.trans h'.drawn
  · rw [released_append, h.released, h'.released, quotes_append, fees_append]
    omega

theorem Metered.none {now : Nat} (hbucket : s'.tokenBucket d = s.tokenBucket d) (hr : Zkgm.released d r = 0)
    (hc : s'.config = s.config) (hp : s'.executingPacket = s.executingPacket) : Metered now d [] s s' r :=
  ⟨.of_bucket hbucket, hr, hc, hp⟩

/-- **A leaf draws the quote amount of its fill.** -/
theorem Leaf.execute_metered {l : Leaf} (d : String) (hon : s.config.rateLimitDisabled = false)
    (h : l.execute env x s funds = .ok (s', funds', r)) :
    Metered env.now d (l.fill? r).toList s s' r := by
  obtain ⟨k, hk, hwalked⟩ := Leaf.execute_work h
  have hp : s'.executingPacket = s.executingPacket := by
    have hslots := congrArg Slots.executingPacket hwalked.slots
    split at hslots <;> exact hslots
  cases l with
  | call c =>
    simp only [Leaf.execute, executeCall, bind_eq_ok] at h
    obtain ⟨target, -, predicted, -, h⟩ := h
    have hproxy : (createProxy env x c target predicted s).1.tokenBucket = s.tokenBucket ∧
        released d (createProxy env x c target predicted s).2 = 0 := by
      unfold createProxy
      dsimp only
      split <;> exact ⟨rfl, rfl⟩
    obtain ⟨hbucket, hacct⟩ := hproxy
    split at h
    · cases h
      refine .none (congrFun hbucket d) ?_ hwalked.config hp
      rw [released_append, hacct]
      rfl
    · cases h
      refine .none (congrFun hbucket d) ?_ hwalked.config hp
      rw [released_append, hacct]
      rfl
  | order o =>
    cases (Order.execute_filled h).limited with
    | other hbucket hfill hrel =>
      simp only [Leaf.fill?, hfill, Bool.false_eq_true, if_false, Option.toList_none]
      exact .none (congrFun hbucket d) (hrel d) hwalked.config hp
    | @protocol quote s₁ hquote hlimit hbucket hfill hrel =>
      simp only [Leaf.fill?, hfill, if_true, hquote, Option.map_some, Option.toList_some]
      have hdrawn := rateLimit_drawn (d := d) hon hlimit
      refine ⟨?_, ?_, hwalked.config, hp⟩
      · intro b hb hwithin
        obtain ⟨b', hb', hdraws⟩ := hdrawn b hb hwithin
        exact ⟨b', (congrFun hbucket d).trans hb', by simpa [quotes, Fill.quoteOf] using hdraws⟩
      · rw [hrel d]
        simp only [quotes, fees, Fill.quoteOf, Fill.feeOf, map_cons, map_nil, sum_cons, sum_nil]
        split <;> rfl

/-- **The leaves of a batch draw the quote amounts of their fills.** -/
theorem executeBatch_metered {salt : U256} (d : String) :
    ∀ {leaves : List Leaf} {index : Nat} {s s' : State} {funds funds' : Coins} {r : Response},
      s.config.rateLimitDisabled = false →
      executeBatch env x salt index (leaves.map Leaf.toInstruction) s funds = .ok (s', funds', r) →
        Metered env.now d (fillsOf env x leaves s funds) s s' r
  | [], index, s, s', funds, funds', r, hon, h => by
    cases h
    exact .none rfl rfl rfl rfl
  | l :: leaves, index, s, s', funds, funds', r, hon, h => by
    simp only [map_cons, executeBatch_cons, bind_eq_ok, pure_eq_ok] at h
    obtain ⟨⟨s₁, funds₁, r₁⟩, h₁, ⟨s₂, funds₂, r₂⟩, h₂, h⟩ := h
    cases h
    have hl := Leaf.execute_metered d hon h₁
    rw [← hl.config] at hon
    simp only [fillsOf, h₁]
    exact hl.trans (executeBatch_metered d hon h₂)

end Orders

/-! ## What a packet draws -/

/-- The fills of a packet that is executed in this storage. -/
def Execution.fills (env : Env) (x : Execution) (s : State) (funds : List Coin) : List Fill :=
  match x.packet.data with
  | .zkgm z => z.instruction.fills env { x with path := z.path } s (Coins.ofList funds)
  | _ => []

/-- The messages of a packet that is executed in this storage. -/
def Execution.messages (env : Env) (x : Execution) (s : State) (funds : List Coin) : Response :=
  match executePacket env x.caller x.packet x.relayer x.relayerMsg x.intent funds s with
  | .ok (_, messages) => messages
  | .error _ => []

variable {messages : Response}

theorem executePacket_metered {env : Env} {funds : List Coin} (d : String)
    (hon : s.config.rateLimitDisabled = false)
    (h : executePacket env x.caller x.packet x.relayer x.relayerMsg x.intent funds s =
      .ok (s', messages)) : Metered env.now d (x.fills env s funds) s s' messages := by
  unfold executePacket at h
  split at h
  · rename_i z hz
    simp only [bind_eq_ok, pure_eq_ok] at h
    obtain ⟨⟨s₁, funds₁, r⟩, hexec, h⟩ := h
    cases h
    have hfills : x.fills env s funds = z.instruction.fills env { x with path := z.path } s
        (Coins.ofList funds) := by
      rw [Execution.fills, hz]
    rw [hfills]
    rcases executeInternal_cases hexec with ⟨l, hl⟩ | ⟨is, hi, hbatch⟩ | ⟨q, th, tt, j, hi, hfwd⟩
    · rw [hl, executeInternal_leaf] at hexec
      have hmetered := Leaf.execute_metered d hon hexec
      have hleaf : z.instruction.fills env { x with path := z.path } s (Coins.ofList funds) =
          (l.fill? r).toList := by
        have hone : ∀ i : Instruction, i = l.toInstruction →
            i.fills env { x with path := z.path } s (Coins.ofList funds) =
              fillsOf env { x with path := z.path } [l] s (Coins.ofList funds) := by
          rintro i rfl
          rcases l with (_ | _) | _ <;> rfl
        rw [hone _ hl]
        simp only [fillsOf, hexec, append_nil]
      rw [hleaf]
      exact ⟨hmetered.drawn, hmetered.released, hmetered.config, hmetered.executingPacket⟩
    · obtain ⟨leaves, rfl⟩ := exists_leaves_of_execute hbatch
      have hleaves : (leaves.map Leaf.toInstruction).filterMap Instruction.leaf? = leaves := by
        rw [filterMap_map, funext (f := Instruction.leaf? ∘ Leaf.toInstruction) Leaf.toInstruction_leaf?]
        exact filterMap_some
      have hbegin : ∀ n, ({ s with executingPacketIsBatch := some n } : State).config.rateLimitDisabled =
          false := fun _ => hon
      have hmetered := executeBatch_metered d (hbegin _) hbatch
      rw [hi]
      simp only [Instruction.fills, batchInstruction, hleaves]
      exact ⟨hmetered.drawn, hmetered.released, hmetered.config, hmetered.executingPacket⟩
    · have hnone : z.instruction.fills env { x with path := z.path } s (Coins.ofList funds) = [] := by
        rw [hi]
        rfl
      rw [hnone]
      simp only [executeForward, bind_eq_ok, require_eq_ok] at hfwd
      obtain ⟨_, -, hfwd⟩ := hfwd
      split at hfwd
      · cases hfwd
        exact .none rfl rfl rfl rfl
      · simp only [bind_eq_ok, require_eq_ok, pure_eq_ok] at hfwd
        obtain ⟨⟨tail, prev⟩, -, previous, -, ⟨cont, next⟩, -, source, -, _, -, path, -, nextPath, -,
          hfwd⟩ := hfwd
        cases hfwd
        exact .none rfl rfl rfl rfl
  · cases h

/-! ## Running the messages -/

/-- The message begins the execution of a packet. -/
def CosmosMsg.begins : CosmosMsg → Bool
  | .internalExecutePacket .. => true
  | _ => false

/-- A message that neither begins nor ends an execution. -/
def SubMsg.IsMidway (m : SubMsg) : Prop := m.msg.begins = false ∧ ∀ on id, m.reply = some (on, id) →
      id ≠ .execute

theorem SubMsg.IsInner.isMidway {m : SubMsg} (h : m.IsInner) : m.IsMidway := by
  refine ⟨?_, fun on id hid => (h.2 on id hid).1⟩
  have hinner := h.1
  revert hinner
  cases m.msg <;> simp [CosmosMsg.isInner, CosmosMsg.begins]

variable {ack : AckData}

theorem collectAck_config (h : collectAck s = .ok (s', ack)) : s'.config = s.config := by
  unfold collectAck at h
  split at h
  · simp only [bind_eq_ok, pure_eq_ok] at h
    obtain ⟨acks, -, _, -, _, -, h⟩ := h
    cases h
    rfl
  · simp only [bind_eq_ok, pure_eq_ok] at h
    obtain ⟨ack', -, _, -, h⟩ := h
    cases h
    rfl

section Run

variable {X : Type} {out : Outside X} {env : Env}

/-- While a packet is executed no other one is, so what comes back to zkgm leaves the buckets. -/
structure Outside.LeavesBuckets (out : Outside X) : Prop where
  contract : ∀ {s x a msg s' x' d}, s.executingPacket ≠ none →
    out.contract s x a msg = some (s', x', d) → s'.tokenBucket = s.tokenBucket
  solver : ∀ {s x a msg s' x' d}, s.executingPacket ≠ none →
    out.solver s x a msg = some (s', x', d) → s'.tokenBucket = s.tokenBucket

/-- Nothing is drawn. -/
structure Undrawn (w w' : World X) : Prop where
  executingPacket : w'.state.executingPacket = w.state.executingPacket
  config : w'.state.config = w.state.config
  bucket : w'.state.tokenBucket = w.state.tokenBucket

theorem Undrawn.refl (w : World X) : Undrawn w w := ⟨rfl, rfl, rfl⟩

variable {w w' : World X}

theorem Undrawn.trans {w₁ : World X} (h : Undrawn w w₁) (h' : Undrawn w₁ w') : Undrawn w w' :=
  ⟨h'.executingPacket.trans h.executingPacket, h'.config.trans h.config, h'.bucket.trans h.bucket⟩

theorem Keeps.executingPacket (h : Keeps s s') : s'.executingPacket = s.executingPacket :=
  congrArg Slots.executingPacket h.slots

theorem runExternal_undrawn (hout : out.LeavesBuckets) {msg : CosmosMsg} {d : ReplyData}
    (hexec : w.state.executingPacket ≠ none) (h : runExternal out env w msg = some (w', d)) :
      Undrawn w w' := by
  cases msg with
  | contract a m =>
    simp only [runExternal, Option.map_eq_some_iff] at h
    obtain ⟨⟨s, x, b⟩, hr, h⟩ := h
    cases h
    have hkeeps := out.contract_keeps hexec hr
    exact ⟨hkeeps.executingPacket, hkeeps.config, hout.contract hexec hr⟩
  | solver a m =>
    simp only [runExternal, Option.map_eq_some_iff] at h
    obtain ⟨⟨s, x, b⟩, hr, h⟩ := h
    cases h
    have hkeeps := out.solver_keeps hexec hr
    exact ⟨hkeeps.executingPacket, hkeeps.config, hout.solver hexec hr⟩
  | internalExecutePacket | internalWriteAck | internalBatch => cases h
  | packetSend m =>
    simp only [runExternal, Option.bind_eq_bind, Option.bind_eq_some_iff] at h
    obtain ⟨r, -, text, -, h⟩ := h
    cases h
    exact ⟨rfl, rfl, rfl⟩
  | _ =>
    simp only [runExternal, Option.map_eq_some_iff] at h
    obtain ⟨r, -, h⟩ := h
    cases h
    exact ⟨rfl, rfl, rfl⟩

theorem isMidway_writeAck : ∀ m ∈ [writeAck ack], m.IsMidway := by
  intro m hm
  rw [List.mem_singleton.mp hm]
  exact ⟨rfl, fun _ _ hr => by cases hr⟩

theorem reply_undrawn {id : ReplyId} {result : Option ReplyData} (he : id ≠ .execute)
    (h : reply env id result w.state = .ok (s, messages)) :
    Undrawn w { w with state := s } ∧ ∀ m ∈ messages, m.IsMidway := by
  by_cases hf : id = .forward
  · subst hf
    simp only [reply, replyForward] at h
    split at h
    · simp only [bind_eq_ok, pure_eq_ok] at h
      obtain ⟨sent, -, h⟩ := h
      cases h
      exact ⟨⟨rfl, rfl, rfl⟩, fun m hm => (by cases hm)⟩
    · cases h
  · obtain ⟨hs, ack, rfl⟩ := reply_writes he hf h
    refine ⟨?_, isMidway_writeAck⟩
    rcases hs with rfl | rfl <;> exact ⟨rfl, rfl, rfl⟩

/-- **In the middle of an execution no message draws.** -/
theorem undrawn_closed (hout : out.LeavesBuckets) (env : Env) :
    Closed out env (fun w w' => w.state.executingPacket ≠ none → Undrawn w w') SubMsg.IsMidway where
  refl w _ := .refl w
  trans h h' hexec := (h hexec).trans (h' ((h hexec).executingPacket ▸ hexec))
  external _ h hexec := runExternal_undrawn hout hexec h
  self := by
    intro w sub info msg s messages hM hself h
    obtain ⟨m, r⟩ := sub
    cases m with
    | internalWriteAck ack =>
      cases hself
      simp only [execute, bind_eq_ok, pure_eq_ok] at h
      obtain ⟨_, -, h⟩ := h
      cases h
      refine ⟨fun _ => ?_, fun m hm => (by cases hm)⟩
      unfold internalWriteAck
      split <;> exact ⟨rfl, rfl, rfl⟩
    | internalBatch ms =>
      cases hself
      simp only [execute, bind_eq_ok, pure_eq_ok] at h
      obtain ⟨_, -, h⟩ := h
      cases h
      refine ⟨fun _ => .refl w, ?_⟩
      intro m hm
      obtain ⟨c, -, rfl⟩ := List.mem_map.mp hm
      exact ⟨rfl, fun _ _ hr => by cases hr⟩
    | internalExecutePacket => cases hM.1
    | _ => cases hself
  reply hM hsub h :=
    have hr := reply_undrawn (hM.2 _ _ hsub) h
    ⟨fun _ => hr.1, hr.2⟩

theorem executePacket_midway {caller relayer : Addr} {p : Packet} {relayerMsg : Bytes} {intent : Bool}
    {funds : List Coin} (h : executePacket env caller p relayer relayerMsg intent funds s =
      .ok (s', messages)) :
    ∀ m ∈ messages, m.IsMidway := by
  unfold executePacket at h
  split at h
  · simp only [bind_eq_ok, pure_eq_ok] at h
    obtain ⟨⟨s₁, funds₁, r⟩, hexec, h⟩ := h
    cases h
    rcases executeInternal_cases hexec with ⟨l, hl⟩ | ⟨is, -, hbatch⟩ | ⟨q, th, tt, j, -, hfwd⟩
    · rw [hl, executeInternal_leaf] at hexec
      obtain ⟨k, rfl, -⟩ := Leaf.execute_work hexec
      exact fun m hm => (Work.response_inner k m hm).isMidway
    · obtain ⟨leaves, rfl⟩ := exists_leaves_of_execute hbatch
      obtain ⟨works, -, rfl⟩ := walks_of_executeBatch hbatch
      intro m hm
      obtain ⟨k, -, hm⟩ := List.mem_flatMap.mp hm
      exact (Work.response_inner k m hm).isMidway
    · simp only [executeForward, bind_eq_ok, require_eq_ok] at hfwd
      obtain ⟨_, -, hfwd⟩ := hfwd
      split at hfwd
      · cases hfwd
        exact isMidway_writeAck
      · simp only [bind_eq_ok, require_eq_ok, pure_eq_ok] at hfwd
        obtain ⟨⟨tail, prev⟩, -, previous, -, ⟨cont, next⟩, -, source, -, _, -, path, -, nextPath, -,
          hfwd⟩ := hfwd
        cases hfwd
        intro m hm
        rcases List.mem_cons.mp hm with rfl | hm
        · refine ⟨rfl, ?_⟩
          intro on id hid
          cases hid
          decide
        · exact isMidway_writeAck m hm
  · cases h

/-- **A packet that was received draws the quote amounts of its fills**, and releases these and the
    fees. -/
theorem received_metered (hout : out.LeavesBuckets) {info : MessageInfo} {w₁ : World X} (d : String)
    (hon : w.state.config.rateLimitDisabled = false) (h : ReceivedOk out env info x w w₁ w' messages ack) :
    Drawn env.now d (quotes d (x.fills env (w.state.begin x.packet) info.funds)) w.state w'.state ∧
      w'.state.config = w.state.config ∧
      released d messages = quotes d (x.fills env (w.state.begin x.packet) info.funds) +
        fees d (x.fills env (w.state.begin x.packet) info.funds) := by
  obtain ⟨s, hexec, hrun⟩ := h.run
  have hmetered := executePacket_metered (s := w.state.begin x.packet) d hon hexec
  have hsome : s.executingPacket ≠ none := by
    rw [hmetered.executingPacket]
    exact Option.some_ne_none _
  have hundrawn := (undrawn_closed hout env).foldlM (executePacket_midway hexec) hrun hsome
  have hbucket : w₁.state.tokenBucket = s.tokenBucket := hundrawn.bucket
  have hconfig : w₁.state.config = w.state.config := hundrawn.config.trans hmetered.config
  obtain ⟨s', p, -, hcollect, hend⟩ := h.collect
  have hheld : s'.tokenBucket = s.tokenBucket :=
    (congrArg Holdings.tokenBucket (collectAck_holdings hcollect)).trans hbucket
  have hconfig' : s'.config = w.state.config := (collectAck_config hcollect).trans hconfig
  have hstate : w'.state = s' := by
    rcases hend with ⟨-, rfl⟩ | ⟨-, y, -, rfl⟩ <;> rfl
  refine ⟨?_, by rw [hstate, hconfig'], hmetered.released⟩
  intro b hb hwithin
  obtain ⟨b', hb', hdraws⟩ := hmetered.drawn b hb hwithin
  exact ⟨b', by rw [hstate, hheld, hb'], hdraws⟩

end Run

/-! ## Over time -/

/-- A packet that was received and executed, and the storage before. -/
structure Receipt where
  env : Env
  info : MessageInfo
  execution : Execution
  before : State

namespace Receipt

def now (r : Receipt) : Nat := r.env.now

/-- The orders of the packet that the protocol filled. -/
def fills (r : Receipt) : List Fill := r.execution.fills r.env
    (r.before.begin r.execution.packet) r.info.funds

/-- What the messages of the packet release of the denom. -/
def released (d : String) (r : Receipt) : Nat :=
  Zkgm.released d (r.execution.messages r.env (r.before.begin r.execution.packet) r.info.funds)

end Receipt

section Time

variable {X : Type}

/-- What becomes of the contract: packets are received, and executed or not, and whatever else happens
    leaves the configuration and the bucket of the denom. -/
inductive Timeline (out : Outside X) (d : String) : World X → List Receipt → World X → Prop
  | done (w : World X) : Timeline out d w [] w
  | received {env : Env} {info : MessageInfo} {x : Execution} {w w₁ w₂ w' : World X} {messages : Response}
      {ack : AckData} {rs : List Receipt} (htx : transact out env info x.message w = .ok w₂)
      (hok : ReceivedOk out env info x w w₁ w₂ messages ack) (rest : Timeline out d w₂ rs w') :
      Timeline out d w (⟨env, info, x, w.state⟩ :: rs) w'
  | failed {env : Env} {info : MessageInfo} {x : Execution} {w w₁ w' : World X} {rs : List Receipt}
      (htx : transact out env info x.message w = .ok w₁) (hfailed : ReceivedFailed out x w w₁)
      (rest : Timeline out d w₁ rs w') : Timeline out d w rs w'
  | other {w w₁ w' : World X} {rs : List Receipt}
      (hbucket : w₁.state.tokenBucket d = w.state.tokenBucket d)
      (hconfig : w₁.state.config = w.state.config) (rest : Timeline out d w₁ rs w') :
      Timeline out d w rs w'

variable {out : Outside X} {d : String} {w w' : World X} {rs : List Receipt}

theorem Timeline.quotes_le_level (hout : out.LeavesBuckets) (h : Timeline out d w rs w') :
    w.state.config.rateLimitDisabled = false → ∀ {b : TokenBucket} {start stop : Nat},
      w.state.tokenBucket d = some b → b.Within → (rs.map Receipt.now).Pairwise (· ≤ ·) →
      (∀ r ∈ rs, start ≤ r.now) → (∀ r ∈ rs, r.now ≤ stop) → start ≤ stop →
      (rs.map fun r => quotes d r.fills).sum ≤ b.level start + b.refillRate * (stop - start) := by
  induction h with
  | done w =>
    intro _ b start stop _ _ _ _ _ _
    simp
  | @received env info x w w₁ w₂ w' messages ack rs htx hok rest ih =>
    intro hon b start stop hb hwithin hsorted hfrom huntil hle
    obtain ⟨hdrawn, hconfig, -⟩ := received_metered hout d hon hok
    obtain ⟨b', hb', hdraws⟩ := hdrawn b hb hwithin
    have hstart : start ≤ env.now := hfrom _ (mem_cons_self ..)
    have hstop : env.now ≤ stop := huntil _ (mem_cons_self ..)
    rw [map_cons, pairwise_cons] at hsorted
    have hlater : ∀ r ∈ rs, env.now ≤ r.now := by
      intro r hr
      exact hsorted.1 _ (mem_map_of_mem hr)
    -- the rest draws from the level after this packet, at its time
    have hrest := ih (by rw [hconfig]; exact hon) hb' hdraws.within hsorted.2 hlater
      (fun r hr => huntil r (mem_cons_of_mem _ hr)) hstop
    have hlevel := hdraws.level
    have hrise := b.level_later start env.now
    rw [hdraws.refillRate] at hrest
    have hsplit : b.refillRate * (stop - start) =
        b.refillRate * (env.now - start) + b.refillRate * (stop - env.now) := by
      rw [← Nat.mul_add]
      congr 1
      omega
    rw [map_cons, sum_cons, hsplit]
    have hfills : (⟨env, info, x, w.state⟩ : Receipt).fills = x.fills env (w.state.begin x.packet)
      info.funds := rfl
    rw [hfills]
    omega
  | failed htx hfailed rest ih =>
    intro hon b start stop hb
    rw [← hfailed.state] at hon hb
    exact ih hon hb
  | other hbucket hconfig rest ih =>
    intro hon b start stop hb
    rw [← hconfig] at hon
    rw [← hbucket] at hb
    exact ih hon hb

theorem Timeline.released_eq (hout : out.LeavesBuckets) (h : Timeline out d w rs w') :
    w.state.config.rateLimitDisabled = false →
      ∀ r ∈ rs, r.released d = quotes d r.fills + fees d r.fills := by
  induction h with
  | done w =>
    intro _ r hr
    cases hr
  | @received env info x w w₁ w₂ w' messages ack rs htx hok rest ih =>
    intro hon r hr
    obtain ⟨-, hconfig, hrel⟩ := received_metered hout d hon hok
    rcases List.mem_cons.mp hr with rfl | hr
    · obtain ⟨s, hexec, -⟩ := hok.run
      have hmsgs : x.messages env (w.state.begin x.packet) info.funds = messages := by
        rw [Execution.messages, hexec]
      simpa only [Receipt.released, Receipt.fills, hmsgs] using hrel
    · exact ih (by rw [hconfig]; exact hon) r hr
  | failed htx hfailed rest ih =>
    intro hon
    rw [← hfailed.state] at hon
    exact ih hon
  | other hbucket hconfig rest ih =>
    intro hon
    rw [← hconfig] at hon
    exact ih hon

/-- **With the rate limit on, over every sequence of received packets within an interval that does
    not reconfigure the bucket: the quote amounts given to the receivers are at most the capacity
    and what is refilled.**  The fees of the relayers come on top. -/
theorem quotes_le (hout : out.LeavesBuckets) {b : TokenBucket} {start t : Nat}
    (hon : w.state.config.rateLimitDisabled = false) (hbucket : w.state.tokenBucket d = some b)
    (hwithin : b.Within) (h : Timeline out d w rs w') (hsorted : (rs.map Receipt.now).Pairwise (· ≤ ·))
    (hinterval : ∀ r ∈ rs, start ≤ r.now ∧ r.now ≤ start + t) :
    (rs.map fun r => quotes d r.fills).sum ≤ b.capacity + b.refillRate * t ∧
      ∀ r ∈ rs, r.released d = quotes d r.fills + fees d r.fills := by
  refine ⟨?_, h.released_eq hout hon⟩
  have hle := h.quotes_le_level hout hon hbucket hwithin hsorted (fun r hr => (hinterval r hr).1)
    (fun r hr => (hinterval r hr).2) (Nat.le_add_right start t)
  have hcap := b.level_le_capacity start
  rw [Nat.add_sub_cancel_left] at hle
  omega

end Time

/-! ## Concrete runs -/

/-- Storage with the rate limit on and one bucket. -/
def limitedState (b : TokenBucket) : State :=
  { State.init ⟨"ibc", false, 1, 2⟩ "minter" with
    tokenBucket := Function.update (fun _ => none) "wrapped/uatom" (some b) }

/-- A packet of one order for `base` tokens, of which the receiver gets `quote`. -/
def pricedExecution (base quote : Nat) : Execution :=
  ⟨"relayer", samplePacket
    (Order.v2 { sampleOrder with baseAmount := base, quoteAmount := quote }).toInstruction,
    "relayer", [], 0, false⟩

/-- **A bucket of one token lets a thousand through**: one to the receiver and 999 to the relayer; and so
    does a bucket whose capacity was lowered to one and that was not reset. -/
theorem fees_exceed : (∃ b w', TokenBucket.new 1 1 0 = .ok b ∧
      transact Outside.ideal.recorded Env.ideal ⟨"ibc", []⟩ (pricedExecution 1000 1).message
        ⟨limitedState b, ((), []), []⟩ = .ok w' ∧
      b.capacity + b.refillRate * 0 < releasedCalls "wrapped/uatom" w'.ext.2) ∧
    ∃ b₀ b w', TokenBucket.new 1000 1 1 = .ok b₀ ∧ b₀.update 1 1 false = .ok b ∧
      transact Outside.ideal.recorded Env.ideal ⟨"ibc", []⟩ (pricedExecution 1000 1000).message
        ⟨limitedState b, ((), []), []⟩ = .ok w' ∧
      b.capacity + b.refillRate * 0 < releasedCalls "wrapped/uatom" w'.ext.2 := by
  refine ⟨⟨⟨1, 1, 1, 0⟩, _, rfl, rfl, by decide⟩, ⟨1000, 1000, 1, 1⟩, ⟨1, 1000, 1, 1⟩, _, rfl, rfl,
    rfl, by decide⟩

theorem ideal_leavesBuckets : Outside.ideal.LeavesBuckets where
  contract _ h := by
    cases h
    rfl
  solver _ h := by
    cases h
    rfl

/-- A packet that takes the whole of a full bucket. -/
def emptyingReceipt : Receipt := ⟨Env.ideal, ⟨"ibc", []⟩, pricedExecution 5 5, limitedState ⟨5, 5, 1, 0⟩⟩

theorem emptying_timeline : ∃ w', Timeline Outside.ideal "wrapped/uatom"
    ⟨limitedState ⟨5, 5, 1, 0⟩, (), []⟩ [emptyingReceipt] w' := by
  obtain ⟨w', htx, hlog⟩ : ∃ w', transact Outside.ideal Env.ideal ⟨"ibc", []⟩
      (pricedExecution 5 5).message ⟨limitedState ⟨5, 5, 1, 0⟩, (), []⟩ = .ok w' ∧
      w'.log = [.acked (pricedExecution 5 5).packet (.success protocolAck)] := ⟨_, rfl, rfl⟩
  refine ⟨w', ?_⟩
  obtain ⟨-, -, ⟨w₁, messages, ack, hok⟩ | hfailed⟩ := transact_message_cases htx
  · exact .received htx hok (.done w')
  · have hcontra := hlog.symm.trans hfailed.log
    cases hcontra

theorem quotes_of_order_le :
    emptyingReceipt.released "wrapped/uatom" = 5 ∧
      quotes "wrapped/uatom" emptyingReceipt.fills ≤ 5 + 1 * 0 := by
  obtain ⟨w', htimeline⟩ := emptying_timeline
  have hinterval : ∀ r ∈ [emptyingReceipt], 0 ≤ r.now ∧ r.now ≤ 0 + 0 := by
    simp [emptyingReceipt, Receipt.now, Env.ideal]
  have h := quotes_le ideal_leavesBuckets (b := ⟨5, 5, 1, 0⟩) rfl rfl (le_refl 5) htimeline (by simp)
    hinterval
  exact ⟨rfl, by simpa using h.1⟩

end UnionVoyager.Zkgm
