import UnionVoyager.Zkgm.Contract

/-!
# Orders and leaves

The instructions without sub-instructions are token orders of two versions and calls.  They are the
only ones a batch may hold, so every dispatcher over a batch is a loop over leaves.

* `Order` — a token order of either version, and whether its base tokens were burned or escrowed.
* `Leaf` — an order or a call; `Leaf.toInstruction` is the instruction that holds it.
* `verifyInternal_leaf`, `verifyInternal_cases` and the like — each dispatcher at a leaf, and what it accepts.
-/

namespace UnionVoyager.Zkgm

open Lib
open Core (ChannelId Addr)

/-! ## Orders -/

inductive Order where
  | v1 (order : TokenOrderV1)
  | v2 (order : TokenOrderV2)

namespace Order

def sender : Order → Bytes
  | v1 o => o.sender
  | v2 o => o.sender

def baseToken : Order → Bytes
  | v1 o => o.baseToken
  | v2 o => o.baseToken

def baseAmount : Order → Nat
  | v1 o => o.baseAmount
  | v2 o => o.baseAmount

def quoteToken : Order → Bytes
  | v1 o => o.quoteToken
  | v2 o => o.quoteToken

def quoteAmount : Order → Nat
  | v1 o => o.quoteAmount
  | v2 o => o.quoteAmount

/-- The base tokens are burned when the order is sent; otherwise they are escrowed. -/
def burns : Order → Bool
  | v1 o => o.baseTokenPath != 0
  | v2 o => o.kind == TOKEN_ORDER_KIND_UNESCROW

def verify (env : Env) (info : MessageInfo) (channelId : ChannelId) (path : U256) (w : Walk) :
    Order → Result Walk
  | v1 o => verifyTokenOrderV1 env info channelId path o w
  | v2 o => verifyTokenOrderV2 env info channelId path o w

def execute (env : Env) (x : Execution) (s : State) (funds : Coins) : Order → Result Step
  | v1 o => executeTokenOrderV1 env x o s funds
  | v2 o => executeTokenOrderV2 env x o s funds

def acknowledge (env : Env) (packet : Packet) (path : U256) (ack : Option (U256 × Bytes)) (s : State) :
    Order → Result (State × Response)
  | v1 o => acknowledgeTokenOrderV1 env packet path o ack s
  | v2 o => acknowledgeTokenOrderV2 env packet path o ack s

def refund (env : Env) (path : U256) (sourceChannel : ChannelId) (s : State) : Order →
      Result (State × Response)
  | v1 o => Zkgm.refund env path sourceChannel o s
  | v2 o => refundV2 env path sourceChannel o s

@[simp] theorem acknowledge_none (env : Env) (packet : Packet) (path : U256) (s : State) (o : Order) :
    o.acknowledge env packet path none s = o.refund env path packet.sourceChannelId s := by
  cases o <;> rfl

end Order

/-- `wrapped` is what the chain would call `token`, sent to it over `channelId` along `path`. -/
def Env.Predicts (env : Env) (path : U256) (channelId : ChannelId) (token : Bytes)
    (wrapped : String) : Prop :=
  env.predictWrappedToken path channelId token = some wrapped ∨
    ∃ image, env.predictWrappedTokenFromMetadataImageV2 path channelId token image = some wrapped

variable {env : Env} {info : MessageInfo} {channelId : ChannelId} {path salt : U256} {w w' : Walk}

namespace Order

/-- Where the escrowed base tokens of an order are counted. -/
def key (o : Order) (channelId : ChannelId) (path : U256) (base : String) : BalanceKey :=
  ⟨channelId, path, base, o.quoteToken⟩

/-- **A verified order is burned or escrowed, as `burns` says.** -/
theorem verify_cases {o : Order} (h : o.verify env info channelId path w = .ok w') :
    ∃ base funds coins, o.baseToken = utf8 base ∧ o.baseAmount < 2 ^ 128 ∧
      w.funds.Takes base o.baseAmount funds coins ∧
      ((o.burns = true ∧ (path = 0 → env.Predicts 0 channelId o.quoteToken base) ∧
          w' = { w with funds := funds }.push
            (.burnTokens base o.baseAmount w.state.tokenMinter info.sender) coins) ∨
        (o.burns = false ∧
          w' = { w with
            state := w.state.setBalance (o.key channelId path base)
              (w.state.balance (o.key channelId path base) + o.baseAmount)
            funds := funds }.push
              (.escrow info.sender base w.state.tokenMinter o.baseAmount) coins)) := by
  cases o with
  | v1 o =>
    obtain ⟨base, funds, coins, hbase, hlt, htakes, hcase⟩ := verifyTokenOrderV1_cases h
    refine ⟨base, funds, coins, hbase, hlt, htakes, ?_⟩
    rcases hcase with ⟨hpath, hpred, hw⟩ | ⟨hpath, hw⟩
    · refine .inl ⟨by simpa [burns] using hpath, ?_, hw⟩
      rintro rfl
      exact .inl hpred
    · exact .inr ⟨by simpa [burns] using hpath, hw⟩
  | v2 o =>
    obtain ⟨base, funds, coins, hbase, hlt, htakes, hcase⟩ := verifyTokenOrderV2_cases h
    refine ⟨base, funds, coins, hbase, hlt, htakes, ?_⟩
    rcases hcase with ⟨hkind, hpred, hrev, hw⟩ | ⟨hkind, hw⟩
    · refine .inl ⟨by simpa [burns] using hkind, ?_, hw⟩
      rintro rfl
      rw [eq_zero_of_reverseChannelPath hrev] at hpred
      exact hpred
    · exact .inr ⟨by simpa [burns] using hkind, hw⟩

end Order

/-! ## Leaves -/

inductive Leaf where
  | order (order : Order)
  | call (call : Call)

def Order.toInstruction : Order → Instruction
  | .v1 o => .mk INSTR_VERSION_1 OP_TOKEN_ORDER (.tokenOrderV1 o)
  | .v2 o => .mk INSTR_VERSION_2 OP_TOKEN_ORDER (.tokenOrderV2 o)

def Leaf.toInstruction : Leaf → Instruction
  | .order o => o.toInstruction
  | .call c => .mk INSTR_VERSION_0 OP_CALL (.call c)

def Leaf.order? : Leaf → Option Order
  | .order o => some o
  | .call _ => none

def batchInstruction (instructions : List Instruction) : Instruction :=
  .mk INSTR_VERSION_0 OP_BATCH (.batch instructions)

def batchOf (leaves : List Leaf) : Instruction := batchInstruction (leaves.map Leaf.toInstruction)

variable {i : Instruction}

theorem sizeOf_lt_batchInstruction {is : List Instruction} (h : i ∈ is) :
    sizeOf i < sizeOf (batchInstruction is) := by
  have hlt := List.sizeOf_lt_of_mem h
  simp only [batchInstruction, Instruction.mk.sizeOf_spec, Operand.batch.sizeOf_spec]
  omega

theorem sizeOf_lt_forward (version opcode : UInt8) (p : U256) (th tt : Nat) (i : Instruction) :
    sizeOf i < sizeOf (Instruction.mk version opcode (.forward p th tt i)) := by
  simp only [Instruction.mk.sizeOf_spec, Operand.forward.sizeOf_spec]
  omega

@[simp] theorem Leaf.isAllowed (l : Leaf) : isAllowedBatchInstruction l.toInstruction.opcode = true := by
  rcases l with (_ | _) | _ <;> rfl

/-! ## The dispatchers at a leaf -/

def Leaf.verify (env : Env) (info : MessageInfo) (channelId : ChannelId) (path : U256) (w : Walk) :
    Leaf → Result Walk
  | .order o => o.verify env info channelId path w
  | .call c => do
    verifyCall info c
    pure w

def Leaf.execute (env : Env) (x : Execution) (s : State) (funds : Coins) : Leaf → Result Step
  | .order o => o.execute env x s funds
  | .call c => executeCall env x c s funds

def Leaf.acknowledge (env : Env) (caller : Addr) (packet : Packet) (relayer : Addr) (path : U256)
    (successful : Bool) (ack : AckData) (s : State) : Leaf → Result (State × Response)
  | .order o => do
    let orderAck ← decodeTokenOrderAck successful ack
    o.acknowledge env packet path orderAck s
  | .call c => acknowledgeCall env caller packet relayer path c successful ack s

def Leaf.timeout (env : Env) (caller : Addr) (packet : Packet) (relayer : Addr) (path : U256)
    (s : State) : Leaf → Result (State × Response)
  | .order o => o.refund env path packet.sourceChannelId s
  | .call c => timeoutCall env caller packet relayer path c s

section Dispatch

variable {env : Env} {info : MessageInfo} {channelId : ChannelId} {path : U256} {w : Walk}
  {x : Execution} {s : State} {funds : Coins} {caller relayer : Addr} {packet : Packet}

@[simp] theorem verifyInternal_leaf (l : Leaf) :
    verifyInternal env info channelId path l.toInstruction w = l.verify env info channelId path w := by
  rcases l with (_ | _) | _ <;> rfl

@[simp] theorem executeInternal_leaf (salt : U256) (l : Leaf) :
    executeInternal env x salt l.toInstruction s funds = l.execute env x s funds := by
  rcases l with (_ | _) | _ <;> rfl

@[simp] theorem acknowledgeInternal_leaf (successful : Bool) (ack : AckData) (l : Leaf) :
    acknowledgeInternal env caller packet relayer path l.toInstruction successful ack s =
      l.acknowledge env caller packet relayer path successful ack s := by
  rcases l with (_ | _) | _ <;> rfl

@[simp] theorem timeoutInternal_leaf (l : Leaf) :
      timeoutInternal env caller packet relayer path l.toInstruction s =
      l.timeout env caller packet relayer path s := by
  rcases l with (_ | _) | _ <;> rfl

theorem executeInternal_batchOf (salt : U256) (leaves : List Leaf) :
    executeInternal env x salt (batchOf leaves) s funds = executeBatch env x salt 0
        (leaves.map Leaf.toInstruction)
        { s with executingPacketIsBatch := some leaves.length } funds := by
  have hlen : (leaves.map Leaf.toInstruction).length = leaves.length := List.length_map ..
  rw [← hlen]
  rfl

theorem acknowledgeInternal_batchOf (successful : Bool) (ack : AckData) (leaves : List Leaf) :
    acknowledgeInternal env caller packet relayer path (batchOf leaves) successful ack s = (do
        let batchAck ← decodeBatchAck successful ack
        acknowledgeBatch env caller packet relayer path (leaves.map Leaf.toInstruction) successful
          batchAck s) := rfl

theorem timeoutInternal_batchOf (leaves : List Leaf) :
    timeoutInternal env caller packet relayer path (batchOf leaves) s =
      timeoutBatch env caller packet relayer path (leaves.map Leaf.toInstruction) s := rfl

/-! ## The loops over leaves -/

@[simp] theorem verifyBatch_cons (l : Leaf) (is : List Instruction) :
    verifyBatch env info channelId path (l.toInstruction :: is) w = (do
        let w ← l.verify env info channelId path w
        verifyBatch env info channelId path is w) := by
  simp [verifyBatch]

@[simp] theorem executeBatch_cons (salt : U256) (index : Nat) (l : Leaf) (is : List Instruction) :
    executeBatch env x salt index (l.toInstruction :: is) s funds = (do
        let (s, funds, messages) ← l.execute env x s funds
        let (s, funds, rest) ← executeBatch env x salt (index + 1) is s funds
        pure (s, funds, messages ++ rest)) := by
  simp [executeBatch]

@[simp] theorem acknowledgeBatch_cons (successful : Bool) (acks : Option (List AckData)) (l : Leaf)
    (is : List Instruction) :
    acknowledgeBatch env caller packet relayer path (l.toInstruction :: is) successful acks s = (do
        let (ack, acks) ← nextAck acks
        let (s, messages) ← l.acknowledge env caller packet relayer path successful ack s
        let (s, rest) ← acknowledgeBatch env caller packet relayer path is successful acks s
        pure (s, messages ++ rest)) := by
  simp [acknowledgeBatch]

@[simp] theorem timeoutBatch_cons (l : Leaf) (is : List Instruction) :
    timeoutBatch env caller packet relayer path (l.toInstruction :: is) s = (do
        let (s, messages) ← l.timeout env caller packet relayer path s
        let (s, rest) ← timeoutBatch env caller packet relayer path is s
        pure (s, messages ++ rest)) := by
  simp [timeoutBatch]

end Dispatch

/-! ## Accepted instructions are leaves -/

theorem eq_zero_of_not_gt {v : UInt8} (h : ¬ v > INSTR_VERSION_0) : v = INSTR_VERSION_0 := by
  have h' : ¬ INSTR_VERSION_0 < v := h
  simp only [UInt8.lt_iff_toNat_lt, INSTR_VERSION_0] at h'
  have hz : v.toNat = 0 := by simpa using h'
  exact UInt8.toNat_inj.mp hz

theorem exists_leaf_of_tokenOrder {version : UInt8} {operand : Operand}
    (h : (version = INSTR_VERSION_1 ∧ ∃ o, operand = .tokenOrderV1 o) ∨
      (version = INSTR_VERSION_2 ∧ ∃ o, operand = .tokenOrderV2 o)) :
    ∃ l : Leaf, Instruction.mk version OP_TOKEN_ORDER operand = l.toInstruction := by
  rcases h with ⟨rfl, o, rfl⟩ | ⟨rfl, o, rfl⟩
  · exact ⟨.order (.v1 o), rfl⟩
  · exact ⟨.order (.v2 o), rfl⟩

theorem exists_leaf_of_call {version : UInt8} {operand : Operand}
    (h : ¬ version > INSTR_VERSION_0 ∧ ∃ c, operand = .call c) :
    ∃ l : Leaf, Instruction.mk version OP_CALL operand = l.toInstruction := by
  obtain ⟨hv, c, rfl⟩ := h
  exact ⟨.call c, by rw [eq_zero_of_not_gt hv]; rfl⟩

theorem verifyInternal_cases (h : verifyInternal env info channelId path i w = .ok w') :
    (∃ l : Leaf, i = l.toInstruction) ∨
    (∃ is, i = batchInstruction is ∧ verifyBatch env info channelId path is w = .ok w') ∨
    (∃ p th tt j, i = .mk INSTR_VERSION_0 OP_FORWARD (.forward p th tt j) ∧
      isAllowedForwardInstruction j.opcode = true ∧
      verifyInternal env info channelId p j w = .ok w') := by
  obtain ⟨version, opcode, operand⟩ := i
  unfold verifyInternal at h
  split at h
  · rename_i hop
    subst hop
    exact .inl (exists_leaf_of_tokenOrder (by cases operand <;> grind))
  split at h
  · rename_i hop
    subst hop
    obtain ⟨hv, is, rfl⟩ : ¬ version > INSTR_VERSION_0 ∧ ∃ is, operand = .batch is := by
      cases operand <;> grind
    rw [if_neg hv] at h
    exact .inr (.inl ⟨is, by rw [eq_zero_of_not_gt hv]; rfl, h⟩)
  split at h
  · rename_i hop
    subst hop
    obtain ⟨hv, p, th, tt, j, rfl⟩ : ¬ version > INSTR_VERSION_0 ∧
        ∃ p th tt j, operand = .forward p th tt j := by
      cases operand <;> grind
    rw [if_neg hv] at h
    simp only at h
    split at h
    · rename_i hj
      exact .inr (.inr ⟨p, th, tt, j, by rw [eq_zero_of_not_gt hv], hj, h⟩)
    · cases h
  split at h
  · rename_i hop
    subst hop
    exact .inl (exists_leaf_of_call (by cases operand <;> grind))
  · cases h

variable {x : Execution} {s : State}

theorem executeInternal_cases {funds : Coins} {r : Step} (h : executeInternal env x salt i s funds = .ok r) :
    (∃ l : Leaf, i = l.toInstruction) ∨
    (∃ is, i = batchInstruction is ∧ executeBatch env x salt 0 is
      { s with executingPacketIsBatch := some is.length } funds = .ok r) ∨
    (∃ p th tt j, i = .mk INSTR_VERSION_0 OP_FORWARD (.forward p th tt j) ∧
      executeForward env x salt p tt j s funds = .ok r) := by
  obtain ⟨version, opcode, operand⟩ := i
  unfold executeInternal at h
  split at h
  · rename_i hop
    subst hop
    exact .inl (exists_leaf_of_tokenOrder (by cases operand <;> grind))
  split at h
  · rename_i hop
    subst hop
    obtain ⟨hv, is, rfl⟩ : ¬ version > INSTR_VERSION_0 ∧ ∃ is, operand = .batch is := by
      cases operand <;> grind
    rw [if_neg hv] at h
    exact .inr (.inl ⟨is, by rw [eq_zero_of_not_gt hv]; rfl, h⟩)
  split at h
  · rename_i hop
    subst hop
    exact .inl (exists_leaf_of_call (by cases operand <;> grind))
  split at h
  · rename_i hop
    subst hop
    obtain ⟨hv, p, th, tt, j, rfl⟩ : ¬ version > INSTR_VERSION_0 ∧
        ∃ p th tt j, operand = .forward p th tt j := by
      cases operand <;> grind
    rw [if_neg hv] at h
    exact .inr (.inr ⟨p, th, tt, j, by rw [eq_zero_of_not_gt hv], h⟩)
  · cases h

theorem acknowledgeInternal_cases {caller relayer : Addr} {packet : Packet} {successful : Bool}
    {ack : AckData}
    {r : State × Response} (h : acknowledgeInternal env caller packet relayer path i successful ack
      s = .ok r) :
    (∃ l : Leaf, i = l.toInstruction) ∨
    (∃ is acks, i = batchInstruction is ∧ decodeBatchAck successful ack = .ok acks ∧
      acknowledgeBatch env caller packet relayer path is successful acks s = .ok r) := by
  obtain ⟨version, opcode, operand⟩ := i
  unfold acknowledgeInternal at h
  split at h
  · rename_i hop
    subst hop
    exact .inl (exists_leaf_of_tokenOrder (by cases operand <;> grind))
  split at h
  · rename_i hop
    subst hop
    obtain ⟨hv, is, rfl⟩ : ¬ version > INSTR_VERSION_0 ∧ ∃ is, operand = .batch is := by
      cases operand <;> grind
    rw [if_neg hv] at h
    simp only [bind_eq_ok] at h
    obtain ⟨acks, hacks, h⟩ := h
    exact .inr ⟨is, acks, by rw [eq_zero_of_not_gt hv]; rfl, hacks, h⟩
  split at h
  · rename_i hop
    subst hop
    exact .inl (exists_leaf_of_call (by cases operand <;> grind))
  · cases h

theorem timeoutInternal_cases {caller relayer : Addr} {packet : Packet} {r : State × Response}
    (h : timeoutInternal env caller packet relayer path i s = .ok r) : (∃ l : Leaf, i = l.toInstruction) ∨
    (∃ is, i = batchInstruction is ∧
      timeoutBatch env caller packet relayer path is s = .ok r) := by
  obtain ⟨version, opcode, operand⟩ := i
  unfold timeoutInternal at h
  split at h
  · rename_i hop
    subst hop
    exact .inl (exists_leaf_of_tokenOrder (by cases operand <;> grind))
  split at h
  · rename_i hop
    subst hop
    obtain ⟨hv, is, rfl⟩ : ¬ version > INSTR_VERSION_0 ∧ ∃ is, operand = .batch is := by
      cases operand <;> grind
    rw [if_neg hv] at h
    exact .inr ⟨is, by rw [eq_zero_of_not_gt hv]; rfl, h⟩
  split at h
  · rename_i hop
    subst hop
    exact .inl (exists_leaf_of_call (by cases operand <;> grind))
  · cases h

theorem exists_leaf_of_verify (hi : isAllowedBatchInstruction i.opcode = true)
    (h : verifyInternal env info channelId path i w = .ok w') : ∃ l : Leaf, i = l.toInstruction := by
  rcases verifyInternal_cases h with hl | ⟨is, rfl, -⟩ | ⟨p, th, tt, j, rfl, -⟩
  · exact hl
  · cases hi
  · cases hi

theorem exists_leaf_of_execute {funds : Coins} {r : Step} (hi : isAllowedBatchInstruction i.opcode = true)
    (h : executeInternal env x salt i s funds = .ok r) : ∃ l : Leaf, i = l.toInstruction := by
  rcases executeInternal_cases h with hl | ⟨is, rfl, -⟩ | ⟨p, th, tt, j, rfl, -⟩
  · exact hl
  · cases hi
  · cases hi

theorem exists_leaves_of_verify :
    ∀ {is : List Instruction} {w w' : Walk}, verifyBatch env info channelId path is w = .ok w' →
      ∃ leaves : List Leaf, is = leaves.map Leaf.toInstruction
  | [], _, _, _ => ⟨[], rfl⟩
  | i :: is, w, w', h => by
    rw [verifyBatch] at h
    split at h
    · rename_i hi
      simp only [bind_eq_ok] at h
      obtain ⟨w₁, h₁, h₂⟩ := h
      obtain ⟨l, rfl⟩ := exists_leaf_of_verify hi h₁
      obtain ⟨leaves, rfl⟩ := exists_leaves_of_verify h₂
      exact ⟨l :: leaves, rfl⟩
    · cases h

theorem exists_leaves_of_execute : ∀ {is : List Instruction} {index : Nat} {s : State}
      {funds : Coins} {r : Step}, executeBatch env x salt index is s funds = .ok r →
        ∃ leaves : List Leaf, is = leaves.map Leaf.toInstruction
  | [], _, _, _, _, _ => ⟨[], rfl⟩
  | i :: is, index, s, funds, r, h => by
    rw [executeBatch] at h
    split at h
    · rename_i hi
      simp only [bind_eq_ok] at h
      obtain ⟨r₁, h₁, r₂, h₂, -⟩ := h
      obtain ⟨l, rfl⟩ := exists_leaf_of_execute hi h₁
      obtain ⟨leaves, rfl⟩ := exists_leaves_of_execute h₂
      exact ⟨l :: leaves, rfl⟩
    · cases h

end UnionVoyager.Zkgm
