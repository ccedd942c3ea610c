import UnionVoyager.Sui.Outcome

/-!
# The transaction that receives a packet

`begin_recv`, some calls of `recv_packet`, and `end_recv`.  Which call executes which instruction
depends on the opcodes alone; a turn is one instruction that was executed, with the world before and
after it.

* `receiving_ok` — **one packet is received, its turns are taken, and its acknowledgement is written.**
-/

namespace UnionVoyager.Sui

open Lib List
open Zkgm (U256 AckData Acknowledgement OP_FORWARD OP_BATCH OP_TOKEN_ORDER)

/-! ## The calls -/

/-- A call of `recv_packet`. -/
structure Recv where
  coinType : CoinType
  clock : Nat
  relayer : Address
  relayerMsg : Bytes

/-- The call, for the context at position `i`. -/
def Recv.call (i : Nat) (r : Recv) : Call := .recvPacket i r.coinType r.clock r.relayer r.relayerMsg

def runCalls (env : Env) (s : State) (calls : List Call) : Result State := calls.foldlM (step env) s

/-- The calls that receive `packets`, with their context at position `i`. -/
def receiving (i : Nat) (packets : List Packet) (recvs : List Recv) (clock : Nat)
    (relayerMsg : Bytes) (verified : Bool) : List Call :=
  .beginRecv packets :: (recvs.map (Recv.call i) ++ [.endRecv i clock relayerMsg verified])

/-! ## The turns -/

/-- The instructions one call handles, and those it leaves: it stops before a second token order. -/
def takeTurn : List Instruction → Bool → List Instruction × List Instruction
  | [], _ => ([], [])
  | instruction :: rest, typeIsUsed =>
    if instruction.opcode = OP_TOKEN_ORDER ∧ typeIsUsed then ([], instruction :: rest)
    else
      let (taken, left) := takeTurn rest (typeIsUsed || instruction.opcode == OP_TOKEN_ORDER)
      (instruction :: taken, left)

/-- Each instruction with the call that handles it. -/
def plan : List Instruction → List Recv → List (Instruction × Recv)
  | _, [] => []
  | instructions, r :: recvs =>
    ((takeTurn instructions false).1.map fun i => (i, r)) ++ plan (takeTurn instructions false).2 recvs

/-- An instruction that was executed. -/
structure Turn where
  before : World
  recv : Recv
  instruction : Instruction
  ack : AckData
  code : Nat
  after : World

section Turns

variable (env : Env) (packet : Packet) (path : U256) (salt : Bytes)

/-- What is executed, up to the first instruction that fails. -/
def turns : List (Instruction × Recv) → World → Result (List Turn)
  | [], _ => .ok []
  | (instruction, r) :: rest, w => do
    let ((ack, code), w') ←
      executeInternal env w r.coinType r.clock packet salt path r.relayer r.relayerMsg false instruction
    let turn : Turn := ⟨w, r, instruction, ack, code, w'⟩
    if code ≠ 0 then pure [turn] else pure (turn :: (← turns rest w'))

end Turns

def worldAfter : World → List Turn → World
  | w, [] => w
  | _, turn :: rest => worldAfter turn.after rest

/-- What receiving a packet executes. -/
structure Execution where
  instruction : Instruction
  path : U256
  instructions : List Instruction
  /-- The code for a batch that is not well formed. -/
  err : Nat
  turns : List Turn

def executionOf (env : Env) (w : World) (packet : Packet) (recvs : List Recv) : Result Execution := do
  let zkgmPacket ← ZkgmPacket.decode env packet.data
  let (instructions, _, err) ← extractBatch zkgmPacket.instruction
  pure {
    instruction := zkgmPacket.instruction
    path := zkgmPacket.path
    instructions := instructions
    err := err
    turns := ← turns env packet zkgmPacket.path zkgmPacket.salt (plan instructions recvs) w }

/-! ## One call -/

variable {env : Env}

section Loop

variable {t : CoinType} {clock : Nat} {packet : Packet} {relayer : Address} {relayerMsg : Bytes}

theorem takeTurn_append : ∀ (instructions : List Instruction) (used : Bool),
    (takeTurn instructions used).1 ++ (takeTurn instructions used).2 = instructions
  | [], _ => rfl
  | i :: rest, used => by
    rw [takeTurn]
    split
    · rfl
    · exact congrArg (i :: ·) (takeTurn_append rest _)

theorem recvInstructions_eq : ∀ (instructions : List Instruction) (used : Bool)
    (ctx : ZkgmPacketCtx) (w : World),
    recvInstructions env t clock packet relayer relayerMsg instructions used ctx w =
      (takeTurn instructions used).1.foldlM
        (fun x i => recvInstruction env x.2 t clock packet relayer relayerMsg i x.1) (ctx, w)
  | [], _, _, _ => rfl
  | i :: rest, used, ctx, w => by
    rw [recvInstructions, takeTurn]
    split
    · rfl
    · rw [foldlM_cons]
      congr 1
      funext x
      exact recvInstructions_eq rest _ x.1 x.2

end Loop

/-- One turn of the loop of `recv_packet`, in the call it belongs to. -/
def recvStep (env : Env) (packet : Packet) (x : ZkgmPacketCtx × World) (i : Instruction × Recv) :
    Result (ZkgmPacketCtx × World) :=
  recvInstruction env x.2 i.2.coinType i.2.clock packet i.2.relayer i.2.relayerMsg i.1 x.1

variable {packet : Packet}

theorem recvStep_ctx {ctx ctx' : ZkgmPacketCtx} {w w' : World} {i : Instruction × Recv}
    (h : recvStep env packet (ctx, w) i = .ok (ctx', w')) :
    ctx'.instructionSet = ctx.instructionSet ∧ ctx'.cursor = ctx.cursor + 1 ∧ ctx'.isBatch = ctx.isBatch ∧
      ctx'.path = ctx.path ∧ ctx'.salt = ctx.salt := by
  simp only [recvStep, recvInstruction] at h
  split at h
  · cases h
    exact ⟨rfl, rfl, rfl, rfl, rfl⟩
  · simp only [bind_eq_ok] at h
    obtain ⟨⟨⟨ack, code⟩, w₁⟩, -, h⟩ := h
    dsimp only at h
    split at h <;>
    · cases h
      exact ⟨rfl, rfl, rfl, rfl, rfl⟩

theorem recvSteps_ctx : ∀ {is : List (Instruction × Recv)} {ctx ctx' : ZkgmPacketCtx} {w w' : World},
    is.foldlM (recvStep env packet) (ctx, w) = .ok (ctx', w') →
      ctx'.instructionSet = ctx.instructionSet ∧ ctx'.cursor = ctx.cursor + is.length ∧
        ctx'.isBatch = ctx.isBatch
  | [], _, _, _, _, h => by
    cases h
    exact ⟨rfl, rfl, rfl⟩
  | i :: is, ctx, ctx', w, w', h => by
    rw [foldlM_cons, bind_eq_ok] at h
    obtain ⟨⟨ctx₁, w₁⟩, hone, h⟩ := h
    obtain ⟨hset, hcursor, hbatch, -, -⟩ := recvStep_ctx hone
    obtain ⟨hset', hcursor', hbatch'⟩ := recvSteps_ctx h
    refine ⟨hset'.trans hset, ?_, hbatch'.trans hbatch⟩
    rw [hcursor', hcursor, length_cons]
    omega

theorem recvSteps_failed : ∀ {is : List (Instruction × Recv)} {ctx ctx' : ZkgmPacketCtx}
    {w w' : World}, ctx.failure = true → is.foldlM (recvStep env packet) (ctx, w) = .ok (ctx', w') →
      w' = w ∧ ctx'.failure = true
  | [], _, _, _, _, hctx, h => by
    cases h
    exact ⟨rfl, hctx⟩
  | i :: is, ctx, ctx', w, w', hctx, h => by
    rw [foldlM_cons, bind_eq_ok] at h
    obtain ⟨⟨ctx₁, w₁⟩, hone, h⟩ := h
    simp only [recvStep, recvInstruction, hctx, if_true] at hone
    cases hone
    exact recvSteps_failed (by rfl) h

/-- **The turns of a packet.**  Up to the first failure every instruction leaves its
    acknowledgement, and after it nothing is executed. -/
theorem turns_of_recvSteps {is : List (Instruction × Recv)} {ctx ctx' : ZkgmPacketCtx} {w w' : World}
    (hctx : ctx.failure = false) (h : is.foldlM (recvStep env packet) (ctx, w) = .ok (ctx', w')) :
      ∃ ts, turns env packet ctx.path ctx.salt is w = .ok ts ∧ w' = worldAfter w ts ∧
        (ctx'.failure = true → ∃ turn ∈ ts, turn.code ≠ 0) ∧
        (ctx'.failure = false → ctx'.acks = ctx.acks ++ ts.map Turn.ack ∧
          ts.map Turn.instruction = is.map Prod.fst ∧ ∀ turn ∈ ts, turn.code = 0) := by
  induction is generalizing ctx w with
  | nil =>
    cases h
    refine ⟨[], rfl, rfl, ?_, ?_⟩
    · rw [hctx]
      exact fun h => by cases h
    · intro _
      exact ⟨(append_nil _).symm, rfl, fun _ h => by cases h⟩
  | cons head is ih =>
    obtain ⟨i, r⟩ := head
    rw [foldlM_cons, bind_eq_ok] at h
    obtain ⟨⟨ctx₁, w₁⟩, hone, h⟩ := h
    simp only [recvStep, recvInstruction, hctx, Bool.false_eq_true, if_false, bind_eq_ok] at hone
    obtain ⟨⟨⟨ack, code⟩, w₂⟩, hexec, hone⟩ := hone
    dsimp only at hone
    by_cases hcode : code = 0
    · rw [if_neg (not_not_intro hcode)] at hone
      cases hone
      obtain ⟨ts, hts, hw, hfailed, hdone⟩ := ih (by rfl) h
      refine ⟨⟨w, r, i, ack, code, w₁⟩ :: ts, ?_, hw, ?_, ?_⟩
      · rw [turns, hexec, ok_bind]
        dsimp only
        rw [if_neg (not_not_intro hcode), hts]
        rfl
      · intro hf
        obtain ⟨turn, hturn, hne⟩ := hfailed hf
        exact ⟨turn, mem_cons_of_mem _ hturn, hne⟩
      · intro hf
        obtain ⟨hacks, hmap, hzero⟩ := hdone hf
        refine ⟨?_, ?_, ?_⟩
        · rw [hacks, append_assoc]
          rfl
        · rw [map_cons, hmap]
          rfl
        · intro turn hturn
          rcases List.mem_cons.mp hturn with rfl | hturn
          · exact hcode
          · exact hzero turn hturn
    · rw [if_pos hcode] at hone
      cases hone
      obtain ⟨rfl, hfailure⟩ := recvSteps_failed (by rfl) h
      refine ⟨[⟨w, r, i, ack, code, w'⟩], ?_, rfl, ?_, ?_⟩
      · rw [turns, hexec, ok_bind]
        dsimp only
        rw [if_pos hcode]
        rfl
      · intro _
        exact ⟨_, mem_singleton_self _, hcode⟩
      · rw [hfailure]
        exact fun h => by cases h

/-! ## The calls of a transaction -/

/-- The calls of `recv_packet` one after the other. -/
def recvAll (env : Env) (x : RecvCtx × World) (recvs : List Recv) : Result (RecvCtx × World) :=
  recvs.foldlM (fun x r => recvPacket env x.2 r.coinType r.clock r.relayer r.relayerMsg x.1) x

theorem recvPacket_single {c : ZkgmPacketCtx} {ctx' : RecvCtx} {w w' : World} {r : Recv}
    (h : recvPacket env w r.coinType r.clock r.relayer r.relayerMsg ⟨[c], [packet], 0⟩ = .ok (ctx', w')) :
    ∃ c', ((takeTurn (c.instructionSet.drop c.cursor) false).1.map fun i => (i, r)).foldlM
        (recvStep env packet) (c, w) = .ok (c', w') ∧
      ctx' = ⟨[c'], [packet], if c'.cursor = c'.instructionSet.length then 1 else 0⟩ := by
  simp only [recvPacket, bind_eq_ok, orErr_eq_ok, pure_eq_ok] at h
  obtain ⟨p, hp, c₀, hc, ⟨c', w₁⟩, hloop, heq⟩ := h
  cases hp
  cases hc
  cases heq
  rw [recvInstructions_eq] at hloop
  refine ⟨c', ?_, rfl⟩
  rw [foldlM_map]
  exact hloop

/-- **The calls execute the instructions as planned**, if they come to the end of the packet. -/
theorem recvAll_single : ∀ {recvs : List Recv} {c : ZkgmPacketCtx} {ctx' : RecvCtx} {w w' : World},
    recvAll env (⟨[c], [packet], 0⟩, w) recvs = .ok (ctx', w') → ctx'.cursor = 1 →
      ∃ c', ctx' = ⟨[c'], [packet], 1⟩ ∧
        (plan (c.instructionSet.drop c.cursor) recvs).foldlM (recvStep env packet) (c, w) = .ok (c', w') ∧
        (plan (c.instructionSet.drop c.cursor) recvs).map Prod.fst = c.instructionSet.drop c.cursor
  | [], _, _, _, _, h, hcursor => by
    cases h
    cases hcursor
  | r :: recvs, c, ctx', w, w', h, hcursor => by
    rw [recvAll, foldlM_cons, bind_eq_ok] at h
    obtain ⟨⟨ctx₁, w₁⟩, hone, h⟩ := h
    obtain ⟨c₁, hsteps, rfl⟩ := recvPacket_single hone
    obtain ⟨hset, hnext, -⟩ := recvSteps_ctx hsteps
    rw [length_map] at hnext
    have happend := takeTurn_append (c.instructionSet.drop c.cursor) false
    have hleft : (takeTurn (c.instructionSet.drop c.cursor) false).2 = c₁.instructionSet.drop c₁.cursor := by
      have hdrop := congrArg (List.drop (takeTurn (c.instructionSet.drop c.cursor) false).1.length) happend
      rw [drop_left, drop_drop] at hdrop
      rw [hset, hnext]
      exact hdrop
    have hfst : ((takeTurn (c.instructionSet.drop c.cursor) false).1.map fun i => (i, r)).map Prod.fst =
        (takeTurn (c.instructionSet.drop c.cursor) false).1 := by
      rw [map_map]
      exact map_id _
    rw [plan, hleft]
    by_cases hend : c₁.cursor = c₁.instructionSet.length
    · -- no packet is left for a further call
      rw [if_pos hend] at h
      cases recvs with
      | nil =>
        cases h
        refine ⟨c₁, rfl, ?_, ?_⟩
        · rw [plan, append_nil]
          exact hsteps
        · rw [plan, append_nil, hfst]
          rw [hleft, hend, drop_length, append_nil] at happend
          exact happend
      | cons r' recvs =>
        rw [foldlM_cons] at h
        cases h
    · rw [if_neg hend] at h
      obtain ⟨c', rfl, hrest, hmap⟩ := recvAll_single h hcursor
      refine ⟨c', rfl, ?_, ?_⟩
      · rw [foldlM_append, hsteps, ok_bind]
        exact hrest
      · rw [map_append, hfst, hmap, ← hleft]
        exact happend

theorem recvAll_packets : ∀ {recvs : List Recv} {ctx ctx' : RecvCtx} {w w' : World},
    recvAll env (ctx, w) recvs = .ok (ctx', w') →
      ctx'.packets = ctx.packets ∧ ctx'.packetCtxs.length = ctx.packetCtxs.length
  | [], _, _, _, _, h => by
    cases h
    exact ⟨rfl, rfl⟩
  | r :: recvs, ctx, ctx', w, w', h => by
    rw [recvAll, foldlM_cons, bind_eq_ok] at h
    obtain ⟨⟨ctx₁, w₁⟩, hone, h⟩ := h
    simp only [recvPacket, bind_eq_ok, pure_eq_ok] at hone
    obtain ⟨_, -, _, -, ⟨_, _⟩, -, heq⟩ := hone
    cases heq
    obtain ⟨hpackets, hlen⟩ := recvAll_packets h
    exact ⟨hpackets, by rw [hlen, length_set]⟩

theorem runCalls_recvs {s : State} : ∀ {recvs : List Recv} {ctx : RecvCtx} {w : World} {s' : State},
    runCalls env { s with world := w, opened := s.opened ++ [.recv ctx] }
        (recvs.map (Recv.call s.opened.length)) = .ok s' →
      ∃ ctx' w', recvAll env (ctx, w) recvs = .ok (ctx', w') ∧
        s' = { s with world := w', opened := s.opened ++ [.recv ctx'] }
  | [], ctx, w, _, h => by
    cases h
    exact ⟨ctx, w, rfl, rfl⟩
  | r :: recvs, ctx, w, s', h => by
    rw [runCalls, map_cons, foldlM_cons, bind_eq_ok] at h
    obtain ⟨s₁, hstep, h⟩ := h
    have hopen : (s.opened ++ [Open.recv ctx])[s.opened.length]? = some (.recv ctx) := by simp
    simp only [step, Recv.call, hopen, bind_eq_ok, pure_eq_ok] at hstep
    obtain ⟨⟨ctx₁, w₁⟩, hone, rfl⟩ := hstep
    have hset : (s.opened ++ [Open.recv ctx]).set s.opened.length (.recv ctx₁) = s.opened ++
      [.recv ctx₁] := by simp
    dsimp only at h
    rw [hset] at h
    obtain ⟨ctx', w', hrest, rfl⟩ := runCalls_recvs h
    refine ⟨ctx', w', ?_, rfl⟩
    rw [recvAll, foldlM_cons, hone, ok_bind]
    exact hrest

/-! ## The end -/

variable {clock : Nat} {verified : Bool}

theorem recvPacket_written {i i' : IBCStore} {makerMsgs : List Bytes} {tag : U256} {innerAck : AckData}
    (h : i.recvPacket env clock [packet] makerMsgs [.ack tag innerAck] verified = .ok i') :
    i'.sent = i.sent ∧ i'.received (env.receiptKey packet) = some (some (.ack tag innerAck)) := by
  simp only [IBCStore.recvPacket, bind_eq_ok] at h
  obtain ⟨_, -, -, -, -, -, _, -, -, -, h⟩ := h
  simp only [zip_cons_cons, zip_nil_right, foldlM_cons, foldlM_nil, bind_eq_ok, pure_eq_ok,
    IBCStore.receive] at h
  obtain ⟨i₁, ⟨-, -, -, -, _, -, -, -, -, -, h⟩, rfl⟩ := h
  rw [if_neg (by simp [Acknowledgement.isEmpty])] at h
  simp only [IBCStore.innerWriteAcknowledgement, bind_eq_ok, pure_eq_ok] at h
  obtain ⟨_, -, -, -, rfl⟩ := h
  exact ⟨rfl, Function.update_self ..⟩

theorem recvPacket_lengths {i i' : IBCStore} {packets : List Packet} {makerMsgs : List Bytes}
    {acks : List Acknowledgement} (h : i.recvPacket env clock packets makerMsgs acks verified = .ok i') :
    packets.length = makerMsgs.length := by
  simp only [IBCStore.recvPacket, bind_eq_ok, assert_eq_ok] at h
  obtain ⟨_, -, -, -, -, hlen, -⟩ := h
  exact hlen

theorem mapM_singleton_ok {α β : Type} {f : α → Result β} {a : α} {bs : List β}
    (h : [a].mapM f = .ok bs) : ∃ b, f a = .ok b ∧ bs = [b] := by
  simp only [mapM_cons, mapM_nil, bind_eq_ok, pure_eq_ok] at h
  obtain ⟨b, hb, _, rfl, rfl⟩ := h
  exact ⟨b, hb, rfl⟩

theorem extractBatch_ok {i : Instruction} {set : List Instruction} {isBatch : Bool} {err : Nat}
    (h : extractBatch i = .ok (set, isBatch, err)) :
    (err ≠ 0 ∧ set = []) ∨
    (err = 0 ∧ (i.opcode = OP_BATCH ∧ isBatch = true ∨ i.opcode ≠ OP_BATCH ∧ isBatch = false ∧
      set = [i])) := by
  obtain ⟨version, opcode, operand⟩ := i
  unfold extractBatch at h
  by_cases hop : opcode = OP_BATCH
  · simp only [if_pos hop] at h
    split at h
    · cases h
      exact .inl ⟨by decide, rfl⟩
    · cases operand with
      | batch instructions =>
        dsimp only at h
        split at h
        · cases h
          exact .inr ⟨rfl, .inl ⟨hop, rfl⟩⟩
        · cases h
          exact .inl ⟨by decide, rfl⟩
      | forward | tokenOrder | other => cases h
  · simp only [if_neg hop] at h
    cases h
    exact .inr ⟨rfl, .inr ⟨hop, rfl, rfl⟩⟩

theorem plan_nil : ∀ recvs : List Recv, plan [] recvs = []
  | [] => rfl
  | _ :: recvs => plan_nil recvs

inductive Acked (x : Execution) : Acknowledgement → Prop
  | malformed : x.err ≠ 0 → x.turns = [] → Acked x .failure
  | failed {turn : Turn} : turn ∈ x.turns → turn.code ≠ 0 → Acked x .failure
  | done {inner : AckData} : x.err = 0 → x.turns.map Turn.instruction = x.instructions →
      (∀ turn ∈ x.turns, turn.code = 0) →
      (x.instruction.opcode = OP_BATCH → inner = .batchAck (x.turns.map Turn.ack)) →
      (x.instruction.opcode ≠ OP_BATCH → x.turns.map Turn.ack = [inner]) → Acked x (.success inner)

theorem receiving_ok {s s' : State} {packets : List Packet} {recvs : List Recv} {relayerMsg : Bytes}
    (h : runCalls env s (receiving s.opened.length packets recvs clock relayerMsg verified) = .ok s') :
    ∃ packet x ack, packets = [packet] ∧ executionOf env s.world packet recvs = .ok x ∧
      Untouched (worldAfter s.world x.turns) s'.world ∧
      s'.world.ibc.received (env.receiptKey packet) = some (some ack) ∧ Acked x ack := by
  rw [runCalls, receiving, foldlM_cons, bind_eq_ok] at h
  obtain ⟨s₁, hbegin, h⟩ := h
  simp only [step, beginRecv, bind_eq_ok, pure_eq_ok] at hbegin
  obtain ⟨_, ⟨packetCtxs, hctxs, rfl⟩, rfl⟩ := hbegin
  rw [foldlM_append, bind_eq_ok] at h
  obtain ⟨s₂, hrecvs, h⟩ := h
  obtain ⟨ctx', w', hall, rfl⟩ := runCalls_recvs hrecvs
  have hopen : (s.opened ++ [Open.recv ctx'])[s.opened.length]? = some (.recv ctx') := by simp
  simp only [foldlM_cons, foldlM_nil, step, hopen, bind_eq_ok, pure_eq_ok, endRecv, assert_eq_ok,
    orErr_eq_ok] at h
  obtain ⟨_, ⟨w'', ⟨-, hcursor, -, -, -, -, acks, hacks, ibc, hibc, rfl⟩, rfl⟩, rfl⟩ := h
  -- there is one message for the maker, so that there is one packet
  obtain ⟨hpackets, hlen⟩ := recvAll_packets hall
  have hone := recvPacket_lengths hibc
  rw [hpackets] at hone hibc
  obtain ⟨packet, rfl⟩ := List.length_eq_one_iff.mp hone
  obtain ⟨c, hc, rfl⟩ := mapM_singleton_ok hctxs
  rw [hlen] at hcursor
  obtain ⟨c', rfl, hsteps, hmap⟩ := recvAll_single hall hcursor
  obtain ⟨ack, hack, rfl⟩ := mapM_singleton_ok hacks
  simp only [beginRecvPacket, bind_eq_ok, pure_eq_ok] at hc
  obtain ⟨zkgmPacket, hdecode, ⟨instructions, isBatch, err⟩, hextract, rfl⟩ := hc
  rw [drop_zero] at hsteps hmap
  obtain ⟨-, -, hbatch⟩ := recvSteps_ctx hsteps
  dsimp only at hsteps hmap hbatch
  have hexecution : ∀ ts, turns env packet zkgmPacket.path zkgmPacket.salt (plan instructions recvs)
      s.world = .ok ts →
      executionOf env s.world packet recvs = .ok
        ⟨zkgmPacket.instruction, zkgmPacket.path, instructions, err, ts⟩ := by
    intro ts hts
    rw [executionOf, hdecode, ok_bind, hextract, ok_bind]
    dsimp only
    rw [hts]
    rfl
  have hwritten : ∀ tag innerAck, ack = .ack tag innerAck →
      ibc.sent = w'.ibc.sent ∧ ibc.received (env.receiptKey packet) = some (some ack) := by
    rintro tag innerAck rfl
    exact recvPacket_written hibc
  unfold ZkgmPacketCtx.acknowledgement at hack
  rcases extractBatch_ok hextract with ⟨herr, rfl⟩ | ⟨rfl, hkind⟩
  · -- a batch that is not well formed
    obtain ⟨rfl, hfailure⟩ := recvSteps_failed (by simpa using herr) hsteps
    rw [hfailure, if_pos rfl] at hack
    cases hack
    obtain ⟨hsent, hrecv⟩ := hwritten _ _ rfl
    refine ⟨packet, _, .failure, rfl, hexecution [] ?_, ⟨rfl, rfl, rfl, rfl, hsent⟩, hrecv,
      .malformed herr rfl⟩
    rw [plan_nil]
    rfl
  · obtain ⟨ts, hts, rfl, hfailed, hdone⟩ := turns_of_recvSteps (by simp) hsteps
    cases hfailure : c'.failure with
    | true =>
      rw [hfailure, if_pos rfl] at hack
      cases hack
      obtain ⟨hsent, hrecv⟩ := hwritten _ _ rfl
      obtain ⟨turn, hturn, hcode⟩ := hfailed hfailure
      exact ⟨packet, _, .failure, rfl, hexecution ts hts, ⟨rfl, rfl, rfl, rfl, hsent⟩, hrecv,
        .failed hturn hcode⟩
    | false =>
      obtain ⟨hacks', hinstructions, hzero⟩ := hdone hfailure
      rw [hmap] at hinstructions
      rw [nil_append] at hacks'
      rw [hfailure, if_neg (by simp), hbatch, hacks'] at hack
      rcases hkind with ⟨hop, rfl⟩ | ⟨hop, rfl, -⟩
      · rw [if_pos rfl] at hack
        cases hack
        obtain ⟨hsent, hrecv⟩ := hwritten _ _ rfl
        exact ⟨packet, _, _, rfl, hexecution ts hts, ⟨rfl, rfl, rfl, rfl, hsent⟩, hrecv,
          .done rfl hinstructions hzero (fun _ => rfl) fun hne => absurd hop hne⟩
      · rw [if_neg (by simp)] at hack
        split at hack
        · rename_i inner hsingle
          cases hack
          obtain ⟨hsent, hrecv⟩ := hwritten _ _ rfl
          exact ⟨packet, _, _, rfl, hexecution ts hts, ⟨rfl, rfl, rfl, rfl, hsent⟩, hrecv,
            .done rfl hinstructions hzero (fun heq => absurd heq hop) fun _ => hsingle⟩
        · cases hack

end UnionVoyager.Sui
