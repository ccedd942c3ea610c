import UnionVoyager.Sui.Effect

/-!
# What one call handles

A call of `recv_packet`, `acknowledge_packet` or `timeout_packet` handles at most the instruction at
its cursor: it stops before a second token order, and any other instruction of a batch fails.

* `recvPacket_moved` — receiving.
* `acknowledgePacket_ok`, `timeoutPacket_ok` — acknowledgements and timeouts.
-/

namespace UnionVoyager.Sui

open Lib
open Zkgm (U256 AckData Acknowledgement OP_FORWARD OP_CALL OP_BATCH OP_TOKEN_ORDER INSTR_VERSION_0
  INSTR_VERSION_2
  TOKEN_ORDER_KIND_ESCROW TOKEN_ORDER_KIND_UNESCROW TOKEN_ORDER_KIND_SOLVE FILL_TYPE_PROTOCOL
    FILL_TYPE_MARKETMAKER
  TAG_ACK_SUCCESS)

variable {env : Env}

/-! ## The loops -/

variable {remaining : List Instruction} {w w' : World}

section Receive

variable {t : CoinType} {clock : Nat} {packet : Packet} {relayer : Address} {relayerMsg : Bytes}

theorem recvInstructions_failed : ∀ {remaining : List Instruction} {used : Bool} {ctx ctx' : ZkgmPacketCtx}
    {w w' : World}, ctx.failure = true →
      recvInstructions env t clock packet relayer relayerMsg remaining used ctx w = .ok (ctx', w') →
        w' = w := by
  intro remaining
  induction remaining with
  | nil =>
    intro used ctx ctx' w w' _ h
    cases h
    rfl
  | cons i rest ih =>
    intro used ctx ctx' w w' hfailed h
    rw [recvInstructions] at h
    split at h
    · cases h
      rfl
    · simp only [bind_eq_ok, recvInstruction, hfailed, if_true] at h
      obtain ⟨⟨ctx₁, w₁⟩, hok, h⟩ := h
      cases hok
      refine ih ?_ h
      rfl

theorem recvInstructions_used {ctx ctx' : ZkgmPacketCtx}
    (h : recvInstructions env t clock packet relayer relayerMsg remaining true ctx w =
      .ok (ctx', w')) : w' = w := by
  cases remaining with
  | nil =>
    cases h
    rfl
  | cons i rest =>
    rw [recvInstructions] at h
    split at h
    · cases h
      rfl
    · rename_i hop
      have hop' : i.opcode ≠ OP_TOKEN_ORDER := fun heq => hop ⟨heq, rfl⟩
      simp only [bind_eq_ok, recvInstruction] at h
      obtain ⟨⟨ctx₁, w₁⟩, hone, h⟩ := h
      split at hone
      · rename_i hfailed
        cases hone
        refine recvInstructions_failed ?_ h
        exact hfailed
      · simp only [bind_eq_ok] at hone
        obtain ⟨⟨a, w₂⟩, hexec, hone⟩ := hone
        obtain ⟨herr, rfl⟩ := executeInternal_other hop' hexec
        dsimp only at hone
        rw [if_pos herr] at hone
        cases hone
        exact recvInstructions_failed rfl h

/-- **One call of `recv_packet` executes at most the instruction at the cursor.** -/
theorem recvInstructions_moved {ctx ctx' : ZkgmPacketCtx} (hsolvent : Solvent w.store)
    (hfits : ctx.failure = false → ∀ i, remaining.head? = some i → ExecuteFits env w t packet ctx.path i)
    (h : recvInstructions env t clock packet relayer relayerMsg remaining false ctx w = .ok (ctx', w')) :
    Frame w w' ∧ (Still w.store w'.store ∨
      ∃ i, remaining.head? = some i ∧ Unescrowed packet ctx.path i t w.store w'.store) := by
  cases remaining with
  | nil =>
    cases h
    exact ⟨Frame.refl w, .inl (Still.refl w.store)⟩
  | cons i rest =>
    rw [recvInstructions, if_neg (by simp)] at h
    simp only [bind_eq_ok, recvInstruction] at h
    obtain ⟨⟨ctx₁, w₁⟩, hone, h⟩ := h
    split at hone
    · rename_i hfailed
      cases hone
      obtain rfl : w' = w := by
        refine recvInstructions_failed ?_ h
        exact hfailed
      exact ⟨Frame.refl w', .inl (Still.refl w'.store)⟩
    · rename_i hfailed
      have hhead := hfits (by simpa using hfailed)
      simp only [bind_eq_ok] at hone
      obtain ⟨⟨a, w₂⟩, hexec, hone⟩ := hone
      by_cases hop : i.opcode = OP_TOKEN_ORDER
      · obtain ⟨hframe, hmoved⟩ := executeInternal_moved hsolvent hop (hhead i rfl) hexec
        -- the type is used up
        have hsame : w' = w₂ := by
          have hw₁ : w₁ = w₂ := by
            dsimp only at hone
            split at hone <;> (cases hone; rfl)
          rw [hop, beq_self_eq_true, Bool.or_true] at h
          rw [recvInstructions_used h]
          exact hw₁
        rw [hsame]
        exact ⟨hframe, .inr ⟨i, rfl, hmoved⟩⟩
      · obtain ⟨herr, rfl⟩ := executeInternal_other hop hexec
        dsimp only at hone
        rw [if_pos herr] at hone
        cases hone
        rw [recvInstructions_failed rfl h]
        exact ⟨Frame.refl _, .inl (Still.refl _)⟩

end Receive

/-! ## Sets of instructions -/

/-- What `extract_batch` lets through. -/
def AllowedSet (instructions : List Instruction) : Prop :=
  instructions.length ≤ 1 ∨ ∀ i ∈ instructions, isAllowedBatchInstruction i.opcode = true

theorem extractBatch_allowed {i : Instruction} {set : List Instruction} {isBatch : Bool} {err : Nat}
    (h : extractBatch i = .ok (set, isBatch, err)) : AllowedSet set := by
  obtain ⟨version, opcode, operand⟩ := i
  unfold extractBatch at h
  by_cases hop : opcode = OP_BATCH
  · simp only [if_pos hop] at h
    by_cases hversion : version ≠ INSTR_VERSION_0
    · rw [if_pos hversion] at h
      cases h
      exact .inl (Nat.zero_le 1)
    · rw [if_neg hversion] at h
      cases operand with
      | batch instructions =>
        by_cases hall : (instructions.all fun i => isAllowedBatchInstruction i.opcode) = true
        · simp only [if_pos hall] at h
          cases h
          exact .inr (List.all_eq_true.mp hall)
        · simp only [if_neg hall] at h
          cases h
          exact .inl (Nat.zero_le 1)
      | forward | tokenOrder | other => cases h
  · simp only [if_neg hop] at h
    cases h
    exact .inl (Nat.le_refl 1)

theorem AllowedSet.drop {set : List Instruction} (h : AllowedSet set) (n : Nat) :
    AllowedSet (set.drop n) := by
  rcases h with h | h
  · left
    rw [List.length_drop]
    omega
  · right
    intro i hi
    exact h i (List.mem_of_mem_drop hi)

variable {packet : Packet}

theorem parentOf_none {salt : Bytes} {r : Option Packet} (hflight : w.store.inFlightPacket = fun _ => none)
    (h : parentOf env w packet salt = .ok r) : r = none := by
  simp only [parentOf, bind_eq_ok] at h
  obtain ⟨forwarded, -, h⟩ := h
  split at h
  · cases h
    rw [hflight]
  · cases h
    rfl

/-- Only token orders and forwards are handled. -/
def Handles (handle : ZkgmPacketAckCtx → World → Instruction → Result World) : Prop :=
  ∀ ctx w i w', handle ctx w i = .ok w' → i.opcode = OP_TOKEN_ORDER ∨ i.opcode = OP_FORWARD

/-- **One call handles at most the instruction at the cursor.** -/
theorem completeInstructions_ok {parentAck : Acknowledgement}
    {handle : ZkgmPacketAckCtx → World → Instruction → Result World} (hhandles : Handles handle)
    {ctx ctx' : ZkgmPacketAckCtx} (hallowed : AllowedSet remaining)
      (hflight : w.store.inFlightPacket = fun _ => none)
    (hkeep : ∀ i w₁, remaining.head? = some i → handle ctx w i = .ok w₁ →
      w₁.store.inFlightPacket = fun _ => none)
    (h : completeInstructions env packet parentAck handle remaining false ctx w = .ok (ctx', w')) :
    (remaining = [] ∧ ctx' = ctx ∧ w' = w) ∨
    ∃ i rest, remaining = i :: rest ∧ handle ctx w i = .ok w' ∧
      ctx' = { ctx with cursor := ctx.cursor + 1 } := by
  cases remaining with
  | nil =>
    cases h
    exact .inl ⟨rfl, rfl, rfl⟩
  | cons i rest =>
    right
    refine ⟨i, rest, rfl, ?_⟩
    rw [completeInstructions, if_neg (by simp)] at h
    simp only [bind_eq_ok] at h
    obtain ⟨parent, hparent, h⟩ := h
    obtain rfl := parentOf_none hflight hparent
    simp only [bind_eq_ok] at h
    obtain ⟨w₁, hone, h⟩ := h
    cases rest with
    | nil =>
      cases h
      exact ⟨hone, rfl⟩
    | cons j rest =>
      -- the set is a batch, so that both are token orders or calls
      have hall : ∀ k ∈ i :: j :: rest, isAllowedBatchInstruction k.opcode = true := by
        rcases hallowed with hlen | hall
        · simp at hlen
        · exact hall
      have hi : i.opcode = OP_TOKEN_ORDER := by
        rcases hhandles _ _ _ _ hone with hi | hi
        · exact hi
        · have := hall i List.mem_cons_self
          rw [hi] at this
          cases this
      rw [hi, beq_self_eq_true, Bool.or_true, completeInstructions] at h
      split at h
      · cases h
        exact ⟨hone, rfl⟩
      · rename_i hj
        simp only [bind_eq_ok] at h
        obtain ⟨parent, hparent, h⟩ := h
        obtain rfl := parentOf_none (hkeep i w₁ rfl hone) hparent
        simp only [bind_eq_ok] at h
        obtain ⟨w₂, htwo, -⟩ := h
        rcases hhandles _ _ _ _ htwo with hj' | hj'
        · exact absurd ⟨hj', rfl⟩ hj
        · have := hall j (List.mem_cons_of_mem i List.mem_cons_self)
          rw [hj'] at this
          cases this

/-! ## The calls -/

theorem head?_drop {α : Type} (l : List α) (n : Nat) : (l.drop n).head? = l[n]? := by
  rw [List.head?_eq_getElem?, List.getElem?_drop, Nat.add_zero]

variable {t : CoinType}

theorem recvPacket_moved {clock : Nat} {relayer : Address} {relayerMsg : Bytes} {ctx ctx' : RecvCtx}
    (hsolvent : Solvent w.store)
    (hfits : ∀ packet packetCtx, ctx.current = some (packet, packetCtx) → packetCtx.failure = false →
      ∀ i, packetCtx.instructionSet[packetCtx.cursor]? = some i → ExecuteFits env w t packet packetCtx.path i)
    (h : recvPacket env w t clock relayer relayerMsg ctx = .ok (ctx', w')) :
    Frame w w' ∧ (Still w.store w'.store ∨ ∃ packet packetCtx i, ctx.current = some (packet, packetCtx) ∧
      packetCtx.instructionSet[packetCtx.cursor]? = some i ∧
        Unescrowed packet packetCtx.path i t w.store w'.store) := by
  simp only [recvPacket, bind_eq_ok, orErr_eq_ok, pure_eq_ok] at h
  obtain ⟨packet, hpacket, packetCtx, hctx, ⟨packetCtx', w₁⟩, hloop, heq⟩ := h
  cases heq
  have hcurrent : ctx.current = some (packet, packetCtx) := by
    simp [RecvCtx.current, hpacket, hctx]
  have hfits' : packetCtx.failure = false → ∀ i,
        (packetCtx.instructionSet.drop packetCtx.cursor).head? = some i →
        ExecuteFits env w t packet packetCtx.path i := by
    intro hfailure i hi
    rw [head?_drop] at hi
    exact hfits packet packetCtx hcurrent hfailure i hi
  obtain ⟨hframe, hmoved⟩ := recvInstructions_moved hsolvent hfits' hloop
  refine ⟨hframe, hmoved.imp_right ?_⟩
  rintro ⟨i, hi, hmoved⟩
  rw [head?_drop] at hi
  exact ⟨packet, packetCtx, i, hcurrent, hi, hmoved⟩

theorem ackInstruction_handles {tag : U256} {innerAck : AckData} {batchAcks : Option (List AckData)} :
    Handles (ackInstruction t packet tag innerAck batchAcks) := by
  rintro ctx w ⟨version, opcode, operand⟩ w' h
  simp only [ackInstruction, bind_eq_ok] at h
  obtain ⟨inner, -, h⟩ := h
  unfold acknowledgeInternal at h
  by_contra hop
  simp only [Instruction.opcode, not_or] at hop
  rw [if_neg hop.1, if_neg hop.2] at h
  split at h <;> cases h

theorem timeoutInternal_handles : Handles fun ctx w i => timeoutInternal w t packet ctx.path i := by
  rintro ctx w ⟨version, opcode, operand⟩ w' h
  dsimp only at h
  unfold timeoutInternal at h
  by_contra hop
  simp only [Instruction.opcode, not_or] at hop
  rw [if_neg hop.1, if_neg hop.2] at h
  split at h <;> cases h

/-- What one call of `acknowledge_packet` does with the packet whose turn it is. -/
structure Acknowledged (t : CoinType) (ctx ctx' : AckCtx) (w w' : World) (packet : Packet)
    (packetCtx packetCtx' : ZkgmPacketAckCtx) (tag : U256) (innerAck : AckData) : Prop where
  current : ctx.current = some (packet, packetCtx)
  ack : ctx.acks[ctx.cursor]? = some (.ack tag innerAck)
  ctx' : ctx' = { ctx with
    packetCtxs := ctx.packetCtxs.set ctx.cursor packetCtx'
    cursor := if packetCtx'.cursor = packetCtx'.instructionSet.length then ctx.cursor + 1 else ctx.cursor }
  handled : (packetCtx.instructionSet.drop packetCtx.cursor = [] ∧ packetCtx' = packetCtx ∧ w' = w) ∨
    ∃ i k, packetCtx.instructionSet[packetCtx.cursor]? = some i ∧
      packetCtx' = { packetCtx with cursor := packetCtx.cursor + 1 } ∧
      takingOf packet.sourceChannelId packetCtx.path i t = some k ∧ Settled k (tag == TAG_ACK_SUCCESS) w w' ∧
      Frame w w' ∧ ((tag == TAG_ACK_SUCCESS) = false → Owns w.store k.order t)

theorem acknowledgePacket_ok {ctx ctx' : AckCtx} (hsolvent : Solvent w.store)
    (hflight : w.store.inFlightPacket = fun _ => none)
    (hallowed : ∀ packetCtx ∈ ctx.packetCtxs, AllowedSet packetCtx.instructionSet)
    (hfits : ∀ packet packetCtx success ack, ctx.current = some (packet, packetCtx) →
      ctx.answer = .ok (success, ack) → ∀ i, packetCtx.instructionSet[packetCtx.cursor]? = some i →
        AckFits w.store t packet.sourceChannelId packetCtx.path success ack i)
    (h : acknowledgePacket env w t ctx = .ok (ctx', w')) : ∃ packet packetCtx packetCtx' tag innerAck,
      Acknowledged t ctx ctx' w w' packet packetCtx packetCtx' tag innerAck := by
  simp only [acknowledgePacket, bind_eq_ok, orErr_eq_ok, pure_eq_ok] at h
  obtain ⟨packet, hpacket, ack, hack, ⟨tag, innerAck⟩, hdecode, packetCtx, hctx, batchAcks, hbatch,
    ⟨packetCtx', w₁⟩, hloop, heq⟩ := h
  cases heq
  have hcurrent : ctx.current = some (packet, packetCtx) := by
    simp [AckCtx.current, hpacket, hctx]
  have hack' : ack = .ack tag innerAck := by
    cases ack with
    | ack _ _ =>
      cases hdecode
      rfl
    | other _ => cases hdecode
  -- what the loop does with the instruction at the cursor
  have hsettled : ∀ i w₁, packetCtx.instructionSet[packetCtx.cursor]? = some i →
      ackInstruction t packet tag innerAck batchAcks packetCtx w i = .ok w₁ →
      ∃ k, takingOf packet.sourceChannelId packetCtx.path i t = some k ∧
        Settled k (tag == TAG_ACK_SUCCESS) w w₁ ∧
        Frame w w₁ ∧ ((tag == TAG_ACK_SUCCESS) = false → Owns w.store k.order t) := by
    intro i w₁ hi hone
    simp only [ackInstruction, bind_eq_ok] at hone
    obtain ⟨inner, hinner, hone⟩ := hone
    have hans : ctx.answer = .ok (tag == TAG_ACK_SUCCESS, inner) := by
      have hack₁ : orErr ctx.acks[ctx.cursor]? Abort.vm = .ok ack := by rw [hack]; rfl
      have hctx₁ : orErr ctx.packetCtxs[ctx.cursor]? Abort.vm = .ok packetCtx := by rw [hctx]; rfl
      simp only [AckCtx.answer, hack₁, hctx₁, ok_bind, hdecode, hbatch, hinner]
      rfl
    exact acknowledgeInternal_settled hsolvent (hfits packet packetCtx _ inner hcurrent hans i hi) hone
  have hset := hallowed packetCtx (List.mem_of_getElem? hctx)
  have hkeep : ∀ i w₁, (packetCtx.instructionSet.drop packetCtx.cursor).head? = some i →
      ackInstruction t packet tag innerAck batchAcks packetCtx w i = .ok w₁ →
      w₁.store.inFlightPacket = fun _ => none := by
    intro i w₁ hi hone
    rw [head?_drop] at hi
    obtain ⟨k, -, -, hframe, -⟩ := hsettled i w₁ hi hone
    rw [hframe.inFlight, hflight]
  refine ⟨packet, packetCtx, packetCtx', tag, innerAck, hcurrent, by rw [hack, hack'], rfl, ?_⟩
  rcases completeInstructions_ok ackInstruction_handles (hset.drop _) hflight hkeep hloop with
    ⟨hnil, hsame, rfl⟩ | ⟨i, rest, hcons, hone, hnext⟩
  · exact .inl ⟨hnil, hsame, rfl⟩
  · have hi : packetCtx.instructionSet[packetCtx.cursor]? = some i := by
      rw [← head?_drop, hcons]
      rfl
    obtain ⟨k, hk, hsettle, hframe, howns⟩ := hsettled i _ hi hone
    exact .inr ⟨i, k, hi, hnext, hk, hsettle, hframe, howns⟩

theorem timeoutPacket_ok {ctx ctx' : TimeoutCtx} (hsolvent : Solvent w.store)
    (hflight : w.store.inFlightPacket = fun _ => none) (hallowed : AllowedSet ctx.packetCtx.instructionSet)
    (hfits : ∀ i, ctx.packetCtx.instructionSet[ctx.packetCtx.cursor]? = some i →
      TimeoutFits w.store t ctx.packet.sourceChannelId ctx.packetCtx.path i)
    (h : timeoutPacket env w t ctx = .ok (ctx', w')) :
    ∃ i k, ctx.packetCtx.instructionSet[ctx.packetCtx.cursor]? = some i ∧
      ctx' = { ctx with packetCtx := { ctx.packetCtx with cursor := ctx.packetCtx.cursor + 1 } } ∧
      timeoutTakingOf ctx.packet.sourceChannelId ctx.packetCtx.path i t = some k ∧
      takingOf ctx.packet.sourceChannelId ctx.packetCtx.path i t = some k ∧ GivenBack k w w' ∧ Frame w w' ∧
      Owns w.store k.order t := by
  simp only [timeoutPacket, bind_eq_ok, assert_eq_ok, pure_eq_ok] at h
  obtain ⟨-, hlt, ⟨packetCtx', w₁⟩, hloop, heq⟩ := h
  cases heq
  have hkeep : ∀ i w₁, (ctx.packetCtx.instructionSet.drop ctx.packetCtx.cursor).head? = some i →
      timeoutInternal w t ctx.packet ctx.packetCtx.path i = .ok w₁ →
        w₁.store.inFlightPacket = fun _ => none := by
    intro i w₁ hi hone
    rw [head?_drop] at hi
    obtain ⟨k, -, -, -, hframe, -⟩ := timeoutInternal_givenBack hsolvent (hfits i hi) hone
    rw [hframe.inFlight, hflight]
  rcases completeInstructions_ok timeoutInternal_handles (hallowed.drop _) hflight hkeep hloop with
    ⟨hnil, -, -⟩ | ⟨i, rest, hcons, hone, rfl⟩
  · rw [List.drop_eq_nil_iff] at hnil
    omega
  · have hi : ctx.packetCtx.instructionSet[ctx.packetCtx.cursor]? = some i := by
      rw [← head?_drop, hcons]
      rfl
    obtain ⟨k, hk, hk', hgiven, hframe, howns⟩ := timeoutInternal_givenBack hsolvent (hfits i hi) hone
    exact ⟨i, k, hi, rfl, hk, hk', hgiven, hframe, howns⟩

end UnionVoyager.Sui
