import UnionVoyager.Sui.Solvency

/-!
# Solvency over whole runs

* `step_sound` — a call that fits moves only the coin of its order and keeps `Inv`.
-/

namespace UnionVoyager.Sui

open Lib
open Zkgm (U256 AckData Acknowledgement OP_TOKEN_ORDER INSTR_VERSION_2 TOKEN_ORDER_KIND_ESCROW
  TAG_ACK_SUCCESS)

variable {env : Env}

/-! ## What a call moves -/

/-- What a call does to the balances, the coins and the supplies: only the four calls that handle an
    order do anything to them, each for the order it handles and with the coin of that order. -/
def Effect (s s' : State) : Call → Prop
  | .sendWithCoin i t value instruction => ∃ ctx takings k, s.opened[i]? = some (.send ctx takings) ∧
    takingOf ctx.channelId 0 instruction t = some k ∧ value = k.order.baseAmount ∧ Taken k s.world s'.world
  | .recvPacket i t _ _ _ => Still s.world.store s'.world.store ∨ ∃ ctx packet packetCtx instruction,
    s.opened[i]? = some (.recv ctx) ∧ ctx.current = some (packet, packetCtx) ∧
    packetCtx.instructionSet[packetCtx.cursor]? = some instruction ∧
    Unescrowed packet packetCtx.path instruction t s.world.store s'.world.store
  | .acknowledgePacket i t => ∃ ctx takings packet packetCtx tag innerAck,
    s.opened[i]? = some (.ack ctx takings) ∧
    ctx.current = some (packet, packetCtx) ∧ ctx.acks[ctx.cursor]? = some (.ack tag innerAck) ∧
    match packetCtx.instructionSet[packetCtx.cursor]? with
    | none => s'.world = s.world
    | some instruction => ∃ k, takingOf packet.sourceChannelId packetCtx.path instruction t = some k ∧
      Settled k (tag == TAG_ACK_SUCCESS) s.world s'.world
  | .timeoutPacket i t => ∃ ctx takings instruction k, s.opened[i]? = some (.timeout ctx takings) ∧
    ctx.packetCtx.instructionSet[ctx.packetCtx.cursor]? = some instruction ∧
    takingOf ctx.packet.sourceChannelId ctx.packetCtx.path instruction t = some k ∧
      GivenBack k s.world s'.world
  | _ => Still s.world.store s'.world.store

theorem Acknowledged.effect {t : CoinType} {ctx ctx' : AckCtx} {w w' : World} {p : Packet}
    {packetCtx packetCtx' : ZkgmPacketAckCtx} {tag : U256} {innerAck : AckData}
    (h : Acknowledged t ctx ctx' w w' p packetCtx packetCtx' tag innerAck) :
    match packetCtx.instructionSet[packetCtx.cursor]? with
    | none => w' = w
    | some instruction => ∃ k, takingOf p.sourceChannelId packetCtx.path instruction t = some k ∧
      Settled k (tag == TAG_ACK_SUCCESS) w w' := by
  rcases h.handled with ⟨hnil, -, hsame⟩ | ⟨i, k, hi, -, hk, hsettled, -, -⟩
  · rw [← head?_drop, hnil]
    exact hsame
  · rw [hi]
    exact ⟨k, hk, hsettled⟩

/-- **A call that fits moves only the coin of its order**, and keeps the invariant if it is faithful. -/
theorem step_sound {s s' : State} {c : Call} (h : Inv env s) (hfits : Fits env s c)
    (hstep : step env s c = .ok s') : Effect s s' c ∧ (Faithful env s c → Inv env s') := by
  cases c with
  | beginSend channelId salt =>
    cases hstep
    exact ⟨Still.refl _, fun _ => h.open ⟨.nil, by simp [beginSend]⟩⟩
  | outside vault escrow channels fromOne ownedVaultCap escrowVaultCap =>
    refine ⟨?_, fun _ => inv_outside h hstep⟩
    cases hstep
    exact Still.refl _
  | sendWithCoin i t value instruction =>
    simp only [step] at hstep
    split at hstep
    · rename_i ctx takings hctx
      simp only [bind_eq_ok, pure_eq_ok] at hstep
      obtain ⟨⟨ctx', w⟩, hsend, rfl⟩ := hstep
      refine ⟨?_, fun _ => inv_sendWithCoin h hctx hfits hsend⟩
      simp only [bind_eq_ok, pure_eq_ok, sendWithCoin] at hsend
      obtain ⟨w₁, hver, heq⟩ := hsend
      cases heq
      obtain ⟨k, hk, hvalue, -, htaken, -⟩ := verifyInternal_taken hfits hver
      exact ⟨ctx, takings, k, hctx, hk, hvalue, htaken⟩
    · cases hstep
  | endSend i clock timeoutHeight timeoutTimestamp =>
    simp only [step] at hstep
    split at hstep
    · rename_i ctx takings hctx
      simp only [bind_eq_ok, pure_eq_ok] at hstep
      obtain ⟨⟨packet, w⟩, hend, rfl⟩ := hstep
      refine ⟨?_, fun _ => inv_endSend h hctx (hfits ctx takings hctx) hend⟩
      simp only [bind_eq_ok, pure_eq_ok, endSend] at hend
      obtain ⟨_, -, ⟨_, _⟩, -, heq⟩ := hend
      cases heq
      exact Still.refl _
    · cases hstep
  | beginRecv packets =>
    simp only [step, bind_eq_ok, pure_eq_ok] at hstep
    obtain ⟨ctx, -, rfl⟩ := hstep
    exact ⟨Still.refl _, fun _ => h.open trivial⟩
  | recvPacket i t clock relayer relayerMsg =>
    simp only [step] at hstep
    split at hstep
    · rename_i ctx hctx
      simp only [bind_eq_ok, pure_eq_ok] at hstep
      obtain ⟨⟨ctx', w⟩, hrecv, rfl⟩ := hstep
      have hfit := fun packet packetCtx => hfits ctx packet packetCtx hctx
      refine ⟨(recvPacket_moved h.solvent hfit hrecv).2.imp_right ?_, fun _ => inv_recvPacket h hfit hrecv⟩
      rintro ⟨packet, packetCtx, instruction, hcurrent, hi, hmoved⟩
      exact ⟨ctx, packet, packetCtx, instruction, hctx, hcurrent, hi, hmoved⟩
    · cases hstep
  | endRecv i clock relayerMsg verified =>
    simp only [step] at hstep
    split at hstep
    · simp only [bind_eq_ok, pure_eq_ok] at hstep
      obtain ⟨w, hend, rfl⟩ := hstep
      refine ⟨?_, fun _ => inv_endRecv h hend⟩
      simp only [bind_eq_ok, pure_eq_ok, endRecv] at hend
      obtain ⟨-, -, _, -, -, -, _, -, ibc', -, rfl⟩ := hend
      exact Still.refl _
    · cases hstep
  | beginAck packets acks =>
    simp only [step, bind_eq_ok, pure_eq_ok] at hstep
    obtain ⟨ctx, hbegin, rfl⟩ := hstep
    exact ⟨Still.refl _, fun _ => inv_beginAck h hbegin⟩
  | acknowledgePacket i t =>
    simp only [step] at hstep
    split at hstep
    · rename_i ctx takings hctx
      simp only [bind_eq_ok, pure_eq_ok] at hstep
      obtain ⟨⟨ctx', w⟩, hack, rfl⟩ := hstep
      have hfit := fun packet packetCtx success ack => hfits ctx takings packet packetCtx success ack hctx
      have hok : AckOk env s.world.store ctx takings := h.opened _ (List.mem_of_getElem? hctx)
      obtain ⟨packet, packetCtx, _, tag, innerAck, hacked⟩ :=
        acknowledgePacket_ok h.solvent h.flight hok.allowed hfit hack
      exact ⟨⟨ctx, takings, packet, packetCtx, tag, innerAck, hctx, hacked.current, hacked.ack,
        hacked.effect⟩, fun _ => inv_acknowledgePacket h hctx hfit hack⟩
    · cases hstep
  | endAck i verified =>
    simp only [step] at hstep
    split at hstep
    · rename_i ctx takings hctx
      simp only [bind_eq_ok, pure_eq_ok] at hstep
      obtain ⟨w, hend, rfl⟩ := hstep
      refine ⟨?_, fun hfaithful => inv_endAck h hctx (hfaithful ctx takings hctx) hend⟩
      simp only [bind_eq_ok, pure_eq_ok, endAck] at hend
      obtain ⟨-, -, _, -, -, -, ibc', -, rfl⟩ := hend
      exact Still.refl _
    · cases hstep
  | beginTimeout packet =>
    simp only [step, bind_eq_ok, pure_eq_ok] at hstep
    obtain ⟨ctx, hbegin, rfl⟩ := hstep
    exact ⟨Still.refl _, fun _ => inv_beginTimeout h hbegin⟩
  | timeoutPacket i t =>
    simp only [step] at hstep
    split at hstep
    · rename_i ctx takings hctx
      simp only [bind_eq_ok, pure_eq_ok] at hstep
      obtain ⟨⟨ctx', w⟩, htimeout, rfl⟩ := hstep
      have hfit := hfits ctx takings hctx
      obtain ⟨hset, -⟩ := h.opened _ (List.mem_of_getElem? hctx)
      obtain ⟨instruction, k, hi, -, -, hk, hgiven, -, -⟩ :=
        timeoutPacket_ok h.solvent h.flight hset.allowed hfit htimeout
      exact ⟨⟨ctx, takings, instruction, k, hctx, hi, hk, hgiven⟩, fun _ =>
        inv_timeoutPacket h hctx hfit htimeout⟩
    · cases hstep
  | endTimeout i proofTimestamp verified =>
    simp only [step] at hstep
    split at hstep
    · rename_i ctx takings hctx
      simp only [bind_eq_ok, pure_eq_ok] at hstep
      obtain ⟨w, hend, rfl⟩ := hstep
      refine ⟨?_, fun hfaithful => inv_endTimeout h hctx (hfaithful ctx takings hctx) hend⟩
      simp only [bind_eq_ok, pure_eq_ok, endTimeout] at hend
      obtain ⟨-, -, ibc', -, rfl⟩ := hend
      exact Still.refl _
    · cases hstep

theorem inv_reachable {s : State} (h : Reachable env s) : Inv env s := by
  induction h with
  | init w hstore hsent => exact inv_init hstore hsent
  | call _ hfits hfaithful hstep ih => exact (step_sound ih hfits hstep).2 hfaithful

/-- **Solvency.**  In every run of calls that fit, the store holds of every coin type what its
    balances in it come to; every call moves only the coin of its order, with its balance; and what
    was given back for a packet that failed or timed out is what was taken for it, once. -/
theorem solvent_run {s : State} (h : Reachable env s) :
    Solvent s.world.store ∧ (∀ c s', Fits env s c → step env s c = .ok s' → Effect s s' c) ∧
      (∀ r ∈ s.refunded, r ∈ s.sent) ∧ (s.refunded.map fun r => env.packetKey r.1).Nodup := by
  have hinv := inv_reachable h
  refine ⟨hinv.solvent, ?_, ?_, hinv.once⟩
  · intro c s' hfits hstep
    exact (step_sound hinv hfits hstep).1
  · intro r hr
    exact (hinv.refunded r hr).1

/-! ## A packet that times out -/

/-- One channel, from 1 to 2, no vaults, and hashes of the encoded values that keep them apart by
    their channel. -/
def sampleEnv : Env where
  keccak256 b := b
  commitPacket p := leBytes 4 p.sourceChannelId.toNat
  batchPacketsCommitmentKey b := 1 :: b
  batchReceiptsCommitmentKey b := 2 :: b
  decodeTokenMetadata _ := none
  decodeSolverMetadata _ := none
  decodeSuiTokenMetadata _ := none
  misread _ _ _ := none

def sampleWorld : World where
  store := .empty
  vault := ⟨fun _ => none, fun _ _ => false, fun _ => none⟩
  escrow := ⟨fun _ => none, fun _ _ => false, fun _ => none⟩
  ibc := ⟨fun c => if c = 1 then some 2 else none, rfl, fun _ => none, fun _ => none⟩
  transfers := []

/-- An order that escrows 1000 of the coin type `[1]`. -/
def sampleOrder : TokenOrderV2 where
  sender := List.replicate 32 7
  receiver := List.replicate 32 8
  baseToken := [48, 120, 1]
  baseAmount := 1000
  quoteToken := [9]
  quoteAmount := 1000
  kind := TOKEN_ORDER_KIND_ESCROW
  metadata := List.replicate 32 0

theorem sampleOrder_token : sampleOrder.baseToken = typeNameToQuoteToken [1] := by
  simp [sampleOrder, typeNameToQuoteToken, uleb128]

def sampleInstruction : Instruction := .mk INSTR_VERSION_2 OP_TOKEN_ORDER (.tokenOrder sampleOrder)

def samplePacket : Packet := ⟨1, 2, .zkgm ⟨3 :: List.replicate 31 0, 0, sampleInstruction⟩, 0, 5⟩

/-- The packet of the order is sent and times out, and its sender gets the coin back. -/
theorem timed_out_run : ∃ s, Reachable sampleEnv s ∧
    s.refunded = [(samplePacket, [⟨1, 0, sampleOrder, [1]⟩])] ∧
    s.world.transfers = [⟨List.replicate 32 7, [1], 1000⟩] ∧ Solvent s.world.store ∧
      (∀ r ∈ s.refunded, r ∈ s.sent) := by
  have h₀ : Reachable sampleEnv ⟨sampleWorld, [], [], []⟩ := .init sampleWorld rfl fun _ => rfl
  have h₁ := Reachable.call (c := .beginSend 1 [3]) h₀ trivial trivial rfl
  have h₂ := Reachable.call (c := .sendWithCoin 0 [1] 1000 sampleInstruction) h₁ (by
    intro order horder
    cases horder
    exact ⟨rfl, sampleOrder_token⟩) trivial rfl
  have h₃ := Reachable.call (c := .endSend 0 0 0 5) h₂ (by
    intro ctx takings hctx
    cases hctx
    decide) trivial rfl
  have h₄ := Reachable.call (c := .beginTimeout samplePacket) h₃ trivial trivial rfl
  have h₅ := Reachable.call (c := .timeoutPacket 0 [1]) h₄ (by
    intro ctx takings hctx instruction hi order horder
    cases hctx
    cases hi
    cases horder
    exact ⟨sampleOrder_token, rfl, fun _ => ⟨1000, rfl, Nat.le_refl 1000⟩⟩) trivial rfl
  have h₆ := Reachable.call (c := .endTimeout 0 10 true) h₅ trivial (by
    intro ctx takings hctx r hr _
    cases hctx
    cases hr with
    | head => rfl
    | tail _ hr => cases hr) rfl
  obtain ⟨hsolvent, -, hrefunded, -⟩ := solvent_run h₆
  exact ⟨_, h₆, rfl, rfl, hsolvent, hrefunded⟩

/-- Anyone gets a balance of 1000 for a coin of value 1. -/
theorem coin_not_counted : ∃ s₁ s₂ s₃, step sampleEnv ⟨sampleWorld, [], [], []⟩ (.beginSend 1 [3]) = .ok s₁ ∧
    step sampleEnv s₁ (.sendWithCoin 0 [1] 1 sampleInstruction) = .ok s₂ ∧
    step sampleEnv s₂ (.endSend 0 0 0 5) = .ok s₃ ∧ s₃.opened = [] ∧ ¬ Solvent s₃.world.store := by
  refine ⟨_, _, _, rfl, rfl, rfl, rfl, ?_⟩
  intro h
  have hle : 1000 ≤ 1 := h.le (k := ⟨1, 0, [48, 120, 1], [9]⟩) (t := [1]) sampleOrder_token
  exact absurd hle (by decide)

end UnionVoyager.Sui
