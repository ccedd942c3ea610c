import UnionVoyager.Sui.Session

/-!
# Solvency of zkgm on Sui

* `Inv` — solvency, with what the open contexts, the packets sent and the packets refunded have to
  do with each other.
* `inv_init`, `inv_sendWithCoin`, `inv_endSend`, … — it holds at first, and each call keeps it.
-/

namespace UnionVoyager.Sui

open Lib Function List
open Zkgm (U256 AckData Acknowledgement OP_FORWARD OP_CALL OP_BATCH OP_TOKEN_ORDER INSTR_VERSION_0
  INSTR_VERSION_2 TOKEN_ORDER_KIND_ESCROW TOKEN_ORDER_KIND_UNESCROW TAG_ACK_SUCCESS)

variable {env : Env}

/-! ## What was taken for a packet -/

/-- The taking of an instruction, in the coin type of its order. -/
def Matches (s : RelayStore) (channel : UInt32) (path : U256) (i : Instruction) (k : Taking) : Prop :=
  takingOf channel path i k.coinType = some k ∧ Owns s k.order k.coinType

variable {t : CoinType}

variable {s : RelayStore}

theorem Owns.unique {order : TokenOrderV2} {u : CoinType} (ht : Owns s order t)
    (hu : Owns s order u) : t = u := by
  unfold Owns at ht hu
  split at ht
  · rename_i hkind
    rw [if_pos hkind, ht] at hu
    exact Option.some.inj hu
  · rename_i hkind
    rw [if_neg hkind, ht] at hu
    exact typeNameToQuoteToken_injective hu

variable {channel : UInt32} {path tag : U256} {i : Instruction} {k : Taking}

theorem takingOf_order (h : takingOf channel path i t = some k) : i.order = some k.order ∧
      k.coinType = t := by
  simp only [takingOf, Option.map_eq_some_iff] at h
  obtain ⟨order, horder, rfl⟩ := h
  exact ⟨horder, rfl⟩

theorem matches_unique : Relator.RightUnique (Matches s channel path) := by
  rintro i k k' ⟨htaking, howns⟩ ⟨htaking', howns'⟩
  have horder : k.order = k'.order := by
    have h := (takingOf_order htaking).1
    rw [(takingOf_order htaking').1] at h
    exact (Option.some.inj h).symm
  rw [← horder] at howns'
  rw [howns.unique howns', htaking'] at htaking
  exact (Option.some.inj htaking).symm

variable {s' : RelayStore}

theorem Owns.mono (hclaims : ∀ d t, s.wrappedDenomToT d = some t → s'.wrappedDenomToT d = some t)
    {order : TokenOrderV2} (h : Owns s order t) : Owns s' order t := by
  unfold Owns at h ⊢
  split
  · rename_i hkind
    rw [if_pos hkind] at h
    exact hclaims _ _ h
  · rename_i hkind
    rw [if_neg hkind] at h
    exact h

abbrev MatchesAll (s : RelayStore) (channel : UInt32) (path : U256) : List Instruction → List Taking → Prop :=
  List.Forall₂ (Matches s channel path)

variable {is set : List Instruction} {ks takings : List Taking}

theorem MatchesAll.mono (hclaims : ∀ d t, s.wrappedDenomToT d = some t → s'.wrappedDenomToT d = some t)
    (h : MatchesAll s channel path is ks) : MatchesAll s' channel path is ks :=
  List.Forall₂.imp (fun _ _ hm => ⟨hm.1, hm.2.mono hclaims⟩) h

theorem MatchesAll.concat (h : MatchesAll s channel path is ks) (hm : Matches s channel path i k) :
    MatchesAll s channel path (is ++ [i]) (ks ++ [k]) := rel_append h (.cons hm .nil)

/-- The instructions and the path of a packet that can be acknowledged or timed out. -/
def PacketSet (env : Env) (p : Packet) (path : U256) (set : List Instruction) : Prop :=
  ∃ zkgmPacket isBatch, ZkgmPacket.decode env p.data = .ok zkgmPacket ∧
    extractBatch zkgmPacket.instruction = .ok (set, isBatch, 0) ∧ path = zkgmPacket.path

variable {p : Packet}

theorem PacketSet.unique {path' : U256} {set' : List Instruction} (h : PacketSet env p path set)
    (h' : PacketSet env p path' set') : path = path' ∧ set = set' := by
  obtain ⟨z, b, hdecode, hextract, rfl⟩ := h
  obtain ⟨z', b', hdecode', hextract', rfl⟩ := h'
  rw [hdecode] at hdecode'
  cases hdecode'
  rw [hextract] at hextract'
  cases hextract'
  exact ⟨rfl, rfl⟩

theorem PacketSet.allowed (h : PacketSet env p path set) : AllowedSet set := by
  obtain ⟨_, _, -, hextract, -⟩ := h
  exact extractBatch_allowed hextract

theorem beginAckPacket_ok {ctx : ZkgmPacketAckCtx} (h : beginAckPacket env p = .ok ctx) :
    PacketSet env p ctx.path ctx.instructionSet ∧ ctx.cursor = 0 := by
  simp only [beginAckPacket, bind_eq_ok, assert_eq_ok, pure_eq_ok] at h
  obtain ⟨z, hdecode, ⟨set, b, err⟩, hextract, -, herr, rfl⟩ := h
  dsimp only at herr
  subst herr
  exact ⟨⟨z, b, hdecode, hextract, rfl⟩, rfl⟩

/-- A context of acknowledgements: its packets, and what was given back for those that failed. -/
structure AckOk (env : Env) (s : RelayStore) (ctx : AckCtx) (takings : Nat → List Taking) : Prop where
  length : ctx.packets.length = ctx.packetCtxs.length
  sets : ∀ (j : Nat) (p : Packet) (packetCtx : ZkgmPacketAckCtx), ctx.packets[j]? = some p →
    ctx.packetCtxs[j]? = some packetCtx → PacketSet env p packetCtx.path packetCtx.instructionSet
  given : ∀ (j : Nat) (p : Packet) (packetCtx : ZkgmPacketAckCtx) (tag : U256) (innerAck : AckData),
    ctx.packets[j]? = some p → ctx.packetCtxs[j]? = some packetCtx → ctx.acks[j]? = some (.ack tag innerAck) →
    tag ≠ TAG_ACK_SUCCESS → MatchesAll s p.sourceChannelId packetCtx.path
      (packetCtx.instructionSet.take packetCtx.cursor) (takings j)
  done : ∀ (j : Nat) (packetCtx : ZkgmPacketAckCtx), j < ctx.cursor → ctx.packetCtxs[j]? = some packetCtx →
    packetCtx.cursor = packetCtx.instructionSet.length

/-- A context, with what was taken or given back under it. -/
def OpenOk (env : Env) (s : RelayStore) : Open → Prop
  | .send ctx takings => MatchesAll s ctx.channelId 0 ctx.instructions takings ∧
    ∀ i ∈ ctx.instructions, i.opcode = OP_TOKEN_ORDER ∨ i.opcode = OP_FORWARD
  | .recv _ => True
  | .ack ctx takings => AckOk env s ctx takings
  | .timeout ctx takings => PacketSet env ctx.packet ctx.packetCtx.path ctx.packetCtx.instructionSet ∧
    MatchesAll s ctx.packet.sourceChannelId ctx.packetCtx.path
      (ctx.packetCtx.instructionSet.take ctx.packetCtx.cursor) takings

def SentOk (env : Env) (s : RelayStore) (r : Packet × List Taking) : Prop :=
  ∃ path set, PacketSet env r.1 path set ∧ MatchesAll s r.1.sourceChannelId path set r.2

structure Inv (env : Env) (s : State) : Prop where
  solvent : Solvent s.world.store
  flight : s.world.store.inFlightPacket = fun _ => none
  opened : ∀ o ∈ s.opened, OpenOk env s.world.store o
  sent : ∀ r ∈ s.sent, SentOk env s.world.store r
  committed : ∀ key, s.world.ibc.sent key ≠ none → ∃ r ∈ s.sent, env.packetKey r.1 = key
  refunded : ∀ r ∈ s.refunded, r ∈ s.sent ∧ s.world.ibc.sent (env.packetKey r.1) = some .magicAck
  once : (s.refunded.map fun r => env.packetKey r.1).Nodup

theorem OpenOk.mono (hclaims : ∀ d t, s.wrappedDenomToT d = some t → s'.wrappedDenomToT d = some t)
    {o : Open} (h : OpenOk env s o) : OpenOk env s' o := by
  cases o with
  | send ctx takings => exact ⟨h.1.mono hclaims, h.2⟩
  | recv ctx => trivial
  | ack ctx takings =>
    refine ⟨h.length, h.sets, ?_, h.done⟩
    intro j p packetCtx tag innerAck hp hctx hack htag
    exact (h.given j p packetCtx tag innerAck hp hctx hack htag).mono hclaims
  | timeout ctx takings => exact ⟨h.1, h.2.mono hclaims⟩

theorem SentOk.mono (hclaims : ∀ d t, s.wrappedDenomToT d = some t → s'.wrappedDenomToT d = some t)
    {r : Packet × List Taking} (h : SentOk env s r) : SentOk env s' r := by
  obtain ⟨path, set, hset, hmatches⟩ := h
  exact ⟨path, set, hset, hmatches.mono hclaims⟩

variable {s : State} {w' w : World} {opened' : List Open}

theorem Inv.handle (h : Inv env s) (hframe : Frame s.world w') (hsolvent : Solvent w'.store)
    (hopened : ∀ o ∈ opened', o ∈ s.opened ∨ OpenOk env w'.store o) :
    Inv env { s with world := w', opened := opened' } where
  solvent := hsolvent
  flight := hframe.inFlight.trans h.flight
  opened := by
    intro o ho
    rcases hopened o ho with ho | ho
    · exact (h.opened o ho).mono hframe.claims
    · exact ho
  sent := fun r hr => (h.sent r hr).mono hframe.claims
  committed := by
    intro key hkey
    refine h.committed key ?_
    rwa [show s.world.ibc = w'.ibc from hframe.ibc.symm]
  refunded := by
    intro r hr
    rw [show w'.ibc = s.world.ibc from hframe.ibc]
    exact h.refunded r hr
  once := h.once

theorem Inv.open (h : Inv env s) {o : Open} (ho : OpenOk env s.world.store o) :
    Inv env { s with opened := s.opened ++ [o] } := by
  refine h.handle (Frame.refl _) h.solvent ?_
  intro o' ho'
  rcases List.mem_append.mp ho' with ho' | ho'
  · exact .inl ho'
  · rw [List.mem_singleton.mp ho']
    exact .inr ho

/-! ## Sending -/

theorem Taken.solvent (h : Taken k w w') (hs : Solvent w.store) : Solvent w'.store := by
  unfold Taken at h
  split at h
  · rw [h.2.1]
    exact hs
  · exact hs.moved h

theorem verifyInternal_opcode {value : Nat} (h : verifyInternal env w t value channel path i = .ok w') :
    i.opcode = OP_TOKEN_ORDER ∨ i.opcode = OP_FORWARD := by
  obtain ⟨version, opcode, operand⟩ := i
  unfold verifyInternal at h
  by_contra hop
  simp only [Instruction.opcode, not_or] at hop
  rw [if_neg hop.1, if_neg hop.2] at h
  split at h <;> cases h

variable {j clock : Nat}

theorem inv_sendWithCoin (h : Inv env s) {ctx ctx' : SendCtx} {value : Nat}
    (hctx : s.opened[j]? = some (.send ctx takings)) (hfits : SendFits s.world.store t value i)
    (hsend : sendWithCoin env s.world t value i ctx = .ok (ctx', w')) : Inv env { s with
      world := w'
      opened := s.opened.set j (.send ctx' (takings ++ (takingOf ctx.channelId 0 i t).toList)) } := by
  simp only [sendWithCoin, bind_eq_ok, pure_eq_ok] at hsend
  obtain ⟨w₁, hver, heq⟩ := hsend
  cases heq
  obtain ⟨k, hk, -, howns, htaken, hframe⟩ := verifyInternal_taken hfits hver
  obtain ⟨hmatches, hops⟩ := h.opened _ (mem_of_getElem? hctx)
  have hkt := (takingOf_order hk).2
  have hm : Matches w'.store ctx.channelId 0 i k := by
    refine ⟨by rw [hkt]; exact hk, ?_⟩
    rw [hkt]
    exact howns.mono hframe.claims
  refine h.handle hframe (htaken.solvent h.solvent) ?_
  intro o ho
  rcases mem_or_eq_of_mem_set ho with ho | rfl
  · exact .inl ho
  · right
    rw [hk]
    refine ⟨(hmatches.mono hframe.claims).concat hm, ?_⟩
    intro i' hi'
    rcases List.mem_append.mp hi' with hi' | hi'
    · exact hops i' hi'
    · rw [List.mem_singleton.mp hi']
      exact verifyInternal_opcode hver

theorem joinInstructions_set (hops : ∀ i ∈ is, i.opcode = OP_TOKEN_ORDER ∨ i.opcode = OP_FORWARD)
    (h : joinInstructions is = .ok i) : ∃ isBatch, extractBatch i = .ok (is, isBatch, 0) := by
  match is, h with
  | [i'], h =>
    cases h
    obtain ⟨version, opcode, operand⟩ := i
    have hop : opcode ≠ OP_BATCH := by
      rcases hops _ mem_cons_self with hop | hop <;>
        (simp only [Instruction.opcode] at hop; rw [hop]; decide)
    refine ⟨false, ?_⟩
    unfold extractBatch
    simp only [if_neg hop]
  | i₁ :: i₂ :: rest, h =>
    simp only [joinInstructions, bind_eq_ok, assert_eq_ok, pure_eq_ok] at h
    obtain ⟨-, hall, rfl⟩ := h
    refine ⟨true, ?_⟩
    simp only [extractBatch, if_pos hall]
    rfl

theorem sendPacket_ok {ibc ibc' : IBCStore} {timeoutHeight timeoutTimestamp : Nat} {data : Data}
    (h : ibc.sendPacket env clock channel timeoutHeight timeoutTimestamp data = .ok (p, ibc')) :
    p.sourceChannelId = channel ∧ p.data = data ∧ ibc.sent (env.packetKey p) = none ∧
      ibc' = { ibc with sent := update ibc.sent (env.packetKey p) (some .magic) } := by
  simp only [IBCStore.sendPacket, bind_eq_ok, assert_eq_ok, pure_eq_ok] at h
  obtain ⟨counterparty, -, -, -, now, -, -, -, -, hnone, heq⟩ := h
  cases heq
  exact ⟨rfl, rfl, hnone, rfl⟩

theorem inv_endSend (h : Inv env s) {timeoutHeight timeoutTimestamp : Nat} {ctx : SendCtx} {p' : Packet}
    (hctx : s.opened[j]? = some (.send ctx takings)) (hsalt : 0 < ctx.salt.length ∧ ctx.salt.length ≤ 32)
    (hsend : endSend env s.world clock timeoutHeight timeoutTimestamp ctx = .ok (p', w')) :
    Inv env { s with world := w', opened := s.opened.eraseIdx j, sent := s.sent ++ [(p', takings)] } := by
  simp only [endSend, bind_eq_ok, pure_eq_ok] at hsend
  obtain ⟨i, hjoin, ⟨p, ibc'⟩, hibc, heq⟩ := hsend
  obtain ⟨rfl, rfl⟩ := Prod.mk.inj heq
  obtain ⟨hchan, hdata, hnone, rfl⟩ := sendPacket_ok hibc
  obtain ⟨hmatches, hops⟩ := h.opened _ (mem_of_getElem? hctx)
  obtain ⟨isBatch, hextract⟩ := joinInstructions_set hops hjoin
  refine ⟨h.solvent, h.flight, ?_, ?_, ?_, ?_, h.once⟩
  · intro o ho
    exact h.opened o (mem_of_mem_eraseIdx ho)
  · intro r hr
    rcases List.mem_append.mp hr with hr | hr
    · exact h.sent r hr
    · rw [List.mem_singleton.mp hr]
      refine ⟨0, ctx.instructions, ⟨⟨ctx.salt ++ replicate (32 - ctx.salt.length) 0, 0, i⟩, isBatch,
        ?_, hextract, rfl⟩, by rw [hchan]; exact hmatches⟩
      rw [hdata, ZkgmPacket.encode, if_pos hsalt]
      rfl
  · intro key hkey
    by_cases hp : key = env.packetKey p
    · exact ⟨(p, takings), by simp, hp.symm⟩
    · dsimp only at hkey
      rw [update_of_ne hp] at hkey
      obtain ⟨r, hr, hrkey⟩ := h.committed key hkey
      exact ⟨r, mem_append_left _ hr, hrkey⟩
  · intro r hr
    obtain ⟨hsent, hacked⟩ := h.refunded r hr
    refine ⟨mem_append_left _ hsent, ?_⟩
    have hne : env.packetKey r.1 ≠ env.packetKey p := by
      intro heq
      rw [heq, hnone] at hacked
      cases hacked
    dsimp only
    rw [update_of_ne hne]
    exact hacked

/-! ## Receiving -/

theorem Unescrowed.solvent {packet : Packet} {s : RelayStore} (h : Unescrowed packet path i t s s')
    (hs : Solvent s) : Solvent s' := by
  rcases h with hstill | ⟨order, reversed, -, -, -, hmoved⟩
  · exact hs.still hstill
  · exact hs.moved hmoved

theorem inv_recvPacket (h : Inv env s) {ctx ctx' : RecvCtx} {relayer : Address} {relayerMsg : Bytes}
    (hfits : ∀ packet packetCtx, ctx.current = some (packet, packetCtx) → packetCtx.failure = false →
      ∀ i, packetCtx.instructionSet[packetCtx.cursor]? = some i →
        ExecuteFits env s.world t packet packetCtx.path i)
    (hrecv : recvPacket env s.world t clock relayer relayerMsg ctx = .ok (ctx', w')) :
    Inv env { s with world := w', opened := s.opened.set j (.recv ctx') } := by
  obtain ⟨hframe, hmoved⟩ := recvPacket_moved h.solvent hfits hrecv
  have hsolvent : Solvent w'.store := by
    rcases hmoved with hstill | ⟨packet, packetCtx, i, -, -, hmoved⟩
    · exact h.solvent.still hstill
    · exact hmoved.solvent h.solvent
  refine h.handle hframe hsolvent ?_
  intro o ho
  rcases mem_or_eq_of_mem_set ho with ho | rfl
  · exact .inl ho
  · exact .inr trivial

variable {packets : List Packet} {verified : Bool}

theorem recvPacket_sent {ibc ibc' : IBCStore} {makerMsgs : List Bytes} {acks : List Acknowledgement}
    (h : ibc.recvPacket env clock packets makerMsgs acks verified = .ok ibc') : ibc'.sent = ibc.sent := by
  simp only [IBCStore.recvPacket, bind_eq_ok] at h
  obtain ⟨first, -, -, -, -, -, -, -, -, -, h⟩ := h
  have hreceive : ∀ (i : IBCStore) (x : Packet × Acknowledgement) (i' : IBCStore),
      i.receive env clock first.destinationChannelId x.1 x.2 = .ok i' → i'.sent = i.sent := by
    intro i x i' hone
    simp only [IBCStore.receive, bind_eq_ok] at hone
    obtain ⟨-, -, -, -, now, -, -, -, -, -, hone⟩ := hone
    split at hone
    · cases hone
      rfl
    · simp only [IBCStore.innerWriteAcknowledgement, bind_eq_ok, pure_eq_ok] at hone
      obtain ⟨_, -, -, -, rfl⟩ := hone
      rfl
  generalize packets.zip acks = xs at h
  induction xs generalizing ibc with
  | nil =>
    cases h
    rfl
  | cons x xs ih =>
    rw [foldlM_cons, bind_eq_ok] at h
    obtain ⟨ibc₁, hone, h⟩ := h
    rw [ih h, hreceive ibc x ibc₁ hone]

theorem Inv.ibc (h : Inv env s) {ibc' : IBCStore} (hsent : ibc'.sent = s.world.ibc.sent)
    (hopened : ∀ o ∈ opened', o ∈ s.opened) :
    Inv env { s with world := { s.world with ibc := ibc' }, opened := opened' } where
  solvent := h.solvent
  flight := h.flight
  opened := fun o ho => h.opened o (hopened o ho)
  sent := h.sent
  committed := by
    intro key hkey
    dsimp only at hkey
    rw [hsent] at hkey
    exact h.committed key hkey
  refunded := by
    intro r hr
    dsimp only
    rw [hsent]
    exact h.refunded r hr
  once := h.once

theorem inv_endRecv (h : Inv env s) {ctx : RecvCtx} {relayerMsg : Bytes}
    (hend : endRecv env s.world clock relayerMsg verified ctx = .ok w') :
    Inv env { s with world := w', opened := s.opened.eraseIdx j } := by
  simp only [endRecv, bind_eq_ok, pure_eq_ok] at hend
  obtain ⟨-, -, _, -, -, -, acks, -, ibc', hibc, rfl⟩ := hend
  exact h.ibc (recvPacket_sent hibc) fun o ho => mem_of_mem_eraseIdx ho

/-! ## Timeouts -/

theorem GivenBack.solvent (h : GivenBack k w w') (hs : Solvent w.store) : Solvent w'.store := by
  obtain ⟨sender, -, h⟩ := h
  split at h
  · rw [h.2.1]
    exact hs
  · exact hs.moved h.1

theorem passed_one {ctx : ZkgmPacketAckCtx} (hi : ctx.instructionSet[ctx.cursor]? = some i) :
    passed ctx { ctx with cursor := ctx.cursor + 1 } = [i] := by
  obtain ⟨rest, hrest⟩ : ∃ rest, ctx.instructionSet.drop ctx.cursor = i :: rest := by
    have hhead : (ctx.instructionSet.drop ctx.cursor).head? = some i := by rw [head?_drop, hi]
    cases hdrop : ctx.instructionSet.drop ctx.cursor with
    | nil =>
      rw [hdrop] at hhead
      cases hhead
    | cons i' rest =>
      rw [hdrop] at hhead
      cases hhead
      exact ⟨rest, rfl⟩
  rw [passed, hrest, Nat.add_sub_cancel_left]
  rfl

theorem take_succ_of_getElem? {α : Type} {l : List α} {n : Nat} {a : α} (h : l[n]? = some a) :
    l.take (n + 1) = l.take n ++ [a] := by
  rw [take_add_one, h]
  rfl

theorem inv_timeoutPacket (h : Inv env s) {ctx ctx' : TimeoutCtx}
    (hctx : s.opened[j]? = some (.timeout ctx takings))
    (hfits : ∀ i, ctx.packetCtx.instructionSet[ctx.packetCtx.cursor]? = some i →
      TimeoutFits s.world.store t ctx.packet.sourceChannelId ctx.packetCtx.path i)
    (htimeout : timeoutPacket env s.world t ctx = .ok (ctx', w')) : Inv env { s with
      world := w'
      opened := s.opened.set j
          (.timeout ctx' (takings ++ (passed ctx.packetCtx ctx'.packetCtx).filterMap fun i =>
        timeoutTakingOf ctx.packet.sourceChannelId ctx.packetCtx.path i t)) } := by
  obtain ⟨hset, hmatches⟩ := h.opened _ (mem_of_getElem? hctx)
  obtain ⟨i, k, hi, rfl, hk, hk', hgiven, hframe, howns⟩ :=
    timeoutPacket_ok h.solvent h.flight hset.allowed hfits htimeout
  refine h.handle hframe (hgiven.solvent h.solvent) ?_
  intro o ho
  rcases mem_or_eq_of_mem_set ho with ho | rfl
  · exact .inl ho
  · right
    have hkt := (takingOf_order hk').2
    have hpassed :
          (passed ctx.packetCtx { ctx.packetCtx with cursor := ctx.packetCtx.cursor + 1 }).filterMap (fun i =>
        timeoutTakingOf ctx.packet.sourceChannelId ctx.packetCtx.path i t) = [k] := by
      rw [passed_one hi]
      simp [hk]
    rw [hpassed]
    refine ⟨hset, ?_⟩
    dsimp only
    rw [take_succ_of_getElem? hi]
    refine (hmatches.mono hframe.claims).concat ⟨by rw [hkt]; exact hk', ?_⟩
    rw [hkt]
    exact howns.mono hframe.claims

/-! ## Completing packets -/

variable {key : Bytes}

theorem setPacketAcknowledged_ok {ibc ibc' : IBCStore} (h : ibc.setPacketAcknowledged key = .ok ibc') :
    ibc.sent key = some .magic ∧ ibc' = { ibc with sent := update ibc.sent key (some .magicAck) } := by
  simp only [IBCStore.setPacketAcknowledged, bind_eq_ok, orErr_eq_ok, assert_eq_ok, pure_eq_ok] at h
  obtain ⟨c, hc, -, rfl, rfl⟩ := h
  exact ⟨hc, rfl⟩

/-- The commitments of packets that are completed: each was sent and not completed before. -/
structure Completes (ibc ibc' : IBCStore) (keys : List Bytes) : Prop where
  magic : ∀ key ∈ keys, ibc.sent key = some .magic
  nodup : keys.Nodup
  acked : ∀ key, ibc'.sent key = if key ∈ keys then some .magicAck else ibc.sent key

theorem setPacketAcknowledged_completes {ibc ibc' : IBCStore}
    (h : ibc.setPacketAcknowledged key = .ok ibc') : Completes ibc ibc' [key] := by
  obtain ⟨hmagic, rfl⟩ := setPacketAcknowledged_ok h
  refine ⟨by simpa using hmagic, nodup_singleton key, ?_⟩
  intro key'
  dsimp only
  rw [update_apply]
  simp

theorem Completes.cons {ibc ibc₁ ibc' : IBCStore} {keys : List Bytes} (h : Completes ibc ibc₁ [key])
    (h' : Completes ibc₁ ibc' keys) : Completes ibc ibc' (key :: keys) := by
  have hkey : ibc₁.sent key = some .magicAck := by rw [h.acked, if_pos mem_cons_self]
  have hfresh : key ∉ keys := by
    intro hmem
    rw [h'.magic key hmem] at hkey
    cases hkey
  refine ⟨?_, List.nodup_cons.mpr ⟨hfresh, h'.nodup⟩, ?_⟩
  · intro k hk
    rcases List.mem_cons.mp hk with rfl | hmem
    · exact h.magic k mem_cons_self
    · have hne : k ∉ [key] := by
        rw [mem_singleton]
        rintro rfl
        exact hfresh hmem
      have hmagic := h'.magic k hmem
      rwa [h.acked, if_neg hne] at hmagic
  · intro k
    rw [h'.acked, h.acked]
    by_cases hk : k ∈ keys
    · simp [hk]
    · simp [hk]

theorem acknowledgePacket_completes {ibc ibc' : IBCStore}
    (h : ibc.acknowledgePacket env packets verified = .ok ibc') :
    Completes ibc ibc' (packets.map env.packetKey) := by
  simp only [IBCStore.acknowledgePacket, bind_eq_ok] at h
  obtain ⟨first, -, -, -, -, -, h⟩ := h
  induction packets generalizing ibc with
  | nil =>
    cases h
    exact ⟨by simp, nodup_nil, by simp⟩
  | cons p packets ih =>
    rw [foldlM_cons, bind_eq_ok] at h
    obtain ⟨ibc₁, hone, h⟩ := h
    simp only [bind_eq_ok] at hone
    obtain ⟨-, -, hone⟩ := hone
    exact (setPacketAcknowledged_completes hone).cons (ih h)

theorem Inv.complete (h : Inv env s) {ibc' : IBCStore} {keys : List Bytes}
    (hibc : Completes s.world.ibc ibc' keys)
    {rs : List (Packet × List Taking)} (hrs : ∀ r ∈ rs, r ∈ s.sent)
    (hkeys : (rs.map fun r => env.packetKey r.1).Sublist keys) (hopened : ∀ o ∈ opened', o ∈ s.opened) :
    Inv env { s with
      world := { s.world with ibc := ibc' }
      opened := opened'
      refunded := s.refunded ++ rs } where
  solvent := h.solvent
  flight := h.flight
  opened := fun o ho => h.opened o (hopened o ho)
  sent := h.sent
  committed := by
    intro key hkey
    refine h.committed key ?_
    dsimp only at hkey
    rw [hibc.acked] at hkey
    split at hkey
    · rename_i hmem
      rw [hibc.magic key hmem]
      simp
    · exact hkey
  refunded := by
    intro r hr
    dsimp only
    rw [hibc.acked]
    rcases List.mem_append.mp hr with hr | hr
    · obtain ⟨hsent, hacked⟩ := h.refunded r hr
      refine ⟨hsent, ?_⟩
      split
      · rfl
      · exact hacked
    · have hmem : env.packetKey r.1 ∈ keys := hkeys.subset (mem_map_of_mem hr)
      exact ⟨hrs r hr, if_pos hmem⟩
  once := by
    rw [map_append, nodup_append]
    refine ⟨h.once, hibc.nodup.sublist hkeys, ?_⟩
    rintro key hold _ hnew rfl
    obtain ⟨r, hr, rfl⟩ := List.mem_map.mp hold
    have hmagic := hibc.magic _ (hkeys.subset hnew)
    rw [(h.refunded r hr).2] at hmagic
    cases hmagic

theorem Inv.taken_of_given (h : Inv env s) (hset : PacketSet env p path set)
    (hmatches : MatchesAll s.world.store p.sourceChannelId path set takings)
    (hmagic : s.world.ibc.sent (env.packetKey p) = some .magic)
    (hfaithful : ∀ r ∈ s.sent, env.packetKey r.1 = env.packetKey p → r.1 = p) : (p, takings) ∈ s.sent := by
  obtain ⟨⟨p', takings'⟩, hr, hkey⟩ := h.committed (env.packetKey p) (by rw [hmagic]; simp)
  obtain rfl : p' = p := hfaithful _ hr hkey
  obtain ⟨path', set', hset', hmatches'⟩ := h.sent _ hr
  obtain ⟨rfl, rfl⟩ := hset.unique hset'
  have heq : takings = takings' := right_unique_forall₂' matches_unique hmatches hmatches'
  rw [heq]
  exact hr

theorem inv_endTimeout (h : Inv env s) {proofTimestamp : Nat} {ctx : TimeoutCtx}
    (hctx : s.opened[j]? = some (.timeout ctx takings))
    (hfaithful : ∀ r ∈ s.sent, env.packetKey r.1 = env.packetKey ctx.packet → r.1 = ctx.packet)
    (hend : endTimeout env s.world proofTimestamp verified ctx = .ok w') : Inv env { s with
      world := w'
      opened := s.opened.eraseIdx j
      refunded := s.refunded ++ [(ctx.packet, takings)] } := by
  simp only [endTimeout, bind_eq_ok, assert_eq_ok, pure_eq_ok] at hend
  obtain ⟨-, hdone, ibc', hibc, rfl⟩ := hend
  simp only [IBCStore.timeoutPacket, bind_eq_ok] at hibc
  obtain ⟨_, -, -, -, -, -, -, -, -, -, hibc⟩ := hibc
  obtain ⟨hset, hmatches⟩ := h.opened _ (mem_of_getElem? hctx)
  rw [hdone, take_length] at hmatches
  have hcompletes := setPacketAcknowledged_completes hibc
  have hsent := h.taken_of_given hset hmatches (hcompletes.magic _ mem_cons_self) hfaithful
  refine h.complete hcompletes ?_ (List.Sublist.refl _) fun o ho => mem_of_mem_eraseIdx ho
  intro r hr
  rw [List.mem_singleton.mp hr]
  exact hsent

/-! ## Acknowledgements -/

theorem Settled.solvent {success : Bool} (h : Settled k success w w') (hs : Solvent w.store) :
    Solvent w'.store := by
  unfold Settled at h
  split at h
  · rcases h with hstill | hmoved
    · exact hs.still hstill
    · exact hs.moved hmoved
  · exact h.solvent hs

theorem mapM_ok_getElem? {α β ε : Type} {f : α → Except ε β} : ∀ {as : List α}
    {bs : List β}, as.mapM f = .ok bs →
    as.length = bs.length ∧ ∀ (j : Nat) (a : α) (b : β), as[j]? = some a → bs[j]? = some b → f a = .ok b := by
  intro as
  induction as with
  | nil =>
    intro bs h
    cases h
    refine ⟨rfl, ?_⟩
    intro j a b ha
    cases ha
  | cons x xs ih =>
    intro bs h
    simp only [mapM_cons, bind_eq_ok, pure_eq_ok] at h
    obtain ⟨y, hy, ys, hys, rfl⟩ := h
    obtain ⟨hlen, hget⟩ := ih hys
    refine ⟨by simp [hlen], ?_⟩
    intro j a b ha hb
    cases j with
    | zero =>
      cases ha
      cases hb
      exact hy
    | succ j => exact hget j a b ha hb

variable {ctx ctx' : AckCtx}

theorem inv_beginAck (h : Inv env s) {acks : List Acknowledgement}
    (hbegin : beginAck env packets acks = .ok ctx) :
    Inv env { s with opened := s.opened ++ [.ack ctx fun _ => []] } := by
  simp only [beginAck, bind_eq_ok, pure_eq_ok] at hbegin
  obtain ⟨packetCtxs, hmap, -, -, _, -, rfl⟩ := hbegin
  obtain ⟨hlen, hget⟩ := mapM_ok_getElem? hmap
  refine h.open ⟨hlen, ?_, ?_, ?_⟩
  · intro j p packetCtx hp hctx
    exact (beginAckPacket_ok (hget j p packetCtx hp hctx)).1
  · intro j p packetCtx tag innerAck hp hctx _ _
    rw [(beginAckPacket_ok (hget j p packetCtx hp hctx)).2, take_zero]
    exact .nil
  · intro j packetCtx hj
    exact absurd hj (Nat.not_lt_zero j)

variable {packetCtx packetCtx' : ZkgmPacketAckCtx}

theorem AckCtx.current_eq_some : ctx.current = some (p, packetCtx) ↔ ctx.packets[ctx.cursor]? = some p ∧
      ctx.packetCtxs[ctx.cursor]? = some packetCtx := by
  simp [AckCtx.current, Option.bind_eq_some_iff]

theorem AckOk.allowed {s : RelayStore} {takings : Nat → List Taking} (h : AckOk env s ctx takings) :
    ∀ packetCtx ∈ ctx.packetCtxs, AllowedSet packetCtx.instructionSet := by
  intro packetCtx hmem
  obtain ⟨j, hj⟩ := getElem?_of_mem hmem
  have hlt : j < ctx.packets.length := by
    rw [h.length]
    exact (List.getElem?_eq_some_iff.mp hj).1
  exact (h.sets j _ packetCtx (getElem?_eq_getElem hlt) hj).allowed

variable {innerAck : AckData}

section

variable (h : Acknowledged t ctx ctx' w w' p packetCtx packetCtx' tag innerAck)

include h

theorem Acknowledged.given
    (htag : tag ≠ TAG_ACK_SUCCESS) (hks : MatchesAll w.store p.sourceChannelId packetCtx.path
      (packetCtx.instructionSet.take packetCtx.cursor) ks) :
    MatchesAll w'.store p.sourceChannelId packetCtx'.path (packetCtx'.instructionSet.take packetCtx'.cursor)
      (ks ++ (passed packetCtx packetCtx').filterMap fun i =>
        takingOf p.sourceChannelId packetCtx.path i t) := by
  have hfailed : (tag == TAG_ACK_SUCCESS) = false := by simpa using htag
  rcases h.handled with ⟨-, rfl, rfl⟩ | ⟨i, k, hi, rfl, hk, -, hframe, howns⟩
  · rw [passed, Nat.sub_self, take_zero, filterMap_nil, append_nil]
    exact hks
  · have hkt := (takingOf_order hk).2
    have hpassed : (passed packetCtx { packetCtx with cursor := packetCtx.cursor + 1 }).filterMap (fun i =>
        takingOf p.sourceChannelId packetCtx.path i t) = [k] := by
      rw [passed_one hi]
      simp [hk]
    rw [hpassed]
    dsimp only
    rw [take_succ_of_getElem? hi]
    refine (hks.mono hframe.claims).concat ⟨by rw [hkt]; exact hk, ?_⟩
    rw [hkt]
    exact (howns hfailed).mono hframe.claims

theorem Acknowledged.frame (hs : Solvent w.store) :
    Frame w w' ∧ Solvent w'.store ∧ packetCtx'.path = packetCtx.path ∧
      packetCtx'.instructionSet = packetCtx.instructionSet := by
  rcases h.handled with ⟨-, rfl, rfl⟩ | ⟨i, k, -, rfl, -, hsettled, hframe, -⟩
  · exact ⟨Frame.refl _, hs, rfl, rfl⟩
  · exact ⟨hframe, hsettled.solvent hs, rfl, rfl⟩

theorem Acknowledged.ackOk {s : RelayStore} {takings : Nat → List Taking} (hs : Solvent w.store)
    (hstore : w.store = s) (hok : AckOk env s ctx takings) :
    AckOk env w'.store ctx' (ackTakings ctx ctx' t takings) := by
  subst hstore
  obtain ⟨hframe, -, hpath, hset⟩ := h.frame hs
  obtain ⟨hp, hctx⟩ := AckCtx.current_eq_some.mp h.current
  have hlt : ctx.cursor < ctx.packetCtxs.length := (List.getElem?_eq_some_iff.mp hctx).1
  obtain rfl := h.ctx'
  have hself : (ctx.packetCtxs.set ctx.cursor packetCtx')[ctx.cursor]? = some packetCtx' := by
    rw [getElem?_set_self hlt]
  have htakings : ackTakings ctx { ctx with
      packetCtxs := ctx.packetCtxs.set ctx.cursor packetCtx'
      cursor := if packetCtx'.cursor = packetCtx'.instructionSet.length then ctx.cursor +
        1 else ctx.cursor } t takings =
      update takings ctx.cursor (takings ctx.cursor ++
        (passed packetCtx packetCtx').filterMap fun i => takingOf p.sourceChannelId packetCtx.path i t) := by
    simp only [ackTakings, hp, hctx, hself]
  rw [htakings]
  refine ⟨by simpa using hok.length, ?_, ?_, ?_⟩
  · intro j q qctx hq hqctx
    by_cases hj : ctx.cursor = j
    · subst hj
      rw [hself] at hqctx
      cases hqctx
      rw [hpath, hset]
      exact hok.sets _ q packetCtx hq hctx
    · rw [getElem?_set_ne hj] at hqctx
      exact hok.sets j q qctx hq hqctx
  · intro j q qctx tag' innerAck' hq hqctx hack htag'
    by_cases hj : ctx.cursor = j
    · subst hj
      rw [hself] at hqctx
      cases hqctx
      dsimp only at hq hack
      rw [hp] at hq
      cases hq
      rw [h.ack] at hack
      cases hack
      rw [update_self]
      exact h.given htag' (hok.given _ p packetCtx tag innerAck hp hctx h.ack htag')
    · rw [getElem?_set_ne hj] at hqctx
      rw [update_of_ne (Ne.symm hj)]
      exact (hok.given j q qctx tag' innerAck' hq hqctx hack htag').mono hframe.claims
  · intro j qctx hj hqctx
    dsimp only at hj hqctx
    by_cases hjc : ctx.cursor = j
    · subst hjc
      rw [hself] at hqctx
      cases hqctx
      split at hj
      · assumption
      · exact absurd hj (Nat.lt_irrefl _)
    · rw [getElem?_set_ne hjc] at hqctx
      refine hok.done j qctx ?_ hqctx
      split at hj <;> omega

end

theorem inv_acknowledgePacket (h : Inv env s) {takings : Nat → List Taking}
    (hctx : s.opened[j]? = some (.ack ctx takings))
    (hfits : ∀ packet packetCtx success ack, ctx.current = some (packet, packetCtx) →
      ctx.answer = .ok (success, ack) → ∀ i, packetCtx.instructionSet[packetCtx.cursor]? = some i →
        AckFits s.world.store t packet.sourceChannelId packetCtx.path success ack i)
    (hack : acknowledgePacket env s.world t ctx = .ok (ctx', w')) :
    Inv env { s with world := w', opened := s.opened.set j (.ack ctx' (ackTakings ctx ctx' t takings)) } := by
  have hok : AckOk env s.world.store ctx takings := h.opened _ (mem_of_getElem? hctx)
  obtain ⟨p, packetCtx, packetCtx', tag, innerAck, hacked⟩ :=
    acknowledgePacket_ok h.solvent h.flight hok.allowed hfits hack
  obtain ⟨hframe, hsolvent, -, -⟩ := hacked.frame h.solvent
  refine h.handle hframe hsolvent ?_
  intro o ho
  rcases mem_or_eq_of_mem_set ho with ho | rfl
  · exact .inl ho
  · exact .inr (hacked.ackOk h.solvent rfl hok)

theorem AckCtx.mem_refunds {takings : Nat → List Taking} {r : Packet × List Taking}
    (h : r ∈ ctx.refunds takings) : ∃ j tag innerAck, ctx.packets[j]? = some r.1 ∧
      ctx.acks[j]? = some (.ack tag innerAck) ∧ tag ≠ TAG_ACK_SUCCESS ∧ r.2 = takings j := by
  simp only [AckCtx.refunds, mem_filterMap, Prod.exists, mem_zipIdx_iff_getElem?] at h
  obtain ⟨p, j, hp, h⟩ := h
  split at h
  · rename_i tag innerAck hack
    split at h
    · cases h
    · rename_i htag
      cases h
      exact ⟨j, tag, innerAck, hp, hack, htag, rfl⟩
  · cases h

theorem AckCtx.refunds_sublist (ctx : AckCtx) (takings : Nat → List Taking) :
    ((ctx.refunds takings).map Prod.fst).Sublist ctx.packets := by
  have hsublist : ∀ (xs : List (Packet × Nat)) (f : Packet × Nat → Option (Packet × List Taking)),
      (∀ x r, f x = some r → r.1 = x.1) → ((xs.filterMap f).map Prod.fst).Sublist (xs.map Prod.fst) := by
    intro xs f hf
    induction xs with
    | nil => exact List.Sublist.refl _
    | cons x xs ih =>
      cases hx : f x with
      | none =>
        rw [filterMap_cons_none hx]
        exact ih.cons _
      | some r =>
        rw [filterMap_cons_some hx, map_cons, map_cons, hf x r hx]
        exact ih.cons_cons _
  have h := hsublist ctx.packets.zipIdx
  rw [zipIdx_map_fst] at h
  unfold AckCtx.refunds
  refine h _ ?_
  rintro ⟨p, j⟩ r hr
  dsimp only at hr
  split at hr
  · split at hr
    · cases hr
    · cases hr
      rfl
  · cases hr

theorem inv_endAck (h : Inv env s) {takings : Nat → List Taking}
    (hctx : s.opened[j]? = some (.ack ctx takings))
    (hfaithful : ∀ p ∈ ctx.packets, ∀ r ∈ s.sent, env.packetKey r.1 = env.packetKey p → r.1 = p)
    (hend : endAck env s.world verified ctx = .ok w') : Inv env { s with
      world := w'
      opened := s.opened.eraseIdx j
      refunded := s.refunded ++ ctx.refunds takings } := by
  simp only [endAck, bind_eq_ok, assert_eq_ok, pure_eq_ok] at hend
  obtain ⟨-, hcursor, _, -, -, -, ibc', hibc, rfl⟩ := hend
  have hok : AckOk env s.world.store ctx takings := h.opened _ (mem_of_getElem? hctx)
  have hcompletes := acknowledgePacket_completes hibc
  refine h.complete hcompletes ?_ ?_ fun o ho => mem_of_mem_eraseIdx ho
  · intro r hr
    obtain ⟨j, tag, innerAck, hp, hack, htag, hks⟩ := AckCtx.mem_refunds hr
    have hlt : j < ctx.packetCtxs.length := by
      rw [← hok.length]
      exact (List.getElem?_eq_some_iff.mp hp).1
    have hq := getElem?_eq_getElem hlt
    have hmatches := hok.given j r.1 _ tag innerAck hp hq hack htag
    rw [hok.done j _ (by omega) hq, take_length, ← hks] at hmatches
    have hmem : r.1 ∈ ctx.packets := mem_of_getElem? hp
    exact h.taken_of_given (hok.sets j r.1 _ hp hq) hmatches (hcompletes.magic _ (mem_map_of_mem hmem))
      (hfaithful r.1 hmem)
  · have hsub := (ctx.refunds_sublist takings).map env.packetKey
    rwa [map_map] at hsub

theorem inv_beginTimeout (h : Inv env s) {ctx : TimeoutCtx} (hbegin : beginTimeout env p = .ok ctx) :
    Inv env { s with opened := s.opened ++ [.timeout ctx []] } := by
  simp only [beginTimeout, bind_eq_ok, pure_eq_ok] at hbegin
  obtain ⟨packetCtx, hpacket, rfl⟩ := hbegin
  obtain ⟨hset, hcursor⟩ := beginAckPacket_ok hpacket
  refine h.open ⟨hset, ?_⟩
  dsimp only
  rw [hcursor, take_zero]
  exact .nil

theorem inv_outside {s' : State} (h : Inv env s) {vault : OwnedVault} {escrow : EscrowVault}
    {channels : UInt32 → Option UInt32} {fromOne : channels 0 = none} {ownedVaultCap escrowVaultCap : Bool}
    (hstep : step env s (.outside vault escrow channels fromOne ownedVaultCap escrowVaultCap) = .ok s') :
    Inv env s' := by
  cases hstep
  refine ⟨h.solvent.still (Still.refl _), h.flight, ?_, ?_, h.committed, h.refunded, h.once⟩
  · intro o ho
    refine (h.opened o ho).mono ?_
    exact fun _ _ hd => hd
  · intro r hr
    refine (h.sent r hr).mono ?_
    exact fun _ _ hd => hd

theorem inv_init (hstore : w.store = .empty) (hsent : ∀ key, w.ibc.sent key = none) :
    Inv env ⟨w, [], [], []⟩ where
  solvent := by
    dsimp only
    rw [hstore]
    exact Backed.empty
  flight := by
    dsimp only
    rw [hstore]
    rfl
  opened := by simp
  sent := by simp
  committed := fun key hkey => absurd (hsent key) hkey
  refunded := by simp
  once := nodup_nil

end UnionVoyager.Sui
