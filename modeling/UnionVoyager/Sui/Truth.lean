import UnionVoyager.Sui.Receive
import UnionVoyager.Sui.Run

/-!
# Acknowledgements that tell the truth

A failure says that nothing was done, a success that every instruction took effect, and a forward is
answered only once the packet forwarded for it is.
-/

namespace UnionVoyager.Sui

open Lib List
open Zkgm (U256 AckData Acknowledgement OP_FORWARD OP_BATCH OP_TOKEN_ORDER INSTR_VERSION_0 INSTR_VERSION_2
  TOKEN_ORDER_KIND_ESCROW TAG_ACK_SUCCESS)

/-! ## Forwards -/

/-- The call completes the packet `q`, with the acknowledgement for the parent. -/
def CompletedBy (q : Packet) (s : State) (ack : Acknowledgement) : Call → Prop
  | .endAck i _ => ∃ ctx takings, ∃ j : Nat, s.opened[i]? = some (.ack ctx takings) ∧
    ctx.packets[j]? = some q ∧ ctx.acks[j]? = some ack
  | .endTimeout i _ _ => ∃ ctx takings, s.opened[i]? = some (.timeout ctx takings) ∧
      ctx.packet = q ∧ ack = .failure
  | _ => False

/-- Some call of the run completes `q`. -/
def CompletedIn (env : Env) (q : Packet) (ack : Acknowledgement) : State → List Call → Prop
  | _, [] => False
  | s, call :: calls =>
    CompletedBy q s ack call ∨ ∃ s', step env s call = .ok s' ∧ CompletedIn env q ack s' calls

/-- After every later transaction the packet has the acknowledgement of `q`, and none before `q` has one. -/
def AnsweredLater (env : Env) (packet q : Packet) (s : State) : Prop :=
  ∀ calls s', runCalls env s calls = .ok s' → s'.opened = [] → ∀ ack,
    s'.world.ibc.received (env.receiptKey packet) = some (some ack) ↔ CompletedIn env q ack s calls

/-! ## The promise -/

/-- `acknowledge_packet` hands each instruction its acknowledgement. -/
def ReadBack (instructions : List Instruction) (inner : AckData) (acks : List AckData) : Prop :=
  ∀ ctx : ZkgmPacketAckCtx, ctx.instructionSet = instructions →
    ∃ batchAcks, batchAcksOf ctx inner = .ok batchAcks ∧
    ∀ k ack, acks[k]? = some ack → innerAckAt batchAcks TAG_ACK_SUCCESS inner k = .ok ack

/-- Every instruction took effect, and `inner` has one acknowledgement for each. -/
structure Accomplished (x : Execution) (inner : AckData) : Prop where
  all : x.turns.map Turn.instruction = x.instructions
  effect : ∀ turn ∈ x.turns, turn.instruction.TakesEffect turn.recv.relayer turn.ack turn.before turn.after
  batch : x.instruction.opcode = OP_BATCH → inner = .batchAck (x.turns.map Turn.ack)
  single : x.instruction.opcode ≠ OP_BATCH → x.turns.map Turn.ack = [inner]
  read : ReadBack x.instructions inner (x.turns.map Turn.ack)

/-- **What the acknowledgement of a packet promises**, `s` and `s'` being the states before and after the
    transaction that receives it. -/
structure Truthful (env : Env) (s s' : State) (packet : Packet) (x : Execution) : Prop where
  failure : s'.world.ibc.received (env.receiptKey packet) = some (some .failure) → Untouched s.world s'.world
  success : ∀ inner, s'.world.ibc.received (env.receiptKey packet) = some (some (.success inner)) →
    Accomplished x inner
  forward : x.instruction.opcode = OP_FORWARD → s'.world.ibc.received (env.receiptKey packet) = some none ∧
    ∃ q, s.world.ibc.sent (env.packetKey q) = none ∧ s'.world.ibc.sent (env.packetKey q) = some .magic ∧
      AnsweredLater env packet q s'

/-! ## When it is kept -/

def Turn.Refuses (env : Env) (packet : Packet) (path : U256) (turn : Turn) : Prop :=
  turn.instruction.Refuses env turn.before turn.recv.coinType packet path

def Turn.Fills (env : Env) (packet : Packet) (path : U256) (turn : Turn) : Prop :=
  turn.instruction.Fills env turn.before turn.recv.coinType packet path

/-- The packet is no forward, and it is a malformed batch, or an instruction of it is refused before
    anything was done for it, or all are filled and they are no batch of one. -/
def Answerable (env : Env) (w : World) (packet : Packet) (x : Execution) : Prop :=
  x.instruction.opcode ≠ OP_FORWARD ∧
  (x.err ≠ 0 ∨ (∃ turn ∈ x.turns, turn.Refuses env packet x.path ∧ Untouched w turn.before) ∨
    ((∀ turn ∈ x.turns, turn.Fills env packet x.path) ∧
      (x.instruction.opcode = OP_BATCH → x.instructions.length ≠ 1)))

section Turns

variable {env : Env} {packet : Packet}

theorem outcome_of_mem {path : U256} {salt : Bytes} : ∀ {is : List (Instruction × Recv)} {w : World}
    {ts : List Turn}, turns env packet path salt is w = .ok ts → ∀ turn ∈ ts, Onward w turn.before ∧
      Outcome (turn.Refuses env packet path) (turn.Fills env packet path)
        (turn.instruction.TakesEffect turn.recv.relayer turn.ack turn.before turn.after) turn.before
          turn.after turn.code ∧
      (turn.code ≠ 0 → worldAfter w ts = turn.after)
  | [], w, ts, h, turn, hturn => by
    cases h
    cases hturn
  | (i, r) :: is, w, ts, h, turn, hturn => by
    rw [turns, bind_eq_ok] at h
    obtain ⟨⟨⟨ack, code⟩, w'⟩, hexec, h⟩ := h
    have hone := executeInternal_outcome hexec
    dsimp only at h
    by_cases hcode : code = 0
    · rw [if_neg (not_not_intro hcode)] at h
      simp only [bind_eq_ok, pure_eq_ok] at h
      obtain ⟨rest, hrest, rfl⟩ := h
      rcases List.mem_cons.mp hturn with rfl | hturn
      · exact ⟨Onward.refl w, hone, fun hne => absurd hcode hne⟩
      · obtain ⟨honward, houtcome, hlast⟩ := outcome_of_mem hrest turn hturn
        exact ⟨hone.onward.trans honward, houtcome, hlast⟩
    · rw [if_pos hcode] at h
      cases h
      obtain rfl := List.mem_singleton.mp hturn
      exact ⟨Onward.refl w, hone, fun _ => rfl⟩

theorem executionOf_ok {w : World} {recvs : List Recv} {x : Execution}
    (h : executionOf env w packet recvs = .ok x) :
    (∃ salt is, turns env packet x.path salt is w = .ok x.turns) ∧ (x.err ≠ 0 → x.turns = []) := by
  simp only [executionOf, bind_eq_ok, pure_eq_ok] at h
  obtain ⟨zkgmPacket, -, ⟨instructions, isBatch, err⟩, hextract, ts, hts, rfl⟩ := h
  refine ⟨⟨zkgmPacket.salt, _, hts⟩, ?_⟩
  intro herr
  rcases extractBatch_ok hextract with ⟨-, rfl⟩ | ⟨hzero, -⟩
  · rw [plan_nil] at hts
    cases hts
    rfl
  · exact absurd hzero herr

variable {instructions : List Instruction}

theorem readBack_batch {acks : List AckData} (hlen : acks.length = instructions.length)
    (hone : instructions.length ≠ 1) : ReadBack instructions (.batchAck acks) acks := by
  rintro ctx rfl
  unfold batchAcksOf
  split
  · refine ⟨some acks, rfl, ?_⟩
    intro k ack hk
    simp only [innerAckAt, if_true, orErr_eq_ok]
    exact hk
  · refine ⟨none, rfl, ?_⟩
    intro k ack hk
    -- there is no instruction at all
    rw [List.length_eq_zero_iff.mp (show acks.length = 0 by omega)] at hk
    cases hk

theorem readBack_single {inner : AckData} (hone : instructions.length = 1) :
    ReadBack instructions inner [inner] := by
  rintro ctx rfl
  unfold batchAcksOf
  rw [if_neg (by omega)]
  refine ⟨none, rfl, ?_⟩
  intro k ack hk
  rcases List.getElem?_eq_some_iff.mp hk with ⟨hlt, hk⟩
  obtain rfl : k = 0 := by simpa using hlt
  cases hk
  rfl

theorem not_readBack {ack : AckData} (hone : instructions.length = 1) (hack : ack ≠ .batchAck [ack]) :
    ¬ ReadBack instructions (.batchAck [ack]) [ack] := by
  intro h
  obtain ⟨batchAcks, hbatch, hread⟩ := h ⟨instructions, 0, 0, []⟩ rfl
  have hnot : ¬ 1 < instructions.length := by omega
  rw [batchAcksOf, if_neg hnot] at hbatch
  cases hbatch
  have hself := hread 0 ack rfl
  simp only [innerAckAt, Except.ok.injEq] at hself
  exact hack hself.symm

end Turns

/-- **An acknowledgement tells the truth exactly if** its packet is no forward, and it is a
    malformed batch, or refused before anything was done for it, or filled and no batch of one. -/
theorem truthful_iff {env : Env} {s s' : State} {packets : List Packet} {recvs : List Recv} {clock : Nat}
    {relayerMsg : Bytes} {verified : Bool}
    (h : runCalls env s (receiving s.opened.length packets recvs clock relayerMsg verified) = .ok s') :
    ∃ packet x, packets = [packet] ∧ executionOf env s.world packet recvs = .ok x ∧
      (Truthful env s s' packet x ↔ Answerable env s.world packet x) := by
  obtain ⟨packet, x, ack, rfl, hx, hafter, hack, hacked⟩ := receiving_ok h
  obtain ⟨⟨salt, is, hturns⟩, herr⟩ := executionOf_ok hx
  have houtcome := outcome_of_mem hturns
  refine ⟨packet, x, rfl, hx, ?_, ?_⟩
  · intro htrue
    refine ⟨?_, ?_⟩
    · intro hfwd
      obtain ⟨hnone, -⟩ := htrue.forward hfwd
      rw [hack] at hnone
      cases hnone
    · cases hacked with
      | malformed hmalformed _ => exact .inl hmalformed
      | @failed turn hturn hcode =>
        obtain ⟨honward, hout, hlast⟩ := houtcome turn hturn
        rw [hlast hcode] at hafter
        have hsame : Untouched s.world turn.after := (htrue.failure hack).trans hafter.symm
        obtain ⟨hrefuses, hbefore⟩ := hout.refuses_of_untouched hcode honward hsame
        exact .inr (.inl ⟨turn, hturn, hrefuses, hbefore⟩)
      | @done inner _ hall hzero hbatch hsingle =>
        have hdone := htrue.success inner hack
        refine .inr (.inr ⟨?_, ?_⟩)
        · intro turn hturn
          exact (houtcome turn hturn).2.1.fills_of_effect (hzero turn hturn) (hdone.effect turn hturn)
        · intro hop hone
          obtain ⟨turn, hturn⟩ : ∃ turn, x.turns = [turn] := by
            rw [← length_eq_one_iff, ← hone, ← hall, length_map]
          have hread := hdone.read
          have heffect := hdone.effect turn (by rw [hturn]; exact mem_singleton_self turn)
          rw [hbatch hop, hturn] at hread
          refine not_readBack hone ?_ hread
          obtain ⟨fillType, maker, hfilled⟩ := heffect.ack_eq
          rw [hfilled]
          exact fun h => nomatch h
  · rintro ⟨hfwd, hans⟩
    cases hacked with
    | malformed hmalformed hnone =>
      rw [hnone] at hafter
      refine ⟨fun _ => hafter, ?_, fun hf => absurd hf hfwd⟩
      intro inner hsuccess
      rw [hack] at hsuccess
      cases hsuccess
    | @failed turn hturn hcode =>
      refine ⟨?_, ?_, fun hf => absurd hf hfwd⟩
      · intro _
        rcases hans with hmalformed | ⟨turn', hturn', hrefuses, hbefore⟩ | ⟨hfills, -⟩
        · rw [herr hmalformed] at hturn
          cases hturn
        · obtain ⟨-, hout, hlast⟩ := houtcome turn' hturn'
          obtain ⟨hcode', hsame⟩ := hout.of_refuses hrefuses
          rw [hlast hcode', hsame] at hafter
          exact hbefore.trans hafter
        · exact absurd ((houtcome turn hturn).2.1.of_fills (hfills turn hturn)).1 hcode
      · intro inner hsuccess
        rw [hack] at hsuccess
        cases hsuccess
    | @done inner hwell hall hzero hbatch hsingle =>
      refine ⟨?_, ?_, fun hf => absurd hf hfwd⟩
      · intro hfailure
        rw [hack] at hfailure
        cases hfailure
      · intro inner' hsuccess
        obtain rfl : inner = inner' := by
          rw [hack] at hsuccess
          cases hsuccess
          rfl
        rcases hans with hmalformed | ⟨turn', hturn', hrefuses, -⟩ | ⟨hfills, hone⟩
        · exact absurd hwell hmalformed
        · exact absurd (hzero turn' hturn') ((houtcome turn' hturn').2.1.of_refuses hrefuses).1
        · have hlen : (x.turns.map Turn.ack).length = x.instructions.length := by
            rw [← hall, length_map, length_map]
          refine ⟨hall, ?_, hbatch, hsingle, ?_⟩
          · intro turn hturn
            exact ((houtcome turn hturn).2.1.of_fills (hfills turn hturn)).2
          · by_cases hop : x.instruction.opcode = OP_BATCH
            · rw [hbatch hop]
              exact readBack_batch hlen (hone hop)
            · rw [hsingle hop] at hlen ⊢
              exact readBack_single hlen.symm

/-! ## A batch of two orders -/

/-- The token that the token `[1]` of channel 1 is wrapped into on channel 2. -/
def wrappedSample : Bytes := computeSaltFromMetadataImage sampleEnv 0 2 [1] (replicate 32 0)

/-- The coin type `[7]` is claimed for the wrapped token, and the owned vault has its cap. -/
def mintingWorld : World where
  store := { RelayStore.empty with
    wrappedDenomToT := fun d => if d = wrappedSample then some [7] else none
    ownedVaultCap := true }
  vault := ⟨fun t => if t = [7] then some ⟨0, ⟨[], [], 6, [], none, []⟩⟩ else none, fun _ _ =>
    false, fun _ => none⟩
  escrow := ⟨fun _ => none, fun _ _ => false, fun _ => none⟩
  ibc := ⟨fun c => if c = 2 then some 1 else none, rfl, fun _ => none, fun _ => none⟩
  transfers := []

/-- An order for 1000 of the wrapped token, of which 10 are left to the relayer. -/
def mintingOrder (receiver : Bytes) : TokenOrderV2 where
  sender := replicate 32 7
  receiver := receiver
  baseToken := [1]
  baseAmount := 1000
  quoteToken := wrappedSample
  quoteAmount := 990
  kind := TOKEN_ORDER_KIND_ESCROW
  metadata := replicate 32 0

def mintingInstruction (receiver : Bytes) : Instruction :=
  .mk INSTR_VERSION_2 OP_TOKEN_ORDER (.tokenOrder (mintingOrder receiver))

/-- Two orders; the address of the second receiver may be anything. -/
def batchPacket (receiver : Bytes) : Packet :=
  ⟨1, 2, .zkgm ⟨replicate 32 0, 0, .mk INSTR_VERSION_0 OP_BATCH
    (.batch [mintingInstruction (replicate 32 8), mintingInstruction receiver])⟩, 0, 5⟩

def batchRecvs : List Recv := [⟨[7], 0, replicate 32 9, []⟩, ⟨[7], 0, replicate 32 9, []⟩]

theorem mintingInstruction_fills {w : World} {receiver other : Bytes}
    (hclaims : w.store.wrappedDenomToT wrappedSample = some [7]) (hlen : receiver.length = 32) :
    (mintingInstruction receiver).Fills sampleEnv w [7] (batchPacket other) 0 := by
  refine ⟨rfl, rfl, mintingOrder receiver, rfl, hlen, ?_⟩
  have hsolve : (mintingOrder receiver).kind ≠ Zkgm.TOKEN_ORDER_KIND_SOLVE := fun h => nomatch h
  have hunescrow : (mintingOrder receiver).kind ≠ Zkgm.TOKEN_ORDER_KIND_UNESCROW := fun h => nomatch h
  have hwrapped : wrappedTokenOf sampleEnv (batchPacket other) 0 (mintingOrder receiver) =
      .ok (.ok (wrappedSample, none)) := rfl
  have hmints : (mintingOrder receiver).quoteToken = wrappedSample ∧
      (mintingOrder receiver).quoteAmount ≤ (mintingOrder receiver).baseAmount :=
    ⟨rfl, show 990 ≤ 1000 by decide⟩
  rw [if_neg hsolve, if_neg hunescrow, hwrapped]
  dsimp only
  rw [if_pos hmints, Claims, hclaims]

/-- Both orders are filled, and the acknowledgement says so of each. -/
theorem paid_and_succeeded : ∃ s' x, runCalls sampleEnv ⟨mintingWorld, [], [], []⟩
      (receiving 0 [batchPacket (replicate 32 8)] batchRecvs 0 [] true) = .ok s' ∧
    executionOf sampleEnv mintingWorld (batchPacket (replicate 32 8)) batchRecvs = .ok x ∧
    s'.world.ibc.received (sampleEnv.receiptKey (batchPacket (replicate 32 8))) =
      some (some (.success (.batchAck
      [.tokenOrderAck Zkgm.FILL_TYPE_PROTOCOL [], .tokenOrderAck Zkgm.FILL_TYPE_PROTOCOL []]))) ∧
    Truthful sampleEnv ⟨mintingWorld, [], [], []⟩ s' (batchPacket (replicate 32 8)) x := by
  have h : runCalls sampleEnv ⟨mintingWorld, [], [], []⟩
      (receiving 0 [batchPacket (replicate 32 8)] batchRecvs 0 [] true) = .ok _ := rfl
  obtain ⟨packet, x, hpacket, hx, hiff⟩ := truthful_iff h
  cases hpacket
  refine ⟨_, x, h, hx, rfl, hiff.mpr ?_⟩
  cases hx
  refine ⟨by decide, .inr (.inr ⟨?_, fun _ => by decide⟩)⟩
  intro turn hturn
  rcases List.mem_cons.mp hturn with rfl | hturn
  · exact mintingInstruction_fills rfl rfl
  · obtain rfl := List.mem_singleton.mp hturn
    exact mintingInstruction_fills rfl rfl

/-- **An order is paid, and its packet fails**: the coins are minted here and refunded at the origin. -/
theorem paid_and_failed : ∃ s' x, runCalls sampleEnv ⟨mintingWorld, [], [], []⟩
      (receiving 0 [batchPacket [8]] batchRecvs 0 [] true) = .ok s' ∧
    executionOf sampleEnv mintingWorld (batchPacket [8]) batchRecvs = .ok x ∧
    s'.world.ibc.received (sampleEnv.receiptKey (batchPacket [8])) = some (some .failure) ∧
    s'.world.transfers = [⟨replicate 32 8, [7], 990⟩, ⟨replicate 32 9, [7], 10⟩] ∧
    ¬ Truthful sampleEnv ⟨mintingWorld, [], [], []⟩ s' (batchPacket [8]) x := by
  refine ⟨_, _, rfl, rfl, rfl, rfl, ?_⟩
  intro h
  have hsame := (h.failure rfl).transfers
  exact absurd hsame (by decide)

end UnionVoyager.Sui
