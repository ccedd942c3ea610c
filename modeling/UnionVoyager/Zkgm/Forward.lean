import UnionVoyager.Zkgm.Transact
import UnionVoyager.Lib.Machine

/-!
# Forwarded packets and the packets that caused them

When a packet created by a forward is completed, the packet that caused it should be acknowledged alike.
The CosmWasm contract forwards nothing: its reply takes the chain's response for the packet, cannot read
it and fails.  The Solidity contract stores the packet that caused the other under a key nobody looks at.

* `run_idle`, `run_childless` — in every run the slots are empty again, and nothing is forwarded.
* `forward_failed` — a received forward gets the failure acknowledgement at once.
-/

namespace UnionVoyager.Zkgm

open Lib Function Machine
open Core (ChannelId Timestamp Addr Coin H256 StorePath word)

/-- A message from outside, with the chain as it sees it. -/
structure Tx where
  env : Env
  info : MessageInfo
  msg : ExecuteMsg

/-- What a transaction did; a failed one did nothing. -/
structure Record where
  tx : Tx
  ok : Bool
  events : List HostEvent

def step {X : Type} (out : Outside X) (w : World X) (tx : Tx) : World X × List Record :=
  match transact out tx.env tx.info tx.msg w with
  | .ok w' => (w', [⟨tx, true, w'.log⟩])
  | .error _ => (w, [⟨tx, false, []⟩])

/-- The transaction runs on a chain with these hashes; the contract itself signs none. -/
def Tx.Outer (H : Hashing) (tx : Tx) : Prop := tx.env.hashing = H ∧ tx.info.sender ≠ tx.env.contractAddress

namespace Record

/-- The acknowledgements zkgm wrote. -/
def acks (r : Record) : List (Packet × Acknowledgement) :=
  r.events.filterMap fun e =>
    match e with
    | .acked p a => some (p, a)
    | .sent _ => none

/-- The received packet the transaction executed. -/
def executes (r : Record) : Option Packet := if r.ok then r.tx.msg.received else none

/-- The acknowledgement or timeout the IBC host brought, whatever became of it. -/
def arrives (host : Addr) (r : Record) : Option (Packet × Acknowledgement) :=
  if r.tx.info.sender = host then r.tx.msg.completed else none

end Record

/-- `c` was sent while `p` was executed. -/
def Child (tr : List Record) (p c : Packet) : Prop := ∃ r ∈ tr, r.executes = some p ∧ .sent c ∈ r.events

/-- When a forwarded packet is completed exactly one acknowledgement is written: to the packet that
    caused it, the one received; and that packet gets no other. -/
def Answered (host : Addr) (tr : List Record) : Prop :=
  Along (fun past r =>
    (∀ p c a, Child past p c → r.arrives host = some (c, a) → r.acks = [(p, a)]) ∧
    (∀ p c a, Child tr p c → (p, a) ∈ r.acks → ∃ a', r.arrives host = some (c, a'))) tr

/-! ## What every run keeps -/

section Keep

variable {X : Type} {out : Outside X} {H : Hashing} {w : World X} {tr : List Record}

theorem step_idle (out : Outside X) (w : World X) (tx : Tx) (hidle : Idle w.state)
    (htx : tx.info.sender ≠ tx.env.contractAddress) : Idle (step out w tx).1.state := by
  unfold step
  split
  · rename_i w' hrun
    exact (transact_idle hidle htx hrun).1
  · exact hidle

theorem run_idle (out : Outside X) {w : World X} {txs : List Tx} (hidle : Idle w.state)
    (htxs : ∀ tx ∈ txs, tx.info.sender ≠ tx.env.contractAddress) : Idle (run (step out) w txs).state :=
  invariant_of_meets (I := fun (w : World X) (_ : List Record) => Idle w.state)
    (fun w _ tx hidle htx => step_idle out w tx hidle htx) hidle (meets_of_forall w htxs)

/-- No packet was sent while another was executed. -/
def Childless (tr : List Record) : Prop := ∀ p c, ¬ Child tr p c

/-- **A transaction forwards nothing.** -/
theorem step_childless (hjson : H.Json) (tx : Tx) (hidle : Idle w.state) (htr : Childless tr)
    (htx : tx.Outer H) : Childless (tr ++ (step out w tx).2) := by
  obtain ⟨rfl, hself⟩ := htx
  rintro p c ⟨r, hmem, hexec, hsent⟩
  rcases List.mem_append.mp hmem with hmem | hmem
  · exact htr p c ⟨r, hmem, hexec, hsent⟩
  · unfold step at hmem
    split at hmem
    · rename_i w' hrun
      cases List.mem_singleton.mp hmem
      rcases (transact_idle hidle hself hrun).2 p hexec with hreads | hnil | ⟨ack, hack⟩
      · exact not_readsWrapped hjson hreads
      · simp [hnil] at hsent
      · simp [hack] at hsent
    · cases List.mem_singleton.mp hmem
      cases hexec

theorem run_childless (hjson : H.Json) {txs : List Tx} (hidle : Idle w.state)
    (htxs : ∀ tx ∈ txs, tx.Outer H) : Childless (trace (step out) w txs) := by
  have h : Idle (run (step out) w txs).state ∧ Childless (trace (step out) w txs) := invariant_of_meets
    (I := fun (w : World X) (tr : List Record) => Idle w.state ∧ Childless tr) (C := fun _ tx => tx.Outer H)
    (fun w tr tx hinv htx => ⟨step_idle out w tx hinv.1 htx.2, step_childless hjson tx hinv.1 hinv.2 htx⟩)
    ⟨hidle, by rintro p c ⟨r, hr, -⟩; cases hr⟩ (meets_of_forall w htxs)
  exact h.2

theorem answered_of_childless {host : Addr} (h : Childless tr) : Answered host tr := by
  intro past r rest hsplit
  refine ⟨fun p c a hchild _ => ?_, fun p c a hchild _ => absurd hchild (h p c)⟩
  obtain ⟨r', hr', hchild⟩ := hchild
  exact absurd ⟨r', by rw [hsplit]; exact List.mem_append_left _ hr', hchild⟩ (h p c)

/-- **A received forward gets the failure acknowledgement at once.** -/
theorem forward_failed {env : Env} (hjson : env.hashing.Json) {info : MessageInfo} {x : Execution}
    {w' : World X}
    {z : ZkgmPacket} {version opcode : UInt8} {path : U256} {th tt : Nat} {i : Instruction}
      (hidle : Idle w.state)
    (hdata : x.packet.data = .zkgm z) (hz : z.instruction = .mk version opcode (.forward path th tt i))
    (h : transact out env info x.message w = .ok w') : w'.log = [.acked x.packet .failure] := by
  obtain ⟨-, -, ⟨w₁, messages, ack, hok⟩ | hfailed⟩ := transact_message_cases h
  · obtain ⟨s, hs, hrun⟩ := hok.run
    simp only [executePacket, hdata, bind_eq_ok, pure_eq_ok] at hs
    obtain ⟨⟨s₁, funds₁, r⟩, hi, hs⟩ := hs
    cases hs
    rcases executeInternal_cases hi with ⟨l, hl⟩ | ⟨is, hbatch, -⟩ | ⟨q, th, tt, j, -, hfwd⟩
    · cases l with
      | order o => cases o <;> simp [hz, Leaf.toInstruction, Order.toInstruction] at hl
      | call c => simp [hz, Leaf.toInstruction] at hl
    · simp [hz, batchInstruction] at hbatch
    · simp only [executeForward, bind_eq_ok, require_eq_ok] at hfwd
      obtain ⟨_, -, hfwd⟩ := hfwd
      split at hfwd
      · -- a market maker is told to leave it to others, and the reply refuses that
        cases hfwd
        have hbatch : w.state.executingPacketIsBatch = none := congrArg Slots.executingPacketIsBatch hidle
        simp only [List.foldlM_cons, List.foldlM_nil, runSub_writeAck, ok_bind, pure_eq_ok] at hrun
        subst hrun
        obtain ⟨s', p, -, hcollect, -⟩ := hok.collect
        simp [collectAck, internalWriteAck, State.begin, hbatch, okOr, orErr, require, ensure,
          AckData.isOnlyMaker] at hcollect
      · simp only [bind_eq_ok, require_eq_ok, pure_eq_ok] at hfwd
        obtain ⟨⟨tail, prev⟩, -, previous, -, ⟨cont, next⟩, -, source, -, _, -, path, -, nextPath,
          -, hfwd⟩ := hfwd
        cases hfwd
        have hexec : Executing x.packet (w.state.begin x.packet) := executing_begin hidle
        exact absurd
          (run_forward (w := ⟨{ w.state.begin x.packet with createdProxyAccount := none }, w.ext, []⟩)
          (p := x.packet) hexec hrun).1 (not_readsWrapped hjson)
  · exact hfailed.log

end Keep

/-! ## The Solidity contract

`_executeForward`, `onAcknowledgementPacket` and `onTimeoutPacket` of `03-zkgm/Zkgm.sol`, as far as they
touch `inFlightPacket`.  No other function writes an acknowledgement to the handler. -/

namespace Evm

/-- `mapping(bytes32 => IBCPacket) inFlightPacket`. -/
abbrev InFlight := H256 → Option Packet

def commitPacket (H : Hashing) (p : Packet) : H256 := (p.toCore H).hash H.toHashing

def batchPacketsCommitmentKey (H : Hashing) (batchHash : H256) : H256 :=
  (StorePath.batchPackets batchHash).key H.toHashing

/-- The end of `_executeForward`: `ibcPacket` caused `sentPacket`. -/
def executeForward (H : Hashing) (ibcPacket sentPacket : Packet) (m : InFlight) : InFlight :=
  update m (batchPacketsCommitmentKey H (commitPacket H sentPacket)) (some ibcPacket)

/-- The beginning of `onAcknowledgementPacket` and `onTimeoutPacket`, and the acknowledgements written. -/
def onCompletion (H : Hashing) (ibcPacket : Packet) (ack : Acknowledgement) (m : InFlight) :
    InFlight × List (Packet × Acknowledgement) :=
  match ibcPacket.data with
  | .zkgm zkgmPacket =>
    if isForwardedPacket zkgmPacket.salt then
      match m (commitPacket H ibcPacket) with
      | some parent =>
        if parent.timeoutTimestamp ≠ 0 then
          (update m (commitPacket H ibcPacket) none, [(parent, ack)])
        else
          (m, [])
      | none => (m, [])
    else
      (m, [])
  | _ => (m, [])

inductive Call where
  | executeForward (ibcPacket sentPacket : Packet)
  | onAcknowledgementPacket (ibcPacket : Packet) (ack : Acknowledgement)
  | onTimeoutPacket (ibcPacket : Packet)

structure Record where
  call : Call
  acks : List (Packet × Acknowledgement)

def step (H : Hashing) (m : InFlight) (call : Call) : InFlight × List Record :=
  match call with
  | .executeForward ibcPacket sentPacket => (executeForward H ibcPacket sentPacket m, [⟨call, []⟩])
  | .onAcknowledgementPacket ibcPacket ack =>
    ((onCompletion H ibcPacket ack m).1, [⟨call, (onCompletion H ibcPacket ack m).2⟩])
  | .onTimeoutPacket ibcPacket =>
    ((onCompletion H ibcPacket .failure m).1, [⟨call, (onCompletion H ibcPacket .failure m).2⟩])

def Call.completed : Call → Option (Packet × Acknowledgement)
  | .executeForward _ _ => none
  | .onAcknowledgementPacket p ack => some (p, ack)
  | .onTimeoutPacket p => some (p, .failure)

def Child (tr : List Record) (p c : Packet) : Prop := ∃ r ∈ tr, r.call = .executeForward p c

/-- Completed packets answer for those that caused them. -/
def Answered (tr : List Record) : Prop :=
  Along (fun past r => ∀ p c a, Child past p c → r.call.completed = some (c, a) →
    r.acks = [(p, a)]) tr

/-- No forwarded packet is completed. -/
def NoneCompleted (tr : List Record) : Prop :=
  Along (fun past r => ∀ p c a, Child past p c → r.call.completed ≠ some (c, a)) tr

/-- The encoding of an array begins with the offset of its elements. -/
def HasOffset (H : Hashing) : Prop := ∀ ps, ∃ rest, H.abiEncodePackets ps = word 32 ++ rest

variable {H : Hashing}

/-- **What is stored is never looked up**: the two preimages differ in their first word. -/
theorem commitPacket_ne (hH : H.toHashing.CollisionFree) (ho : HasOffset H) (p : Packet) (h : H256) :
    commitPacket H p ≠ batchPacketsCommitmentKey H h := by
  intro he
  have hpre := hH.keccak256 he
  obtain ⟨rest, hrest⟩ := ho ([p.toCore H].map Core.Packet.toTokens)
  rw [hrest] at hpre
  have hword : word 32 = word 4 := (List.append_inj hpre (by rw [Core.word_length, Core.word_length])).1
  exact absurd (Core.word_inj (by decide) (by decide) hword) (by decide)

/-- Every entry is under the key of a commitment. -/
def Stored (H : Hashing) (m : InFlight) : Prop := ∀ k p, m k = some p → ∃ h, k = batchPacketsCommitmentKey H h

theorem onCompletion_eq (hH : H.toHashing.CollisionFree) (ho : HasOffset H) {m : InFlight}
    (hm : Stored H m) (p : Packet) (a : Acknowledgement) : onCompletion H p a m = (m, []) := by
  have hnone : m (commitPacket H p) = none := by
    cases hk : m (commitPacket H p) with
    | none => rfl
    | some q =>
      obtain ⟨h, hkey⟩ := hm _ _ hk
      exact absurd hkey (commitPacket_ne hH ho p h)
  unfold onCompletion
  rw [hnone]
  split
  · split <;> rfl
  · rfl

theorem step_stored (hH : H.toHashing.CollisionFree) (ho : HasOffset H) {m : InFlight} (hm : Stored H m)
    (call : Call) : Stored H (step H m call).1 ∧ (step H m call).2 = [⟨call, []⟩] := by
  cases call with
  | executeForward p c =>
    refine ⟨?_, rfl⟩
    intro k q hq
    by_cases hk : k = batchPacketsCommitmentKey H (commitPacket H c)
    · exact ⟨_, hk⟩
    · simp only [step, executeForward, update_of_ne hk] at hq
      exact hm k q hq
  | onAcknowledgementPacket | onTimeoutPacket =>
    simp only [step, onCompletion_eq hH ho hm]
    exact ⟨hm, trivial⟩

theorem answered_iff_noneCompleted (hH : H.toHashing.CollisionFree) (ho : HasOffset H) (calls : List Call) :
    Answered (trace (step H) (fun _ => none) calls) ↔
      NoneCompleted (trace (step H) (fun _ => none) calls) := by
  have hinv : Stored H (run (step H) (fun _ => none) calls) ∧
      ∀ r ∈ trace (step H) (fun _ => none) calls, r.acks = [] := by
    refine invariant (I := fun m (tr : List Record) => Stored H m ∧ ∀ r ∈ tr, r.acks = []) ?_ ?_ calls
    · intro m tr call hI
      obtain ⟨hm, hr⟩ := step_stored hH ho hI.1 call
      refine ⟨hm, ?_⟩
      intro r hr'
      rw [hr] at hr'
      rcases List.mem_append.mp hr' with h | h
      · exact hI.2 r h
      · rw [List.mem_singleton.mp h]
    · exact ⟨fun k p h => (by cases h), fun r h => (by cases h)⟩
  constructor
  · intro h past r rest hsplit p c a hchild hcomp
    have hacks := h past r rest hsplit p c a hchild hcomp
    have hmem : r ∈ trace (step H) (fun _ => none) calls := by
      rw [hsplit]
      exact List.mem_append_right _ (List.mem_cons_self ..)
    rw [hinv.2 r hmem] at hacks
    cases hacks
  · intro h past r rest hsplit p c a hchild hcomp
    exact absurd hcomp (h past r rest hsplit p c a hchild)

end Evm

/-- **The contracts answer correctly iff no packet that the Solidity contract forwarded is completed.** -/
theorem answered_iff {X : Type} {out : Outside X} {H : Hashing} (hH : H.toHashing.CollisionFree)
    (hjson : H.Json) (ho : Evm.HasOffset H) (config : Config) (minter : Addr) (x : X)
    {txs : List Tx} (htxs : ∀ tx ∈ txs, tx.Outer H) (calls : List Evm.Call) :
    (Answered config.ibcHost (trace (step out) ⟨State.init config minter, x, []⟩ txs) ∧
      Evm.Answered (trace (Evm.step H) (fun _ => none) calls)) ↔
    Evm.NoneCompleted (trace (Evm.step H) (fun _ => none) calls) := by
  rw [← Evm.answered_iff_noneCompleted hH ho calls]
  exact and_iff_right (answered_of_childless (run_childless hjson rfl htxs))

/-! ## A forward that is never answered -/

/-- Contracts that accept everything; the host sends to channel one. -/
def Outside.ideal : Outside Unit where
  minter _ _ := some ()
  packetSend _ m := some ((), ⟨m.sourceChannelId, channelOne, m.data, .mustBeZero, m.timeoutTimestamp⟩)
  writeAcknowledgement _ _ _ := some ()
  contract s _ _ _ := some (s, (), [1])
  solver s _ _ _ := some (s, (), some [1])
  account _ _ := some ()
  contract_keeps _ h := by
    cases h
    exact ⟨rfl, rfl⟩
  solver_keeps _ h := by
    cases h
    exact ⟨rfl, rfl⟩
  contract_idle hidle h := by
    cases h
    exact hidle

/-- A packet received on channel two, to be forwarded over channel one. -/
def parentPacket : Packet := samplePacket sampleForward

/-- What it is forwarded as. -/
def childPacket : Packet where
  sourceChannelId := channelOne
  destinationChannelId := channelOne
  data := .zkgm ⟨tintForwardSalt 7, 0x0000000100000002,
    .mk INSTR_VERSION_2 OP_TOKEN_ORDER (.tokenOrderV2 sampleOrder)⟩
  timeoutHeight := .mustBeZero
  timeoutTimestamp := 100

/-- The ideal hashes, with a reader that knows the text of the forwarded packet. -/
def forwardHashing : Hashing :=
  { Hashing.ideal with
    packetFromSlice := fun text =>
      if text = (childPacket.toCore Hashing.ideal).toJson then some childPacket else none }

theorem forwardHashing_json : forwardHashing.Json where
  writes p text h := by
    cases h
    exact ⟨_, _, _, _, _, rfl⟩
  reads text p h := by
    simp only [forwardHashing] at h
    split at h
    · rename_i htext
      rw [htext]
      rfl
    · cases h

/-- The host delivers the packet. -/
def parentReceived : Tx :=
  ⟨{ Env.ideal with hashing := forwardHashing }, ⟨"ibc", []⟩,
    .onRecvPacket "relayer" parentPacket "relayer" []⟩

/-- **The acknowledgement of a packet that the Solidity contract forwarded does not answer for the packet
    that caused it**; the CosmWasm contract refuses to forward it. -/
theorem forwarded_packet_not_answered :
    ¬ Evm.Answered (trace (Evm.step Hashing.ideal) (fun _ => none)
        [.executeForward parentPacket childPacket, .onAcknowledgementPacket childPacket .failure]) ∧
    trace (step Outside.ideal) ⟨State.fresh, (), []⟩ [parentReceived] =
      [⟨parentReceived, true, [.acked parentPacket .failure]⟩] := by
  refine ⟨?_, rfl⟩
  intro h
  have hnone := (Evm.answered_iff_noneCompleted Core.Hashing.ideal_collisionFree (fun ps => ⟨_, rfl⟩) _).mp h
  exact hnone [⟨.executeForward parentPacket childPacket, []⟩] _ [] rfl parentPacket childPacket
    .failure ⟨_, List.mem_singleton_self _, rfl⟩ rfl

/-- A run with a forward whose packet is still under way. -/
theorem forwarded_packet_pending :
    Answered "ibc" (trace (step Outside.ideal) ⟨State.fresh, (), []⟩ [parentReceived]) ∧
    Evm.Answered (trace (Evm.step forwardHashing) (fun _ => none)
      [.executeForward parentPacket childPacket]) := by
  have h := @answered_iff Unit Outside.ideal forwardHashing Core.Hashing.ideal_collisionFree
    forwardHashing_json (fun ps => ⟨_, rfl⟩) State.fresh.config "minter" () [parentReceived]
    (by simp [Tx.Outer, parentReceived, Env.ideal]) [.executeForward parentPacket childPacket]
  refine h.mpr (along_concat.mpr ⟨along_nil, ?_⟩)
  rintro p c a ⟨r, hr, -⟩
  cases hr

end UnionVoyager.Zkgm
