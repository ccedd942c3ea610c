import UnionVoyager.Core.Frozen
import UnionVoyager.Net.PacketSafety

/-!
# On which channel a packet is delivered

Any number of chains, connected by sound light clients in any way.  A packet that is proven to a
chain was sent on the tracked chain, from a channel that records the destination channel's number as
its counterparty (`SentFrom`).  Channel numbers are unique on one chain only, and `process_receive`
does not compare the source channel of the packet with the counterparty of the destination channel.

* `Sent`, `run_sent` — what a packet commitment in a block says about the sender's channels now.
* `acks_genuine` — an accepted acknowledgement is on record on the tracked chain.
* `twoChains_noClash` — between two chains without unverified messages there is no clash.
-/

namespace UnionVoyager.Net

open Core Lib Function

/-! ## What a packet commitment says -/

/-- The source channel of `p` was opened towards the destination channel of `p`. -/
def SentFrom (s : State) (p : Packet) : Prop :=
  ∃ x, s.channels p.sourceChannelId = some x ∧ x.Opened ∧
    x.counterpartyChannelId = some p.destinationChannelId

/-- Every packet of every batch that `store` commits to as sent was sent from its source channel. -/
def Sent (H : Hashing) (s : State) (store : H256 → Option H256) : Prop :=
  ∀ ps, store (packetsKey H ps) = some COMMITMENT_MAGIC → ∀ p ∈ ps, SentFrom s p

variable {p : Packet}

theorem SentFrom.evolve {s s' : State} (hev : Evolves s s') (h : SentFrom s p) : SentFrom s' p := by
  obtain ⟨x, hx, hopened, hd⟩ := h
  obtain ⟨x', hx', hle⟩ := hev.channel _ x hx
  have hne : x.state ≠ .init := by
    rcases hopened with h | h
    · simp [h]
    · simp [h]
  obtain ⟨-, hd', -⟩ := hle.settled hne
  exact ⟨x', hx', hle.opened hopened, hd'.trans hd⟩

theorem Sent.evolve {H : Hashing} {s s' : State} (hev : Evolves s s') {store : H256 → Option H256}
    (h : Sent H s store) : Sent H s' store :=
  fun ps hps p hp => (h ps hps p hp).evolve hev

variable {H : Hashing} {env : Env} {info : MessageInfo} {s s' : State}

theorem Sent.of_update (hH : H.CollisionFree) {p : StorePath} {v : H256}
    (hs : s'.commitments = update s.commitments (p.key H) (some v))
    (hp : ∀ h, p = .batchPackets h → v ≠ COMMITMENT_MAGIC) (h : Sent H s s.commitments) :
    Sent H s s'.commitments := by
  intro ps hps
  rw [hs] at hps
  by_cases hk : packetsKey H ps = p.key H
  · rw [hk, update_self, Option.some.injEq] at hps
    exact absurd hps (hp _ (StorePath.key_injective hH hk).symm)
  · rw [update_of_ne hk] at hps
    exact h ps hps

theorem Sent.add (hH : H.CollisionFree) {qs : List Packet} (hqs : ∀ p ∈ qs, SentFrom s p)
    (h : Sent H s s.commitments) :
    Sent H s (storeCommit s (packetsKey H qs) COMMITMENT_MAGIC).commitments := by
  intro ps hps
  by_cases hk : packetsKey H ps = packetsKey H qs
  · rw [(packetsKey_inj hH).mp hk]
    exact hqs
  · rw [storeCommit_of_ne hk] at hps
    exact h ps hps

theorem magic_ack_ne : COMMITMENT_MAGIC_ACK ≠ COMMITMENT_MAGIC := COMMITMENT_MAGIC_ne_ACK.symm

variable {msgs : List Dispatch}

/-- **Every accepted message keeps packet commitments explained by channels.** -/
theorem effect_sent (hH : H.CollisionFree) {m : ExecuteMsg} (he : Effect H env info s m s' msgs)
    (h : Sent H s s.commitments) : Sent H s s'.commitments := by
  cases he with
  | delayed => exact h
  | client hf =>
    intro ps hps
    have hsame : committed H s' (.batchPackets (commitPackets H ps)) =
        committed H s (.batchPackets (commitPackets H ps)) :=
      hf.frame.committed hH (by simp) (by simp)
    exact h ps (hsame.symm.trans hps)
  | membershipProof | nonMembershipProof | connectionOpenInit | connectionOpenTry | connectionOpenAck
  | connectionOpenConfirm | channelOpenInit | channelOpenTry | channelOpenAck | channelOpenConfirm
  | channelCloseInit | channelCloseConfirm | batchAcks | writeAcknowledgement =>
      exact h.of_update hH rfl (by simp)
  | send hch hs hd =>
    refine h.add hH ?_
    intro p hp
    cases List.mem_singleton.mp hp
    exact ⟨_, hch, .inl hs, hd⟩
  | batchSend _ hall =>
    -- each packet of the batch has a commitment of its own
    refine h.add hH ?_
    intro p hp
    exact h [p] (hall p hp) p (List.mem_singleton_self p)
  | receive _ _ _ _ _ hL =>
    refine (hL.state_invariant (I := fun t => Sent H s t.commitments) (fun t o t' ht hR => ?_) h)
    cases hR with
    | already => exact ht
    | @fresh p =>
      intro ps hps
      have hne : packetsKey H ps ≠ receiptsKey H [p] := by
        intro hk
        cases StorePath.key_injective hH hk
      rw [storeCommit_of_ne hne] at hps
      exact ht ps hps
  | acknowledge hL =>
    refine (hL.state_invariant (I := fun t => Sent H s t.commitments) (fun t o t' ht hR => ?_) h)
    cases hR with
    | @mark p =>
      intro ps hps
      by_cases hk : packetsKey H ps = packetsKey H [p]
      · rw [hk, storeCommit_self, Option.some.injEq] at hps
        exact absurd hps magic_ack_ne
      · rw [storeCommit_of_ne hk] at hps
        exact ht ps hps
  | timeout => exact h.of_update hH rfl (fun _ _ => magic_ack_ne)

/-- A chain all of whose packet commitments, present and past, are explained by its channels. -/
structure SentFaithful (H : Hashing) (c : Chain) : Prop where
  core : Sent H c.core c.core.commitments
  blocks : ∀ b ∈ c.blocks, Sent H c.core b.store

section Runs

variable {ι : Type} [DecidableEq ι] {tracks : ι → ClientId → ι} {w : World ι}

theorem step_sentFaithful (hH : H.CollisionFree) (a : Action ι) (hf : ∀ i, Faithful H (w i))
    (h : ∀ i, SentFaithful H (w i)) (i : ι) : SentFaithful H ((step H tracks w a).1 i) := by
  generalize hw : (step H tracks w a).1 = w', ho : (step H tracks w a).2 = out
  have hcase := step_case H tracks w a
  rw [hw, ho] at hcase
  cases hcase with
  | refused => exact h i
  | @accepted j env info m s msgs _ heff =>
    by_cases hi : i = j
    · subst hi
      have hev := effect_evolves (hf i).wellFormed heff
      refine ⟨?_, fun b hb => ?_⟩
      · rw [setCore_core]
        exact (effect_sent hH heff (h i).core).evolve hev
      · rw [setCore_core]
        rw [setCore_blocks] at hb
        exact ((h i).blocks b hb).evolve hev
    · rw [setCore_of_ne hi]
      exact h i
  | @ended j elapsed _ =>
    by_cases hi : i = j
    · subst hi
      rw [update_self]
      refine ⟨(h i).core, fun b hb => ?_⟩
      rcases List.mem_append.mp hb with hb | hb
      · exact (h i).blocks b hb
      · rw [List.mem_singleton.mp hb]
        exact (h i).core
    · rw [update_of_ne hi]
      exact h i

theorem genesis_sentFaithful (H : Hashing) (t : Timestamp) : SentFaithful H (.genesis t) where
  core ps hps := by cases hps
  blocks b hb := by cases hb

/-! ## Delivery -/

/-- Every packet a step delivers with a proof is delivered on the channel whose other end is its
    source channel. -/
def Delivers (H : Hashing) (tracks : ι → ClientId → ι) (w : World ι) (a : Action ι) : Prop :=
  ∀ i d caller p relayer msg, (i, d) ∈ (step H tracks w a).2 →
    d.msg = .onRecvPacket caller p relayer msg →
    ∃ ch, (w i).core.channels p.destinationChannelId = some ch ∧
      ch.counterpartyChannelId = some p.sourceChannelId

/-- On the chain that channel `d` of chain `i` is connected to, no opened channel records the number
    of `d` but the one that `d` records. -/
def Unambiguous (tracks : ι → ClientId → ι) (w : World ι) (i : ι) (d : ChannelId) : Prop :=
  ∀ ch conn, (w i).core.channels d = some ch → (w i).core.connections ch.connectionId = some conn →
    ∀ u y, (w (tracks i conn.clientId)).core.channels u = some y → y.Opened →
      y.counterpartyChannelId = some d → ch.counterpartyChannelId = some u

/-- No packet is received, with a proof, on a channel whose number is ambiguous. -/
def NoClash (tracks : ι → ClientId → ι) (w : World ι) : Action ι → Prop
  | .tx i _ _ (.restricted (.packetRecv ps _ _ _ _)) =>
    ∀ p ∈ ps, Unambiguous tracks w i p.destinationChannelId
  | _ => True

omit [DecidableEq ι] in
theorem loop_delivers {ps : List Packet} {c : ChannelId} {port relayer : Addr} {intent : Bool}
    (hL : Loop (ReceiveStep H env info ps c port relayer intent) s msgs s') {d : Dispatch} (hd : d ∈ msgs)
    {caller : String} {r : String} {msg : Bytes} (hm : d.msg = .onRecvPacket caller p r msg) :
    intent = false ∧ p ∈ ps ∧ p.destinationChannelId = c := by
  induction hL with
  | nil => cases hd
  | cons hR _ ih =>
    rcases List.mem_append.mp hd with hd | hd
    · cases hR with
      | already => cases hd
      | fresh hp hc =>
        cases List.mem_singleton.mp hd
        cases intent with
        | true => cases hm
        | false =>
          cases hm
          exact ⟨rfl, hp, hc⟩
    · exact ih hd

theorem effect_delivers {m : ExecuteMsg} (he : Effect H env info s m s' msgs) {d : Dispatch} (hd : d ∈ msgs)
    {caller : String} {r : String} {msg : Bytes} (hm : d.msg = .onRecvPacket caller p r msg) :
    ∃ ps rms rel pr n ch c h, m = .restricted (.packetRecv ps rms rel pr n) ∧ p ∈ ps ∧
      s.channels p.destinationChannelId = some ch ∧ s.connections ch.connectionId = some c ∧
      Proven env c.clientId h (packetsKey H ps) COMMITMENT_MAGIC := by
  cases he with
  | receive hch _ hc hp hmsg hL =>
    obtain ⟨rfl, hmem, rfl⟩ := loop_delivers hL hd hm
    obtain ⟨rms, rel, pr, n, rfl⟩ := hmsg rfl
    exact ⟨_, rms, rel, pr, n, _, _, _, rfl, hmem, hch, hc, hp rfl⟩
  | acknowledge hL =>
    exfalso
    induction hL with
    | nil => cases hd
    | cons hR _ ih =>
      rcases List.mem_append.mp hd with hd | hd
      · cases hR
        cases List.mem_singleton.mp hd
        cases hm
      · exact ih hd
  | channelOpenInit | channelOpenTry | channelOpenAck | channelOpenConfirm | channelCloseInit
  | channelCloseConfirm | timeout =>
    cases List.mem_singleton.mp hd
    cases hm
  | delayed | client | membershipProof | nonMembershipProof | connectionOpenInit | connectionOpenTry
  | connectionOpenAck | connectionOpenConfirm | send | batchSend | batchAcks
  | writeAcknowledgement => cases hd

theorem step_delivers {a : Action ι} (h : ∀ i, SentFaithful H (w i)) (hc : NoClash tracks w a) :
    Delivers H tracks w a := by
  intro i d caller p relayer msg hd hm
  generalize ho : (step H tracks w a).2 = out, hw : (step H tracks w a).1 = w' at hd
  have hcase := step_case H tracks w a
  rw [hw, ho] at hcase
  cases hcase with
  | refused => cases hd
  | @accepted j env info m s msgs ha heff =>
    obtain ⟨e, he, hje⟩ := List.mem_map.mp hd
    cases hje
    obtain ⟨ps, rms, rel, pr, n, ch, conn, height, rfl, hp, hch, hconn, hproof⟩ :=
      effect_delivers heff he hm
    subst ha
    -- the proof is about a block of the tracked chain, which has sent the packet
    obtain ⟨b, hb, hv⟩ := proven_block hproof
    obtain ⟨y, hy, hopened, hyd⟩ := (h _).blocks b hb ps hv p hp
    exact ⟨ch, hch, hc p hp ch conn hch hconn _ y hy hopened hyd⟩
  | ended => cases hd

/-- **Every packet is delivered on the channel it was sent to**, in every run without a clash of
    channel numbers. -/
theorem delivered_of_noClash (H : Hashing) (hH : H.CollisionFree) (tracks : ι → ClientId → ι)
    (t : ι → Timestamp) (as : List (Action ι))
    (hc : Machine.Meets (step H tracks) (NoClash tracks) (World.genesis t) as) :
    Machine.Meets (step H tracks) (Delivers H tracks) (World.genesis t) as :=
  Machine.meets_of_invariant (I := fun w : World ι => ∀ i, Faithful H (w i) ∧ SentFaithful H (w i))
    (fun _ a hI _ i => ⟨step_faithful hH a (fun j => (hI j).1) i,
      step_sentFaithful hH a (fun j => (hI j).1) (fun j => (hI j).2) i⟩)
    (fun _ _ hI hnc => step_delivers (fun j => (hI j).2) hnc) as _
    (fun i => ⟨genesis_faithful H (t i), genesis_sentFaithful H (t i)⟩) hc

/-! ## Acknowledgements -/

/-- The acknowledgements that finished blocks hold of single packets are still on record. -/
def AcksKept (H : Hashing) (c : Chain) : Prop :=
  ∀ b ∈ c.blocks, ∀ p v, v ≠ COMMITMENT_MAGIC → b.store (receiptsKey H [p]) = some v →
    BatchAcks.Acked H p v c.core

theorem step_acksKept (hH : H.CollisionFree) (a : Action ι) (h : ∀ i, AcksKept H (w i)) (i : ι) :
    AcksKept H ((step H tracks w a).1 i) := by
  generalize hw : (step H tracks w a).1 = w', ho : (step H tracks w a).2 = out
  have hcase := step_case H tracks w a
  rw [hw, ho] at hcase
  cases hcase with
  | refused => exact h i
  | @accepted j env info m s msgs _ heff =>
    by_cases hi : i = j
    · subst hi
      unfold World.setCore
      rw [update_self]
      exact fun b hb p v hv hstore => BatchAcks.effect_acked hH hv heff (h i b hb p v hv hstore)
    · rw [setCore_of_ne hi]
      exact h i
  | @ended j elapsed _ =>
    by_cases hi : i = j
    · subst hi
      rw [update_self]
      intro b hb p v hv hstore
      rcases List.mem_append.mp hb with hb | hb
      · exact h i b hb p v hv hstore
      · rwa [List.mem_singleton.mp hb] at hstore
    · rw [update_of_ne hi]
      exact h i

/-- An acknowledgement of a single packet is only accepted while it is on record on the chain that
    the client of the packet's channel tracks. -/
def Genuine (H : Hashing) (tracks : ι → ClientId → ι) (w : World ι) (a : Action ι) : Prop :=
  ∀ i env info p acks proof h r, let m := .packetAck [p] acks proof h r
    a = .tx i env info (.restricted m) → Succeeds H (w i).core ⟨w.env tracks i env, info, .restricted m⟩ m →
    commitAcks H acks ≠ COMMITMENT_MAGIC → ∃ x c, (w i).core.channels p.sourceChannelId = some x ∧
      (w i).core.connections x.connectionId = some c ∧
        BatchAcks.Acked H p (commitAcks H acks) (w (tracks i c.clientId)).core

omit [DecidableEq ι] in
theorem acksKept_genuine (a : Action ι) (hkept : ∀ i, AcksKept H (w i)) : Genuine H tracks w a := by
  rintro i env info p acks proof h r m rfl ⟨-, -, out, hok⟩ hv
  obtain ⟨q, impl, hquery, -, hacc⟩ := executeRestricted_asks rfl hok
  simp only [m, proofQuery, List.head?_cons, Option.bind_eq_bind, Option.bind_some, Option.bind_eq_some_iff,
    Option.pure_def, Option.some.injEq] at hquery
  obtain ⟨x, hx, c, hc, rfl⟩ := hquery
  obtain ⟨b, hb, hstore⟩ := proven_block ⟨impl, proof, hacc⟩
  exact ⟨x, c, hx, hc, hkept _ b hb p _ hv hstore⟩

/-- **Acknowledgements are genuine**, in every run of any number of chains. -/
theorem acks_genuine (hH : H.CollisionFree) (tracks : ι → ClientId → ι) (t : ι → Timestamp)
    (as : List (Action ι)) :
    Machine.Meets (step H tracks) (Genuine H tracks) (World.genesis t) as :=
  Machine.meets_of_invariant (I := fun w : World ι => ∀ i, AcksKept H (w i)) (C := fun _ _ => True)
    (fun _ a hI _ => step_acksKept hH a hI) (fun _ a hI _ => acksKept_genuine a hI) as _
    (fun i b hb => by cases hb) (Machine.meets_of_forall _ fun _ _ => trivial)

theorem acks_genuine_packets : Machine.Meets (step .ideal twoChains) (Genuine .ideal twoChains)
    (World.genesis fun _ => 0) packetActions :=
  acks_genuine Hashing.ideal_collisionFree _ _ _

end Runs

theorem twoChains_noClash {w : World Side} (h : Agree w) (a : Action Side) : NoClash twoChains w a := by
  unfold NoClash
  split
  · intro p _ ch conn hch _ u y hy hopened hyd
    obtain ⟨t, x, -, -, -, ht, hx, -, hback, -⟩ := h.channel _ u y hy hopened
    rw [hyd, Option.some.injEq] at ht
    subst ht
    unfold twoChains at hx
    rw [Side.other_other, hch, Option.some.injEq] at hx
    subst hx
    exact hback
  · trivial

theorem twoChains_meets_noClash (hH : H.CollisionFree) (t : Side → Timestamp)
    (as : List (Action Side)) (hforce : ∀ a ∈ as, a.isForce = false) :
    Machine.Meets (step H twoChains) (NoClash twoChains) (World.genesis t) as :=
  Machine.meets_of_invariant (I := fun w : World Side => Agree w ∧ ∀ j, Faithful H (w j))
    (fun _ a hI ha => ⟨step_agree hH a ha hI.2 hI.1, fun j => step_faithful hH a hI.2 j⟩)
    (fun _ a hI _ => twoChains_noClash hI.1 a) as _
    ⟨genesis_agree t, fun j => genesis_faithful H (t j)⟩ (Machine.meets_of_forall _ hforce)

/-- The delivery theorem on the run of `packetActions`, in which `bob` gets a packet. -/
theorem delivered_to_bob : (Side.b, ⟨"bob", .onRecvPacket "relayer" (alicePacket 1 100) "relayer" [], []⟩) ∈
        trace .ideal twoChains (World.genesis fun _ => 0) packetActions ∧
      Machine.Meets (step .ideal twoChains) (Delivers .ideal twoChains) (World.genesis fun _ => 0)
        packetActions :=
  ⟨by decide +kernel, delivered_of_noClash .ideal Hashing.ideal_collisionFree twoChains _ packetActions
    (twoChains_meets_noClash Hashing.ideal_collisionFree _ packetActions (by decide))⟩

/-! ## Three chains -/

/-- A hub and two chains connected to it. -/
inductive Star where
  | hub
  | left
  | right
  deriving DecidableEq

/-- The hub's client 1 tracks the left chain and its other clients the right chain; the outer chains
    track the hub. -/
def starTracks : Star → ClientId → Star
  | .hub, k => if k = ⟨.one⟩ then .left else .right
  | .left, _ => .hub
  | .right, _ => .hub

/-- Clients on all chains, a connection and a channel between `alice` on the hub (channel 1) and
    `bob` on the left chain, and between `mallory` on the hub (channel 2) and `carol` on the right
    chain (channel 1). -/
def starActions : List (Action Star) :=
  [relay .hub (.registerClient "cometbls" "impl"), relay .hub (.createClient "cometbls" [1] [2] "relayer"),
    relay .hub (.createClient "cometbls" [1] [2] "relayer"),
    relay .left (.registerClient "cometbls" "impl"),
    relay .left (.createClient "cometbls" [1] [2] "relayer"),
    relay .right (.registerClient "cometbls" "impl"),
    relay .right (.createClient "cometbls" [1] [2] "relayer"),
    relay .hub (.connectionOpenInit ⟨.one⟩ ⟨.one⟩), relay .hub (.connectionOpenInit ⟨.two⟩ ⟨.one⟩),
    .endBlock .hub 1,
    relay .left (.connectionOpenTry ⟨.one⟩ ⟨.one⟩ ⟨.one⟩ [] 0), .endBlock .left 1,
    relay .right (.connectionOpenTry ⟨.two⟩ ⟨.two⟩ ⟨.one⟩ [] 0), .endBlock .right 1,
    relay .hub (.connectionOpenAck ⟨.one⟩ ⟨.one⟩ [] 0), relay .hub (.connectionOpenAck ⟨.two⟩ ⟨.one⟩ [] 0),
    .endBlock .hub 1,
    relay .left (.connectionOpenConfirm ⟨.one⟩ [] 1), relay .right (.connectionOpenConfirm ⟨.one⟩ [] 1),
    relay .hub (.channelOpenInit "alice" (utf8 "bob") ⟨.one⟩ "v1" "relayer"),
    relay .hub (.channelOpenInit "mallory" (utf8 "carol") ⟨.two⟩ "v1" "relayer"), .endBlock .hub 1,
    relay .left (.channelOpenTry "bob" ⟨.tryOpen, ⟨.one⟩, some ⟨.one⟩, utf8 "alice", "v1"⟩ "v1" [] 2
      "relayer"), .endBlock .left 1,
    relay .right (.channelOpenTry "carol" ⟨.tryOpen, ⟨.one⟩, some ⟨.two⟩, utf8 "mallory", "v1"⟩ "v1" [] 2
      "relayer"), .endBlock .right 1,
    relay .hub (.channelOpenAck ⟨.one⟩ "v1" ⟨.one⟩ [] 1 "relayer"),
    relay .hub (.channelOpenAck ⟨.two⟩ "v1" ⟨.one⟩ [] 1 "relayer"), .endBlock .hub 1,
    relay .left (.channelOpenConfirm ⟨.one⟩ [] 3 "relayer"),
    relay .right (.channelOpenConfirm ⟨.one⟩ [] 3 "relayer"),
    .tx .hub (.permissive .accepting) ⟨"alice", []⟩ (.packetSend ⟨.one⟩ 100 [1]),
    .tx .hub (.permissive .accepting) ⟨"mallory", []⟩ (.packetSend ⟨.two⟩ 100 [1]), .endBlock .hub 1]

/-- The packet `mallory` sends to `carol`. -/
def malloryPacket : Packet := ⟨⟨.two⟩, ⟨.one⟩, [1], .mustBeZero, 100⟩

def receiveMallory : Action Star := relay .left (.packetRecv [malloryPacket] [[]] "relayer" [] 4)

/-- **A packet is delivered on a channel whose other end did not send it**: `bob` gets `mallory`'s
    packet to `carol`, although his channel's counterparty is channel 1. -/
theorem delivered_on_foreign_channel :
        (Star.left, ⟨"bob", .onRecvPacket "relayer" malloryPacket "relayer" [], []⟩) ∈
        (step .ideal starTracks (run .ideal starTracks (World.genesis fun _ => 0) starActions)
          receiveMallory).2 ∧
      ((run .ideal starTracks (World.genesis fun _ => 0) starActions .left).core.channels
        ⟨.one⟩).bind Channel.counterpartyChannelId = some ⟨.one⟩ ∧
      ¬ Machine.Meets (step .ideal starTracks) (Delivers .ideal starTracks)
        (World.genesis fun _ => 0) (starActions ++ [receiveMallory]) := by
  have hout : (Star.left, ⟨"bob", .onRecvPacket "relayer" malloryPacket "relayer" [], []⟩) ∈
      (step .ideal starTracks (run .ideal starTracks (World.genesis fun _ => 0) starActions)
        receiveMallory).2 := by
    decide +kernel
  have hcp : ((run .ideal starTracks (World.genesis fun _ => 0) starActions .left).core.channels
      ⟨.one⟩).bind Channel.counterpartyChannelId = some ⟨.one⟩ := by
    decide +kernel
  refine ⟨hout, hcp, fun hm => ?_⟩
  obtain ⟨-, hd, -⟩ := (Machine.meets_append _ _ _).mp hm
  obtain ⟨ch, hch, hsrc⟩ := hd .left _ _ _ _ _ hout rfl
  have hch' : (run .ideal starTracks (World.genesis fun _ => 0) starActions .left).core.channels
      ⟨.one⟩ = some ch := hch
  rw [hch', Option.bind_some, hsrc] at hcp
  exact absurd hcp (by decide)

end UnionVoyager.Net
