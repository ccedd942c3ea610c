import UnionVoyager.Core.Effect

/-!
# Batches of packets

`process_receive` and `acknowledge_packet` check one proof for all packets of a message and then
walk the packets next to the messages of the relayer, or the acknowledgements.  The walk ends with
the shorter of the two lists, and every packet that is received passes on all funds of the relayer.
-/

namespace UnionVoyager.Core

open Lib Function List

/-! ## What is delivered -/

/-- The message brings the packet to the app. -/
def Dispatch.delivers (p : Packet) (d : Dispatch) : Bool :=
  match d.msg with
  | .onRecvPacket _ packet _ _ => decide (packet = p)
  | .onIntentRecvPacket _ packet _ _ => decide (packet = p)
  | _ => false

/-- The message brings an acknowledgement of the packet to the app. -/
def Dispatch.acknowledges (p : Packet) (d : Dispatch) : Bool :=
  match d.msg with
  | .onAcknowledgementPacket _ packet _ _ => decide (packet = p)
  | _ => false

def amountOf (funds : List Coin) (denom : String) : Nat :=
  ((funds.filter fun coin => coin.denom = denom).map Coin.amount).sum

def attached (messages : List Dispatch) (denom : String) : Nat :=
    (messages.map fun d => amountOf d.funds denom).sum

variable {H : Hashing}

theorem map_fst_zip_eq_take {α β : Type} : ∀ (as : List α)
    (bs : List β), (as.zip bs).map Prod.fst = as.take bs.length
  | [], _ => by simp
  | _ :: _, [] => rfl
  | a :: as, b :: bs => congrArg (a :: ·) (map_fst_zip_eq_take as bs)

theorem receiptsKey_inj (hH : H.CollisionFree) {ps qs : List Packet} :
    receiptsKey H ps = receiptsKey H qs ↔ ps = qs := by
  simp [receiptsKey, StorePath.key_inj hH, (commitPackets_injective hH).eq_iff]

/-! ## Receiving -/

/-- The packets of a walk that have no receipt when their turn comes. -/
def fresh (H : Hashing) (s : State) : List (Packet × Bytes) → List (Packet × Bytes)
  | [] => []
  | pm :: pms =>
    if (s.commitments (receiptsKey H [pm.1])).isSome then fresh H s pms
    else pm :: fresh H (storeCommit s (receiptsKey H [pm.1]) COMMITMENT_MAGIC) pms

variable {env : Env} {info : MessageInfo}

theorem receive_loop {d : ChannelId} {port relayer : Addr} {intent : Bool} {pms : List (Packet × Bytes)}
    {acc acc' : State × Response} (h : pms.foldlM (receiveOne H env info d port relayer intent)
      acc = .ok acc') :
    acc'.2.messages = acc.2.messages ++
        (fresh H acc.1 pms).map (fun pm => (receiveOutput H info d port relayer intent pm.1 pm.2).2) ∧
      ∀ k, (acc'.1.commitments k).isSome ↔
        (acc.1.commitments k).isSome ∨ k ∈ pms.map fun pm => receiptsKey H [pm.1] := by
  induction pms generalizing acc with
  | nil =>
    cases h
    simp [fresh]
  | cons pm pms ih =>
    obtain ⟨mid, hone, hrest⟩ := bind_eq_ok.mp h
    obtain ⟨hmsgs, hreceipts⟩ := ih hrest
    simp only [receiveOne, bind_eq_ok, require_eq_ok] at hone
    obtain ⟨_, -, _, -, hone⟩ := hone
    unfold setPacketReceive readCommit at hone
    by_cases hrecv : (acc.1.commitments (receiptsKey H [pm.1])).isSome
    · rw [if_pos hrecv] at hone
      obtain rfl := pure_eq_ok.mp hone
      rw [fresh, if_pos hrecv]
      refine ⟨hmsgs, fun k => ?_⟩
      rw [hreceipts, map_cons, mem_cons]
      constructor
      · rintro (hk | hk)
        · exact .inl hk
        · exact .inr (.inr hk)
      · rintro (hk | rfl | hk)
        · exact .inl hk
        · exact .inl hrecv
        · exact .inr hk
    · rw [if_neg hrecv] at hone
      obtain rfl := pure_eq_ok.mp hone
      rw [fresh, if_neg hrecv]
      refine ⟨by rw [hmsgs, map_cons, append_assoc]; rfl, fun k => ?_⟩
      rw [hreceipts, map_cons, mem_cons]
      by_cases hk : k = receiptsKey H [pm.1]
      · subst hk
        simp [storeCommit]
      · simp [storeCommit, hk]

theorem fresh_keys (pms : List (Packet × Bytes)) (s : State) :
    ((fresh H s pms).map fun pm => receiptsKey H [pm.1]).Nodup ∧
      ∀ k, k ∈ (fresh H s pms).map (fun pm => receiptsKey H [pm.1]) ↔
        s.commitments k = none ∧ k ∈ pms.map fun pm => receiptsKey H [pm.1] := by
  induction pms generalizing s with
  | nil => simp [fresh]
  | cons pm pms ih =>
    rw [fresh]
    by_cases hrecv : (s.commitments (receiptsKey H [pm.1])).isSome
    · rw [if_pos hrecv]
      obtain ⟨hnodup, hmem⟩ := ih s
      refine ⟨hnodup, fun k => ?_⟩
      rw [hmem, map_cons, mem_cons]
      refine and_congr_right fun hnone => ⟨.inr, ?_⟩
      rintro (rfl | hk)
      · rw [hnone] at hrecv
        cases hrecv
      · exact hk
    · rw [if_neg hrecv]
      have hnone : s.commitments (receiptsKey H [pm.1]) = none := by simpa using hrecv
      obtain ⟨hnodup, hmem⟩ := ih (storeCommit s (receiptsKey H [pm.1]) COMMITMENT_MAGIC)
      simp only [map_cons, nodup_cons, mem_cons]
      refine ⟨⟨fun hk => ?_, hnodup⟩, fun k => ?_⟩
      · have hstored := ((hmem _).mp hk).1
        simp [storeCommit] at hstored
      · rw [hmem]
        by_cases hk : k = receiptsKey H [pm.1]
        · subst hk
          simp [hnone]
        · simp [storeCommit, hk]

theorem count_fresh (hH : H.CollisionFree) (pms : List (Packet × Bytes)) (s : State) {p : Packet}
    (hnone : s.commitments (receiptsKey H [p]) = none) :
    ((fresh H s pms).map Prod.fst).count p = if p ∈ pms.map Prod.fst then 1 else 0 := by
  obtain ⟨hnodup, hmem⟩ := fresh_keys (H := H) pms s
  have hkeys : ∀ qs : List (Packet × Bytes),
      receiptsKey H [p] ∈ qs.map (fun pm => receiptsKey H [pm.1]) ↔ p ∈ qs.map Prod.fst := by
    intro qs
    constructor
    · intro hk
      obtain ⟨pm, hpm, hkey⟩ := List.mem_map.mp hk
      have hsame := (receiptsKey_inj hH).mp hkey
      simp only [List.cons.injEq, and_true] at hsame
      exact List.mem_map.mpr ⟨pm, hpm, hsame⟩
    · intro hp
      obtain ⟨pm, hpm, rfl⟩ := List.mem_map.mp hp
      exact List.mem_map.mpr ⟨pm, hpm, rfl⟩
  have hpackets : ((fresh H s pms).map Prod.fst).Nodup := by
    have hcomp : (fresh H s pms).map (fun pm => receiptsKey H [pm.1]) =
        ((fresh H s pms).map Prod.fst).map fun q => receiptsKey H [q] := by
      rw [map_map]
      rfl
    rw [hcomp] at hnodup
    exact hnodup.of_map _
  have hfresh : p ∈ (fresh H s pms).map Prod.fst ↔ p ∈ pms.map Prod.fst := by
    rw [← hkeys, hmem, hkeys]
    exact and_iff_right hnone
  split
  · next hp => exact count_eq_one_of_mem hpackets (hfresh.mpr hp)
  · next hp => exact count_eq_zero_of_not_mem fun hmem => hp (hfresh.mp hmem)

theorem processReceive_walk {s s' : State} {r : Response} {packets : List Packet}
    {msgs : List Bytes} {relayer : String} {proof : Bytes} {height : Height} {intent : Bool}
    (h : processReceive H env s info packets msgs relayer proof height intent = .ok (s', r)) :
    ∃ d port, r.messages = (fresh H s (packets.zip msgs)).map
        (fun pm => (receiveOutput H info d port relayer intent pm.1 pm.2).2) ∧
      ∀ k, (s'.commitments k).isSome ↔
        (s.commitments k).isSome ∨ k ∈ (packets.take msgs.length).map fun p => receiptsKey H [p] := by
  simp only [processReceive, bind_eq_ok, addrValidate_eq_ok] at h
  obtain ⟨_, ⟨-, rfl⟩, first, -, _, -, _, -, _, -, port, -, hloop⟩ := h
  obtain ⟨hmsgs, hreceipts⟩ := receive_loop hloop
  refine ⟨first.destinationChannelId, port, hmsgs, fun k => ?_⟩
  rw [hreceipts, ← map_fst_zip_eq_take, map_map]
  rfl

theorem countP_delivers (info : MessageInfo) (d : ChannelId) (port relayer : Addr) (intent : Bool)
    (pms : List (Packet × Bytes)) (p : Packet) :
    (pms.map fun pm => (receiveOutput H info d port relayer intent pm.1 pm.2).2).countP (·.delivers p) =
      (pms.map Prod.fst).count p := by
  rw [countP_map, List.count, countP_map]
  congr 1
  funext pm
  cases intent
  · rfl
  · rfl

/-! ## Acknowledging -/

theorem acknowledge_loop {c : ChannelId} {port relayer : Addr} {pas : List (Packet × Bytes)}
    {acc acc' : State × Response} (h : pas.foldlM (acknowledgeOne H info c port relayer) acc = .ok acc') :
    acc'.2.messages = acc.2.messages ++
        pas.map (fun pa => ⟨port, .onAcknowledgementPacket info.sender pa.1 pa.2 relayer, []⟩) ∧
      (∀ k, acc.1.commitments k = some COMMITMENT_MAGIC_ACK →
        acc'.1.commitments k = some COMMITMENT_MAGIC_ACK) ∧
      (∀ pa ∈ pas, acc.1.commitments (packetsKey H [pa.1]) = some COMMITMENT_MAGIC ∧
        acc'.1.commitments (packetsKey H [pa.1]) = some COMMITMENT_MAGIC_ACK) ∧
      (pas.map Prod.fst).Nodup := by
  induction pas generalizing acc with
  | nil =>
    cases h
    simp
  | cons pa pas ih =>
    obtain ⟨mid, hone, hrest⟩ := bind_eq_ok.mp h
    obtain ⟨hmsgs, hkept, hmarked, hnodup⟩ := ih hrest
    simp only [acknowledgeOne, bind_eq_ok, require_eq_ok, pure_eq_ok] at hone
    obtain ⟨_, -, t, hmark, rfl⟩ := hone
    obtain ⟨hcommitted, rfl⟩ := markPacketAsAcknowledged_ok hmark
    have hnew : (storeCommit acc.1 (packetsKey H [pa.1]) COMMITMENT_MAGIC_ACK).commitments
        (packetsKey H [pa.1]) = some COMMITMENT_MAGIC_ACK := update_self ..
    -- a packet that is marked is not marked again
    have hother : ∀ qa ∈ pas, packetsKey H [qa.1] ≠ packetsKey H [pa.1] := by
      intro qa hqa hkey
      have hmagic := (hmarked qa hqa).1
      rw [hkey, hnew] at hmagic
      exact COMMITMENT_MAGIC_ne_ACK (Option.some.inj hmagic).symm
    refine ⟨?_, ?_, ?_, ?_⟩
    · rw [hmsgs, map_cons, append_assoc]
      rfl
    · intro k hk
      apply hkept
      by_cases hsame : k = packetsKey H [pa.1]
      · rw [hsame, hnew]
      · show update acc.1.commitments _ _ k = _
        rw [update_of_ne hsame, hk]
    · intro qa hqa
      rcases List.mem_cons.mp hqa with rfl | hqa
      · exact ⟨hcommitted, hkept _ hnew⟩
      · have hbefore : (storeCommit acc.1 (packetsKey H [pa.1]) COMMITMENT_MAGIC_ACK).commitments
            (packetsKey H [qa.1]) = acc.1.commitments (packetsKey H [qa.1]) := update_of_ne (hother qa hqa) ..
        have hqa' := hmarked qa hqa
        rw [hbefore] at hqa'
        exact hqa'
    · rw [map_cons, nodup_cons]
      refine ⟨fun hmem => ?_, hnodup⟩
      obtain ⟨qa, hqa, heq⟩ := List.mem_map.mp hmem
      exact hother qa hqa (by rw [heq])

theorem acknowledgePacket_walk {s s' : State} {r : Response} {packets : List Packet}
    {acks : List Bytes} {proof : Bytes} {height : Height} {relayer : String}
    (h : acknowledgePacket H env s info packets acks proof height relayer = .ok (s', r)) :
    ∃ port, r.messages = (packets.zip acks).map
        (fun pa => ⟨port, .onAcknowledgementPacket info.sender pa.1 pa.2 relayer, []⟩) ∧
      (∀ p ∈ packets.take acks.length, s'.commitments (packetsKey H [p]) = some COMMITMENT_MAGIC_ACK) ∧
      (packets.take acks.length).Nodup := by
  simp only [acknowledgePacket, bind_eq_ok, addrValidate_eq_ok] at h
  obtain ⟨_, ⟨-, rfl⟩, first, -, _, -, _, -, _, -, _, -, port, -, hloop⟩ := h
  obtain ⟨hmsgs, -, hmarked, hnodup⟩ := acknowledge_loop hloop
  rw [map_fst_zip_eq_take] at hnodup
  refine ⟨port, hmsgs, fun p hp => ?_, hnodup⟩
  rw [← map_fst_zip_eq_take] at hp
  obtain ⟨pa, hpa, rfl⟩ := List.mem_map.mp hp
  exact (hmarked pa hpa).2

/-! ## Whole batches -/

/-- Every packet has a receipt in the end, and was delivered once if it had none before. -/
def ReceivesAll (H : Hashing) (s s' : State) (packets : List Packet) (messages : List Dispatch) : Prop :=
  ∀ p ∈ packets, (s'.commitments (receiptsKey H [p])).isSome ∧
    (s.commitments (receiptsKey H [p]) = none → messages.countP (·.delivers p) = 1)

/-- Every packet is marked in the end, and its acknowledgement was delivered once. -/
def AcknowledgesAll (H : Hashing) (s' : State) (packets : List Packet) (messages : List Dispatch) : Prop :=
  ∀ p ∈ packets, s'.commitments (packetsKey H [p]) = some COMMITMENT_MAGIC_ACK ∧
    messages.countP (·.acknowledges p) = 1

/-- **The packets past the end of the shorter list are skipped.**  A message that is accepted
handles its whole batch exactly when each of them is also before that end or, for a receipt, had
arrived already. -/
theorem batch_complete_iff (hH : H.CollisionFree) (env : Env) (s s' : State) (r : Response)
    (info : MessageInfo)
    (packets : List Packet) (companions : List Bytes) (relayer : String) (proof : Bytes) (height : Height) :
    (∀ intent, processReceive H env s info packets companions relayer proof height intent = .ok (s', r) →
      (ReceivesAll H s s' packets r.messages ↔ ∀ p ∈ packets.drop companions.length,
        (s.commitments (receiptsKey H [p])).isSome ∨ p ∈ packets.take companions.length)) ∧
    (acknowledgePacket H env s info packets companions proof height relayer = .ok (s', r) →
      (AcknowledgesAll H s' packets r.messages ↔
        ∀ p ∈ packets.drop companions.length, p ∈ packets.take companions.length)) := by
  have hsplit : ∀ p ∈ packets, p ∈ packets.take companions.length ∨ p ∈ packets.drop companions.length := by
    intro p hp
    rwa [← mem_append, take_append_drop]
  constructor
  · intro intent h
    obtain ⟨d, port, hmsgs, hreceipts⟩ := processReceive_walk h
    have hcount : ∀ p, s.commitments (receiptsKey H [p]) = none →
        r.messages.countP (·.delivers p) = if p ∈ packets.take companions.length then 1 else 0 := by
      intro p hnone
      rw [hmsgs, countP_delivers, count_fresh hH _ _ hnone, map_fst_zip_eq_take]
    constructor
    · intro hall p hp
      obtain ⟨-, honce⟩ := hall p (mem_of_mem_drop hp)
      cases hbefore : s.commitments (receiptsKey H [p]) with
      | some v => exact .inl rfl
      | none =>
        refine .inr ?_
        by_contra hnot
        have hdelivered := honce hbefore
        rw [hcount p hbefore, if_neg hnot] at hdelivered
        cases hdelivered
    · intro hrest p hp
      have hplace : (s.commitments (receiptsKey H [p])).isSome ∨ p ∈ packets.take companions.length := by
        rcases hsplit p hp with hp | hp
        · exact .inr hp
        · exact hrest p hp
      constructor
      · refine (hreceipts _).mpr ?_
        rcases hplace with hbefore | htake
        · exact .inl hbefore
        · exact .inr (List.mem_map.mpr ⟨p, htake, rfl⟩)
      · intro hnone
        rcases hplace with hbefore | htake
        · rw [hnone] at hbefore
          cases hbefore
        · rw [hcount p hnone, if_pos htake]
  · intro h
    obtain ⟨port, hmsgs, hmarked, hnodup⟩ := acknowledgePacket_walk h
    have hcount : ∀ p, r.messages.countP (·.acknowledges p) = (packets.take companions.length).count p := by
      intro p
      rw [hmsgs, countP_map, ← map_fst_zip_eq_take, List.count, countP_map]
      rfl
    constructor
    · intro hall p hp
      obtain ⟨-, honce⟩ := hall p (mem_of_mem_drop hp)
      rw [hcount] at honce
      exact List.count_pos_iff.mp (by omega)
    · intro hrest p hp
      have htake : p ∈ packets.take companions.length := by
        rcases hsplit p hp with hp | hp
        · exact hp
        · exact hrest p hp
      refine ⟨hmarked p htake, ?_⟩
      rw [hcount]
      exact count_eq_one_of_mem hnodup htake

/-! ## The funds -/

/-- The keys of the packets that a walk past `n` packets delivers. -/
def newlyReceived (H : Hashing) (s : State) (packets : List Packet) (n : Nat) : List H256 :=
  (((packets.take n).map fun p => receiptsKey H [p]).filter fun k => (s.commitments k).isNone).dedup

theorem fresh_length (s : State) (packets : List Packet) (msgs : List Bytes) :
    (fresh H s (packets.zip msgs)).length = (newlyReceived H s packets msgs.length).length := by
  obtain ⟨hnodup, hmem⟩ := fresh_keys (H := H) (packets.zip msgs) s
  have hkeys : (packets.zip msgs).map (fun pm => receiptsKey H [pm.1]) =
      (packets.take msgs.length).map fun p => receiptsKey H [p] := by
    rw [← map_fst_zip_eq_take, map_map]
    rfl
  have hperm : ((fresh H s (packets.zip msgs)).map fun pm => receiptsKey H [pm.1]).Perm
      (newlyReceived H s packets msgs.length) := by
    refine (perm_ext_iff_of_nodup hnodup (nodup_dedup _)).mpr fun k => ?_
    rw [hmem, hkeys, mem_dedup, mem_filter, and_comm, Option.isNone_iff_eq_none]
  rw [← hperm.length_eq, length_map]

theorem attached_receive (info : MessageInfo) (d : ChannelId) (port relayer : Addr) (intent : Bool)
    (pms : List (Packet × Bytes)) (denom : String) :
    attached (pms.map fun pm => (receiveOutput H info d port relayer intent pm.1 pm.2).2) denom =
      if intent then 0 else pms.length * amountOf info.funds denom := by
  induction pms with
  | nil => cases intent <;> simp [attached]
  | cons pm pms ih =>
    unfold attached at ih ⊢
    rw [map_cons, map_cons, sum_cons, ih]
    cases intent
    · show amountOf info.funds denom + pms.length * amountOf info.funds denom = _
      rw [length_cons, Nat.succ_mul, Nat.add_comm]
      rfl
    · rfl

/-- **Funds are passed on once for every packet that is delivered with a proof, and not at all for
    an intent.** -/
theorem funds_conserved_iff (env : Env) (s s' : State) (r : Response) (info : MessageInfo)
    (packets : List Packet)
    (msgs : List Bytes) (relayer : String) (proof : Bytes) (height : Height) (intent : Bool)
    (h : processReceive H env s info packets msgs relayer proof height intent = .ok (s', r)) :
    (∀ denom, attached r.messages denom = amountOf info.funds denom) ↔
      (∀ denom, amountOf info.funds denom = 0) ∨
        intent = false ∧ (newlyReceived H s packets msgs.length).length = 1 := by
  obtain ⟨d, port, hmsgs, -⟩ := processReceive_walk h
  rw [hmsgs, ← fresh_length]
  simp only [attached_receive]
  cases intent with
  | true =>
    simp only [if_true, Bool.true_eq_false, false_and, or_false]
    exact forall_congr' fun denom => eq_comm
  | false =>
    simp only [Bool.false_eq_true, if_false, true_and]
    generalize (fresh H s (packets.zip msgs)).length = n
    constructor
    · intro hall
      by_cases hn : n = 1
      · exact .inr hn
      · refine .inl fun denom => ?_
        have hdenom := hall denom
        by_contra hne
        exact hn (Nat.eq_of_mul_eq_mul_right (Nat.pos_of_ne_zero hne) (by rw [hdenom, Nat.one_mul]))
    · rintro (hnone | rfl) denom
      · rw [hnone, Nat.mul_zero]
      · rw [Nat.one_mul]

/-! ## Two packets and one message -/

namespace BatchSample

def packet (data : Bytes) : Packet := ⟨⟨.one⟩, ⟨.one⟩, data, .mustBeZero, 9⟩

def pair : List Packet := [packet [1], packet [2]]

/-- One channel, open, of the app `app`. -/
def opened : State :=
  { State.init with
    connections := fun _ => some ⟨.open, ⟨.one⟩, ⟨.one⟩, none⟩
    channels := fun _ => some ⟨.open, ⟨.one⟩, some ⟨.one⟩, [], "v"⟩
    channelOwner := fun _ => some "app"
    clientImpls := fun _ => some "client" }

/-- Both packets were sent. -/
def sent : State :=
  storeCommit (storeCommit opened (packetsKey .ideal [packet [1]]) COMMITMENT_MAGIC)
    (packetsKey .ideal [packet [2]]) COMMITMENT_MAGIC

def relayed : MessageInfo := ⟨"relayer", [⟨"muno", 5⟩]⟩

/-- What the two packets make of the state, with these messages of the relayer. -/
def received (msgs : List Bytes) : Result (State × Response) :=
  processReceive .ideal (.permissive .accepting) opened relayed pair msgs "relayer" [] 1 false

def acked (acks : List Bytes) : Result (State × Response) :=
  acknowledgePacket .ideal (.permissive .accepting) sent relayed pair acks [] 1 "relayer"

/-- How often each packet was delivered, and whether it has a receipt. -/
def deliveries (out : Result (State × Response)) : Option (List (Nat × Bool)) :=
  out.toOption.map fun (s, r) => pair.map fun p =>
    (r.messages.countP (·.delivers p), (s.commitments (receiptsKey .ideal [p])).isSome)

def acknowledgements (out : Result (State × Response)) : Option (List (Nat × Option H256)) :=
  out.toOption.map fun (s, r) => pair.map fun p =>
    (r.messages.countP (·.acknowledges p), s.commitments (packetsKey .ideal [p]))

def passedOn (out : Result (State × Response)) : Option Nat := out.toOption.map fun (_, r) =>
    attached r.messages "muno"

theorem second_not_received : opened.commitments (receiptsKey .ideal [packet [2]]) = none := rfl

end BatchSample

open BatchSample in
theorem batch_complete_pair :
      (∃ s' r, received [[]] = .ok (s', r) ∧ ¬ ReceivesAll .ideal opened s' pair r.messages) ∧
      (∃ s' r, received [[], []] = .ok (s', r) ∧ ReceivesAll .ideal opened s' pair r.messages) ∧
      ∃ s' r, acked [[1]] = .ok (s', r) ∧ ¬ AcknowledgesAll .ideal s' pair r.messages := by
  obtain ⟨⟨s₁, r₁⟩, h₁⟩ := exists_ok_of_isSome (x := received [[]]) (by decide)
  obtain ⟨⟨s₂, r₂⟩, h₂⟩ := exists_ok_of_isSome (x := received [[], []]) (by decide +kernel)
  obtain ⟨⟨s₃, r₃⟩, h₃⟩ := exists_ok_of_isSome (x := acked [[1]]) (by decide +kernel)
  refine ⟨⟨s₁, r₁, h₁, ?_⟩, ⟨s₂, r₂, h₂, ?_⟩, s₃, r₃, h₃, ?_⟩
  · rw [(batch_complete_iff Hashing.ideal_collisionFree ..).1 _ h₁]
    intro hall
    rcases hall (packet [2]) (by decide) with hsome | htake
    · rw [second_not_received] at hsome
      cases hsome
    · exact absurd htake (by decide)
  · rw [(batch_complete_iff Hashing.ideal_collisionFree ..).1 _ h₂]
    intro p hp
    cases hp
  · rw [(batch_complete_iff Hashing.ideal_collisionFree ..).2 h₃]
    intro hall
    exact absurd (hall (packet [2]) (by decide)) (by decide)

open BatchSample in
/-- **With one message, or one acknowledgement, the second packet of a proven batch is skipped.** -/
theorem second_packet_skipped : deliveries (received [[]]) = some [(1, true), (0, false)] ∧
      acknowledgements (acked [[1]]) = some [(1, some COMMITMENT_MAGIC_ACK), (0, some COMMITMENT_MAGIC)] := by
  decide +kernel

open BatchSample in
theorem funds_conserved_pair :
    (∃ s' r, received [[], []] = .ok (s', r) ∧
      ¬ ∀ denom, attached r.messages denom = amountOf relayed.funds denom) ∧
      ∃ s' r, received [[]] = .ok (s', r) ∧ ∀ denom,
        attached r.messages denom = amountOf relayed.funds denom := by
  obtain ⟨⟨s₁, r₁⟩, h₁⟩ := exists_ok_of_isSome (x := received [[], []]) (by decide +kernel)
  obtain ⟨⟨s₂, r₂⟩, h₂⟩ := exists_ok_of_isSome (x := received [[]]) (by decide)
  refine ⟨⟨s₁, r₁, h₁, ?_⟩, s₂, r₂, h₂, ?_⟩
  · rw [funds_conserved_iff _ _ _ _ _ _ _ _ _ _ _ h₁]
    rintro (hnone | ⟨-, hone⟩)
    · exact absurd (hnone "muno") (by decide)
    · exact absurd hone (by decide +kernel)
  · rw [funds_conserved_iff _ _ _ _ _ _ _ _ _ _ _ h₂]
    exact .inr ⟨rfl, by decide⟩

open BatchSample in
/-- **Two packets received with five tokens pass on ten.** -/
theorem funds_passed_on_twice : amountOf relayed.funds "muno" = 5 ∧
      passedOn (received [[], []]) = some 10 := by
  decide +kernel

end UnionVoyager.Core
