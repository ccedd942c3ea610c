import UnionVoyager.Core.WellFormed

/-!
# How connections and channels change

* `effect_evolves`, `run_evolves` — **messages move connections and channels along these orders**,
  and no owner changes.
* `run_ownersAgree` — the two indices of the owners agree.
-/

namespace UnionVoyager.Core

open Lib Function

/-- How a connection can change. -/
structure Connection.Le (c c' : Connection) : Prop where
  clientId : c'.clientId = c.clientId
  counterpartyClientId : c'.counterpartyClientId = c.counterpartyClientId
  settled : c.state ≠ .init →
    c'.state ≠ .init ∧ c'.counterpartyConnectionId = c.counterpartyConnectionId
  opened : c.state = .open → c'.state = .open

theorem Connection.Le.refl (c : Connection) : c.Le c := ⟨rfl, rfl, fun h => ⟨h, rfl⟩, id⟩

theorem Connection.Le.trans {a b c : Connection} (h : a.Le b) (h' : b.Le c) : a.Le c where
  clientId := h'.clientId.trans h.clientId
  counterpartyClientId := h'.counterpartyClientId.trans h.counterpartyClientId
  settled ha := by
    obtain ⟨hb, hab⟩ := h.settled ha
    obtain ⟨hc, hbc⟩ := h'.settled hb
    exact ⟨hc, hbc.trans hab⟩
  opened := h'.opened ∘ h.opened

def Channel.Opened (c : Channel) : Prop := c.state = .open ∨ c.state = .closed

/-- How a channel can change. -/
structure Channel.Le (c c' : Channel) : Prop where
  connectionId : c'.connectionId = c.connectionId
  counterpartyPortId : c'.counterpartyPortId = c.counterpartyPortId
  settled : c.state ≠ .init → c'.state ≠ .init ∧
    c'.counterpartyChannelId = c.counterpartyChannelId ∧ c'.version = c.version
  opened : c.Opened → c'.Opened

theorem Channel.Le.refl (c : Channel) : c.Le c := ⟨rfl, rfl, fun h => ⟨h, rfl, rfl⟩, id⟩

theorem Channel.Le.trans {a b c : Channel} (h : a.Le b) (h' : b.Le c) : a.Le c where
  connectionId := h'.connectionId.trans h.connectionId
  counterpartyPortId := h'.counterpartyPortId.trans h.counterpartyPortId
  settled ha := by
    obtain ⟨hb, hab, vab⟩ := h.settled ha
    obtain ⟨hc, hbc, vbc⟩ := h'.settled hb
    exact ⟨hc, hbc.trans hab, vbc.trans vab⟩
  opened := h'.opened ∘ h.opened

/-- Connections, channels and owners move along their orders. -/
structure Evolves (s s' : State) : Prop where
  connection : ∀ i c, s.connections i = some c → ∃ c', s'.connections i = some c' ∧ c.Le c'
  channel : ∀ i c, s.channels i = some c → ∃ c', s'.channels i = some c' ∧ c.Le c'
  owner : ∀ i a, s.channelOwner i = some a → s'.channelOwner i = some a

theorem Evolves.refl (s : State) : Evolves s s where
  connection _ c h := ⟨c, h, .refl c⟩
  channel _ c h := ⟨c, h, .refl c⟩
  owner _ _ h := h

theorem Evolves.of_eq {s s' : State} (hc : s'.connections = s.connections)
    (hd : s'.channels = s.channels) (ho : s'.channelOwner = s.channelOwner) : Evolves s s' where
  connection i c h := ⟨c, by rw [hc, h], .refl c⟩
  channel i c h := ⟨c, by rw [hd, h], .refl c⟩
  owner i a h := by rw [ho, h]

theorem Evolves.trans {a b c : State} (h : Evolves a b) (h' : Evolves b c) : Evolves a c where
  connection i x hx := by
    obtain ⟨y, hy, hxy⟩ := h.connection i x hx
    obtain ⟨z, hz, hyz⟩ := h'.connection i y hy
    exact ⟨z, hz, hxy.trans hyz⟩
  channel i x hx := by
    obtain ⟨y, hy, hxy⟩ := h.channel i x hx
    obtain ⟨z, hz, hyz⟩ := h'.channel i y hy
    exact ⟨z, hz, hxy.trans hyz⟩
  owner i a ha := h'.owner i a (h.owner i a ha)

variable {H : Hashing} {env : Env} {info : MessageInfo} {s s' : State} {msgs : List Dispatch}

theorem evolves_update {α β : Type} [DecidableEq α] {f : α → Option β} {le : β → β → Prop}
    (hrefl : ∀ b, le b b) {a : α} {b : β} (hab : ∀ old, f a = some old → le old b) (i : α) (c : β)
    (hc : f i = some c) : ∃ c', update f a (some b) i = some c' ∧ le c c' := by
  by_cases hi : i = a
  · subst hi
    exact ⟨b, update_self .., hab c hc⟩
  · exact ⟨c, by rw [update_of_ne hi, hc], hrefl c⟩

theorem Evolves.saveConnection {i : ConnectionId} {old c : Connection}
    (hold : s.connections i = some old) (hle : old.Le c) : Evolves s (saveConnection H s i c) where
  connection := evolves_update Connection.Le.refl fun old' h => by
    rw [hold] at h
    cases h
    exact hle
  channel _ d h := ⟨d, h, .refl d⟩
  owner _ _ h := h

theorem Evolves.saveChannel {i : ChannelId} {old c : Channel} (hold : s.channels i = some old)
    (hle : old.Le c) : Evolves s (saveChannel H s i c) where
  connection _ d h := ⟨d, h, .refl d⟩
  channel := evolves_update Channel.Le.refl fun old' h => by
    rw [hold] at h
    cases h
    exact hle
  owner _ _ h := h

theorem WellFormed.connection_fresh (h : WellFormed s) : s.connections s.nextConnectionId = none := by
  by_contra hne
  exact Nat.lt_irrefl _ (h.connection_lt _ (Option.ne_none_iff_isSome.mp hne))

theorem WellFormed.channel_fresh (h : WellFormed s) : s.channels s.nextChannelId = none := by
  by_contra hne
  exact Nat.lt_irrefl _ (h.channel_lt _ (Option.ne_none_iff_isSome.mp hne))

theorem WellFormed.owner_fresh (h : WellFormed s) : s.channelOwner s.nextChannelId = none := by
  by_contra hne
  exact Nat.lt_irrefl _ (h.owner_lt _ (Option.ne_none_iff_isSome.mp hne))

theorem Evolves.addConnection (hwf : WellFormed s) (n : ConnectionId) (c : Connection) :
    Evolves s (s.addConnection H n c) where
  connection := evolves_update Connection.Le.refl fun old h => by
    rw [hwf.connection_fresh] at h
    cases h
  channel _ d h := ⟨d, h, .refl d⟩
  owner _ _ h := h

theorem Evolves.addChannel (hwf : WellFormed s) (n : ChannelId) (owner : Addr) (c : Channel) :
    Evolves s (s.addChannel H n owner c) where
  connection _ d h := ⟨d, h, .refl d⟩
  channel := evolves_update Channel.Le.refl fun old h => by
    rw [hwf.channel_fresh] at h
    cases h
  owner i a h := by
    have hne : i ≠ s.nextChannelId := by
      rintro rfl
      rw [hwf.owner_fresh] at h
      cases h
    exact (update_of_ne hne ..).trans h

theorem receive_same {ps : List Packet} {d : ChannelId} {port relayer : Addr} {intent : Bool}
    (hL : Loop (ReceiveStep H env info ps d port relayer intent) s msgs s') :
    s'.connections = s.connections ∧ s'.channels = s.channels ∧
      s'.channelOwner = s.channelOwner := by
  refine hL.state_invariant (I := fun t => t.connections = s.connections ∧
    t.channels = s.channels ∧ t.channelOwner = s.channelOwner) (fun t o t' ht hR => ?_) ⟨rfl, rfl, rfl⟩
  cases hR with
  | already | fresh => exact ht

theorem acknowledge_same {port relayer : Addr}
    (hL : Loop (AcknowledgeStep H info port relayer) s msgs s') :
    s'.connections = s.connections ∧ s'.channels = s.channels ∧
      s'.channelOwner = s.channelOwner := by
  refine hL.state_invariant (I := fun t => t.connections = s.connections ∧
    t.channels = s.channels ∧ t.channelOwner = s.channelOwner) (fun t o t' ht hR => ?_) ⟨rfl, rfl, rfl⟩
  cases hR
  exact ht

theorem effect_evolves (hwf : WellFormed s) {m : ExecuteMsg} (he : Effect H env info s m s' msgs) :
    Evolves s s' := by
  cases he with
  | delayed => exact .refl s
  | client hf => exact .of_eq hf.frame.connections hf.frame.channels hf.frame.channelOwner
  | membershipProof | nonMembershipProof | send | batchSend | batchAcks | writeAcknowledgement | timeout =>
    exact .of_eq rfl rfl rfl
  | connectionOpenInit | connectionOpenTry => exact .addConnection hwf _ _
  | connectionOpenAck hc hs _ =>
    refine .saveConnection hc ⟨rfl, rfl, fun h => absurd hs h, fun _ => rfl⟩
  | connectionOpenConfirm hc hs _ _ =>
    refine .saveConnection hc ⟨rfl, rfl, fun _ => ⟨by simp, rfl⟩, fun _ => rfl⟩
  | channelOpenInit | channelOpenTry => exact .addChannel hwf _ _ _
  | channelOpenAck hch hs =>
    refine .saveChannel hch ⟨rfl, rfl, fun h => absurd hs h, fun _ => .inl rfl⟩
  | channelOpenConfirm hch hs =>
    refine .saveChannel hch ⟨rfl, rfl, fun _ => ⟨by simp, rfl, rfl⟩, fun _ => .inl rfl⟩
  | channelCloseInit hch hs =>
    refine .saveChannel hch ⟨rfl, rfl, fun _ => ⟨by simp, rfl, rfl⟩, fun _ => .inr rfl⟩
  | channelCloseConfirm hch hs =>
    refine .saveChannel hch ⟨rfl, rfl, fun _ => ⟨by simp, rfl, rfl⟩, fun _ => .inr rfl⟩
  | receive _ _ _ _ _ hL =>
    obtain ⟨h1, h2, h3⟩ := receive_same hL
    exact .of_eq h1 h2 h3
  | acknowledge hL =>
    obtain ⟨h1, h2, h3⟩ := acknowledge_same hL
    exact .of_eq h1 h2 h3

/-! ## Runs -/

/-- **No message, forced or not, takes a handshake back, and no channel changes its owner.** -/
theorem run_evolves (H : Hashing) (past rest : List Input) :
    Evolves (run H .init past) (run H .init (past ++ rest)) := by
  unfold run
  rw [Machine.run_append]
  have h : WellFormed (run H (run H .init past) rest) ∧
      Evolves (run H .init past) (run H (run H .init past) rest) := by
    refine Machine.state_invariant (I := fun t => WellFormed t ∧ Evolves (run H .init past) t) ?_
      ⟨run_wellFormed past, .refl _⟩ rest
    rintro t i ⟨hwf, hev⟩
    refine ⟨step_wellFormed t i hwf, ?_⟩
    rcases step_cases H t i with he | he
    · rw [he]
      exact hev
    · exact hev.trans (effect_evolves hwf he)
  exact h.2

/-- `contract_channels` is the inverse of `channel_owner`. -/
def OwnersAgree (s : State) : Prop := ∀ a c, c ∈ s.ownedBy a ↔ s.channelOwner c = some a

theorem OwnersAgree.addChannel (hwf : WellFormed s) (h : OwnersAgree s) (n : ChannelId)
    (owner : Addr) (ch : Channel) : OwnersAgree (s.addChannel H n owner ch) := by
  intro a c
  show _ ↔ update s.channelOwner s.nextChannelId (some owner) c = some a
  have hfresh : s.nextChannelId ∉ s.ownedBy a := fun hmem => absurd (hwf.owned_lt a _ hmem) (Nat.lt_irrefl _)
  rw [ownedBy_addChannel]
  by_cases hc : c = s.nextChannelId
  · subst hc
    rw [update_self, Option.some.injEq]
    by_cases ha : a = owner
    · simp [ha]
    · simp [ha, hfresh, Ne.symm ha]
  · rw [update_of_ne hc, ← h]
    by_cases ha : a = owner
    · simp [ha, hc]
    · simp [ha]

theorem effect_ownersAgree (hwf : WellFormed s) {m : ExecuteMsg}
    (he : Effect H env info s m s' msgs) (h : OwnersAgree s) : OwnersAgree s' := by
  cases he with
  | client hf =>
    intro a c
    rw [State.ownedBy, hf.frame.contractChannels, hf.frame.channelOwner]
    exact h a c
  | channelOpenInit | channelOpenTry => exact h.addChannel hwf _ _ _
  | receive _ _ _ _ _ hL =>
    refine hL.state_invariant (I := OwnersAgree) (fun t o t' ht hR => ?_) h
    cases hR with
    | already | fresh => exact ht
  | acknowledge hL =>
    refine hL.state_invariant (I := OwnersAgree) (fun t o t' ht hR => ?_) h
    cases hR
    exact ht
  | _ => exact h

/-- **Both indices of the owners agree in every reachable storage.** -/
theorem run_ownersAgree (H : Hashing) (is : List Input) : OwnersAgree (run H .init is) := by
  have h : WellFormed (run H .init is) ∧ OwnersAgree (run H .init is) := by
    refine Machine.state_invariant (I := fun t => WellFormed t ∧ OwnersAgree t) ?_ ⟨init_wellFormed, ?_⟩ is
    · rintro t i ⟨hwf, hown⟩
      refine ⟨step_wellFormed t i hwf, ?_⟩
      rcases step_cases H t i with he | he
      · rw [he]
        exact hown
      · exact effect_ownersAgree hwf he hown
    · intro a c
      simp [State.ownedBy, State.init]
  exact h.2

end UnionVoyager.Core
