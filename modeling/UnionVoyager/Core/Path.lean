import UnionVoyager.Core.Types

/-!
# Commitment values and store paths

`ibc-union-spec/src/path.rs`, the tokenisers of `types/*.rs` and the commitment helpers at the end
of `cosmwasm/core/src/contract.rs`.

`keccak256`, the token encoder of `alloy-sol-types` and the serializer of `serde_json_wasm` are not
in the repository. They are the parameter `Hashing`, the encoder at the four token types the core
encodes and the serializer at packets.

* `StorePath.key_injective` — different paths have different keys.
* `commitConnection_injective`, `commitChannel_injective`, `commitPackets_injective` — a commitment
  determines the value that was committed.
-/

namespace UnionVoyager.Core

open Lib Function

/-- `keccak256`, `abi_encode` at the token tuples of the core types, and the JSON text of a packet. -/
structure Hashing where
  keccak256 : Bytes → H256
  /-- `(uint8, uint32, uint32, uint32)`, as parameters. -/
  abiEncodeConnection : Nat × Nat × Nat × Nat → Bytes
  /-- `(uint8, uint32, uint32, bytes, string)`. -/
  abiEncodeChannel : Nat × Nat × Nat × Bytes × Bytes → Bytes
  /-- `(uint32, uint32, bytes, uint64, uint64)[]`. -/
  abiEncodePackets : List (Nat × Nat × Bytes × Nat × Nat) → Bytes
  /-- `bytes[]`. -/
  abiEncodeAcks : List Bytes → Bytes
  /-- `serde_json_wasm::to_string`, which may fail. -/
  packetToString : Packet → Option Bytes

/-- No packet fails to be serialized. -/
def Hashing.SerializesPackets (H : Hashing) : Prop := ∀ p, (H.packetToString p).isSome = true

/-- No collision of the hash function, and a canonical encoder. -/
structure Hashing.CollisionFree (H : Hashing) : Prop where
  keccak256 : Injective H.keccak256
  connection : Injective H.abiEncodeConnection
  channel : Injective H.abiEncodeChannel
  packets : Injective H.abiEncodePackets
  acks : Injective H.abiEncodeAcks

/-! ## Tokens -/

/-- An optional id is the word `0` when absent (`unwrap_or_default`). -/
def idToken (o : Option NonZeroU32) : Nat := (o.map NonZeroU32.get).getD 0

theorem idToken_injective : Injective idToken := by
  intro a b h
  cases a with
  | none =>
    cases b with
    | none => rfl
    | some b => exact absurd h (by simpa [idToken] using (Nat.ne_of_gt b.pos).symm)
  | some a =>
    cases b with
    | none => exact absurd h (by simpa [idToken] using Nat.ne_of_gt a.pos)
    | some b => exact congrArg some (NonZeroU32.ext h)

/-- `stv_to_tokens` of a connection. -/
def Connection.toTokens (c : Connection) : Nat × Nat × Nat × Nat :=
  (c.state.toU8, c.clientId.raw.get, c.counterpartyClientId.raw.get,
    idToken (c.counterpartyConnectionId.map ConnectionId.raw))

/-- `stv_to_tokens` of a channel. -/
def Channel.toTokens (c : Channel) : Nat × Nat × Nat × Bytes × Bytes :=
  (c.state.toU8, c.connectionId.raw.get, idToken (c.counterpartyChannelId.map ChannelId.raw),
    c.counterpartyPortId, utf8 c.version)

/-- `stv_to_tokens` of a packet; the timeout height is the constant `0`. -/
def Packet.toTokens (p : Packet) : Nat × Nat × Bytes × Nat × Nat :=
  (p.sourceChannelId.raw.get, p.destinationChannelId.raw.get, p.data, 0, p.timeoutTimestamp)

theorem ConnectionState.toU8_injective : Injective ConnectionState.toU8 := by
  intro a b h
  cases a <;> cases b <;> first | rfl | cases h

theorem ChannelState.toU8_injective : Injective ChannelState.toU8 := by
  intro a b h
  cases a <;> cases b <;> first | rfl | cases h

theorem ClientId.raw_injective : Injective ClientId.raw := by
  rintro ⟨_⟩ ⟨_⟩ h
  exact congrArg _ h

theorem ConnectionId.raw_injective : Injective ConnectionId.raw := by
  rintro ⟨_⟩ ⟨_⟩ h
  exact congrArg _ h

theorem ChannelId.raw_injective : Injective ChannelId.raw := by
  rintro ⟨_⟩ ⟨_⟩ h
  exact congrArg _ h

theorem Connection.toTokens_injective : Injective Connection.toTokens := by
  rintro ⟨s, k, ck, cc⟩ ⟨s', k', ck', cc'⟩ h
  simp only [Connection.toTokens, Prod.mk.injEq] at h
  obtain ⟨hs, hk, hck, hcc⟩ := h
  rw [ConnectionState.toU8_injective hs, ClientId.raw_injective (NonZeroU32.ext hk),
    ClientId.raw_injective (NonZeroU32.ext hck),
    Option.map_injective ConnectionId.raw_injective (idToken_injective hcc)]

theorem Channel.toTokens_injective : Injective Channel.toTokens := by
  rintro ⟨s, c, cc, p, v⟩ ⟨s', c', cc', p', v'⟩ h
  simp only [Channel.toTokens, Prod.mk.injEq] at h
  obtain ⟨hs, hc, hcc, hp, hv⟩ := h
  rw [ChannelState.toU8_injective hs, ConnectionId.raw_injective (NonZeroU32.ext hc),
    Option.map_injective ChannelId.raw_injective (idToken_injective hcc), hp, utf8_injective hv]

theorem Packet.toTokens_injective : Injective Packet.toTokens := by
  rintro ⟨s, d, b, ⟨⟩, t⟩ ⟨s', d', b', ⟨⟩, t'⟩ h
  simp only [Packet.toTokens, Prod.mk.injEq] at h
  obtain ⟨hs, hd, hb, -, ht⟩ := h
  rw [ChannelId.raw_injective (NonZeroU32.ext hs), ChannelId.raw_injective (NonZeroU32.ext hd), hb, ht]

/-! ## Commitment values -/

/-- `0x0100…00`: sent, or received and not yet acknowledged. -/
def COMMITMENT_MAGIC : H256 := 1 :: List.replicate 31 0

/-- `0x0200…00`: sent and completed. -/
def COMMITMENT_MAGIC_ACK : H256 := 2 :: List.replicate 31 0

/-- `0x00…01`: a committed non-membership proof. -/
def NON_MEMBERSHIP_COMMITMENT_VALUE : H256 := List.replicate 31 0 ++ [1]

theorem COMMITMENT_MAGIC_ne_ACK : COMMITMENT_MAGIC ≠ COMMITMENT_MAGIC_ACK := by decide

def commit (H : Hashing) (bytes : Bytes) : H256 := H.keccak256 bytes

def commitConnection (H : Hashing) (c : Connection) : H256 := commit H (H.abiEncodeConnection c.toTokens)

def commitChannel (H : Hashing) (c : Channel) : H256 := commit H (H.abiEncodeChannel c.toTokens)

def commitPackets (H : Hashing) (ps : List Packet) : H256 :=
    H.keccak256 (H.abiEncodePackets (ps.map Packet.toTokens))

def Packet.hash (H : Hashing) (p : Packet) : H256 := commitPackets H [p]

/-- The first byte of the digest is overwritten by `1`. -/
def mergeAck (ack : H256) : H256 := ack.set 0 1

def commitAcks (H : Hashing) (acks : List Bytes) : H256 := mergeAck (commit H (H.abiEncodeAcks acks))

def commitAck (H : Hashing) (ack : Bytes) : H256 := commitAcks H [ack]

variable {H : Hashing}

theorem commitConnection_injective (hH : H.CollisionFree) : Injective (commitConnection H) :=
  hH.keccak256.comp (hH.connection.comp Connection.toTokens_injective)

theorem commitChannel_injective (hH : H.CollisionFree) : Injective (commitChannel H) :=
  hH.keccak256.comp (hH.channel.comp Channel.toTokens_injective)

theorem commitPackets_injective (hH : H.CollisionFree) : Injective (commitPackets H) :=
  hH.keccak256.comp (hH.packets.comp (List.map_injective_iff.mpr Packet.toTokens_injective))

/-! ## Paths -/

/-- The nine kinds of path of the provable store. -/
inductive StorePath where
  | clientState (clientId : ClientId)
  | consensusState (clientId : ClientId) (height : Height)
  | connection (connectionId : ConnectionId)
  | channel (channelId : ChannelId)
  | batchReceipts (batchHash : H256)
  | batchPackets (batchHash : H256)
  | membershipProof (clientId : ClientId) (proofHeight : Height) (path : Bytes)
  | nonMembershipProof (clientId : ClientId) (proofHeight : Height) (path : Bytes)
  | batchTimeouts (batchHash : H256)
  deriving DecidableEq

/-- The domain-separating constant of a kind of path (`CLIENT_STATE` … `PACKET_TIMEOUTS`). -/
def StorePath.tag : StorePath → Nat
  | .clientState _ => 0
  | .consensusState _ _ => 1
  | .connection _ => 2
  | .channel _ => 3
  | .batchPackets _ => 4
  | .batchReceipts _ => 5
  | .membershipProof _ _ _ => 6
  | .nonMembershipProof _ _ _ => 7
  | .batchTimeouts _ => 8

/-- `U256::from(n).to_be_bytes()`. -/
@[irreducible] def word (n : Nat) : Bytes := beBytes 32 n

/-- What is hashed after the constant. -/
def StorePath.body : StorePath → Bytes
  | .clientState i => word i.raw.get
  | .consensusState i h => word i.raw.get ++ word h.toNat
  | .connection i => word i.raw.get
  | .channel i => word i.raw.get
  | .batchPackets b => b
  | .batchReceipts b => b
  | .membershipProof i h p => word i.raw.get ++ (word h.toNat ++ p)
  | .nonMembershipProof i h p => word i.raw.get ++ (word h.toNat ++ p)
  | .batchTimeouts b => b

def StorePath.key (H : Hashing) (p : StorePath) : H256 := H.keccak256 (word p.tag ++ p.body)

theorem word_inj {m n : Nat} (hm : m < 2 ^ 64) (hn : n < 2 ^ 64) (h : word m = word n) : m = n := by
  unfold word at h
  exact beBytes_inj 32 (by omega) (by omega) h

theorem word_length (n : Nat) : (word n).length = 32 := by
  unfold word
  exact beBytes_length 32 n

theorem word_id_inj {a b : NonZeroU32} (h : word a.get = word b.get) : a = b :=
  NonZeroU32.ext (word_inj (by have := a.lt; omega) (by have := b.lt; omega) h)

theorem word_height_inj {a b : Height} (h : word a.toNat = word b.toNat) : a = b :=
  UInt64.toNat_inj.mp (word_inj a.toNat_lt b.toNat_lt h)

theorem StorePath.tag_lt (p : StorePath) : p.tag < 2 ^ 64 := by
  cases p <;> simp [StorePath.tag]

theorem StorePath.body_inj {p q : StorePath} (ht : p.tag = q.tag) (hb : p.body = q.body) : p = q := by
  cases p with
  | clientState i =>
    cases q <;> simp [StorePath.tag] at ht
    simp only [StorePath.body] at hb
    rw [ClientId.raw_injective (word_id_inj hb)]
  | consensusState i h =>
    cases q <;> simp [StorePath.tag] at ht
    simp only [StorePath.body] at hb
    obtain ⟨hi, hh⟩ := List.append_inj hb (by rw [word_length, word_length])
    rw [ClientId.raw_injective (word_id_inj hi), word_height_inj hh]
  | connection i =>
    cases q <;> simp [StorePath.tag] at ht
    simp only [StorePath.body] at hb
    rw [ConnectionId.raw_injective (word_id_inj hb)]
  | channel i =>
    cases q <;> simp [StorePath.tag] at ht
    simp only [StorePath.body] at hb
    rw [ChannelId.raw_injective (word_id_inj hb)]
  | batchReceipts | batchPackets | batchTimeouts =>
    cases q <;> simp [StorePath.tag] at ht
    simp only [StorePath.body] at hb
    exact congrArg _ hb
  | membershipProof | nonMembershipProof =>
    cases q <;> simp [StorePath.tag] at ht
    simp only [StorePath.body] at hb
    obtain ⟨hi, hr⟩ := List.append_inj hb (by rw [word_length, word_length])
    obtain ⟨hh, hp⟩ := List.append_inj hr (by rw [word_length, word_length])
    rw [ClientId.raw_injective (word_id_inj hi), word_height_inj hh, hp]

theorem StorePath.key_injective_of (hkeccak : Injective H.keccak256) : Injective (StorePath.key H) := by
  intro p q h
  obtain ⟨ht, hb⟩ := List.append_inj (hkeccak h) (by rw [word_length, word_length])
  exact StorePath.body_inj (word_inj p.tag_lt q.tag_lt ht) hb

theorem StorePath.key_injective (hH : H.CollisionFree) : Injective (StorePath.key H) :=
  StorePath.key_injective_of hH.keccak256

theorem StorePath.key_inj (hH : H.CollisionFree) {p q : StorePath} : p.key H = q.key H ↔ p = q :=
  (StorePath.key_injective hH).eq_iff

/-- `BatchPacketsPath::from_packets(ps).key()`: where the sender commits to `ps`. -/
def packetsKey (H : Hashing) (ps : List Packet) : H256 := (StorePath.batchPackets (commitPackets H ps)).key H

/-- `BatchReceiptsPath::from_packets(ps).key()`: where the receiver commits to `ps`. -/
def receiptsKey (H : Hashing) (ps : List Packet) : H256 :=
    (StorePath.batchReceipts (commitPackets H ps)).key H

theorem packetsKey_inj (hH : H.CollisionFree) {ps qs : List Packet} :
    packetsKey H ps = packetsKey H qs ↔ ps = qs := by
  simp [packetsKey, StorePath.key_inj hH, (commitPackets_injective hH).eq_iff]

/-! ## Concrete parameters

A `Hashing` that computes and has no collisions: the digest is the preimage itself, and the token encoder is
self-delimiting.  It shows that `Hashing.CollisionFree` can be met. -/

/-- The JSON text of a packet, from the texts of its fields. -/
def packetText (source destination data height timestamp : Bytes) : Bytes :=
  utf8 "\x7b\"source_channel_id\":" ++ source ++ utf8 ",\"destination_channel_id\":" ++ destination ++
    utf8 ",\"data\":" ++ data ++ utf8 ",\"timeout_height\":" ++ height ++
    utf8 ",\"timeout_timestamp\":" ++ timestamp ++ utf8 "\x7d"

/-- `Bytes` as `0x` and hexadecimal digits, in quotes. -/
def hexText (b : Bytes) : Bytes :=
  utf8 "\"0x" ++ b.flatMap (fun x =>
    utf8 (String.ofList [Nat.digitChar (x.toNat / 16), Nat.digitChar (x.toNat % 16)])) ++ utf8 "\""

def Packet.toJson (p : Packet) : Bytes :=
  packetText (utf8 (toString p.sourceChannelId.raw.get)) (utf8 (toString p.destinationChannelId.raw.get))
    (hexText p.data) (utf8 "0") (utf8 (toString p.timeoutTimestamp))

def Hashing.ideal : Hashing where
  keccak256 b := b
  abiEncodeConnection := encPair encNat (encPair encNat (encPair encNat encNat))
  abiEncodeChannel := encPair encNat (encPair encNat (encPair encNat (encPair encBytes encBytes)))
  -- like the real encoding of an array, it begins with the offset of the elements
  abiEncodePackets ps := word 32 ++
    encList (encPair encNat (encPair encNat (encPair encBytes (encPair encNat encNat)))) ps
  abiEncodeAcks := encList encBytes
  packetToString p := some p.toJson

theorem Hashing.ideal_collisionFree : Hashing.ideal.CollisionFree where
  keccak256 := Function.injective_id
  connection := (selfDelimiting_encNat.pair (selfDelimiting_encNat.pair
    (selfDelimiting_encNat.pair selfDelimiting_encNat))).injective
  channel := (selfDelimiting_encNat.pair (selfDelimiting_encNat.pair (selfDelimiting_encNat.pair
    (selfDelimiting_encBytes.pair selfDelimiting_encBytes)))).injective
  packets := (List.append_right_injective _).comp (selfDelimiting_encNat.pair
    (selfDelimiting_encNat.pair (selfDelimiting_encBytes.pair
      (selfDelimiting_encNat.pair selfDelimiting_encNat)))).list.injective
  acks := selfDelimiting_encBytes.list.injective

/-- A light client that answers no query. -/
def Querier.failing : Querier where
  getTimestamp _ _ _ := none
  getLatestHeight _ _ := none
  getStatus _ _ := none
  verifyCreation _ _ := none
  verifyMembership _ _ := false
  verifyNonMembership _ _ := false
  updateState _ _ := none
  misbehaviour _ _ := none

/-- A light client that creates clients without changing their state and refuses no proof. -/
def Querier.accepting : Querier where
  getTimestamp _ _ _ := some 0
  getLatestHeight _ _ := some 1
  getStatus _ _ := some .active
  verifyCreation _ _ := some ⟨"union-1", none, [], []⟩
  verifyMembership _ _ := true
  verifyNonMembership _ _ := true
  updateState _ _ := none
  misbehaviour _ _ := none

/-- Every address is valid and every caller may call. -/
def Env.permissive (q : Querier) : Env := ⟨fun _ => true, 0, some .immediate, q⟩

end UnionVoyager.Core
