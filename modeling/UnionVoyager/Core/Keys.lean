import UnionVoyager.Core.Path

/-!
# Commitment keys in three languages

The key functions of `IBCCommitment.sol` and `ibc_commitment.move` next to those of `path.rs`, and
the hash of a batch of one packet.
-/

namespace UnionVoyager.Core

open Lib Function

inductive Library where
  | solidity
  | sui

/-- What is hashed for a path, where the library has its kind.  `abi.encode` and the bytes of an
    address are both words, and so are the numbers that `abi.encodePacked` is given. -/
def Library.path : Library → StorePath → Option Bytes
  | _, .clientState clientId => some (word 0x00 ++ word clientId.raw.get)
  | _, .consensusState clientId height => some (word 0x01 ++ word clientId.raw.get ++ word height.toNat)
  | _, .connection connectionId => some (word 0x02 ++ word connectionId.raw.get)
  | _, .channel channelId => some (word 0x03 ++ word channelId.raw.get)
  | _, .batchPackets batchHash => some (word 0x04 ++ batchHash)
  | _, .batchReceipts batchHash => some (word 0x05 ++ batchHash)
  | .solidity, .membershipProof clientId proofHeight path =>
    some (word 0x06 ++ word clientId.raw.get ++ word proofHeight.toNat ++ path)
  | .solidity, .nonMembershipProof clientId proofHeight path =>
    some (word 0x07 ++ word clientId.raw.get ++ word proofHeight.toNat ++ path)
  | .sui, .batchTimeouts batchHash => some (word 0x08 ++ batchHash)
  | _, _ => none

/-- Two of the functions of Sui return the path itself. -/
def Library.commitmentKey (H : Hashing) : Library → StorePath → Option Bytes
  | .sui, .clientState clientId => Library.sui.path (.clientState clientId)
  | .sui, .consensusState clientId height => Library.sui.path (.consensusState clientId height)
  | lib, p => (lib.path p).map H.keccak256

/-- The paths that are made for one packet. -/
inductive BatchPath where
  | packets
  | receipts
  | timeout

/-- The `batch_hash` of `from_packet`; `abiEncodePacket` is `abi_encode` of a packet that is in no list. -/
def BatchPath.fromPacket (H : Hashing) (abiEncodePacket : Nat × Nat × Bytes × Nat × Nat → Bytes) :
    BatchPath → Packet → H256
  | .packets, packet => H.keccak256 (H.abiEncodePackets ([packet].map Packet.toTokens))
  | .receipts, packet => commitPackets H [packet]
  | .timeout, packet => H.keccak256 (abiEncodePacket packet.toTokens)

/-- A packet is a dynamic tuple: on its own it stands behind its offset, in a list also behind the
    length and the offset of the list. -/
def EncodesTuples (H : Hashing) (abiEncodePacket : Nat × Nat × Bytes × Nat × Nat → Bytes) : Prop :=
  ∀ t, ∃ tuple, abiEncodePacket t = word 32 ++ tuple ∧
    H.abiEncodePackets [t] = word 32 ++ (word 1 ++ (word 32 ++ tuple))

variable {H : Hashing} {abiEncodePacket : Nat × Nat × Bytes × Nat × Nat → Bytes}

theorem Library.path_eq_some {lib : Library} {p : StorePath} {b : Bytes} (h : lib.path p = some b) :
    b = word p.tag ++ p.body := by
  unfold Library.path at h
  split at h <;> cases h <;> simp only [StorePath.tag, StorePath.body, List.append_assoc]

theorem commitmentKey_eq_iff (hlength : ∀ b : Bytes, 32 < b.length → H.keccak256 b ≠ b)
    {lib : Library} {p : StorePath} {k : Bytes} (h : lib.commitmentKey H p = some k) : k = p.key H ↔
      ¬ (lib = .sui ∧ ((∃ i, p = .clientState i) ∨ ∃ i height, p = .consensusState i height)) := by
  have hpath : ∀ b : Bytes, b = word p.tag ++ p.body → 64 ≤ b.length → b ≠ p.key H := by
    rintro b rfl hlong heq
    exact hlength _ (by omega) heq.symm
  unfold Library.commitmentKey at h
  split at h
  · have hb := Library.path_eq_some h
    refine iff_of_false (hpath k hb ?_) (by simp)
    simp [hb, StorePath.body, word_length]
  · have hb := Library.path_eq_some h
    refine iff_of_false (hpath k hb ?_) (by simp)
    simp [hb, StorePath.body, word_length]
  · rename_i hclient hconsensus
    obtain ⟨b, hb, rfl⟩ := Option.map_eq_some_iff.mp h
    refine iff_of_true (congrArg H.keccak256 (Library.path_eq_some hb)) ?_
    rintro ⟨rfl, ⟨i, rfl⟩ | ⟨i, height, rfl⟩⟩
    · exact hclient i rfl rfl
    · exact hconsensus i height rfl rfl

/-- **Paths have different keys, every library has the same ones but for clients on Sui, and a path
    made for one packet has the hash of that packet iff it is not that of a timeout.** -/
theorem keys_agree_iff (hkeccak : Injective H.keccak256)
    (hlength : ∀ b : Bytes, 32 < b.length → H.keccak256 b ≠ b) (hencodes : EncodesTuples H abiEncodePacket) :
    Injective (StorePath.key H) ∧
      (∀ (lib : Library) p k, lib.commitmentKey H p = some k → (k = p.key H ↔
        ¬ (lib = .sui ∧ ((∃ i, p = .clientState i) ∨ ∃ i height, p = .consensusState i height)))) ∧
      ∀ (path : BatchPath) packet, (path.fromPacket H abiEncodePacket packet = commitPackets H [packet] ∧
        commitPackets H [packet] = packet.hash H) ↔ path ≠ .timeout := by
  refine ⟨StorePath.key_injective_of hkeccak, fun lib p k => commitmentKey_eq_iff hlength,
    fun path packet => ?_⟩
  refine (and_iff_left rfl).trans ?_
  cases path with
  | packets | receipts => exact iff_of_true rfl (by simp)
  | timeout =>
    refine iff_of_false (fun heq => ?_) (by simp)
    obtain ⟨tuple, hsingle, hlist⟩ := hencodes packet.toTokens
    have hbytes : abiEncodePacket packet.toTokens = H.abiEncodePackets [packet.toTokens] := hkeccak heq
    rw [hsingle, hlist] at hbytes
    have hlen := congrArg List.length hbytes
    simp only [List.length_append, word_length] at hlen
    omega

namespace Sample

/-- The tuple of a packet whose data fills whole words. -/
def tuple (t : Nat × Nat × Bytes × Nat × Nat) : Bytes :=
  word t.1 ++ word t.2.1 ++ word 160 ++ word t.2.2.2.1 ++ word t.2.2.2.2 ++ word t.2.2.1.length ++ t.2.2.1

def hashing : Hashing where
  keccak256 b := 0 :: b
  abiEncodeConnection _ := []
  abiEncodeChannel _ := []
  abiEncodePackets ts := word 32 ++ (word ts.length ++ ts.flatMap fun t => word 32 ++ tuple t)
  abiEncodeAcks _ := []
  packetToString p := some p.toJson

theorem hashing_encodesTuples : EncodesTuples hashing fun t => word 32 ++ tuple t :=
  fun t => ⟨tuple t, rfl, by simp [hashing]⟩

theorem hashing_keccak256 (b : Bytes) : hashing.keccak256 b ≠ b := by
  intro h
  have := congrArg List.length h
  simp [hashing] at this

end Sample

open Sample in
theorem keys_agree_sample : Injective (StorePath.key hashing) ∧
    (∀ (lib : Library) p k, lib.commitmentKey hashing p = some k → (k = p.key hashing ↔
      ¬ (lib = .sui ∧ ((∃ i, p = .clientState i) ∨ ∃ i height, p = .consensusState i height)))) ∧
    ∀ (path : BatchPath) packet, (path.fromPacket hashing (fun t => word 32 ++ tuple t) packet =
      commitPackets hashing [packet] ∧ commitPackets hashing [packet] = packet.hash hashing) ↔
        path ≠ .timeout :=
  keys_agree_iff (fun _ _ h => (List.cons.inj h).2) (fun b _ => hashing_keccak256 b) hashing_encodesTuples

open Sample in
/-- A client's key on Sui, and the hash in the path of a timeout. -/
theorem keys_disagree :
    Library.commitmentKey hashing .sui (.clientState ⟨⟨1, by decide, by decide⟩⟩) ≠
        some ((StorePath.clientState ⟨⟨1, by decide, by decide⟩⟩).key hashing) ∧
      BatchPath.timeout.fromPacket hashing (fun t => word 32 ++ tuple t)
          ⟨⟨⟨1, by decide, by decide⟩⟩, ⟨⟨1, by decide, by decide⟩⟩, [], ⟨⟩, 0⟩ ≠
        commitPackets hashing [⟨⟨⟨1, by decide, by decide⟩⟩, ⟨⟨1, by decide, by decide⟩⟩, [], ⟨⟩, 0⟩] := by
  refine ⟨fun h => hashing_keccak256 _ (Option.some.inj h).symm, fun h => ?_⟩
  have := congrArg List.length h
  simp [BatchPath.fromPacket, commitPackets, hashing, word_length] at this
  omega

end UnionVoyager.Core
