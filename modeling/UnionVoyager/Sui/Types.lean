import UnionVoyager.Zkgm.Types

/-!
# Data model of zkgm on Sui

The types of `sui/ucs03_zkgm/sources/types`, the helpers of `helpers.move`, and what a Move function
can do besides returning: abort.  Byte strings that the source decodes are represented by what they
decode to; `Data.misaligned` is where encoding and decoding again does not give the value back.

Coin types are their names.  An amount of an order is a `u256`, one of a coin a `u64`; Move aborts
where a conversion or a sum does not fit.
-/

namespace UnionVoyager.Sui

open Lib
open Zkgm (U256 AckData Acknowledgement)

/-- Why a transaction aborts: with a code of its own, in arithmetic or a conversion, or in the VM (no
    such key, index out of bounds, too few bytes, too small a coin). -/
inductive Abort where
  | code (code : Nat)
  | arithmetic
  | vm
  deriving DecidableEq

abbrev Result (α : Type) := Except Abort α

/-- `assert!(p, code)`. -/
def assert (p : Prop) [Decidable p] (code : Nat) : Result Unit := ensure p (.code code)

@[simp] theorem assert_eq_ok {p : Prop} [Decidable p] {code : Nat} {u : Unit} :
    assert p code = .ok u ↔ p := ensure_eq_ok

/-- `x as u64`. -/
def asU64 (x : Nat) : Result Nat := if x < 2 ^ 64 then .ok x else .error .arithmetic

@[simp] theorem asU64_eq_ok {x y : Nat} : asU64 x = .ok y ↔ x < 2 ^ 64 ∧ x = y := by
  unfold asU64
  split <;> simp_all

abbrev Address := Bytes

/-- `bcs::new(b).peel_address()`: the first 32 bytes, whatever follows. -/
def peelAddress (b : Bytes) : Result Address := if 32 ≤ b.length then .ok (b.take 32) else .error .vm

/-! ## Coin types -/

/-- The name of a coin type (`type_name::with_defining_ids`). -/
abbrev CoinType := Bytes

/-- A length in the variable-length form of `bcs`. -/
def uleb128 (n : Nat) : Bytes :=
  if n < 128 then [UInt8.ofNat n] else UInt8.ofNat (n % 128 + 128) :: uleb128 (n / 128)
termination_by n

/-- `type_name_to_quote_token`: the `bcs` of `Some(name)` with its first two bytes replaced by `0x`.  The
    length of a name of 128 bytes or more takes more than one byte, and the rest of it stays. -/
def typeNameToQuoteToken (t : CoinType) : Bytes := 48 :: 120 :: ((uleb128 t.length).tail ++ t)

/-! ## Instructions and packets -/

structure TokenOrderV2 where
  sender : Bytes
  receiver : Bytes
  baseToken : Bytes
  baseAmount : Nat
  quoteToken : Bytes
  quoteAmount : Nat
  kind : UInt8
  metadata : Bytes

mutual

inductive Instruction where
  | mk (version opcode : UInt8) (operand : Operand)

/-- What the operand decodes to, as its opcode has it decoded. -/
inductive Operand where
  | forward (path : U256) (timeoutHeight timeoutTimestamp : Nat) (instruction : Instruction)
  | batch (instructions : List Instruction)
  | tokenOrder (order : TokenOrderV2)
  | other (bytes : Bytes)

end

def Instruction.version : Instruction → UInt8
  | .mk version _ _ => version

def Instruction.opcode : Instruction → UInt8
  | .mk _ opcode _ => opcode

def Instruction.operand : Instruction → Operand
  | .mk _ _ operand => operand

structure ZkgmPacket where
  salt : Bytes
  path : U256
  instruction : Instruction

/-- The data of a packet: an encoded `ZkgmPacket`, what `zkgm_packet::encode` makes of a salt that
    does not fill one word, or bytes that do not decode.  Encodings that decode to the same packet
    are one value here: those that `encode` does not produce (other offsets, bytes left over) are
    left out. -/
inductive Data where
  | zkgm (packet : ZkgmPacket)
  | misaligned (salt : Bytes) (path : U256) (instruction : Instruction)
  | other (bytes : Bytes)

structure Packet where
  sourceChannelId : UInt32
  destinationChannelId : UInt32
  data : Data
  timeoutHeight : Nat
  timeoutTimestamp : Nat

structure TokenMetadata where
  implementation : Bytes
  initializer : Bytes

structure SolverMetadata where
  solverAddress : Bytes
  metadata : Bytes

/-- `Metadata` of the owned vault and `SuiTokenMetadata` of an order. -/
structure Metadata where
  name : Bytes
  symbol : Bytes
  decimals : UInt8
  owner : Address
  iconUrl : Option Bytes
  description : Bytes
  deriving DecidableEq

/-- The hash functions and decoders the contracts use. -/
structure Env where
  keccak256 : Bytes → Bytes
  commitPacket : Packet → Bytes
  batchPacketsCommitmentKey : Bytes → Bytes
  batchReceiptsCommitmentKey : Bytes → Bytes
  decodeTokenMetadata : Bytes → Option TokenMetadata
  decodeSolverMetadata : Bytes → Option SolverMetadata
  decodeSuiTokenMetadata : Bytes → Option Metadata
  /-- What a misaligned encoding decodes to. -/
  misread : Bytes → U256 → Instruction → Option ZkgmPacket

/-- `zkgm_packet::encode`: `encode_bytes32` pads a salt to whole words, and appends nothing for an empty
    one. -/
def ZkgmPacket.encode (salt : Bytes) (path : U256) (instruction : Instruction) : Data :=
  if 0 < salt.length ∧ salt.length ≤ 32 then
    .zkgm ⟨salt ++ List.replicate (32 - salt.length) 0, path, instruction⟩
  else .misaligned salt path instruction

def ZkgmPacket.decode (env : Env) : Data → Result ZkgmPacket
  | .zkgm packet => .ok packet
  | .misaligned salt path instruction => orErr (env.misread salt path instruction) .vm
  | .other _ => .error .vm

/-! ## Helpers -/

def isAllowedBatchInstruction (opcode : UInt8) : Bool :=
    opcode == Zkgm.OP_CALL || opcode == Zkgm.OP_TOKEN_ORDER

def isAllowedForward (opcode : UInt8) : Bool :=
  opcode == Zkgm.OP_CALL || opcode == Zkgm.OP_BATCH || opcode == Zkgm.OP_TOKEN_ORDER

/-- `bcs::new(b).peel_u256()`, which is little-endian. -/
def peelU256 (b : Bytes) : Result U256 :=
  if 32 ≤ b.length then .ok (BitVec.ofNat 256 (beNat (b.take 32).reverse)) else .error .vm

/-- `bcs::to_bytes` of a number of `w` bytes. -/
def leBytes (w n : Nat) : Bytes := (beBytes w n).reverse

def FORWARD_SALT_MAGIC : U256 := 0xC0DE00000000000000000000000000000000000000000000000000000000BABE

def isForwardedPacket (salt : Bytes) : Result Bool := do
  let saltU256 ← peelU256 salt.reverse
  pure ((saltU256 &&& FORWARD_SALT_MAGIC) == FORWARD_SALT_MAGIC)

/-- The bytes are not reversed again at the end. -/
def tintForwardSalt (salt : Bytes) : Result Bytes := do
  let saltU256 ← peelU256 salt.reverse
  pure (leBytes 32 (FORWARD_SALT_MAGIC ||| (saltU256 &&& ~~~FORWARD_SALT_MAGIC)).toNat)

def deriveForwardSalt (env : Env) (salt : Bytes) : Result Bytes := tintForwardSalt (env.keccak256 salt)

/-- `(path >> 32, path as u32)`: a path of more than one hop does not fit. -/
def dequeueChannelFromPath (path : U256) : Result (U256 × UInt32) :=
  if path.toNat < 2 ^ 32 then .ok (path >>> 32, UInt32.ofNat path.toNat) else .error .arithmetic

/-- `fls`, by halving. -/
def fls (x : U256) : Nat :=
  if x = 0 then 256
  else ([128, 64, 32, 16, 8, 4, 2, 1].foldl
    (fun (r, x) w => if 2 ^ w - 1 < x then (r + w, x / 2 ^ w) else (r, x)) (0, x.toNat)).1

def EInvalidHops : Nat := 35201

def updateChannelPath (path : U256) (nextChannelId : UInt32) : Result U256 :=
  if path = 0 then .ok (BitVec.ofNat 256 nextChannelId.toNat)
  else
    let nextHopIndex := fls path / 32 + 1
    if 7 < nextHopIndex then .error (.code EInvalidHops)
    else .ok (BitVec.ofNat 256 nextChannelId.toNat <<< (nextHopIndex * 32) ||| path)

/-- The shift is computed in a `u8`, so that it overflows for a path of one hop. -/
def popChannelFromPath (path : U256) : Result (U256 × UInt32) :=
  if path = 0 then .ok (0, 0)
  else
    let currentHopIndex := fls path / 32
    let clearShift := (8 - currentHopIndex) * 32
    if clearShift < 256 then
      .ok ((path <<< clearShift) >>> clearShift, UInt32.ofNat (path >>> (currentHopIndex * 32)).toNat)
    else .error .arithmetic

/-- The loop of `reverse_channel_path`; every turn clears the highest of at most eight hops. -/
def reverseLoop : Nat → U256 → U256 → Result U256
  | 0, _, _ => .error .vm
  | fuel + 1, path, reversedPath => do
    let (tail, head) ← popChannelFromPath path
    let reversedPath ← updateChannelPath reversedPath head
    if tail = 0 then pure reversedPath else reverseLoop fuel tail reversedPath

def reverseChannelPath (path : U256) : Result U256 := reverseLoop 9 path 0

def computeSaltFromMetadataImage (env : Env) (path : U256) (channel : UInt32)
    (baseToken metadataImage : Bytes) : Bytes :=
  env.keccak256 (leBytes 32 path.toNat ++ leBytes 4 channel.toNat ++ baseToken ++ metadataImage)

def computeSalt (env : Env) (path : U256) (channel : UInt32) (baseToken metadata : Bytes) : Bytes :=
  computeSaltFromMetadataImage env path channel baseToken (env.keccak256 metadata)

/-! ## Names of coin types -/

theorem uleb128_length_mono : ∀ {n m : Nat}, m ≤ n → (uleb128 m).length ≤ (uleb128 n).length := by
  intro n
  induction n using Nat.strongRecOn with
  | ind n ih =>
    intro m hmn
    rw [uleb128, uleb128.eq_1 n]
    by_cases hn : n < 128
    · rw [if_pos hn, if_pos (by omega)]
      exact Nat.le_refl 1
    · rw [if_neg hn]
      split
      · simp
      · have := ih (n / 128) (by omega) (show m / 128 ≤ n / 128 by omega)
        simpa using this

theorem uleb128_length_pos (n : Nat) : 0 < (uleb128 n).length := by
  rw [uleb128]
  split <;> simp

/-- **A token names at most one coin type.** -/
theorem typeNameToQuoteToken_injective : Function.Injective typeNameToQuoteToken := by
  intro t u h
  unfold typeNameToQuoteToken at h
  simp only [List.cons.injEq, true_and] at h
  have hlen := congrArg List.length h
  simp only [List.length_append, List.length_tail] at hlen
  have ht := uleb128_length_pos t.length
  have hu := uleb128_length_pos u.length
  -- the length of a token grows with that of its name
  have heq : t.length = u.length := by
    rcases Nat.lt_trichotomy t.length u.length with hlt | heq | hgt
    · have := uleb128_length_mono (Nat.le_of_lt hlt)
      omega
    · exact heq
    · have := uleb128_length_mono (Nat.le_of_lt hgt)
      omega
  exact (List.append_inj h (by rw [heq])).2

end UnionVoyager.Sui
