import UnionVoyager.Zkgm.State

/-!
# Concrete parameters of the zkgm app

An encoder of packet data that computes, the `Hashing` built on it and on the ideal hash of the core,
and the chain of the concrete runs.
-/

namespace UnionVoyager.Zkgm

open Lib
open Core (ChannelId NonZeroU32 Addr)

/-! ## Leaves of the encoding -/

def encU256 (x : U256) : Bytes := beBytes 32 x.toNat

def encMetadata : OrderMetadata → Bytes
  | .pair a b => 0 :: encPair encBytes encBytes (a, b)
  | .other b => 1 :: encBytes b

def encBool (b : Bool) : Bytes := [if b then 1 else 0]

def TokenOrderV1.view (o : TokenOrderV1) : Bytes × Bytes × Bytes × Nat × String × String × UInt8 ×
    U256 × Bytes × Nat :=
  (o.sender, o.receiver, o.baseToken, o.baseAmount, o.baseTokenSymbol, o.baseTokenName,
    o.baseTokenDecimals, o.baseTokenPath, o.quoteToken, o.quoteAmount)

def TokenOrderV2.view (o : TokenOrderV2) : Bytes × Bytes × Bytes × Nat × Bytes × Nat × UInt8 ×
    OrderMetadata :=
  (o.sender, o.receiver, o.baseToken, o.baseAmount, o.quoteToken, o.quoteAmount, o.kind, o.metadata)

def Call.view (c : Call) : Bytes × Bool × Bytes × Bytes :=
    (c.sender, c.eureka, c.contractAddress, c.contractCalldata)

def encOrderV1 (o : TokenOrderV1) : Bytes :=
  encPair encBytes (encPair encBytes (encPair encBytes (encPair encNat
    (encPair (fun s => encBytes (utf8 s)) (encPair (fun s => encBytes (utf8 s))
      (encPair (fun b => [b]) (encPair encU256 (encPair encBytes encNat)))))))) o.view

def encOrderV2 (o : TokenOrderV2) : Bytes :=
  encPair encBytes (encPair encBytes (encPair encBytes (encPair encNat (encPair encBytes
    (encPair encNat (encPair (fun b => [b]) encMetadata)))))) o.view

def encCall (c : Call) : Bytes := encPair encBytes (encPair encBool (encPair encBytes encBytes)) c.view

/-! ## Instruction trees -/

mutual

def encInstruction : Instruction → Bytes
  | .mk version opcode operand => version :: opcode :: encOperand operand

def encOperand : Operand → Bytes
  | .forward path h t instruction =>
    0 :: (encPair encU256 (encPair encNat encNat) (path, h, t) ++ encInstruction instruction)
  | .call c => 1 :: encCall c
  | .batch is => 2 :: encInstructions is
  | .tokenOrderV1 o => 3 :: encOrderV1 o
  | .tokenOrderV2 o => 4 :: encOrderV2 o
  | .other b => 5 :: encBytes b

def encInstructions : List Instruction → Bytes
  | [] => [0]
  | i :: is => 1 :: (encInstruction i ++ encInstructions is)

end

/-! ## Packet data -/

def encodeData : Data → Bytes
  | .zkgm p => 0 :: (encPair encU256 encU256 (p.salt, p.path) ++ encInstruction p.instruction)
  | .callCalldata path sender calldata =>
    1 :: encPair encU256 (encPair encBytes encBytes) (path, sender, calldata)
  | .other b => 2 :: b

def Hashing.ideal : Hashing where
  toHashing := Core.Hashing.ideal
  encodeData := Zkgm.encodeData
  packetFromSlice _ := none
  hashSendSalt _ salt := salt
  hashBatchSalt _ salt := salt
  hashForwardSalt salt := salt
  metadataImage m := BitVec.ofNat 256 (m.implementation.length + m.initializer.length + 1)

/-- A chain on which every address is valid, and whose wrapped tokens are named after the token they
    wrap. -/
def Env.ideal : Env where
  validAddr _ := true
  contractAddress := "zkgm"
  now := 0
  burnAddress := some "burn"
  hashing := Hashing.ideal
  predictWrappedToken _ _ token := (fromUtf8 token).map ("wrapped/" ++ ·)
  predictWrappedTokenFromMetadataImageV2 _ _ token _ := (fromUtf8 token).map ("wrapped2/" ++ ·)
  metadata _ := some ("name", "symbol", 6)
  predictCallProxyAccount _ := some "proxy"
  contractExists _ := true

/-- Storage right after `init`, without a rate limit. -/
def State.fresh : State := State.init ⟨"ibc", true, 1, 2⟩ "minter"

def channelOne : ChannelId := ⟨.one⟩

def channelTwo : ChannelId := ⟨.two⟩

end UnionVoyager.Zkgm
