import UnionVoyager.Light.Clients
import UnionVoyager.Light.Sound

/-!
# Consensus states of three clients

Tendermint, gno and cometbls answer the header of a height that is known in two ways: cometbls with
what is stored, without a look at the header; the other two verify it and answer with its own state,
which the core writes over the stored one.

* `settles` of each — when an accepted header leaves a stored state alone.
-/

namespace UnionVoyager.Light

open Lib Core

variable {now : UInt64}

variable {cs : ClientState} {cons : ConsensusState} {header : Header}

namespace Tendermint

variable {p : Params}

def signedHeight (header : Header) : Core.Height := UInt64.ofNat header.signedHeader.header.height.inner

def ownState (header : Header) : ConsensusState where
  timestamp := header.signedHeader.header.time
  root := header.signedHeader.header.appHash
  nextValidatorsHash := header.signedHeader.header.nextValidatorsHash

theorem verifyHeader_update {codec : Codec} {sha256 : Bytes → H256} {host : HostFns}
    {update : StateUpdate} (h : verifyHeader codec sha256 host cs cons header now = .ok update) :
    update.height = header.signedHeader.header.height.inner ∧ update.consensusState = ownState header := by
  simp only [verifyHeader, bind_eq_ok, pure_eq_ok] at h
  obtain ⟨_, -, _, -, _, -, _, -, _, -, _, -, _, -, _, -, rfl⟩ := h
  exact ⟨rfl, rfl⟩

theorem settles (p : Params) : (client p).Settles
    ((client p).Matches signedHeight fun header => some (ownState header)) :=
  IbcClient.settles_matches fun h => by
    obtain ⟨cs, cons, host, update, -, -, -, hupdate, rfl⟩ := client_verifyHeader h
    obtain ⟨hheight, hstate⟩ := verifyHeader_update hupdate
    exact ⟨congrArg UInt64.ofNat hheight, congrArg some hstate.symm⟩

end Tendermint

namespace Gno

variable {p : Params}

def signedHeight (header : Header) : Core.Height := UInt64.ofNat header.signedHeader.header.height.inner

/-- A header without an application hash makes the contract panic. -/
def ownState (header : Header) : Option ConsensusState :=
  header.signedHeader.header.appHash.map fun root =>
    ⟨header.signedHeader.header.time, root, header.signedHeader.header.nextValidatorsHash⟩

theorem verifyHeader_update {codec : Codec} {sha256 : Bytes → H256}
    {verifySignature : PublicKey → Bytes → Bytes → Bool} {update : StateUpdate}
    (h : verifyHeader codec sha256 verifySignature cs cons header now = .ok update) :
    update.height = header.signedHeader.header.height.inner ∧
      ownState header = some update.consensusState := by
  simp only [verifyHeader, bind_eq_ok, orErr_eq_ok, pure_eq_ok] at h
  obtain ⟨_, -, _, -, _, -, root, hroot, rfl⟩ := h
  refine ⟨rfl, ?_⟩
  unfold ownState
  rw [hroot, Option.map_some]

theorem settles (p : Params) : (client p).Settles ((client p).Matches signedHeight ownState) :=
  IbcClient.settles_matches fun h => by
    obtain ⟨cs, cons, update, -, -, hupdate, rfl⟩ := client_verifyHeader h
    obtain ⟨hheight, hstate⟩ := verifyHeader_update hupdate
    exact ⟨congrArg UInt64.ofNat hheight, hstate⟩

end Gno

namespace CometBlsClient

variable {p : Params}

theorem acceptHeader_height {verifyZkp : ZkpVerifier} {update : StateUpdate}
    (h : acceptHeader verifyZkp now cs cons header = .ok update) :
    update.height = LightHeader.heightNumber header.signedHeader := by
  simp only [acceptHeader, updateState, bind_eq_ok, pure_eq_ok] at h
  obtain ⟨_, -, timestamp, -, rfl⟩ := h
  rfl

theorem settles (p : Params) : (client p).Settles fun _ _ => True := by
  intro ctx caller header relayer u b old hver _ hb hold
  obtain ⟨cs, cons, -, -, ⟨stored, hstored, rfl⟩ | ⟨update, hnone, hupd, rfl⟩⟩ := client_verifyHeader hver
  · obtain rfl : stored = old := Option.some.inj (hstored.symm.trans hold)
    exact decode_encode_consensusState hb
  · have hsigned : ctx.readSelfConsensusState (decodeConsensusState p)
        (LightHeader.heightNumber header.signedHeader) = some old := by
      rw [← acceptHeader_height hupd]
      exact hold
    rw [hnone] at hsigned
    cases hsigned

end CometBlsClient

/-! ## The three clients -/

/-- A light client for a chain of the cosmos. -/
inductive CosmosClient where
  | tendermint (p : Tendermint.Params)
  | gno (p : Gno.Params)
  | cometbls (p : CometBlsClient.Params)

namespace CosmosClient

def client : CosmosClient → IbcClient
  | tendermint p => Tendermint.client p
  | gno p => Gno.client p
  | cometbls p => CometBlsClient.client p

/-- What is stored at the height of a header is the state it stands for.  Nothing is asked of a
    cometbls header. -/
def Agrees : (k : CosmosClient) → k.client.Agreement
  | tendermint p => (Tendermint.client p).Matches Tendermint.signedHeight fun header =>
      some (Tendermint.ownState header)
  | gno p => (Gno.client p).Matches Gno.signedHeight Gno.ownState
  | cometbls _ => fun _ _ => True

def proofChecks : (k : CosmosClient) → k.client.ProofChecks
  | tendermint p => Tendermint.proofChecks p
  | gno p => Gno.proofChecks p
  | cometbls p => CometBlsClient.proofChecks p

theorem settles : (k : CosmosClient) → k.client.Settles k.Agrees
  | tendermint p => Tendermint.settles p
  | gno p => Gno.settles p
  | cometbls p => CometBlsClient.settles p

end CosmosClient

section Run

variable (k : CosmosClient) (H : Hashing) (c : ClientId) (past : List Input)

/-- Further steps of the core: the client is one of `k`, it is not updated by force, and no header
    that it accepts disagrees with the state stored at its height. -/
def OrdinaryRun (rest : List Input) : Prop :=
  Machine.Meets (step H) (k.client.Ordinary k.Agrees c) (run H .init past) rest

/-- **What a client trusts stays for ever**, as long as no accepted header disagrees with the state
    that is stored at its height: the consensus states, their timestamps and the accepted proofs.
    What is stored at a height was decided by the first update there. -/
theorem trusted_kept (rest : List Input) (hrest : OrdinaryRun k H c past rest) :
    k.client.Kept c (run H .init past) (run H .init (past ++ rest)) ∧
      ∀ rest', OrdinaryRun k H c past rest' → ∀ h v,
        k.client.readConsensusState (run H .init past).hostStores c h = some v →
        k.client.readConsensusState (run H .init (past ++ rest)).hostStores c h =
          k.client.readConsensusState (run H .init (past ++ rest')).hostStores c h :=
  ⟨IbcClient.run_kept k.proofChecks k.settles past rest hrest,
    fun rest' hrest' _ _ hv => IbcClient.run_decided k.proofChecks k.settles past rest rest' hrest hrest' hv⟩

end Run

/-! A tendermint client at height 5, and two headers for height 7 signed by its validators. -/

/-- The values of a list, each by its index. -/
def Encoding.ofList {α : Type} [DecidableEq α] (l : List α) : Encoding α where
  encode a := if a ∈ l then some (List.replicate (l.idxOf a) 0) else none
  decode b := l[b.length]?
  decode_encode := by
    intro a b h
    split at h
    · obtain rfl := Option.some.inj h
      rw [List.length_replicate]
      exact List.getElem?_idxOf ‹a ∈ l›
    · cases h

namespace TrustedSample

open Tendermint

def stored (height : Height) : StoredClientState where
  toClientState := { Sample.clientState with
    trustingPeriod := .ofNanos 1000000000000000
    latestHeight := height }
  frozenHeight := none
  contractAddress := zeroHash

def fork : Header :=
  let block := { Sample.block with appHash := [10] }
  let blockHash := (block.calculateMerkleRoot Sample.codec id).getD []
  let sign (key : UInt8) : CommitSig :=
    .commit [key] (.atSecond 1001) ([key] ++ beBytes 8 7 ++ beBytes 8 0 ++ blockHash)
  { Sample.header with
    signedHeader := {
      header := block
      commit := {
        Sample.header.signedHeader.commit with
        blockId := ⟨some blockHash, ⟨1, some [3]⟩⟩
        signatures := [sign 1, sign 2] } } }

def nextValidatorsHash : H256 := validatorsHash Sample.codec id Sample.validatorSet

def solState (seconds : UInt64) (root : H256) : SolConsensusState :=
    ⟨seconds * 1000000000, root, nextValidatorsHash⟩

def params : Params where
  codec := Sample.codec
  sha256 := id
  ed25519 := Sample.host
  bls12381 := none
  hashes := ⟨fun _ => List.replicate 32 0, id, id, id, fun _ => rfl⟩
  bincode := .ofList [stored (.newWithRevision 1 5), stored (.newWithRevision 1 7)]
  abi := .ofList [solState 900 [8], solState 1000 [9], solState 1000 [10]]
  decodeHeader b := [Sample.header, fork][b.length]?
  decodeStateProof _ := none

abbrev contract : IbcClient := Tendermint.client params

def clientId : ClientId := ⟨.one⟩

/-- The client type is registered, and a client created in the first of its states. -/
def created : List Input :=
  let querier : Querier :=
    { Querier.failing with
      getLatestHeight := fun _ _ => some 5
      verifyCreation := fun _ _ => some ⟨"union-1", none, [], []⟩ }
  [⟨.permissive querier, ⟨"admin", []⟩, .restricted (.registerClient "tendermint" "contract")⟩,
    ⟨.permissive querier, ⟨"relayer", []⟩, .restricted (.createClient "tendermint" [] [] "relayer")⟩]

/-- Thousand seconds later, an update by the header of this index. -/
def update (past : List Input) (header : Bytes) : Input :=
  contract.input (run .ideal .init past) 2000000000000 (.updateClient clientId header "relayer")

def updated : List Input := created ++ [update created []]

def atSeven (is : List Input) : Option ConsensusState :=
  contract.readConsensusState (run .ideal .init is).hostStores clientId 7

end TrustedSample

open TrustedSample

/-- The first header a second time: the client keeps what it trusts. -/
theorem trusted_kept_sample : (atSeven updated).isSome = true ∧
    contract.Kept clientId (run .ideal .init updated)
      (run .ideal .init (updated ++ [update updated []])) := by
  refine ⟨by decide, (trusted_kept (.tendermint params) .ideal clientId updated [update updated []]
    ⟨⟨hostedBy_input _ _ _ _ _, fun _ _ h => (nomatch h), ?_⟩, trivial⟩).1⟩
  rintro header u ⟨m, relayer, hmsg, -, -, hheader, -⟩ v old hv hold
  cases hmsg
  cases hheader
  cases hv
  have hread : atSeven updated =
      (Tendermint.encodeConsensusState params (Tendermint.ownState Tendermint.Sample.header)).bind
        (Tendermint.decodeConsensusState params) := by
    decide
  exact hread.symm.trans hold

/-- **The header of a fork replaces what is trusted**: a client without any forced message, two
    headers for one height signed by its validators, and the second application hash is written over
    the first. -/
theorem fork_replaces : (∀ i ∈ updated ++ [update updated [0]], i.msg.isForce = false) ∧
    HostedBy contract clientId (run .ideal .init created) (update created []) ∧
    HostedBy contract clientId (run .ideal .init updated) (update updated [0]) ∧
    (atSeven updated).map Tendermint.ConsensusState.root = some [9] ∧
    (atSeven (updated ++ [update updated [0]])).map Tendermint.ConsensusState.root = some [10] ∧
    ¬ contract.Kept clientId (run .ideal .init updated)
      (run .ideal .init (updated ++ [update updated [0]])) := by
  have hfirst : (atSeven updated).map Tendermint.ConsensusState.root = some [9] := by
    decide
  have hsecond : (atSeven (updated ++ [update updated [0]])).map Tendermint.ConsensusState.root =
      some [10] := by
    decide
  refine ⟨by decide, hostedBy_input _ _ _ _ _, hostedBy_input _ _ _ _ _, hfirst, hsecond, fun hkept => ?_⟩
  obtain ⟨v, hv, hroot⟩ := Option.map_eq_some_iff.mp hfirst
  have hlater : atSeven (updated ++ [update updated [0]]) = some v := hkept.consensusState 7 v hv
  rw [hlater, Option.map_some, hroot] at hsecond
  exact absurd hsecond (by decide)

end UnionVoyager.Light
