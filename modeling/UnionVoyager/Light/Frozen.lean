import UnionVoyager.Core.Frozen
import UnionVoyager.Light.CometBlsContract
import UnionVoyager.Light.Misbehaviour
import UnionVoyager.Light.Trusted

/-!
# What a frozen client authorises

Misbehaviour freezes the cometbls and the ethereum client.  The core updates neither of them from
then on, but neither looks at its status when it verifies a proof, and the core does not ask for it.
-/

namespace UnionVoyager.Light

open Lib Core

namespace CometBlsClient

def freezing (p : Params) : (client p).Freezing where
  isFrozen clientState := Height.number clientState.frozenHeight ≠ 0
  misbehaviour_isFrozen h := by
    obtain ⟨cs, -, rfl⟩ := client_misbehaviour h
    show Height.number FROZEN_HEIGHT ≠ 0
    decide
  status_eq_frozen h := if_pos h

end CometBlsClient

namespace Ethereum

def freezing (p : Params) : (client p).Freezing where
  isFrozen clientState := clientState.frozenHeight.height ≠ 0
  misbehaviour_isFrozen h := by
    obtain ⟨cs, -, rfl⟩ := client_misbehaviour h
    show FROZEN_HEIGHT.height ≠ 0
    decide
  status_eq_frozen h := if_pos h

end Ethereum

/-- A light client that misbehaviour freezes. -/
structure FreezingClient where
  client : IbcClient
  freezing : client.Freezing
  proofChecks : client.ProofChecks

namespace FreezingClient

def cometbls (p : CometBlsClient.Params) : FreezingClient :=
  ⟨CometBlsClient.client p, CometBlsClient.freezing p, CometBlsClient.proofChecks p⟩

def ethereum (p : Ethereum.Params) : FreezingClient :=
    ⟨Ethereum.client p, Ethereum.freezing p, Ethereum.proofChecks p⟩

end FreezingClient

section Run

variable (k : FreezingClient) (H : Hashing) (c : ClientId) (past : List Input) (i : Input) (rest : List Input)

/-- A misbehaviour message for the client `c`, of the contract `k`, succeeds after `past`. -/
def FrozenBy : Prop :=
  HostedBy k.client c (run H .init past) i ∧ ∃ b r, Succeeds H (run H .init past) i (.misbehaviour c b r)

/-- Every further step meets the condition. -/
def Further (C : State → Input → Prop) : Prop := Machine.Meets (step H) C (run H .init (past ++ [i])) rest

/-- **A frozen client** is updated by nothing but force, and authorises nothing as long as no
    message carries a valid proof under it.  A frozen EVM client refuses every update and every
    proof. -/
theorem frozen_authorises (hfrozen : FrozenBy k H c past i)
    (hregular : Further H past i rest (Regular k.client c)) :
    Further H past i rest (fun s j => ¬ UpdateSucceeds H c s j) ∧
      (Further H past i rest (fun s j => ¬ k.proofChecks.Proves H c s j) →
        Further H past i rest fun s j => ¬ Authorises H c s j) ∧
      ∀ (d : CometBlsClient.Sol.Deployment) (env : CometBlsClient.Sol.CallEnv)
        (s s' : CometBlsClient.Sol.Storage) (call : CometBlsClient.Sol.Call) (u : UInt32)
          (is : List (CometBlsClient.Sol.CallEnv × CometBlsClient.Sol.Call)),
        CometBlsClient.Sol.execute d env s call = .ok s' → call.Freezes u s → (∀ i ∈ is, i.2.Keeps u) →
          ∀ env', CometBlsClient.Sol.Refuses d u (CometBlsClient.Sol.run d s' is) env' := by
  obtain ⟨hhost, b, r, hsucceeds⟩ := hfrozen
  have hstep : run H .init (past ++ [i]) = (step H (run H .init past) i).1 := Machine.run_append _ past [i]
  obtain ⟨hstate, himpl⟩ := misbehaviour_frozen k.freezing k.proofChecks hhost hsucceeds
  rw [← hstep] at hstate himpl
  have hrun := run_frozen k.proofChecks (run_wellFormed (past ++ [i])) himpl hstate hregular
  have hsteps := (Machine.meets_iff rest _).mp hrun
  refine ⟨?_, fun hproofs => ?_, fun d env s s' call u is h hf hkeeps =>
    CometBlsClient.Sol.run_frozen h hf hkeeps⟩
  · exact (Machine.meets_iff rest _).mpr fun past' j rest' heq => (hsteps past' j rest' heq).1
  · have hproofs := (Machine.meets_iff rest _).mp hproofs
    refine (Machine.meets_iff rest _).mpr fun past' j rest' heq => ?_
    rintro (hupd | hproof)
    · exact (hsteps past' j rest' heq).1 hupd
    · exact hproofs past' j rest' heq ((hsteps past' j rest' heq).2 hproof)

end Run

/-! A client of each kind, with a connection of the counterparty in its store. -/

deriving instance DecidableEq for CometBls.ChainId

deriving instance DecidableEq for CometBlsClient.ClientState

namespace FrozenSample

/-- Digests of 32 bytes. -/
def hashing : Hashing := { Hashing.ideal with keccak256 := Ics23.Sample.digest }

def clientId : ClientId := ⟨.one⟩

def connectionId : ConnectionId := ⟨.one⟩

/-- The path of connection 1, and the commitment to it in its first state. -/
def key : Bytes := (StorePath.connection connectionId).key hashing

def value : Bytes := commitConnection hashing ⟨.init, clientId, clientId, none⟩

namespace CometBls

open CometBlsClient

/-- The only entry of the contract's store, and its root in the multistore. -/
def entry : Ics23.ExistenceProof :=
    ⟨[3] ++ (Sample.hash 0).val ++ [0] ++ key, value, Ics23.Sample.leafOp [0, 2, 2], []⟩

def store : Ics23.ExistenceProof :=
  ⟨utf8 "wasm", (entry.calculateRoot Ics23.Sample.hashes).toOption.getD [], Ics23.Sample.leafOp [0], []⟩

def appHash : Bytes := (store.calculateRoot Ics23.Sample.hashes).toOption.getD []

def clientState : ClientState := Sample.client 200000000000

/-- Block 9, no later than block 8. -/
def early : Header :=
    { Sample.block with signedHeader := { Sample.block.signedHeader with height := .ofNat 9 } }

def params : Params where
  verifyZkp := Sample.acceptAll
  hashes := Ics23.Sample.hashes
  bincode := .ofList [clientState, { clientState with frozenHeight := FROZEN_HEIGHT }]
  abi := .ofList [⟨5, appHash, (Sample.hash 2).val⟩]
  decodeHeader _ := some Sample.block
  decodeMisbehaviour _ := some ⟨early, Sample.block⟩
  decodeStateProof b := if b = [] then some [.exist entry, .exist store] else none

end CometBls

namespace Ethereum

open Light.Ethereum

def proofKey : U256 := EvmStorage.ibcCommitmentKey EvmStorage.Sample.library key

/-- The only entry of the storage. -/
def storageRoot : Bytes := 32 :: (EvmStorage.toBeBytes proofKey ++ value)

def clientState : ClientState := { Sample.clientState with initialSyncCommittee := none }

def params : Params where
  host := Sample.host 32
  bincode := .ofList [clientState, { clientState with frozenHeight := FROZEN_HEIGHT }]
  abi := .ofList [{ Sample.consensusState with storageRoot := storageRoot }]
  decodeHeader _ := some (Sample.header [255, 255, 63, 0])
  decodeMisbehaviour _ := some Misbehaviour.Sample.twoUpdates
  decodeStateProof b := if b = [] then some ⟨proofKey, EvmStorage.fromBeBytes value, [storageRoot]⟩ else none
  decodeSyncCommittee _ := some Sample.inverse
  encodeSyncCommittee _ := []

end Ethereum

/-- A client, the time of its messages, and what it is created with. -/
structure Scene where
  kind : FreezingClient
  time : Core.Timestamp
  height : Core.Height
  writes : List (Bytes × Bytes)

def cometbls : Scene := ⟨.cometbls CometBls.params, 101000000000, 7, []⟩

def ethereum : Scene :=
  ⟨.ethereum Ethereum.params, 600000000000, 100,
    [(Light.Ethereum.committeeKey 0, []), (Light.Ethereum.committeeKey 1, [])]⟩

namespace Scene

variable (sc : Scene)

def created : List Input :=
  let querier : Querier :=
    { Querier.failing with
      getLatestHeight := fun _ _ => some sc.height
      verifyCreation := fun _ _ => some ⟨"union-1", none, sc.writes, []⟩ }
  [⟨.permissive querier, ⟨"admin", []⟩, .restricted (.registerClient "type" "contract")⟩,
    ⟨.permissive querier, ⟨"relayer", []⟩, .restricted (.createClient "type" [] [] "relayer")⟩]

def input (s : State) (m : RestrictedExecuteMsg) : Input := sc.kind.client.input s sc.time m

def misbehaviour : Input := sc.input (run hashing .init sc.created) (.misbehaviour clientId [] "relayer")

def frozen : State := run hashing .init (sc.created ++ [sc.misbehaviour])

/-- A connection is opened by a proof; the empty bytes are a valid one. -/
def openTry (s : State) (proof : Bytes) : Input :=
  sc.input s (.connectionOpenTry clientId connectionId clientId proof sc.height)

def executed (s : State) (i : Input) : Bool := (execute hashing i.env s i.info i.msg).toOption.isSome

theorem succeeds_of_executed {s : State} {m : RestrictedExecuteMsg}
    (h : executed s (sc.input s m) = true) : Succeeds hashing s (sc.input s m) m :=
  ⟨rfl, rfl, exists_ok_of_isSome h⟩

theorem regular {s : State} {m : RestrictedExecuteMsg}
    (h : ∀ cs cons, m ≠ .forceUpdateClient clientId cs cons) :
    Regular sc.kind.client clientId s (sc.input s m) :=
  ⟨hostedBy_input _ _ _ _ _, fun cs cons hmsg => h cs cons (ExecuteMsg.restricted.inj hmsg)⟩

theorem frozenBy (h : executed (run hashing .init sc.created) sc.misbehaviour = true) :
    FrozenBy sc.kind hashing clientId sc.created sc.misbehaviour :=
  ⟨hostedBy_input _ _ _ _ _, [], "relayer", sc.succeeds_of_executed h⟩

/-- The frozen client lets the connection be opened. -/
def Opens : Prop :=
  FrozenBy sc.kind hashing clientId sc.created sc.misbehaviour ∧
    Further hashing sc.created sc.misbehaviour [sc.openTry sc.frozen []] (Regular sc.kind.client clientId) ∧
    ¬ Further hashing sc.created sc.misbehaviour [sc.openTry sc.frozen []] fun s j =>
      ¬ Authorises hashing clientId s j

theorem opens (hfrozen : executed (run hashing .init sc.created) sc.misbehaviour = true)
    (hopened : executed sc.frozen (sc.openTry sc.frozen []) = true) : sc.Opens := by
  refine ⟨sc.frozenBy hfrozen, ⟨sc.regular fun _ _ h => (nomatch h), trivial⟩, ?_⟩
  rintro ⟨hnot, -⟩
  exact hnot (.inr ⟨_, _, rfl, rfl, rfl, sc.succeeds_of_executed hopened⟩)

end Scene

/-- Bytes that are no proof, after an update that is refused. -/
def refused : List Input :=
  let update := cometbls.input cometbls.frozen (.updateClient clientId [] "relayer")
  [update, cometbls.openTry (step hashing cometbls.frozen update).1 [1]]

namespace Sol

open CometBlsClient CometBlsClient.Sol

def deployment : Deployment where
  ibcHandler := [1]
  verifyZkp := Sample.solAcceptAll
  signedHeaderHash h := beBytes 8 h.height.toNat
  hashes := Ics23.Sample.hashes
  keccak256 := id
  membershipProof _ := (⟨[], [], [], []⟩, ⟨[], [], [], []⟩)
  nonMembershipProof _ := (⟨[], ⟨[], [], [], []⟩, ⟨[], [], [], []⟩⟩, ⟨[], [], [], []⟩)

def callEnv : CallEnv := ⟨[1], false, 101⟩

/-- Another application hash is stored for block 8. -/
def storage : Storage where
  clientStates _ := (Sample.client 200000000000).toSol
  consensusStates _ := Function.update (fun _ => Sample.trusted 5) 8
    ⟨100000000000, Sample.hash 9, Sample.hash 3⟩

def conflict : Call := .updateClient 1 Sample.block.toSol

end Sol

end FrozenSample

open FrozenSample

/-- A frozen cometbls client, an update and a message without a proof; and an EVM client frozen by a
    conflict. -/
theorem frozen_authorises_sample :
    Further hashing cometbls.created cometbls.misbehaviour refused
      (fun s j => ¬ Authorises hashing clientId s j) ∧
      ∃ s', CometBlsClient.Sol.execute Sol.deployment Sol.callEnv Sol.storage Sol.conflict = .ok s' ∧
        CometBlsClient.Sol.Refuses Sol.deployment 1 s' Sol.callEnv := by
  have hregular : Further hashing cometbls.created cometbls.misbehaviour refused
      (Regular cometbls.kind.client clientId) :=
    ⟨cometbls.regular fun _ _ h => (nomatch h), cometbls.regular fun _ _ h => (nomatch h), trivial⟩
  obtain ⟨-, hnothing, hsol⟩ := frozen_authorises cometbls.kind hashing clientId cometbls.created
    cometbls.misbehaviour refused (cometbls.frozenBy (by decide)) hregular
  refine ⟨hnothing ⟨?_, ?_, trivial⟩, ?_⟩
  · rintro ⟨m, q, hmsg, hquery, -⟩
    cases hmsg
    cases hquery
  · rintro ⟨m, q, hmsg, hquery, -, hvalid⟩
    cases hmsg
    cases hquery
    obtain ⟨proof, cons, hproof, -⟩ := hvalid
    cases hproof
  · obtain ⟨s', hs'⟩ := exists_ok_of_isSome
      (x := CometBlsClient.Sol.execute Sol.deployment Sol.callEnv Sol.storage Sol.conflict) (by decide)
    refine ⟨s', hs', hsol _ _ _ _ _ 1 [] hs' ⟨rfl, by decide, ?_⟩ (fun _ h => nomatch h) _⟩
    intro t ht
    obtain rfl : t = 100000000000 := by
      have htime : CometBlsClient.Sol.untrustedTimestamp CometBlsClient.Sample.block.toSol.signedHeader =
          .ok 100000000000 := by decide
      exact Except.ok.inj (ht.symm.trans htime)
    decide

/-- **A connection is opened by a proof under a frozen client**, a cometbls and an ethereum client. -/
theorem frozen_opens_connection : cometbls.Opens ∧ ethereum.Opens :=
  ⟨cometbls.opens (by decide +kernel) (by decide +kernel),
    ethereum.opens (by decide +kernel) (by decide +kernel)⟩

end UnionVoyager.Light
