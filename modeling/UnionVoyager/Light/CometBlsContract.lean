import UnionVoyager.Ics23.Solidity
import UnionVoyager.Lib.Machine
import UnionVoyager.Light.CometBlsClient

/-!
# `CometblsClient.sol` as a contract

The two mappings of the EVM client, its calls, and runs of them.

* `updateClient`, `misbehaviour`, `verifyMembership`, … — the calls.
* `run_frozen` — **a frozen client reverts every update and every verification**, until it is replaced.
-/

namespace UnionVoyager.Light.CometBlsClient.Sol

open Lib CometBls Function
open Ics23.Port.Solidity (verifyChainedMembership verifyChainedNonMembership Stop NonExistenceProof)

structure Storage where
  clientStates : UInt32 → ClientState
  consensusStates : UInt32 → UInt64 → ConsensusState

inductive Refusal where
  | client (e : Error)
  | clientFrozen
  | invalidInitialConsensusState
  | notIBC
  | enforcedPause
  | ics23 (r : Ics23.Port.Solidity.Revert)

/-- The handler, and the functions of the EVM and of the verifiers. -/
structure Deployment where
  ibcHandler : Bytes
  verifyZkp : ZkpVerifier
  /-- `keccak256 ∘ abi.encode`. -/
  signedHeaderHash : SolSignedHeader → H256
  hashes : Ics23.Hashes
  keccak256 : Bytes → Bytes
  membershipProof : Bytes → Ics23.Port.ExistenceProof × Ics23.Port.ExistenceProof
  nonMembershipProof : Bytes → NonExistenceProof × Ics23.Port.ExistenceProof

/-- What a call sees of the chain. -/
structure CallEnv where
  sender : Bytes
  paused : Bool
  timestamp : Nat

variable (d : Deployment) (env : CallEnv) (s : Storage)

def onlyIBC : Except Refusal Unit := ensure (env.sender = d.ibcHandler) .notIBC

def whenNotPaused : Except Refusal Unit := ensure (env.paused = false) .enforcedPause

section

variable (clientId : UInt32)

def isFrozenImpl : Bool := decide (0 < (s.clientStates clientId).frozenHeight)

def writeClientState (clientState : ClientState) : Storage :=
  { s with clientStates := update s.clientStates clientId clientState }

def writeConsensusState (height : UInt64) (consensusState : ConsensusState) : Storage :=
  { s with consensusStates :=
      update s.consensusStates clientId (update (s.consensusStates clientId) height consensusState) }

def createClient (clientState : ClientState) (consensusState : ConsensusState) :
    Except Refusal Storage := do
  onlyIBC d env
  whenNotPaused env
  ensure (¬ (clientState.latestHeight = 0 ∨ consensusState.timestamp = 0)) .invalidInitialConsensusState
  pure (writeConsensusState (writeClientState s clientId clientState) clientId
    clientState.latestHeight consensusState)

def forceUpdateClient (clientState : ClientState) (consensusState : ConsensusState) :
    Except Refusal Storage := do
  onlyIBC d env
  whenNotPaused env
  pure (writeConsensusState (writeClientState s clientId clientState) clientId
    clientState.latestHeight consensusState)

def updateClient (header : Header) : Except Refusal Storage := do
  onlyIBC d env
  whenNotPaused env
  let clientState := s.clientStates clientId
  ensure (¬ 0 < clientState.frozenHeight) .clientFrozen
  let stored := s.consensusStates clientId header.signedHeader.height
  let consensusState := s.consensusStates clientId header.trustedHeight
  let (clientState, consensusState) ←
    (acceptHeader d.verifyZkp env.timestamp clientState stored consensusState header).mapError .client
  pure (writeConsensusState (writeClientState s clientId clientState) clientId
    header.signedHeader.height consensusState)

def submitMisbehaviour (m : Misbehaviour) : Except Refusal Storage := do
  onlyIBC d env
  whenNotPaused env
  let clientState ← (misbehaviour d.verifyZkp env.timestamp d.signedHeaderHash (s.consensusStates clientId)
    (s.clientStates clientId) m).mapError .client
  pure (writeClientState s clientId clientState)

end

/--
    `abi.encodePacked(WASMD_CONTRACT_STORE_PREFIX, contractAddress, IBC_UNION_COSMWASM_COMMITMENT_PREFIX,
    path)`.
    -/
def storePath (contractAddress : Word) (path : Bytes) : Bytes := [3] ++ contractAddress.val ++ [0] ++ path

def verifyMembership (clientId : UInt32) (height : UInt64) (proof path value : Bytes) :
    Except Refusal Bool := do
  whenNotPaused env
  ensure (isFrozenImpl s clientId = false) .clientFrozen
  let contractAddress := (s.clientStates clientId).contractAddress
  let appHash := (s.consensusStates clientId height).appHash
  let (proof₀, proof₁) := d.membershipProof proof
  match verifyChainedMembership d.hashes d.keccak256 proof₀ proof₁ appHash.val (utf8 "wasm")
      (storePath contractAddress path) value with
  | .ok _ => pure true
  | .error _ => pure false

def verifyNonMembership (clientId : UInt32) (height : UInt64) (proof path : Bytes) : Except Refusal Bool := do
  whenNotPaused env
  ensure (isFrozenImpl s clientId = false) .clientFrozen
  let contractAddress := (s.clientStates clientId).contractAddress
  let appHash := (s.consensusStates clientId height).appHash
  let (nonexist, exist) := d.nonMembershipProof proof
  match verifyChainedNonMembership d.hashes d.keccak256 nonexist exist appHash.val (utf8 "wasm")
      (storePath contractAddress path) with
  | .ok _ => pure true
  | .error (.code _) => pure false
  | .error (.revert r) => throw (.ics23 r)

inductive Call where
  | createClient (clientId : UInt32) (clientState : ClientState) (consensusState : ConsensusState)
  | updateClient (clientId : UInt32) (header : Header)
  | misbehaviour (clientId : UInt32) (m : Misbehaviour)
  | forceUpdateClient (clientId : UInt32) (clientState : ClientState) (consensusState : ConsensusState)

def execute : Call → Except Refusal Storage
  | .createClient c clientState consensusState => createClient d env s c clientState consensusState
  | .updateClient c header => updateClient d env s c header
  | .misbehaviour c m => submitMisbehaviour d env s c m
  | .forceUpdateClient c clientState consensusState => forceUpdateClient d env s c clientState consensusState

/-- A call that reverts leaves no trace. -/
def step (s : Storage) (i : CallEnv × Call) : Storage × List Unit :=
    ((execute d i.1 s i.2).toOption.getD s, [])

def run (s : Storage) (is : List (CallEnv × Call)) : Storage := Machine.run (step d) s is

/-- The client is not replaced.  The handler creates no client under the id of another one. -/
def Call.Keeps (c : UInt32) : Call → Prop
  | .createClient c' _ _ => c' ≠ c
  | .forceUpdateClient c' _ _ => c' ≠ c
  | _ => True

/-- A misbehaviour of `c`, or an update with a header for a stored height that says something else. -/
def Call.Freezes (c : UInt32) (s : Storage) : Call → Prop
  | .misbehaviour c' _ => c' = c
  | .updateClient c' header => c' = c ∧
      let stored := s.consensusStates c header.signedHeader.height
      stored.timestamp ≠ 0 ∧ ∀ t, untrustedTimestamp header.signedHeader = .ok t →
        ⟨t, header.signedHeader.appHash, header.signedHeader.nextValidatorsHash⟩ ≠ stored
  | _ => False

/-- The call is not executed. -/
def Reverts {α : Type} (x : Except Refusal α) : Prop := ∃ e, x = .error e

variable {d : Deployment} {env : CallEnv} {s s' : Storage} {c : UInt32}

theorem reverts_of_not_ok {α : Type} {x : Except Refusal α} (h : ∀ a, x ≠ .ok a) : Reverts x := by
  cases x with
  | error e => exact ⟨e, rfl⟩
  | ok a => exact absurd rfl (h a)

/-- Everything a frozen client is asked reverts. -/
structure Refuses (d : Deployment) (c : UInt32) (s : Storage) (env : CallEnv) : Prop where
  updateClient : ∀ header, Reverts (updateClient d env s c header)
  verifyMembership : ∀ height proof path value, Reverts (verifyMembership d env s c height proof path value)
  verifyNonMembership : ∀ height proof path, Reverts (verifyNonMembership d env s c height proof path)

theorem frozen_refuses (h : isFrozenImpl s c = true) (env : CallEnv) : Refuses d c s env where
  updateClient header := reverts_of_not_ok fun s' hx => by
    simp only [Sol.updateClient, bind_eq_ok, ensure_eq_ok] at hx
    obtain ⟨_, -, _, -, _, hnot, -⟩ := hx
    exact absurd (of_decide_eq_true h) hnot
  verifyMembership height proof path value := reverts_of_not_ok fun b hx => by
    simp only [Sol.verifyMembership, bind_eq_ok, ensure_eq_ok] at hx
    obtain ⟨_, -, _, hnot, -⟩ := hx
    rw [h] at hnot
    cases hnot
  verifyNonMembership height proof path := reverts_of_not_ok fun b hx => by
    simp only [Sol.verifyNonMembership, bind_eq_ok, ensure_eq_ok] at hx
    obtain ⟨_, -, _, hnot, -⟩ := hx
    rw [h] at hnot
    cases hnot

/-! ## Frozen storage -/

@[simp] theorem isFrozenImpl_writeConsensusState (c' : UInt32) (height : UInt64)
    (consensusState : ConsensusState) :
    isFrozenImpl (writeConsensusState s c' height consensusState) c = isFrozenImpl s c := rfl

@[simp] theorem isFrozenImpl_writeClientState_self (clientState : ClientState) :
    isFrozenImpl (writeClientState s c clientState) c = decide (0 < clientState.frozenHeight) := by
  simp [isFrozenImpl, writeClientState]

theorem isFrozenImpl_writeClientState_of_ne {c' : UInt32} (h : c ≠ c') (clientState : ClientState) :
    isFrozenImpl (writeClientState s c' clientState) c = isFrozenImpl s c := by
  show decide (0 < (update s.clientStates c' clientState c).frozenHeight) = isFrozenImpl s c
  rw [update_of_ne h]
  rfl

theorem updateClient_ok {c' : UInt32} {header : Header} (h : updateClient d env s c' header = .ok s') :
    ∃ t, untrustedTimestamp header.signedHeader = .ok t ∧ ∃ clientState consensusState,
      updateState (s.clientStates c') (s.consensusStates c' header.signedHeader.height) header
        header.signedHeader.height t = (clientState, consensusState) ∧
      s' = writeConsensusState (writeClientState s c' clientState) c' header.signedHeader.height
        consensusState := by
  simp only [updateClient, bind_eq_ok, mapError_eq_ok, pure_eq_ok] at h
  obtain ⟨_, -, _, -, _, -, ⟨clientState, consensusState⟩, haccept, rfl⟩ := h
  simp only [acceptHeader, bind_eq_ok, pure_eq_ok] at haccept
  obtain ⟨⟨height, t⟩, hver, hupd⟩ := haccept
  simp only [verifyHeader, bind_eq_ok, pure_eq_ok, Prod.mk.injEq] at hver
  obtain ⟨_, -, _, -, t', ht, _, -, _, -, _, -, _, -, _, -, _, -, _, -, _, -, rfl, rfl⟩ := hver
  exact ⟨t', ht, clientState, consensusState, hupd, rfl⟩

theorem submitMisbehaviour_ok {c' : UInt32} {m : Misbehaviour}
    (h : submitMisbehaviour d env s c' m = .ok s') :
    s' = writeClientState s c' { s.clientStates c' with frozenHeight := 1 } := by
  simp only [submitMisbehaviour, bind_eq_ok, mapError_eq_ok, pure_eq_ok] at h
  obtain ⟨_, -, _, -, clientState, hfrozen, rfl⟩ := h
  simp only [misbehaviour, bind_eq_ok, pure_eq_ok] at hfrozen
  obtain ⟨_, -, _, -, rfl⟩ := hfrozen
  rfl

theorem freezes {call : Call} (h : execute d env s call = .ok s') (hf : call.Freezes c s) :
    isFrozenImpl s' c = true := by
  cases call with
  | misbehaviour c' m =>
    obtain rfl : c' = c := hf
    rw [submitMisbehaviour_ok h, isFrozenImpl_writeClientState_self]
    rfl
  | updateClient c' header =>
    obtain ⟨rfl, hstored, hdiffers⟩ := hf
    obtain ⟨t, ht, clientState, consensusState, hupd, rfl⟩ := updateClient_ok h
    rw [isFrozenImpl_writeConsensusState, isFrozenImpl_writeClientState_self]
    unfold updateState at hupd
    rw [if_pos hstored, if_pos (hdiffers t ht)] at hupd
    obtain ⟨rfl, -⟩ := Prod.mk.inj hupd
    rfl
  | createClient | forceUpdateClient => cases hf

theorem execute_frozen {call : Call} (h : execute d env s call = .ok s') (hkeeps : call.Keeps c)
    (hf : isFrozenImpl s c = true) : isFrozenImpl s' c = true := by
  cases call with
  | createClient c' clientState consensusState =>
    have hne : c ≠ c' := Ne.symm hkeeps
    simp only [execute, createClient, bind_eq_ok, pure_eq_ok] at h
    obtain ⟨_, -, _, -, _, -, rfl⟩ := h
    rw [isFrozenImpl_writeConsensusState, isFrozenImpl_writeClientState_of_ne hne]
    exact hf
  | updateClient c' header =>
    by_cases hc : c = c'
    · subst hc
      obtain ⟨e, he⟩ := (frozen_refuses hf env).updateClient header
      rw [show execute d env s (.updateClient c header) = .error e from he] at h
      cases h
    · obtain ⟨t, -, clientState, consensusState, -, rfl⟩ := updateClient_ok h
      rw [isFrozenImpl_writeConsensusState, isFrozenImpl_writeClientState_of_ne hc]
      exact hf
  | misbehaviour c' m =>
    rw [submitMisbehaviour_ok h]
    by_cases hc : c = c'
    · subst hc
      rw [isFrozenImpl_writeClientState_self]
      rfl
    · rw [isFrozenImpl_writeClientState_of_ne hc]
      exact hf
  | forceUpdateClient c' clientState consensusState =>
    have hne : c ≠ c' := Ne.symm hkeeps
    simp only [execute, forceUpdateClient, bind_eq_ok, pure_eq_ok] at h
    obtain ⟨_, -, _, -, rfl⟩ := h
    rw [isFrozenImpl_writeConsensusState, isFrozenImpl_writeClientState_of_ne hne]
    exact hf

theorem step_frozen (s : Storage) (i : CallEnv × Call) (hkeeps : i.2.Keeps c)
    (hf : isFrozenImpl s c = true) : isFrozenImpl (step d s i).1 c = true := by
  unfold step
  cases hx : execute d i.1 s i.2 with
  | error e => exact hf
  | ok s' => exact execute_frozen hx hkeeps hf

theorem run_frozen {call : Call} (h : execute d env s call = .ok s') (hf : call.Freezes c s)
    {is : List (CallEnv × Call)} (hkeeps : ∀ i ∈ is, i.2.Keeps c) (env' : CallEnv) :
      Refuses d c (run d s' is) env' := by
  have hfrozen : isFrozenImpl (run d s' is) c = true :=
    Machine.invariant_of_meets (I := fun t _ => isFrozenImpl t c = true)
      (fun t _ i ht hi => step_frozen t i hi ht) (freezes h hf) (Machine.meets_of_forall s' hkeeps)
  exact frozen_refuses hfrozen env'

end UnionVoyager.Light.CometBlsClient.Sol
