import UnionVoyager.Zkgm.State

/-!
# The token minters

The minter holds what was escrowed and mints and burns what is wrapped.  There are two contracts for it,
`cw20-token-minter` and `osmosis-tokenfactory-token-minter`; here is what they do with the four messages
that move tokens.

* `Cw20Minter.execute`, `TokenfactoryMinter.execute` — the contracts.
-/

namespace UnionVoyager.Zkgm

open Lib
open Core (Addr Coin)

/-! ## What a minter asks of the chain -/

/-- A message of a minter: to the bank, to a cw20 contract, or to the token factory. -/
inductive TokenMsg where
  | bankSend (toAddress denom : String) (amount : Nat)
  | cw20Mint (contract recipient : String) (amount : Nat)
  | cw20Burn (contract : String) (amount : Nat)
  | cw20BurnFrom (contract owner : String) (amount : Nat)
  | cw20Transfer (contract recipient : String) (amount : Nat)
  | cw20TransferFrom (contract owner recipient : String) (amount : Nat)
  | factoryMint (denom : String) (amount : Nat) (mintToAddress : Addr)
  | factoryBurn (denom : String) (amount : Nat) (burnFromAddress : Addr)

inductive MinterError where
  | std
  | onlyAdmin
  | invalidFunds (needed given : Nat)
  | unauthorizedWhenSelfOwned
  | unauthorizedThirdParty (owner sender : Addr)
  | tokenOrderV1DeploymentIsDeprecated

abbrev MinterResult := Except MinterError

/-- The chain as a minter with the storage `σ` sees it, and how it creates a denom, which is left open. -/
structure MinterEnv (σ : Type) where
  contractAddress : Addr
  /-- `query_wasm_contract_info` does not fail. -/
  contractExists : String → Bool
  createDenomV2 : σ → MessageInfo → MinterMsg → MinterResult (σ × List TokenMsg)

/-- The amount of the first coin of a denom, zero if there is none. -/
def fundAmount (funds : List Coin) (denom : String) : Nat :=
  ((funds.find? fun c => c.denom = denom).map Coin.amount).getD 0

/-! ## `cw20-token-minter` -/

/-- `CONFIG.admin` and the tokens noted as native. -/
structure Cw20Minter where
  admin : Addr
  nativeTokens : String → Bool

variable {denom : String} {amount : Nat} {recipient holder owner : Addr}

namespace Cw20Minter

def saveNativeToken (s : Cw20Minter) (token : String) : Cw20Minter :=
  { s with nativeTokens := Function.update s.nativeTokens token true }

def execute (env : MinterEnv Cw20Minter) (info : MessageInfo) (msg : MinterMsg) (s : Cw20Minter) :
    MinterResult (Cw20Minter × List TokenMsg) :=
  if s.admin ≠ info.sender then
    .error .onlyAdmin
  else
    match msg with
    | .createDenomV2 .. => env.createDenomV2 s info msg
    | .createDenom .. => .error .tokenOrderV1DeploymentIsDeprecated
    | .mintTokens denom amount mintToAddress => .ok (s, [.cw20Mint denom mintToAddress amount])
    | .burnTokens denom amount _ sender =>
      -- no allowance is needed to burn what the minter holds itself
      if sender = env.contractAddress then
        .ok (s, [.cw20Burn denom amount])
      else
        .ok (s, [.cw20BurnFrom denom sender amount])
    | .escrow sender denom recipient amount =>
      if info.funds.any (fun coin => coin.denom = denom ∧ coin.amount = amount) then
        .ok (s.saveNativeToken denom, [])
      else
        .ok (s, [.cw20TransferFrom denom sender recipient amount])
    | .unescrow denom recipient amount =>
      if s.nativeTokens denom then
        .ok (s, [.bankSend recipient denom amount])
      else
        .ok (s, [.cw20Transfer denom recipient amount])

variable {env : MinterEnv Cw20Minter} {s : Cw20Minter} {funds : List Coin}

theorem execute_mintTokens : s.execute env ⟨s.admin, funds⟩ (.mintTokens denom amount recipient) =
      .ok (s, [.cw20Mint denom recipient amount]) := by
  unfold execute
  rw [if_neg (not_not_intro rfl)]

theorem execute_burnTokens : s.execute env ⟨s.admin, funds⟩
      (.burnTokens denom amount holder env.contractAddress) =
      .ok (s, [.cw20Burn denom amount]) := by
  unfold execute
  rw [if_neg (not_not_intro rfl)]
  exact if_pos rfl

theorem execute_escrow_nil : s.execute env ⟨s.admin, []⟩ (.escrow owner denom recipient amount) =
      .ok (s, [.cw20TransferFrom denom owner recipient amount]) := by
  unfold execute
  rw [if_neg (not_not_intro rfl)]
  rfl

theorem execute_escrow_coin : s.execute env ⟨s.admin, [⟨denom, amount⟩]⟩
      (.escrow owner denom recipient amount) = .ok (s.saveNativeToken denom, []) := by
  unfold execute
  rw [if_neg (not_not_intro rfl)]
  simp

theorem execute_unescrow {recipient : String} :
      s.execute env ⟨s.admin, funds⟩ (.unescrow denom recipient amount) =
      .ok (s, [if s.nativeTokens denom then .bankSend recipient denom amount
        else .cw20Transfer denom recipient amount]) := by
  unfold execute
  rw [if_neg (not_not_intro rfl)]
  by_cases hnative : s.nativeTokens denom = true <;> simp [hnative]

end Cw20Minter

/-! ## `osmosis-tokenfactory-token-minter` -/

structure TokenfactoryMinter where
  zkgmAddr : Addr
  operator : Addr
  tokenOwners : String → Option Addr

namespace TokenfactoryMinter

def assertIsZkgm (s : TokenfactoryMinter) (info : MessageInfo) : MinterResult Unit :=
  ensure (info.sender = s.zkgmAddr) .onlyAdmin

section

variable (env : MinterEnv TokenfactoryMinter) (s : TokenfactoryMinter) (info : MessageInfo)
  (denom : String)

def assertIsOwner : MinterResult Unit := do
  let owner ← orErr (s.tokenOwners denom) .std
  if owner = env.contractAddress then
    ensure (info.sender = s.zkgmAddr ∨ info.sender = s.operator ∨ info.sender = env.contractAddress)
      .unauthorizedWhenSelfOwned
  else
    ensure (owner = info.sender) (.unauthorizedThirdParty owner info.sender)

def executeAdminOperation (op : TokenMsg) : MinterResult (List TokenMsg) := do
  assertIsOwner env s info denom
  pure [op]

end

def ensureFunds (info : MessageInfo) (denom : String) (amount : Nat) : MinterResult Unit :=
  ensure (fundAmount info.funds denom = amount) (.invalidFunds amount (fundAmount info.funds denom))

def escrow (s : TokenfactoryMinter) (info : MessageInfo) (denom : String) (amount : Nat) :
    MinterResult (List TokenMsg) := do
  s.assertIsZkgm info
  ensureFunds info denom amount
  pure []

def unescrow (s : TokenfactoryMinter) (info : MessageInfo) (recipient denom : String) (amount : Nat) :
    MinterResult (List TokenMsg) := do
  s.assertIsZkgm info
  pure [.bankSend recipient denom amount]

def wrappedBurnTokens (env : MinterEnv TokenfactoryMinter) (s : TokenfactoryMinter)
    (info : MessageInfo) (denom : String) (amount : Nat) : MinterResult (List TokenMsg) := do
  -- the funds are to be attached, for they are burned from the owner of the denom
  ensureFunds info denom amount
  if env.contractExists denom then
    s.assertIsZkgm info
    pure [.cw20Burn denom amount]
  else
    let tokenOwner ← orErr (s.tokenOwners denom) .std
    executeAdminOperation env s info denom (.factoryBurn denom amount tokenOwner)

def execute (env : MinterEnv TokenfactoryMinter) (info : MessageInfo) (msg : MinterMsg)
    (s : TokenfactoryMinter) : MinterResult (TokenfactoryMinter × List TokenMsg) :=
  match msg with
  | .createDenom .. => .error .tokenOrderV1DeploymentIsDeprecated
  | .createDenomV2 .. => env.createDenomV2 s info msg
  | .mintTokens denom amount mintToAddress => do
    let messages ← executeAdminOperation env s info denom (.factoryMint denom amount mintToAddress)
    pure (s, messages)
  | .burnTokens denom amount _ _ => do
    let messages ← wrappedBurnTokens env s info denom amount
    pure (s, messages)
  | .escrow _ denom _ amount => do
    let messages ← s.escrow info denom amount
    pure (s, messages)
  | .unescrow denom recipient amount => do
    let messages ← s.unescrow info recipient denom amount
    pure (s, messages)

variable {env : MinterEnv TokenfactoryMinter} {s : TokenfactoryMinter} {funds : List Coin}
  {r : TokenfactoryMinter × List TokenMsg}

theorem assertIsOwner_zkgm {u : Unit} : assertIsOwner env s ⟨s.zkgmAddr, funds⟩ denom = .ok u ↔
      s.tokenOwners denom = some env.contractAddress ∨ s.tokenOwners denom = some s.zkgmAddr := by
  unfold assertIsOwner
  cases howner : s.tokenOwners denom with
  | none => simp [orErr]
  | some owner =>
    simp only [orErr, ok_bind, Option.some.injEq]
    by_cases hself : owner = env.contractAddress
    · simp [hself, ensure]
    · simp [hself]

theorem execute_mintTokens :
    s.execute env ⟨s.zkgmAddr, funds⟩ (.mintTokens denom amount recipient) = .ok r ↔
      (s.tokenOwners denom = some env.contractAddress ∨ s.tokenOwners denom = some s.zkgmAddr) ∧
        r = (s, [.factoryMint denom amount recipient]) := by
  unfold execute executeAdminOperation
  simp only [bind_eq_ok, pure_eq_ok, assertIsOwner_zkgm]
  constructor
  · rintro ⟨messages, ⟨_, howner, rfl⟩, rfl⟩
    exact ⟨howner, rfl⟩
  · rintro ⟨howner, rfl⟩
    exact ⟨_, ⟨(), howner, rfl⟩, rfl⟩

/-- **Nothing is burned without coins.** -/
theorem execute_burnTokens_ne_ok {sender : Addr} {info : MessageInfo} (hfunds : info.funds = [])
    (hamount : amount ≠ 0) (r : TokenfactoryMinter × List TokenMsg) :
    s.execute env info (.burnTokens denom amount holder sender) ≠ .ok r := by
  intro h
  unfold execute wrappedBurnTokens ensureFunds at h
  simp only [bind_eq_ok, ensure_eq_ok, hfunds] at h
  obtain ⟨_, ⟨_, hzero, -⟩, -⟩ := h
  exact hamount hzero.symm

theorem execute_escrow :
    s.execute env ⟨s.zkgmAddr, funds⟩ (.escrow owner denom recipient amount) = .ok r ↔
      fundAmount funds denom = amount ∧ r = (s, []) := by
  unfold execute escrow assertIsZkgm ensureFunds
  simp only [bind_eq_ok, ensure_eq_ok, pure_eq_ok]
  constructor
  · rintro ⟨messages, ⟨_, -, _, hfunds, rfl⟩, rfl⟩
    exact ⟨hfunds, rfl⟩
  · rintro ⟨hfunds, rfl⟩
    exact ⟨[], ⟨(), trivial, (), hfunds, rfl⟩, rfl⟩

theorem execute_unescrow {recipient : String} :
      s.execute env ⟨s.zkgmAddr, funds⟩ (.unescrow denom recipient amount) =
      .ok (s, [.bankSend recipient denom amount]) := by
  simp only [execute, unescrow, assertIsZkgm, ensure, if_true, ok_bind]
  rfl

end TokenfactoryMinter

/-! ## Either minter -/

/-- A minter with its storage and its environment. -/
inductive Minter where
  | cw20 (env : MinterEnv Cw20Minter) (s : Cw20Minter)
  | tokenfactory (env : MinterEnv TokenfactoryMinter) (s : TokenfactoryMinter)

namespace Minter

def contractAddress : Minter → Addr
  | cw20 env _ => env.contractAddress
  | tokenfactory env _ => env.contractAddress

/-- The zkgm contract that instantiated the minter. -/
def zkgm : Minter → Addr
  | cw20 _ s => s.admin
  | tokenfactory _ s => s.zkgmAddr

def execute (info : MessageInfo) (msg : MinterMsg) : Minter → MinterResult (Minter × List TokenMsg)
  | cw20 env s => do
    let (s, messages) ← s.execute env info msg
    pure (cw20 env s, messages)
  | tokenfactory env s => do
    let (s, messages) ← s.execute env info msg
    pure (tokenfactory env s, messages)

/-- The minter of the token factory only knows coins. -/
def isCw20 : Minter → Bool
  | cw20 .. => true
  | tokenfactory .. => false

end Minter

/-! ## The tokens of the chain -/

/-- The tokens of the chain, over a state `X` of their own, as the minter meets them. -/
structure Chain (X : Type) where
  /-- The coins of a call go from zkgm to the minter. -/
  attach : X → List Coin → Option X
  /-- A message of the minter is carried out; `none` if it fails. -/
  deliver : X → TokenMsg → Option X
  /-- What the minter has at the bank. -/
  bank : X → String → Nat
  /-- What the minter has of a cw20 token; `none` if no contract has this address. -/
  cw20 : X → String → Option Nat
  /-- The minter may mint this much of the token. -/
  mintable : X → String → Nat → Prop

/-- What the bank, cw20 contracts and the token factory promise the minter. -/
structure Chain.Lawful {X : Type} (C : Chain X) (minter : Addr) (validAddr : String → Bool) : Prop where
  attach_nil : ∀ x, C.attach x [] = some x
  /-- Coins that are attached are the minter's, and no contract has the name of a coin. -/
  attach_coin : ∀ {x y c}, C.attach x [c] = some y → c.amount ≤ C.bank y c.denom ∧ C.cw20 y c.denom = none
  /-- The bank sends no empty coins. -/
  bankSend : ∀ {x recipient denom n}, validAddr recipient = true →
    ((∃ y, C.deliver x (.bankSend recipient denom n) = some y) ↔ 0 < n ∧ n ≤ C.bank x denom)
  cw20Transfer : ∀ {x contract recipient n}, validAddr recipient = true →
    ((∃ y, C.deliver x (.cw20Transfer contract recipient n) = some y) ↔
      ∃ b, C.cw20 x contract = some b ∧ n ≤ b)
  cw20Burn : ∀ {x contract n},
    (∃ y, C.deliver x (.cw20Burn contract n) = some y) ↔ ∃ b, C.cw20 x contract = some b ∧ n ≤ b
  cw20Mint : ∀ {x contract recipient n}, validAddr recipient = true →
    ((∃ y, C.deliver x (.cw20Mint contract recipient n) = some y) ↔ C.mintable x contract n)
  factoryMint : ∀ {x denom n recipient}, validAddr recipient = true →
    ((∃ y, C.deliver x (.factoryMint denom n recipient) = some y) ↔ C.mintable x denom n)
  /-- What another owner paid is the minter's. -/
  cw20TransferFrom : ∀ {x y contract owner n}, owner ≠ minter →
    C.deliver x (.cw20TransferFrom contract owner minter n) = some y → ∃ b, C.cw20 y contract = some b ∧ n ≤ b

namespace Minter

variable {X : Type} (C : Chain X)

/-- A call of the minter by `sender` with everything it causes; the messages that were carried out. -/
def carry (sender : Addr) (m : Minter) (x : X) (call : MinterCall) : Option (Minter × X × List TokenMsg) :=
  (C.attach x call.funds).bind fun x =>
    match m.execute ⟨sender, call.funds⟩ call.msg with
    | .ok (m, messages) => (messages.foldlM C.deliver x).map fun x => (m, x, messages)
    | .error _ => none

/-- The calls of a response, one after the other.  There are no other messages. -/
def carryAll (sender : Addr) : Response → Minter → X → Option (Minter × X × List TokenMsg)
  | [], m, x => some (m, x, [])
  | sub :: r, m, x =>
    match sub.msg with
    | .minter call => (m.carry C sender x call).bind fun (m, x, messages) =>
        (carryAll sender r m x).map fun (m, x, rest) => (m, x, messages ++ rest)
    | _ => none

/-- How the minter releases a token: as a coin if it is noted as native. -/
def releaseMsg (denom recipient : String) (amount : Nat) : Minter → TokenMsg
  | cw20 _ s => if s.nativeTokens denom then .bankSend recipient denom amount
      else .cw20Transfer denom recipient amount
  | tokenfactory .. => .bankSend recipient denom amount

def mintMsg (denom recipient : String) (amount : Nat) : Minter → TokenMsg
  | cw20 .. => .cw20Mint denom recipient amount
  | tokenfactory .. => .factoryMint denom amount recipient

def CanRelease (x : X) (denom : String) (amount : Nat) : Minter → Prop
  | cw20 _ s =>
    if s.nativeTokens denom then 0 < amount ∧ amount ≤ C.bank x denom
    else ∃ b, C.cw20 x denom = some b ∧ amount ≤ b
  | tokenfactory .. => 0 < amount ∧ amount ≤ C.bank x denom

/-- The minter mints a token for zkgm. -/
def Mints (denom : String) : Minter → Prop
  | cw20 .. => True
  | tokenfactory env s =>
    s.tokenOwners denom = some env.contractAddress ∨ s.tokenOwners denom = some s.zkgmAddr

variable {C} {validAddr : String → Bool} {m : Minter} {x : X}

theorem execute_unescrow {recipient : String} :
    m.execute ⟨m.zkgm, []⟩ (.unescrow denom recipient amount) =
      .ok (m, [m.releaseMsg denom recipient amount]) := by
  cases m with
  | cw20 env s =>
    show (do let (s, messages) ← s.execute env ⟨s.admin, []⟩ (.unescrow denom recipient amount)
             pure (cw20 env s, messages)) = _
    rw [Cw20Minter.execute_unescrow]
    rfl
  | tokenfactory env s =>
    show (do let (s, messages) ← s.execute env ⟨s.zkgmAddr, []⟩ (.unescrow denom recipient amount)
             pure (tokenfactory env s, messages)) = _
    rw [TokenfactoryMinter.execute_unescrow]
    rfl

theorem execute_mintTokens {r : Minter × List TokenMsg} :
    m.execute ⟨m.zkgm, []⟩ (.mintTokens denom amount recipient) = .ok r ↔
      m.Mints denom ∧ r = (m, [m.mintMsg denom recipient amount]) := by
  cases m with
  | cw20 env s =>
    show (do let (s, messages) ← s.execute env ⟨s.admin, []⟩ (.mintTokens denom amount recipient)
             pure (cw20 env s, messages)) = Except.ok r ↔ _
    rw [Cw20Minter.execute_mintTokens, ok_bind, pure_eq_ok, Mints, true_and]
    exact eq_comm
  | tokenfactory env s =>
    show (do let (s, messages) ← s.execute env ⟨s.zkgmAddr, []⟩ (.mintTokens denom amount recipient)
             pure (tokenfactory env s, messages)) = Except.ok r ↔ _
    simp only [bind_eq_ok, pure_eq_ok, TokenfactoryMinter.execute_mintTokens]
    constructor
    · rintro ⟨_, ⟨howner, rfl⟩, rfl⟩
      exact ⟨howner, rfl⟩
    · rintro ⟨howner, rfl⟩
      exact ⟨_, ⟨howner, rfl⟩, rfl⟩

theorem execute_burnTokens (hamount : amount ≠ 0) {r : Minter × List TokenMsg} :
    m.execute ⟨m.zkgm, []⟩ (.burnTokens denom amount holder m.contractAddress) = .ok r ↔
      m.isCw20 = true ∧ r = (m, [.cw20Burn denom amount]) := by
  cases m with
  | cw20 env s =>
    show (do
      let (s, messages) ← s.execute env ⟨s.admin, []⟩ (.burnTokens denom amount holder env.contractAddress)
      pure (cw20 env s, messages)) = Except.ok r ↔ _
    rw [Cw20Minter.execute_burnTokens, ok_bind, pure_eq_ok, isCw20]
    simp only [true_and]
    exact eq_comm
  | tokenfactory env s =>
    show (do
      let (s, messages) ← s.execute env ⟨s.zkgmAddr, []⟩ (.burnTokens denom amount holder env.contractAddress)
      pure (tokenfactory env s, messages)) = Except.ok r ↔ _
    simp only [bind_eq_ok, isCw20, Bool.false_eq_true, false_and, iff_false]
    rintro ⟨r', hr', -⟩
    exact TokenfactoryMinter.execute_burnTokens_ne_ok rfl hamount r' hr'

theorem deliver_release_iff {recipient : String} (hC : C.Lawful m.contractAddress validAddr)
    (hvalid : validAddr recipient = true) :
    (∃ y, C.deliver x (m.releaseMsg denom recipient amount) = some y) ↔ m.CanRelease C x denom amount := by
  cases m with
  | cw20 env s =>
    unfold releaseMsg CanRelease
    by_cases hnative : s.nativeTokens denom = true
    · simp only [hnative, if_true]
      exact hC.bankSend hvalid
    · simp only [hnative]
      exact hC.cw20Transfer hvalid
  | tokenfactory env s => exact hC.bankSend hvalid

theorem deliver_mint_iff {recipient : String} (hC : C.Lawful m.contractAddress validAddr)
    (hvalid : validAddr recipient = true) :
    (∃ y, C.deliver x (m.mintMsg denom recipient amount) = some y) ↔ C.mintable x denom amount := by
  cases m with
  | cw20 env s => exact hC.cw20Mint hvalid
  | tokenfactory env s => exact hC.factoryMint hvalid

theorem carry_eq_some {sender : Addr} {call : MinterCall} {m' : Minter} {y : X}
    {messages : List TokenMsg} (h : m.carry C sender x call = some (m', y, messages)) :
    ∃ x₁, C.attach x call.funds = some x₁ ∧ m.execute ⟨sender, call.funds⟩ call.msg = .ok (m', messages) ∧
      messages.foldlM C.deliver x₁ = some y := by
  unfold carry at h
  obtain ⟨x₁, hattach, h⟩ := Option.bind_eq_some_iff.mp h
  refine ⟨x₁, hattach, ?_⟩
  split at h
  · rename_i hexec
    obtain ⟨y', hdeliver, heq⟩ := Option.map_eq_some_iff.mp h
    cases heq
    exact ⟨hexec, hdeliver⟩
  · cases h

/-! ## Calls without coins -/

def Carries (C : Chain X) (sender : Addr) (r : Response) (m : Minter) (x : X)
    (messages : List TokenMsg) : Prop :=
  ∃ m' y, carryAll C sender r m x = some (m', y, messages)

variable {sender minter : Addr} {msg : MinterMsg} {message : TokenMsg} {messages : List TokenMsg}

theorem carries_one (hC : C.Lawful m.contractAddress validAddr)
    (h : m.execute ⟨sender, []⟩ msg = .ok (m, [message])) :
    Carries C sender [(CosmosMsg.minter ⟨minter, msg, []⟩).plain] m x messages ↔
      (∃ y, C.deliver x message = some y) ∧ messages = [message] := by
  have hcarry : m.carry C sender x ⟨minter, msg, []⟩ = (C.deliver x message).map fun y =>
      (m, y, [message]) := by
    unfold carry
    simp only [hC.attach_nil, Option.bind_some, h, List.foldlM_cons, List.foldlM_nil]
    cases C.deliver x message <;> rfl
  unfold Carries
  simp only [carryAll, CosmosMsg.plain, hcarry]
  cases hy : C.deliver x message with
  | none => simp
  | some y => simp [eq_comm]

theorem not_carries (hC : C.Lawful m.contractAddress validAddr)
    (h : ∀ r, m.execute ⟨sender, []⟩ msg ≠ .ok r) :
    ¬ Carries C sender [(CosmosMsg.minter ⟨minter, msg, []⟩).plain] m x messages := by
  have hcarry : m.carry C sender x ⟨minter, msg, []⟩ = none := by
    unfold carry
    simp only [hC.attach_nil, Option.bind_some]
    split
    · rename_i hok
      exact absurd hok (h _)
    · rfl
  unfold Carries
  simp [carryAll, CosmosMsg.plain, hcarry]

end Minter

end UnionVoyager.Zkgm
