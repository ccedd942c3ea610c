import UnionVoyager.Lib.Bytes
import UnionVoyager.Lib.Ledger
import UnionVoyager.Lib.Machine
import UnionVoyager.Lib.Result

/-!
# The token-factory backed cw20

A cw20 token whose balances are in the bank.  The balances that the contract kept itself before it was
migrated are minted page by page, by anyone, while the token is in use.

* `doExecute` — the contract; `transact` — a message with the messages it sends, all or nothing.
* `migrateKeys_eq` — a page of the migration takes the last entries off the map.
-/

namespace UnionVoyager.Cw.WrappedTokenfactory

open Lib Lib.Machine Function List

/-! ## The contract -/

abbrev Addr := String

inductive ContractError where
  | std
  | unauthorized
  | cannotSetOwnAccount
  | expired
  | invalidExpiration
  | noAllowance

abbrev Result := Except ContractError

structure BlockInfo where
  height : Nat
  time : Nat

inductive Expiration where
  | atHeight (height : Nat)
  | atTime (time : Nat)
  | never

def Expiration.isExpired (block : BlockInfo) : Expiration → Bool
  | .atHeight height => height ≤ block.height
  | .atTime time => time ≤ block.time
  | .never => false

structure AllowanceResponse where
  allowance : Nat
  expires : Expiration

/-- The balances of cw20-base, in the order of their keys. -/
structure LegacyMap where
  entries : List (Addr × Nat)
  nodup : (entries.map Prod.fst).Nodup

namespace LegacyMap

def keys (m : LegacyMap) : List Addr := m.entries.map Prod.fst

def load (m : LegacyMap) (a : Addr) : Option Nat := (m.entries.find? fun e => e.1 = a).map Prod.snd

def remove (m : LegacyMap) (a : Addr) : LegacyMap where
  entries := m.entries.filter fun e => e.1 ≠ a
  nodup := m.nodup.sublist (List.Sublist.map _ filter_sublist)

end LegacyMap

structure Storage where
  /-- The minter in `TOKEN_INFO`. -/
  mint : Option Addr
  balances : LegacyMap
  allowances : (owner spender : Addr) → Option AllowanceResponse
  allowancesSpender : (spender owner : Addr) → Option AllowanceResponse

inductive ExecuteMsg where
  | migrateBalances (count : Nat)
  | transfer (recipient : String) (amount : Nat)
  | transferFrom (owner recipient : String) (amount : Nat)
  | send (contract : String) (amount : Nat) (msg : Bytes)
  | burn (amount : Nat)
  | burnFrom (owner : String) (amount : Nat)
  | mint (recipient : String) (amount : Nat)
  | increaseAllowance (spender : String) (amount : Nat) (expires : Option Expiration)
  | decreaseAllowance (spender : String) (amount : Nat) (expires : Option Expiration)

inductive TokenFactoryMsg where
  | mintTokens (denom : String) (amount : Nat) (mintToAddress : Addr)
  | burnTokens (denom : String) (amount : Nat) (burnFromAddress : Addr)
  | forceTransfer (denom : String) (amount : Nat) (fromAddress toAddress : Addr)

/-- A message to the token factory, or the call of the contract that tokens were sent to. -/
inductive Msg where
  | custom (msg : TokenFactoryMsg)
  | receive (contract : Addr) (sender : Addr) (amount : Nat) (msg : Bytes)

/-- The address of the contract, and the address validation of the chain. -/
structure Env where
  contract : Addr
  addrValidate : String → Bool

variable (env : Env)

def selfTfDenom : String := "factory/" ++ env.contract ++ "/"

def validate (a : String) : Result Addr := if env.addrValidate a then .ok a else .error .std

def UINT128_MAX : Nat := 2 ^ 128 - 1

/-- The expiration after a change of an allowance. -/
def newExpiration (block : BlockInfo) (old : Expiration) : Option Expiration → Result Expiration
  | some exp => if exp.isExpired block then .error .invalidExpiration else .ok exp
  | none => .ok old

/-- The closure of `execute_increase_allowance`. -/
def increased (block : BlockInfo) (amount : Nat) (expires : Option Expiration)
    (allow : Option AllowanceResponse) : Result AllowanceResponse := do
  let val := allow.getD ⟨0, .never⟩
  let expires ← newExpiration block val.expires expires
  pure ⟨min (val.allowance + amount) UINT128_MAX, expires⟩

/-- The closure of `deduct_allowance`. -/
def deducted (block : BlockInfo) (amount : Nat) : Option AllowanceResponse → Result AllowanceResponse
  | some a =>
    if a.expires.isExpired block then .error .expired
    else if amount ≤ a.allowance then .ok { a with allowance := a.allowance - amount }
    else .error .std
  | none => .error .noAllowance

/-- The entry of two keys of a map. -/
def put {α : Type} (f : Addr → Addr → α) (a b : Addr) (x : α) : Addr → Addr → α :=
  update f a (update (f a) b x)

section

variable (s : Storage) (block : BlockInfo) (sender : Addr) (spender : String) (amount : Nat)
  (expires : Option Expiration)

def increaseAllowance : Result Storage := do
  let spender ← validate env spender
  ensure (spender ≠ sender) .cannotSetOwnAccount
  let val ← increased block amount expires (s.allowances sender spender)
  let s := { s with allowances := put s.allowances sender spender (some val) }
  let val ← increased block amount expires (s.allowancesSpender spender sender)
  pure { s with allowancesSpender := put s.allowancesSpender spender sender (some val) }

def decreaseAllowance : Result Storage := do
  let spender ← validate env spender
  ensure (spender ≠ sender) .cannotSetOwnAccount
  let allowance ← orErr (s.allowances sender spender) .std
  if amount < allowance.allowance then
    let expires ← newExpiration block allowance.expires expires
    let val : AllowanceResponse := ⟨allowance.allowance - amount, expires⟩
    pure { s with
      allowances := put s.allowances sender spender (some val)
      allowancesSpender := put s.allowancesSpender spender sender (some val) }
  else
    pure { s with
      allowances := put s.allowances sender spender none
      allowancesSpender := put s.allowancesSpender spender sender none }

end

def deductAllowance (s : Storage) (owner spender : Addr) (block : BlockInfo) (amount : Nat) :
    Result Storage := do
  let val ← deducted block amount (s.allowances owner spender)
  let s := { s with allowances := put s.allowances owner spender (some val) }
  let val ← deducted block amount (s.allowancesSpender spender owner)
  pure { s with allowancesSpender := put s.allowancesSpender spender owner (some val) }

/-- The loop of `MigrateBalances`: the entries of the keys are removed. -/
def migrateKeys (m : LegacyMap) : List Addr → LegacyMap × List (Addr × Nat)
  | [] => (m, [])
  | a :: as =>
    -- the key is there
    let amount := (m.load a).getD 0
    let (m', es) := migrateKeys (m.remove a) as
    (m', (a, amount) :: es)

/-- A balance of zero is not minted. -/
def mintMigrated (es : List (Addr × Nat)) : List Msg :=
  (es.filter fun e => e.2 ≠ 0).map fun e => .custom (.mintTokens (selfTfDenom env) e.2 e.1)

def doExecute (s : Storage) (block : BlockInfo) (sender : Addr) : ExecuteMsg → Result (Storage × List Msg)
  | .migrateBalances count =>
    let (balances, es) := migrateKeys s.balances (s.balances.keys.reverse.take count)
    .ok ({ s with balances := balances }, mintMigrated env es)
  | .transfer recipient amount => do
    let recipient ← validate env recipient
    pure (s, [.custom (.forceTransfer (selfTfDenom env) amount sender recipient)])
  | .send contract amount msg => do
    let contract ← validate env contract
    pure (s, [.custom (.forceTransfer (selfTfDenom env) amount sender contract),
      .receive contract sender amount msg])
  | .mint recipient amount => do
    let minter ← orErr s.mint .std
    ensure (minter = sender) .std
    let recipient ← validate env recipient
    pure (s, [.custom (.mintTokens (selfTfDenom env) amount recipient)])
  | .transferFrom owner recipient amount => do
    let recipient ← validate env recipient
    let owner ← validate env owner
    let s ← deductAllowance s owner sender block amount
    pure (s, [.custom (.forceTransfer (selfTfDenom env) amount owner recipient)])
  | .burnFrom owner amount => do
    let owner ← validate env owner
    let s ← deductAllowance s owner sender block amount
    pure (s, [.custom (.burnTokens (selfTfDenom env) amount owner)])
  | .burn amount => .ok (s, [.custom (.burnTokens (selfTfDenom env) amount sender)])
  | .increaseAllowance spender amount expires => do
    let s ← increaseAllowance env s block sender spender amount expires
    pure (s, [])
  | .decreaseAllowance spender amount expires => do
    let s ← decreaseAllowance env s block sender spender amount expires
    pure (s, [])

/-! ## Transactions -/

/-- The balances of each denom. -/
abbrev Bank := String → Addr → Nat

/-- The token factory does as it is told, if the funds are there. -/
def tokenFactory (bank : Bank) : TokenFactoryMsg → Option Bank
  | .mintTokens denom amount a => some (update bank denom (Ledger.credited (bank denom) a amount))
  | .burnTokens denom amount a =>
    if amount ≤ bank denom a then
      some (update bank denom (update (bank denom) a (bank denom a - amount)))
    else
      none
  | .forceTransfer denom amount a b =>
    if amount ≤ bank denom a then
      some (update bank denom (Ledger.moved (bank denom) a b amount))
    else
      none

structure World where
  storage : Storage
  bank : Bank

/-- A message to the contract.  `accepts` is whether a contract that tokens are sent to accepts them; what it
does with them is a message of its own. -/
structure Op where
  block : BlockInfo
  sender : Addr
  msg : ExecuteMsg
  accepts : Bool

def deliver (accepts : Bool) (bank : Bank) : Msg → Option Bank
  | .custom msg => tokenFactory bank msg
  | .receive .. => if accepts then some bank else none

/-- The message and those it sends, all or nothing. -/
def transact (w : World) (op : Op) : Option World := do
  let (storage, msgs) ← (doExecute env w.storage op.block op.sender op.msg).toOption
  let bank ← msgs.foldlM (deliver op.accepts) w.bank
  pure ⟨storage, bank⟩

/-- What happens to the funds and to the allowances. -/
inductive Event where
  /-- an entry of the old balances is minted to its holder -/
  | migrated (holder : Addr) (amount : Nat)
  | transferred (owner recipient : Addr) (amount : Nat)
  | burned (owner : Addr) (amount : Nat)
  | minted (recipient : Addr) (amount : Nat)
  /-- an allowance is given -/
  | allowed (owner spender : Addr) (amount : Nat)
  /-- an allowance is used -/
  | spent (owner spender : Addr) (amount : Nat)
  deriving DecidableEq

/-- The events of a transaction that goes through. -/
def eventsOf (w : World) (op : Op) : List Event :=
  match op.msg with
  | .migrateBalances count =>
    let es := (migrateKeys w.storage.balances (w.storage.balances.keys.reverse.take count)).2
    (es.filter fun e => e.2 ≠ 0).map fun e => .migrated e.1 e.2
  | .transfer recipient amount | .send recipient amount _ => [.transferred op.sender recipient amount]
  | .transferFrom owner recipient amount =>
      [.spent owner op.sender amount, .transferred owner recipient amount]
  | .burn amount => [.burned op.sender amount]
  | .burnFrom owner amount => [.spent owner op.sender amount, .burned owner amount]
  | .mint recipient amount => [.minted recipient amount]
  | .increaseAllowance spender amount _ => [.allowed op.sender spender amount]
  | .decreaseAllowance _ _ _ => []

def step (w : World) (op : Op) : World × List Event :=
  match transact env w op with
  | some w' => (w', eventsOf w op)
  | none => (w, [])

/-! ## Amounts of the events -/

/-- What the events add up to, in the measure `f`. -/
def total (f : Event → Nat) (evs : List Event) : Nat := (evs.map f).sum

@[simp] theorem total_nil (f : Event → Nat) : total f [] = 0 := rfl

@[simp] theorem total_cons (f : Event → Nat) (e : Event) (evs : List Event) :
    total f (e :: evs) = f e + total f evs := rfl

@[simp] theorem total_append (f : Event → Nat) (evs evs' : List Event) :
    total f (evs ++ evs') = total f evs + total f evs' := by
  simp [total]

namespace Event

def outflow (a : Addr) : Event → Nat
  | .transferred owner _ amount => if owner = a then amount else 0
  | .burned owner amount => if owner = a then amount else 0
  | _ => 0

def inflow (a : Addr) : Event → Nat
  | .transferred _ recipient amount => if recipient = a then amount else 0
  | .minted recipient amount => if recipient = a then amount else 0
  | _ => 0

/-- What others sent. -/
def received (a : Addr) : Event → Nat
  | .transferred _ recipient amount => if recipient = a then amount else 0
  | _ => 0

def migratedTo (a : Addr) : Event → Nat
  | .migrated holder amount => if holder = a then amount else 0
  | _ => 0

def allowedTo (owner spender : Addr) : Event → Nat
  | .allowed o s amount => if o = owner ∧ s = spender then amount else 0
  | _ => 0

def spentBy (owner spender : Addr) : Event → Nat
  | .spent o s amount => if o = owner ∧ s = spender then amount else 0
  | _ => 0

/-- The entry that is minted. -/
def migratedEntry : Event → Option (Addr × Nat)
  | .migrated holder amount => some (holder, amount)
  | _ => none

end Event

/-! ## The migration -/

/-- The entries that are minted, those that are not zero. -/
def nonzero (es : List (Addr × Nat)) : List (Addr × Nat) := es.filter fun e => e.2 ≠ 0

/-- What an account has in a list of entries. -/
def held (a : Addr) (es : List (Addr × Nat)) : Nat := (es.map fun e => if e.1 = a then e.2 else 0).sum

theorem held_append (a : Addr) (es es' : List (Addr × Nat)) :
    held a (es ++ es') = held a es + held a es' := by
  simp [held]

theorem held_reverse (a : Addr) (es : List (Addr × Nat)) : held a es.reverse = held a es := by
  simp [held, sum_reverse]

theorem held_nonzero (a : Addr) (es : List (Addr × Nat)) : held a (nonzero es) = held a es := by
  induction es with
  | nil => rfl
  | cons e es ih =>
    unfold nonzero held at ih ⊢
    by_cases he : e.2 ≠ 0
    · rw [filter_cons_of_pos (by simpa using he), map_cons, sum_cons, ih]
      rfl
    · have hzero : e.2 = 0 := not_not.mp he
      rw [filter_cons_of_neg (by simpa using hzero), map_cons, sum_cons, ih, hzero]
      simp

theorem LegacyMap.load_last {m : LegacyMap} {es : List (Addr × Nat)} {e : Addr × Nat}
    (h : m.entries = es ++ [e]) : m.load e.1 = some e.2 ∧ (m.remove e.1).entries = es := by
  have hnodup := m.nodup
  rw [h, map_append, nodup_append] at hnodup
  have hother : ∀ x ∈ es, x.1 ≠ e.1 := fun x hx =>
    hnodup.2.2 x.1 (mem_map_of_mem hx) e.1 (mem_singleton_self _)
  constructor
  · have hnone : es.find? (fun x => x.1 = e.1) = none := by
      rw [find?_eq_none]
      intro x hx
      simpa using hother x hx
    rw [LegacyMap.load, h, find?_append, hnone]
    simp
  · have hall : es.filter (fun x => x.1 ≠ e.1) = es := by
      rw [filter_eq_self]
      intro x hx
      simpa using hother x hx
    rw [LegacyMap.remove]
    simp only [h, filter_append, hall]
    simp

theorem migrateKeys_eq (es taken : List (Addr × Nat)) : ∀ m : LegacyMap, m.entries = es ++ taken →
    (migrateKeys m (taken.map Prod.fst).reverse).1.entries = es ∧
    (migrateKeys m (taken.map Prod.fst).reverse).2 = taken.reverse := by
  induction taken using reverseRecOn with
  | nil =>
    intro m h
    exact ⟨by simpa [migrateKeys] using h, rfl⟩
  | append_singleton taken e ih =>
    intro m h
    rw [← append_assoc] at h
    obtain ⟨hload, hremove⟩ := LegacyMap.load_last h
    obtain ⟨hentries, htaken⟩ := ih _ hremove
    simp only [map_append, map_cons, map_nil, reverse_append, reverse_cons, reverse_nil,
      nil_append, singleton_append, migrateKeys, hload, Option.getD_some]
    exact ⟨hentries, by rw [htaken]⟩

theorem migrateBalances_eq (m : LegacyMap) (count : Nat) :
    (migrateKeys m (m.keys.reverse.take count)).1.entries = m.entries.take (m.entries.length - count) ∧
    (migrateKeys m (m.keys.reverse.take count)).2 = (m.entries.drop (m.entries.length - count)).reverse := by
  have hkeys : m.keys.reverse.take count =
      ((m.entries.drop (m.entries.length - count)).map Prod.fst).reverse := by
    rw [LegacyMap.keys, take_reverse, length_map, map_drop]
  rw [hkeys]
  exact migrateKeys_eq _ _ m (take_append_drop _ _).symm

theorem migratedEntries (es : List (Addr × Nat)) :
    (es.map fun e => Event.migrated e.1 e.2).filterMap Event.migratedEntry = es := by
  induction es with
  | nil => rfl
  | cons e es ih => simpa [Event.migratedEntry] using ih

theorem total_migratedTo (a : Addr) (evs : List Event) :
    total (Event.migratedTo a) evs = held a (evs.filterMap Event.migratedEntry) := by
  induction evs with
  | nil => rfl
  | cons e evs ih =>
    cases e with
    | migrated holder amount =>
      have hhead : (Event.migrated holder amount :: evs).filterMap Event.migratedEntry =
          (holder, amount) :: evs.filterMap Event.migratedEntry := rfl
      rw [total_cons, ih, hhead]
      rfl
    | _ =>
      rw [total_cons, ih, filterMap_cons_none rfl]
      exact Nat.zero_add _

/-! ## What one transaction does -/

/-- The two maps of the allowances hold the same entries. -/
def Mirrored (s : Storage) : Prop := ∀ owner spender,
    s.allowances owner spender = s.allowancesSpender spender owner

/-- What a spender may still spend. -/
def left (s : Storage) (owner spender : Addr) : Nat := ((s.allowances owner spender).map (·.allowance)).getD 0

/-- What a holder has, in the bank and in the balances that are not migrated. -/
def funds (w : World) (a : Addr) : Nat := w.bank (selfTfDenom env) a + held a w.storage.balances.entries

theorem put_apply {α : Type} (f : Addr → Addr → α) (a b : Addr) (x : α) (a' b' : Addr) :
    put f a b x a' b' = if a' = a ∧ b' = b then x else f a' b' := by
  unfold put
  by_cases ha : a' = a
  · subst ha
    by_cases hb : b' = b
    · subst hb
      simp
    · simp [hb]
  · simp [ha]

/-- Both maps get an entry. -/
def Storage.setAllowance (s : Storage) (owner spender : Addr) (x : Option AllowanceResponse) : Storage :=
  { s with
    allowances := put s.allowances owner spender x
    allowancesSpender := put s.allowancesSpender spender owner x }

@[simp] theorem Storage.setAllowance_balances (s : Storage) (owner spender : Addr)
    (x : Option AllowanceResponse) : (s.setAllowance owner spender x).balances = s.balances := rfl

variable {s s' : Storage}

theorem Mirrored.setAllowance (h : Mirrored s) (owner spender : Addr) (x : Option AllowanceResponse) :
    Mirrored (s.setAllowance owner spender x) := by
  intro o p
  show put s.allowances owner spender x o p = put s.allowancesSpender spender owner x p o
  rw [put_apply, put_apply, h o p]
  simp only [and_comm]

theorem left_setAllowance (s : Storage) (owner spender : Addr) (x : Option AllowanceResponse) (o p : Addr) :
    left (s.setAllowance owner spender x) o p =
      if owner = o ∧ spender = p then (x.map (·.allowance)).getD 0 else left s o p := by
  show ((put s.allowances owner spender x o p).map (·.allowance)).getD 0 = _
  rw [put_apply]
  simp only [eq_comm (a := o), eq_comm (a := p)]
  unfold left
  split <;> rfl

theorem validate_eq_ok {a : String} {b : Addr} (h : validate env a = .ok b) : b = a := by
  unfold validate at h
  split at h
  · exact (Except.ok.inj h).symm
  · cases h

variable {block : BlockInfo} {sender : Addr} {spender : String} {amount : Nat} {expires : Option Expiration}

theorem increaseAllowance_effect (hm : Mirrored s)
    (h : increaseAllowance env s block sender spender amount expires = .ok s') :
    ∃ exp, s' = s.setAllowance sender spender
      (some ⟨min (left s sender spender + amount) UINT128_MAX, exp⟩) := by
  simp only [increaseAllowance, bind_eq_ok, ensure_eq_ok, pure_eq_ok] at h
  obtain ⟨spender', hspender, -, -, val, hval, val', hval', rfl⟩ := h
  obtain rfl := validate_eq_ok env hspender
  have hleft : ((s.allowances sender spender').getD ⟨0, .never⟩).allowance = left s sender spender' := by
    unfold left
    cases s.allowances sender spender' <;> rfl
  -- both maps are updated from the same entry
  rw [← hm, hval] at hval'
  obtain rfl := Except.ok.inj hval'
  simp only [increased, bind_eq_ok, pure_eq_ok] at hval
  obtain ⟨exp, -, rfl⟩ := hval
  exact ⟨exp, by rw [hleft]; rfl⟩

theorem decreaseAllowance_effect (h : decreaseAllowance env s block sender spender amount expires = .ok s') :
    ∃ x, s' = s.setAllowance sender spender x ∧ (x.map (·.allowance)).getD 0 ≤ left s sender spender := by
  simp only [decreaseAllowance, bind_eq_ok, ensure_eq_ok, orErr_eq_ok] at h
  obtain ⟨spender', hspender, -, -, allowance, hallowance, h⟩ := h
  obtain rfl := validate_eq_ok env hspender
  split at h
  · simp only [bind_eq_ok, pure_eq_ok] at h
    obtain ⟨exp, -, rfl⟩ := h
    refine ⟨_, rfl, ?_⟩
    rw [left, hallowance]
    exact Nat.sub_le _ _
  · obtain rfl := pure_eq_ok.mp h
    exact ⟨none, rfl, Nat.zero_le _⟩

theorem deductAllowance_effect {owner spender : Addr} (hm : Mirrored s)
    (h : deductAllowance s owner spender block amount = .ok s') : amount ≤ left s owner spender ∧
    ∃ exp, s' = s.setAllowance owner spender (some ⟨left s owner spender - amount, exp⟩) := by
  simp only [deductAllowance, bind_eq_ok, pure_eq_ok] at h
  obtain ⟨val, hval, val', hval', rfl⟩ := h
  rw [← hm, hval] at hval'
  obtain rfl := Except.ok.inj hval'
  unfold deducted at hval
  split at hval
  · rename_i a ha
    have hleft : left s owner spender = a.allowance := by rw [left, ha]; rfl
    split at hval
    · cases hval
    · split at hval
      · rename_i hle
        obtain rfl := Except.ok.inj hval
        rw [hleft]
        exact ⟨hle, a.expires, rfl⟩
      · cases hval
  · cases hval

structure Recorded (s s' : Storage) (evs : List Event) : Prop where
  /-- what is off the map is minted, in the order of the keys from the last on -/
  migrated : nonzero s.balances.entries = nonzero s'.balances.entries ++
    (evs.filterMap Event.migratedEntry).reverse
  length : s'.balances.entries.length ≤ s.balances.entries.length
  mirrored : Mirrored s'
  /-- nothing is spent that was not there or is allowed -/
  spent : ∀ owner spender, left s' owner spender + total (Event.spentBy owner spender) evs ≤
    left s owner spender + total (Event.allowedTo owner spender) evs

/-- The balances after a transaction, with its events. -/
def Paid (bank bank' : Addr → Nat) (evs : List Event) : Prop :=
  ∀ a, bank' a + total (Event.outflow a) evs = bank a + total (Event.inflow a) evs +
    total (Event.migratedTo a) evs

theorem deductAllowance_recorded {owner spender : Addr} (hm : Mirrored s)
    (h : deductAllowance s owner spender block amount = .ok s') {e : Event}
      (hmigrated : e.migratedEntry = none)
    (hspent : ∀ o p, e.spentBy o p = 0) : Recorded s s' [.spent owner spender amount, e] := by
  obtain ⟨hle, exp, rfl⟩ := deductAllowance_effect hm h
  refine ⟨?_, le_refl _, hm.setAllowance owner spender _, ?_⟩
  · rw [Storage.setAllowance_balances, filterMap_cons_none rfl, filterMap_cons_none hmigrated]
    exact (append_nil _).symm
  · intro o p
    rw [left_setAllowance, total_cons, total_cons, total_nil, hspent, Event.spentBy]
    split
    · rename_i howner
      obtain ⟨rfl, rfl⟩ := howner
      simp only [Option.map_some, Option.getD_some]
      omega
    · omega

variable {evs : List Event}

theorem Recorded.of_same (hm : Mirrored s') (hbalances : s'.balances = s.balances)
    (hmigrated : evs.filterMap Event.migratedEntry = [])
    (hspent : ∀ o p, left s' o p + total (Event.spentBy o p) evs ≤ left s o p +
      total (Event.allowedTo o p) evs) :
    Recorded s s' evs :=
  ⟨by rw [hbalances, hmigrated, reverse_nil, append_nil], by rw [hbalances], hm, hspent⟩

theorem increaseAllowance_recorded (hm : Mirrored s)
    (h : increaseAllowance env s block sender spender amount expires = .ok s') :
    Recorded s s' [.allowed sender spender amount] := by
  obtain ⟨exp, rfl⟩ := increaseAllowance_effect env hm h
  refine Recorded.of_same (hm.setAllowance _ _ _) (Storage.setAllowance_balances _ _ _ _) rfl ?_
  intro o p
  have hspent : (Event.allowed sender spender amount).spentBy o p = 0 := rfl
  rw [left_setAllowance, total_cons, total_cons, total_nil, total_nil, hspent, Event.allowedTo]
  split
  · rename_i howner
    obtain ⟨rfl, rfl⟩ := howner
    simp only [Option.map_some, Option.getD_some]
    omega
  · omega

theorem decreaseAllowance_recorded (hm : Mirrored s)
    (h : decreaseAllowance env s block sender spender amount expires = .ok s') : Recorded s s' [] := by
  obtain ⟨x, rfl, hle⟩ := decreaseAllowance_effect env h
  refine Recorded.of_same (hm.setAllowance _ _ _) (Storage.setAllowance_balances _ _ _ _) rfl ?_
  intro o p
  rw [left_setAllowance, total_nil, total_nil]
  split
  · rename_i howner
    obtain ⟨rfl, rfl⟩ := howner
    exact hle
  · exact le_refl _

theorem mint_all (accepts : Bool) (denom : String) (es : List (Addr × Nat)) : ∀ bank : Bank,
    ∃ bank', (es.map fun e => Msg.custom (.mintTokens denom e.2 e.1)).foldlM (deliver accepts)
      bank = some bank' ∧ ∀ a, bank' denom a = bank denom a + held a es := by
  induction es with
  | nil =>
    intro bank
    exact ⟨bank, rfl, fun a => rfl⟩
  | cons e es ih =>
    intro bank
    obtain ⟨bank', hbank', hheld⟩ := ih (update bank denom (Ledger.credited (bank denom) e.1 e.2))
    refine ⟨bank', hbank', ?_⟩
    intro a
    rw [hheld, update_self, Ledger.credited_apply]
    simp only [held, map_cons, sum_cons]
    omega

variable {w w' : World}

theorem transact_eq_some {op : Op} : transact env w op = some w' ↔
      ∃ storage msgs bank, doExecute env w.storage op.block op.sender op.msg = .ok (storage, msgs) ∧
        msgs.foldlM (deliver op.accepts) w.bank = some bank ∧ w' = ⟨storage, bank⟩ := by
  unfold transact
  cases doExecute env w.storage op.block op.sender op.msg with
  | error e => simp [Except.toOption]
  | ok r =>
    show (List.foldlM (deliver op.accepts) w.bank r.2).bind (fun bank => some (World.mk r.1 bank)) =
      some w' ↔ _
    rw [Option.bind_eq_some_iff]
    constructor
    · rintro ⟨bank, hbank, hw'⟩
      exact ⟨r.1, r.2, bank, rfl, hbank, (Option.some.inj hw').symm⟩
    · rintro ⟨storage, msgs, bank, hr, hbank, rfl⟩
      obtain rfl := Except.ok.inj hr
      exact ⟨bank, hbank, rfl⟩

theorem migrate_effect (w : World) (op : Op) {count : Nat} (hmsg : op.msg = .migrateBalances count) :
    ∃ w', transact env w op = some w' ∧
      w'.storage.balances.entries = w.storage.balances.entries.take
        (w.storage.balances.entries.length - count) ∧
      w'.storage.allowances = w.storage.allowances ∧
      w'.storage.allowancesSpender = w.storage.allowancesSpender ∧
      (eventsOf w op).filterMap Event.migratedEntry =
        (nonzero (w.storage.balances.entries.drop (w.storage.balances.entries.length - count))).reverse ∧
      (∀ e ∈ eventsOf w op, ∃ holder amount, e = .migrated holder amount) ∧
      ∀ a, w'.bank (selfTfDenom env) a = w.bank (selfTfDenom env) a + total (Event.migratedTo a)
        (eventsOf w op) := by
  obtain ⟨hentries, htaken⟩ := migrateBalances_eq w.storage.balances count
  obtain ⟨bank', hbank', hheld⟩ := mint_all op.accepts (selfTfDenom env)
    (nonzero (migrateKeys w.storage.balances (w.storage.balances.keys.reverse.take count)).2) w.bank
  have hevents : eventsOf w op =
      (nonzero (migrateKeys w.storage.balances (w.storage.balances.keys.reverse.take count)).2).map
        fun e => Event.migrated e.1 e.2 := by
    rw [eventsOf, hmsg]
    rfl
  refine ⟨⟨{ w.storage with balances :=
    (migrateKeys w.storage.balances (w.storage.balances.keys.reverse.take count)).1 }, bank'⟩,
    ?_, hentries, rfl, rfl, ?_, ?_, ?_⟩
  · refine (transact_eq_some env).mpr ⟨_, _, bank', ?_, hbank', rfl⟩
    rw [hmsg]
    rfl
  · rw [hevents, migratedEntries, htaken]
    exact filter_reverse
  · intro e he
    rw [hevents] at he
    obtain ⟨x, -, rfl⟩ := List.mem_map.mp he
    exact ⟨x.1, x.2, rfl⟩
  · intro a
    rw [total_migratedTo, hevents, migratedEntries]
    exact hheld a

theorem total_eq_zero {f : Event → Nat} (h : ∀ e ∈ evs, f e = 0) : total f evs = 0 := by
  rw [total, sum_eq_zero]
  intro n hn
  obtain ⟨e, he, rfl⟩ := List.mem_map.mp hn
  exact h e he

/-- The balances and the storage after a transaction, with its events. -/
structure Did (w w' : World) (evs : List Event) : Prop where
  recorded : Recorded w.storage w'.storage evs
  paid : Paid (w.bank (selfTfDenom env)) (w'.bank (selfTfDenom env)) evs

theorem migrate_did {op : Op} {count : Nat} (hm : Mirrored w.storage) (hmsg : op.msg = .migrateBalances count)
    (h : transact env w op = some w') : Did env w w' (eventsOf w op) := by
  obtain ⟨w'', hw'', hentries, hallow, hspender, hmigrated, hall, hbank⟩ := migrate_effect env w op hmsg
  obtain rfl := Option.some.inj (h.symm.trans hw'')
  have hzero : ∀ {f : Event → Nat}, (∀ holder amount, f (.migrated holder amount) = 0) →
      total f (eventsOf w op) = 0 := by
    intro f hf
    refine total_eq_zero fun e he => ?_
    obtain ⟨holder, amount, rfl⟩ := hall e he
    exact hf holder amount
  refine ⟨⟨?_, ?_, ?_, ?_⟩, ?_⟩
  · rw [hmigrated, reverse_reverse, hentries, nonzero, nonzero, nonzero, ← filter_append,
      take_append_drop]
  · rw [hentries, length_take]
    exact Nat.min_le_right _ _
  · intro o p
    rw [hallow, hspender]
    exact hm o p
  · intro o p
    rw [hzero fun _ _ => rfl, hzero fun _ _ => rfl, left, left, hallow]
  · intro a
    have hout : total (Event.outflow a) (eventsOf w op) = 0 := hzero fun _ _ => rfl
    have hin : total (Event.inflow a) (eventsOf w op) = 0 := hzero fun _ _ => rfl
    rw [hbank, hout, hin]
    omega

namespace TokenFactoryMsg

def denom : TokenFactoryMsg → String
  | .mintTokens denom _ _ => denom
  | .burnTokens denom _ _ => denom
  | .forceTransfer denom _ _ _ => denom

def event : TokenFactoryMsg → Event
  | .mintTokens _ amount a => .minted a amount
  | .burnTokens _ amount a => .burned a amount
  | .forceTransfer _ amount a b => .transferred a b amount

end TokenFactoryMsg

variable {bank bank' : Bank}

/-- **The token factory moves what the message says.** -/
theorem tokenFactory_paid {msg : TokenFactoryMsg} (h : tokenFactory bank msg = some bank') :
    Paid (bank msg.denom) (bank' msg.denom) [msg.event] := by
  cases msg with
  | mintTokens d amount a =>
    obtain rfl := Option.some.inj h
    intro x
    simp only [TokenFactoryMsg.denom]
    rw [update_self, Ledger.credited_apply]
    rfl
  | burnTokens d amount a =>
    rw [tokenFactory] at h
    split at h
    · rename_i hle
      obtain rfl := Option.some.inj h
      intro x
      simp only [TokenFactoryMsg.denom]
      rw [update_self]
      by_cases hx : x = a
      · subst hx
        simp [TokenFactoryMsg.event, Event.outflow, Event.inflow, Event.migratedTo, hle]
      · simp [TokenFactoryMsg.event, Event.outflow, Event.inflow, Event.migratedTo, hx, Ne.symm hx]
    · cases h
  | forceTransfer d amount a b =>
    rw [tokenFactory] at h
    split at h
    · rename_i hle
      obtain rfl := Option.some.inj h
      intro x
      simp only [TokenFactoryMsg.denom]
      rw [update_self]
      by_cases hx : x = a
      · subst hx
        simpa [TokenFactoryMsg.event, Event.outflow, Event.inflow, Event.migratedTo]
          using Ledger.moved_add b hle
      · simpa [TokenFactoryMsg.event, Event.outflow, Event.inflow, Event.migratedTo, hx, Ne.symm hx] using
          Ledger.moved_of_ne (bank d) b amount hx
    · cases h

theorem Paid.spent {bank bank' : Addr → Nat} (h : Paid bank bank' evs) (owner spender : Addr)
    (amount : Nat) : Paid bank bank' (.spent owner spender amount :: evs) := by
  intro a
  simpa [Event.outflow, Event.inflow, Event.migratedTo] using h a

variable {accepts : Bool}

theorem deliver_singleton {msg : Msg} (h : [msg].foldlM (deliver accepts) bank = some bank') :
    deliver accepts bank msg = some bank' := by
  obtain ⟨b, hb, h⟩ := Option.bind_eq_some_iff.mp h
  obtain rfl := Option.some.inj h
  exact hb

theorem deliver_paid {msg : TokenFactoryMsg} (h : deliver accepts bank (.custom msg) = some bank') :
    Paid (bank msg.denom) (bank' msg.denom) [msg.event] :=
  tokenFactory_paid h

theorem deliver_receive {contract : Addr} {msg : Bytes}
    (h : deliver accepts bank (.receive contract sender amount msg) = some bank') : bank = bank' := by
  rw [deliver] at h
  split at h
  · exact Option.some.inj h
  · cases h

theorem Recorded.of_event (hm : Mirrored s) {e : Event} (hmigrated : e.migratedEntry = none)
    (hspent : ∀ o p, e.spentBy o p = 0) : Recorded s s [e] := by
  refine .of_same hm rfl (filterMap_cons_none hmigrated) ?_
  intro o p
  rw [total_cons, total_nil, hspent]
  omega

theorem transact_did {op : Op} (hm : Mirrored w.storage) (h : transact env w op = some w') :
    Did env w w' (eventsOf w op) := by
  obtain ⟨storage, msgs, bank, hexec, hmsgs, rfl⟩ := (transact_eq_some env).mp h
  unfold eventsOf
  cases hmsg : op.msg with
  | migrateBalances count =>
    have hdid := migrate_did env hm hmsg h
    rwa [eventsOf, hmsg] at hdid
  | transfer recipient amount =>
    simp only [hmsg, doExecute, bind_eq_ok, pure_eq_ok] at hexec
    obtain ⟨recipient', hrecipient, hr⟩ := hexec
    obtain ⟨rfl, rfl⟩ := Prod.mk.inj hr
    obtain rfl := validate_eq_ok env hrecipient
    exact ⟨.of_event hm rfl fun _ _ => rfl, deliver_paid (deliver_singleton hmsgs)⟩
  | send contract amount msg =>
    simp only [hmsg, doExecute, bind_eq_ok, pure_eq_ok] at hexec
    obtain ⟨contract', hcontract, hr⟩ := hexec
    obtain ⟨rfl, rfl⟩ := Prod.mk.inj hr
    obtain rfl := validate_eq_ok env hcontract
    obtain ⟨bank', hbank', hreceive⟩ := Option.bind_eq_some_iff.mp hmsgs
    -- the call of the contract moves nothing by itself
    obtain rfl := deliver_receive (deliver_singleton hreceive)
    exact ⟨.of_event hm rfl fun _ _ => rfl, deliver_paid hbank'⟩
  | mint recipient amount =>
    simp only [hmsg, doExecute, bind_eq_ok, pure_eq_ok, ensure_eq_ok, orErr_eq_ok] at hexec
    obtain ⟨-, -, -, -, recipient', hrecipient, hr⟩ := hexec
    obtain ⟨rfl, rfl⟩ := Prod.mk.inj hr
    obtain rfl := validate_eq_ok env hrecipient
    exact ⟨.of_event hm rfl fun _ _ => rfl, deliver_paid (deliver_singleton hmsgs)⟩
  | burn amount =>
    simp only [hmsg, doExecute, Except.ok.injEq] at hexec
    obtain ⟨rfl, rfl⟩ := Prod.mk.inj hexec
    exact ⟨.of_event hm rfl fun _ _ => rfl, deliver_paid (deliver_singleton hmsgs)⟩
  | transferFrom owner recipient amount =>
    simp only [hmsg, doExecute, bind_eq_ok, pure_eq_ok] at hexec
    obtain ⟨recipient', hrecipient, owner', howner, s, hs, hr⟩ := hexec
    obtain ⟨rfl, rfl⟩ := Prod.mk.inj hr
    obtain rfl := validate_eq_ok env hrecipient
    obtain rfl := validate_eq_ok env howner
    exact ⟨deductAllowance_recorded hm hs rfl fun _ _ =>
      rfl, (deliver_paid (deliver_singleton hmsgs)).spent _ _ _⟩
  | burnFrom owner amount =>
    simp only [hmsg, doExecute, bind_eq_ok, pure_eq_ok] at hexec
    obtain ⟨owner', howner, s, hs, hr⟩ := hexec
    obtain ⟨rfl, rfl⟩ := Prod.mk.inj hr
    obtain rfl := validate_eq_ok env howner
    exact ⟨deductAllowance_recorded hm hs rfl fun _ _ =>
      rfl, (deliver_paid (deliver_singleton hmsgs)).spent _ _ _⟩
  | increaseAllowance spender amount expires =>
    simp only [hmsg, doExecute, bind_eq_ok, pure_eq_ok] at hexec
    obtain ⟨s, hs, hr⟩ := hexec
    obtain ⟨rfl, rfl⟩ := Prod.mk.inj hr
    obtain rfl := Option.some.inj hmsgs
    exact ⟨increaseAllowance_recorded env hm hs, fun a => rfl⟩
  | decreaseAllowance spender amount expires =>
    simp only [hmsg, doExecute, bind_eq_ok, pure_eq_ok] at hexec
    obtain ⟨s, hs, hr⟩ := hexec
    obtain ⟨rfl, rfl⟩ := Prod.mk.inj hr
    obtain rfl := Option.some.inj hmsgs
    exact ⟨decreaseAllowance_recorded env hm hs, fun a => rfl⟩

theorem Did.refl (hm : Mirrored w.storage) : Did env w w [] :=
    ⟨.of_same hm rfl rfl fun _ _ => le_refl _, fun _ => rfl⟩

theorem Did.append {w'' : World} {evs' : List Event} (h : Did env w w' evs)
    (h' : Did env w' w'' evs') : Did env w w'' (evs ++ evs') := by
  refine ⟨⟨?_, h'.recorded.length.trans h.recorded.length, h'.recorded.mirrored, ?_⟩, ?_⟩
  · rw [h.recorded.migrated, h'.recorded.migrated, filterMap_append, reverse_append, append_assoc]
  · intro o p
    have hone := h.recorded.spent o p
    have htwo := h'.recorded.spent o p
    rw [total_append, total_append]
    omega
  · intro a
    have hone := h.paid a
    have htwo := h'.paid a
    rw [total_append, total_append, total_append]
    omega

theorem step_cases (w : World) (op : Op) :
    step env w op = (w, []) ∨ ∃ w', transact env w op = some w' ∧ step env w op = (w', eventsOf w op) := by
  unfold step
  cases h : transact env w op with
  | none => exact .inl rfl
  | some w' => exact .inr ⟨w', rfl, rfl⟩

theorem step_did (hm : Mirrored w.storage) (op : Op) : Did env w (step env w op).1 (step env w op).2 := by
  rcases step_cases env w op with hstep | ⟨w', hw', hstep⟩
  · rw [hstep]
    exact .refl env hm
  · rw [hstep]
    exact transact_did env hm hw'

theorem run_did (ops : List Op) : ∀ {w : World}, Mirrored w.storage →
    Did env w (run (step env) w ops) (trace (step env) w ops) := by
  induction ops with
  | nil => exact fun hm => .refl env hm
  | cons op ops ih =>
    intro w hm
    have hone := step_did env hm op
    exact hone.append env (ih hone.recorded.mirrored)

theorem Did.funds_eq (h : Did env w w' evs) (a : Addr) :
    funds env w' a + total (Event.outflow a) evs = funds env w a + total (Event.inflow a) evs := by
  have hheld := congrArg (held a) h.recorded.migrated
  rw [held_append, held_reverse, held_nonzero, held_nonzero, ← total_migratedTo] at hheld
  have hpaid := h.paid a
  unfold funds
  omega

/-- The holder of the allowance that a message spends, or the account that it mints to. -/
def ExecuteMsg.holder : ExecuteMsg → Option Addr
  | .transferFrom owner _ _ => some owner
  | .burnFrom owner _ => some owner
  | .mint recipient _ => some recipient
  | _ => none

/-- The holder's own messages, those that spend an allowance of the holder, and mints to the holder. -/
def Op.ByHolder (a : Addr) (op : Op) : Prop := op.sender = a ∨ op.msg.holder = some a

instance (a : Addr) (op : Op) : Decidable (op.ByHolder a) :=
  inferInstanceAs (Decidable (op.sender = a ∨ op.msg.holder = some a))

/-- The calls of `MigrateBalances` with something to migrate. -/
def Op.migrates (op : Op) : Bool :=
  match op.msg with
  | .migrateBalances count => 1 ≤ count
  | _ => false

theorem eventsOf_received {op : Op} {a : Addr} (h : ¬ op.ByHolder a) :
    ∀ e ∈ eventsOf w op, e.outflow a = 0 ∧ e.inflow a = e.received a := by
  obtain ⟨hsender, hmsg⟩ := not_or.mp h
  intro e he
  unfold eventsOf at he
  cases hop : op.msg with
  | migrateBalances count =>
    simp only [hop, mem_map] at he
    obtain ⟨x, -, rfl⟩ := he
    exact ⟨rfl, rfl⟩
  | transfer | send | burn =>
    simp only [hop, mem_singleton] at he
    subst he
    exact ⟨if_neg hsender, rfl⟩
  | mint recipient amount =>
    rw [hop] at hmsg
    simp only [hop, mem_singleton] at he
    subst he
    exact ⟨rfl, if_neg fun ha => hmsg (congrArg some ha)⟩
  | transferFrom | burnFrom =>
    rw [hop] at hmsg
    simp only [hop, mem_cons, not_mem_nil, or_false] at he
    rcases he with rfl | rfl
    · exact ⟨rfl, rfl⟩
    · exact ⟨if_neg fun ha => hmsg (congrArg some ha), rfl⟩
  | increaseAllowance spender amount expires =>
    simp only [hop, mem_singleton] at he
    subst he
    exact ⟨rfl, rfl⟩
  | decreaseAllowance spender amount expires =>
    simp only [hop, not_mem_nil] at he

theorem trace_received {a : Addr} {ops : List Op} (h : ∀ op ∈ ops, ¬ op.ByHolder a) :
    ∀ e ∈ trace (step env) w ops, e.outflow a = 0 ∧ e.inflow a = e.received a := by
  intro e hmem
  obtain ⟨past, op, rest, rfl, he⟩ := (mem_trace ops w).mp hmem
  have hop := h op (by simp)
  rcases step_cases env (run (step env) w past) op with hstep | ⟨w', hw', hstep⟩
  · rw [hstep] at he
    cases he
  · rw [hstep] at he
    exact eventsOf_received hop e he

theorem total_congr {f g : Event → Nat} (h : ∀ e ∈ evs, f e = g e) : total f evs = total g evs := by
  rw [total, total, map_congr_left h]

theorem count_migrated (e : Addr × Nat) (evs : List Event) :
    evs.count (.migrated e.1 e.2) = (evs.filterMap Event.migratedEntry).count e := by
  induction evs with
  | nil => rfl
  | cons ev evs ih =>
    cases ev with
    | migrated holder amount =>
      show List.count _ _ = ((holder, amount) :: evs.filterMap Event.migratedEntry).count e
      rw [count_cons, count_cons, ih]
      congr 1
      simp [Prod.ext_iff]
    | _ =>
      rw [filterMap_cons_none rfl, ← ih]
      exact count_cons_of_ne (by simp)

theorem entries_nodup (m : LegacyMap) : m.entries.Nodup := m.nodup.of_map _

/-- **An entry that is not zero is minted once, or still there.** -/
theorem Did.once (h : Did env w w' evs) {e : Addr × Nat} (he : e ∈ w.storage.balances.entries)
    (hne : e.2 ≠ 0) : evs.count (.migrated e.1 e.2) + w'.storage.balances.entries.count e = 1 := by
  have hcount := congrArg (List.count e) h.recorded.migrated
  have hone : w.storage.balances.entries.count e = 1 := count_eq_one_of_mem (entries_nodup _) he
  rw [List.count_append, count_reverse, nonzero, nonzero, count_filter (by simpa using hne),
    count_filter (by simpa using hne), hone, ← count_migrated] at hcount
  omega

theorem Did.mem_of_migrated (h : Did env w w' evs) {holder : Addr}
    (he : .migrated holder amount ∈ evs) : (holder, amount) ∈ w.storage.balances.entries := by
  have hmem : (holder, amount) ∈ evs.filterMap Event.migratedEntry := List.mem_filterMap.mpr ⟨_, he, rfl⟩
  have hnonzero : (holder, amount) ∈ nonzero w.storage.balances.entries := by
    rw [h.recorded.migrated]
    exact mem_append_right _ (List.mem_reverse.mpr hmem)
  exact mem_of_mem_filter hnonzero

theorem step_migrates (hm : Mirrored w.storage) (op : Op) :
      (step env w op).1.storage.balances.entries.length ≤
      w.storage.balances.entries.length - if op.migrates then 1 else 0 := by
  by_cases hop : op.migrates = true
  · rw [if_pos hop]
    unfold Op.migrates at hop
    split at hop
    · rename_i count hmsg
      obtain ⟨w', hw', hentries, -⟩ := migrate_effect env w op hmsg
      have hcount : 1 ≤ count := of_decide_eq_true hop
      rw [step, hw']
      show w'.storage.balances.entries.length ≤ _
      rw [hentries, length_take]
      omega
    · cases hop
  · rw [if_neg hop]
    exact (step_did env hm op).recorded.length

theorem run_migrates (ops : List Op) : ∀ {w : World}, Mirrored w.storage →
    (run (step env) w ops).storage.balances.entries.length ≤
      w.storage.balances.entries.length - ops.countP Op.migrates := by
  induction ops with
  | nil => exact fun _ => le_refl _
  | cons op ops ih =>
    intro w hm
    have hone := step_migrates env hm op
    have hrest := ih (step_did env hm op).recorded.mirrored
    rw [countP_cons]
    simp only [run]
    omega

/-- **Funds, allowances and the migration along every run.**  The transfers that a holder receives change the
holder's funds too, and an entry of zero is dropped. -/
theorem conserved {w : World} (hm : Mirrored w.storage) (ops : List Op) :
    Mirrored (run (step env) w ops).storage ∧
    (∀ a, funds env (run (step env) w ops) a + total (Event.outflow a) (trace (step env) w ops) =
      funds env w a + total (Event.inflow a) (trace (step env) w ops)) ∧
    (∀ a, (∀ op ∈ ops, ¬ op.ByHolder a) → funds env (run (step env) w ops) a =
      funds env w a + total (Event.received a) (trace (step env) w ops)) ∧
    (∀ e ∈ w.storage.balances.entries, e.2 ≠ 0 → (trace (step env) w ops).count (.migrated e.1 e.2) +
      (run (step env) w ops).storage.balances.entries.count e = 1) ∧
    (∀ holder amount, .migrated holder amount ∈ trace (step env) w ops →
      (holder, amount) ∈ w.storage.balances.entries) ∧
    (∀ owner spender, left (run (step env) w ops).storage owner spender +
        total (Event.spentBy owner spender) (trace (step env) w ops) ≤
      left w.storage owner spender + total (Event.allowedTo owner spender) (trace (step env) w ops)) ∧
    (w.storage.balances.entries.length ≤ ops.countP Op.migrates →
      (run (step env) w ops).storage.balances.entries = []) := by
  have hdid := run_did env ops hm
  refine ⟨hdid.recorded.mirrored, hdid.funds_eq env, ?_, fun e he hne => hdid.once env he hne,
    fun _ _ he => hdid.mem_of_migrated env he, hdid.recorded.spent, ?_⟩
  · intro a hops
    have hfunds := hdid.funds_eq env a
    have hevents := trace_received env (w := w) hops
    rw [total_eq_zero fun e he => (hevents e he).1, total_congr fun e he => (hevents e he).2] at hfunds
    exact hfunds
  · intro hcount
    have hlen := run_migrates env ops hm
    exact eq_nil_of_length_eq_zero (by omega)

namespace Sample

def chain : Env where
  contract := "token"
  addrValidate _ := true

/-- Two accounts with balances from before the migration; the second one is empty. -/
def start : World where
  storage :=
    { mint := some "minter"
      balances := ⟨[("alice", 5), ("bob", 0)], by decide⟩
      allowances := fun _ _ => none
      allowancesSpender := fun _ _ => none }
  bank _ _ := 0

def op (sender : Addr) (msg : ExecuteMsg) : Op := ⟨⟨1, 1⟩, sender, msg, true⟩

def ops : List Op :=
  [op "anyone" (.migrateBalances 7), op "alice" (.increaseAllowance "carol" 4 none),
    op "carol" (.transferFrom "alice" "bob" 3), op "alice" (.transfer "bob" 1)]

theorem start_mirrored : Mirrored start.storage := fun _ _ => rfl

end Sample

open Sample in
theorem conserved_sample : funds chain (run (step chain) start ops) "bob" = 4 ∧
    (trace (step chain) start ops).count (.migrated "alice" 5) +
      (run (step chain) start ops).storage.balances.entries.count ("alice", 5) = 1 ∧
    (run (step chain) start
      (.replicate 2 (op "anyone" (.migrateBalances 1)))).storage.balances.entries = [] := by
  obtain ⟨-, -, hbob, honce, -, -, -⟩ := conserved chain start_mirrored ops
  obtain ⟨-, -, -, -, -, -, hempty⟩ :=
    conserved chain start_mirrored (.replicate 2 (op "anyone" (.migrateBalances 1)))
  refine ⟨hbob "bob" ?_, honce ("alice", 5) (by decide) (by decide), hempty (by decide)⟩
  decide

open Sample in
/-- A transfer of somebody else reaches the funds of its recipient. -/
theorem received_by_transfer : ¬ ∀ (env : Env) (w : World) (ops : List Op) (a : Addr), Mirrored w.storage →
      (∀ op ∈ ops, ¬ op.ByHolder a) → funds env (run (step env) w ops) a = funds env w a := by
  intro h
  have hbob := h chain start ops "bob" start_mirrored (by decide)
  revert hbob
  decide

end UnionVoyager.Cw.WrappedTokenfactory
