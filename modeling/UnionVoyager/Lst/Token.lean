import UnionVoyager.Lst.System
import UnionVoyager.Lib.Escrow

/-!
# The LST token

* `move_eq_ok`, `mint_eq_ok`, `burn_eq_ok`, `transferFrom_eq_ok` — when a message to the token succeeds, and
  the token it then leaves.
-/

namespace UnionVoyager.Lst

open Lib Function

/-- `amount` went from `owner` to `recipient`. -/
def Cw20.moved (t : Cw20) (owner recipient : Addr) (amount : Nat) : Cw20 :=
  { t with
    balances :=
      let balances := update t.balances owner (t.balances owner - amount)
      update balances recipient (balances recipient + amount) }

def Cw20.minted (t : Cw20) (recipient : Addr) (amount : Nat) : Cw20 :=
  { t with
    balances := update t.balances recipient (t.balances recipient + amount)
    totalSupply := t.totalSupply + amount }

def Cw20.burned (t : Cw20) (owner : Addr) (amount : Nat) : Cw20 :=
  { t with
    balances := update t.balances owner (t.balances owner - amount)
    totalSupply := t.totalSupply - amount }

def Cw20.allowed (t : Cw20) (owner spender : Addr) (amount : Nat) : Cw20 :=
  { t with allowances := update t.allowances (owner, spender) (some amount) }

section Fields

variable (t : Cw20) (owner spender recipient : Addr) (amount : Nat)

@[simp] theorem token_moved_balances : (t.moved owner recipient amount).balances =
    update (update t.balances owner (t.balances owner - amount)) recipient
      (update t.balances owner (t.balances owner - amount) recipient + amount) := rfl
@[simp] theorem minted_balances :
    (t.minted recipient amount).balances = update t.balances recipient (t.balances recipient + amount) := rfl
@[simp] theorem burned_balances :
    (t.burned owner amount).balances = update t.balances owner (t.balances owner - amount) := rfl
@[simp] theorem burned_supply : (t.burned owner amount).totalSupply = t.totalSupply - amount := rfl
@[simp] theorem allowed_allowances :
    (t.allowed owner spender amount).allowances = update t.allowances (owner, spender) (some amount) := rfl

end Fields

section Execute

variable {t t' : Cw20} {sender owner recipient : Addr} {amount : Nat}

theorem move_eq_ok : t.move owner recipient amount = .ok t' ↔
    amount ≤ t.balances owner ∧ t' = t.moved owner recipient amount := by
  simp only [Cw20.move, bind_eq_ok, ensure_eq_ok, pure_eq_ok]
  constructor
  · rintro ⟨-, hle, rfl⟩
    exact ⟨hle, rfl⟩
  · rintro ⟨hle, rfl⟩
    exact ⟨(), hle, rfl⟩

theorem mint_eq_ok : t.execute sender (.mint recipient amount) = .ok t' ↔
    sender = t.minter ∧ t.totalSupply + amount < 2 ^ 128 ∧ t' = t.minted recipient amount := by
  simp only [Cw20.execute, bind_eq_ok, ensure_eq_ok, pure_eq_ok]
  constructor
  · rintro ⟨-, hs, -, hlt, rfl⟩
    exact ⟨hs, hlt, rfl⟩
  · rintro ⟨hs, hlt, rfl⟩
    exact ⟨(), hs, (), hlt, rfl⟩

theorem burn_eq_ok : t.execute sender (.burn amount) = .ok t' ↔
    amount ≤ t.balances sender ∧ amount ≤ t.totalSupply ∧ t' = t.burned sender amount := by
  simp only [Cw20.execute, bind_eq_ok, ensure_eq_ok, pure_eq_ok]
  constructor
  · rintro ⟨-, hb, -, hs, rfl⟩
    exact ⟨hb, hs, rfl⟩
  · rintro ⟨hb, hs, rfl⟩
    exact ⟨(), hb, (), hs, rfl⟩

theorem transferFrom_eq_ok : t.execute sender (.transferFrom owner recipient amount) = .ok t' ↔
    ∃ allowance, t.allowances (owner, sender) = some allowance ∧ amount ≤ allowance ∧
      amount ≤ t.balances owner ∧
      t' = (t.allowed owner sender (allowance - amount)).moved owner recipient amount := by
  simp only [Cw20.execute, Cw20.deductAllowance, bind_eq_ok, orErr_eq_ok, ensure_eq_ok, pure_eq_ok,
    move_eq_ok]
  constructor
  · rintro ⟨_, ⟨allowance, hallowance, -, hle, rfl⟩, hb, rfl⟩
    exact ⟨allowance, hallowance, hle, hb, rfl⟩
  · rintro ⟨allowance, hallowance, hle, hb, rfl⟩
    exact ⟨_, ⟨allowance, hallowance, (), hle, rfl⟩, hb, rfl⟩

end Execute

/-! ## The supply covers the balances -/

/-- The total supply is at least the sum of the balances. -/
def Cw20.Counted (t : Cw20) : Prop := Backed (fun _ _ => True) t.balances fun _ : Unit => t.totalSupply

section Counted

variable {t : Cw20} {owner recipient : Addr} {amount : Nat}

theorem counted_le (h : t.Counted) (a : Addr) : t.balances a ≤ t.totalSupply := h.le (t := ()) trivial

theorem counted_shift {t' : Cw20} (h : t.Counted) (a : Addr) (given taken : Nat)
    (haccount : t'.balances a + given = t.balances a + taken)
      (hothers : ∀ a', a' ≠ a → t'.balances a' = t.balances a')
    (hsupply : t'.totalSupply + given = t.totalSupply + taken) : t'.Counted :=
  h.shift (fun _ _ _ _ _ => rfl) (k := a) (t := ()) trivial
    ⟨haccount, hothers, hsupply, fun u hu => absurd (Subsingleton.elim u ()) hu⟩

theorem Cw20.Counted.minted (h : t.Counted) (recipient : Addr) (amount : Nat) :
    (t.minted recipient amount).Counted := by
  refine counted_shift h recipient 0 amount ?_ (fun a ha => update_of_ne ha ..) rfl
  rw [minted_balances, update_self, Nat.add_zero]

theorem Cw20.Counted.burned (h : t.Counted) (hle : amount ≤ t.balances owner) :
    (t.burned owner amount).Counted := by
  have hsupply := counted_le h owner
  refine counted_shift h owner amount 0 ?_ (fun a ha => update_of_ne ha ..) ?_
  · rw [burned_balances, update_self]
    omega
  · rw [burned_supply]
    omega

theorem Cw20.Counted.moved (h : t.Counted) (hle : amount ≤ t.balances owner) (recipient : Addr) :
    (t.moved owner recipient amount).Counted := by
  -- a move is a burn and a mint
  have hmoved : t.moved owner recipient amount = (t.burned owner amount).minted recipient amount := by
    have hsupply := (counted_le h owner).trans' hle
    simp only [Cw20.moved, Cw20.minted, Cw20.burned, Nat.sub_add_cancel hsupply]
  rw [hmoved]
  exact (h.burned hle).minted recipient amount

end Counted

/-! ## What the hub holds -/

/-- The supply covers the balances, no more than `issued` is in supply, and `hub` holds `held`, which nobody
    else may spend. -/
structure Cw20.Custody (t : Cw20) (hub : Addr) (issued held : Nat) : Prop where
  counted : t.Counted
  supply : t.totalSupply ≤ issued
  holds : held ≤ t.balances hub
  guarded : ∀ spender, t.allowances (hub, spender) = none

section Custody

variable {t : Cw20} {hub sender owner recipient : Addr} {issued held amount : Nat}

section

variable (h : t.Custody hub issued held)

include h

theorem Cw20.Custody.held_le : held ≤ issued :=
  h.holds.trans ((counted_le h.counted hub).trans h.supply)

theorem Cw20.Custody.minted (recipient : Addr) (amount : Nat) :
    (t.minted recipient amount).Custody hub (issued + amount) held where
  counted := h.counted.minted recipient amount
  supply := Nat.add_le_add_right h.supply amount
  holds := by
    have hle := h.holds
    by_cases hr : hub = recipient
    · subst hr
      rw [minted_balances, update_self]
      omega
    · rwa [minted_balances, update_of_ne hr]
  guarded := h.guarded

theorem Cw20.Custody.burned : (t.burned hub held).Custody hub (issued - held) 0 where
  counted := h.counted.burned h.holds
  supply := Nat.sub_le_sub_right h.supply held
  holds := Nat.zero_le _
  guarded := h.guarded

theorem Cw20.Custody.moved (hne : owner ≠ hub) (hle : amount ≤ t.balances owner)
    (recipient : Addr) : (t.moved owner recipient amount).Custody hub issued
      (held + if recipient = hub then amount else 0) where
  counted := h.counted.moved hle recipient
  supply := h.supply
  holds := by
    have hheld := h.holds
    by_cases hr : recipient = hub
    · subst hr
      rw [token_moved_balances, update_self, update_of_ne hne.symm, if_pos rfl]
      omega
    · rw [token_moved_balances, update_of_ne (Ne.symm hr), update_of_ne hne.symm, if_neg hr]
      omega
  guarded := h.guarded

theorem Cw20.Custody.allowed (hne : owner ≠ hub) (spender : Addr) (amount : Nat) :
    (t.allowed owner spender amount).Custody hub issued held :=
  ⟨h.counted, h.supply, h.holds, fun s => by
    rw [allowed_allowances, update_of_ne fun heq => hne (congrArg Prod.fst heq).symm]
    exact h.guarded s⟩

theorem Cw20.Custody.mono {held' : Nat} (hle : held' ≤ held) : t.Custody hub issued held' :=
  ⟨h.counted, h.supply, hle.trans h.holds, h.guarded⟩

/-- **What others do with the token leaves what the hub holds.**  They may burn their own. -/
theorem Cw20.Custody.execute {t' : Cw20} {msg : Cw20ExecuteMsg} (hminter : t.minter = hub)
    (hsender : sender ≠ hub) (hexec : t.execute sender msg = .ok t') : t'.Custody hub issued held := by
  cases msg with
  | transfer recipient amount =>
    obtain ⟨hle, rfl⟩ := move_eq_ok.mp hexec
    exact (h.moved hsender hle recipient).mono (Nat.le_add_right ..)
  | burn amount =>
    obtain ⟨hle, -, rfl⟩ := burn_eq_ok.mp hexec
    have hholds : held ≤ (t.burned sender amount).balances hub := by
      rw [burned_balances, update_of_ne hsender.symm]
      exact h.holds
    exact ⟨h.counted.burned hle, (Nat.sub_le ..).trans h.supply, hholds, h.guarded⟩
  | mint recipient amount =>
    obtain ⟨hs, -, -⟩ := mint_eq_ok.mp hexec
    exact absurd (hs.trans hminter) hsender
  | increaseAllowance spender amount =>
    cases hexec
    exact h.allowed hsender spender _
  | transferFrom owner recipient amount =>
    obtain ⟨allowance, hallowance, -, hle, rfl⟩ := transferFrom_eq_ok.mp hexec
    have hne : owner ≠ hub := by
      rintro rfl
      rw [h.guarded] at hallowance
      cases hallowance
    exact ((h.allowed hne sender _).moved hne hle recipient).mono (Nat.le_add_right ..)

end

theorem execute_minter {t' : Cw20} {msg : Cw20ExecuteMsg} (hexec : t.execute sender msg = .ok t') :
    t'.minter = t.minter := by
  cases msg with
  | transfer recipient amount =>
    obtain ⟨-, rfl⟩ := move_eq_ok.mp hexec
    rfl
  | burn amount =>
    obtain ⟨-, -, rfl⟩ := burn_eq_ok.mp hexec
    rfl
  | mint recipient amount =>
    obtain ⟨-, -, rfl⟩ := mint_eq_ok.mp hexec
    rfl
  | increaseAllowance spender amount =>
    cases hexec
    rfl
  | transferFrom owner recipient amount =>
    obtain ⟨-, -, -, -, rfl⟩ := transferFrom_eq_ok.mp hexec
    rfl

end Custody

end UnionVoyager.Lst
