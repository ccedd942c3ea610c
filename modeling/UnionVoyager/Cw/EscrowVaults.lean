import UnionVoyager.Cw.EscrowVault
import UnionVoyager.Lib.Machine

/-!
# The two escrow vaults

The vault in CosmWasm next to the one in Solidity, with the same calls under other names.

* `second_order_fails` — a packet with two orders.
-/

namespace UnionVoyager.Cw.EscrowVaults

open Lib Lib.Machine Cw.EscrowVault Function
open Evm (Address IBCPacket TokenOrderV2 Lane laneOf Bytes32 encodePacked toAddress)
open Evm.EscrowVault (Outcome Covered paid)

/-- The names of the accounts and tokens of one chain on the other. -/
structure Renaming (evm : Evm.EscrowVault.Env) (cw : Env) where
  addr : Address → Addr
  denom : Address → String
  quoteToken : Bytes → Bytes
  addr_injective : Injective addr
  denom_injective : Injective denom
  addr_valid : ∀ a, cw.addrValidate (addr a) = true
  quoteToken_iff : ∀ b t, quoteToken b = utf8 (denom t) ↔ b = encodePacked t
  contract : cw.contract = addr evm.self
  commit : cw.commitPackets = evm.commitPacket

variable {evm : Evm.EscrowVault.Env} {cw : Env} (ρ : Renaming evm cw)

namespace Renaming

def order (o : TokenOrderV2) : TokenOrderV2 :=
  { o with receiver := utf8 (ρ.addr (toAddress o.receiver)), quoteToken := ρ.quoteToken o.quoteToken }

def solve (c : Evm.EscrowVault.Solve) : DoSolve where
  sender := ρ.addr c.sender
  packet := c.packet
  order := ρ.order c.order
  path := c.path
  relayer := ρ.addr c.relayer
  intent := c.intent

def op : Evm.EscrowVault.Op → Op
  | .setFungibleCounterparty permitted lane counterparty =>
    .setFungibleCounterparty permitted lane counterparty.beneficiary (ρ.denom counterparty.escrowedToken)
  | .whitelistIntents permitted hashes => .whitelistIntents permitted hashes
  | .solve c => .doSolve (ρ.solve c)
  | .deposit token account amount => .deposit (ρ.denom token) (ρ.addr account) amount

end Renaming

/-- A lane is the same on both sides; one that was never set is empty in Solidity. -/
def SameLane (d : Evm.EscrowVault.FungibleCounterparty) : Option FungibleLane → Prop
  | none => d.beneficiary = []
  | some lane => lane.counterpartyBeneficiary = d.beneficiary ∧ lane.escrowedDenom = ρ.denom d.escrowedToken

/-- The two vaults hold the same. -/
structure Same (s : Evm.EscrowVault.State) (w : World) : Prop where
  zkgm : w.storage.zkgm = ρ.addr s.zkgm
  lanes : ∀ l, SameLane ρ (s.fungibleCounterparties l) (w.storage.fungibleCounterparty l)
  whitelist : ∀ h, (w.storage.intentWhitelist h).getD false = s.intentWhitelist h
  balances : ∀ t a, w.balances (ρ.denom t) (ρ.addr a) = s.balances t a

theorem init_same (zkgm : Address) : Same ρ (Evm.EscrowVault.init zkgm) (init (ρ.addr zkgm)) :=
  ⟨rfl, fun _ => rfl, fun _ => rfl, fun _ _ => rfl⟩

/-! ## Changes of the configuration -/

variable {s : Evm.EscrowVault.State} {w : World}

theorem Same.setFungibleCounterparty (h : Same ρ s w) (l : Lane) (d : Evm.EscrowVault.FungibleCounterparty) :
    Same ρ (Evm.EscrowVault.setFungibleCounterparty s l d)
      { w with
        storage := setFungibleCounterparty cw w.storage l d.beneficiary (ρ.denom d.escrowedToken) } := by
  refine ⟨h.zkgm, ?_, h.whitelist, h.balances⟩
  intro l'
  show SameLane ρ (update s.fungibleCounterparties l d l') (update w.storage.fungibleCounterparty l _ l')
  by_cases hl : l' = l
  · subst hl
    rw [update_self, update_self]
    exact ⟨rfl, rfl⟩
  · rw [update_of_ne hl, update_of_ne hl]
    exact h.lanes l'

theorem Same.whitelistIntents (hashes : List (Bytes32 × Bool)) : ∀ {s : Evm.EscrowVault.State}
    {w : World}, Same ρ s w →
    Same ρ (hashes.foldl (fun s p => Evm.EscrowVault.whitelistIntent s [p.1] p.2) s)
      { w with storage := whitelistIntents w.storage hashes } := by
  induction hashes with
  | nil => exact fun h => h
  | cons p hashes ih =>
    intro s w h
    refine ih (w := { w with storage :=
      { w.storage with intentWhitelist := update w.storage.intentWhitelist p.1 (some p.2) } })
      ⟨h.zkgm, h.lanes, ?_, h.balances⟩
    intro x
    show (update w.storage.intentWhitelist p.1 (some p.2) x).getD false = update s.intentWhitelist p.1 p.2 x
    by_cases hx : x = p.1
    · subst hx
      rw [update_self, update_self]
      rfl
    · rw [update_of_ne hx, update_of_ne hx]
      exact h.whitelist x

variable {b : Address → Nat} {b' : Addr → Nat}

theorem balances_update (h : Same ρ s w) {token : Address} (hb : ∀ a, b' (ρ.addr a) = b a) (t a : Address) :
    update w.balances (ρ.denom token) b' (ρ.denom t) (ρ.addr a) = update s.balances token b t a := by
  by_cases ht : t = token
  · subst ht
    rw [update_self, update_self, hb]
  · rw [update_of_ne ht, update_of_ne (fun heq => ht (ρ.denom_injective heq)), h.balances]

theorem Same.deposit (h : Same ρ s w) (token account : Address) (amount : Nat) :
    Same ρ (Evm.EscrowVault.step evm s (.deposit token account amount)).1
      (step cw w (.deposit (ρ.denom token) (ρ.addr account) amount)).1 := by
  refine ⟨h.zkgm, h.lanes, h.whitelist, balances_update ρ h ?_⟩
  intro a
  exact Ledger.credited_rename ρ.addr_injective (h.balances token) account a amount

/-! ## A solve on both sides -/

variable {c : Evm.EscrowVault.Solve} {lane : FungibleLane}

theorem fillable_iff (h : Same ρ s w)
    (hlane : w.storage.fungibleCounterparty (laneOf c.packet c.order c.path) = some lane) :
    Fillable cw w.storage (ρ.solve c) lane ↔ Evm.EscrowVault.Fillable evm s c := by
  have hsame := h.lanes (laneOf c.packet c.order c.path)
  rw [hlane] at hsame
  have hdenom := hsame.2
  constructor
  · rintro ⟨hzkgm, hintent, -, hquote, hcovers⟩
    refine ⟨ρ.addr_injective (hzkgm.trans h.zkgm), ?_, ?_, hcovers⟩
    · intro hi
      have hw := hintent hi
      rwa [h.whitelist, ρ.commit] at hw
    · rw [hdenom] at hquote
      exact (ρ.quoteToken_iff _ _).mp hquote
  · rintro ⟨hzkgm, hintent, hquote, hcovers⟩
    refine ⟨?_, ?_, hlane, ?_, hcovers⟩
    · rw [h.zkgm, ← hzkgm]
      rfl
    · intro hi
      rw [h.whitelist, ρ.commit]
      exact hintent hi
    · rw [hdenom]
      exact (ρ.quoteToken_iff _ _).mpr hquote

theorem not_fillable {s : Storage} {c : DoSolve}
    (hlane : s.fungibleCounterparty (laneOf c.packet c.order c.path) = none)
    (lane : FungibleLane) : ¬ Fillable cw s c lane := by
  intro h
  have hsome := h.registered
  rw [hlane] at hsome
  cases hsome

theorem covered_rename (hb : ∀ a, b' (ρ.addr a) = b a) (first : Address) (m n : Nat) :
    Covered b' cw.contract (ρ.addr first) m n ↔ Covered b evm.self first m n := by
  unfold Covered
  rw [ρ.contract, hb, Ledger.moved_rename ρ.addr_injective hb]

theorem paid_rename (hb : ∀ a, b' (ρ.addr a) = b a) (first second a : Address) (m n : Nat) :
    paid b' cw.contract (ρ.addr first) (ρ.addr second) m n (ρ.addr a) = paid b evm.self first second
      m n a := by
  unfold paid
  rw [ρ.contract]
  exact Ledger.moved_rename ρ.addr_injective (Ledger.moved_rename ρ.addr_injective hb _ _ · _) _ _ _ _

/-- The lane that a solve is about, as Solidity has it. -/
def counterparty (s : Evm.EscrowVault.State) (c : Evm.EscrowVault.Solve) :
    Evm.EscrowVault.FungibleCounterparty :=
  s.fungibleCounterparties (laneOf c.packet c.order c.path)

/-- The vault covers the payments in the order of Solidity, the quote amount first. -/
def CoversQuote (evm : Evm.EscrowVault.Env) (s : Evm.EscrowVault.State) (c : Evm.EscrowVault.Solve) : Prop :=
  Covered (s.balances (counterparty s c).escrowedToken) evm.self (toAddress c.order.receiver)
    c.order.quoteAmount (c.order.baseAmount - c.order.quoteAmount)

/-- The vault covers the payments in the order of CosmWasm, the fee first. -/
def CoversFee (evm : Evm.EscrowVault.Env) (s : Evm.EscrowVault.State) (c : Evm.EscrowVault.Solve) : Prop :=
  Covered (s.balances (counterparty s c).escrowedToken) evm.self c.relayer
    (c.order.baseAmount - c.order.quoteAmount) c.order.quoteAmount

theorem covers_iff (hreceiver : toAddress c.order.receiver ≠ evm.self)
    (hrelayer : c.relayer ≠ evm.self) : CoversQuote evm s c ↔ CoversFee evm s c := by
  unfold CoversQuote CoversFee Covered
  rw [Ledger.moved_src, Ledger.moved_src, if_neg hreceiver, if_neg hrelayer]
  omega

/-- The two vaults do the same: their callers see the same, and they hold the same afterwards; an
order that is solved is paid. -/
structure Agree (s : Evm.EscrowVault.State) (w : World) (op : Evm.EscrowVault.Op) : Prop where
  outcome : (step cw w (ρ.op op)).2 = (Evm.EscrowVault.step evm s op).2
  same : Same ρ (Evm.EscrowVault.step evm s op).1 (step cw w (ρ.op op)).1
  payments : ∀ c beneficiary, op = .solve c → (Evm.EscrowVault.step evm s op).2 = [.solved beneficiary] →
    (Evm.EscrowVault.step evm s op).1 = Evm.EscrowVault.afterSolve evm s c ∧
      beneficiary = (counterparty s c).beneficiary

/-- What a solve that passes the checks on a registered lane must be like. -/
structure AlikeSolve (evm : Evm.EscrowVault.Env) (s : Evm.EscrowVault.State)
    (c : Evm.EscrowVault.Solve) : Prop where
  /-- the amounts have 128 bits -/
  fits : Fits c.order
  /-- on a lane without a beneficiary, the vault cannot pay -/
  empty : (counterparty s c).beneficiary = [] → ¬ CoversFee evm s c
  /-- the order of the payments does not matter -/
  covers : (counterparty s c).beneficiary ≠ [] → (CoversQuote evm s c ↔ CoversFee evm s c)
  /-- no whitelisted intent is solved -/
  intent : (counterparty s c).beneficiary ≠ [] → CoversQuote evm s c → c.intent = false

/-- What a call must be like. -/
def Alike (evm : Evm.EscrowVault.Env) (s : Evm.EscrowVault.State) (w : World) : Evm.EscrowVault.Op → Prop
  | .solve c => Evm.EscrowVault.Fillable evm s c →
      w.storage.fungibleCounterparty (laneOf c.packet c.order c.path) ≠ none → AlikeSolve evm s c
  | _ => True

theorem evm_step_solve (evm : Evm.EscrowVault.Env) (s : Evm.EscrowVault.State) (c : Evm.EscrowVault.Solve) :
    (Evm.EscrowVault.Fillable evm s c ∧ (counterparty s c).beneficiary ≠ [] ∧ CoversQuote evm s c ∧
      Evm.EscrowVault.step evm s (.solve c) =
        (Evm.EscrowVault.afterSolve evm s c, [.solved (counterparty s c).beneficiary])) ∨
    (¬ (Evm.EscrowVault.Fillable evm s c ∧ (counterparty s c).beneficiary ≠ [] ∧ CoversQuote evm s c) ∧
      Evm.EscrowVault.step evm s (.solve c) = (s, [.failed])) := by
  cases h : Evm.EscrowVault.solve evm s c with
  | ok r =>
    obtain ⟨hfill, hne, hcovered, rfl⟩ := (Evm.EscrowVault.solve_eq_ok evm).mp h
    exact .inl ⟨hfill, hne, hcovered, by rw [Evm.EscrowVault.step, h]; rfl⟩
  | error e =>
    refine .inr ⟨?_, by rw [Evm.EscrowVault.step, h]⟩
    rintro ⟨hfill, hne, hcovered⟩
    have hok := (Evm.EscrowVault.solve_eq_ok evm).mpr ⟨hfill, hne, hcovered, rfl⟩
    rw [h] at hok
    cases hok

theorem coversFee_iff (h : Same ρ s w)
    (hlane : w.storage.fungibleCounterparty (laneOf c.packet c.order c.path) = some lane) :
    Covered (w.balances lane.escrowedDenom) cw.contract (ρ.solve c).relayer
      ((ρ.solve c).order.baseAmount - (ρ.solve c).order.quoteAmount) (ρ.solve c).order.quoteAmount ↔
    CoversFee evm s c := by
  have hsame := h.lanes (laneOf c.packet c.order c.path)
  rw [hlane] at hsame
  refine covered_rename ρ ?_ c.relayer _ _
  intro a
  rw [hsame.2]
  exact h.balances _ a

theorem same_afterSolve (h : Same ρ s w)
    (hlane : w.storage.fungibleCounterparty (laneOf c.packet c.order c.path) = some lane)
    (hquote : CoversQuote evm s c) (hfee : CoversFee evm s c) (hintent : c.intent = false) :
    Same ρ (Evm.EscrowVault.afterSolve evm s c)
      ⟨afterSolve cw w.storage (ρ.solve c), update w.balances lane.escrowedDenom
        (paid (w.balances lane.escrowedDenom) cw.contract (ρ.solve c).relayer
          (ρ.addr (toAddress c.order.receiver))
          ((ρ.solve c).order.baseAmount - (ρ.solve c).order.quoteAmount) (ρ.solve c).order.quoteAmount)⟩ := by
  have hsame := h.lanes (laneOf c.packet c.order c.path)
  rw [hlane] at hsame
  have hstorage : afterSolve cw w.storage (ρ.solve c) = w.storage :=
    if_neg (by simp [Renaming.solve, hintent])
  rw [hstorage]
  refine ⟨h.zkgm, h.lanes, h.whitelist, ?_⟩
  rw [hsame.2]
  refine balances_update ρ h ?_
  intro a
  refine (paid_rename ρ (h.balances _) c.relayer (toAddress c.order.receiver) a _ _).trans ?_
  exact congrFun (Ledger.moved_comm hfee.1 hfee.2 hquote.1 hquote.2) a

theorem Agree.of_failed (h : Same ρ s w) (hevm : Evm.EscrowVault.step evm s (.solve c) = (s, [.failed]))
    (hcw : step cw w (.doSolve (ρ.solve c)) = (w, [.failed])) : Agree ρ s w (.solve c) := by
  refine ⟨?_, ?_, ?_⟩
  · rw [hevm]
    exact congrArg Prod.snd hcw
  · rw [hevm]
    exact (congrArg Prod.fst hcw).symm ▸ h
  · intro c' beneficiary _ hout
    rw [hevm] at hout
    cases hout

theorem not_same_of_intent (hfill : Evm.EscrowVault.Fillable evm s c) (hintent : c.intent = true)
    {balances : String → Addr → Nat} :
    ¬ Same ρ (Evm.EscrowVault.afterSolve evm s c) ⟨afterSolve cw w.storage (ρ.solve c), balances⟩ := by
  intro h
  have hw := h.whitelist (evm.commitPacket c.packet)
  have hused : (afterSolve cw w.storage (ρ.solve c)).intentWhitelist (evm.commitPacket c.packet) = none := by
    have hintent' : (ρ.solve c).intent = true := hintent
    rw [afterSolve, if_pos hintent', ρ.commit]
    exact update_self ..
  have hkept : (Evm.EscrowVault.afterSolve evm s c).intentWhitelist (evm.commitPacket c.packet) = true :=
    hfill.whitelisted hintent
  rw [hkept] at hw
  simp only [hused, Option.getD_none] at hw
  cases hw

theorem agree_solve_mp (h : Same ρ s w) (hagree : Agree ρ s w (.solve c))
    (hfill : Evm.EscrowVault.Fillable evm s c)
    (hlane : w.storage.fungibleCounterparty (laneOf c.packet c.order c.path) = some lane) :
      AlikeSolve evm s c := by
  have hout : (step cw w (.doSolve (ρ.solve c))).2 = (Evm.EscrowVault.step evm s (.solve c)).2 :=
    hagree.outcome
  have hsame : Same ρ (Evm.EscrowVault.step evm s (.solve c)).1
    (step cw w (.doSolve (ρ.solve c))).1 := hagree.same
  have hcov := coversFee_iff ρ h hlane
  rcases step_doSolve cw ((fillable_iff ρ h hlane).mpr hfill) rfl (ρ.addr_valid _) with
    ⟨hfits, hfee, hcw⟩ | ⟨hfits, hfee, hcw⟩ | ⟨-, hcw⟩
  · rcases evm_step_solve evm s c with ⟨-, hne, hquote, hevm⟩ | ⟨-, hevm⟩
    · rw [hevm, hcw] at hsame
      refine ⟨hfits, fun hempty => absurd hempty hne, fun _ =>
        ⟨fun _ => hcov.mp hfee, fun _ => hquote⟩, fun _ _ => ?_⟩
      by_contra hintent
      exact not_same_of_intent ρ hfill (by simpa using hintent) hsame
    · rw [hevm, hcw] at hout
      cases hout
  · rcases evm_step_solve evm s c with ⟨-, -, -, hevm⟩ | ⟨hnot, -⟩
    · rw [hevm, hcw] at hout
      cases hout
    · have hnfee : ¬ CoversFee evm s c := fun hc => hfee (hcov.mpr hc)
      refine ⟨hfits, fun _ => hnfee, fun hne =>
        ⟨fun hq => absurd ⟨hfill, hne, hq⟩ hnot, fun hc => absurd hc hnfee⟩,
        fun hne hq => absurd ⟨hfill, hne, hq⟩ hnot⟩
  · rcases evm_step_solve evm s c with ⟨-, -, -, hevm⟩ | ⟨-, hevm⟩
    · rw [hevm, hcw] at hout
      cases hout
    · rw [hevm, hcw] at hout
      cases hout

theorem agree_solve_mpr (h : Same ρ s w) (hfill : Evm.EscrowVault.Fillable evm s c)
    (hlane : w.storage.fungibleCounterparty (laneOf c.packet c.order c.path) = some lane)
    (halike : AlikeSolve evm s c) : Agree ρ s w (.solve c) := by
  have hcov := coversFee_iff ρ h hlane
  have hben := h.lanes (laneOf c.packet c.order c.path)
  rw [hlane] at hben
  rcases step_doSolve cw ((fillable_iff ρ h hlane).mpr hfill) rfl (ρ.addr_valid _) with
    ⟨-, hfee, hcw⟩ | ⟨-, hfee, hcw⟩ | ⟨hfits, -⟩
  · have hne : (counterparty s c).beneficiary ≠ [] := fun hempty => halike.empty hempty (hcov.mp hfee)
    have hquote := (halike.covers hne).mpr (hcov.mp hfee)
    rcases evm_step_solve evm s c with ⟨-, -, -, hevm⟩ | ⟨hnot, -⟩
    · refine ⟨?_, ?_, ?_⟩
      · rw [hevm]
        refine (congrArg Prod.snd hcw).trans ?_
        rw [hben.1]
        rfl
      · rw [hevm]
        exact (congrArg Prod.fst hcw).symm ▸ same_afterSolve ρ h hlane hquote (hcov.mp hfee)
          (halike.intent hne hquote)
      · intro c' beneficiary hc hout
        cases hc
        rw [hevm] at hout ⊢
        exact ⟨rfl, (Outcome.solved.inj (List.cons.inj hout).1).symm⟩
    · exact absurd ⟨hfill, hne, hquote⟩ hnot
  · rcases evm_step_solve evm s c with ⟨-, hne, hquote, -⟩ | ⟨-, hevm⟩
    · exact absurd (hcov.mpr ((halike.covers hne).mp hquote)) hfee
    · exact .of_failed ρ h hevm hcw
  · exact absurd halike.fits hfits

theorem agree_iff (h : Same ρ s w) (op : Evm.EscrowVault.Op) : Agree ρ s w op ↔ Alike evm s w op := by
  cases op with
  | solve c =>
    by_cases hfill : Evm.EscrowVault.Fillable evm s c
    · cases hlane : w.storage.fungibleCounterparty (laneOf c.packet c.order c.path) with
      | some lane =>
        constructor
        · intro hagree _ _
          exact agree_solve_mp ρ h hagree hfill hlane
        · intro halike
          exact agree_solve_mpr ρ h hfill hlane (halike hfill (by rw [hlane]; exact Option.some_ne_none _))
      | none =>
        have hempty := h.lanes (laneOf c.packet c.order c.path)
        rw [hlane] at hempty
        refine ⟨fun _ _ hne => absurd hlane hne, fun _ => ?_⟩
        have hcw := step_doSolve_of_not_fillable cw (c := ρ.solve c) (w := w) (not_fillable hlane)
        rcases evm_step_solve evm s c with ⟨-, hne, -⟩ | ⟨-, hevm⟩
        · exact absurd hempty hne
        · exact .of_failed ρ h hevm hcw
    · refine ⟨fun _ hfill' => absurd hfill' hfill, fun _ => ?_⟩
      have hcw : step cw w (.doSolve (ρ.solve c)) = (w, [.failed]) := by
        refine step_doSolve_of_not_fillable cw ?_
        intro lane hlane
        exact hfill ((fillable_iff ρ h hlane.registered).mp hlane)
      rcases evm_step_solve evm s c with ⟨hfill', -⟩ | ⟨-, hevm⟩
      · exact absurd hfill' hfill
      · exact .of_failed ρ h hevm hcw
  | setFungibleCounterparty permitted lane d =>
    refine ⟨fun _ => trivial, fun _ => ⟨?_, ?_, fun _ _ hc => by cases hc⟩⟩
    · cases permitted <;> rfl
    · cases permitted
      · exact h
      · exact h.setFungibleCounterparty ρ lane d
  | whitelistIntents permitted hashes =>
    refine ⟨fun _ => trivial, fun _ => ⟨?_, ?_, fun _ _ hc => by cases hc⟩⟩
    · cases permitted <;> rfl
    · cases permitted
      · exact h
      · exact h.whitelistIntents ρ hashes
  | deposit token account amount =>
    exact ⟨fun _ => trivial, fun _ => ⟨rfl, h.deposit ρ token account amount, fun _ _ hc => by cases hc⟩⟩

/-- Both vaults take the same call. -/
def both (p : Evm.EscrowVault.State × World) (op : Evm.EscrowVault.Op) :
    (Evm.EscrowVault.State × World) × List (List Outcome × List Outcome) :=
  (((Evm.EscrowVault.step evm p.1 op).1, (step cw p.2 (ρ.op op)).1),
    [((Evm.EscrowVault.step evm p.1 op).2, (step cw p.2 (ρ.op op)).2)])

/-- **The two vaults do the same at every call of a run exactly if every call is alike.** -/
theorem same_solver_iff {s : Evm.EscrowVault.State} {w : World} (h : Same ρ s w)
    (ops : List Evm.EscrowVault.Op) : Meets (both ρ) (fun p op => Agree ρ p.1 p.2 op) (s, w) ops ↔
      Meets (both ρ) (fun p op => Alike evm p.1 p.2 op) (s, w) ops := by
  induction ops generalizing s w with
  | nil => exact Iff.rfl
  | cons op ops ih =>
    -- a call that is alike leaves the vaults the same, and the rest of the run starts there
    constructor
    · rintro ⟨hagree, hrest⟩
      exact ⟨(agree_iff ρ h op).mp hagree, (ih hagree.same).mp hrest⟩
    · rintro ⟨halike, hrest⟩
      have hagree := (agree_iff ρ h op).mpr halike
      exact ⟨hagree, (ih hagree.same).mpr hrest⟩

/-! ## Two vaults -/

namespace Sample

/-- Each byte is a character. -/
def nameOf (b : Bytes) : String := String.ofList (b.map fun x => Char.ofNat x.toNat)

theorem toNat_ofNat (x : UInt8) : (Char.ofNat x.toNat).toNat = x.toNat := by
  have hx := x.toNat_lt
  have hvalid : x.toNat.isValidChar := .inl (by omega)
  rw [Char.ofNat, dif_pos hvalid]
  rfl

theorem nameOf_injective : Injective nameOf := by
  intro b b' h
  refine List.map_injective_iff.mpr ?_ (String.ofList_injective h)
  intro x y hxy
  have hnat := congrArg Char.toNat hxy
  rw [toNat_ofNat, toNat_ofNat] at hnat
  exact UInt8.toNat_inj.mp hnat

theorem encodePacked_injective : Injective encodePacked := by
  intro a b h
  exact BitVec.eq_of_toNat_eq (beBytes_inj 20 (by have := a.isLt; omega) (by have := b.isLt; omega) h)

def solidity : Evm.EscrowVault.Env where
  self := 9
  commitPacket p := BitVec.ofNat 256 p.data.length

def cosmwasm : Env where
  contract := nameOf (encodePacked 9)
  addrValidate _ := true
  isContract _ := false
  commitPackets p := BitVec.ofNat 256 p.data.length

def names : Renaming solidity cosmwasm where
  addr a := nameOf (encodePacked a)
  denom t := nameOf (encodePacked t)
  quoteToken b := utf8 (nameOf b)
  addr_injective := nameOf_injective.comp encodePacked_injective
  denom_injective := nameOf_injective.comp encodePacked_injective
  addr_valid _ := rfl
  quoteToken_iff b t := by rw [utf8_injective.eq_iff, nameOf_injective.eq_iff]
  contract := rfl
  commit := rfl

def packet : IBCPacket := ⟨1, 2, [7], 0, 10⟩

def order (baseAmount quoteAmount : Nat) : TokenOrderV2 :=
  ⟨[], encodePacked 3, [1], baseAmount, encodePacked 5, quoteAmount, 1, []⟩

def solve (baseAmount quoteAmount : Nat) (intent : Bool) : Evm.EscrowVault.Op :=
  .solve ⟨1, packet, order baseAmount quoteAmount, 0, 4, intent⟩

/-- The lane is set and the vault has funds. -/
def setUp : List Evm.EscrowVault.Op :=
  [.setFungibleCounterparty true ⟨0, 2, [1]⟩ ⟨[8], 5⟩, .deposit 5 9 1000, .whitelistIntents true [(1, true)]]

theorem solve_alike : Alike solidity (run (both names) (Evm.EscrowVault.init 1, init (names.addr 1)) setUp).1
    (run (both names) (Evm.EscrowVault.init 1, init (names.addr 1)) setUp).2 (solve 100 90 false) := by
  intro _ _
  refine ⟨by decide, fun hempty => absurd hempty (by decide), fun _ => ?_, fun _ _ => rfl⟩
  exact covers_iff (by decide) (by decide)

end Sample

open Sample in
theorem same_solver_sample :
    Meets (both names) (fun p op => Agree names p.1 p.2 op) (Evm.EscrowVault.init 1, init (names.addr 1))
      (setUp ++ [solve 100 90 false]) :=
  (same_solver_iff names (init_same names 1) _).mpr ⟨trivial, trivial, trivial, solve_alike, trivial⟩

open Sample in
/-- The second order of a whitelisted packet is solved in Solidity only. -/
theorem second_order_fails :
    ¬ ∀ (evm : Evm.EscrowVault.Env) (cw : Env) (ρ : Renaming evm cw) (s : Evm.EscrowVault.State) (w : World)
      (ops : List Evm.EscrowVault.Op), Same ρ s w →
        Meets (both ρ) (fun p op => Agree ρ p.1 p.2 op) (s, w) ops := by
  intro h
  have hmeets := h solidity cosmwasm names _ _ (setUp ++ [solve 100 90 true, solve 50 40 true])
    (init_same names 1)
  have hout := hmeets.2.2.2.2.1.outcome
  revert hout
  decide

end UnionVoyager.Cw.EscrowVaults
