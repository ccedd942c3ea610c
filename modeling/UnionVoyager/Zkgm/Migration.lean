import UnionVoyager.Lib.Loop
import UnionVoyager.Lib.RawStore
import UnionVoyager.Zkgm.State

/-!
# The migration of the channel balances

`migrate_v1_to_v2` of `ucs03-zkgm/src/contract.rs`, over the raw storage: `DEPRECATED_CHANNEL_BALANCE_V1`
and `CHANNEL_BALANCE_V2` of `state.rs` have one namespace, so a key of either is a byte string that may
also be a key of the other.

* `increaseChannelBalanceV2_refines` — the balance update of `Zkgm.State`, on the raw storage.
* `migrateOne_effect` — what one migration did.
* `v1Key_eq_v2Key_iff` — the denoms whose V1 key is a V2 key.
-/

namespace UnionVoyager.Zkgm

open Lib Function List RawStore
open Core (ChannelId)

/-! ## Keys -/

/-- `Map::new("channel_balance_v2")`, for both maps. -/
def channelBalanceNamespace : Bytes := utf8 "channel_balance_v2"

/-- The parts of a key that both maps start with. -/
def balanceParts (channelId : ChannelId) (path : U256) : List Bytes :=
  [channelBalanceNamespace, beBytes 4 channelId.raw.get, beBytes 32 path.toNat]

/-- `DEPRECATED_CHANNEL_BALANCE_V1.key((channel_id, path, denom))`. -/
def v1Key (channelId : ChannelId) (path : U256) (denom : String) : Bytes :=
  joinKey (balanceParts channelId path) (utf8 denom)

/-- `CHANNEL_BALANCE_V2.key((channel_id, (path, base_token, quote_token)))`, of a base token that fits. -/
def v2Key (channelId : ChannelId) (path : U256) (baseToken : String) (quoteToken : Bytes) : Bytes :=
  joinKey (balanceParts channelId path ++ [utf8 baseToken]) quoteToken

/-- `encode_length` panics at a part that is longer than two bytes can say. -/
def Fits (baseToken : String) : Prop := (utf8 baseToken).length < 2 ^ 16

instance (baseToken : String) : Decidable (Fits baseToken) :=
  inferInstanceAs (Decidable ((utf8 baseToken).length < 2 ^ 16))

/-! ## Entries -/

/-- How a `Uint256` is written to the storage and read from it (`to_vec`, `from_slice` of JSON). -/
structure Uint256Codec where
  serialize : Nat → Bytes
  deserialize : Bytes → Option Nat
  deserialize_lt : ∀ b n, deserialize b = some n → n < 2 ^ 256
  deserialize_serialize : ∀ n, n < 2 ^ 256 → deserialize (serialize n) = some n

variable (J : Uint256Codec)

/-- The amount that an entry holds. -/
def Uint256Codec.value (raw : Bytes) : Nat := (J.deserialize raw).getD 0

/-- `may_load` of a map with these keys. -/
def mayLoad (s : RawStore) (key : Bytes) : Result (Option Nat) :=
  match s.get key with
  | none => .ok none
  | some raw =>
    match J.deserialize raw with
    | none => .error (.err .std)
    | some n => .ok (some n)

/-- `increase_channel_balance_v2`. -/
def increaseRawBalanceV2 (s : RawStore) (channelId : ChannelId) (path : U256) (baseToken : String)
    (quoteToken : Bytes) (amount : Nat) : Result RawStore :=
  if Fits baseToken then do
    let key := v2Key channelId path baseToken quoteToken
    match ← mayLoad J s key with
    | some value =>
      if value + amount < 2 ^ 256 then
        pure (s.set key (J.serialize (value + amount)))
      else
        .error (.err .invalidChannelBalance)
    | none => pure (s.set key (J.serialize amount))
  else
    .error (.panic "only supports namespaces up to length 0xFFFF")

/-! ## The migration -/

structure V1ToV2Migration where
  path : U256
  channelId : ChannelId
  baseToken : String
  quoteToken : Bytes

structure V1ToV2WrappedMigration where
  path : U256
  channelId : ChannelId
  baseToken : Bytes
  quoteToken : String

inductive WrappedTokenKind where
  | protocol
  | thirdParty

inductive MigrationEvent where
  | v1ToV2Migration
  | wrappedToken (path : U256) (channelId : ChannelId) (baseToken : Bytes) (quoteToken : String)
      (metadata : Bytes) (kind : WrappedTokenKind)

namespace V1ToV2Migration

/-- The entry that a migration drains. -/
def source (m : V1ToV2Migration) : Bytes := v1Key m.channelId m.path m.baseToken

/-- The entry that a migration adds to. -/
def target (m : V1ToV2Migration) : Bytes := v2Key m.channelId m.path m.baseToken m.quoteToken

end V1ToV2Migration

/-- The body of the loop over the balances. -/
def migrateOne (s : RawStore) (migration : V1ToV2Migration) : Result RawStore := do
  match ← mayLoad J s migration.source with
  | some balance =>
    if balance = 0 then
      .error (.err .std)
    else do
      let s ← increaseRawBalanceV2 J s migration.channelId migration.path migration.baseToken
        migration.quoteToken balance
      pure (s.remove migration.source)
  | none => .error (.err .std)

def migrateV1ToV2 (s : RawStore) (balanceMigrations : List V1ToV2Migration)
    (wrappedMigrations : List V1ToV2WrappedMigration) : Result (RawStore × List MigrationEvent) := do
  let s ← balanceMigrations.foldlM (migrateOne J) s
  let events := wrappedMigrations.map fun m =>
    MigrationEvent.wrappedToken m.path m.channelId m.baseToken m.quoteToken [] .protocol
  pure (s, .v1ToV2Migration :: events)

/-! ## What the balances are -/

section

variable (s : RawStore) (channelId : ChannelId) (path : U256) (baseToken : String)

def v1Balance : Nat :=
  s.amount J.value (v1Key channelId path baseToken)

/-- The V2 balances of a base token, over all quote tokens.  A base token that does not fit has none. -/
noncomputable def v2Balances : Nat :=
  if Fits baseToken then s.sumOver J.value (v2Key channelId path baseToken) else 0

/-- What is recorded of a base token under both versions. -/
noncomputable def recorded : Nat :=
  v1Balance J s channelId path baseToken + v2Balances J s channelId path baseToken

end

/-! ## Keys of both maps -/

theorem channelBalanceNamespace_length : channelBalanceNamespace.length = 18 := by decide

theorem balanceParts_length (c : ChannelId) (p : U256) : (balanceParts c p).length = 3 := rfl

theorem balanceParts_short (c : ChannelId) (p : U256) : ∀ b ∈ balanceParts c p, b.length < 2 ^ 16 := by
  unfold balanceParts
  rw [forall_mem_cons, forall_mem_cons, forall_mem_singleton, channelBalanceNamespace_length,
    beBytes_length, beBytes_length]
  omega

variable {c c' : ChannelId} {p p' : U256}

theorem balanceParts_inj : balanceParts c p = balanceParts c' p' ↔ c = c' ∧ p = p' := by
  constructor
  · intro h
    unfold balanceParts at h
    rw [cons_inj_right, List.cons.injEq, List.cons.injEq] at h
    obtain ⟨hc, hp, -⟩ := h
    constructor
    · have hraw : c.raw = c'.raw := Core.NonZeroU32.ext (beBytes_inj 4 c.raw.lt c'.raw.lt hc)
      cases c
      cases c'
      exact congrArg Core.ChannelId.mk hraw
    · have h256 : (2 : Nat) ^ 256 = 256 ^ 32 := by decide
      exact BitVec.eq_of_toNat_eq
        (beBytes_inj 32 (lt_of_lt_of_eq p.isLt h256) (lt_of_lt_of_eq p'.isLt h256) hp)
  · rintro ⟨rfl, rfl⟩
    rfl

theorem v2Key_eq (c : ChannelId) (p : U256) (b : String) (q : Bytes) :
    v2Key c p b q = joinKey (balanceParts c p) (lengthPrefixed (utf8 b) ++ q) := joinKey_append _ _ _

theorem joinParts_inj {x y : Bytes} :
    joinKey (balanceParts c p) x = joinKey (balanceParts c' p') y ↔ c = c' ∧ p = p' ∧ x = y := by
  have hlen : (balanceParts c p).length = (balanceParts c' p').length := by
    rw [balanceParts_length, balanceParts_length]
  rw [joinKey_inj (balanceParts_short c p) (balanceParts_short c' p') hlen, balanceParts_inj, and_assoc]

variable {d b : String}

theorem v1Key_inj {d' : String} : v1Key c p d = v1Key c' p' d' ↔ c = c' ∧ p = p' ∧ d = d' := by
  unfold v1Key
  rw [joinParts_inj, utf8_injective.eq_iff]

variable {q k : Bytes}

theorem v2Key_inj {b' : String} {q' : Bytes} (hb : Fits b) (hb' : Fits b') :
    v2Key c p b q = v2Key c' p' b' q' ↔ c = c' ∧ p = p' ∧ b = b' ∧ q = q' := by
  rw [v2Key_eq, v2Key_eq, joinParts_inj]
  constructor
  · rintro ⟨hc, hp, h⟩
    obtain ⟨hbase, hquote⟩ := lengthPrefixed_append_inj hb hb' h
    exact ⟨hc, hp, utf8_injective hbase, hquote⟩
  · rintro ⟨rfl, rfl, rfl, rfl⟩
    exact ⟨rfl, rfl, rfl⟩

theorem v1Key_eq_v2Key_iff :
    v1Key c p d = v2Key c' p' b q ↔ c = c' ∧ p = p' ∧ utf8 d = lengthPrefixed (utf8 b) ++ q := by
  rw [v2Key_eq]
  exact joinParts_inj

theorem v1Key_ne_v2Key_self (c : ChannelId) (p : U256) (b : String) (q : Bytes) :
    v1Key c p b ≠ v2Key c p b q := by
  rw [Ne, v1Key_eq_v2Key_iff]
  rintro ⟨-, -, h⟩
  have hlen := congrArg length h
  simp only [lengthPrefixed, length_append, beBytes_length] at hlen
  omega

theorem v1Key_ne_v2Key_of_ordinary (hzero : (utf8 d).head? ≠ some 0)
    (hshort : (utf8 d).length ≤ 256) : v1Key c p d ≠ v2Key c' p' b q := by
  rw [Ne, v1Key_eq_v2Key_iff]
  rintro ⟨-, -, h⟩
  have hlen := congrArg length h
  simp only [lengthPrefixed, length_append, beBytes_length] at hlen
  have hhigh : (utf8 b).length / 256 = 0 := by omega
  apply hzero
  rw [h]
  simp only [lengthPrefixed, beBytes, hhigh]
  rfl

/-! ## One migration -/

variable {J : Uint256Codec} {s s' : RawStore}

theorem mayLoad_congr {t : RawStore} (h : t.get k = s.get k) : mayLoad J t k = mayLoad J s k := by
  unfold mayLoad
  rw [h]

theorem amount_of_mayLoad {o : Option Nat} (h : mayLoad J s k = .ok o) : s.amount J.value k = o.getD 0 := by
  unfold mayLoad at h
  split at h
  · next habsent =>
    cases h
    exact amount_of_absent habsent
  · next raw hraw =>
    split at h
    · cases h
    · next n hn =>
      cases h
      rw [amount_of_get hraw, Uint256Codec.value, hn]

variable {n : Nat}

theorem lt_of_mayLoad (h : mayLoad J s k = .ok (some n)) : n < 2 ^ 256 := by
  unfold mayLoad at h
  split at h
  · cases h
  · next raw hraw =>
    split at h
    · cases h
    · next m hm =>
      cases h
      exact J.deserialize_lt raw n hm

theorem increaseRawBalanceV2_eq_ok (hn : n < 2 ^ 256) : increaseRawBalanceV2 J s c p b q n = .ok s' ↔
      Fits b ∧ ∃ o, mayLoad J s (v2Key c p b q) = .ok o ∧ o.getD 0 + n < 2 ^ 256 ∧
        s' = s.set (v2Key c p b q) (J.serialize (o.getD 0 + n)) := by
  unfold increaseRawBalanceV2
  by_cases hb : Fits b
  · rw [if_pos hb, bind_eq_ok]
    simp only [hb, true_and]
    constructor
    · rintro ⟨o, hload, h⟩
      refine ⟨o, hload, ?_⟩
      cases o with
      | none =>
        rw [Option.getD_none, Nat.zero_add]
        exact ⟨hn, (pure_eq_ok.mp h).symm⟩
      | some v =>
        by_cases hv : v + n < 2 ^ 256
        · simp only [hv, if_true, pure_eq_ok] at h
          exact ⟨hv, h.symm⟩
        · simp only [hv, if_false] at h
          cases h
    · rintro ⟨o, hload, hlt, rfl⟩
      refine ⟨o, hload, ?_⟩
      cases o with
      | none =>
        rw [Option.getD_none, Nat.zero_add]
        rfl
      | some v =>
        rw [Option.getD_some] at hlt
        simp only [hlt, if_true, Option.getD_some]
        rfl
  · rw [if_neg hb]
    simp [hb]

/-- The V2 balances that the storage holds. -/
def channelBalances (J : Uint256Codec) (s : RawStore) (k : BalanceKey) : Option Nat :=
  if Fits k.baseToken then (s.get (v2Key k.channelId k.path k.baseToken k.quoteToken)).bind
    J.deserialize else none

theorem channelBalances_of_mayLoad {o : Option Nat} (hb : Fits b)
    (h : mayLoad J s (v2Key c p b q) = .ok o) : channelBalances J s ⟨c, p, b, q⟩ = o := by
  unfold channelBalances
  rw [if_pos hb]
  unfold mayLoad at h
  split at h
  · next habsent =>
    cases h
    simp [habsent]
  · next raw hraw =>
    split at h
    · cases h
    · next n hn =>
      cases h
      simp [hraw, hn]

/-- **A write of a V2 entry is a write of the map of the balances.** -/
theorem channelBalances_set (hb : Fits b) (hn : n < 2 ^ 256) :
    channelBalances J (s.set (v2Key c p b q) (J.serialize n)) =
      update (channelBalances J s) ⟨c, p, b, q⟩ (some n) := by
  funext ⟨c', p', b', q'⟩
  by_cases hk : (⟨c', p', b', q'⟩ : BalanceKey) = ⟨c, p, b, q⟩
  · rw [hk, update_self]
    simp [channelBalances, hb, J.deserialize_serialize n hn]
  · rw [update_of_ne hk]
    unfold channelBalances
    by_cases hb' : Fits b'
    · have hne : v2Key c' p' b' q' ≠ v2Key c p b q := by
        intro heq
        obtain ⟨rfl, rfl, rfl, rfl⟩ := (v2Key_inj hb' hb).mp heq
        exact hk rfl
      simp only [hb', if_true, get_set_of_ne hne]
    · simp [hb']

theorem increaseChannelBalanceV2_refines (hn : n < 2 ^ 256) (h : increaseRawBalanceV2 J s c p b q n = .ok s')
    {st : State} (hst : st.channelBalanceV2 = channelBalances J s) :
    increaseChannelBalanceV2 st c p b q n = .ok { st with channelBalanceV2 := channelBalances J s' } := by
  obtain ⟨hb, o, hload, hlt, rfl⟩ := (increaseRawBalanceV2_eq_ok hn).mp h
  rw [channelBalances_set hb hlt, ← hst]
  have hold : st.channelBalanceV2 ⟨c, p, b, q⟩ = o := by
    rw [hst]
    exact channelBalances_of_mayLoad hb hload
  unfold increaseChannelBalanceV2
  rw [hold]
  cases o with
  | none =>
    simp only [State.setBalance, Option.getD_none, Nat.zero_add]
  | some v =>
    rw [Option.getD_some] at hlt
    simp only [hlt, if_true, State.setBalance, Option.getD_some]

variable {m : V1ToV2Migration}

/-- **What one migration did**: the balance it found went from its V1 entry to its V2 entry. -/
theorem migrateOne_eq_ok : migrateOne J s m = .ok s' ↔
      ∃ n o, mayLoad J s m.source = .ok (some n) ∧ n ≠ 0 ∧ Fits m.baseToken ∧
        mayLoad J s m.target = .ok o ∧ o.getD 0 + n < 2 ^ 256 ∧
        s' = (s.set m.target (J.serialize (o.getD 0 + n))).remove m.source := by
  unfold migrateOne
  rw [bind_eq_ok]
  constructor
  · rintro ⟨o, hload, h⟩
    cases o with
    | none => cases h
    | some n =>
      by_cases hn : n = 0
      · simp only [hn, if_true] at h
        cases h
      · simp only [hn, if_false, bind_eq_ok, pure_eq_ok] at h
        obtain ⟨t, ht, rfl⟩ := h
        obtain ⟨hb, o, ho, hlt, rfl⟩ := (increaseRawBalanceV2_eq_ok (lt_of_mayLoad hload)).mp ht
        exact ⟨n, o, hload, hn, hb, ho, hlt, rfl⟩
  · rintro ⟨n, o, hload, hn, hb, ho, hlt, rfl⟩
    refine ⟨some n, hload, ?_⟩
    simp only [hn, if_false, bind_eq_ok, pure_eq_ok]
    exact ⟨_, (increaseRawBalanceV2_eq_ok (lt_of_mayLoad hload)).mpr ⟨hb, o, ho, hlt, rfl⟩, rfl⟩

theorem migrateOne_frame (h : migrateOne J s m = .ok s') (hs : k ≠ m.source) (ht : k ≠ m.target) :
    s'.get k = s.get k := by
  obtain ⟨n, o, -, -, -, -, -, rfl⟩ := migrateOne_eq_ok.mp h
  rw [get_remove_of_ne hs, get_set_of_ne ht]

theorem migrateOne_source (h : migrateOne J s m = .ok s') : s'.get m.source = none := by
  obtain ⟨n, o, -, -, -, -, -, rfl⟩ := migrateOne_eq_ok.mp h
  exact get_remove_self _ _

theorem migrateOne_keeps_absent (h : migrateOne J s m = .ok s') (ht : k ≠ m.target)
    (hk : s.get k = none) : s'.get k = none := by
  by_cases hs : k = m.source
  · rw [hs]
    exact migrateOne_source h
  · rw [migrateOne_frame h hs ht, hk]

/-- The migrations do not take an entry of this token for one of another version. -/
structure Apart (migrations : List V1ToV2Migration) (channelId : ChannelId) (path : U256)
    (baseToken : String) : Prop where
  /-- None drains a V2 entry of the token. -/
  drained : ∀ m ∈ migrations, ∀ quoteToken, m.source ≠ v2Key channelId path baseToken quoteToken
  /-- None adds to the V1 entry of the token. -/
  written : ∀ m ∈ migrations, m.target ≠ v1Key channelId path baseToken

theorem v2Key_injective (hb : Fits b) : Injective (v2Key c p b) := by
  intro q q' h
  exact ((v2Key_inj hb hb).mp h).2.2.2

/-- **A migration keeps what is recorded of a token**, its own or another. -/
theorem migrateOne_recorded (h : migrateOne J s m = .ok s') (hdrained : ∀ q, m.source ≠ v2Key c p b q)
    (hwritten : m.target ≠ v1Key c p b) : recorded J s' c p b = recorded J s c p b := by
  obtain ⟨n, o, hload, -, hfits, ho, hlt, rfl⟩ := migrateOne_eq_ok.mp h
  by_cases hsame : v1Key c p b = m.source
  · -- the token of the migration: its V1 balance is what its V2 entry got
    obtain ⟨rfl, rfl, rfl⟩ := v1Key_inj.mp hsame
    have hsource : s.amount J.value m.source = n := amount_of_mayLoad hload
    have htarget : s.amount J.value m.target = o.getD 0 := amount_of_mayLoad ho
    have hgone : ((s.set m.target (J.serialize (o.getD 0 + n))).remove m.source).amount J.value
        m.source = 0 :=
      amount_of_absent (get_remove_self _ _)
    have hvalue : J.value (J.serialize (o.getD 0 + n)) = o.getD 0 + n := by
      rw [Uint256Codec.value, J.deserialize_serialize _ hlt, Option.getD_some]
    have hset : (s.set m.target (J.serialize (o.getD 0 + n))).sumOver J.value
        (v2Key m.channelId m.path m.baseToken) +
        s.amount J.value m.target = s.sumOver J.value (v2Key m.channelId m.path m.baseToken) +
          J.value (J.serialize (o.getD 0 + n)) :=
      sumOver_set (v2Key_injective hfits) m.quoteToken _
    rw [hvalue, htarget] at hset
    unfold recorded v1Balance v2Balances
    rw [if_pos hfits, if_pos hfits, sumOver_remove fun q => (hdrained q).symm]
    change amount J.value _ m.source + _ = s.amount J.value m.source + _
    rw [hgone, hsource]
    omega
  · -- another token: none of its entries changed
    have hv1 := migrateOne_frame h hsame hwritten.symm
    have hv2 : v2Balances J ((s.set m.target (J.serialize (o.getD 0 + n))).remove m.source) c p b =
        v2Balances J s c p b := by
      unfold v2Balances
      by_cases hb : Fits b
      · rw [if_pos hb, if_pos hb]
        apply sumOver_congr
        intro q
        have hne : v2Key c p b q ≠ m.target := by
          intro heq
          obtain ⟨rfl, rfl, rfl, -⟩ := (v2Key_inj hb hfits).mp heq
          exact hsame rfl
        exact migrateOne_frame h (hdrained q).symm hne
      · rw [if_neg hb, if_neg hb]
    unfold recorded v1Balance
    rw [amount_congr hv1, hv2]

/-! ## A list of migrations -/

variable {ms : List V1ToV2Migration}

theorem migrations_invariant {I : RawStore → Prop}
    (hstep : ∀ m ∈ ms, ∀ s s', I s → migrateOne J s m = .ok s' → I s')
    (h : ms.foldlM (migrateOne J) s = .ok s') (hI : I s) : I s' := by
  obtain ⟨os, -, hloop⟩ := loop_of_foldlM (R := fun s _ s' => ∃ m ∈ ms, migrateOne J s m = .ok s') id
    (fun _ => ([] : List Unit))
    (fun s m s' hm hs => ⟨[], rfl, m, hm, hs⟩) h
  apply hloop.state_invariant _ hI
  rintro s o s' hI ⟨m, hm, hs⟩
  exact hstep m hm s s' hI hs

theorem migrations_source (h : ms.foldlM (migrateOne J) s = .ok s') (hm : m ∈ ms)
    (ht : ∀ m' ∈ ms, m.source ≠ m'.target) : s'.get m.source = none := by
  induction ms generalizing s with
  | nil => cases hm
  | cons m₀ ms ih =>
    rw [foldlM_cons, bind_eq_ok] at h
    obtain ⟨t, hfirst, hrest⟩ := h
    have htail : ∀ m' ∈ ms, m.source ≠ m'.target := fun m' hm' => ht m' (mem_cons_of_mem _ hm')
    rcases List.mem_cons.mp hm with rfl | hm
    · apply migrations_invariant (I := fun s => s.get m.source = none) _ hrest (migrateOne_source hfirst)
      intro m' hm' s s' hs hstep
      exact migrateOne_keeps_absent hstep (htail m' hm') hs
    · exact ih hrest hm htail

/-- **The migrations read the entries that they name and no others.** -/
theorem migrations_reads {t : RawStore} {K : Set Bytes} (hK : ∀ m ∈ ms, m.source ∈ K ∧ m.target ∈ K)
    (hagree : ∀ k ∈ K, t.get k = s.get k) (h : ms.foldlM (migrateOne J) s = .ok s') :
    ∃ t', ms.foldlM (migrateOne J) t = .ok t' ∧ ∀ k ∈ K, t'.get k = s'.get k := by
  induction ms generalizing s t with
  | nil =>
    obtain rfl : s = s' := by simpa [pure, Except.pure] using h
    exact ⟨t, rfl, hagree⟩
  | cons m ms ih =>
    rw [foldlM_cons, bind_eq_ok] at h
    obtain ⟨s₁, hfirst, hrest⟩ := h
    obtain ⟨n, o, hload, hn, hb, ho, hlt, rfl⟩ := migrateOne_eq_ok.mp hfirst
    obtain ⟨hsource, htarget⟩ := hK m mem_cons_self
    have hfirst' :
        migrateOne J t m = .ok ((t.set m.target (J.serialize (o.getD 0 + n))).remove m.source) := by
      rw [← mayLoad_congr (hagree _ hsource)] at hload
      rw [← mayLoad_congr (hagree _ htarget)] at ho
      exact migrateOne_eq_ok.mpr ⟨n, o, hload, hn, hb, ho, hlt, rfl⟩
    have hagree' : ∀ k ∈ K, ((t.set m.target (J.serialize (o.getD 0 + n))).remove m.source).get k =
        ((s.set m.target (J.serialize (o.getD 0 + n))).remove m.source).get k := by
      intro k hk
      rw [get_remove, get_remove, get_set, get_set, hagree k hk]
    obtain ⟨t', ht', hsame⟩ := ih (fun m' hm' => hK m' (mem_cons_of_mem _ hm')) hagree' hrest
    refine ⟨t', ?_, hsame⟩
    rw [foldlM_cons, hfirst', ok_bind]
    exact ht'

theorem migrateV1ToV2_eq_ok {ws : List V1ToV2WrappedMigration} {events : List MigrationEvent} :
    migrateV1ToV2 J s ms ws = .ok (s', events) ↔
      ms.foldlM (migrateOne J) s = .ok s' ∧
        events = .v1ToV2Migration :: ws.map fun m =>
          .wrappedToken m.path m.channelId m.baseToken m.quoteToken [] .protocol := by
  unfold migrateV1ToV2
  simp only [bind_eq_ok, pure_eq_ok, Prod.mk.injEq]
  constructor
  · rintro ⟨t, ht, rfl, rfl⟩
    exact ⟨ht, rfl⟩
  · rintro ⟨hs, rfl⟩
    exact ⟨s', hs, rfl, rfl⟩

/-- **The migration conserves the balances** of a token, if the migrations take no entry of the
    token for one of the other version; every named V1 entry is gone, unless it is a named V2 entry;
    other entries are neither changed nor read. -/
theorem migrate_conserves {ws : List V1ToV2WrappedMigration} {events : List MigrationEvent}
    (h : migrateV1ToV2 J s ms ws = .ok (s', events)) :
    (∀ c p b, Apart ms c p b → recorded J s' c p b = recorded J s c p b) ∧
    (∀ m ∈ ms, (∀ m' ∈ ms, m.source ≠ m'.target) → s'.get m.source = none) ∧
    (∀ k, (∀ m ∈ ms, k ≠ m.source ∧ k ≠ m.target) → s'.get k = s.get k) ∧
    (∀ t : RawStore, (∀ m ∈ ms, t.get m.source = s.get m.source ∧ t.get m.target = s.get m.target) →
      ∃ t', migrateV1ToV2 J t ms ws = .ok (t', events) ∧
        ∀ m ∈ ms, t'.get m.source = s'.get m.source ∧ t'.get m.target = s'.get m.target) := by
  obtain ⟨hrun, hevents⟩ := migrateV1ToV2_eq_ok.mp h
  refine ⟨?_, ?_, ?_, ?_⟩
  · intro c p b hapart
    apply migrations_invariant (I := fun t => recorded J t c p b = recorded J s c p b) _ hrun rfl
    intro m hm t t' ht hstep
    rw [migrateOne_recorded hstep (hapart.drained m hm) (hapart.written m hm), ht]
  · intro m hm ht
    exact migrations_source hrun hm ht
  · intro k hk
    apply migrations_invariant (I := fun t => t.get k = s.get k) _ hrun rfl
    intro m hm t t' ht hstep
    rw [migrateOne_frame hstep (hk m hm).1 (hk m hm).2, ht]
  · intro t hagree
    obtain ⟨t', ht', hsame⟩ := migrations_reads (t := t) (K := {k | ∃ m ∈ ms, k = m.source ∨ k = m.target})
      (fun m hm => ⟨⟨m, hm, .inl rfl⟩, ⟨m, hm, .inr rfl⟩⟩)
      (by
        rintro k ⟨m, hm, rfl | rfl⟩
        · exact (hagree m hm).1
        · exact (hagree m hm).2) hrun
    refine ⟨t', migrateV1ToV2_eq_ok.mpr ⟨ht', hevents⟩, ?_⟩
    intro m hm
    exact ⟨hsame _ ⟨m, hm, .inl rfl⟩, hsame _ ⟨m, hm, .inr rfl⟩⟩

/-! ## Two migrations -/

namespace Sample

/-- A `Uint256` in JSON: its digits between quotes. -/
def writeUint256 (n : Nat) : Bytes := 34 :: ((Nat.toDigits 10 n).map fun c => UInt8.ofNat c.toNat) ++ [34]

def digitsOf (b : Bytes) : List Char := (b.drop 1).dropLast.map fun x => Char.ofNat x.toNat

def readUint256 (b : Bytes) : Option Nat :=
  if b.head? = some 34 ∧ b.getLast? = some 34 ∧ digitsOf b ≠ [] ∧ (digitsOf b).all Char.isDigit ∧
      Nat.ofDigitChars 10 (digitsOf b) 0 < 2 ^ 256 then
    some (Nat.ofDigitChars 10 (digitsOf b) 0)
  else
    none

theorem digit_of_byte {c : Char} (hc : c.isDigit) : Char.ofNat (UInt8.ofNat c.toNat).toNat = c := by
  obtain ⟨-, hle⟩ := Char.isDigit_iff_toNat.mp hc
  have hlt : c.toNat < 256 := lt_of_le_of_lt hle (by decide)
  rw [UInt8.toNat_ofNat', Nat.mod_eq_of_lt hlt, Char.ofNat_toNat]

theorem digitsOf_writeUint256 (n : Nat) : digitsOf (writeUint256 n) = Nat.toDigits 10 n := by
  unfold digitsOf writeUint256
  rw [cons_append, drop_one, tail_cons, dropLast_concat, map_map]
  conv_rhs => rw [← map_id (Nat.toDigits 10 n)]
  apply map_congr_left
  intro c hc
  exact digit_of_byte (Nat.isDigit_of_mem_toDigits (by decide) (by decide) hc)

theorem readUint256_write (hn : n < 2 ^ 256) : readUint256 (writeUint256 n) = some n := by
  have hdigits : (Nat.toDigits 10 n).all Char.isDigit = true := by
    rw [all_eq_true]
    intro c hc
    exact Nat.isDigit_of_mem_toDigits (by decide) (by decide) hc
  have hlast : (writeUint256 n).getLast? = some 34 := by
    unfold writeUint256
    exact getLast?_concat
  unfold readUint256
  rw [digitsOf_writeUint256, Nat.ofDigitChars_ten_toDigits,
    if_pos ⟨rfl, hlast, Nat.toDigits_ne_nil, hdigits, hn⟩]

def json : Uint256Codec where
  serialize := writeUint256
  deserialize := readUint256
  deserialize_lt b n h := by
    unfold readUint256 at h
    split at h
    · next hb =>
      cases h
      exact hb.2.2.2.2
    · cases h
  deserialize_serialize _ hn := readUint256_write hn

def channel : ChannelId := ⟨.one⟩

/-- A V1 balance of seven `uatom`. -/
def v1Storage : RawStore := empty.set (v1Key channel 0 "uatom") (writeUint256 7)

def plainMigration : V1ToV2Migration := ⟨0, channel, "uatom", [1]⟩

theorem plain_source : plainMigration.source = v1Key channel 0 "uatom" := rfl

/-- A V2 balance of seven `atom`, of the quote token `[1]`. -/
def v2Storage : RawStore := empty.set (v2Key channel 0 "atom" [1]) (writeUint256 7)

/-- The base token whose V1 key is that V2 key. -/
def misreadMigration : V1ToV2Migration := ⟨0, channel, "\x00\x04atom\x01", [2]⟩

def oneEntry (m : V1ToV2Migration) : RawStore := empty.set m.source (writeUint256 7)

def movedEntry (m : V1ToV2Migration) : RawStore :=
    ((oneEntry m).set m.target (writeUint256 7)).remove m.source

theorem source_ne_target (m : V1ToV2Migration) : m.source ≠ m.target := v1Key_ne_v2Key_self _ _ _ _

theorem oneEntry_run (hfits : Fits m.baseToken) :
    migrateV1ToV2 json (oneEntry m) [m] [] = .ok (movedEntry m, [.v1ToV2Migration]) := by
  have hread : readUint256 (writeUint256 7) = some 7 := readUint256_write (by decide)
  have hsource : mayLoad json (oneEntry m) m.source = .ok (some 7) := by
    unfold mayLoad oneEntry
    rw [get_set_self]
    simp only [json, hread]
  have htarget : mayLoad json (oneEntry m) m.target = .ok none := by
    unfold mayLoad oneEntry
    rw [get_set_of_ne (source_ne_target m).symm]
    rfl
  have hrun : migrateOne json (oneEntry m) m = .ok (movedEntry m) :=
    migrateOne_eq_ok.mpr ⟨7, none, hsource, by decide, hfits, htarget, by decide, rfl⟩
  apply migrateV1ToV2_eq_ok.mpr
  rw [foldlM_cons, hrun]
  exact ⟨rfl, rfl⟩

theorem misread_source : misreadMigration.source = v2Key channel 0 "atom" [1] := by
  apply v1Key_eq_v2Key_iff.mpr
  exact ⟨rfl, rfl, by decide⟩

theorem v2Storage_eq : v2Storage = oneEntry misreadMigration := by
  unfold v2Storage oneEntry
  rw [misread_source]

theorem fits_atom : Fits "atom" := by decide

theorem fits_misread : Fits misreadMigration.baseToken := by decide

end Sample

open Sample in
theorem plain_migration_conserves :
    ∃ s', migrateV1ToV2 json v1Storage [plainMigration] [] = .ok (s', [.v1ToV2Migration]) ∧
      recorded json s' channel 0 "uatom" = recorded json v1Storage channel 0 "uatom" ∧
      s'.get (v1Key channel 0 "uatom") = none := by
  have hfits : Fits plainMigration.baseToken := by decide
  have hrun := oneEntry_run hfits
  have hstorage : v1Storage = oneEntry plainMigration := by
    unfold v1Storage oneEntry
    rw [plain_source]
  rw [← hstorage] at hrun
  have hapart : Apart [plainMigration] channel 0 "uatom" := by
    constructor
    · intro m hm q
      rw [List.mem_singleton.mp hm, plain_source]
      exact v1Key_ne_v2Key_self _ _ _ _
    · intro m hm
      rw [List.mem_singleton.mp hm, ← plain_source]
      exact (source_ne_target _).symm
  obtain ⟨hkept, hgone, -, -⟩ := migrate_conserves hrun
  refine ⟨_, hrun, hkept channel 0 "uatom" hapart, ?_⟩
  rw [← plain_source]
  apply hgone plainMigration mem_cons_self
  intro m hm
  rw [List.mem_singleton.mp hm]
  exact source_ne_target _

open Sample in
/-- **A V2 entry that is named as a V1 entry is removed**: nothing is recorded of its token afterwards. -/
theorem misread_entry_removed :
    ∃ s', migrateV1ToV2 json v2Storage [misreadMigration] [] = .ok (s', [.v1ToV2Migration]) ∧
      recorded json v2Storage channel 0 "atom" = 7 ∧ recorded json s' channel 0 "atom" = 0 ∧
      s'.get (v2Key channel 0 "atom" [1]) = none := by
  have hrun := oneEntry_run fits_misread
  rw [← v2Storage_eq] at hrun
  refine ⟨_, hrun, ?_, ?_, ?_⟩
  · have hv1 : v2Storage.get (v1Key channel 0 "atom") = none := by
      unfold v2Storage
      rw [get_set_of_ne (v1Key_ne_v2Key_self _ _ _ _), get_empty]
    have hv2 : v2Storage.sumOver json.value (v2Key channel 0 "atom") = 7 := by
      rw [sumOver_single (i := [1])]
      · have hread : json.value (writeUint256 7) = 7 := by
          show (readUint256 (writeUint256 7)).getD 0 = 7
          rw [readUint256_write (by decide)]
          rfl
        unfold v2Storage
        rw [amount_of_get (get_set_self _ _ _), hread]
      · intro q hq
        unfold v2Storage
        rw [get_set_of_ne ((v2Key_injective fits_atom).ne hq), get_empty]
    unfold recorded v1Balance v2Balances
    rw [amount_of_absent hv1, if_pos fits_atom, hv2]
  · have hv1 : (movedEntry misreadMigration).get (v1Key channel 0 "atom") = none := by
      have htarget : v1Key channel 0 "atom" ≠ misreadMigration.target :=
        v1Key_ne_v2Key_of_ordinary (by decide) (by decide)
      unfold movedEntry oneEntry
      rw [misread_source, get_remove_of_ne (v1Key_ne_v2Key_self _ _ _ _), get_set_of_ne htarget,
        get_set_of_ne (v1Key_ne_v2Key_self _ _ _ _), get_empty]
    have hv2 : (movedEntry misreadMigration).sumOver json.value (v2Key channel 0 "atom") = 0 := by
      apply sumOver_of_absent
      intro q
      have htarget : v2Key channel 0 "atom" q ≠ misreadMigration.target := by
        intro heq
        have hbase := ((v2Key_inj fits_atom fits_misread).mp heq).2.2.1
        exact absurd hbase (by decide)
      unfold movedEntry oneEntry
      rw [get_remove, get_set_of_ne htarget, get_set, get_empty]
      split <;> rfl
    unfold recorded v1Balance v2Balances
    rw [amount_of_absent hv1, if_pos fits_atom, hv2]
  · unfold movedEntry
    rw [misread_source, get_remove_self]

end UnionVoyager.Zkgm
