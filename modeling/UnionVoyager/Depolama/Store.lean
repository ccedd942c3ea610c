import UnionVoyager.Lib.Bytes
import UnionVoyager.Lib.Lex
import UnionVoyager.Lib.Result

/-!
# Stores in one storage

Stores write their entries into the one storage of a contract, each under its prefix.

* `Prefix`, `Store`, `rawKey` — where an entry of a store is written.
* `keyPlusOne` — the key that closes or opens a range; `keyPlusOne_of_ne`, `lt_keyPlusOne`.
* `iterRange` — the iteration over a range of keys; `visits` — the raw entries it reads.
-/

namespace UnionVoyager.Depolama

open Lib

inductive StdError where
  /-- "unable to decode key, missing prefix bytes" -/
  | missingPrefixBytes (key : Bytes)
  | decode (raw : Bytes)

abbrev StdResult := Except StdError

/-! ## Stores -/

inductive Prefix where
  | unprefixed
  /-- `Prefix::new` panics at a zero byte. -/
  | new (bytes : Bytes) (nonzero : 0 ∉ bytes)

namespace Prefix

def SEPARATOR : UInt8 := 0x00

def len : Prefix → Nat
  | unprefixed => 0
  | new bytes _ => bytes.length

def iterWithSeparator : Prefix → Bytes
  | unprefixed => []
  | new bytes _ => bytes ++ [SEPARATOR]

end Prefix

/-- A store, whose decoders read what its encoders write. -/
structure Store where
  PREFIX : Prefix
  Key : Type
  Value : Type
  encodeKey : Key → Bytes
  decodeKey : Bytes → StdResult Key
  encodeValue : Value → Bytes
  decodeValue : Bytes → StdResult Value
  decode_encodeKey : ∀ k, decodeKey (encodeKey k) = .ok k
  decode_encodeValue : ∀ v, decodeValue (encodeValue v) = .ok v

def rawKey (S : Store) (k : S.Key) : Bytes := S.PREFIX.iterWithSeparator ++ S.encodeKey k

/-! ## The key after a key -/

/-- The loop of `key_plus_one` over the bytes from the last one on, and whether all of them overflowed. -/
def carry : Bytes → Bytes × Bool
  | [] => ([], true)
  | b :: bs => if b = 255 then (0 :: (carry bs).1, (carry bs).2) else ((b + 1) :: bs, false)

def keyPlusOne (raw : Bytes) : Bytes :=
  let (bytes, overflowed) := carry raw.reverse
  if overflowed then bytes.reverse ++ [0] else bytes.reverse

variable {b : UInt8}

theorem carry_append (n : Nat) (hb : b ≠ 255) (x : Bytes) :
    carry (List.replicate n 255 ++ b :: x) = (List.replicate n 0 ++ (b + 1) :: x, false) := by
  induction n with
  | zero => exact if_neg hb
  | succ n ih => rw [List.replicate_succ, List.cons_append, carry, if_pos rfl, ih,
      List.replicate_succ, List.cons_append]

theorem keyPlusOne_of_ne (x : Bytes) (hb : b ≠ 255) (n : Nat) :
    keyPlusOne (x ++ b :: List.replicate n 255) = x ++ (b + 1) :: List.replicate n 0 := by
  have hreverse : (x ++ b :: List.replicate n 255).reverse = List.replicate n 255 ++ b :: x.reverse := by simp
  rw [keyPlusOne, hreverse, carry_append n hb]
  simp

theorem exists_last_ne {raw : Bytes} (hmem : b ∈ raw) (hb : b ≠ 255) :
    ∃ x c n, raw = x ++ c :: List.replicate n 255 ∧ c ≠ 255 := by
  induction raw using List.reverseRecOn with
  | nil => cases hmem
  | append_singleton raw c ih =>
    by_cases hc : c = 255
    · subst hc
      have hmem' : b ∈ raw := by simpa [hb] using hmem
      obtain ⟨x, d, n, rfl, hd⟩ := ih hmem'
      exact ⟨x, d, n + 1, by rw [List.replicate_succ', List.append_assoc]; rfl, hd⟩
    · exact ⟨raw, c, 0, rfl, hc⟩

theorem lt_add_one (hb : b ≠ 255) : b < b + 1 := by
  have hlt := b.toNat_lt
  have hne : b.toNat ≠ 255 := fun h => hb (UInt8.toNat_inj.mp h)
  rw [UInt8.lt_iff_toNat_lt, UInt8.toNat_add]
  have hone : (1 : UInt8).toNat = 1 := rfl
  rw [hone, Nat.mod_eq_of_lt (by omega)]
  omega

theorem lt_keyPlusOne {raw : Bytes} (hmem : b ∈ raw) (hb : b ≠ 255) : raw < keyPlusOne raw := by
  obtain ⟨x, c, n, rfl, hc⟩ := exists_last_ne hmem hb
  rw [keyPlusOne_of_ne x hc]
  exact Lex.append_cons_lt x (lt_add_one hc) _ _

/-! ## Iteration -/

inductive Order where
  | ascending
  | descending

inductive Bound (K : Type) where
  | included (k : K)
  | excluded (k : K)
  | unbounded

structure Bounds (K : Type) where
  start : Bound K
  stop : Bound K

def Order.arrange {α : Type} : Order → List α → List α
  | ascending, l => l
  | descending, l => l.reverse

/-- The entries of the storage from `start` on and before `stop`. -/
def range (storage : List (Bytes × Bytes)) (start stop : Bytes) (order : Order) : List (Bytes × Bytes) :=
  order.arrange (storage.filter fun e => start ≤ e.1 ∧ e.1 < stop)

variable (S : Store)

/-- The start of the range. -/
def fromKey : Bound S.Key → Bytes
  | .included k => rawKey S k
  | .excluded k => keyPlusOne (rawKey S k)
  | .unbounded => S.PREFIX.iterWithSeparator

/-- The end of the range. -/
def toKey : Bound S.Key → Bytes
  | .included k => keyPlusOne (rawKey S k)
  | .excluded k => rawKey S k
  | .unbounded => keyPlusOne S.PREFIX.iterWithSeparator

def visits (storage : List (Bytes × Bytes)) (order : Order) (bounds : Bounds S.Key) : List (Bytes × Bytes) :=
  range storage (fromKey S bounds.start) (toKey S bounds.stop) order

def decodeEntry (e : Bytes × Bytes) : StdResult (S.Key × S.Value) :=
  if S.PREFIX.len + 1 ≤ e.1.length then do
    let k ← S.decodeKey (e.1.drop (S.PREFIX.len + 1))
    let v ← S.decodeValue e.2
    pure (k, v)
  else
    .error (.missingPrefixBytes e.1)

def iterRange (storage : List (Bytes × Bytes)) (order : Order) (bounds : Bounds S.Key) :
    List (StdResult (S.Key × S.Value)) :=
  (visits S storage order bounds).map (decodeEntry S)

/-! ## What stores wrote -/

structure Entry {ι : Type} (stores : ι → Store) where
  store : ι
  key : (stores store).Key
  value : (stores store).Value

namespace Entry

variable {ι : Type} {stores : ι → Store}

def encoded (e : Entry stores) : Bytes := (stores e.store).encodeKey e.key

def raw (e : Entry stores) : Bytes := rawKey (stores e.store) e.key

def toRaw (e : Entry stores) : Bytes × Bytes := (e.raw, (stores e.store).encodeValue e.value)

end Entry

/-- The content of a storage: the entries of any number of stores, in the order of their raw keys. -/
structure Content {ι : Type} (stores : ι → Store) where
  entries : List (Entry stores)
  sorted : entries.Pairwise fun e e' => e.raw < e'.raw

def Content.storage {ι : Type} {stores : ι → Store} (c : Content stores) : List (Bytes × Bytes) :=
  c.entries.map Entry.toRaw

end UnionVoyager.Depolama
