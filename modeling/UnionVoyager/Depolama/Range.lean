import UnionVoyager.Depolama.Store
import Mathlib.Data.List.Nodup

/-!
# Ranges of a store

What an iteration over a store reads, next to the entries of the store whose encoded keys are within
the bounds.

* `exact_iff` — the two agree where no other key is between a bound and the key after it.
* `extension_yielded` — a range up to a key, which is included, yields a longer key too.
-/

namespace UnionVoyager.Depolama

open Lib Function List

variable {ι : Type} {stores : ι → Store}

/-! ## Bounds on encoded keys -/

def AfterStart (S : Store) : Bound S.Key → Bytes → Prop
  | .included k, x => S.encodeKey k ≤ x
  | .excluded k, x => S.encodeKey k < x
  | .unbounded, _ => True

def BeforeStop (S : Store) : Bound S.Key → Bytes → Prop
  | .included k, x => x ≤ S.encodeKey k
  | .excluded k, x => x < S.encodeKey k
  | .unbounded, _ => True

instance (S : Store) : ∀ (b : Bound S.Key) (x : Bytes), Decidable (AfterStart S b x)
  | .included k, x => inferInstanceAs (Decidable (S.encodeKey k ≤ x))
  | .excluded k, x => inferInstanceAs (Decidable (S.encodeKey k < x))
  | .unbounded, _ => inferInstanceAs (Decidable True)

instance (S : Store) : ∀ (b : Bound S.Key) (x : Bytes), Decidable (BeforeStop S b x)
  | .included k, x => inferInstanceAs (Decidable (x ≤ S.encodeKey k))
  | .excluded k, x => inferInstanceAs (Decidable (x < S.encodeKey k))
  | .unbounded, _ => inferInstanceAs (Decidable True)

/-- The entry is one of the store, and its encoded key is within the bounds. -/
def Expected (i : ι) (bounds : Bounds (stores i).Key) (e : Entry stores) : Prop :=
  e.store = i ∧ AfterStart (stores i) bounds.start e.encoded ∧ BeforeStop (stores i) bounds.stop e.encoded

instance [DecidableEq ι] (i : ι) (bounds : Bounds (stores i).Key) (e : Entry stores) :
    Decidable (Expected i bounds e) :=
  inferInstanceAs (Decidable (_ ∧ _ ∧ _))

/-- The entry is between the raw keys of the range. -/
def Visited (i : ι) (bounds : Bounds (stores i).Key) (e : Entry stores) : Prop :=
  fromKey (stores i) bounds.start ≤ e.raw ∧ e.raw < toKey (stores i) bounds.stop

instance (i : ι) (bounds : Bounds (stores i).Key) (e : Entry stores) : Decidable (Visited i bounds e) :=
  inferInstanceAs (Decidable (_ ∧ _))

section

variable [DecidableEq ι]

def expected (c : Content stores) (i : ι) (order : Order) (bounds : Bounds (stores i).Key) :
    List (Entry stores) :=
  order.arrange (c.entries.filter fun e => Expected i bounds e)

/-- The iteration reads the entries of the store within the bounds, each once and in order, no other ones, and
decodes the key and the value that were written. -/
structure Exact (c : Content stores) (i : ι) (order : Order) (bounds : Bounds (stores i).Key) : Prop where
  visited : visits (stores i) c.storage order bounds = (expected c i order bounds).map Entry.toRaw
  decoded : List.Forall₂ (fun e r => ∃ k v, e = ⟨i, k, v⟩ ∧ r = .ok (k, v)) (expected c i order bounds)
    (iterRange (stores i) c.storage order bounds)

end

/-- No entry is where the two notions of a range differ. -/
structure Clean (c : Content stores) (i : ι) (bounds : Bounds (stores i).Key) : Prop where
  /-- no entry of the store is behind an excluded start and before the key after it -/
  start_lost : ∀ a, bounds.start = .excluded a → ∀ e ∈ c.entries, e.store = i →
    BeforeStop (stores i) bounds.stop e.encoded → rawKey (stores i) a < e.raw →
    ¬ e.raw < keyPlusOne (rawKey (stores i) a)
  /-- no entry of any store is behind an included end and before the key after it -/
  stop_extra : ∀ b, bounds.stop = .included b → ∀ e ∈ c.entries, fromKey (stores i) bounds.start ≤ e.raw →
    rawKey (stores i) b < e.raw → ¬ e.raw < keyPlusOne (rawKey (stores i) b)
  /-- where the key after an excluded start is before it, no entry is in between -/
  start_extra : ∀ a, bounds.start = .excluded a → ∀ e ∈ c.entries, e.raw < toKey (stores i) bounds.stop →
    keyPlusOne (rawKey (stores i) a) ≤ e.raw → ¬ e.raw ≤ rawKey (stores i) a
  /-- where the key after an included end is before it, no entry of the store is in between -/
  stop_lost : ∀ b, bounds.stop = .included b → ∀ e ∈ c.entries, e.store = i →
    AfterStart (stores i) bounds.start e.encoded → keyPlusOne (rawKey (stores i) b) ≤ e.raw →
    ¬ e.raw ≤ rawKey (stores i) b
  /-- the keys of an unprefixed store end at the empty key -/
  unbounded : (stores i).PREFIX = .unprefixed → bounds.stop = .unbounded → ∀ e ∈ c.entries, e.store = i →
    AfterStart (stores i) bounds.start e.encoded → e.raw = []
  /-- an unprefixed store and another one have no entries in the same range -/
  foreign : ∀ e ∈ c.entries, e.store ≠ i →
    (stores i).PREFIX = .unprefixed ∨ (stores e.store).PREFIX = .unprefixed → ¬ Visited i bounds e
  /-- the keys of an unprefixed store are decoded without their first byte -/
  stripped : (stores i).PREFIX = .unprefixed → ∀ k v, ⟨i, k, v⟩ ∈ c.entries → Expected i bounds ⟨i, k, v⟩ →
    (stores i).encodeKey k ≠ [] ∧ (stores i).decodeKey (((stores i).encodeKey k).drop 1) = .ok k

/-! ## The order of raw keys -/

variable {e : Entry stores}

theorem raw_of_store {i : ι} (h : e.store = i) :
    e.raw = (stores i).PREFIX.iterWithSeparator ++ e.encoded := by
  subst h
  rfl

theorem rawKey_lt_raw {i : ι} (h : e.store = i) (k : (stores i).Key) :
    rawKey (stores i) k < e.raw ↔ (stores i).encodeKey k < e.encoded := by
  rw [raw_of_store h, rawKey, Lex.append_lt_append_iff]

theorem raw_lt_rawKey {i : ι} (h : e.store = i) (k : (stores i).Key) :
    e.raw < rawKey (stores i) k ↔ e.encoded < (stores i).encodeKey k := by
  rw [raw_of_store h, rawKey, Lex.append_lt_append_iff]

variable {S : Store}

theorem rawKey_lt_keyPlusOne (hprefixed : S.PREFIX ≠ .unprefixed) (k : S.Key) :
    rawKey S k < keyPlusOne (rawKey S k) := by
  have hzero : (0 : UInt8) ∈ rawKey S k := by
    unfold rawKey
    cases h : S.PREFIX with
    | unprefixed => exact absurd h hprefixed
    | new bytes nonzero => simp [Prefix.iterWithSeparator, Prefix.SEPARATOR]
  exact lt_keyPlusOne hzero (by decide)

theorem lt_keyPlusOne_nil {r : Bytes} (h : r < keyPlusOne []) : r = [] := by
  cases r with
  | nil => rfl
  | cons b r =>
    have hlt : b :: r < [0] := h
    rw [cons_lt_cons_iff] at hlt
    rcases hlt with hb | ⟨-, hr⟩
    · exact absurd hb (UInt8.not_lt.mpr (UInt8.zero_le))
    · exact absurd hr (not_lt_nil r)

theorem keyPlusOne_base (bytes : Bytes) : keyPlusOne (bytes ++ [Prefix.SEPARATOR]) = bytes ++ [1] :=
  keyPlusOne_of_ne bytes (b := 0) (by decide) 0

theorem not_lt_one {b : UInt8} (h : Prefix.SEPARATOR < b) : ¬ b < 1 := by
  have h' : 0 < b.toNat := h
  intro hlt
  have hlt' : b.toNat < 1 := hlt
  omega

/-- **What lies between the start of a range and a key of the store starts with its prefix.** -/
theorem base_of_between {start : Bound S.Key} {k : S.Key} {r : Bytes} (hstart : fromKey S start ≤ r)
    (hbase : S.PREFIX.iterWithSeparator ≤ fromKey S start) (hr : r ≤ rawKey S k) :
      S.PREFIX.iterWithSeparator <+: r :=
  Lex.prefix_of_le_of_le _ (Std.le_trans hbase hstart) hr

theorem base_le_fromKey (hprefixed : S.PREFIX ≠ .unprefixed) (start : Bound S.Key) :
    S.PREFIX.iterWithSeparator ≤ fromKey S start := by
  cases start with
  | included k => exact Lex.le_append _ _
  | excluded k => exact Std.le_trans (Lex.le_append _ _) (Std.le_of_lt (rawKey_lt_keyPlusOne hprefixed k))
  | unbounded => exact Std.le_refl _

theorem separator_inj {p q x y : Bytes} (hp : Prefix.SEPARATOR ∉ p) (hq : Prefix.SEPARATOR ∉ q)
    (h : p ++ Prefix.SEPARATOR :: x = q ++ Prefix.SEPARATOR :: y) : p = q := by
  rcases List.append_eq_append_iff.mp h with ⟨c, hc, htail⟩ | ⟨c, hc, htail⟩
  · cases c with
    | nil => rw [hc, append_nil]
    | cons b c =>
      obtain ⟨rfl, -⟩ := List.cons.inj htail
      exact absurd (hc ▸ mem_append_right p (mem_cons_self ..)) hq
  · cases c with
    | nil => rw [hc, append_nil]
    | cons b c =>
      obtain ⟨rfl, -⟩ := List.cons.inj htail
      exact absurd (hc ▸ mem_append_right q (mem_cons_self ..)) hp

theorem prefix_unique {i : ι} (hi : (stores i).PREFIX ≠ .unprefixed)
    (he : (stores e.store).PREFIX ≠ .unprefixed)
    (h : (stores i).PREFIX.iterWithSeparator <+: e.raw) : (stores i).PREFIX = (stores e.store).PREFIX := by
  obtain ⟨x, hx⟩ := h
  unfold Entry.raw rawKey at hx
  cases hp : (stores i).PREFIX with
  | unprefixed => exact absurd hp hi
  | new p hpzero =>
    cases hq : (stores e.store).PREFIX with
    | unprefixed => exact absurd hq he
    | new q hqzero =>
      rw [hp, hq] at hx
      simp only [Prefix.iterWithSeparator, append_assoc, singleton_append] at hx
      obtain rfl := separator_inj hpzero hqzero hx
      rfl

/-! ## Visited and expected entries -/

theorem visits_eq (c : Content stores) (i : ι) (order : Order) (bounds : Bounds (stores i).Key) :
    visits (stores i) c.storage order bounds =
      (order.arrange (c.entries.filter fun e => Visited i bounds e)).map Entry.toRaw := by
  rw [visits, range, Content.storage, filter_map]
  cases order with
  | ascending => rfl
  | descending => exact (map_reverse ..).symm

theorem Content.raw_injective (c : Content stores) {e' : Entry stores} (he : e ∈ c.entries)
    (he' : e' ∈ c.entries) (h : e.raw = e'.raw) : e = e' := by
  have hnodup : (c.entries.map Entry.raw).Nodup :=
    List.pairwise_map.mpr (c.sorted.imp fun hlt heq => absurd (heq ▸ hlt) Std.lt_irrefl)
  exact inj_on_of_nodup_map hnodup he he' h

theorem mem_arrange {α : Type} (order : Order) (l : List α) (x : α) : x ∈ order.arrange l ↔ x ∈ l := by
  cases order with
  | ascending => exact Iff.rfl
  | descending => exact mem_reverse

section

variable [DecidableEq ι]

theorem visited_iff (c : Content stores) (i : ι) (order : Order) (bounds : Bounds (stores i).Key) :
    visits (stores i) c.storage order bounds = (expected c i order bounds).map Entry.toRaw ↔
      ∀ e ∈ c.entries, Visited i bounds e ↔ Expected i bounds e := by
  rw [visits_eq]
  constructor
  · intro h e he
    have hmem : ∀ l : List (Entry stores), (∀ x ∈ l, x ∈ c.entries) →
        (e.toRaw ∈ l.map Entry.toRaw ↔ e ∈ l) := by
      intro l hl
      constructor
      · intro hr
        obtain ⟨e', he', heq⟩ := List.mem_map.mp hr
        exact c.raw_injective (hl e' he') he (congrArg Prod.fst heq) ▸ he'
      · exact mem_map_of_mem
    have hsub : ∀ (P : Entry stores → Bool) (x : Entry stores),
        x ∈ order.arrange (c.entries.filter P) → x ∈ c.entries :=
      fun P x hx => mem_of_mem_filter ((mem_arrange order _ x).mp hx)
    have heq := congrArg (e.toRaw ∈ ·) h
    simp only [expected, eq_iff_iff] at heq
    rw [hmem _ (hsub _), hmem _ (hsub _), mem_arrange, mem_arrange, mem_filter, mem_filter] at heq
    simpa [he] using heq
  · intro h
    have hfilter : (c.entries.filter fun e => Visited i bounds e) = c.entries.filter fun e =>
        Expected i bounds e := by
      refine filter_congr ?_
      intro e he
      simp only [h e he]
    rw [expected, hfilter]

end

/-! ## The bounds -/

variable {c : Content stores} {i : ι} {bounds : Bounds (stores i).Key}

theorem Clean.afterStart (h : Clean c i bounds) (he : e ∈ c.entries) (hvisited : Visited i bounds e)
    (hown : e.store = i) : AfterStart (stores i) bounds.start e.encoded := by
  have hfrom := hvisited.1
  cases hstart : bounds.start with
  | included a =>
    rw [hstart] at hfrom
    exact List.not_lt.mp fun hlt => List.not_lt.mpr hfrom ((raw_lt_rawKey hown a).mpr hlt)
  | excluded a =>
    rw [hstart] at hfrom
    refine (rawKey_lt_raw hown a).mp (Std.not_le.mp ?_)
    exact h.start_extra a hstart e he hvisited.2 hfrom
  | unbounded => trivial

theorem Clean.raw_le (h : Clean c i bounds) (he : e ∈ c.entries) (hvisited : Visited i bounds e) :
    match bounds.stop with
    | .included b => e.raw ≤ rawKey (stores i) b
    | .excluded b => e.raw < rawKey (stores i) b
    | .unbounded => e.raw < keyPlusOne (stores i).PREFIX.iterWithSeparator := by
  have hto := hvisited.2
  cases hstop : bounds.stop with
  | included b =>
    rw [hstop] at hto
    refine Std.not_lt.mp fun hlt => ?_
    exact h.stop_extra b hstop e he hvisited.1 hlt hto
  | excluded | unbounded =>
    rw [hstop] at hto
    exact hto

theorem Clean.beforeStop (h : Clean c i bounds) (he : e ∈ c.entries) (hvisited : Visited i bounds e)
    (hown : e.store = i) : BeforeStop (stores i) bounds.stop e.encoded := by
  have hle := h.raw_le he hvisited
  cases hstop : bounds.stop with
  | included b =>
    rw [hstop] at hle
    exact Std.not_lt.mp fun hlt => absurd ((rawKey_lt_raw hown b).mpr hlt) (Std.not_lt.mpr hle)
  | excluded b =>
    rw [hstop] at hle
    exact (raw_lt_rawKey hown b).mp hle
  | unbounded => trivial

theorem Clean.base (h : Clean c i bounds) (he : e ∈ c.entries) (hvisited : Visited i bounds e)
    (hprefixed : (stores i).PREFIX ≠ .unprefixed) : (stores i).PREFIX.iterWithSeparator <+: e.raw := by
  have hle := h.raw_le he hvisited
  have hbase := base_le_fromKey hprefixed bounds.start
  cases hstop : bounds.stop with
  | included b =>
    rw [hstop] at hle
    exact base_of_between hvisited.1 hbase hle
  | excluded b =>
    rw [hstop] at hle
    exact base_of_between hvisited.1 hbase (Std.le_of_lt hle)
  | unbounded =>
    rw [hstop] at hle
    have hfrom := Std.le_trans hbase hvisited.1
    cases hp : (stores i).PREFIX with
    | unprefixed => exact absurd hp hprefixed
    | new bytes nonzero =>
      rw [hp] at hle hfrom
      simp only [Prefix.iterWithSeparator, keyPlusOne_base] at hle hfrom ⊢
      exact Lex.prefix_of_le_of_lt bytes (fun _ => not_lt_one) hfrom hle

theorem Clean.own (hdistinct : Injective fun j => (stores j).PREFIX) (h : Clean c i bounds)
    (he : e ∈ c.entries) (hvisited : Visited i bounds e) : e.store = i := by
  by_contra hforeign
  have hnot := h.foreign e he hforeign
  have hprefix : (stores i).PREFIX ≠ .unprefixed := fun hp => hnot (.inl hp) hvisited
  have hother : (stores e.store).PREFIX ≠ .unprefixed := fun hp => hnot (.inr hp) hvisited
  exact hforeign (hdistinct (prefix_unique hprefix hother (h.base he hvisited hprefix))).symm

theorem Clean.from_le (h : Clean c i bounds) (he : e ∈ c.entries) (hexpected : Expected i bounds e) :
    fromKey (stores i) bounds.start ≤ e.raw := by
  obtain ⟨hown, hafter, hbefore⟩ := hexpected
  cases hstart : bounds.start with
  | included a =>
    rw [hstart] at hafter
    exact Std.not_lt.mp fun hlt => absurd ((raw_lt_rawKey hown a).mp hlt) (Std.not_lt.mpr hafter)
  | excluded a =>
    rw [hstart] at hafter
    exact Std.not_lt.mp (h.start_lost a hstart e he hown hbefore ((rawKey_lt_raw hown a).mpr hafter))
  | unbounded =>
    rw [raw_of_store hown]
    exact Lex.le_append _ _

theorem Clean.lt_to (h : Clean c i bounds) (he : e ∈ c.entries) (hexpected : Expected i bounds e) :
    e.raw < toKey (stores i) bounds.stop := by
  obtain ⟨hown, hafter, hbefore⟩ := hexpected
  cases hstop : bounds.stop with
  | included b =>
    rw [hstop] at hbefore
    refine Std.not_le.mp fun hle => ?_
    refine h.stop_lost b hstop e he hown hafter hle (Std.not_lt.mp fun hlt => ?_)
    exact absurd ((rawKey_lt_raw hown b).mp hlt) (Std.not_lt.mpr hbefore)
  | excluded b =>
    rw [hstop] at hbefore
    exact (raw_lt_rawKey hown b).mpr hbefore
  | unbounded =>
    cases hp : (stores i).PREFIX with
    | unprefixed =>
      rw [h.unbounded hp hstop e he hown hafter, toKey, hp]
      decide
    | new bytes nonzero =>
      rw [raw_of_store hown, toKey, hp]
      simp only [Prefix.iterWithSeparator, keyPlusOne_base, append_assoc, singleton_append]
      exact Lex.append_cons_lt bytes (by decide) _ _

/-! ## When the iteration is exact -/

theorem decodeEntry_toRaw (hprefixed : (stores i).PREFIX ≠ .unprefixed) (k : (stores i).Key)
    (v : (stores i).Value) : decodeEntry (stores i) (Entry.toRaw ⟨i, k, v⟩) = .ok (k, v) := by
  have hlen : (stores i).PREFIX.iterWithSeparator.length = (stores i).PREFIX.len + 1 := by
    cases hp : (stores i).PREFIX with
    | unprefixed => exact absurd hp hprefixed
    | new bytes nonzero => simp [Prefix.iterWithSeparator, Prefix.len]
  have hdrop : (rawKey (stores i) k).drop ((stores i).PREFIX.len + 1) = (stores i).encodeKey k := by
    rw [rawKey, ← hlen, drop_left]
  have hle : (stores i).PREFIX.len + 1 ≤ (rawKey (stores i) k).length := by
    rw [rawKey, length_append, hlen]
    exact Nat.le_add_right _ _
  show (if _ ≤ (rawKey (stores i) k).length then _ else _) = _
  rw [if_pos hle]
  show ((stores i).decodeKey ((rawKey (stores i) k).drop _) >>= _) = _
  rw [hdrop, (stores i).decode_encodeKey]
  show ((stores i).decodeValue ((stores i).encodeValue v) >>= _) = _
  rw [(stores i).decode_encodeValue]
  rfl

theorem decodeEntry_unprefixed (hunprefixed : (stores i).PREFIX = .unprefixed) (k : (stores i).Key)
    (v : (stores i).Value) :
    decodeEntry (stores i) (Entry.toRaw ⟨i, k, v⟩) = .ok (k, v) ↔
      (stores i).encodeKey k ≠ [] ∧ (stores i).decodeKey (((stores i).encodeKey k).drop 1) = .ok k := by
  have hraw : rawKey (stores i) k = (stores i).encodeKey k := by
    rw [rawKey, hunprefixed]
    rfl
  have hlen : (stores i).PREFIX.len = 0 := by
    rw [hunprefixed]
    rfl
  show (if (stores i).PREFIX.len + 1 ≤ (rawKey (stores i) k).length then
      ((stores i).decodeKey ((rawKey (stores i) k).drop ((stores i).PREFIX.len + 1)) >>= fun k' =>
        (stores i).decodeValue ((stores i).encodeValue v) >>= fun v' => pure (k', v'))
    else .error (.missingPrefixBytes (rawKey (stores i) k))) = .ok (k, v) ↔ _
  rw [hraw, hlen, (stores i).decode_encodeValue]
  cases hkey : (stores i).encodeKey k with
  | nil => simp
  | cons b x => simp [bind_eq_ok]

section

variable [DecidableEq ι]

theorem decoded_iff (order : Order) :
    List.Forall₂ (fun e r => ∃ k v, e = ⟨i, k, v⟩ ∧ r = .ok (k, v)) (expected c i order bounds)
        (((expected c i order bounds).map Entry.toRaw).map (decodeEntry (stores i))) ↔
      ∀ k v, ⟨i, k, v⟩ ∈ c.entries → Expected i bounds ⟨i, k, v⟩ →
        decodeEntry (stores i) (Entry.toRaw ⟨i, k, v⟩) = .ok (k, v) := by
  rw [map_map, forall₂_map_right_iff, forall₂_same]
  constructor
  · intro h k v he hexpected
    have hmem : (⟨i, k, v⟩ : Entry stores) ∈ expected c i order bounds :=
      (mem_arrange order _ _).mpr (List.mem_filter.mpr ⟨he, by simpa using hexpected⟩)
    obtain ⟨k', v', heq, hok⟩ := h _ hmem
    cases heq
    exact hok
  · intro h e he
    obtain ⟨hmem, hexpected⟩ := List.mem_filter.mp ((mem_arrange order _ _).mp he)
    have hexpected : Expected i bounds e := by simpa using hexpected
    rcases e with ⟨j, k, v⟩
    obtain rfl : j = i := hexpected.1
    exact ⟨k, v, rfl, h k v hmem hexpected⟩

/-- **The iteration over a range of a store is exact iff the storage is clean.** -/
theorem exact_iff (hdistinct : Injective fun j => (stores j).PREFIX) (order : Order) :
    Exact c i order bounds ↔ Clean c i bounds := by
  constructor
  · intro h
    have hiff := (visited_iff c i order bounds).mp h.visited
    have hdecoded := h.decoded
    rw [iterRange, h.visited] at hdecoded
    have hdecode := (decoded_iff order).mp hdecoded
    refine ⟨?_, ?_, ?_, ?_, ?_, ?_, ?_⟩
    · intro a hstart e he hown hbefore hlt hnext
      have hafter : AfterStart (stores i) bounds.start e.encoded := by
        rw [hstart]
        exact (rawKey_lt_raw hown a).mp hlt
      have hfrom := ((hiff e he).mpr ⟨hown, hafter, hbefore⟩).1
      rw [hstart] at hfrom
      exact List.not_lt.mpr hfrom hnext
    · intro b hstop e he hfrom hlt hnext
      have hvisit : Visited i bounds e := ⟨hfrom, by rw [hstop]; exact hnext⟩
      obtain ⟨hown, -, hbefore⟩ := (hiff e he).mp hvisit
      rw [hstop] at hbefore
      exact List.not_lt.mpr hbefore ((rawKey_lt_raw hown b).mp hlt)
    · intro a hstart e he hto hnext hle
      have hvisit : Visited i bounds e := ⟨by rw [hstart]; exact hnext, hto⟩
      obtain ⟨hown, hafter, -⟩ := (hiff e he).mp hvisit
      rw [hstart] at hafter
      exact List.not_lt.mpr hle ((rawKey_lt_raw hown a).mpr hafter)
    · intro b hstop e he hown hafter hnext hle
      have hbefore : BeforeStop (stores i) bounds.stop e.encoded := by
        rw [hstop]
        exact List.not_lt.mp fun hlt => List.not_lt.mpr hle ((rawKey_lt_raw hown b).mpr hlt)
      have hto := ((hiff e he).mpr ⟨hown, hafter, hbefore⟩).2
      rw [hstop] at hto
      exact List.not_lt.mpr hnext hto
    · intro hunprefixed hstop e he hown hafter
      have hto := ((hiff e he).mpr ⟨hown, hafter, by rw [hstop]; trivial⟩).2
      rw [hstop, toKey, hunprefixed] at hto
      exact lt_keyPlusOne_nil hto
    · intro e he hforeign _ hvisit
      exact hforeign ((hiff e he).mp hvisit).1
    · intro hunprefixed k v he hexpected
      exact (decodeEntry_unprefixed hunprefixed k v).mp (hdecode k v he hexpected)
  · intro h
    have hiff : ∀ e ∈ c.entries, Visited i bounds e ↔ Expected i bounds e := by
      intro e he
      constructor
      · intro hvisit
        have hown := h.own hdistinct he hvisit
        exact ⟨hown, h.afterStart he hvisit hown, h.beforeStop he hvisit hown⟩
      · intro hexpected
        exact ⟨h.from_le he hexpected, h.lt_to he hexpected⟩
    have hvisit := (visited_iff c i order bounds).mpr hiff
    refine ⟨hvisit, ?_⟩
    rw [iterRange, hvisit]
    refine (decoded_iff order).mpr ?_
    intro k v he hexpected
    by_cases hprefix : (stores i).PREFIX = .unprefixed
    · exact (decodeEntry_unprefixed hprefix k v).mpr (h.stripped hprefix k v he hexpected)
    · exact decodeEntry_toRaw hprefix k v

end

/-! ## Prefixed stores -/

theorem Clean.of_prefixed (hprefixed : ∀ j, (stores j).PREFIX ≠ .unprefixed)
    (hstart : ∀ a, bounds.start = .excluded a → ∀ e ∈ c.entries, e.store = i → rawKey (stores i) a < e.raw →
      ¬ e.raw < keyPlusOne (rawKey (stores i) a))
    (hstop : ∀ b, bounds.stop = .included b → ∀ e ∈ c.entries, rawKey (stores i) b < e.raw →
      ¬ e.raw < keyPlusOne (rawKey (stores i) b)) : Clean c i bounds where
  start_lost a ha e he hown _ := hstart a ha e he hown
  stop_extra b hb e he _ := hstop b hb e he
  start_extra a _ _ _ _ hnext hle := List.not_lt.mpr (Std.le_trans hnext hle)
    (rawKey_lt_keyPlusOne (hprefixed i) a)
  stop_lost b _ _ _ _ _ hnext hle := List.not_lt.mpr (Std.le_trans hnext hle)
    (rawKey_lt_keyPlusOne (hprefixed i) b)
  unbounded h := absurd h (hprefixed i)
  foreign e _ _ h := absurd h (not_or.mpr ⟨hprefixed i, hprefixed e.store⟩)
  stripped h := absurd h (hprefixed i)

/-! ## Two stores -/

namespace Sample

/-- Keys and values are the bytes themselves. -/
def bytesStore (p : Prefix) : Store where
  PREFIX := p
  Key := Bytes
  Value := Bytes
  encodeKey k := k
  decodeKey := .ok
  encodeValue v := v
  decodeValue := .ok
  decode_encodeKey _ := rfl
  decode_encodeValue _ := rfl

/-- The prefix of one store starts that of the other. -/
def twoStores : Bool → Store
  | true => bytesStore (.new [1] (by decide))
  | false => bytesStore (.new [1, 1] (by decide))

theorem twoStores_distinct : Injective fun j => (twoStores j).PREFIX := by
  intro j j' h
  cases j <;> cases j' <;> first | rfl | cases h

theorem twoStores_prefixed (j : Bool) : (twoStores j).PREFIX ≠ .unprefixed := by
  cases j <;> exact fun h => nomatch h

/-- One key is the start of the other. -/
def twoKeys : Content twoStores where
  entries := [⟨true, ([2] : Bytes), ([7] : Bytes)⟩, ⟨true, ([2, 0] : Bytes), ([8] : Bytes)⟩,
    ⟨false, ([] : Bytes), ([9] : Bytes)⟩]
  sorted := by decide

end Sample

open Sample in
theorem exact_sample : Exact twoKeys true .descending ⟨.included ([2] : Bytes), .excluded ([3] : Bytes)⟩ :=
  (exact_iff twoStores_distinct .descending).mpr
    (.of_prefixed twoStores_prefixed (fun _ h => nomatch h) (fun _ h => nomatch h))

open Sample in
/-- A range up to a key, which is included, yields a longer key too. -/
theorem extension_yielded :
    ¬ ∀ (ι : Type) [DecidableEq ι] (stores : ι → Store) (c : Content stores) (i : ι) (order : Order)
      (bounds : Bounds (stores i).Key), Injective (fun j => (stores j).PREFIX) → Exact c i order bounds := by
  intro h
  have hvisit := (h Bool twoStores twoKeys true .ascending ⟨.unbounded, .included ([2] : Bytes)⟩
    twoStores_distinct).visited
  revert hvisit
  decide

end UnionVoyager.Depolama
