import Mathlib.Algebra.BigOperators.Ring.Finset
import UnionVoyager.Light.CometBls

/-!
# Who can sign in the CometBLS circuit

Membership rests on a counter alone: `bitmapMask` goes down from the number of validators slot by
slot.  Once it is used up the source sets it to `cannotSign`, which is one, so that every second
slot is open again: a prover may put a key and a power of its own there.

* `cannotSign_eq` — which slots are closed.
* `aggregate_eq` — what the accumulators hold, for any bitmap.
* `validators_eq_of_root` — the slots below `NbOfVal` are the validators with the expected root.
* `verify_sound_iff` — **exactly when a satisfying assignment speaks of the validators alone**.
-/

namespace UnionVoyager.Light.CometBls

open Lib Gnark Finset

section Slots

variable {Q : Type} (input : Input Q)

/-! ## Open and closed slots -/

theorem bitmapMask_eq {n : Nat} (hn : n < R) (i : Nat) :
    bitmapMask (n : F) i = if i ≤ n then ((n - i : Nat) : F) else if (i - n) % 2 = 1 then 1 else 0 := by
  induction i with
  | zero => simp [bitmapMask]
  | succ i ih =>
    rw [bitmapMask]
    rcases Nat.lt_trichotomy i n with hlt | heq | hgt
    · rw [ih, if_pos (by omega), if_pos (by omega), isZero_cast (by omega), if_neg (by omega), select_zero,
        cast_pred (by omega)]
      congr 1
    · have hmask : bitmapMask (n : F) i = 0 := by
        rw [ih, if_pos (by omega), heq, Nat.sub_self, Nat.cast_zero]
      rw [hmask, if_neg (by omega), if_pos (by omega)]
      decide
    · by_cases hodd : (i - n) % 2 = 1
      · have hmask : bitmapMask (n : F) i = 1 := by rw [ih, if_neg (by omega), if_pos hodd]
        rw [hmask, if_neg (by omega), if_neg (by omega)]
        decide
      · have hmask : bitmapMask (n : F) i = 0 := by rw [ih, if_neg (by omega), if_neg hodd]
        rw [hmask, if_neg (by omega), if_pos (by omega)]
        decide

theorem cannotSign_eq (i : Nat) :
    cannotSign input i = if input.nbOfVal.val ≤ i ∧ (i - input.nbOfVal.val) % 2 = 0 then 1 else 0 := by
  have hR : input.nbOfVal.val < R := ZMod.val_lt _
  have hcast : input.nbOfVal = ((input.nbOfVal.val : Nat) : F) := (ZMod.natCast_zmod_val _).symm
  have hmask := bitmapMask_eq hR i
  rw [cannotSign]
  rw [← hcast] at hmask
  rw [hmask]
  rcases Nat.lt_or_ge i input.nbOfVal.val with hlt | hge
  · rw [if_pos (by omega), isZero_cast (by omega), if_neg (by omega), if_neg (by omega)]
  · rcases Nat.eq_or_lt_of_le hge with heq | hgt
    · rw [if_pos (by omega), isZero_cast (by omega), if_pos (by omega), if_pos (by omega)]
    · rw [if_neg (by omega)]
      by_cases hodd : (i - input.nbOfVal.val) % 2 = 1
      · rw [if_pos hodd, if_neg (by omega)]
        decide
      · rw [if_neg hodd, if_pos (by omega)]
        decide

theorem signed_eq {i : Nat} (hi : i < MaxVal) :
    signed input i = if input.bitmap.val.testBit i then 1 else 0 := by
  rw [signed, toBinary, List.getD_eq_getElem?_getD, List.getElem?_map, List.getElem?_range hi]
  rfl

/-- The slots that are counted as signers, among the first ones. -/
def signersBelow (k : Nat) : Finset Nat := (Finset.range k).filter fun i => actuallySigned input i = 1

def signers : Finset Nat := signersBelow input MaxVal

theorem actuallySigned_boolean {i : Nat} (hi : i < MaxVal) : AssertIsBoolean (actuallySigned input i) := by
  rw [actuallySigned, signed_eq input hi, select]
  split
  · exact .inl rfl
  · split
    · exact .inr rfl
    · exact .inl rfl

end Slots

/-! ## The accumulators -/

section Aggregate

variable {P Q : Type} [AddCommMonoid P] (g : Gadgets P Q) (input : Input Q)

theorem signersBelow_succ (k : Nat) : signersBelow input (k + 1) =
    if actuallySigned input k = 1 then insert k (signersBelow input k) else signersBelow input k := by
  rw [signersBelow, range_add_one, filter_insert]
  rfl

/-- What the accumulators hold after some slots. -/
structure AggregateIs (k : Nat) (acc : Aggregated P) : Prop where
  total : acc.totalVotingPower = ∑ i ∈ Finset.range k, totalShare input i
  current : acc.currentVotingPower = ∑ i ∈ signersBelow input k, (input.validators i).power
  nbOfKeys : acc.nbOfKeys = ((signersBelow input k).card : F)
  publicKey : (signersBelow input k).card ≠ 0 →
    acc.publicKey = ∑ i ∈ signersBelow input k, (input.validators i).publicKey g

theorem aggregate_eq : ∀ k ≤ MaxVal, AggregateIs g input k (aggregate g input k) := by
  intro k
  induction k with
  | zero => exact fun _ => ⟨rfl, rfl, rfl, fun h => absurd rfl h⟩
  | succ k ih =>
    intro hk
    have hacc := ih (Nat.le_of_succ_le hk)
    have hnew : k ∉ signersBelow input k := by simp [signersBelow]
    have hcard : (signersBelow input k).card < R := by
      have := card_filter_le (Finset.range k) fun i => actuallySigned input i = 1
      rw [card_range] at this
      have : k < R := Nat.lt_of_lt_of_le hk (by decide)
      exact Nat.lt_of_le_of_lt (by assumption) this
    have hfirst : isZero (aggregate g input k).nbOfKeys = if (signersBelow input k).card =
        0 then 1 else 0 := by
      rw [hacc.nbOfKeys, isZero_cast hcard]
    have htotal : (aggregate g input (k + 1)).totalVotingPower = ∑ i ∈ Finset.range (k + 1),
        totalShare input i := by
      rw [sum_range_succ, ← hacc.total]
      rfl
    rcases actuallySigned_boolean input hk with hzero | hone
    · have hsame : signersBelow input (k + 1) = signersBelow input k := by
        rw [signersBelow_succ, if_neg]
        rw [hzero]
        decide
      refine ⟨htotal, ?_, ?_, ?_⟩
      · rw [hsame, ← hacc.current, aggregate]
        simp only [hzero, select_zero, add_zero]
      · rw [hsame, ← hacc.nbOfKeys, aggregate]
        simp only [hzero, add_zero]
      · rw [hsame]
        intro hne
        rw [← hacc.publicKey hne, aggregate]
        simp only [hzero, select_zero]
    · have hmore : signersBelow input (k + 1) = insert k (signersBelow input k) := by
        rw [signersBelow_succ, if_pos hone]
      refine ⟨htotal, ?_, ?_, ?_⟩
      · rw [hmore, sum_insert hnew, ← hacc.current, aggregate]
        simp only [hone, select_one]
        exact add_comm _ _
      · rw [hmore, card_insert_of_notMem hnew, Nat.cast_add_one, ← hacc.nbOfKeys, aggregate]
        simp only [hone]
      · intro _
        rw [hmore, sum_insert hnew, aggregate]
        simp only [hone, select_one, hfirst]
        by_cases hnone : (signersBelow input k).card = 0
        · rw [if_pos hnone, select_one, Finset.card_eq_zero.mp hnone, sum_empty, add_zero]
        · rw [if_neg hnone, select_zero, hacc.publicKey hnone]
          exact add_comm _ _

end Aggregate

/-! ## The validators behind a root -/

section Root

variable {P Q : Type} (g : Gadgets P Q)

/-- The hash of a leaf of the tree, or of two neighbours. -/
def nodeHash : Validator ⊕ F × F → F
  | .inl v => leafHash g.mimc (v.leaf g)
  | .inr (left, right) => innerHash g.mimc left right

def setRoot (vals : List Validator) : F :=
  (levels (innerHash g.mimc) vals.length (vals.map fun v => leafHash g.mimc (v.leaf g))).headD (g.mimc [])

/-- What `MiMC` is applied to for a node. -/
def preimages : Validator ⊕ F × F → Set (List F)
  | .inl v => {[v.hashableX, v.hashableY, v.hashableXMSB, v.hashableYMSB, v.power], [0, v.leaf g]}
  | .inr (left, right) => {[1, left, right]}

/-- Everything `MiMC` is applied to for the root of a set. -/
def hashedFor (vals : List Validator) : Set (List F) :=
    {l | ∃ x ∈ Tree.hashed (nodeHash g) vals, l ∈ preimages g x}

/-- No two different inputs hashed for these two sets collide. -/
def CollisionFree (vals vals' : List Validator) : Prop :=
    Set.InjOn g.mimc (hashedFor g vals ∪ hashedFor g vals')

theorem setRoot_eq {vals : List Validator} (hne : vals ≠ []) :
    levels (innerHash g.mimc) vals.length (vals.map fun v => leafHash g.mimc (v.leaf g)) =
      [setRoot g vals] := by
  have hmap : (vals.map fun v => leafHash g.mimc (v.leaf g)) ≠ [] := by
    rw [ne_eq, List.map_eq_nil_iff]
    exact hne
  obtain ⟨root, hroot⟩ := levels_singleton (innerHash g.mimc) vals.length _ hmap (by simp)
  rw [setRoot, hroot]
  rfl

theorem nodeHash_injOn {vals vals' : List Validator} (hfree : CollisionFree g vals vals') :
    Set.InjOn (nodeHash g) (Tree.hashed (nodeHash g) vals ∪ Tree.hashed (nodeHash g) vals') := by
  have hmem : ∀ x ∈ Tree.hashed (nodeHash g) vals ∪ Tree.hashed (nodeHash g) vals', ∀ l ∈ preimages g x,
      l ∈ hashedFor g vals ∪ hashedFor g vals' := by
    rintro x (hx | hx) l hl
    · exact .inl ⟨x, hx, hl⟩
    · exact .inr ⟨x, hx, hl⟩
  intro x hx y hy heq
  match x, y, hx, hy, heq with
  | .inl v, .inl w, hx, hy, heq =>
    have houter := hfree (hmem _ hx [0, v.leaf g] (by simp [preimages]))
      (hmem _ hy [0, w.leaf g] (by simp [preimages])) heq
    simp only [List.cons.injEq, and_true, true_and] at houter
    have hinner := hfree (hmem _ hx _ (Set.mem_insert _ _)) (hmem _ hy _ (Set.mem_insert _ _)) houter
    simp only [List.cons.injEq, and_true] at hinner
    obtain ⟨h₁, h₂, h₃, h₄, h₅⟩ := hinner
    cases v
    cases w
    simp_all
  | .inl v, .inr (l, r), hx, hy, heq =>
    have := hfree (hmem _ hx [0, v.leaf g] (by simp [preimages])) (hmem _ hy [1, l, r] rfl) heq
    simp at this
  | .inr (l, r), .inl v, hx, hy, heq =>
    have := hfree (hmem _ hx [1, l, r] rfl) (hmem _ hy [0, v.leaf g] (by simp [preimages])) heq
    simp at this
  | .inr (l, r), .inr (l', r'), hx, hy, heq =>
    have := hfree (hmem _ hx [1, l, r] rfl) (hmem _ hy [1, l', r'] rfl) heq
    simp only [List.cons.injEq, and_true, true_and] at this
    rw [this.1, this.2]

/-- **A root determines its validators**, their number and their order. -/
theorem vals_eq_of_setRoot_eq {vals vals' : List Validator} (hne : vals ≠ []) (hne' : vals' ≠ [])
    (hfree : CollisionFree g vals vals') (heq : setRoot g vals = setRoot g vals') : vals = vals' := by
  have h := setRoot_eq g hne
  rw [heq] at h
  exact Tree.leaves_eq_of_root_eq (nodeHash_injOn g hfree) h (setRoot_eq g hne')

variable (input : Input Q)

/-- The validators in the slots below `NbOfVal`. -/
def slots : List Validator := (List.range input.nbOfVal.val).map input.validators

theorem slots_length : (slots input).length = input.nbOfVal.val := by simp [slots]

theorem rootHash_eq_setRoot (hpos : 0 < input.nbOfVal.val) (hle : input.nbOfVal.val ≤ MaxVal) :
    rootHash g.mimc ((List.range MaxVal).map (leafHashAt g input)) input.nbOfVal =
      setRoot g (slots input) := by
  have hlen := slots_length input
  have hne : slots input ≠ [] := by
    intro h
    rw [h, List.length_nil] at hlen
    omega
  have hroot := setRoot_eq g hne
  refine @rootHash_eq g.mimc ((slots input).map fun v => leafHash g.mimc (v.leaf g)) _ _ _ ?_ ?_ ?_ ?_ ?_ ?_
  · simpa [hlen] using hpos
  · simpa [hlen] using hle
  · rw [List.length_map, List.length_range]
    decide
  · rw [List.length_map, hlen]
    exact (ZMod.natCast_zmod_val _).symm
  · intro k hk
    rw [List.length_map, hlen] at hk
    have hopen : cannotSign input k = 0 := by
      rw [cannotSign_eq, if_neg (by omega)]
    rw [List.getElem?_map, List.getElem?_range (by omega), slots, List.map_map, List.getElem?_map,
      List.getElem?_range hk]
    simp [leafHashAt, hopen]
  · rw [List.length_map]
    exact hroot

end Root

/-! ## What a satisfying assignment says -/

section Sound

variable {P Q : Type} [AddCommMonoid P] (g : Gadgets P Q) (input : Input Q)

def totalPower (vals : List Validator) : Nat := (vals.map fun v => v.power.val).sum

/-- The power the circuit counts as having signed. -/
def signedPower : Nat := ∑ i ∈ signers input, (input.validators i).power.val

/-- The assignment speaks of the validators of the set alone: the signers are members, only members
    contribute to the total, enough of the power has signed, and the signature is under the keys of
    exactly the signers. -/
structure Sound (vals : List Validator) (message : Q) (numerator denominator : Nat) : Prop where
  set : slots input = vals
  members : ∀ i ∈ signers input, i < vals.length
  total : ∀ i < MaxVal, totalShare input i ≠ 0 → i < vals.length
  power : totalPower vals * numerator ≤ signedPower input * denominator
  signature : VerifySignature g (∑ i ∈ signers input, (input.validators i).publicKey g) message input.sig

/-- The slots the counter opens again past the validators hold no power and no signer. -/
def PaddingUnused : Prop :=
  ∀ i < MaxVal, input.nbOfVal.val < i → (i - input.nbOfVal.val) % 2 = 1 →
    input.bitmap.val.testBit i = false ∧ (input.validators i).power = 0

variable {g input}

theorem Verify.nbOfVal_bounds {message : Q} {root num den : F} (h : Verify g input message root num den) :
    0 < input.nbOfVal.val ∧ input.nbOfVal.val ≤ MaxVal := by
  have hmax : ((MaxVal : Nat) : F).val = MaxVal := ZMod.val_natCast_of_lt (by decide)
  have hval := h.nbOfVal
  have hsig := h.nbOfSignature
  have hone := h.oneSignature
  rw [AssertIsLessOrEqual] at hval hsig hone
  rw [hmax] at hval
  rw [ZMod.val_one] at hone
  omega

theorem padding_closed (hpad : PaddingUnused input) {i : Nat} (hi : i < MaxVal)
    (hge : input.nbOfVal.val ≤ i) : actuallySigned input i = 0 ∧ totalShare input i = 0 := by
  rw [actuallySigned, totalShare, cannotSign_eq, signed_eq input hi]
  by_cases heven : (i - input.nbOfVal.val) % 2 = 0
  · rw [if_pos ⟨hge, heven⟩, select_one, select_one]
    exact ⟨rfl, rfl⟩
  · obtain ⟨hbit, hpower⟩ := hpad i hi (by omega) (by omega)
    rw [if_neg (fun h => heven h.2), select_zero, select_zero, hbit, hpower]
    exact ⟨rfl, rfl⟩

theorem padding_unused_of_sound {vals : List Validator} {message : Q} {num den : Nat}
    (h : Sound g input vals message num den) : PaddingUnused input := by
  have hlen : vals.length = input.nbOfVal.val := by rw [← h.set, slots_length]
  intro i hi hgt hodd
  have hopen : cannotSign input i = 0 := by rw [cannotSign_eq, if_neg (by omega)]
  constructor
  · by_contra hbit
    have hsigner : i ∈ signers input := by
      rw [signers, signersBelow, mem_filter, mem_range]
      refine ⟨hi, ?_⟩
      rw [actuallySigned, hopen, select_zero, signed_eq input hi, if_pos (by simpa using hbit)]
    have := h.members i hsigner
    omega
  · by_contra hpower
    have := h.total i hi (by rwa [totalShare, hopen, select_zero])
    omega

theorem total_eq (hpad : PaddingUnused input) (hle : input.nbOfVal.val ≤ MaxVal) :
    (aggregate g input MaxVal).totalVotingPower = (totalPower (slots input) : F) := by
  have hsum : totalPower (slots input) = ∑ i ∈ Finset.range input.nbOfVal.val,
      (input.validators i).power.val := by
    rw [totalPower, slots, List.map_map]
    rfl
  rw [(aggregate_eq g input MaxVal (Nat.le_refl _)).total, hsum, Nat.cast_sum]
  have hsub : Finset.range input.nbOfVal.val ⊆ Finset.range MaxVal := Finset.range_subset_range.mpr hle
  rw [← sum_subset hsub]
  · apply sum_congr rfl
    intro i hi
    rw [mem_range] at hi
    rw [totalShare, cannotSign_eq, if_neg (by omega), select_zero, ZMod.natCast_zmod_val]
  · intro i hi hout
    rw [mem_range] at hi hout
    exact (padding_closed hpad hi (by omega)).2

theorem current_eq : (aggregate g input MaxVal).currentVotingPower = (signedPower input : F) := by
  rw [(aggregate_eq g input MaxVal (Nat.le_refl _)).current, signedPower, Nat.cast_sum]
  apply sum_congr rfl
  intro i _
  rw [ZMod.natCast_zmod_val]

theorem signers_lt (hpad : PaddingUnused input) {i : Nat} (hi : i ∈ signers input) :
    i < input.nbOfVal.val := by
  rw [signers, signersBelow, mem_filter, mem_range] at hi
  by_contra hge
  have := (padding_closed hpad hi.1 (by omega)).1
  rw [hi.2] at this
  exact absurd this (by decide)

theorem signedPower_le (hpad : PaddingUnused input) : signedPower input ≤ totalPower (slots input) := by
  have hsum : totalPower (slots input) = ∑ i ∈ Finset.range input.nbOfVal.val,
      (input.validators i).power.val := by
    rw [totalPower, slots, List.map_map]
    rfl
  rw [hsum, signedPower]
  apply sum_le_sum_of_subset
  intro i hi
  exact Finset.mem_range.mpr (signers_lt hpad hi)

theorem totalPower_lt {vals : List Validator} (hlen : vals.length ≤ MaxVal)
    (hpower : ∀ v ∈ vals, v.power.val < 2 ^ 63) : totalPower vals < 2 ^ 71 := by
  have hle : totalPower vals ≤ vals.length * 2 ^ 63 := by
    rw [totalPower]
    have := List.sum_le_card_nsmul (vals.map fun v => v.power.val) (2 ^ 63) (by
      intro x hx
      obtain ⟨v, hv, rfl⟩ := List.mem_map.mp hx
      exact Nat.le_of_lt (hpower v hv))
    rwa [List.length_map, smul_eq_mul] at this
  have hmax : vals.length * 2 ^ 63 ≤ MaxVal * 2 ^ 63 := Nat.mul_le_mul_right _ hlen
  have hnum : MaxVal * 2 ^ 63 < 2 ^ 71 := by decide
  omega

theorem val_mul_cast {a b : Nat} (ha : a < 2 ^ 71) (hb : b < 2 ^ 128) : ((a : F) * (b : F)).val = a * b := by
  have hlt : a * b < R := calc
    a * b ≤ 2 ^ 71 * 2 ^ 128 := Nat.mul_le_mul (Nat.le_of_lt ha) (Nat.le_of_lt hb)
    _ < R := by decide
  rw [← Nat.cast_mul]
  exact ZMod.val_natCast_of_lt hlt

/-- A set of validators as chains have them. -/
structure ValidSet (vals : List Validator) : Prop where
  nonempty : 0 < vals.length
  length_le : vals.length ≤ MaxVal
  power_lt : ∀ v ∈ vals, v.power.val < 2 ^ 63

theorem verify_sound_iff {vals : List Validator} {message : Q} {numerator denominator : Nat}
    (hvals : ValidSet vals) (hnum : numerator < 2 ^ 128) (hden : denominator < 2 ^ 128)
    (hfree : CollisionFree g vals (slots input))
    (h : Verify g input message (setRoot g vals) numerator denominator) :
    Sound g input vals message numerator denominator ↔ PaddingUnused input := by
  refine ⟨padding_unused_of_sound, ?_⟩
  intro hpad
  obtain ⟨hpos, hle⟩ := h.nbOfVal_bounds
  have hset : vals = slots input := by
    apply vals_eq_of_setRoot_eq g _ _ hfree
    · rw [h.root, rootHash_eq_setRoot g input hpos hle]
    · exact List.ne_nil_of_length_pos hvals.nonempty
    · apply List.ne_nil_of_length_pos
      rw [slots_length]
      exact hpos
  have hlen : vals.length = input.nbOfVal.val := by rw [hset, slots_length]
  have htotal := totalPower_lt hvals.length_le hvals.power_lt
  have hsigned : signedPower input ≤ totalPower vals := hset ▸ signedPower_le hpad
  constructor
  case set => exact hset.symm
  case members =>
    intro i hi
    rw [hlen]
    exact signers_lt hpad hi
  case total =>
    intro i hi hne
    rw [hlen]
    by_contra hge
    exact hne (padding_closed hpad hi (by omega)).2
  case power =>
    have hpower := h.power
    rw [AssertIsLessOrEqual, total_eq hpad hle, ← hset, current_eq, val_mul_cast htotal hnum,
      val_mul_cast (by omega) hden] at hpower
    exact hpower
  case signature =>
    have hagg := aggregate_eq g input MaxVal (Nat.le_refl _)
    have hcard : (signersBelow input MaxVal).card ≠ 0 := by
      intro hzero
      have hone := h.oneSignature
      rw [AssertIsLessOrEqual, ← h.keys, hagg.nbOfKeys, hzero, Nat.cast_zero, ZMod.val_zero,
        ZMod.val_one] at hone
      omega
    have hsig := h.signature
    rwa [hagg.publicKey hcard] at hsig

end Sound

/-! ## The whole circuit -/

section Circuit

variable {P Q : Type} [AddCommMonoid P] (g : Gadgets P Q)

/-- A third of the trusted and two thirds of the untrusted validators signed the vote on the header, whose
    fields the public input is the hash of. -/
structure CircuitSound (sha256 : Bytes → Bytes) (c : Circuit Q)
    (trustedVals untrustedVals : List Validator) : Prop where
  inputs : VerifyInputs sha256 c.header c.inputsHash c.trustedValRoot
  trusted : Sound g c.trustedInput trustedVals (c.message g) trustedRatioNum trustedRatioDen
  untrusted : Sound g c.untrustedInput untrustedVals (c.message g) untrustedRatioNum untrustedRatioDen

/-- **When the circuit proves what it is for**: for every threshold of `Verify`, and for the two of the
    circuit, exactly when the padding of the validator arrays is unused. -/
theorem circuit_sound_iff :
      (∀ (input : Input Q) (vals : List Validator) (message : Q) (numerator denominator : Nat),
      ValidSet vals → numerator < 2 ^ 128 → denominator < 2 ^ 128 → CollisionFree g vals (slots input) →
      Verify g input message (setRoot g vals) numerator denominator →
      (Sound g input vals message numerator denominator ↔ PaddingUnused input)) ∧
    ∀ (sha256 : Bytes → Bytes) (c : Circuit Q) (trustedVals untrustedVals : List Validator),
      ValidSet trustedVals → ValidSet untrustedVals →
      c.trustedValRoot = setRoot g trustedVals → c.header.validatorsHash = setRoot g untrustedVals →
      CollisionFree g trustedVals (slots c.trustedInput) →
      CollisionFree g untrustedVals (slots c.untrustedInput) →
      Define g sha256 c →
      (CircuitSound g sha256 c trustedVals untrustedVals ↔
        PaddingUnused c.trustedInput ∧ PaddingUnused c.untrustedInput) := by
  refine ⟨?_, ?_⟩
  · intro input vals message numerator denominator hvals hnum hden hfree h
    exact verify_sound_iff hvals hnum hden hfree h
  · intro sha256 c trustedVals untrustedVals htrusted huntrusted hroot hroot' hfree hfree' h
    have htrustedVerify := h.trusted
    rw [hroot] at htrustedVerify
    have huntrustedVerify := h.untrusted
    rw [hroot'] at huntrustedVerify
    have hiff := verify_sound_iff htrusted (by decide) (by decide) hfree htrustedVerify
    have hiff' := verify_sound_iff huntrusted (by decide) (by decide) hfree' huntrustedVerify
    constructor
    · intro hsound
      exact ⟨hiff.mp hsound.trusted, hiff'.mp hsound.untrusted⟩
    · rintro ⟨hpad, hpad'⟩
      exact ⟨h.inputs, hiff.mpr hpad, hiff'.mpr hpad'⟩

end Circuit

/-! One validator, who does not sign, and a key of the prover in the third slot, with ten times the power. -/

namespace Sample

def gadgets : Gadgets Int Int where
  mimc l := (l.length : F)
  point x _ := ((x.getD 0 0).val : Int)
  generator := 1
  negG1Gen := -1
  isOnG1 _ := True
  isOnG2 _ := True
  pairingCheck l := (l.map fun e => e.1 * e.2).sum = 0
  hashToG2 _ _ := 7

def member : Validator := ⟨11, 0, 0, 0, 10⟩

def padding : Validator := ⟨5, 0, 0, 0, 100⟩

def input : Input Int where
  sig := 35
  validators i := if i = 0 then member else if i = 2 then padding else ⟨0, 0, 0, 0, 0⟩
  nbOfVal := 1
  nbOfSignature := 1
  bitmap := 4

theorem valid : ValidSet [member] where
  nonempty := by decide
  length_le := by decide
  power_lt := by
    intro v hv
    rw [List.mem_singleton.mp hv]
    decide

theorem slots_eq : slots input = [member] := rfl

theorem signers_eq : signers input = {2} := by
  ext i
  rw [signers, signersBelow, mem_filter, mem_range, mem_singleton]
  constructor
  · rintro ⟨hi, hsigned⟩
    rw [actuallySigned, signed_eq input hi, select] at hsigned
    split at hsigned
    · exact absurd hsigned (by decide)
    · split at hsigned
      case isTrue hbit =>
        have : (2 ^ 2 : Nat).testBit i = true := hbit
        rw [Nat.testBit_two_pow, decide_eq_true_eq] at this
        exact this.symm
      case isFalse => exact absurd hsigned (by decide)
  · rintro rfl
    refine ⟨by decide, ?_⟩
    rw [actuallySigned, cannotSign_eq, signed_eq input (by decide)]
    decide

theorem collisionFree : CollisionFree gadgets [member] (slots input) := by
  have hshape : ∀ l ∈ hashedFor gadgets [member], l.length = 5 ∧ l = [11, 0, 0, 0, 10] ∨
      l.length = 2 ∧ l = [0, 5] := by
    rintro l ⟨x, ⟨t, ht, hx⟩, hl⟩
    rw [show Tree.build [member].length ([member].map Tree.leaf) = [Tree.leaf member] from rfl,
      List.mem_singleton] at ht
    rw [ht] at hx
    rw [Set.mem_singleton_iff.mp hx] at hl
    rcases hl with rfl | rfl
    · exact .inl ⟨rfl, rfl⟩
    · exact .inr ⟨rfl, rfl⟩
  rw [slots_eq, CollisionFree, Set.union_self]
  intro l hl l' hl' heq
  have hlen : (l.length : F) = (l'.length : F) := heq
  rcases hshape l hl with ⟨h, rfl⟩ | ⟨h, rfl⟩ <;> rcases hshape l' hl' with ⟨h', rfl⟩ | ⟨h', rfl⟩
  · rfl
  · exact absurd hlen (by decide)
  · exact absurd hlen (by decide)
  · rfl

theorem total_eq : (aggregate gadgets input MaxVal).totalVotingPower = 110 := by
  rw [(aggregate_eq gadgets input MaxVal (Nat.le_refl _)).total]
  have hshare : ∀ i ∈ Finset.range MaxVal, i ∉ ({0, 2} : Finset Nat) → totalShare input i = 0 := by
    intro i _ hi
    simp only [mem_insert, mem_singleton, not_or] at hi
    have hpower : (input.validators i).power = 0 := by
      simp only [input, if_neg hi.1, if_neg hi.2]
    rw [totalShare, hpower, select]
    split <;> rfl
  rw [← sum_subset (by decide) hshare, sum_pair (by decide)]
  simp only [totalShare, cannotSign_eq]
  decide

theorem verifies : Verify gadgets input 7 (setRoot gadgets [member]) (2 : Nat) (3 : Nat) := by
  have hagg := aggregate_eq gadgets input MaxVal (Nat.le_refl _)
  have hsigners : signersBelow input MaxVal = {2} := signers_eq
  constructor
  case nbOfVal => exact (by decide : (1 : F).val ≤ ((128 : Nat) : F).val)
  case nbOfSignature => exact Nat.le_refl _
  case oneSignature => exact Nat.le_refl _
  case bitmap => exact (by decide : (4 : F).val < 2 ^ 128)
  case coordinates =>
    intro i _
    have hR : R < 2 ^ 256 := by decide
    exact ⟨Nat.lt_trans (ZMod.val_lt _) hR, Nat.lt_trans (ZMod.val_lt _) hR⟩
  case msbs =>
    intro i _
    simp only [input]
    split
    · exact ⟨.inl rfl, .inl rfl⟩
    · split
      · exact ⟨.inl rfl, .inl rfl⟩
      · exact ⟨.inl rfl, .inl rfl⟩
  case keys =>
    rw [hagg.nbOfKeys, hsigners]
    rfl
  case power =>
    rw [AssertIsLessOrEqual, total_eq, hagg.current, hsigners, sum_singleton]
    decide
  case root => exact (rootHash_eq_setRoot gadgets input (by decide) (by decide)).symm
  case signature =>
    rw [hagg.publicKey (by rw [hsigners]; decide), hsigners, sum_singleton]
    refine ⟨trivial, trivial, trivial, trivial, ?_⟩
    have hkey : padding.publicKey gadgets = 5 := by decide +kernel
    show -1 * 35 + (padding.publicKey gadgets * 7 + 0) = 0
    rw [hkey]
    rfl

end Sample

open Sample in
/-- The circuit accepts a header the only validator did not sign. -/
theorem padded_key_signs :
    ValidSet [member] ∧ CollisionFree gadgets [member] (slots input) ∧
      Verify gadgets input 7 (setRoot gadgets [member]) (2 : Nat) (3 : Nat) ∧
      signers input = {2} ∧
      ¬ Sound gadgets input [member] 7 2 3 := by
  refine ⟨valid, collisionFree, verifies, signers_eq, ?_⟩
  intro hsound
  have := hsound.members 2 (by rw [signers_eq]; decide)
  exact absurd this (by decide)

open Sample in
theorem padded_key_sound_iff :
    Verify gadgets input 7 (setRoot gadgets [member]) (2 : Nat) (3 : Nat) ∧
      (Sound gadgets input [member] 7 2 3 ↔ PaddingUnused input) :=
  ⟨verifies, (circuit_sound_iff gadgets).1 input [member] 7 2 3
    valid (by decide) (by decide) collisionFree verifies⟩

end UnionVoyager.Light.CometBls
