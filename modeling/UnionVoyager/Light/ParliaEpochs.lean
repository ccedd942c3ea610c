import UnionVoyager.Light.Parlia

/-!
# The epochs of BNB Smart Chain

The sets of validators that are stored at consecutive epoch blocks, given by their sizes.

* `verifies_iff` — the heights that a set verifies: the epoch after its switch-over.
-/

namespace UnionVoyager.Light.Parlia

/-- How many blocks after an epoch block a set of this size takes over. -/
def delayOf (valsetSize : Nat) : Nat := 8 * ((valsetSize + 1) / 2)

/-- The check of `verify_header` on the set of this size that is stored for the `epoch`-th epoch block. -/
def Verifies (h : UInt64) (valsetSize epoch : Nat) : Prop :=
  (calculateSigningValsetEpochBlockNumber h (UInt64.ofNat valsetSize)).toNat = 1000 * epoch

theorem toNat_delay {valsetSize : Nat} (hsize : valsetSize ≤ 64) :
    (TURN_LENGTH * divCeil (UInt64.ofNat valsetSize) 2).toNat = delayOf valsetSize := by
  have hsmall : (UInt64.ofNat valsetSize).toNat = valsetSize := by
    rw [UInt64.toNat_ofNat']
    omega
  rw [divCeil, hsmall, UInt64.toNat_mul, UInt64.toNat_ofNat']
  have hturn : TURN_LENGTH.toNat = 8 := rfl
  have htwo : (2 : UInt64).toNat = 2 := rfl
  rw [hturn, htwo, delayOf]
  omega

theorem verifies_iff {h : UInt64} {valsetSize : Nat} (epoch : Nat) (hsize : valsetSize ≤ 64)
    (hh : 1008 < h.toNat) :
    Verifies h valsetSize epoch ↔ 1000 + delayOf valsetSize ≤ h.toNat ∧
      1000 * epoch + delayOf valsetSize < h.toNat ∧
      h.toNat ≤ 1000 * (epoch + 1) + delayOf valsetSize := by
  have hlt : h.toNat < 2 ^ 64 := h.toNat_lt
  have hdelay : delayOf valsetSize ≤ 256 := by
    unfold delayOf
    omega
  have hto := toNat_delay hsize
  unfold Verifies calculateSigningValsetEpochBlockNumber
  generalize TURN_LENGTH * divCeil (UInt64.ofNat valsetSize) 2 = delay at hto ⊢
  generalize delayOf valsetSize = d at hdelay hto ⊢
  have hepoch : EPOCH_LENGTH.toNat = 1000 := rfl
  have hx : (h - delay - EPOCH_LENGTH).toNat =
      if 1000 + d ≤ h.toNat then h.toNat - d - 1000 else 2 ^ 64 + h.toNat - d - 1000 := by
    rw [UInt64.toNat_sub, UInt64.toNat_sub, hto, hepoch]
    split <;> omega
  rw [divCeil, UInt64.toNat_mul, UInt64.toNat_ofNat', hx, hepoch]
  split
  · rw [Nat.mod_eq_of_lt (by omega : (h.toNat - d - 1000 + 1000 - 1) / 1000 < 2 ^ 64),
      Nat.mod_eq_of_lt (by omega)]
    clear hlt hx
    omega
  · -- the distance wraps, and its product with the length does once more: what is left is no epoch block
    have hceil : (2 ^ 64 + h.toNat - d - 1000 + 1000 - 1) / 1000 = 18446744073709552 := by omega
    have hwraps : 18446744073709552 % 2 ^ 64 * 1000 % 2 ^ 64 = 384 := by decide
    rw [hceil, hwraps]
    omega

/-- **Above the first switch-over exactly one of the stored sets verifies a height, iff at every
    later epoch block the height is on the same side of the switch-over for the new set's size and
    of the one for the old set's.** -/
theorem one_verifies_iff {first : Nat} {size : Nat → Nat} {h : UInt64}
    (hsize : ∀ epoch, first ≤ epoch → 1 ≤ size epoch ∧ size epoch ≤ 64)
    (habove : 1000 * max first 1 + delayOf (size first) < h.toNat) :
    (∃! epoch, first ≤ epoch ∧ Verifies h (size epoch) epoch) ↔
      ∀ epoch, first ≤ epoch → (1000 * (epoch + 1) + delayOf (size (epoch + 1)) < h.toNat ↔
        1000 * (epoch + 1) + delayOf (size epoch) < h.toNat) := by
  have hdelay : ∀ epoch, first ≤ epoch → 8 ≤ delayOf (size epoch) ∧ delayOf (size epoch) ≤ 256 := by
    intro epoch hepoch
    obtain ⟨hone, hmany⟩ := hsize epoch hepoch
    unfold delayOf
    omega
  have hfirst := hdelay first (Nat.le_refl _)
  have hverifies : ∀ epoch, first ≤ epoch →
      (Verifies h (size epoch) epoch ↔ 1000 + delayOf (size epoch) ≤ h.toNat ∧
      1000 * epoch + delayOf (size epoch) < h.toNat ∧ h.toNat ≤ 1000 * (epoch + 1) + delayOf (size epoch)) :=
    fun epoch hepoch => verifies_iff epoch (hsize epoch hepoch).2 (by omega)
  -- only the last epoch before the height and the one before that can verify it
  obtain ⟨last, hlast, hnext⟩ : ∃ last, 1000 * last < h.toNat ∧ h.toNat ≤ 1000 * (last + 1) :=
    ⟨(h.toNat - 1) / 1000, by omega, by omega⟩
  have hwhich : ∀ epoch, first ≤ epoch → Verifies h (size epoch) epoch → epoch = last ∨ epoch + 1 = last := by
    intro epoch hepoch hv
    have hd := hdelay epoch hepoch
    have hwindow := (hverifies epoch hepoch).mp hv
    omega
  rcases Nat.lt_or_ge first last with hlt | hge
  · obtain ⟨prev, rfl⟩ : ∃ prev, last = prev + 1 := ⟨last - 1, by omega⟩
    have hprev : first ≤ prev := by omega
    have hd := hdelay prev hprev
    have hd' := hdelay (prev + 1) (by omega)
    have hold : Verifies h (size prev) prev ↔ h.toNat ≤ 1000 * (prev + 1) + delayOf (size prev) := by
      rw [hverifies prev hprev]
      have hzero : prev = 0 → first = prev := fun _ => by omega
      constructor
      · exact fun hwindow => hwindow.2.2
      · intro hle
        rcases Nat.eq_zero_or_pos prev with h0 | hpos
        · rw [hzero h0] at habove
          omega
        · omega
    have hnew : Verifies h (size (prev + 1)) (prev + 1) ↔
        1000 * (prev + 1) + delayOf (size (prev + 1)) < h.toNat := by
      rw [hverifies (prev + 1) (by omega)]
      omega
    have hall : (∀ epoch, first ≤ epoch → (1000 * (epoch + 1) + delayOf (size (epoch + 1)) < h.toNat ↔
        1000 * (epoch + 1) + delayOf (size epoch) < h.toNat)) ↔
        (Verifies h (size (prev + 1)) (prev + 1) ↔ ¬ Verifies h (size prev) prev) := by
      rw [hold, hnew, Nat.not_le]
      refine ⟨fun hagree => hagree prev hprev, fun hagree epoch hepoch => ?_⟩
      have he := hdelay epoch hepoch
      have he' := hdelay (epoch + 1) (by omega)
      rcases Nat.lt_trichotomy epoch prev with hepoch | rfl | hepoch
      · omega
      · exact hagree
      · omega
    rw [hall]
    constructor
    · rintro ⟨epoch, ⟨hepoch, hv⟩, hunique⟩
      constructor
      · intro hv' hv''
        have h1 := hunique (prev + 1) ⟨by omega, hv'⟩
        have h2 := hunique prev ⟨hprev, hv''⟩
        omega
      · intro hnot
        rcases hwhich epoch hepoch hv with rfl | hprev'
        · exact hv
        · obtain rfl : epoch = prev := by omega
          exact absurd hv hnot
    · intro hagree
      by_cases hv : Verifies h (size prev) prev
      · refine ⟨prev, ⟨hprev, hv⟩, fun epoch ⟨hepoch, hv'⟩ => ?_⟩
        rcases hwhich epoch hepoch hv' with rfl | hprev'
        · exact absurd hv (hagree.mp hv')
        · omega
      · refine ⟨prev + 1, ⟨by omega, hagree.mpr hv⟩, fun epoch ⟨hepoch, hv'⟩ => ?_⟩
        rcases hwhich epoch hepoch hv' with rfl | hprev'
        · rfl
        · obtain rfl : epoch = prev := by omega
          exact absurd hv' hv
  · obtain rfl : first = last := by omega
    refine iff_of_true ⟨first, ⟨Nat.le_refl _, (hverifies first (Nat.le_refl _)).mpr (by omega)⟩, ?_⟩ ?_
    · rintro epoch ⟨hepoch, hv⟩
      have := hwhich epoch hepoch hv
      omega
    · intro epoch hepoch
      have he := hdelay epoch hepoch
      have he' := hdelay (epoch + 1) (by omega)
      omega

theorem one_verifies_constant : ∃! epoch, 1 ≤ epoch ∧ Verifies 2500 21 epoch :=
  (one_verifies_iff (fun _ _ => by decide) (by decide)).mpr fun _ _ => Iff.rfl

/-- The set of epoch 1 has one member, that of epoch 2 has sixty-four: between the two switch-overs
    neither verifies. -/
theorem none_verifies : ¬ ∃ epoch, 1 ≤ epoch ∧ Verifies 2100 (if epoch = 1 then 1 else 64) epoch := by
  rintro ⟨epoch, hepoch, hv⟩
  rw [verifies_iff epoch (by split <;> decide) (by decide)] at hv
  have hh : (2100 : UInt64).toNat = 2100 := rfl
  rw [hh] at hv
  split at hv
  · simp only [delayOf] at hv
    omega
  · simp only [delayOf] at hv
    omega

end UnionVoyager.Light.Parlia
