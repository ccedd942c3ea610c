import UnionVoyager.Zkgm.Hops

/-!
# The laws of channel paths, in Rust and in Solidity

A path stands for a list of at most eight channel ids.  `update_channel_path` of the cosmwasm
contract finds the slot of the next id by dividing the length of the path in bits by 32, which is
one slot too far after an id with its top bit set; `updateChannelPath` of the Solidity contract
divides the index of the highest bit.

* `PathOps`, `PathLaws` — the functions on paths of a contract, and what they should do on a list.
* `solidity_laws` — the Solidity functions keep the laws on every list.
-/

namespace UnionVoyager.Zkgm

open Lib List
open Core (ChannelId)

/-! ## What the functions should do -/

/-- The functions on paths of a contract; `none` is a failure. -/
structure PathOps where
  update : U256 → ChannelId → Option U256
  dequeue : U256 → Option (U256 × Option ChannelId)
  pop : U256 → Option (U256 × Option ChannelId)
  reverse : U256 → Option U256

/-- The word has the ids of the list in its slots, and nothing else. -/
structure Holds (path : U256) (hops : List ChannelId) : Prop where
  slots : ∀ (i : Nat) (hi : i < hops.length),
    ((path >>> (32 * i)).setWidth 32).toNat = (hops.get ⟨i, hi⟩).raw.get
  rest : path >>> (32 * hops.length) = 0

structure PathLaws (ops : PathOps) (hops : List ChannelId) : Prop where
  holds : Holds (pathOf hops) hops
  folds : hops.foldlM ops.update 0 = some (pathOf hops)
  dequeues : ops.dequeue (pathOf hops) = some (pathOf hops.tail, hops.head?)
  pops : ops.pop (pathOf hops) = some (pathOf hops.dropLast, hops.getLast?)
  reverses : ops.reverse (pathOf hops) = some (pathOf hops.reverse)
  involutive : (ops.reverse (pathOf hops)).bind ops.reverse = some (pathOf hops)
  full : hops.length = 8 → ∀ c, ops.update (pathOf hops) c = none

/-! ## The contracts -/

/-- The functions of the cosmwasm contract. -/
def cosmwasm : PathOps where
  update path c := (updateChannelPath path c).toOption
  dequeue path := (dequeueChannelFromPath path).toOption
  pop path := some (popChannelFromPath path)
  reverse path := (reverseChannelPath path).toOption

namespace Solidity

/-- `LibBit.fls`: the index of the highest bit, 256 for zero. -/
def fls (x : U256) : Nat := if x = 0 then 256 else x.toNat.log2

/-- `none`: `ErrInvalidHops`. -/
def updateChannelPath (path : U256) (nextChannelId : UInt32) : Option U256 :=
  if path = 0 then some (BitVec.ofNat 256 nextChannelId.toNat)
  else
    let nextHopIndex := fls path / 32 + 1
    if nextHopIndex > 7 then none
    else some (BitVec.ofNat 256 nextChannelId.toNat <<< (32 * nextHopIndex) ||| path)

def popChannelFromPath (path : U256) : U256 × UInt32 :=
  if path = 0 then (0, 0)
  else
    let currentHopIndex := fls path / 32
    let clearShift := (8 - currentHopIndex) * 32
    ((path <<< clearShift) >>> clearShift, UInt32.ofNat (path >>> (currentHopIndex * 32)).toNat)

def dequeueChannelFromPath (path : U256) : U256 × UInt32 := (path >>> 32, UInt32.ofNat path.toNat)

/-- The loop of `reverseChannelPath`. -/
def reverseLoop : Nat → U256 → U256 → Option U256
  | 0, _, _ => none
  | fuel + 1, path, reversedPath => do
    let (tail, head) := popChannelFromPath path
    let reversedPath ← updateChannelPath reversedPath head
    if tail = 0 then some reversedPath else reverseLoop fuel tail reversedPath

/-- Each turn of the loop clears the highest of at most eight slots. -/
def reverseChannelPath (path : U256) : Option U256 := reverseLoop 8 path 0

end Solidity

/-- A channel id as a `uint32`. -/
def toUint32 (c : ChannelId) : UInt32 := UInt32.ofNat c.raw.get

/-- The functions of the Solidity contract; the id zero is no channel. -/
def solidity : PathOps where
  update path c := Solidity.updateChannelPath path (toUint32 c)
  dequeue path :=
    let (tail, head) := Solidity.dequeueChannelFromPath path
    some (tail, ChannelId.fromRaw head.toNat)
  pop path :=
    let (tail, head) := Solidity.popChannelFromPath path
    some (tail, ChannelId.fromRaw head.toNat)
  reverse := Solidity.reverseChannelPath

/-! ## Slots -/

theorem toUint32_toNat (c : ChannelId) : (toUint32 c).toNat = c.raw.get := by
  have hlt : c.raw.get < 2 ^ 32 := c.raw.lt
  rw [toUint32, UInt32.toNat_ofNat', Nat.mod_eq_of_lt hlt]

theorem pathValue_div : ∀ (i : Nat) (hops : List ChannelId),
    pathValue hops / 2 ^ (32 * i) = pathValue (hops.drop i)
  | 0, hops => by simp
  | i + 1, [] => by simp [pathValue]
  | i + 1, c :: hops => by
    have hc : c.raw.get < 2 ^ 32 := c.raw.lt
    have hdiv : pathValue (c :: hops) / 2 ^ 32 = pathValue hops := by
      rw [pathValue_cons]
      omega
    rw [Nat.mul_succ, pow_add, Nat.mul_comm, ← Nat.div_div_eq_div_mul, hdiv, pathValue_div i hops]
    rfl

variable {hops : List ChannelId}

theorem pathOf_shiftRight (hlen : hops.length ≤ 8) (i : Nat) :
    pathOf hops >>> (32 * i) = pathOf (hops.drop i) := by
  apply BitVec.eq_of_toNat_eq
  have hdrop : (hops.drop i).length ≤ 8 := by
    rw [length_drop]
    omega
  rw [BitVec.toNat_ushiftRight, Nat.shiftRight_eq_div_pow, pathOf_toNat hlen, pathOf_toNat hdrop,
    pathValue_div]

theorem holds_pathOf (hlen : hops.length ≤ 8) : Holds (pathOf hops) hops := by
  constructor
  · intro i hi
    have hc : (hops.get ⟨i, hi⟩).raw.get < 2 ^ 32 := (hops.get ⟨i, hi⟩).raw.lt
    have hdrop : (hops.drop i).length ≤ 8 := by
      rw [length_drop]
      omega
    have hsplit : hops.drop i = hops.get ⟨i, hi⟩ :: hops.drop (i + 1) := drop_eq_getElem_cons hi
    rw [pathOf_shiftRight hlen, BitVec.toNat_setWidth, pathOf_toNat hdrop, hsplit, pathValue_cons]
    omega
  · rw [pathOf_shiftRight hlen, drop_length]
    rfl

variable {c : ChannelId} {update : U256 → ChannelId → Option U256}

theorem log2_pathOf (hlen : hops.length < 8) :
    (pathOf (hops ++ [c])).toNat.log2 / 32 = hops.length := by
  have hvalue : (pathOf (hops ++ [c])).toNat = 2 ^ (32 * hops.length) * c.raw.get + pathValue hops := by
    rw [pathOf_toNat (by simp; omega), pathValue_concat]
  exact slot_eq hvalue (pathValue_lt hops) c.raw.pos c.raw.lt

theorem or_pathOf (hlen : hops.length < 8) (c : ChannelId) :
    BitVec.ofNat 256 c.raw.get <<< (32 * hops.length) ||| pathOf hops = pathOf (hops ++ [c]) := by
  apply BitVec.eq_of_toNat_eq
  have hlt := pathValue_lt hops
  have hslot := makePathFromChannel_toNat c (i := hops.length) (by omega)
  rw [makePathFromChannel] at hslot
  rw [BitVec.toNat_or, hslot, Nat.mul_comm, pathOf_toNat (by omega), ← Nat.two_pow_add_eq_or_of_lt hlt,
    pathOf_toNat (by simp; omega), pathValue_concat]

/-! ## From one step to a list -/

theorem folds_of_appends (hlen : hops.length ≤ 8)
    (h : ∀ init c rest, hops = init ++ c :: rest → update (pathOf init) c = some (pathOf (init ++ [c]))) :
    hops.foldlM update 0 = some (pathOf hops) := by
  induction hops using reverseRecOn with
  | nil => rfl
  | append_singleton init c ih =>
    have hinit : init.foldlM update 0 = some (pathOf init) := by
      refine ih (by simp at hlen; omega) ?_
      rintro first d rest rfl
      exact h first d (rest ++ [c]) (by simp)
    rw [foldlM_append, hinit]
    show (update (pathOf init) c).bind some = _
    rw [h init c [] (by simp)]
    rfl

theorem loop_eq_foldlM {loop : Nat → U256 → U256 → Option U256}
    (hloop : ∀ fuel init c acc, init.length < 8 → loop (fuel + 1) (pathOf (init ++ [c])) acc =
      (update acc c).bind fun acc => if pathOf init = 0 then some acc else loop fuel (pathOf init) acc)
    {fuel : Nat} (hlen : hops.length ≤ 8) (hfuel : hops.length ≤ fuel) (hne : hops ≠ [])
    (acc : U256) : loop fuel (pathOf hops) acc = hops.reverse.foldlM update acc := by
  induction hops using reverseRecOn generalizing fuel acc with
  | nil => exact absurd rfl hne
  | append_singleton init c ih =>
    simp only [length_append, length_singleton] at hlen hfuel
    match fuel, hfuel with
    | fuel + 1, hfuel =>
      rw [hloop fuel init c acc (by omega), reverse_append]
      show _ = (update acc c).bind fun acc => init.reverse.foldlM update acc
      congr 1
      funext acc
      by_cases hinit : init = []
      · subst hinit
        rfl
      · rw [if_neg (pathOf_ne_zero (by omega) hinit)]
        exact ih (by omega) (by omega) hinit acc

/-! ## Solidity -/

namespace Solidity

theorem fls_pathOf (hlen : hops.length < 8) : fls (pathOf (hops ++ [c])) / 32 = hops.length := by
  rw [fls, if_neg (pathOf_ne_zero (by simp; omega) (by simp))]
  exact log2_pathOf hlen

theorem updateChannelPath_pathOf (hlen : hops.length < 8) (c : ChannelId) :
    updateChannelPath (pathOf hops) (toUint32 c) = some (pathOf (hops ++ [c])) := by
  have hslot := or_pathOf hlen c
  rcases eq_nil_or_concat' hops with rfl | ⟨init, d, rfl⟩
  · simp [updateChannelPath, toUint32_toNat, pathOf, pathValue]
  · simp only [length_append, length_singleton] at hlen hslot
    unfold updateChannelPath
    rw [if_neg (pathOf_ne_zero (by simp; omega) (by simp)), fls_pathOf (by omega), toUint32_toNat]
    simp only
    rw [if_neg (by omega), hslot]

theorem updateChannelPath_full (hlen : hops.length = 8) (c : ChannelId) :
    updateChannelPath (pathOf hops) (toUint32 c) = none := by
  rcases eq_nil_or_concat' hops with rfl | ⟨init, d, rfl⟩
  · cases hlen
  · simp only [length_append, length_singleton] at hlen
    unfold updateChannelPath
    rw [if_neg (pathOf_ne_zero (by simp; omega) (by simp)), fls_pathOf (by omega)]
    exact if_pos (by omega)

theorem shiftLeft_shiftRight (path : U256) {n : Nat} (hn : n ≤ 256) :
    ((path <<< (256 - n)) >>> (256 - n)).toNat = path.toNat % 2 ^ n := by
  have hpath := path.isLt
  have hpow : 2 ^ 256 = 2 ^ n * 2 ^ (256 - n) := by
    rw [← pow_add]
    congr 1
    omega
  rw [BitVec.toNat_ushiftRight, BitVec.toNat_shiftLeft, Nat.shiftLeft_eq, Nat.shiftRight_eq_div_pow, hpow,
    Nat.mul_mod_mul_right, Nat.mul_div_cancel _ (Nat.two_pow_pos _)]

theorem popChannelFromPath_pathOf (hlen : hops.length < 8) :
    popChannelFromPath (pathOf (hops ++ [c])) = (pathOf hops, toUint32 c) := by
  have hvalue : (pathOf (hops ++ [c])).toNat = 2 ^ (32 * hops.length) * c.raw.get + pathValue hops := by
    rw [pathOf_toNat (by simp; omega), pathValue_concat]
  have hlt := pathValue_lt hops
  unfold popChannelFromPath
  rw [if_neg (pathOf_ne_zero (by simp; omega) (by simp)), fls_pathOf hlen]
  simp only [Prod.mk.injEq]
  constructor
  · apply BitVec.eq_of_toNat_eq
    have hshift : (8 - hops.length) * 32 = 256 - 32 * hops.length := by omega
    rw [hshift, shiftLeft_shiftRight _ (by omega), hvalue, Nat.mul_add_mod, Nat.mod_eq_of_lt hlt,
      pathOf_toNat (by omega)]
  · rw [toUint32, Nat.mul_comm, BitVec.toNat_ushiftRight, Nat.shiftRight_eq_div_pow, hvalue,
      Nat.mul_add_div (Nat.two_pow_pos _), Nat.div_eq_of_lt hlt, Nat.add_zero]

theorem dequeueChannelFromPath_pathOf (hlen : hops.length < 8) :
    dequeueChannelFromPath (pathOf (c :: hops)) = (pathOf hops, toUint32 c) := by
  have hc : c.raw.get < 2 ^ 32 := c.raw.lt
  have hlen' : (c :: hops).length ≤ 8 := by simpa using hlen
  have htail := pathOf_shiftRight hlen' 1
  unfold dequeueChannelFromPath
  rw [Prod.mk.injEq]
  refine ⟨htail, ?_⟩
  apply UInt32.toNat_inj.mp
  rw [toUint32_toNat, UInt32.toNat_ofNat', pathOf_toNat hlen', pathValue_cons]
  omega

theorem reverseChannelPath_pathOf (hlen : hops.length ≤ 8) :
    reverseChannelPath (pathOf hops) = some (pathOf hops.reverse) := by
  by_cases hne : hops = []
  · subst hne
    rfl
  · have hloop : ∀ fuel init c acc, init.length < 8 → reverseLoop (fuel + 1) (pathOf (init ++ [c])) acc =
        (updateChannelPath acc (toUint32 c)).bind fun acc =>
          if pathOf init = 0 then some acc else reverseLoop fuel (pathOf init) acc := by
      intro fuel init c acc hinit
      rw [reverseLoop, popChannelFromPath_pathOf hinit]
      rfl
    have hlen' : hops.reverse.length ≤ 8 := by rwa [length_reverse]
    rw [reverseChannelPath, loop_eq_foldlM hloop hlen hlen hne]
    refine folds_of_appends hlen' ?_
    intro init c rest heq
    have hlength := congrArg length heq
    simp only [length_append, length_cons] at hlength
    exact updateChannelPath_pathOf (by omega) c

end Solidity

theorem fromRaw_toUint32 (c : ChannelId) : ChannelId.fromRaw (toUint32 c).toNat = some c := by
  rw [toUint32_toNat, fromRaw_get]

theorem solidity_laws (hlen : hops.length ≤ 8) : PathLaws solidity hops := by
  have hreverse : ∀ hops : List ChannelId, hops.length ≤ 8 →
      solidity.reverse (pathOf hops) = some (pathOf hops.reverse) :=
    fun _ => Solidity.reverseChannelPath_pathOf
  refine ⟨holds_pathOf hlen, ?_, ?_, ?_, hreverse hops hlen, ?_, fun hfull =>
    Solidity.updateChannelPath_full hfull⟩
  · refine folds_of_appends hlen ?_
    rintro init c rest rfl
    simp only [length_append, length_cons] at hlen
    exact Solidity.updateChannelPath_pathOf (by omega) c
  · cases hops with
    | nil => rfl
    | cons c hops =>
      have hhead := Solidity.dequeueChannelFromPath_pathOf (c := c) (by simpa using hlen)
      simp only [solidity, hhead, fromRaw_toUint32]
      rfl
  · rcases eq_nil_or_concat' hops with rfl | ⟨init, c, rfl⟩
    · rfl
    · have hlast : Solidity.popChannelFromPath (pathOf (init ++ [c])) = (pathOf init, toUint32 c) :=
        Solidity.popChannelFromPath_pathOf (by simp at hlen; omega)
      simp only [solidity, hlast, fromRaw_toUint32, dropLast_concat, getLast?_concat]
  · rw [hreverse hops hlen]
    show solidity.reverse (pathOf hops.reverse) = _
    rw [hreverse hops.reverse (by rwa [length_reverse]), reverse_reverse]

/-! ## Rust -/

theorem cosmwasm_update_eq_some {path next : U256} :
    cosmwasm.update path c = some next ↔ updateChannelPath path c = .ok next := toOption_eq_some

theorem updateChannelPath_concat_iff {init : List ChannelId} {d : ChannelId} (hlen : init.length + 1 < 8) :
    updateChannelPath (pathOf (init ++ [d])) c = .ok (pathOf (init ++ [d] ++ [c])) ↔ d.raw.get < 2 ^ 31 := by
  constructor
  · intro h
    by_contra hd
    have hc := c.raw.pos
    have hvalue : (pathOf (init ++ [d])).toNat = 2 ^ (32 * init.length) * d.raw.get + pathValue init := by
      rw [pathOf_toNat (by simp; omega), pathValue_concat]
    have hne : (pathOf (init ++ [d])).toNat ≠ 0 := by
      have := Nat.mul_pos (Nat.two_pow_pos (32 * init.length)) d.raw.pos
      omega
    have hslot : (pathOf (init ++ [d])).toNat.log2 / 32 = init.length := log2_pathOf (by omega)
    have hhigh : 32 * init.length + 31 ≤ (pathOf (init ++ [d])).toNat.log2 := by
      rw [Nat.le_log2 hne, pow_add, hvalue]
      have := Nat.mul_le_mul_left (2 ^ (32 * init.length)) (show 2 ^ 31 ≤ d.raw.get by omega)
      omega
    have hbits : bitLength (pathOf (init ++ [d])) / 32 = init.length + 1 := by
      unfold bitLength
      omega
    unfold updateChannelPath at h
    rw [if_neg (pathOf_ne_zero (by simp; omega) (by simp))] at h
    simp only [hbits] at h
    split at h
    · cases h
    · rename_i hfull
      have hnat := congrArg BitVec.toNat (Except.ok.inj h)
      have hlt : (pathOf (init ++ [d])).toNat < 2 ^ (32 * (init.length + 1 + 1)) := by
        rw [pathOf_toNat (by simp; omega)]
        refine lt_of_lt_of_le (pathValue_lt _) (Nat.pow_le_pow_right (by decide) ?_)
        simp
      rw [BitVec.toNat_or, makePathFromChannel_toNat c (by omega), Nat.mul_comm,
        ← Nat.two_pow_add_eq_or_of_lt hlt, pathOf_toNat (by simp; omega), pathOf_toNat (by simp; omega),
        pathValue_concat (init ++ [d])] at hnat
      have hmul : 2 ^ (32 * (init.length + 1 + 1)) * c.raw.get = 2 ^ (32 * (init ++ [d]).length) *
          c.raw.get :=
        Nat.add_right_cancel hnat
      have hpow := Nat.eq_of_mul_eq_mul_right hc hmul
      have hexp := Nat.pow_right_injective (le_refl 2) hpow
      simp at hexp
  · exact updateChannelPath_concat hlen

theorem cosmwasm_folds_iff (hlen : hops.length ≤ 8) :
    hops.foldlM cosmwasm.update 0 = some (pathOf hops) ↔ SmallIds hops.dropLast := by
  constructor
  · intro h
    induction hops using reverseRecOn with
    | nil => nofun
    | append_singleton init c ih =>
      simp only [length_append, length_singleton] at hlen
      rw [foldlM_append] at h
      obtain ⟨path, hpath, h⟩ := Option.bind_eq_some_iff.mp h
      have hupd : updateChannelPath path c = .ok (pathOf (init ++ [c])) := by
        obtain ⟨next, hnext, h⟩ := Option.bind_eq_some_iff.mp h
        cases h
        exact cosmwasm_update_eq_some.mp hnext
      -- popping tells the path before
      have hpop := popChannelFromPath_update hupd
      rw [popChannelFromPath_pathOf (by omega)] at hpop
      have hsame : pathOf init = path := congrArg Prod.fst hpop
      rw [← hsame] at hpath hupd
      have hinit := ih (by omega) hpath
      rw [dropLast_concat]
      rcases eq_nil_or_concat' init with rfl | ⟨first, d, rfl⟩
      · nofun
      · have hd := (updateChannelPath_concat_iff (by simp at hlen; omega)).mp hupd
        rw [dropLast_concat] at hinit
        intro e he
        rcases List.mem_append.mp he with he | he
        · exact hinit e he
        · rw [List.mem_singleton.mp he]
          exact hd
  · intro h
    refine folds_of_appends hlen ?_
    rintro init c rest rfl
    simp only [length_append, length_cons] at hlen
    rw [cosmwasm_update_eq_some]
    refine updateChannelPath_pathOf (by omega) fun d hd => h d ?_
    rw [dropLast_append_of_ne_nil (cons_ne_nil c rest)]
    exact mem_append_left _ hd

theorem cosmwasm_reverse (hlen : hops.length ≤ 8) :
    cosmwasm.reverse (pathOf hops) = hops.reverse.foldlM cosmwasm.update 0 := by
  by_cases hne : hops = []
  · subst hne
    rfl
  · have hloop : ∀ fuel init c acc, init.length < 8 →
        (fun fuel path acc => (reverseLoop fuel path acc).toOption) (fuel + 1) (pathOf (init ++ [c])) acc =
        (cosmwasm.update acc c).bind fun acc => if pathOf init = 0 then some acc else
          (fun fuel path acc => (reverseLoop fuel path acc).toOption) fuel (pathOf init) acc := by
      intro fuel init c acc hinit
      simp only [reverseLoop, popChannelFromPath_pathOf hinit, pushHead, cosmwasm]
      cases updateChannelPath acc c with
      | error e => rfl
      | ok acc =>
        rw [ok_bind]
        show _ = if pathOf init = 0 then some acc else (reverseLoop fuel (pathOf init) acc).toOption
        split <;> rfl
    exact @loop_eq_foldlM hops cosmwasm.update
      (fun fuel path acc => (reverseLoop fuel path acc).toOption) hloop 8 hlen hlen hne 0

theorem cosmwasm_full (hlen : hops.length = 8) (c : ChannelId) :
    cosmwasm.update (pathOf hops) c = none := by
  rcases eq_nil_or_concat' hops with rfl | ⟨init, d, rfl⟩
  · cases hlen
  · simp only [length_append, length_singleton] at hlen
    have hslot : (pathOf (init ++ [d])).toNat.log2 / 32 = init.length := log2_pathOf (by omega)
    have hnext : bitLength (pathOf (init ++ [d])) / 32 + 1 > 7 := by
      unfold bitLength
      omega
    have hne : pathOf (init ++ [d]) ≠ 0 := pathOf_ne_zero (by simp; omega) (by simp)
    simp only [cosmwasm, updateChannelPath, if_neg hne, if_pos hnext]
    rfl

theorem cosmwasm_laws_iff (hlen : hops.length ≤ 8) :
    PathLaws cosmwasm hops ↔ hops.length ≤ 1 ∨ SmallIds hops := by
  have hlen' : hops.reverse.length ≤ 8 := by rwa [length_reverse]
  have hreverse : cosmwasm.reverse (pathOf hops) = some (pathOf hops.reverse) ↔ SmallIds hops.tail := by
    rw [cosmwasm_reverse hlen, cosmwasm_folds_iff hlen', dropLast_reverse]
    simp [SmallIds]
  constructor
  · intro h
    have hdrop := (cosmwasm_folds_iff hlen).mp h.folds
    have htail := hreverse.mp h.reverses
    match hops, hdrop, htail with
    | [], _, _ => exact .inl (Nat.zero_le 1)
    | [c], _, _ => exact .inl (le_refl 1)
    | c :: d :: rest, hdrop, htail =>
      right
      intro e he
      rcases List.mem_cons.mp he with rfl | he
      · exact hdrop e mem_cons_self
      · exact htail e he
  · intro h
    have hdrop : SmallIds hops.dropLast ∧ SmallIds hops.tail := by
      rcases h with hshort | hsmall
      · match hops, hshort with
        | [], _ => exact ⟨nofun, nofun⟩
        | [c], _ => exact ⟨nofun, nofun⟩
      · exact ⟨fun c hc => hsmall c (dropLast_subset hops hc), fun c hc => hsmall c (mem_of_mem_tail hc)⟩
    have hreversed := hreverse.mpr hdrop.2
    refine ⟨holds_pathOf hlen, (cosmwasm_folds_iff hlen).mpr hdrop.1, ?_, ?_, hreversed, ?_,
      fun hfull => cosmwasm_full hfull⟩
    · cases hops with
      | nil => rfl
      | cons c hops =>
        show (dequeueChannelFromPath (pathOf (c :: hops))).toOption = _
        rw [dequeueChannelFromPath_pathOf (by simpa using hlen)]
        rfl
    · rcases eq_nil_or_concat' hops with rfl | ⟨init, c, rfl⟩
      · rfl
      · have hlast : popChannelFromPath (pathOf (init ++ [c])) = (pathOf init, some c) :=
          popChannelFromPath_pathOf (by simp at hlen; omega)
        simp only [cosmwasm, hlast, dropLast_concat, getLast?_concat]
    · rw [hreversed]
      show cosmwasm.reverse (pathOf hops.reverse) = _
      rw [cosmwasm_reverse hlen', reverse_reverse]
      exact (cosmwasm_folds_iff hlen).mpr hdrop.1

/-! ## Both -/

/-- The path is empty or full, or does not end in an id with its top bit set. -/
def Agrees (path : U256) : Prop := path = 0 ∨ 2 ^ 224 ≤ path.toNat ∨ path.toNat.log2 % 32 ≠ 31

theorem slot_inj {path : U256} {i j : Nat} (hi : i ≤ 7) (hj : j ≤ 7)
    (hlti : path.toNat < 2 ^ (32 * i)) (hltj : path.toNat < 2 ^ (32 * j))
    (h : makePathFromChannel c i ||| path = makePathFromChannel c j ||| path) : i = j := by
  have hnat := congrArg BitVec.toNat h
  rw [BitVec.toNat_or, BitVec.toNat_or, makePathFromChannel_toNat c hi, makePathFromChannel_toNat c hj,
    Nat.mul_comm c.raw.get (2 ^ (32 * i)), Nat.mul_comm c.raw.get (2 ^ (32 * j)),
    ← Nat.two_pow_add_eq_or_of_lt hlti, ← Nat.two_pow_add_eq_or_of_lt hltj] at hnat
  have hpow := Nat.eq_of_mul_eq_mul_right c.raw.pos (Nat.add_right_cancel hnat)
  have hexp := Nat.pow_right_injective (le_refl 2) hpow
  omega

theorem update_agrees_iff (path : U256) (c : ChannelId) :
    cosmwasm.update path c = solidity.update path c ↔ Agrees path := by
  by_cases h0 : path = 0
  · subst h0
    have hboth : cosmwasm.update 0 c = solidity.update 0 c := by
      simp only [cosmwasm, solidity, updateChannelPath, Solidity.updateChannelPath, if_true, toUint32_toNat]
      rfl
    exact iff_of_true hboth (.inl rfl)
  · have hne : path.toNat ≠ 0 := fun h => h0 (BitVec.eq_of_toNat_eq h)
    have hlog : path.toNat.log2 < 256 := (Nat.log2_lt hne).mpr path.isLt
    have hlt : path.toNat < 2 ^ (path.toNat.log2 + 1) := Nat.lt_log2_self
    have hcosmwasm : cosmwasm.update path c = if (path.toNat.log2 + 1) / 32 + 1 > 7 then none
        else some (makePathFromChannel c ((path.toNat.log2 + 1) / 32 + 1) ||| path) := by
      have hbits : bitLength path = path.toNat.log2 + 1 := rfl
      rw [← hbits]
      simp only [cosmwasm, updateChannelPath, if_neg h0]
      by_cases hfull : bitLength path / 32 + 1 > 7
      · rw [if_pos hfull, if_pos hfull]
        rfl
      · rw [if_neg hfull, if_neg hfull]
        rfl
    have hsolidity : solidity.update path c = if path.toNat.log2 / 32 + 1 > 7 then none
        else some (makePathFromChannel c (path.toNat.log2 / 32 + 1) ||| path) := by
      simp only [solidity, Solidity.updateChannelPath, Solidity.fls, if_neg h0, toUint32_toNat]
      rfl
    have hfull : 2 ^ 224 ≤ path.toNat ↔ 224 ≤ path.toNat.log2 := (Nat.le_log2 hne).symm
    rw [hcosmwasm, hsolidity, Agrees, hfull]
    constructor
    · intro h
      by_contra hend
      have hsol : ¬ path.toNat.log2 / 32 + 1 > 7 := by omega
      rw [if_neg hsol] at h
      split at h
      · cases h
      · have hsame := slot_inj (by omega) (by omega)
          (lt_of_lt_of_le hlt (Nat.pow_le_pow_right (by decide) (by omega)))
          (lt_of_lt_of_le hlt (Nat.pow_le_pow_right (by decide) (by omega))) (Option.some.inj h)
        omega
    · rintro (h | h | h)
      · exact absurd h h0
      · rw [if_pos (by omega), if_pos (by omega)]
      · have hsame : (path.toNat.log2 + 1) / 32 = path.toNat.log2 / 32 := by omega
        rw [hsame]

/-- **The Solidity functions keep the laws on every list of at most eight ids, and the cosmwasm ones
exactly on those of at most one id, or in which no id has its top bit set.**  The two append alike
to exactly the paths that `Agrees` describes. -/
theorem path_laws_iff (hops : List ChannelId) (hlen : hops.length ≤ 8) :
    PathLaws solidity hops ∧ (PathLaws cosmwasm hops ↔ hops.length ≤ 1 ∨ SmallIds hops) ∧
      ∀ path c, cosmwasm.update path c = solidity.update path c ↔ Agrees path :=
  ⟨solidity_laws hlen, cosmwasm_laws_iff hlen, update_agrees_iff⟩

namespace Sample

def one : ChannelId := ⟨.one⟩

/-- An id with its top bit set. -/
def high : ChannelId := ⟨⟨2 ^ 31, by decide, by decide⟩⟩

end Sample

open Sample in
theorem path_laws_two :
    PathLaws solidity [high, one] ∧ ¬ PathLaws cosmwasm [high, one] ∧ PathLaws cosmwasm [one, one] := by
  obtain ⟨hsolidity, hcosmwasm, -⟩ := path_laws_iff [high, one] (by decide)
  obtain ⟨-, hsmall, -⟩ := path_laws_iff [one, one] (by decide)
  refine ⟨hsolidity, ?_, hsmall.mpr (.inr ?_)⟩
  · rw [hcosmwasm]
    rintro (h | h)
    · exact absurd h (by decide)
    · exact absurd (h high mem_cons_self) (by decide)
  · intro c hc
    have hone : c = one := by simpa using hc
    rw [hone]
    decide

open Sample in
/-- The id after one with its top bit set goes into the third slot; the Solidity contract puts it
    into the second. -/
theorem high_id_skips_slot : [high, one].foldlM cosmwasm.update 0 = some (1 <<< 64 ||| 1 <<< 31) ∧
      [high, one].foldlM solidity.update 0 = some (1 <<< 32 ||| 1 <<< 31) ∧
      ¬ Holds (1 <<< 64 ||| 1 <<< 31) [high, one] := by
  refine ⟨by decide, by decide, ?_⟩
  intro h
  have hslot := h.slots 1 (by decide)
  revert hslot
  decide

end UnionVoyager.Zkgm
