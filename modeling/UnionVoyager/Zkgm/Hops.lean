import UnionVoyager.Zkgm.Receive
import Mathlib.Data.Nat.Digits.Lemmas

/-!
# Paths as lists of hops

The functions on paths are functions on the lists of their hops, for channel ids without the top bit:
`update_channel_path` takes the slot above one whose top bit is set for taken too.

* `pathOf` — the word that packs a list of channel ids.
* `popChannelFromPath_update` — popping a path undoes the last update, whatever the ids.
* `dequeueChannelFromPath_pathOf`, `updateChannelPath_pathOf`, `reverseChannelPath_pathOf` — dequeuing is
  taking the head, updating is appending, reversing is reversing.
* `executeForward_hop` — what `execute_forward` sends on is one `hop` of the path.
* `travel` — the path a packet has when it has been forwarded to the end, hop by hop;
  `travel_pathOf` — **it is the forward path itself.**
-/

namespace UnionVoyager.Zkgm

open Lib List
open Core (ChannelId Timestamp)

/-! ## Packing -/

/-- The number whose 32-bit digits are the hops, the first hop lowest. -/
def pathValue (hops : List ChannelId) : Nat := Nat.ofDigits (2 ^ 32) (hops.map fun c => c.raw.get)

def pathOf (hops : List ChannelId) : U256 := BitVec.ofNat 256 (pathValue hops)

theorem pathValue_cons (c : ChannelId) (hops : List ChannelId) :
    pathValue (c :: hops) = c.raw.get + 2 ^ 32 * pathValue hops := by
  simp [pathValue, Nat.ofDigits_cons]

theorem pathValue_concat (hops : List ChannelId) (c : ChannelId) :
    pathValue (hops ++ [c]) = 2 ^ (32 * hops.length) * c.raw.get + pathValue hops := by
  simp only [pathValue, map_append, map_cons, map_nil, Nat.ofDigits_append,
    Nat.ofDigits_singleton, length_map, ← pow_mul]
  omega

theorem pathValue_lt (hops : List ChannelId) : pathValue hops < 2 ^ (32 * hops.length) := by
  have h : Nat.ofDigits (2 ^ 32) (hops.map fun c => c.raw.get) <
      (2 ^ 32) ^ (hops.map fun c => c.raw.get).length := by
    apply Nat.ofDigits_lt_base_pow_length (by decide)
    intro n hn
    obtain ⟨c, -, rfl⟩ := List.mem_map.mp hn
    exact c.raw.lt
  rwa [length_map, ← pow_mul] at h

variable {hops : List ChannelId}

theorem pathOf_toNat (h : hops.length ≤ 8) : (pathOf hops).toNat = pathValue hops := by
  have hlt : pathValue hops < 2 ^ 256 :=
    lt_of_lt_of_le (pathValue_lt hops) (Nat.pow_le_pow_right (by decide) (by omega))
  rw [pathOf, BitVec.toNat_ofNat, Nat.mod_eq_of_lt hlt]

theorem pathValue_pos (h : hops ≠ []) : 0 < pathValue hops := by
  cases hops with
  | nil => exact absurd rfl h
  | cons c hops =>
    have hc := c.raw.pos
    rw [pathValue_cons]
    omega

theorem pathOf_ne_zero (hlen : hops.length ≤ 8) (h : hops ≠ []) : pathOf hops ≠ 0 := by
  intro h0
  have hpos := pathValue_pos h
  rw [← pathOf_toNat hlen, h0] at hpos
  exact absurd hpos (by decide)

theorem fromRaw_get (c : ChannelId) : ChannelId.fromRaw c.raw.get = some c := by
  unfold ChannelId.fromRaw
  rw [dif_pos ⟨c.raw.pos, c.raw.lt⟩]

/-! ## One hop -/

theorem U32_MAX_toNat : U32_MAX.toNat = 2 ^ 32 - 1 := by decide

theorem slot_eq {v n c a : Nat} (hv : v = 2 ^ (32 * n) * c + a) (ha : a < 2 ^ (32 * n)) (hc : 0 < c)
    (hlt : c < 2 ^ 32) : v.log2 / 32 = n := by
  have hone : 2 ^ (32 * n) ≤ 2 ^ (32 * n) * c := Nat.le_mul_of_pos_right _ hc
  have hpos : v ≠ 0 := by
    have := Nat.two_pow_pos (32 * n)
    omega
  have hlow : 32 * n ≤ v.log2 := (Nat.le_log2 hpos).mpr (by omega)
  have hhigh : v.log2 < 32 * n + 32 := by
    rw [Nat.log2_lt hpos, pow_add]
    calc v < 2 ^ (32 * n) * c + 2 ^ (32 * n) := by omega
      _ = 2 ^ (32 * n) * (c + 1) := by ring
      _ ≤ 2 ^ (32 * n) * 2 ^ 32 := Nat.mul_le_mul_left _ hlt
  omega

variable {path : U256} {c : ChannelId}

/-- **Popping takes the last hop off.** -/
theorem popChannelFromPath_of_toNat {n a : Nat} (hpath : path.toNat = 2 ^ (32 * n) * c.raw.get + a)
    (ha : a < 2 ^ (32 * n)) : popChannelFromPath path = (BitVec.ofNat 256 a, some c) := by
  have hc := c.raw.lt
  have hslot := slot_eq hpath ha c.raw.pos hc
  have hne : path ≠ 0 := by
    rintro rfl
    have hpos := Nat.mul_pos (Nat.two_pow_pos (32 * n)) c.raw.pos
    have h0 : (0 : U256).toNat = 0 := rfl
    omega
  have hbits : (bitLength path - 1) / 32 = n := by
    rw [bitLength, Nat.add_sub_cancel]
    exact hslot
  have hlt256 := path.isLt
  unfold popChannelFromPath
  rw [if_neg hne]
  simp only [hbits, Prod.mk.injEq]
  constructor
  · apply BitVec.eq_of_getLsbD_eq
    intro i hi
    have hbit := Nat.testBit_two_pow_mul_add c.raw.get ha i
    have hmask : (U32_MAX <<< (n * 32)).getLsbD i = (decide (n * 32 ≤ i) && decide (i - n * 32 < 32)) := by
      rw [BitVec.getLsbD_shiftLeft, BitVec.getLsbD, U32_MAX_toNat, Nat.testBit_two_pow_sub_one]
      by_cases hle : n * 32 ≤ i <;> simp [hle, hi]
    simp only [BitVec.getLsbD_and, BitVec.getLsbD_not, hi, decide_true, Bool.true_and, hmask,
      BitVec.getLsbD_ofNat]
    rw [BitVec.getLsbD, hpath, hbit]
    by_cases hlow : i < 32 * n
    · have hnot : ¬ n * 32 ≤ i := by omega
      simp [hlow, hnot]
    · have hle : n * 32 ≤ i := by omega
      have hhigh : a.testBit i = false :=
        Nat.testBit_lt_two_pow (lt_of_lt_of_le ha (Nat.pow_le_pow_right (by decide) (by omega)))
      rw [if_neg hlow, hhigh]
      by_cases hin : i - n * 32 < 32
      · simp [hle, hin]
      · have hclear : c.raw.get.testBit (i - 32 * n) = false :=
          Nat.testBit_lt_two_pow (lt_of_lt_of_le hc (Nat.pow_le_pow_right (by decide) (by omega)))
        rw [hclear]
        rfl
  · rw [getChannelFromPath]
    have hchunk : (path >>> (32 * n) &&& U32_MAX).toNat = c.raw.get := by
      rw [BitVec.toNat_and, BitVec.toNat_ushiftRight, Nat.shiftRight_eq_div_pow, U32_MAX_toNat,
        Nat.and_two_pow_sub_one_eq_mod, hpath, Nat.mul_add_div (Nat.two_pow_pos _),
        Nat.div_eq_of_lt ha, Nat.add_zero, Nat.mod_eq_of_lt hc]
    rw [hchunk, fromRaw_get]

theorem updateChannelPath_toNat {next : U256} (h : updateChannelPath path c = .ok next) :
    ∃ n, path.toNat < 2 ^ (32 * n) ∧ next.toNat = 2 ^ (32 * n) * c.raw.get + path.toNat := by
  unfold updateChannelPath at h
  split at h
  · rename_i h0
    cases h
    have hc : c.raw.get < 2 ^ 256 := lt_trans c.raw.lt (by decide)
    refine ⟨0, by simp [h0], ?_⟩
    rw [BitVec.toNat_ofNat, Nat.mod_eq_of_lt hc]
    simp [h0]
  · dsimp only at h
    split at h
    · cases h
    · rename_i hfull
      cases h
      have hlt : path.toNat < 2 ^ (32 * (bitLength path / 32 + 1)) := by
        have hlog : path.toNat < 2 ^ bitLength path := Nat.lt_log2_self
        exact lt_of_lt_of_le hlog (Nat.pow_le_pow_right (by decide) (by omega))
      refine ⟨bitLength path / 32 + 1, hlt, ?_⟩
      rw [BitVec.toNat_or, makePathFromChannel_toNat c (by omega), Nat.mul_comm,
        Nat.two_pow_add_eq_or_of_lt hlt]

theorem popChannelFromPath_update {next : U256} (h : updateChannelPath path c = .ok next) :
    popChannelFromPath next = (path, some c) := by
  obtain ⟨n, hlt, hnext⟩ := updateChannelPath_toNat h
  rw [popChannelFromPath_of_toNat hnext hlt, BitVec.ofNat_toNat, BitVec.setWidth_eq]

theorem popChannelFromPath_pathOf (hlen : hops.length < 8) :
    popChannelFromPath (pathOf (hops ++ [c])) = (pathOf hops, some c) := by
  refine popChannelFromPath_of_toNat ?_ (pathValue_lt hops)
  rw [pathOf_toNat (by simp; omega), pathValue_concat]

/-- No channel id has its top bit set. -/
def SmallIds (hops : List ChannelId) : Prop := ∀ c ∈ hops, c.raw.get < 2 ^ 31

theorem updateChannelPath_concat {init : List ChannelId} {d : ChannelId} (hlen : init.length + 1 < 8)
    (hd : d.raw.get < 2 ^ 31) : updateChannelPath (pathOf (init ++ [d])) c =
      .ok (pathOf (init ++ [d] ++ [c])) := by
  have hinit := pathValue_lt init
  have hvalue : (pathOf (init ++ [d])).toNat = 2 ^ (32 * init.length) * d.raw.get + pathValue init := by
    rw [pathOf_toNat (by simp; omega), pathValue_concat]
  -- the top bit of the last hop is clear, so its slot is the one the length names
  have hslot : bitLength (pathOf (init ++ [d])) / 32 = init.length := by
    have hlow := slot_eq hvalue hinit d.raw.pos d.raw.lt
    have hne : (pathOf (init ++ [d])).toNat ≠ 0 := by
      have := Nat.mul_pos (Nat.two_pow_pos (32 * init.length)) d.raw.pos
      omega
    have hhigh : (pathOf (init ++ [d])).toNat.log2 < 32 * init.length + 31 := by
      rw [Nat.log2_lt hne, pow_add, hvalue]
      calc 2 ^ (32 * init.length) * d.raw.get + pathValue init
          < 2 ^ (32 * init.length) * (d.raw.get + 1) := by
            rw [Nat.mul_add]
            omega
        _ ≤ 2 ^ (32 * init.length) * 2 ^ 31 := Nat.mul_le_mul_left _ hd
    unfold bitLength
    omega
  unfold updateChannelPath
  rw [if_neg (pathOf_ne_zero (by simp; omega) (by simp))]
  simp only [hslot]
  rw [if_neg (by omega)]
  congr 1
  apply BitVec.eq_of_toNat_eq
  have hlt : (pathOf (init ++ [d])).toNat < 2 ^ (32 * (init.length + 1)) := by
    rw [pathOf_toNat (by simp; omega)]
    simpa using pathValue_lt (init ++ [d])
  rw [BitVec.toNat_or, makePathFromChannel_toNat c (by omega), Nat.mul_comm,
    ← Nat.two_pow_add_eq_or_of_lt hlt, pathOf_toNat (by simp; omega), pathOf_toNat (by simp; omega),
    pathValue_concat (init ++ [d])]
  simp

theorem updateChannelPath_pathOf (hlen : hops.length < 8) (hsmall : SmallIds hops) :
    updateChannelPath (pathOf hops) c = .ok (pathOf (hops ++ [c])) := by
  rcases eq_nil_or_concat' hops with rfl | ⟨init, d, rfl⟩
  · simp [updateChannelPath, pathOf, pathValue]
  · exact updateChannelPath_concat (by simpa using hlen) (hsmall d (by simp))

theorem dequeueChannelFromPath_pathOf (hlen : hops.length < 8) :
    dequeueChannelFromPath (pathOf (c :: hops)) = .ok (pathOf hops, some c) := by
  have hc := c.raw.lt
  have hvalue : (pathOf (c :: hops)).toNat = c.raw.get + 2 ^ 32 * pathValue hops := by
    rw [pathOf_toNat (by simp; omega), pathValue_cons]
  have hhead : (pathOf (c :: hops) &&& U32_MAX).toNat = c.raw.get := by
    rw [BitVec.toNat_and, U32_MAX_toNat, Nat.and_two_pow_sub_one_eq_mod, hvalue]
    omega
  have htail : pathOf (c :: hops) >>> 32 = pathOf hops := by
    apply BitVec.eq_of_toNat_eq
    rw [BitVec.toNat_ushiftRight, Nat.shiftRight_eq_div_pow, hvalue, pathOf_toNat (by omega)]
    omega
  unfold dequeueChannelFromPath
  rw [if_neg (pathOf_ne_zero (by simp; omega) (by simp)), hhead, fromRaw_get, htail]
  rfl

/-! ## Reversing -/

theorem reverseLoop_pathOf : ∀ {fuel : Nat} {hops acc : List ChannelId}, hops ≠ [] →
    hops.length ≤ fuel → acc.length + hops.length ≤ 8 → SmallIds acc → SmallIds hops →
    reverseLoop fuel (pathOf hops) (pathOf acc) = .ok (pathOf (acc ++ hops.reverse))
  | 0, hops, acc, hne, hfuel, _, _, _ => absurd (List.length_eq_zero_iff.mp (by omega)) hne
  | fuel + 1, hops, acc, hne, hfuel, hlen, hacc, hsmall => by
    rcases eq_nil_or_concat' hops with rfl | ⟨init, c, rfl⟩
    · exact absurd rfl hne
    · simp only [length_append, length_singleton] at hfuel hlen
      simp only [reverseLoop, @popChannelFromPath_pathOf init c (by omega), pushHead,
        @updateChannelPath_pathOf acc c (by omega) hacc, ok_bind]
      by_cases hinit : init = []
      · subst hinit
        simp [pathOf, pathValue, pure, Except.pure]
      · rw [if_neg (pathOf_ne_zero (by omega) hinit)]
        have hrec := @reverseLoop_pathOf fuel init (acc ++ [c]) hinit (by omega)
          (by simp; omega)
          (by
            intro d hd
            rcases List.mem_append.mp hd with hd | hd
            · exact hacc d hd
            · exact hsmall d (mem_append_right _ hd))
          (fun d hd => hsmall d (mem_append_left _ hd))
        rw [hrec]
        simp

theorem reverseChannelPath_pathOf (hlen : hops.length ≤ 8) (hsmall : SmallIds hops) :
    reverseChannelPath (pathOf hops) = .ok (pathOf hops.reverse) := by
  by_cases hne : hops = []
  · subst hne
    rfl
  · exact @reverseLoop_pathOf 8 hops [] hne hlen (by simpa using hlen) (by intro c hc; cases hc) hsmall

/-! ## Forwarding -/

/-- What one hop makes of the forward path and of the packet's path: two channels, where the packet came
    in and where it goes out, move from the one to the other. -/
def hop (forwardPath path : U256) : Result (U256 × U256) := do
  let (tailPath, previous) ← dequeueChannelFromPath forwardPath
  let previousDestinationChannelId ← okOr previous .missingForwardSourceChannelId
  let (continuationPath, next) ← dequeueChannelFromPath tailPath
  let nextSourceChannelId ← okOr next .missingForwardSourceChannelId
  let path ← updateChannelPath path previousDestinationChannelId
  let path ← updateChannelPath path nextSourceChannelId
  pure (continuationPath, path)

/-- The path of the packet when nothing of the forward path is left. -/
def travel : Nat → U256 → U256 → Result U256
  | 0, _, _ => .error .outOfFuel
  | fuel + 1, forwardPath, path =>
    if forwardPath = 0 then
      .ok path
    else do
      let (forwardPath, path) ← hop forwardPath path
      travel fuel forwardPath path

theorem executeForward_hop {env : Env} {x : Execution} {salt forwardPath : U256} {t : Timestamp}
    {i : Instruction} {s s' : State} {funds funds' : Coins} {r : Response} (hi : x.intent = false)
    (h : executeForward env x salt forwardPath t i s funds = .ok (s', funds', r)) :
    ∃ rest path source salt', hop forwardPath x.path = .ok (rest, path) ∧
      r = [⟨.packetSend ⟨source, t, .zkgm ⟨salt', path, if rest = 0 then i else
        .mk INSTR_VERSION_0 OP_FORWARD (.forward rest 0 t i)⟩⟩, some (.success, .forward)⟩,
        writeAck (.raw [])] := by
  simp only [executeForward, bind_eq_ok, require_eq_ok, hi, Bool.false_eq_true, if_false] at h
  obtain ⟨_, -, ⟨tail, prev⟩, htail, previous, hprev, ⟨rest, next⟩, hrest, source, hsource, _, -, path,
    hpath, nextPath, hnext, h⟩ := h
  cases h
  refine ⟨rest, nextPath, source, _, ?_, rfl⟩
  rw [okOr_eq_ok] at hprev hsource
  subst hprev
  subst hsource
  simp only [hop, htail, hrest, ok_bind, okOr, orErr, hpath, hnext]
  rfl

theorem hop_pathOf {a b : ChannelId} {acc : List ChannelId}
    (hlen : acc.length + (hops.length + 2) ≤ 8) (hacc : SmallIds acc) (ha : a.raw.get < 2 ^ 31) :
    hop (pathOf (a :: b :: hops)) (pathOf acc) = .ok (pathOf hops, pathOf (acc ++ [a, b])) := by
  have hsmall : SmallIds (acc ++ [a]) := by
    intro c hc
    rcases List.mem_append.mp hc with hc | hc
    · exact hacc c hc
    · rw [List.mem_singleton.mp hc]
      exact ha
  have hfirst := @dequeueChannelFromPath_pathOf (b :: hops) a (by simp; omega)
  have hsecond := @dequeueChannelFromPath_pathOf hops b (by omega)
  have hup := @updateChannelPath_pathOf acc a (by omega) hacc
  have hup' := @updateChannelPath_pathOf (acc ++ [a]) b (by simp; omega) hsmall
  simp only [hop, hfirst, hsecond, ok_bind, okOr, orErr, hup, hup', append_assoc, singleton_append]
  rfl

theorem travel_append : ∀ {fuel n : Nat} {hops acc : List ChannelId}, hops.length = 2 * n → n < fuel →
    acc.length + hops.length ≤ 8 → SmallIds acc → SmallIds hops →
    travel fuel (pathOf hops) (pathOf acc) = .ok (pathOf (acc ++ hops))
  | 0, n, hops, acc, _, hfuel, _, _, _ => absurd hfuel (Nat.not_lt_zero n)
  | fuel + 1, n, [], acc, _, _, _, _, _ => by
    have h0 : pathOf [] = 0 := rfl
    simp [travel, h0]
  | fuel + 1, n, [a], acc, hn, _, _, _, _ => by
    simp only [length_singleton] at hn
    omega
  | fuel + 1, n, a :: b :: hops, acc, hn, hfuel, hlen, hacc, hsmall => by
    simp only [length_cons] at hn hlen
    have ha : a.raw.get < 2 ^ 31 := hsmall a (by simp)
    have hb : b.raw.get < 2 ^ 31 := hsmall b (by simp)
    have hacc' : SmallIds (acc ++ [a, b]) := by
      intro c hc
      simp only [mem_append, mem_cons, not_mem_nil, or_false] at hc
      rcases hc with hc | rfl | rfl
      · exact hacc c hc
      · exact ha
      · exact hb
    have hrest := @travel_append fuel (n - 1) hops (acc ++ [a, b]) (by omega) (by omega) (by simp; omega)
      hacc' (fun c hc => hsmall c (by simp [hc]))
    have hne : pathOf (a :: b :: hops) ≠ 0 := pathOf_ne_zero (by simp; omega) (by simp)
    simp only [travel, if_neg hne, hop_pathOf (by omega) hacc ha, ok_bind, hrest]
    simp

theorem travel_pathOf (heven : Even hops.length) (hlen : hops.length ≤ 8) (hsmall : SmallIds hops) :
    travel 5 (pathOf hops) 0 = .ok (pathOf hops) := by
  obtain ⟨n, hn⟩ := heven
  exact @travel_append 5 n hops [] (by omega) (by omega) (by simpa using hlen)
    (by intro c hc; cases hc) hsmall

end UnionVoyager.Zkgm
