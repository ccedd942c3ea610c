import UnionVoyager.Lib.Bits
import UnionVoyager.Zkgm.Ideal
import UnionVoyager.Zkgm.PathLaws

/-!
# The route of a forwarded packet

`execute_forward` takes two ids off the low end of the forward path, which the sender chose, and
appends them to the path of the packet.  It panics on a path with a zero slot below one that is not
zero, and the path it accumulates skips a slot after an id with its top bit set.

* `hopLaw_iff` — when one hop does what it should.
* `travel_of_run` — what the contracts make of the path in a run of hops is `travel`.
-/

namespace UnionVoyager.Zkgm

open Lib
open Core (ChannelId Timestamp Addr)

/-! ## Appending an id -/

/-- The slots up to the last that is not zero. -/
def width (path : U256) : Nat := if path = 0 then 0 else path.toNat.log2 / 32 + 1

/-- `path ++ [c]`. -/
def appended (path : U256) (c : ChannelId) : U256 := makePathFromChannel c (width path) ||| path

/-- The slot in which `update_channel_path` puts the next id. -/
def nextSlot (path : U256) : Nat := if path = 0 then 0 else bitLength path / 32 + 1

/-- The path does not end in an id with its top bit set. -/
def TopFree (path : U256) : Prop := path = 0 ∨ path.toNat.log2 % 32 ≠ 31

variable {path out : U256}

theorem toNat_ne_zero (h : path ≠ 0) : path.toNat ≠ 0 := fun h0 => h (BitVec.eq_of_toNat_eq h0)

theorem nextSlot_cases (path : U256) :
    TopFree path ∧ nextSlot path = width path ∨ ¬ TopFree path ∧ nextSlot path = width path + 1 := by
  unfold TopFree nextSlot width bitLength
  by_cases h0 : path = 0
  · exact .inl ⟨.inl h0, by rw [if_pos h0, if_pos h0]⟩
  · rw [if_neg h0, if_neg h0]
    by_cases htop : path.toNat.log2 % 32 = 31
    · exact .inr ⟨by tauto, by omega⟩
    · exact .inl ⟨.inr htop, by omega⟩

theorem lt_width (path : U256) : path.toNat < 2 ^ (32 * width path) := by
  unfold width
  by_cases h0 : path = 0
  · rw [if_pos h0, h0]
    decide
  · rw [if_neg h0]
    exact lt_of_lt_of_le Nat.lt_log2_self (Nat.pow_le_pow_right (by decide) (by omega))

theorem lt_nextSlot (path : U256) : path.toNat < 2 ^ (32 * nextSlot path) := by
  refine lt_of_lt_of_le (lt_width path) (Nat.pow_le_pow_right (by decide) ?_)
  rcases nextSlot_cases path with ⟨-, hslot⟩ | ⟨-, hslot⟩ <;> omega

theorem updateChannelPath_eq (path : U256) (c : ChannelId) :
    updateChannelPath path c = if nextSlot path >
      7 then .error (.err (.channelPathIsFull path (nextSlot path)))
      else .ok (makePathFromChannel c (nextSlot path) ||| path) := by
  unfold updateChannelPath nextSlot
  by_cases h0 : path = 0
  · subst h0
    simp [makePathFromChannel]
  · simp only [if_neg h0]

variable {c first second : ChannelId}

theorem updateChannelPath_eq_ok {next : U256} : updateChannelPath path c = .ok next ↔
      nextSlot path ≤ 7 ∧ next = makePathFromChannel c (nextSlot path) ||| path := by
  rw [updateChannelPath_eq]
  split
  · next hfull => exact iff_of_false nofun (by omega)
  · next hroom =>
    rw [Except.ok.injEq, eq_comm]
    exact ⟨fun h => ⟨by omega, h⟩, fun h => h.2⟩

variable {n : Nat}

theorem slotted_toNat (c : ChannelId) (hn : n ≤ 7) (hlt : path.toNat < 2 ^ (32 * n)) :
    (makePathFromChannel c n ||| path).toNat = 2 ^ (32 * n) * c.raw.get + path.toNat := by
  rw [BitVec.toNat_or, makePathFromChannel_toNat c hn, Nat.mul_comm, Nat.two_pow_add_eq_or_of_lt hlt]

theorem log2_slot {d a : Nat} (ha : a < 2 ^ n) (hd : 0 < d) : (2 ^ n * d + a).log2 = n + d.log2 := by
  have hbounds := (Nat.log2_eq_iff (Nat.pos_iff_ne_zero.mp hd)).mp rfl
  have hpos := Nat.mul_pos (Nat.two_pow_pos n) hd
  rw [Nat.log2_eq_iff (by omega), Nat.add_assoc, Nat.pow_add, Nat.pow_add 2 n]
  constructor
  · exact Nat.le_add_right_of_le (Nat.mul_le_mul_left _ hbounds.1)
  · calc 2 ^ n * d + a < 2 ^ n * (d + 1) := by
          rw [Nat.mul_succ]
          omega
      _ ≤ 2 ^ n * 2 ^ (d.log2 + 1) := Nat.mul_le_mul_left _ hbounds.2

theorem top_iff (c : ChannelId) : c.raw.get.log2 % 32 ≠ 31 ↔ c.raw.get < 2 ^ 31 := by
  have hne := Nat.pos_iff_ne_zero.mp c.raw.pos
  have hlt : c.raw.get.log2 < 32 := (Nat.log2_lt hne).mpr c.raw.lt
  have hsmall : c.raw.get.log2 < 31 ↔ c.raw.get < 2 ^ 31 := Nat.log2_lt hne
  omega

/-- What is known of a path whose last id is in slot `n`. -/
structure EndsIn (path : U256) (n : Nat) (c : ChannelId) : Prop where
  width_eq : width path = n + 1
  topFree_iff : TopFree path ↔ c.raw.get < 2 ^ 31

theorem endsIn_slotted (c : ChannelId) (hn : n ≤ 7) (hlt : path.toNat < 2 ^ (32 * n)) :
    EndsIn (makePathFromChannel c n ||| path) n c := by
  have htoNat := slotted_toNat c hn hlt
  have hlog := log2_slot hlt c.raw.pos
  have hpos := Nat.mul_pos (Nat.two_pow_pos (32 * n)) c.raw.pos
  have hne : makePathFromChannel c n ||| path ≠ 0 := by
    intro h0
    rw [h0] at htoNat
    have hzero : (0 : U256).toNat = 0 := rfl
    omega
  have hid : c.raw.get.log2 < 32 := (Nat.log2_lt (Nat.pos_iff_ne_zero.mp c.raw.pos)).mpr c.raw.lt
  constructor
  · rw [width, if_neg hne, htoNat, hlog]
    omega
  · rw [← top_iff, TopFree, or_iff_right hne, htoNat, hlog, Nat.mul_add_mod]

theorem popChannelFromPath_slotted (c : ChannelId) (hn : n ≤ 7) (hlt : path.toNat < 2 ^ (32 * n)) :
    popChannelFromPath (makePathFromChannel c n ||| path) = (path, some c) := by
  rw [popChannelFromPath_of_toNat (slotted_toNat c hn hlt) hlt, BitVec.ofNat_toNat, BitVec.setWidth_eq]

/-! ## Appending two -/

def Room (path : U256) (first : ChannelId) : Prop :=
    nextSlot path + (if first.raw.get < 2 ^ 31 then 1 else 2) ≤ 7

theorem nextSlot_slotted (c : ChannelId) (hn : n ≤ 7) (hlt : path.toNat < 2 ^ (32 * n)) :
    nextSlot (makePathFromChannel c n ||| path) = n + (if c.raw.get < 2 ^ 31 then 1 else 2) := by
  have hends := endsIn_slotted c hn hlt
  have hwidth := hends.width_eq
  rcases nextSlot_cases (makePathFromChannel c n ||| path) with ⟨hfree, hslot⟩ | ⟨hfree, hslot⟩ <;>
    rw [hends.topFree_iff] at hfree
  · rw [if_pos hfree]
    omega
  · rw [if_neg hfree]
    omega

theorem updates_eq_ok : (updateChannelPath path first).bind
      (fun path => updateChannelPath path second) = .ok out ↔
      Room path first ∧ out = makePathFromChannel second
        (nextSlot path + (if first.raw.get < 2 ^ 31 then 1 else 2)) |||
        (makePathFromChannel first (nextSlot path) ||| path) := by
  unfold Room
  rw [updateChannelPath_eq]
  by_cases hroom : nextSlot path > 7
  · rw [if_pos hroom]
    exact iff_of_false nofun (fun h => absurd h.1 (by split <;> omega))
  · rw [if_neg hroom, Except.bind, updateChannelPath_eq_ok,
      nextSlot_slotted first (by omega) (lt_nextSlot path)]

/-- **The two ids are in the two slots after the path exactly when neither slot before them ends in
    a top bit.** -/
theorem updates_appended_iff
    (h : (updateChannelPath path first).bind (fun path => updateChannelPath path second) = .ok out) :
    out = appended (appended path first) second ↔ TopFree path ∧ first.raw.get < 2 ^ 31 := by
  obtain ⟨hroom, rfl⟩ := updates_eq_ok.mp h
  have hlt := lt_nextSlot path
  have hltWidth := lt_width path
  unfold Room at hroom
  set gap := if first.raw.get < 2 ^ 31 then 1 else 2 with hgap
  have hgap1 : 1 ≤ gap := by
    rw [hgap]
    split <;> omega
  have hslots := nextSlot_cases path
  have hends := endsIn_slotted first (show width path ≤ 7 by omega) hltWidth
  have hsecondWidth : width (appended path first) = width path + 1 := hends.width_eq
  have hinner : (makePathFromChannel first (nextSlot path) ||| path).toNat <
      2 ^ (32 * (nextSlot path + gap)) := by
    have hwidth' := (endsIn_slotted first (show nextSlot path ≤ 7 by omega) hlt).width_eq
    have hbound := lt_width (makePathFromChannel first (nextSlot path) ||| path)
    rw [hwidth'] at hbound
    exact lt_of_lt_of_le hbound (Nat.pow_le_pow_right (by decide) (by omega))
  constructor
  · intro heq
    -- popping both words twice takes the same ids off
    have hpop := congrArg popChannelFromPath heq
    have hright : popChannelFromPath (appended (appended path first) second) =
        (appended path first, some second) := by
      refine popChannelFromPath_slotted second ?_ (lt_width _)
      omega
    rw [popChannelFromPath_slotted second hroom hinner, hright, Prod.mk.injEq] at hpop
    have hfirst : nextSlot path = width path := slot_inj (by omega) (by omega) hlt hltWidth hpop.1
    have hsame : makePathFromChannel second (nextSlot path + gap) ||| appended path first =
        makePathFromChannel second (width (appended path first)) ||| appended path first := by
      rw [hpop.1] at heq
      exact heq
    rw [hpop.1] at hinner
    have hsecond := slot_inj hroom (by omega) hinner (lt_width _) hsame
    refine ⟨?_, ?_⟩
    · rcases hslots with ⟨hfree, -⟩ | ⟨-, hslot⟩
      · exact hfree
      · omega
    · by_contra hbig
      rw [if_neg hbig] at hgap
      omega
  · rintro ⟨hfree, hsmall⟩
    rw [if_pos hsmall] at hgap
    have hfirst : nextSlot path = width path := by
      rcases hslots with ⟨-, hslot⟩ | ⟨hnot, -⟩
      · exact hslot
      · exact absurd hfree hnot
    show _ = makePathFromChannel second (width (appended path first)) ||| appended path first
    rw [hsecondWidth, hgap, hfirst, appended]

theorem updates_cases (path : U256) (first second : ChannelId) :
    (Room path first ∧ ∃ mid out, updateChannelPath path first = .ok mid ∧
      updateChannelPath mid second = .ok out) ∨
      ¬ Room path first ∧ ((∃ e, updateChannelPath path first = .error (.err e)) ∨
        ∃ mid e, updateChannelPath path first = .ok mid ∧
          updateChannelPath mid second = .error (.err e)) := by
  unfold Room
  by_cases hfull : nextSlot path > 7
  · refine .inr ⟨by split <;> omega, .inl ⟨.channelPathIsFull path (nextSlot path), ?_⟩⟩
    rw [updateChannelPath_eq, if_pos hfull]
  · have hmid : updateChannelPath path first = .ok (makePathFromChannel first (nextSlot path) ||| path) := by
      rw [updateChannelPath_eq, if_neg hfull]
    have hnext := nextSlot_slotted first (show nextSlot path ≤ 7 by omega) (lt_nextSlot path)
    have hsecond := updateChannelPath_eq (makePathFromChannel first (nextSlot path) ||| path) second
    rw [hnext] at hsecond
    by_cases hroom : nextSlot path + (if first.raw.get < 2 ^ 31 then 1 else 2) ≤ 7
    · rw [if_neg (by omega)] at hsecond
      exact .inl ⟨hroom, _, _, hmid, hsecond⟩
    · rw [if_pos (by omega)] at hsecond
      exact .inr ⟨hroom, .inr ⟨_, _, hmid, hsecond⟩⟩

/-! ## Taking two ids off -/

/-- The id in a slot, zero if there is none. -/
def slot (path : U256) (i : Nat) : Nat := path.toNat / 2 ^ (32 * i) % 2 ^ 32

theorem slot_zero (path : U256) : (path &&& U32_MAX).toNat = slot path 0 := by
  rw [BitVec.toNat_and, U32_MAX_toNat, Nat.and_two_pow_sub_one_eq_mod, slot, Nat.mul_zero,
    Nat.pow_zero, Nat.div_one]

theorem slot_shiftRight (path : U256) (i : Nat) : slot (path >>> 32) i = slot path (i + 1) := by
  have hexp : 32 * (i + 1) = 32 + 32 * i := by omega
  rw [slot, slot, BitVec.toNat_ushiftRight, Nat.shiftRight_eq_div_pow, Nat.div_div_eq_div_mul, ←
    pow_add, hexp]

/-- **Dequeuing panics on a zero slot below one that is not.** -/
theorem dequeueChannelFromPath_cases (path : U256) : path = 0 ∧ dequeueChannelFromPath path = .ok (0, none) ∨
      path ≠ 0 ∧ slot path 0 = 0 ∧
        dequeueChannelFromPath path = .error (.panic "value is > 0 as path is > 0; qed;") ∨
      path ≠ 0 ∧ ∃ c : ChannelId, slot path 0 = c.raw.get ∧
        dequeueChannelFromPath path = .ok (path >>> 32, some c) := by
  unfold dequeueChannelFromPath
  by_cases h0 : path = 0
  · exact .inl ⟨h0, if_pos h0⟩
  · rw [if_neg h0, slot_zero]
    unfold ChannelId.fromRaw
    have hlt : slot path 0 < 2 ^ 32 := Nat.mod_lt _ (by decide)
    by_cases hslot : slot path 0 = 0
    · refine .inr (.inl ⟨h0, hslot, ?_⟩)
      rw [dif_neg (by omega)]
      rfl
    · have hpos : 0 < slot path 0 ∧ slot path 0 < 2 ^ 32 := ⟨by omega, hlt⟩
      refine .inr (.inr ⟨h0, ⟨⟨slot path 0, hpos.1, hpos.2⟩⟩, rfl, ?_⟩)
      rw [dif_pos hpos]
      rfl

theorem dequeueChannelFromPath_eq_ok {tail : U256} :
    dequeueChannelFromPath path = .ok (tail, some c) ↔ slot path 0 = c.raw.get ∧ tail = path >>> 32 := by
  have hpos := c.raw.pos
  rcases dequeueChannelFromPath_cases path with ⟨rfl, h⟩ | ⟨-, hzero, h⟩ | ⟨-, d, hd, h⟩ <;> rw [h]
  · refine iff_of_false nofun (fun hc => ?_)
    have hzero : slot 0 0 = 0 := rfl
    omega
  · exact iff_of_false nofun (by omega)
  · simp only [Except.ok.injEq, Prod.mk.injEq, Option.some.injEq, hd]
    constructor
    · rintro ⟨rfl, rfl⟩
      exact ⟨rfl, rfl⟩
    · rintro ⟨hget, rfl⟩
      refine ⟨rfl, ?_⟩
      obtain ⟨⟨n, h1, h2⟩⟩ := d
      obtain ⟨⟨m, h3, h4⟩⟩ := c
      cases hget
      rfl

theorem toNat_slot (path : U256) : path.toNat = slot path 0 + 2 ^ 32 * (path >>> 32).toNat := by
  rw [slot, BitVec.toNat_ushiftRight, Nat.shiftRight_eq_div_pow, Nat.mul_zero, Nat.pow_zero, Nat.div_one]
  omega

theorem isList_cons_iff (hslot : slot path 0 = c.raw.get) (hops : List ChannelId) :
    hops.length ≤ 7 ∧ path >>> 32 = pathOf hops ↔ hops.length ≤ 7 ∧ path = pathOf (c :: hops) := by
  constructor
  · rintro ⟨hlen, htail⟩
    refine ⟨hlen, BitVec.eq_of_toNat_eq ?_⟩
    rw [toNat_slot path, hslot, htail, pathOf_toNat (by omega), pathOf_toNat (by simp; omega), pathValue_cons]
  · rintro ⟨hlen, rfl⟩
    have hlong : (c :: hops).length ≤ 8 := Nat.succ_le_succ hlen
    exact ⟨hlen, pathOf_shiftRight hlong 1⟩

/-! ## One hop -/

section hop

variable (env : Env) (x : Execution) (salt forwardPath : U256) (timeout : Timestamp)
  (instruction : Instruction) (s : State) (funds : Coins)

/-- What a hop should do: never panic, and unless a maker fills the packet, send it on with the two
    channels moved from the forward path to its own. -/
structure HopLaw : Prop where
  noPanic : ∀ site, executeForward env x salt forwardPath timeout instruction s funds ≠ .error (.panic site)
  routes : x.intent = false → ∀ s' funds' r,
    executeForward env x salt forwardPath timeout instruction s funds = .ok (s', funds', r) →
      ∃ next rest, rest.length ≤ 6 ∧ forwardPath = pathOf (x.packet.destinationChannelId :: next :: rest) ∧
        r = [⟨.packetSend ⟨next, timeout, .zkgm ⟨deriveForwardSalt env.hashing salt,
            appended (appended x.path x.packet.destinationChannelId) next,
            if rest = [] then instruction
            else .mk INSTR_VERSION_0 OP_FORWARD (.forward (pathOf rest) 0 timeout instruction)⟩⟩,
          some (.success, .forward)⟩, writeAck (.raw [])]

/-- No zero slot among the first two below one that is not; and where the packet is due here and its
    path has room, the rest of the forward path is a list of ids, and neither the path nor the
    channel ends in a top bit. -/
structure HopFits (path : U256) (destination : ChannelId) : Prop where
  first : forwardPath ≠ 0 → slot forwardPath 0 ≠ 0
  second : forwardPath >>> 32 ≠ 0 → slot forwardPath 1 ≠ 0
  due : slot forwardPath 0 = destination.raw.get → forwardPath >>> 32 ≠ 0 → Room path destination →
    (∃ rest : List ChannelId, rest.length ≤ 6 ∧ forwardPath >>> 64 = pathOf rest) ∧ TopFree path ∧
      destination.raw.get < 2 ^ 31

theorem executeForward_intent (hintent : x.intent = true) :
    executeForward env x salt forwardPath timeout instruction s funds =
      .error (.err .invalidForwardInstruction) ∨
    executeForward env x salt forwardPath timeout instruction s funds =
      .ok (s, funds, [writeAck (.raw ACK_ERR_ONLY_MAKER)]) := by
  unfold executeForward
  by_cases hallowed : isAllowedForwardInstruction instruction.opcode = true
  · right
    simp only [require, ensure, hallowed, hintent, if_true, ok_bind]
    rfl
  · left
    simp only [require, ensure, hallowed]
    rfl

theorem executeForward_refused (hallowed : isAllowedForwardInstruction instruction.opcode ≠ true) :
    executeForward env x salt forwardPath timeout instruction s funds =
      .error (.err .invalidForwardInstruction) := by
  unfold executeForward
  simp only [require, ensure, hallowed]
  rfl

theorem executeForward_cases (hallowed : isAllowedForwardInstruction instruction.opcode = true)
    (hintent : x.intent = false) :
    (∃ site, executeForward env x salt forwardPath timeout instruction s funds = .error (.panic site) ∧
      (forwardPath ≠ 0 ∧ slot forwardPath 0 = 0 ∨ forwardPath >>> 32 ≠ 0 ∧ slot forwardPath 1 = 0)) ∨
    ((forwardPath ≠ 0 → slot forwardPath 0 ≠ 0) ∧ (forwardPath >>> 32 ≠ 0 → slot forwardPath 1 ≠ 0)) ∧
      ((∃ e, executeForward env x salt forwardPath timeout instruction s funds = .error (.err e) ∧
        ¬ (slot forwardPath 0 = x.packet.destinationChannelId.raw.get ∧ forwardPath >>> 32 ≠ 0 ∧
          Room x.path x.packet.destinationChannelId)) ∨
      ∃ next path, slot forwardPath 0 = x.packet.destinationChannelId.raw.get ∧
        slot forwardPath 1 = next.raw.get ∧
        forwardPath >>> 32 ≠ 0 ∧ Room x.path x.packet.destinationChannelId ∧
        (updateChannelPath x.path x.packet.destinationChannelId).bind
          (fun path => updateChannelPath path next) = .ok path ∧
        executeForward env x salt forwardPath timeout instruction s funds =
          .ok (s, funds, [⟨.packetSend ⟨next, timeout, .zkgm ⟨deriveForwardSalt env.hashing salt, path,
              if forwardPath >>> 64 = 0 then instruction
              else .mk INSTR_VERSION_0 OP_FORWARD (.forward (forwardPath >>> 64) 0 timeout instruction)⟩⟩,
            some (.success, .forward)⟩, writeAck (.raw [])])) := by
  have hpast : forwardPath >>> 32 >>> 32 = forwardPath >>> 64 := by
    rw [← BitVec.shiftRight_add]
  have hsecondSlot : slot (forwardPath >>> 32) 0 = slot forwardPath 1 := slot_shiftRight forwardPath 0
  have hshifted : forwardPath = 0 → forwardPath >>> 32 = 0 := by
    rintro rfl
    rfl
  unfold executeForward
  simp only [require, ensure, hallowed, hintent, if_true, ok_bind, Bool.false_eq_true, if_false]
  rcases dequeueChannelFromPath_cases forwardPath with ⟨h0, hfirst⟩ | ⟨h0, hslot, hfirst⟩ |
    ⟨h0, previous, hslot, hfirst⟩ <;> rw [hfirst]
  · refine .inr ⟨⟨fun h => absurd h0 h, fun h => absurd (hshifted h0) h⟩, .inl ⟨_, rfl, ?_⟩⟩
    exact fun h => h.2.1 (hshifted h0)
  · exact .inl ⟨_, rfl, .inl ⟨h0, hslot⟩⟩
  · have hslotNe : slot forwardPath 0 ≠ 0 := by
      have := previous.raw.pos
      omega
    simp only [okOr, orErr, ok_bind]
    rcases dequeueChannelFromPath_cases (forwardPath >>> 32) with ⟨h1, hsecond⟩ | ⟨h1, hslot1, hsecond⟩ |
      ⟨h1, next, hslot1, hsecond⟩ <;> rw [hsecond]
    · refine .inr ⟨⟨fun _ => hslotNe, fun h => absurd h1 h⟩, .inl ⟨_, rfl, fun h => h.2.1 h1⟩⟩
    · exact .inl ⟨_, rfl, .inr ⟨h1, by rwa [hsecondSlot] at hslot1⟩⟩
    · rw [hsecondSlot] at hslot1
      have hslot1Ne : slot forwardPath 1 ≠ 0 := by
        have := next.raw.pos
        omega
      refine .inr ⟨⟨fun _ => hslotNe, fun _ => hslot1Ne⟩, ?_⟩
      simp only [ok_bind]
      by_cases hdestination : x.packet.destinationChannelId = previous
      · rw [if_pos hdestination]
        subst hdestination
        simp only [ok_bind]
        rcases updates_cases x.path x.packet.destinationChannelId next with ⟨hroom, mid, path, hmid, hpath⟩ |
          ⟨hroom, ⟨e, herror⟩ | ⟨mid, e, hmid, herror⟩⟩
        · refine .inr ⟨next, path, hslot, hslot1, h1, hroom, by rw [hmid, Except.bind, hpath], ?_⟩
          rw [hmid, ok_bind, hpath, ok_bind, hpast]
          rfl
        · refine .inl ⟨e, ?_, fun h => hroom h.2.2⟩
          rw [herror]
          rfl
        · refine .inl ⟨e, ?_, fun h => hroom h.2.2⟩
          rw [hmid, ok_bind, herror]
          rfl
      · rw [if_neg hdestination]
        refine .inl ⟨_, rfl, fun h => hdestination ?_⟩
        have hsame : dequeueChannelFromPath forwardPath =
            .ok (forwardPath >>> 32, some x.packet.destinationChannelId) :=
          dequeueChannelFromPath_eq_ok.mpr ⟨h.1, rfl⟩
        rw [hfirst] at hsame
        simpa using hsame.symm

theorem hopLaw_iff : HopLaw env x salt forwardPath timeout instruction s funds ↔
    (isAllowedForwardInstruction instruction.opcode = true → x.intent = false →
      HopFits forwardPath x.path x.packet.destinationChannelId) := by
  constructor
  · intro hlaw hallowed hintent
    rcases executeForward_cases env x salt forwardPath timeout instruction s funds hallowed hintent with
      ⟨site, hpanic, -⟩ | ⟨hslots, hrest⟩
    · exact absurd hpanic (hlaw.noPanic site)
    · refine ⟨hslots.1, hslots.2, fun hdestination htail hroom => ?_⟩
      rcases hrest with ⟨e, -, hnot⟩ | ⟨next, path, -, -, -, -, hupdates, hok⟩
      · exact absurd ⟨hdestination, htail, hroom⟩ hnot
      · obtain ⟨next', rest, hlen, hpath, hr⟩ := hlaw.routes hintent _ _ _ hok
        simp only [List.cons.injEq, SubMsg.mk.injEq, CosmosMsg.packetSend.injEq, MsgSendPacket.mk.injEq,
          Data.zkgm.injEq, ZkgmPacket.mk.injEq] at hr
        obtain ⟨⟨⟨rfl, -, -, hout, -⟩, -⟩, -⟩ := hr
        obtain ⟨hfree, hsmall⟩ := (updates_appended_iff hupdates).mp hout
        refine ⟨⟨rest, hlen, ?_⟩, hfree, hsmall⟩
        rw [hpath]
        have hlong : (x.packet.destinationChannelId :: next :: rest).length ≤ 8 := by
          simp only [List.length_cons]
          omega
        exact pathOf_shiftRight hlong 2
  · intro hfits
    by_cases hallowed : isAllowedForwardInstruction instruction.opcode = true
    · cases hintent : x.intent with
      | true =>
        refine ⟨fun site hpanic => ?_, fun h => by cases hintent.symm.trans h⟩
        rcases executeForward_intent env x salt forwardPath timeout instruction s funds hintent with h | h <;>
          rw [h] at hpanic <;> cases hpanic
      | false =>
        obtain ⟨hfirst, hsecond, hdue⟩ := hfits hallowed hintent
        rcases executeForward_cases env x salt forwardPath timeout instruction s funds hallowed hintent with
          ⟨site, -, hbad⟩ | ⟨-, ⟨e, herror, -⟩ | ⟨next, path, hslot, hslot1, htail, hroom, hupdates, hok⟩⟩
        · rcases hbad with ⟨h0, hzero⟩ | ⟨h0, hzero⟩
          · exact absurd hzero (hfirst h0)
          · exact absurd hzero (hsecond h0)
        · refine ⟨fun site hpanic => ?_, fun _ s' funds' r h => ?_⟩
          · rw [herror] at hpanic
            cases hpanic
          · rw [herror] at h
            cases h
        · obtain ⟨⟨rest, hlen, hrest⟩, hfree, hsmall⟩ := hdue hslot htail hroom
          have hpath := (updates_appended_iff hupdates).mpr ⟨hfree, hsmall⟩
          have hpast : forwardPath >>> 32 >>> 32 = pathOf rest := by
            rw [← BitVec.shiftRight_add]
            exact hrest
          have hnext : slot (forwardPath >>> 32) 0 = next.raw.get := by rw [slot_shiftRight, hslot1]
          have hrestOf := (isList_cons_iff hnext rest).mp ⟨by omega, hpast⟩
          have hlist := (isList_cons_iff hslot (next :: rest)).mp ⟨by simp; omega, hrestOf.2⟩
          refine ⟨fun site hpanic => ?_, fun _ s' funds' r h => ?_⟩
          · rw [hok] at hpanic
            cases hpanic
          · rw [hok] at h
            cases h
            refine ⟨next, rest, hlen, hlist.2, ?_⟩
            have hdone : pathOf rest = 0 ↔ rest = [] := by
              constructor
              · intro h0
                by_contra hne
                exact pathOf_ne_zero (by omega) hne h0
              · rintro rfl
                rfl
            rw [hrest, hpath]
            simp only [hdone]
    · refine ⟨fun site hpanic => ?_, fun _ s' funds' r h => ?_⟩
      · rw [executeForward_refused env x salt forwardPath timeout instruction s funds hallowed] at hpanic
        cases hpanic
      · rw [executeForward_refused env x salt forwardPath timeout instruction s funds hallowed] at h
        cases h

end hop

/-! ## Any number of hops -/

/-- A contract that receives the first packet, not as an intent, sends the second. -/
def ForwardedTo (z z' : ZkgmPacket) : Prop :=
  z.instruction.opcode = OP_FORWARD ∧ ∃ env caller packet relayer relayerMsg funds s s' r,
    packet.data = .zkgm z ∧
    executePacket env caller packet relayer relayerMsg false funds s = .ok (s', r) ∧
      ∃ next timeout reply, ⟨.packetSend ⟨next, timeout, .zkgm z'⟩, reply⟩ ∈ r

/-- The hops an instruction still has to go; every hop takes two slots. -/
def remaining : Instruction → Nat
  | .mk _ opcode (.forward path _ _ _) => if opcode = OP_FORWARD then width path / 2 else 0
  | _ => 0

variable {i : Instruction}

theorem remaining_eq_zero (h : i.opcode ≠ OP_FORWARD) : remaining i = 0 := by
  obtain ⟨version, opcode, operand⟩ := i
  cases operand <;> first | rfl | exact if_neg h

theorem opcode_ne_forward {opcode : UInt8} (h : isAllowedForwardInstruction opcode = true) :
    opcode ≠ OP_FORWARD := by
  rintro rfl
  revert h
  decide

structure Carried (z z' : ZkgmPacket) (path : U256) (i : Instruction) : Prop where
  allowed : i.opcode ≠ OP_FORWARD
  before : ∃ height timeout, z.instruction = .mk INSTR_VERSION_0 OP_FORWARD (.forward path height timeout i)
  after : path >>> 64 = 0 ∧ z'.instruction = i ∨ path >>> 64 ≠ 0 ∧
    ∃ timeout, z'.instruction = .mk INSTR_VERSION_0 OP_FORWARD (.forward (path >>> 64) 0 timeout i)
  paths : ∃ first second : ChannelId, slot path 0 = first.raw.get ∧ slot path 1 = second.raw.get ∧
    (updateChannelPath z.path first).bind (fun path => updateChannelPath path second) = .ok z'.path

variable {z z' : ZkgmPacket}

/-- **A packet is forwarded by `execute_forward`.** -/
theorem executeForward_of_forwardedTo (h : ForwardedTo z z') :
    ∃ env x path height t i s funds s' funds' r, x.intent = false ∧ x.path = z.path ∧
      z.instruction = .mk INSTR_VERSION_0 OP_FORWARD (.forward path height t i) ∧
      executeForward env x z.salt path t i s funds = .ok (s', funds', r) ∧
      ∃ next timeout reply, ⟨.packetSend ⟨next, timeout, .zkgm z'⟩, reply⟩ ∈ r := by
  obtain ⟨hopcode, env, caller, packet, relayer, relayerMsg, funds, s, s', r, hdata, hok, hsent⟩ := h
  obtain ⟨salt, zpath, instruction⟩ := z
  obtain ⟨version, opcode, operand⟩ := instruction
  simp only [executePacket, hdata, bind_eq_ok] at hok
  obtain ⟨⟨s'', funds', messages⟩, hrun, hok⟩ := hok
  cases hok
  have hfwd : opcode = OP_FORWARD := hopcode
  subst hfwd
  unfold executeInternal at hrun
  rw [if_neg (by decide), if_neg (by decide), if_neg (by decide), if_pos rfl] at hrun
  by_cases hversion : version > INSTR_VERSION_0
  · rw [if_pos hversion] at hrun
    cases hrun
  rw [if_neg hversion] at hrun
  have hzero : version = INSTR_VERSION_0 := by
    apply UInt8.toNat_inj.mp
    have hle : ¬ 0 < version.toNat := fun hlt => hversion (UInt8.lt_iff_toNat_lt.mpr hlt)
    have hnat : INSTR_VERSION_0.toNat = 0 := rfl
    omega
  subst hzero
  cases operand with
  | forward path height t i =>
    exact ⟨env, ⟨caller, packet, relayer, relayerMsg, zpath, false⟩, path, height, t, i, s,
      Coins.ofList funds, _, _, _, rfl, rfl, rfl, hrun, hsent⟩
  | _ => cases hrun

theorem carried_of_forwardedTo (h : ForwardedTo z z') : ∃ path i, Carried z z' path i := by
  obtain ⟨env, x, path, height, t, i, s, funds, s', funds', r, hintent, hpath, hbefore, hrun, next,
    timeout, reply, hmem⟩ := executeForward_of_forwardedTo h
  refine ⟨path, i, ?_⟩
  by_cases hallowed : isAllowedForwardInstruction i.opcode = true
  · rcases executeForward_cases env x z.salt path t i s funds hallowed hintent with
      ⟨site, hpanic, -⟩ | ⟨-, ⟨e, herror, -⟩ | ⟨out, nextPath, hfirst, hsecond, -, -, hupdates, hsent⟩⟩
    · cases hrun.symm.trans hpanic
    · cases hrun.symm.trans herror
    · cases hrun.symm.trans hsent
      rcases List.mem_cons.mp hmem with hsend | hack
      · simp only [SubMsg.mk.injEq, CosmosMsg.packetSend.injEq, MsgSendPacket.mk.injEq,
          Data.zkgm.injEq] at hsend
        obtain ⟨⟨-, -, rfl⟩, -⟩ := hsend
        rw [hpath] at hupdates
        refine ⟨opcode_ne_forward hallowed, ⟨height, t, hbefore⟩, ?_, ⟨_, out, hfirst, hsecond, hupdates⟩⟩
        by_cases hdone : path >>> 64 = 0
        · exact .inl ⟨hdone, if_pos hdone⟩
        · exact .inr ⟨hdone, t, if_neg hdone⟩
      · simp [writeAck, CosmosMsg.plain] at hack
  · cases hrun.symm.trans (executeForward_refused _ _ _ _ _ _ _ _ hallowed)

/-- **Every hop leaves one fewer to go.** -/
theorem remaining_of_forwardedTo (h : ForwardedTo z z') :
    remaining z.instruction = remaining z'.instruction + 1 := by
  obtain ⟨path, i, hallowed, ⟨height, timeout, hbefore⟩, hafter, ⟨first, second, hfirst, hsecond, -⟩⟩ :=
    carried_of_forwardedTo h
  have hpos := second.raw.pos
  have hhigh : 2 ^ 32 ≤ path.toNat := by
    by_contra hlow
    rw [slot, Nat.div_eq_of_lt (by omega)] at hsecond
    omega
  have hne : path ≠ 0 := by
    rintro rfl
    exact absurd hhigh (by decide)
  have hlog : 32 ≤ path.toNat.log2 := (Nat.le_log2 (toNat_ne_zero hne)).mpr hhigh
  have hshift : (path >>> 64).toNat = path.toNat / 2 ^ 64 := by
    rw [BitVec.toNat_ushiftRight, Nat.shiftRight_eq_div_pow]
  rw [hbefore]
  show (if OP_FORWARD = OP_FORWARD then width path / 2 else 0) = _
  rw [if_pos rfl, width, if_neg hne]
  rcases hafter with ⟨hdone, hinstruction⟩ | ⟨hmore, timeout', hinstruction⟩
  · rw [hinstruction, remaining_eq_zero hallowed]
    have hlow : path.toNat < 2 ^ 64 := by
      rw [hdone] at hshift
      have hzero : (0 : U256).toNat = 0 := rfl
      omega
    have hlog64 := (Nat.log2_lt (toNat_ne_zero hne)).mpr hlow
    omega
  · have hge : 2 ^ 64 ≤ path.toNat := by
      by_contra hlow
      have := toNat_ne_zero hmore
      omega
    have hlog64 := (Nat.le_log2 (toNat_ne_zero hne)).mpr hge
    rw [hinstruction]
    show _ = (if OP_FORWARD = OP_FORWARD then width (path >>> 64) / 2 else 0) + 1
    rw [if_pos rfl, width, if_neg hmore, hshift, log2_div_two_pow hge]
    omega

/-- After some hops: what of the forward path has been taken is what the path of the packet was built from. -/
structure Progress (forwardPath : U256) (i : Instruction) (z : ZkgmPacket) (taken : List ChannelId)
    (rest : U256) : Prop where
  split : forwardPath.toNat = pathValue taken + 2 ^ (32 * taken.length) * rest.toNat
  built : taken.foldlM cosmwasm.update 0 = some z.path
  carried : rest = 0 ∧ z.instruction = i ∧ i.opcode ≠ OP_FORWARD ∨
    ∃ height timeout, z.instruction = .mk INSTR_VERSION_0 OP_FORWARD (.forward rest height timeout i)

theorem toOption_bind_eq
    (h : (updateChannelPath path first).bind (fun path => updateChannelPath path second) = .ok out) :
    [first, second].foldlM cosmwasm.update path = some out := by
  obtain ⟨mid, hmid, hout⟩ := bind_eq_ok.mp h
  have hfirst := cosmwasm_update_eq_some.mpr hmid
  have hsecond := cosmwasm_update_eq_some.mpr hout
  rw [List.foldlM_cons, hfirst]
  show ([second].foldlM cosmwasm.update mid : Option U256) = _
  rw [List.foldlM_cons, hsecond]
  rfl

theorem progress_of_forwarded {forwardPath rest : U256} {taken : List ChannelId}
    (hprogress : Progress forwardPath i z taken rest) (h : ForwardedTo z z') :
    ∃ first second, Progress forwardPath i z' (taken ++ [first, second]) (rest >>> 64) := by
  obtain ⟨path, j, hallowed, ⟨height, timeout, hbefore⟩, hafter, ⟨first, second, hfirst, hsecond, hpaths⟩⟩ :=
    carried_of_forwardedTo h
  rcases hprogress.carried with ⟨-, hi, hend⟩ | ⟨height', timeout', hi⟩
  · rw [← hi] at hend
    exact absurd h.1 hend
  · rw [hbefore] at hi
    cases hi
    refine ⟨first, second, ?_, ?_, ?_⟩
    · have htail := slot_shiftRight rest 0
      rw [hsecond] at htail
      have hpast : rest >>> 32 >>> 32 = rest >>> 64 := by
        rw [← BitVec.shiftRight_add]
      have hrest := toNat_slot rest
      rw [hfirst, toNat_slot (rest >>> 32), htail, hpast] at hrest
      have htwo : pathValue (taken ++ [first, second]) =
          pathValue taken + 2 ^ (32 * taken.length) * (first.raw.get + 2 ^ 32 * second.raw.get) := by
        have happend : taken ++ [first, second] = taken ++ [first] ++ [second] := by simp
        have hexp : 32 * (taken ++ [first]).length = 32 * taken.length + 32 := by simp; omega
        rw [happend, pathValue_concat, pathValue_concat, hexp, pow_add]
        ring
      have hexp : 32 * (taken ++ [first, second]).length = 32 * taken.length + 64 := by simp; omega
      rw [hprogress.split, htwo, hexp, pow_add, hrest]
      ring
    · rw [List.foldlM_append, hprogress.built]
      exact toOption_bind_eq hpaths
    · rcases hafter with ⟨hdone, hinstruction⟩ | ⟨-, t, hinstruction⟩
      · exact .inl ⟨hdone, hinstruction, hallowed⟩
      · exact .inr ⟨0, t, hinstruction⟩

/-- **A run of hops, of any length.** -/
theorem progress_of_run {salt forwardPath : U256} {height : Nat} {timeout : Timestamp}
    (hrun : Relation.ReflTransGen ForwardedTo
      ⟨salt, 0, .mk INSTR_VERSION_0 OP_FORWARD (.forward forwardPath height timeout i)⟩ z) :
    ∃ taken rest, Progress forwardPath i z taken rest := by
  induction hrun with
  | refl => exact ⟨[], forwardPath, by simp [pathValue], rfl, .inr ⟨height, timeout, rfl⟩⟩
  | tail _ hstep ih =>
    obtain ⟨taken, rest, hprogress⟩ := ih
    obtain ⟨first, second, hnext⟩ := progress_of_forwarded hprogress hstep
    exact ⟨_, _, hnext⟩

theorem hop_of_forwardedTo (h : ForwardedTo z z') : ∃ path height timeout i rest,
    z.instruction = .mk INSTR_VERSION_0 OP_FORWARD (.forward path height timeout i) ∧
      hop path z.path = .ok (rest, z'.path) ∧ z'.instruction =
        if rest = 0 then i else .mk INSTR_VERSION_0 OP_FORWARD (.forward rest 0 timeout i) := by
  obtain ⟨env, x, path, height, t, i, s, funds, s', funds', r, hintent, hpath, hbefore, hrun, next,
    timeout, reply, hmem⟩ := executeForward_of_forwardedTo h
  obtain ⟨rest, nextPath, source, salt, hhop, rfl⟩ := executeForward_hop hintent hrun
  rcases List.mem_cons.mp hmem with hsend | hack
  · simp only [SubMsg.mk.injEq, CosmosMsg.packetSend.injEq, MsgSendPacket.mk.injEq, Data.zkgm.injEq] at hsend
    obtain ⟨⟨-, -, rfl⟩, -⟩ := hsend
    exact ⟨path, height, t, i, rest, hbefore, by rw [← hpath]; exact hhop, rfl⟩
  · simp [writeAck, CosmosMsg.plain] at hack

/-- **`travel` is what the contracts do**: the path that a packet has at the end of a run of hops. -/
theorem travel_of_run {height : Nat} {timeout : Timestamp} {w : ZkgmPacket} {fuel : Nat} {path : U256}
    (hz : z.instruction = .mk INSTR_VERSION_0 OP_FORWARD (.forward path height timeout i))
    (hrun : Relation.ReflTransGen ForwardedTo z w) (hend : w.instruction.opcode ≠ OP_FORWARD)
    (hfuel : remaining z.instruction < fuel) : travel fuel path z.path = .ok w.path := by
  induction hrun using Relation.ReflTransGen.head_induction_on generalizing path height timeout fuel with
  | refl =>
    rw [hz] at hend
    exact absurd rfl hend
  | head hstep hrest ih =>
    obtain ⟨path', height', timeout', i', rest, hz', hhop, hnext⟩ := hop_of_forwardedTo hstep
    have hfewer := remaining_of_forwardedTo hstep
    rw [hz] at hz'
    cases hz'
    obtain ⟨fuel, rfl⟩ := Nat.exists_eq_succ_of_ne_zero (show fuel ≠ 0 by omega)
    have hne : path ≠ 0 := by
      rintro rfl
      cases hhop
    rw [travel, if_neg hne, hhop, ok_bind]
    by_cases hdone : rest = 0
    · -- nothing is left of the path, so the packet is no forward and the run ends
      obtain ⟨path'', j, hallowed, ⟨height'', timeout'', hbefore⟩, -, -⟩ := carried_of_forwardedTo hstep
      rw [hz] at hbefore
      cases hbefore
      rw [if_pos hdone] at hnext
      obtain ⟨fuel, rfl⟩ := Nat.exists_eq_succ_of_ne_zero (show fuel ≠ 0 by omega)
      show travel fuel.succ rest _ = _
      rw [hdone, travel, if_pos rfl]
      cases hrest using Relation.ReflTransGen.head_induction_on with
      | refl => rfl
      | head hstep' =>
        rw [← hnext] at hallowed
        exact absurd hstep'.1 hallowed
    · rw [if_neg hdone] at hnext
      exact ih hnext (by omega)

/-- **The route of a forwarded packet.**  A hop keeps to the forward path exactly when `HopFits`;
each hop leaves one fewer; and at the end the forward path is a list of ids, and the packet carries
the sender's instruction, and it as its path exactly when none of the ids but the last has its top
bit set. -/
theorem forwarding_iff (salt forwardPath : U256) (height : Nat) (timeout : Timestamp) (i : Instruction) :
    (∀ env x s funds, HopLaw env x salt forwardPath timeout i s funds ↔
      (isAllowedForwardInstruction i.opcode = true → x.intent = false →
        HopFits forwardPath x.path x.packet.destinationChannelId)) ∧
    (∀ z z', ForwardedTo z z' → remaining z.instruction = remaining z'.instruction + 1) ∧
    ∀ z, Relation.ReflTransGen ForwardedTo
        ⟨salt, 0, .mk INSTR_VERSION_0 OP_FORWARD (.forward forwardPath height timeout i)⟩ z →
      z.instruction.opcode ≠ OP_FORWARD →
        z.instruction = i ∧ ∃ hops : List ChannelId, hops.length ≤ 8 ∧ forwardPath = pathOf hops ∧
          (z.path = forwardPath ↔ SmallIds hops.dropLast) := by
  refine ⟨fun env x s funds => hopLaw_iff env x salt forwardPath timeout i s funds,
    fun z z' => remaining_of_forwardedTo, fun z hrun hend => ?_⟩
  obtain ⟨taken, rest, hprogress⟩ := progress_of_run hrun
  rcases hprogress.carried with ⟨hrest, hi, -⟩ | ⟨height', timeout', hi⟩
  · have hvalue : forwardPath.toNat = pathValue taken := by
      rw [hprogress.split, hrest]
      exact Nat.add_zero _
    have hlen : taken.length ≤ 8 := by
      rcases List.eq_nil_or_concat' taken with rfl | ⟨init, c, rfl⟩
      · exact Nat.zero_le 8
      · have hc := c.raw.pos
        have hlt := forwardPath.isLt
        rw [hvalue, pathValue_concat] at hlt
        have hpow : 2 ^ (32 * init.length) ≤ 2 ^ (32 * init.length) * c.raw.get :=
          Nat.le_mul_of_pos_right _ hc
        have hexp := (Nat.pow_lt_pow_iff_right (show 1 < 2 by decide)).mp
          (show 2 ^ (32 * init.length) < 2 ^ 256 by omega)
        simp only [List.length_append, List.length_singleton]
        omega
    have hpath : forwardPath = pathOf taken := by
      apply BitVec.eq_of_toNat_eq
      rw [hvalue, pathOf_toNat hlen]
    refine ⟨hi, taken, hlen, hpath, ?_⟩
    rw [← cosmwasm_folds_iff hlen, hprogress.built, hpath, Option.some.injEq]
  · rw [hi] at hend
    exact absurd rfl hend

namespace Sample

/-- A call, to be made at the end of the route. -/
def lastInstruction : Instruction := .mk INSTR_VERSION_0 OP_CALL (.call ⟨[], false, [], []⟩)

def forwardExecution : Execution := ⟨"ibc", ⟨one, one, .other [], .mustBeZero, 0⟩, "relayer", [], 0, false⟩

end Sample

open Sample in
/-- A forward path whose first slot is empty is not refused; the contract panics on it. -/
theorem empty_slot_panics :
    executeForward Env.ideal forwardExecution 0 (1 <<< 32) 0 lastInstruction State.fresh (Coins.ofList []) =
      .error (.panic "value is > 0 as path is > 0; qed;") := by
  rfl

end UnionVoyager.Zkgm
