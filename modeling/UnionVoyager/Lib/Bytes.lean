import Mathlib.Data.List.Basic
import Mathlib.Data.List.Induction
import Mathlib.Algebra.Ring.Nat

/-!
# Byte strings and fixed-width big-endian words

* `beBytes w n` — the `w` lowest bytes of `n`, most significant byte first.
* `beBytes_inj` — two numbers below `256 ^ w` with the same word are equal.
* `SelfDelimiting` — encoders that compose under pairing and under lists.
-/

namespace Lib

open List

/-- A byte string. -/
abbrev Bytes := List UInt8

instance lawfulBEqBytes : LawfulBEq Bytes := inferInstance

/-- The `w` lowest bytes of `n`, big endian. -/
def beBytes : Nat → Nat → Bytes
  | 0, _ => []
  | w + 1, n => beBytes w (n / 256) ++ [UInt8.ofNat n]

@[simp] theorem beBytes_length : ∀ (w n : Nat), (beBytes w n).length = w
  | 0, _ => rfl
  | w + 1, n => by simp [beBytes, beBytes_length w]

theorem beBytes_inj : ∀ (w : Nat) {m n : Nat}, m < 256 ^ w → n < 256 ^ w →
    beBytes w m = beBytes w n → m = n
  | 0, m, n, hm, hn, _ => by
    simp only [Nat.pow_zero] at hm hn
    omega
  | w + 1, m, n, hm, hn, h => by
    rw [Nat.pow_succ] at hm hn
    obtain ⟨hhi, hlo⟩ := append_inj' h rfl
    have hq : m / 256 = n / 256 := beBytes_inj w (by omega) (by omega) hhi
    have hr : m % 256 = n % 256 := by
      simp only [List.cons.injEq, and_true] at hlo
      have := congrArg UInt8.toNat hlo
      simpa using this
    omega

/-- The number with these bytes, big endian. -/
def beNat (b : Bytes) : Nat := b.foldl (fun n x => n * 256 + x.toNat) 0

theorem beNat_concat (b : Bytes) (x : UInt8) : beNat (b ++ [x]) = beNat b * 256 + x.toNat := by
  rw [beNat, foldl_append]
  rfl

theorem beNat_lt (b : Bytes) : beNat b < 256 ^ b.length := by
  induction b using reverseRecOn with
  | nil => decide
  | append_singleton b x ih =>
    have hx := x.toNat_lt
    rw [beNat_concat, length_append, length_singleton, Nat.pow_succ]
    omega

theorem beBytes_beNat (b : Bytes) : beBytes b.length (beNat b) = b := by
  induction b using reverseRecOn with
  | nil => rfl
  | append_singleton b x ih =>
    have hx := x.toNat_lt
    have hdiv : (beNat b * 256 + x.toNat) / 256 = beNat b := by omega
    have hbyte : UInt8.ofNat (beNat b * 256 + x.toNat) = x := by
      apply UInt8.toNat_inj.mp
      rw [UInt8.toNat_ofNat']
      omega
    rw [length_append, length_singleton, beBytes, beNat_concat, hdiv, ih, hbyte]

theorem beNat_beBytes : ∀ (w : Nat) {n : Nat}, n < 256 ^ w → beNat (beBytes w n) = n := by
  intro w n hn
  apply beBytes_inj w _ hn
  · have := beBytes_beNat (beBytes w n)
    rwa [beBytes_length] at this
  · have := beNat_lt (beBytes w n)
    rwa [beBytes_length] at this

theorem beBytes_add (w v : Nat) {n : Nat} (hn : n < 256 ^ w) :
    beBytes (v + w) n = replicate v 0 ++ beBytes w n := by
  induction w generalizing n with
  | zero =>
    have hzero : n = 0 := by simpa using hn
    subst hzero
    induction v with
    | zero => rfl
    | succ v ih =>
      rw [Nat.add_zero] at ih ⊢
      have hstep : beBytes (v + 1) 0 = beBytes v (0 / 256) ++ [UInt8.ofNat 0] := rfl
      rw [hstep, Nat.zero_div, ih, replicate_succ', append_assoc, append_assoc]
      rfl
  | succ w ih =>
    rw [Nat.pow_succ] at hn
    rw [← Nat.add_assoc, beBytes, beBytes, ih (by omega), append_assoc]

theorem flatten_inj {w : Nat} : ∀ {as bs : List Bytes}, (∀ a ∈ as, a.length = w) → (∀ b ∈ bs, b.length = w) →
    as.length = bs.length → as.flatten = bs.flatten → as = bs := by
  intro as
  induction as with
  | nil =>
    intro bs _ _ hlen _
    exact (List.length_eq_zero_iff.mp hlen.symm).symm
  | cons a as ih =>
    intro bs has hbs hlen heq
    match bs, hlen with
    | b :: bs, hlen =>
      have hhead : a.length = b.length := by
        rw [has a mem_cons_self, hbs b mem_cons_self]
      obtain ⟨rfl, htail⟩ := append_inj heq hhead
      rw [ih (fun x hx => has x (mem_cons_of_mem _ hx)) (fun x hx => hbs x (mem_cons_of_mem _ hx))
        (Nat.succ.inj hlen) htail]

/-- The UTF-8 bytes of a string (`as_bytes`). -/
def utf8 (s : String) : Bytes := s.toUTF8.data.toList

theorem utf8_injective : Function.Injective utf8 := by
  intro s t h
  unfold utf8 at h
  exact String.toByteArray_inj.mp (ByteArray.ext (Array.toList_inj.mp h))

/-- The string with these UTF-8 bytes, if they are any (`from_utf8`). -/
def fromUtf8 (b : Bytes) : Option String := String.fromUTF8? ⟨b.toArray⟩

@[simp] theorem fromUtf8_eq_some {b : Bytes} {s : String} : fromUtf8 b = some s ↔ b = utf8 s := by
  unfold fromUtf8 String.fromUTF8? utf8
  constructor
  · intro h
    split at h
    · cases h
      rfl
    · cases h
  · rintro rfl
    have hb : (⟨s.toUTF8.data.toList.toArray⟩ : ByteArray) = s.toUTF8 := ByteArray.ext (Array.toArray_toList)
    have hvalid : s.toUTF8.IsValidUTF8 := s.isValidUTF8
    rw [hb, dif_pos hvalid]
    rfl

/-! ## Self-delimiting codes -/

section Codes

universe u v

variable {α : Type u} {β : Type v}

/-- An encoding followed by anything can be split again in only one way: its end is determined by
    its beginning. -/
def SelfDelimiting (enc : α → Bytes) : Prop := ∀ a b x y, enc a ++ x = enc b ++ y → a = b ∧ x = y

theorem SelfDelimiting.injective {enc : α → Bytes} (h : SelfDelimiting enc) : Function.Injective enc := by
  intro a b hab
  exact (h a b [] [] (by rw [hab])).1

theorem selfDelimiting_byte : SelfDelimiting fun b : UInt8 => [b] := by
  intro a b x y h
  simpa using h

/-- A number in unary. -/
def encNat : Nat → Bytes
  | 0 => [0]
  | n + 1 => 1 :: encNat n

theorem selfDelimiting_encNat : SelfDelimiting encNat := by
  intro a
  induction a with
  | zero =>
    intro b x y h
    cases b with
    | zero => simpa [encNat] using h
    | succ b => simp [encNat] at h
  | succ a ih =>
    intro b x y h
    cases b with
    | zero => simp [encNat] at h
    | succ b =>
      simp only [encNat, cons_append, List.cons.injEq, true_and] at h
      obtain ⟨rfl, rfl⟩ := ih b x y h
      exact ⟨rfl, rfl⟩

def encPair (ea : α → Bytes) (eb : β → Bytes) (p : α × β) : Bytes := ea p.1 ++ eb p.2

theorem SelfDelimiting.pair {ea : α → Bytes} {eb : β → Bytes} (ha : SelfDelimiting ea)
    (hb : SelfDelimiting eb) : SelfDelimiting (encPair ea eb) := by
  rintro ⟨a, b⟩ ⟨a', b'⟩ x y h
  simp only [encPair, append_assoc] at h
  obtain ⟨rfl, hrest⟩ := ha _ _ _ _ h
  obtain ⟨rfl, rfl⟩ := hb _ _ _ _ hrest
  exact ⟨rfl, rfl⟩

/-- A list: a marker before each element and one at the end. -/
def encList (enc : α → Bytes) : List α → Bytes
  | [] => [0]
  | a :: as => 1 :: (enc a ++ encList enc as)

theorem SelfDelimiting.list {enc : α → Bytes} (h : SelfDelimiting enc) : SelfDelimiting (encList enc) := by
  intro as
  induction as with
  | nil =>
    intro bs x y e
    cases bs with
    | nil => simpa [encList] using e
    | cons b bs => simp [encList] at e
  | cons a as ih =>
    intro bs x y e
    cases bs with
    | nil => simp [encList] at e
    | cons b bs =>
      simp only [encList, cons_append, append_assoc, List.cons.injEq, true_and] at e
      obtain ⟨rfl, erest⟩ := h _ _ _ _ e
      obtain ⟨rfl, rfl⟩ := ih _ _ _ erest
      exact ⟨rfl, rfl⟩

def encBytes : Bytes → Bytes := encList fun b => [b]

theorem selfDelimiting_encBytes : SelfDelimiting encBytes := selfDelimiting_byte.list

end Codes

end Lib
