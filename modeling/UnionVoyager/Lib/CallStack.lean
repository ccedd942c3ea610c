import Mathlib.Data.Option.Basic
import UnionVoyager.Lib.Submessages

/-!
# A stack of running calls

A contract that wants to know which of its calls are running keeps a stack: it pushes where a call
goes out, and asks to hear of the success, and the report pops.

* `Stacked.balanced` — **a call that went through leaves the stack as it was.**
* `Stacked.running` — **where a call or a report begins, the stack holds what the calls around it
  pushed, the innermost first.**
-/

namespace Lib.Submessages

universe u v

variable {W : Type v} {C O R K : Type u}

/-- What a call pushes, and which reports pop. -/
structure Stacked (S : System W C O R) (stack : W → List K) (push : C → W → Option K)
    (pops : O → R → Bool) : Prop where
  exec : ∀ {c w w' ss}, S.exec c w = some (w', ss) → stack w' = (push c w).toList ++ stack w
  /-- What is pushed is popped by the report of the only call that goes out. -/
  pushed : ∀ {c w w' ss k}, S.exec c w = some (w', ss) → push c w = some k →
    ∃ s, ss = [s] ∧ s.onSuccess = true ∧ s.onError = false ∧ pops (S.owner c) s.id = true
  quiet : ∀ {c w w' ss}, S.exec c w = some (w', ss) → push c w = none →
    ∀ s ∈ ss, pops (S.owner c) s.id = false
  popped : ∀ {o i ok w w' ss}, S.reply o i ok w = some (w', ss) → pops o i = true →
    stack w' = (stack w).tail ∧ ss = []
  kept : ∀ {o i ok w w' ss}, S.reply o i ok w = some (w', ss) → pops o i = false →
    stack w' = stack w ∧ ∀ s ∈ ss, pops o s.id = false

def Task.Quiet (pops : O → R → Bool) : Task C O R → Prop
  | .call _ => True
  | .subs o ss => ∀ s ∈ ss, pops o s.id = false
  | .heard o s _ => pops o s.id = false

/-- The report of one call is to pop. -/
def Task.Pending (pops : O → R → Bool) : Task C O R → Prop
  | .call _ => False
  | .subs o ss => ∃ s, ss = [s] ∧ s.onSuccess = true ∧ s.onError = false ∧ pops o s.id = true
  | .heard o s ok => s.onSuccess = true ∧ s.onError = false ∧ pops o s.id = true ∧ ok = true

variable {S : System W C O R} {stack : W → List K} {push : C → W → Option K} {pops : O → R → Bool}
  {t t' : Task C O R} {c : C} {w w' : W} {r : Option W} {around : List (C × W)}

/-- What an accepted call asks for. -/
theorem Stacked.subs (hS : Stacked S stack push pops) {ss : List (Sub C R)} (h : S.exec c w = some (w', ss)) :
    (push c w = none ∧ (Task.subs (S.owner c) ss).Quiet pops) ∨
      ∃ k, push c w = some k ∧ (Task.subs (S.owner c) ss).Pending pops := by
  cases hpush : push c w with
  | none => exact .inl ⟨rfl, hS.quiet h hpush⟩
  | some k => exact .inr ⟨k, rfl, hS.pushed h hpush⟩

def Task.Leaves (stack : W → List K) (pops : O → R → Bool) (t : Task C O R) (w w' : W) : Prop :=
  (t.Quiet pops → stack w' = stack w) ∧ (t.Pending pops → stack w' = (stack w).tail)

theorem Stacked.leaves (hS : Stacked S stack push pops) (h : Runs S t w r) :
    ∀ {w'}, r = some w' → t.Leaves stack pops w w' := by
  induction h with
  | refused _ => exact nofun
  | @accepted c w w₁ ss r h _ ih =>
    intro w' hr
    refine ⟨fun _ => ?_, fun hpending => hpending.elim⟩
    have hexec := hS.exec h
    rcases hS.subs h with ⟨hnone, hquiet⟩ | ⟨k, hsome, hpending⟩
    · rw [(ih hr).1 hquiet, hexec, hnone]
      rfl
    · rw [(ih hr).2 hpending, hexec, hsome]
      rfl
  | done =>
    intro w' hr
    cases hr
    refine ⟨fun _ => rfl, ?_⟩
    rintro ⟨s, hs, -⟩
    cases hs
  | @next o s ss w w₁ r₁ r h hr _ ih ihr ihs =>
    intro w' hw'
    have hcall : ∀ v, v = r₁.getD w → stack v = stack w := by
      rintro v rfl
      cases r₁ with
      | none => rfl
      | some w₂ => exact (ih rfl).1 trivial
    constructor
    · intro hquiet
      have hs : pops o s.id = false := hquiet s (List.mem_cons_self ..)
      rw [(ihs hw').1 fun s' hs' => hquiet s' (List.mem_cons_of_mem _ hs'), (ihr rfl).1 hs, hcall _ rfl]
    · rintro ⟨s', hone, hsuccess, herror, hpops⟩
      obtain ⟨rfl, rfl⟩ := List.cons.inj hone
      have hok : r₁.isSome = true := by
        cases r₁ with
        | none =>
          rcases Runs.heard_iff.mp hr with ⟨-, hok, -⟩ | ⟨hwants, -⟩
          · cases hok
          · exact absurd (hwants.symm.trans herror) nofun
        | some w₂ => rfl
      rw [(ihs hw').1 nofun, (ihr rfl).2 ⟨hsuccess, herror, hpops, hok⟩, hcall _ rfl]
  | stopped | unhandled | rejected => exact nofun
  | unheard h =>
    intro w' hr
    cases hr
    refine ⟨fun _ => rfl, ?_⟩
    rintro ⟨hsuccess, -⟩
    exact absurd (h.symm.trans hsuccess) nofun
  | @answered o s ok w w₁ ss r h hr _ ih =>
    intro w' hw'
    constructor
    · intro hquiet
      obtain ⟨hsame, hrest⟩ := hS.kept hr hquiet
      rw [(ih hw').1 hrest, hsame]
    · rintro ⟨-, -, hpops, -⟩
      obtain ⟨htail, rfl⟩ := hS.popped hr hpops
      rw [(ih hw').1 nofun, htail]

theorem Stacked.balanced (hS : Stacked S stack push pops) (h : Runs S (.call c) w (some w')) :
    stack w' = stack w :=
  (hS.leaves h rfl).1 trivial

/-- What the calls of a list pushed, in its order. -/
def pushedBy (push : C → W → Option K) (around : List (C × W)) : List K :=
    around.filterMap fun cw => push cw.1 cw.2

/-- The task is a call, or the report of one. -/
def Task.Single : Task C O R → Prop
  | .call _ => True
  | .subs _ _ => False
  | .heard _ _ _ => True

/-- **Where a call or a report begins, the stack holds what the calls around it pushed.** -/
theorem Stacked.running_of_task (hS : Stacked S stack push pops) (h : Reaches S t w around t' w')
    (ht' : t'.Single) :
    t.Quiet pops ∨ t.Pending pops → stack w' = pushedBy push around ++ stack w := by
  induction h with
  | start => exact fun _ => rfl
  | @within c t w w₁ w' ss around h _ ih =>
    intro _
    have hsubs : (Task.subs (S.owner c) ss).Quiet pops ∨ (Task.subs (S.owner c) ss).Pending pops := by
      rcases hS.subs h with ⟨-, hquiet⟩ | ⟨_, -, hpending⟩
      · exact .inl hquiet
      · exact .inr hpending
    have hlast : pushedBy push [(c, w)] = (push c w).toList := by
      unfold pushedBy
      rw [List.filterMap_cons]
      cases push c w <;> rfl
    rw [ih ht' hsubs, hS.exec h, ← hlast, ← List.append_assoc]
    unfold pushedBy
    rw [List.filterMap_append]
  | first _ ih => exact fun _ => ih ht' (.inl trivial)
  | @hearing o s ss t w w' r around h hr ih =>
    intro ht
    have hcall : stack (r.getD w) = stack w := by
      cases r with
      | none => rfl
      | some w₂ => exact hS.balanced h
    rcases ht with hquiet | ⟨s', hone, -, -, hpops⟩
    · rw [ih ht' (.inl (hquiet s (List.mem_cons_self ..))), hcall]
    · obtain ⟨rfl, rfl⟩ := List.cons.inj hone
      -- the report that pops asks for no further calls
      cases hr with
      | start => exact hcall
      | answering _ hreply hs =>
        obtain ⟨-, rfl⟩ := hS.popped hreply hpops
        cases hs
        exact ht'.elim
  | @later o s ss t w w₁ w' r around h hr hs ih =>
    intro ht
    have hcall : stack (r.getD w) = stack w := by
      cases r with
      | none => rfl
      | some w₂ => exact hS.balanced h
    rcases ht with hquiet | ⟨s', hone, -⟩
    · have hheard := (hS.leaves hr rfl).1 (hquiet s (List.mem_cons_self ..))
      rw [ih ht' (.inl fun s' hs' => hquiet s' (List.mem_cons_of_mem _ hs')), hheard, hcall]
    · obtain ⟨rfl, rfl⟩ := List.cons.inj hone
      cases hs
      exact ht'.elim
  | @answering o s ok t w w₁ w' ss around h hr hs ih =>
    intro ht
    rcases ht with hquiet | ⟨-, -, hpops, -⟩
    · obtain ⟨hsame, hrest⟩ := hS.kept hr hquiet
      rw [ih ht' (.inl hrest), hsame]
    · obtain ⟨-, rfl⟩ := hS.popped hr hpops
      cases hs
      exact ht'.elim

theorem Stacked.running (hS : Stacked S stack push pops) (h : Reaches S (.call c) w around t' w')
    (ht' : t'.Single) :
    stack w' = pushedBy push around ++ stack w := hS.running_of_task h ht' (.inl trivial)

end Lib.Submessages
