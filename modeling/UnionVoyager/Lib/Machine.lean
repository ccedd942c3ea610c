import Mathlib.Data.List.Basic
import Mathlib.Algebra.Ring.Nat

/-!
# Runs of a machine with output

A machine is a step function `σ → ι → σ × List ω`: it takes an input, moves to a new state and
emits some outputs.  A run feeds it a list of inputs.

* `invariant_of_meets` — an invariant of state and past output that every step meeting the
  condition keeps holds at the end of the run; `invariant` is the case without a condition.
* `meets_of_invariant` — under an invariant, steps that meet one condition meet another.
* `forall_states_iff` — the exact condition on the steps under which a property holds in every state.
* `trace_sum_le` — what a run emits is bounded by a potential and what it gains.
-/

namespace Lib.Machine

universe u v w

variable {σ : Type u} {ι : Type v} {ω : Type w} (step : σ → ι → σ × List ω)

/-- The state after a list of inputs. -/
def run (s : σ) : List ι → σ
  | [] => s
  | i :: is => run (step s i).1 is

/-- Everything emitted by a list of inputs, in order. -/
def trace (s : σ) : List ι → List ω
  | [] => []
  | i :: is => (step s i).2 ++ trace (step s i).1 is

/-- Every step of the run meets `C`, a condition on the state before it and on its input. -/
def Meets (C : σ → ι → Prop) (s : σ) : List ι → Prop
  | [] => True
  | i :: is => C s i ∧ Meets C (step s i).1 is

variable {step}

instance decidableMeets {C : σ → ι → Prop} [∀ s i, Decidable (C s i)] :
    ∀ (is : List ι) (s : σ), Decidable (Meets step C s is)
  | [], _ => inferInstanceAs (Decidable True)
  | i :: is, s =>
    have := decidableMeets (C := C) is (step s i).1
    inferInstanceAs (Decidable (C s i ∧ Meets step C (step s i).1 is))

@[simp] theorem run_append (s : σ) (is js : List ι) :
    run step s (is ++ js) = run step (run step s is) js := by
  induction is generalizing s with
  | nil => rfl
  | cons i is ih => exact ih _

@[simp] theorem trace_append (s : σ) (is js : List ι) :
    trace step s (is ++ js) = trace step s is ++ trace step (run step s is) js := by
  induction is generalizing s with
  | nil => rfl
  | cons i is ih => simp only [List.cons_append, trace, run, ih, List.append_assoc]

variable {C : σ → ι → Prop}

theorem meets_append (s : σ) (is js : List ι) :
    Meets step C s (is ++ js) ↔ Meets step C s is ∧ Meets step C (run step s is) js := by
  induction is generalizing s with
  | nil => simp [Meets, run]
  | cons i is ih => simp only [List.cons_append, Meets, run, ih, and_assoc]

theorem meets_of_forall {P : ι → Prop} (s : σ) {is : List ι} (h : ∀ i ∈ is, P i) :
    Meets step (fun _ i => P i) s is := by
  induction is generalizing s with
  | nil => trivial
  | cons i is ih =>
    exact ⟨h i (List.mem_cons_self ..), ih _ fun j hj => h j (List.mem_cons_of_mem i hj)⟩

theorem meets_iff : ∀ (is : List ι) (s : σ),
    Meets step C s is ↔ ∀ past i rest, is = past ++ i :: rest → C (run step s past) i
  | [], s => by simp [Meets]
  | j :: is, s => by
    rw [Meets, meets_iff is]
    constructor
    · rintro ⟨hj, his⟩ past i rest heq
      cases past with
      | nil =>
        obtain ⟨rfl, -⟩ := List.cons.inj heq
        exact hj
      | cons j' past =>
        obtain ⟨hhead, htail⟩ := List.cons.inj heq
        subst hhead
        exact his past i rest htail
    · intro h
      refine ⟨h [] j is rfl, ?_⟩
      intro past i rest heq
      exact h (j :: past) i rest (by rw [heq]; rfl)

theorem mem_trace {o : ω} : ∀ (is : List ι) (s : σ),
    o ∈ trace step s is ↔ ∃ past i rest, is = past ++ i :: rest ∧ o ∈ (step (run step s past) i).2
  | [], s => by simp [trace]
  | j :: is, s => by
    rw [trace, List.mem_append, mem_trace is]
    constructor
    · rintro (ho | ⟨past, i, rest, rfl, ho⟩)
      · exact ⟨[], j, is, rfl, ho⟩
      · exact ⟨j :: past, i, rest, rfl, ho⟩
    · rintro ⟨past, i, rest, heq, ho⟩
      cases past with
      | nil =>
        obtain ⟨rfl, -⟩ := List.cons.inj heq
        exact .inl ho
      | cons j' past =>
        obtain ⟨hhead, htail⟩ := List.cons.inj heq
        subst hhead
        exact .inr ⟨past, i, rest, htail, ho⟩

theorem invariant_from {I : σ → List ω → Prop}
    (hstep : ∀ s tr i, I s tr → C s i → I (step s i).1 (tr ++ (step s i).2))
    (is : List ι) : ∀ (s : σ) (tr : List ω), I s tr → Meets step C s is →
      I (run step s is) (tr ++ trace step s is) := by
  induction is with
  | nil =>
    intro s tr hI _
    simpa [run, trace] using hI
  | cons i is ih =>
    intro s tr hI hC
    have h := ih _ _ (hstep s tr i hI hC.1) hC.2
    rwa [List.append_assoc] at h

variable {s : σ}

theorem invariant_of_meets {I : σ → List ω → Prop}
    (hstep : ∀ s tr i, I s tr → C s i → I (step s i).1 (tr ++ (step s i).2)) {is : List ι}
    (hI : I s []) (hC : Meets step C s is) : I (run step s is) (trace step s is) := by
  have h := invariant_from hstep is s [] hI hC
  rwa [List.nil_append] at h

theorem invariant {I : σ → List ω → Prop} (hstep : ∀ s tr i, I s tr → I (step s i).1 (tr ++ (step s i).2))
    (hI : I s []) (is : List ι) : I (run step s is) (trace step s is) := by
  have hC : Meets step (fun _ _ => True) s is := meets_of_forall s fun _ _ => trivial
  exact invariant_of_meets (fun s tr i hs _ => hstep s tr i hs) hI hC

variable {I : σ → Prop}

theorem meets_of_invariant {D : σ → ι → Prop} (hI : ∀ s i, I s → C s i → I (step s i).1)
    (hD : ∀ s i, I s → C s i → D s i) (is : List ι) : ∀ s, I s → Meets step C s is → Meets step D s is := by
  induction is with
  | nil =>
    intro s _ _
    trivial
  | cons i is ih =>
    intro s hs hC
    exact ⟨hD s i hs hC.1, ih _ (hI s i hs hC.1) hC.2⟩

theorem forall_states_iff {G : σ → Prop} {A : σ → ι → Prop} (hI : ∀ s i, I s → A s i → G s → I (step s i).1)
    (hG : ∀ s i, I s → A s i → G s → (G (step s i).1 ↔ C s i)) (is : List ι) : ∀ s, I s → G s →
      Meets step A s is →
      ((∀ past rest, is = past ++ rest → G (run step s past)) ↔ Meets step C s is) := by
  induction is with
  | nil =>
    intro s _ hs _
    constructor
    · intro _
      trivial
    · intro _ past rest heq
      obtain ⟨rfl, -⟩ := List.append_eq_nil_iff.mp heq.symm
      exact hs
  | cons i is ih =>
    intro s hIs hs hA
    have hnext := hG s i hIs hA.1 hs
    constructor
    · intro h
      have hgood : G (step s i).1 := h [i] is rfl
      refine ⟨hnext.mp hgood, (ih _ (hI s i hIs hA.1 hs) hgood hA.2).mp ?_⟩
      intro past rest heq
      exact h (i :: past) rest (by rw [heq]; rfl)
    · rintro ⟨hi, his⟩ past rest heq
      cases past with
      | nil => exact hs
      | cons j past =>
        obtain ⟨hhead, htail⟩ := List.cons.inj heq
        subst hhead
        exact (ih _ (hI s i hIs hA.1 hs) (hnext.mpr hi) hA.2).mpr his past rest htail

/-- The invariant rule for a property of the state alone. -/
theorem state_invariant (hstep : ∀ s i, I s → I (step s i).1) (hI : I s) (is : List ι) : I (run step s is) :=
  invariant (I := fun s _ => I s) (fun s _ i hs => hstep s i hs) hI is

theorem trace_sum_le (φ g : σ → Nat) (wt : ω → Nat) (hI : ∀ s i, I s → C s i → I (step s i).1)
    (hstep : ∀ s i, I s → C s i →
      φ (step s i).1 + ((step s i).2.map wt).sum + g s ≤ φ s + g (step s i).1) (is : List ι) :
    ∀ s, I s → Meets step C s is →
      φ (run step s is) + ((trace step s is).map wt).sum + g s ≤ φ s + g (run step s is) := by
  induction is with
  | nil =>
    intro s _ _
    simp [run, trace]
  | cons i is ih =>
    intro s hs hC
    have hone := hstep s i hs hC.1
    have hrest := ih _ (hI s i hs hC.1) hC.2
    simp only [run, trace, List.map_append, List.sum_append]
    omega

/-! ## Properties of a trace -/

/-- `P` holds of every entry of the trace, given everything before it. -/
def Along (P : List ω → ω → Prop) (tr : List ω) : Prop := ∀ past r rest, tr = past ++ r :: rest → P past r

variable {P : List ω → ω → Prop}

theorem along_nil : Along P [] := by
  intro past r rest h
  simp at h

theorem along_concat {tr : List ω} {r : ω} : Along P (tr ++ [r]) ↔ Along P tr ∧ P tr r := by
  constructor
  · intro h
    refine ⟨?_, h tr r [] rfl⟩
    intro past r' rest hsplit
    exact h past r' (rest ++ [r]) (by simp [hsplit])
  · rintro ⟨htr, hr⟩ past r' rest hsplit
    rcases List.eq_nil_or_concat rest with rfl | ⟨rest', r'', rfl⟩
    · obtain ⟨rfl, h⟩ := List.append_inj' hsplit rfl
      cases h
      exact hr
    · have hsplit' : tr ++ [r] = (past ++ r' :: rest') ++ [r''] := by simpa using hsplit
      obtain ⟨h, -⟩ := List.append_inj' hsplit' rfl
      exact htr past r' rest' h

theorem Along.of_mem {tr : List ω} (h : Along P tr) {r : ω} (hr : r ∈ tr) :
    ∃ past rest, tr = past ++ r :: rest ∧ P past r := by
  obtain ⟨past, rest, hsplit⟩ := List.append_of_mem hr
  exact ⟨past, rest, hsplit, h past r rest hsplit⟩

end Lib.Machine
