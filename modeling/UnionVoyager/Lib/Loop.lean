import UnionVoyager.Lib.Result

/-!
# Loops over a fallible body

A `for` loop with a fallible body is `List.foldlM` over `Except`.  `Loop R` is the relational
reading of such a loop: a chain of `R` steps, each of which emits some outputs.

* `loop_of_foldlM` — a successful `foldlM` whose body is described by `R` is such a chain.
* `Loop.invariant` — what each step keeps, the chain keeps.
* `forall_of_foldlM` — a loop that only checks has checked every element.
-/

namespace Lib

universe u v

variable {σ ω : Type u} {α : Type u} {β : Type v} {ε : Type u}

/-- A chain of `R` steps with the concatenation of their outputs. -/
inductive Loop (R : σ → List ω → σ → Prop) : σ → List ω → σ → Prop
  | nil (s : σ) : Loop R s [] s
  | cons {s s' s'' : σ} {o os : List ω} : R s o s' → Loop R s' os s'' → Loop R s (o ++ os) s''

variable {R : σ → List ω → σ → Prop} {s s' : σ} {os : List ω}

theorem Loop.invariant {I : σ → List ω → Prop} (hstep : ∀ s tr o s', I s tr → R s o s' → I s' (tr ++ o))
    (h : Loop R s os s') : ∀ tr, I s tr → I s' (tr ++ os) := by
  induction h with
  | nil s =>
    intro tr hI
    simpa using hI
  | cons hR _ ih =>
    intro tr hI
    have := ih _ (hstep _ _ _ _ hI hR)
    rwa [List.append_assoc] at this

/-- The rule for a property of the state alone. -/
theorem Loop.state_invariant {I : σ → Prop} (hstep : ∀ s o s', I s → R s o s' → I s')
    (h : Loop R s os s') (hI : I s) : I s' :=
  h.invariant (I := fun s _ => I s) (fun s _ o s' => hstep s o s') [] hI

theorem Loop.mono {S : σ → List ω → σ → Prop} (hRS : ∀ s o s', R s o s' → S s o s')
    (h : Loop R s os s') : Loop S s os s' := by
  induction h with
  | nil s => exact .nil s
  | cons hR _ ih => exact .cons (hRS _ _ _ hR) ih

theorem loop_of_foldlM {f : β → α → Except ε β} (st : β → σ) (out : β → List ω) {xs : List α}
    (hf : ∀ b x b', x ∈ xs → f b x = .ok b' → ∃ o, out b' = out b ++ o ∧ R (st b) o (st b')) :
    ∀ {b b' : β}, xs.foldlM f b = .ok b' → ∃ os, out b' = out b ++ os ∧ Loop R (st b) os (st b') := by
  induction xs with
  | nil =>
    intro b b' h
    obtain rfl : b = b' := by simpa [pure, Except.pure] using h
    exact ⟨[], (List.append_nil _).symm, .nil _⟩
  | cons x xs ih =>
    intro b b' h
    rw [List.foldlM_cons, bind_eq_ok] at h
    obtain ⟨c, hc, hrest⟩ := h
    obtain ⟨o, ho, hR⟩ := hf b x c (List.mem_cons_self ..) hc
    obtain ⟨os, hos, hL⟩ := ih (fun b y b' hy => hf b y b' (List.mem_cons_of_mem x hy)) hrest
    exact ⟨o ++ os, by rw [hos, ho, List.append_assoc], .cons hR hL⟩

theorem forall_of_foldlM {f : β → α → Except ε β} {P : α → Prop}
    (hf : ∀ b x b', f b x = .ok b' → P x) :
    ∀ {xs : List α} {b b' : β}, xs.foldlM f b = .ok b' → ∀ x ∈ xs, P x := by
  intro xs
  induction xs with
  | nil => intro b b' _ x hx; cases hx
  | cons y ys ih =>
    intro b b' h x hx
    rw [List.foldlM_cons, bind_eq_ok] at h
    obtain ⟨c, hc, hrest⟩ := h
    rcases List.mem_cons.mp hx with rfl | hx
    · exact hf b x c hc
    · exact ih hrest x hx

end Lib
