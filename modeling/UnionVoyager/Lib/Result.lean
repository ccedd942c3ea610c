import Mathlib.Data.List.Basic
import Mathlib.Algebra.Ring.Nat

/-!
# Inversion of fallible computations

A handler is a `do` block over `Except`.  The lemmas here read a successful run of such a block
as the conjunction of what each of its steps did, so that a caller never unfolds a callee.

* `bind_eq_ok` — a sequence succeeds iff both parts do.
* `toOption_eq_some` — a result without its error.
* `update_eq_some` — what is found in a map after a write.
* `Avoids bad x` — `x` does not fail with a `bad` error, with one rule for each way to build `x`.
-/

namespace Lib

universe u v

variable {ε : Type u} {α β : Type v}

variable {x : Except ε α}

@[simp] theorem bind_eq_ok {f : α → Except ε β} {b : β} : (x >>= f) = .ok b ↔ ∃ a, x = .ok a ∧
      f a = .ok b := by
  cases x with
  | error | ok => simp [bind, Except.bind]

@[simp] theorem ok_bind (a : α) (f : α → Except ε β) : (Except.ok a >>= f) = f a := rfl

@[simp] theorem error_bind (e : ε) (f : α → Except ε β) : (Except.error e >>= f) = .error e := rfl

@[simp] theorem map_eq_ok {f : α → β} {b : β} : (f <$> x) = .ok b ↔ ∃ a, x = .ok a ∧ f a = b := by
  cases x with
  | error | ok => simp [Functor.map, Except.map]

variable {a : α}

@[simp] theorem pure_eq_ok {b : α} : (pure a : Except ε α) = .ok b ↔ a = b := by
  simp [pure, Except.pure]

variable {e : ε}

@[simp] theorem throw_ne_ok {b : α} : (throw e : Except ε α) ≠ .ok b := by
  simp [throw, throwThe, MonadExceptOf.throw]

@[simp] theorem mapError_eq_ok {ε' : Type u} {f : ε → ε'} : x.mapError f = .ok a ↔ x = .ok a := by
  cases x <;> simp [Except.mapError]

theorem toOption_eq_some : x.toOption = some a ↔ x = .ok a := by
  cases x <;> simp [Except.toOption]

theorem exists_ok_of_isSome (h : x.toOption.isSome = true) : ∃ a, x = .ok a := by
  cases x with
  | error e => cases h
  | ok a => exact ⟨a, rfl⟩

/-- A guard: fail with `e` unless `p` holds. -/
def ensure (p : Prop) [Decidable p] (e : ε) : Except ε Unit :=
  if p then .ok () else .error e

@[simp] theorem ensure_eq_ok {p : Prop} [Decidable p] {u : Unit} : ensure p e = .ok u ↔ p := by
  unfold ensure
  split <;> simp_all

/-- `if c { x?; }`. -/
def onlyIf (c : Bool) (x : Except ε Unit) : Except ε Unit := if c then x else .ok ()

@[simp] theorem onlyIf_eq_ok {c : Bool} {x : Except ε Unit} {u : Unit} :
    onlyIf c x = .ok u ↔ (c = true → x = .ok ()) := by
  cases c <;> simp [onlyIf]

/-- The value of an option, or the error `e`. -/
def orErr (o : Option α) (e : ε) : Except ε α :=
  match o with
  | some a => .ok a
  | none => .error e

@[simp] theorem orErr_eq_ok {o : Option α} : orErr o e = .ok a ↔ o = some a := by
  cases o <;> simp [orErr]

theorem update_eq_some {κ υ : Type} [DecidableEq κ] {f : κ → Option υ} {a x : κ} {b y : υ}
    (h : Function.update f a (some b) x = some y) : x = a ∧ y = b ∨ x ≠ a ∧ f x = some y := by
  by_cases hx : x = a
  · subst hx
    rw [Function.update_self, Option.some.injEq] at h
    exact .inl ⟨rfl, h.symm⟩
  · rw [Function.update_of_ne hx] at h
    exact .inr ⟨hx, h⟩

/-! ## Computations that avoid some errors -/

/-- `x` does not end in an error of the kind `bad`. -/
def Avoids (bad : ε → Prop) (x : Except ε α) : Prop := ∀ e, x = .error e → ¬ bad e

variable {bad : ε → Prop}

theorem Avoids.ok (a : α) : Avoids bad (.ok a : Except ε α) := by
  intro e h
  cases h

theorem Avoids.pure (a : α) : Avoids bad (Pure.pure a : Except ε α) := Avoids.ok a

theorem Avoids.error (he : ¬ bad e) : Avoids bad (.error e : Except ε α) := by
  intro e' h
  cases h
  exact he

/-- A sequence avoids an error if its parts do; the second part may use what the first one gave. -/
theorem Avoids.bind {f : α → Except ε β} (hx : Avoids bad x)
    (hf : ∀ a, x = .ok a → Avoids bad (f a)) : Avoids bad (x >>= f) := by
  cases x with
  | error e =>
    intro e' h
    cases h
    exact hx e rfl
  | ok a => exact hf a rfl

theorem Avoids.ensure {p : Prop} [Decidable p] (he : ¬ p → ¬ bad e) : Avoids bad (Lib.ensure p e) := by
  unfold Lib.ensure
  split
  · exact .ok ()
  · exact .error (he ‹_›)

theorem Avoids.orErr {o : Option α} (he : o = none → ¬ bad e) : Avoids bad (Lib.orErr o e) := by
  cases o with
  | none => exact .error (he rfl)
  | some a => exact .ok a

theorem Avoids.onlyIf {c : Bool} {x : Except ε Unit} (hx : Avoids bad x) : Avoids bad (Lib.onlyIf c x) := by
  cases c with
  | false => exact .ok ()
  | true => exact hx

theorem Avoids.foldlM {γ : Type v} {f : α → γ → Except ε α} (hf : ∀ a c, Avoids bad (f a c)) :
    ∀ (cs : List γ) (a : α), Avoids bad (cs.foldlM f a)
  | [], a => .ok a
  | c :: cs, a => by
    rw [List.foldlM_cons]
    exact (hf a c).bind fun b _ => Avoids.foldlM hf cs b

end Lib
