import UnionVoyager.Vm.Op
import Mathlib.Algebra.BigOperators.Group.Multiset.Basic

/-!
# What the two queues share

`lib/voyager-vm/src/filter.rs` and `pass.rs`, and what a queue holds as the abstract view of both.
-/

namespace UnionVoyager.Vm

/-- The tags that want a copy of an op, and whether the op is to be removed from the queue. -/
structure Interest where
  tags : List String
  remove : Bool
  deriving DecidableEq

inductive FilterResult where
  | interest (interest : Interest)
  | noInterest
  deriving DecidableEq

variable {T : QueueMessage}

/-- `InterestFilter::check_interest`. -/
abbrev InterestFilter (T : QueueMessage) := Op T → FilterResult

/-- The parents of an op are indices into the ops that the pass was given. -/
structure PassResult (T : QueueMessage) where
  optimizeFurther : List (List Nat × Op T × String)
  ready : List (List Nat × Op T)

/-- `Pass::run_pass`. -/
abbrev Pass (T : QueueMessage) (ε : Type) := List (Op T) → Except ε (PassResult T)

/-! ## Routing -/

/-- `none` is the ready queue, `some tag` the optimizer queue of the tag. -/
abbrev Place := Option String

/-- Where an op belongs: with every tag that expressed interest, and in the ready queue unless it is
    to be removed. -/
def routed (filter : InterestFilter T) (op : Op T) : List (Place × Op T) :=
  match filter op with
  | .interest ⟨tags, remove⟩ => tags.map (fun tag => (some tag, op)) ++ if remove then [] else [(none, op)]
  | .noInterest => [(none, op)]

variable {filter : InterestFilter T} {op : Op T}

theorem routed_of_noInterest (h : filter op = .noInterest) : routed filter op = [(none, op)] := by
  rw [routed, h]

theorem routed_of_copy {tags : List String} (h : filter op = .interest ⟨tags, false⟩) :
    routed filter op = tags.map (fun tag => (some tag, op)) ++ [(none, op)] := by
  rw [routed, h]
  rfl

theorem routed_of_take {tags : List String} (h : filter op = .interest ⟨tags, true⟩) :
    routed filter op = tags.map fun tag => (some tag, op) := by
  rw [routed, h]
  exact List.append_nil _

theorem filter_cases (filter : InterestFilter T) (op : Op T) :
    filter op = .noInterest ∨ (∃ tags, filter op = .interest ⟨tags, false⟩) ∨
      ∃ tags, filter op = .interest ⟨tags, true⟩ := by
  match filter op with
  | .noInterest => exact .inl rfl
  | .interest ⟨tags, false⟩ => exact .inr (.inl ⟨tags, rfl⟩)
  | .interest ⟨tags, true⟩ => exact .inr (.inr ⟨tags, rfl⟩)

def taken (filter : InterestFilter T) (op : Op T) : Bool :=
  match filter op with
  | .interest ⟨_, remove⟩ => remove
  | .noInterest => false

/-- `'block: for op in ops`: a taken op is routed and ends the loop. -/
def blockOps (filter : InterestFilter T) : List (Op T) → List (Op T)
  | [] => []
  | op :: ops => if taken filter op then [op] else op :: blockOps filter ops

/-- The ops behind the first taken one. -/
def behindTaken (filter : InterestFilter T) : List (Op T) → List (Op T)
  | [] => []
  | op :: ops => if taken filter op then ops else behindTaken filter ops

theorem blockOps_append_behindTaken (filter : InterestFilter T) (ops : List (Op T)) :
    blockOps filter ops ++ behindTaken filter ops = ops := by
  induction ops with
  | nil => rfl
  | cons op ops ih =>
    unfold blockOps behindTaken
    split
    · rfl
    · rw [List.cons_append, ih]

/-- What a list of ops adds to a queue. -/
def routedAll (filter : InterestFilter T) (ops : List (Op T)) : Multiset (Place × Op T) :=
    ↑(ops.flatMap (routed filter))

@[simp] theorem routedAll_nil (filter : InterestFilter T) : routedAll filter [] = 0 := rfl

@[simp] theorem routedAll_cons (filter : InterestFilter T) (op : Op T) (ops : List (Op T)) :
    routedAll filter (op :: ops) = ↑(routed filter op) + routedAll filter ops := by
  simp [routedAll]

@[simp] theorem routedAll_append (filter : InterestFilter T) (ops ops' : List (Op T)) :
    routedAll filter (ops ++ ops') = routedAll filter ops + routedAll filter ops' := by
  simp [routedAll]

theorem routedAll_eq_zero {ops : List (Op T)} : routedAll filter ops = 0 ↔
      ∀ op ∈ ops, routed filter op = [] := by
  rw [routedAll, Multiset.coe_eq_zero, List.flatMap_eq_nil_iff]

end UnionVoyager.Vm
