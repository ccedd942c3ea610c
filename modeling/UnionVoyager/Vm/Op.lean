import Mathlib.Data.List.Basic
import Mathlib.Algebra.Ring.Nat

/-!
# Ops of the voyager VM

`Op`, `Op::normalize` and `process` of `lib/voyager-vm/src/lib.rs`.

* `Op` — the tree of work; a `VecDeque` is a list with its front first.
* `Op.go` — the inner function of `normalize`; it recurses through a list as `Op.goList`.
* `process` — one step of one item, with the handler actions it performs.

The logging and the sleeping of `process` are left out; the clock is a parameter.
-/

namespace UnionVoyager.Vm

/-- `QueueMessage`: the types of a VM.  `Mark` is a ghost on deferrals, which no definition reads;
    the program has no such field, so there it is `Unit`. -/
structure QueueMessage where
  Data : Type
  Call : Type
  Callback : Type
  Mark : Type

inductive Op (T : QueueMessage) where
  | data (data : T.Data)
  | call (call : T.Call)
  | defer (mark : T.Mark) (deadline : Nat)
  | deferRelative (mark : T.Mark) (secs : Nat)
  | seq (queue : List (Op T))
  | conc (queue : List (Op T))
  | promise (queue : List (Op T)) (data : List T.Data) (receiver : T.Callback)
  | void (op : Op T)
  | noop

variable {T : QueueMessage}

namespace Op

/-- Induction with the hypothesis for every element of a queue. -/
theorem elemInduct {P : Op T → Prop} (data : ∀ d, P (.data d)) (call : ∀ c, P (.call c))
    (defer : ∀ m t, P (.defer m t)) (deferRelative : ∀ m t, P (.deferRelative m t))
    (seq : ∀ q, (∀ op ∈ q, P op) → P (.seq q)) (conc : ∀ q, (∀ op ∈ q, P op) → P (.conc q))
    (promise : ∀ q d r, (∀ op ∈ q, P op) → P (.promise q d r)) (void : ∀ op, P op → P (.void op))
    (noop : P .noop) (op : Op T) : P op := by
  refine @Op.rec T P (fun q => ∀ op ∈ q, P op) data call defer deferRelative seq conc promise void
    noop ?_ ?_ op
  · intro op hop
    exact (List.not_mem_nil hop).elim
  · intro head tail hhead htail
    exact List.forall_mem_cons.mpr ⟨hhead, htail⟩

/-- Induction with the hypothesis for the element that is processed next. -/
theorem frontInduct {P : Op T → Prop} (data : ∀ d, P (.data d)) (call : ∀ c, P (.call c))
    (defer : ∀ m t, P (.defer m t)) (deferRelative : ∀ m t, P (.deferRelative m t))
    (seqNil : P (.seq [])) (seqCons : ∀ op q, P op → P (.seq (op :: q))) (concNil : P (.conc []))
    (concCons : ∀ op q, P op → P (.conc (op :: q))) (promiseNil : ∀ ds k, P (.promise [] ds k))
    (promiseData : ∀ d q ds k, P (.promise (.data d :: q) ds k))
    (promiseCons : ∀ op q ds k, (∀ d, op ≠ .data d) → P op → P (.promise (op :: q) ds k))
    (void : ∀ op, P op → P (.void op)) (noop : P .noop) (op : Op T) : P op := by
  induction op using Op.elemInduct with
  | data d => exact data d
  | call c => exact call c
  | defer m t => exact defer m t
  | deferRelative m t => exact deferRelative m t
  | seq q ih =>
    cases q with
    | nil => exact seqNil
    | cons op q => exact seqCons op q (ih op List.mem_cons_self)
  | conc q ih =>
    cases q with
    | nil => exact concNil
    | cons op q => exact concCons op q (ih op List.mem_cons_self)
  | promise q ds k ih =>
    cases q with
    | nil => exact promiseNil ds k
    | cons op q =>
      cases op with
      | data d => exact promiseData d q ds k
      | _ => exact promiseCons _ q ds k (fun _ h => nomatch h) (ih _ List.mem_cons_self)
  | void op ih => exact void op ih
  | noop => exact noop

def isData : Op T → Bool
  | .data _ => true
  | _ => false

/-- The elements of a nested `Seq`, in its place. -/
def seqElems : Op T → List (Op T)
  | .seq queue => queue
  | op => [op]

/-- The elements of a nested `Conc`, in its place. -/
def concElems : Op T → List (Op T)
  | .conc queue => queue
  | op => [op]

/-- The `Seq` branch of `go`: leading data is taken out, the rest is one flat `Seq`. -/
def normalizeSeq : List (Op T) → List (Op T)
  | [] => []
  | [op] => [op]
  | ops =>
    let dataOps := ops.takeWhile isData
    let nonDataOps := ops.dropWhile isData
    if nonDataOps.isEmpty then dataOps else dataOps ++ [.seq (nonDataOps.flatMap seqElems)]

/-- What is left of a `Conc` without its data. -/
def packConc : List (Op T) → List (Op T)
  | [] => []
  | [op] => [op]
  | ops => [.conc ops]

/-- The `Conc` branch of `go`: all data is taken out, the rest is one flat `Conc`. -/
def normalizeConc (ops : List (Op T)) : List (Op T) :=
  let ops := ops.flatMap concElems
  ops.filter isData ++ packConc (ops.filter (!isData ·))

mutual
def go : Op T → List (Op T)
  | .data d => [.data d]
  | .call c => [.call c]
  | .defer mark deadline => [.defer mark deadline]
  | .deferRelative mark secs => [.deferRelative mark secs]
  | .seq queue => normalizeSeq (goList queue)
  | .conc queue => normalizeConc (goList queue)
  | .promise queue ds receiver => [.promise (goList queue) ds receiver]
  | .void op => [.void op]
  | .noop => []
def goList : List (Op T) → List (Op T)
  | [] => []
  | op :: queue => go op ++ goList queue
end

/-- A `Conc` at the top becomes several items. -/
def normalize (op : Op T) : List (Op T) := (go op).flatMap concElems

theorem goList_eq (queue : List (Op T)) : goList queue = queue.flatMap go := by
  induction queue with
  | nil => rfl
  | cons op queue ih => rw [goList, ih, List.flatMap_cons]

end Op

/-- The text of an error is its `full_error_string`. -/
inductive QueueError where
  | fatal (error : String)
  | unprocessable (error : String)
  | retry (error : String)

/-- What the engine calls: a function of the call, or of the callback and its data. -/
structure Handler (T : QueueMessage) where
  call : T.Call → Except QueueError (Op T)
  callback : T.Callback → List T.Data → Except QueueError (Op T)

/-- What one step does besides rearranging the op. -/
inductive Action (T : QueueMessage) where
  | call (call : T.Call) (res : Except QueueError (Op T))
  | callback (receiver : T.Callback) (data : List T.Data) (res : Except QueueError (Op T))
  | defer (mark : T.Mark) (deadline : Nat)
  | deferRelative (mark : T.Mark) (secs : Nat)
  | drop (data : T.Data)

/-- What is left of an op after a step, and what the step did. -/
abbrev Outcome (T : QueueMessage) := Except QueueError (Option (Op T)) × List (Action T)

/-- What is left of an op whose element was stepped. -/
def Outcome.within (out : Outcome T) (f : Option (Op T) → Op T) : Outcome T := (out.1.map (some ∘ f), out.2)

namespace Op

/-- The element of a promise's queue after a step: data is collected, anything else goes to the back. -/
def collect (queue : List (Op T)) (ds : List T.Data) (receiver : T.Callback) : Option (Op T) → Op T
  | some (.data d) => .promise queue (ds ++ [d]) receiver
  | some op => .promise (queue ++ [op]) ds receiver
  | none => .promise queue ds receiver

/-- A step inside `Void`: returned data is discarded. -/
def voidOf : Op T → Op T
  | .data _ => .noop
  | op => .void op

def process (h : Handler T) (now : Nat) : Op T → Outcome T
  | .data d => (.ok none, [.drop d])
  | .call c =>
    let res := h.call c
    (res.map some, [.call c res])
  | .defer mark deadline =>
    (.ok (if now < deadline then some (.defer mark deadline) else none), [.defer mark deadline])
  | .deferRelative mark secs => (.ok (some (.defer mark (now + secs))), [.deferRelative mark secs])
  | .seq [] => (.ok none, [])
  | .seq (op :: queue) => (process h now op).within fun op => .seq (op.toList ++ queue)
  | .conc [] => (.ok none, [])
  | .conc (op :: queue) => (process h now op).within fun op => .conc (queue ++ op.toList)
  | .promise [] ds receiver =>
    let res := h.callback receiver ds
    (res.map some, [.callback receiver ds res])
  | .promise (.data d :: queue) ds receiver => (.ok (some (.promise queue (ds ++ [d]) receiver)), [])
  | .promise (op :: queue) ds receiver => (process h now op).within (collect queue ds receiver)
  | .void op =>
    let out := process h now op
    (out.1.map (Option.map voidOf), out.2)
  | .noop => (.ok none, [])

theorem process_promise_cons (h : Handler T) (now : Nat) {op : Op T} (hdata : ∀ d, op ≠ .data d)
    (queue : List (Op T)) (ds : List T.Data) (receiver : T.Callback) :
    process h now (.promise (op :: queue) ds receiver) = (process h now op).within
      (collect queue ds receiver) := by
  cases op with
  | data d => exact (hdata d rfl).elim
  | _ => rfl

end Op

/-- Messages that are numbers, for runs that are evaluated. -/
abbrev Sample.Msg : QueueMessage := ⟨Nat, Nat, Nat, Unit⟩

end UnionVoyager.Vm
