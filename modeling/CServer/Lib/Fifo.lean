import Mathlib.Data.List.Basic

/-!
# Bounded queues

A `Fifo` holds at most `capacity` items and can be closed: a closed queue takes no more items and
gives away those it has.

* `Fifo.step`, `Fifo.run`   the answers to one operation and to a sequence of them;
* `step_items`, `run_items` what was accepted is what was taken and then what is left;
* `run_closed`              a closed queue gives its items in order, and then none;
* `closed_run`, `run_capacity`   when a queue is closed, and the bound.
-/

namespace CServer

structure Fifo (α : Type) where
  capacity : Nat
  items : List α
  closed : Bool

inductive FifoOp (α : Type) where
  | push (a : α)
  | pop
  | close
  deriving DecidableEq

/-- `waits` is a pop that is not enabled, `drained` a pop from a closed queue without items. -/
inductive FifoAnswer (α : Type) where
  | accepted (a : α)
  | refused
  | taken (a : α)
  | drained
  | waits
  | closed
  deriving DecidableEq

def FifoOp.isPop {α : Type} : FifoOp α → Bool
  | .pop => true
  | _ => false

namespace FifoAnswer
variable {α : Type}

def accepted? : FifoAnswer α → Option α
  | .accepted a => some a
  | _ => none

def taken? : FifoAnswer α → Option α
  | .taken a => some a
  | _ => none

/-- what a pop returns, with `none` from a drained queue -/
def popped? : FifoAnswer α → Option (Option α)
  | .taken a => some (some a)
  | .drained => some none
  | _ => none

end FifoAnswer

namespace Fifo
variable {α : Type}

def step (f : Fifo α) : FifoOp α → FifoAnswer α × Fifo α
  | .push a =>
    if f.closed = true ∨ f.items.length = f.capacity then (.refused, f)
    else (.accepted a, { f with items := f.items ++ [a] })
  | .pop =>
    match f.items with
    | a :: rest => (.taken a, { f with items := rest })
    | [] => if f.closed then (.drained, f) else (.waits, f)
  | .close => (.closed, { f with closed := true })

def run (f : Fifo α) : List (FifoOp α) → List (FifoAnswer α) × Fifo α
  | [] => ([], f)
  | op :: ops => ((f.step op).1 :: (run (f.step op).2 ops).1, (run (f.step op).2 ops).2)

theorem step_capacity (f : Fifo α) (op : FifoOp α) : (f.step op).2.capacity = f.capacity := by
  cases op with
  | push a =>
    unfold step
    dsimp only
    split_ifs <;> rfl
  | pop =>
    unfold step
    dsimp only
    split
    · rfl
    · split_ifs <;> rfl
  | close => rfl

/-- one step accepts or takes at most one item, the one at its end of the queue -/
theorem step_items (f : Fifo α) (op : FifoOp α) :
    f.items ++ (f.step op).1.accepted?.toList =
      (f.step op).1.taken?.toList ++ (f.step op).2.items := by
  cases op with
  | push a =>
    unfold step
    dsimp only
    split_ifs
    · exact List.append_nil _
    · rfl
  | pop =>
    unfold step
    dsimp only
    split
    · rename_i a rest hitems
      rw [hitems]
      exact List.append_nil _
    · split_ifs
      · exact List.append_nil _
      · exact List.append_nil _
  | close => exact List.append_nil _

theorem step_closed (f : Fifo α) (op : FifoOp α) :
    (f.step op).2.closed = true ↔ f.closed = true ∨ op = .close := by
  cases op with
  | push a =>
    unfold step
    dsimp only
    split_ifs <;> simp
  | pop =>
    unfold step
    dsimp only
    split
    · simp
    · split_ifs <;> simp
  | close => simp [step]

theorem filterMap_toList {β γ : Type} (g : β → Option γ) (x : β) (xs : List β) :
    (x :: xs).filterMap g = (g x).toList ++ xs.filterMap g := by
  cases hx : g x with
  | none => exact List.filterMap_cons_none hx
  | some y => exact List.filterMap_cons_some hx

/-- **What a run accepts, behind what was there, is what it takes and then what is left.** -/
theorem run_items (f : Fifo α) (ops : List (FifoOp α)) :
    f.items ++ (f.run ops).1.filterMap FifoAnswer.accepted? =
      (f.run ops).1.filterMap FifoAnswer.taken? ++ (f.run ops).2.items := by
  induction ops generalizing f with
  | nil => exact List.append_nil _
  | cons op ops ih =>
    show f.items ++ ((f.step op).1 :: ((f.step op).2.run ops).1).filterMap _ =
      ((f.step op).1 :: ((f.step op).2.run ops).1).filterMap _ ++ ((f.step op).2.run ops).2.items
    rw [filterMap_toList, filterMap_toList, ← List.append_assoc, step_items, List.append_assoc, ih,
      List.append_assoc]

theorem run_capacity (f : Fifo α) (ops : List (FifoOp α)) :
    (f.run ops).2.capacity = f.capacity := by
  induction ops generalizing f with
  | nil => rfl
  | cons op ops ih => exact (ih _).trans (step_capacity f op)

theorem closed_run (f : Fifo α) (ops : List (FifoOp α)) :
    (f.run ops).2.closed = true ↔ f.closed = true ∨ FifoOp.close ∈ ops := by
  induction ops generalizing f with
  | nil => simp [run]
  | cons op ops ih =>
    show ((f.step op).2.run ops).2.closed = true ↔ _
    rw [ih, step_closed, List.mem_cons, or_assoc, @eq_comm _ op]

/-- **From a closed queue the pops take the items in order, and then none.** -/
theorem run_closed (f : Fifo α) (ops : List (FifoOp α)) (h : f.closed = true) :
    (f.run ops).1.filterMap FifoAnswer.popped? =
      (f.items.map some ++ List.replicate (ops.countP FifoOp.isPop) none).take
        (ops.countP FifoOp.isPop) := by
  induction ops generalizing f with
  | nil => rfl
  | cons op ops ih =>
    show ((f.step op).1 :: ((f.step op).2.run ops).1).filterMap _ = _
    rw [filterMap_toList]
    cases op with
    | push a =>
      have hstep : f.step (.push a) = (.refused, f) := if_pos (.inl h)
      rw [hstep]
      exact ih f h
    | close =>
      have hstep : f.step .close = (.closed, f) := by
        unfold step
        rw [← h]
      rw [hstep]
      exact ih f h
    | pop =>
      have hcount : (FifoOp.pop :: ops).countP FifoOp.isPop = ops.countP FifoOp.isPop + 1 :=
        List.countP_cons_of_pos rfl
      rw [hcount]
      cases hitems : f.items with
      | cons a rest =>
        have hstep : f.step .pop = (.taken a, { f with items := rest }) := by
          unfold step
          rw [hitems]
        have hrest := ih { f with items := rest } h
        rw [hstep, hrest, List.replicate_succ', ← List.append_assoc, List.map_cons,
          List.cons_append, List.cons_append, List.take_succ_cons,
          @List.take_append_of_le_length _ _ [none]]
        · rfl
        · rw [List.length_append, List.length_replicate]
          exact Nat.le_add_left _ _
      | nil =>
        have hstep : f.step .pop = (.drained, f) := by
          unfold step
          simp only [hitems, h, if_true]
        have hrest := ih f h
        rw [hitems] at hrest
        rw [hstep, hrest]
        rfl

end Fifo

end CServer
