import Mathlib.Data.List.Basic

/-!
# A Durable Cell Behind a Queue

A cell that keeps one value. Values are posted to a queue in front of it, and settled one
after the other in the order they were posted: the oldest one leaves the queue, and becomes
the kept value or is dropped. A crash loses the queue, and not the kept value.

## Main results

* `foldl_posts`: posts only lengthen the queue.
-/

namespace DurableCell

/-- The state of the cell: whether it is up, the values that wait, oldest first, and the
value it keeps. -/
structure Cell (α : Type*) where
  up : Bool
  waiting : List α
  kept : Option α

/-- What can happen to the cell: a value is posted, the oldest one is settled, the cell goes
down, it comes up again, possibly with its value erased. -/
inductive Event (α : Type*)
  | post (a : α)
  | settle (keep : Bool)
  | crash
  | start (up erased : Bool)

variable {α : Type*}

/-- The effect of an event. -/
def step (c : Cell α) : Event α → Cell α
  | .post a => { c with waiting := c.waiting ++ [a] }
  | .settle keep =>
    match c.waiting with
    | [] => c
    | a :: rest => { c with waiting := rest, kept := if keep then some a else c.kept }
  | .crash => { c with up := false, waiting := [] }
  | .start up erased => { up := up, waiting := [], kept := if erased then none else c.kept }

/-- The cell that has never been up. -/
def blank : Cell α where
  up := false
  waiting := []
  kept := none

/-- **Posts** only lengthen the queue. -/
theorem foldl_posts (c : Cell α) (as : List α) :
    (as.map Event.post).foldl step c = { c with waiting := c.waiting ++ as } := by
  induction as generalizing c with
  | nil => rw [List.map_nil, List.foldl_nil, List.append_nil]
  | cons a as ih =>
      rw [List.map_cons, List.foldl_cons, ih, step, List.append_assoc, List.singleton_append]

/-- A value that waits first is settled first. -/
theorem step_settle {c : Cell α} {a : α} {rest : List α} (h : c.waiting = a :: rest) (keep : Bool) :
    step c (.settle keep) =
      { c with waiting := rest, kept := if keep then some a else c.kept } := by
  rw [step, h]

end DurableCell
