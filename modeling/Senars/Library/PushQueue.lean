/-
This file is the queue between a writer that pushes and a reader that waits. What is pushed
goes to a reader that waits already, or is kept until one asks, so readers are handed the
items in the order they were pushed.
-/

import Mathlib.Data.List.Basic

namespace Senars.Library

/-- A queue: what its readers were handed, what is kept for them, and how many of them wait. None
waits while anything is kept. -/
structure PushQueue (Item : Type) where
  handed : List Item := []
  items : List Item := []
  waiters : ℕ := 0
  idle : waiters = 0 ∨ items = [] := by first | exact .inl rfl | exact .inr rfl

namespace PushQueue

variable {Item : Type}

/-- An item is pushed: the reader that has waited longest is handed it, or it is kept. -/
def push (queue : PushQueue Item) (item : Item) : PushQueue Item :=
  if waits : queue.waiters = 0 then
    { queue with items := queue.items ++ [item], idle := .inl waits }
  else
    { queue with
      handed := queue.handed ++ [item]
      waiters := queue.waiters - 1
      idle := .inr (queue.idle.resolve_left waits) }

/-- A reader asks for the next item: it is handed the first one, or waits. -/
def next (queue : PushQueue Item) : PushQueue Item :=
  match kept : queue.items with
  | [] => { queue with waiters := queue.waiters + 1, idle := .inr kept }
  | item :: rest =>
    { queue with
      handed := queue.handed ++ [item]
      items := rest
      idle := .inl (queue.idle.resolve_right (by rw [kept]; exact List.cons_ne_nil _ _)) }

/-- All that readers were handed or will be, in order. -/
def pushed (queue : PushQueue Item) : List Item := queue.handed ++ queue.items

@[simp] theorem pushed_push (queue : PushQueue Item) (item : Item) :
    (queue.push item).pushed = queue.pushed ++ [item] := by
  unfold push pushed
  split
  · exact (List.append_assoc ..).symm
  · next waits =>
    have nothing := queue.idle.resolve_left waits
    simp [nothing]

@[simp] theorem pushed_next (queue : PushQueue Item) : queue.next.pushed = queue.pushed := by
  unfold next pushed
  split
  · rfl
  · next kept => simp [kept]

theorem pushed_foldl_push (queue : PushQueue Item) (items : List Item) :
    (items.foldl push queue).pushed = queue.pushed ++ items := by
  induction items generalizing queue with
  | nil => exact (List.append_nil _).symm
  | cons item rest ih =>
    rw [List.foldl_cons, ih, pushed_push, List.append_assoc]
    rfl

end PushQueue

end Senars.Library
