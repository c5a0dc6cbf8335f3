import Mathlib.Tactic.TypeStar
import Mathlib.Data.List.Basic

/-!
# Bounded channels

`Channel α capacity` is a queue of at most `capacity` values.  To send to a full channel and to
receive from an empty one are answered by `none`, where a sender or a receiver would wait.
-/

/-- A queue that holds at most `capacity` values. -/
@[ext]
structure Channel (α : Type*) (capacity : Nat) where
  items : List α
  length_le : items.length ≤ capacity

namespace Channel

variable {α : Type*} {capacity : Nat} {c c' : Channel α capacity} {a : α}

/-- The channel without values. -/
def empty : Channel α capacity where
  items := []
  length_le := Nat.zero_le capacity

@[simp]
theorem items_empty :
  (empty : Channel α capacity).items = []
  := rfl

/-- Put a value at the end, if there is room. -/
def send (c : Channel α capacity) (a : α) : Option (Channel α capacity) :=
  if h : c.items.length < capacity then
    some
      { items := c.items ++ [a]
        length_le := by rwa [List.length_append] }
  else
    none

/-- Take the first value, if there is one. -/
def recv (c : Channel α capacity) : Option (α × Channel α capacity) :=
  match h : c.items with
  | [] => none
  | a :: items =>
      some (a,
        { items := items
          length_le := by
            have hle := c.length_le
            rw [h, List.length_cons] at hle
            apply Nat.le_of_succ_le hle })

/-- A send succeeds where there is room, and appends. -/
theorem send_eq_some_iff :
  c.send a = some c' ↔ c.items.length < capacity ∧ c'.items = c.items ++ [a]
  := by
  unfold send
  split
  · next h => simp only [Option.some.injEq, Channel.ext_iff, h, true_and, eq_comm]
  · next h => simp only [reduceCtorEq, h, false_and]

/-- A receive takes the oldest item. -/
theorem recv_eq_some_iff :
  c.recv = some (a, c') ↔ c.items = a :: c'.items
  := by
  unfold recv
  split
  · next h => simp only [reduceCtorEq, h]
  · next h =>
      simp only [Option.some.injEq, Prod.mk.injEq, Channel.ext_iff, h, List.cons.injEq]

theorem length_lt_of_recv (h : c.recv = some (a, c')) :
  c'.items.length < c.items.length
  := by
  rw [recv_eq_some_iff.mp h]
  apply Nat.lt_succ_self

/-- A receive fails exactly on an empty channel. -/
theorem recv_eq_none_iff :
  c.recv = none ↔ c.items = []
  := by
  unfold recv
  split
  · next h => simp only [h]
  · next h => simp only [reduceCtorEq, h]

end Channel
