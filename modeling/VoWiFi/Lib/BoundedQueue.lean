import Mathlib.Tactic.Common

/-!
# Bounded queues

A first-in first-out queue that never holds more than a fixed number of elements: adding to a full
queue fails and leaves it as it is.
-/

/-- A queue with room for `cap` elements, the oldest one first. -/
structure BoundedQueue (α : Type) (cap : ℕ) where
  items : List α
  le_cap : items.length ≤ cap

namespace BoundedQueue

variable {α : Type} {cap : ℕ}

/-- The queue without elements. -/
def empty : BoundedQueue α cap := ⟨[], Nat.zero_le _⟩

/-- Add an element at the end, and tell whether there was room for it. -/
def add (q : BoundedQueue α cap) (x : α) : Bool × BoundedQueue α cap :=
  if h : q.items.length < cap then (true, ⟨q.items ++ [x], by simpa [Nat.succ_le_iff] using h⟩) else (false, q)

/-- Take the first element, if there is one. -/
def fetch (q : BoundedQueue α cap) : Option (α × BoundedQueue α cap) :=
  match q with
  | ⟨[], _⟩ => none
  | ⟨x :: xs, h⟩ => some (x, ⟨xs, Nat.le_of_succ_le h⟩)

theorem add_of_lt {q : BoundedQueue α cap} (h : q.items.length < cap) (x : α) :
    (q.add x).1 = true ∧ (q.add x).2.items = q.items ++ [x] := by
  rw [add, dif_pos h]
  exact ⟨rfl, rfl⟩

theorem add_of_not_lt {q : BoundedQueue α cap} (h : ¬ q.items.length < cap) (x : α) :
    q.add x = (false, q) := dif_neg h

theorem mem_add {q : BoundedQueue α cap} {x y : α} (h : y ∈ (q.add x).2.items) :
    y ∈ q.items ∨ y = x := by
  unfold add at h
  split at h
  · simpa using h
  · exact .inl h

theorem mem_add_of_mem {q : BoundedQueue α cap} {x y : α} (h : y ∈ q.items) :
    y ∈ (q.add x).2.items := by
  unfold add
  split
  · exact List.mem_append_left _ h
  · exact h

theorem items_of_fetch {q q' : BoundedQueue α cap} {x : α} (h : q.fetch = some (x, q')) :
    q.items = x :: q'.items := by
  obtain ⟨_ | ⟨y, ys⟩, hlen⟩ := q
  · cases h
  · cases h
    rfl

theorem items_of_fetch_none {q : BoundedQueue α cap} (h : q.fetch = none) : q.items = [] := by
  obtain ⟨_ | ⟨y, ys⟩, hlen⟩ := q
  · rfl
  · cases h

end BoundedQueue
