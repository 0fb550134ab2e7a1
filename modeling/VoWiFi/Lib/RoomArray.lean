import Mathlib.Data.List.Basic

/-!
# Arrays with room at both ends

The storage of the array has unused places in front of its elements and behind them. An element is
removed by moving the ones on its shorter side, so that a place becomes free at that end; too many free
places are given back, which moves the storage. What an unused place holds is still there and can be read
through an old pointer, so the model keeps it.
-/

structure RoomArray (α : Type) where
  head : List α
  elems : List α
  tail : List α
  deriving DecidableEq, Repr

namespace RoomArray

variable {α : Type} {a : RoomArray α} {i : ℕ}

/-- The most unused places that are kept. -/
def maxUnused : ℕ := 32

/-- What the storage has at a place. -/
def read (a : RoomArray α) (place : ℕ) : Option α := (a.head ++ a.elems ++ a.tail)[place]?

/-- Move the elements behind an index one down. The last place keeps its element. -/
def removeTail (a : RoomArray α) (i : ℕ) : RoomArray α :=
  ⟨a.head, a.elems.eraseIdx i, a.elems.getLast?.toList ++ a.tail⟩

/-- Move the elements before an index one up. The first place keeps its element. -/
def removeHead (a : RoomArray α) (i : ℕ) : RoomArray α :=
  ⟨a.head ++ a.elems.head?.toList, a.elems.eraseIdx i, a.tail⟩

def compress (a : RoomArray α) : RoomArray α := ⟨[], a.elems, []⟩

/-- Move elements over the one to be removed. -/
def shift (a : RoomArray α) (i : ℕ) : RoomArray α :=
  if a.elems.length / 2 < i then a.removeTail i else a.removeHead i

/-- Removing an element moves the storage. -/
def moves (a : RoomArray α) (i : ℕ) : Bool :=
  i < a.elems.length && maxUnused < (a.shift i).head.length + (a.shift i).tail.length

/-- Remove an element, if the index is in range. -/
def remove (a : RoomArray α) (i : ℕ) : RoomArray α :=
  if i < a.elems.length then
    if a.moves i then (a.shift i).compress else a.shift i
  else a

/-- Add an element behind the others, in the room at one of the ends. -/
def insertLast (a : RoomArray α) (x : α) : RoomArray α :=
  let front : RoomArray α := ⟨a.head.dropLast, a.elems ++ [x], a.tail⟩
  let back : RoomArray α := ⟨a.head, a.elems ++ [x], a.tail.drop 1⟩
  if !a.head.isEmpty && a.tail.isEmpty then front
  else if !a.tail.isEmpty && a.head.isEmpty then back
  else if a.elems.length / 2 < a.elems.length then back
  else front

theorem read_elem (hi : i < a.elems.length) : a.read (a.head.length + i) = a.elems[i]? := by
  rw [read, List.append_assoc, List.getElem?_append_right (Nat.le_add_right _ _),
    Nat.add_sub_cancel_left, List.getElem?_append_left hi]

theorem elems_shift : (a.shift i).elems = a.elems.eraseIdx i := by
  unfold shift
  split <;> rfl

theorem elems_remove (hi : i < a.elems.length) : (a.remove i).elems = a.elems.eraseIdx i := by
  rw [remove, if_pos hi]
  split
  · exact elems_shift
  · exact elems_shift

theorem elems_insertLast (x : α) : (a.insertLast x).elems = a.elems ++ [x] := by
  unfold insertLast
  dsimp only
  split
  · rfl
  split
  · rfl
  split <;> rfl

/-- One of the ends gets one more place. -/
theorem unused_shift (hi : i < a.elems.length) :
    (a.shift i).head.length + (a.shift i).tail.length = a.head.length + a.tail.length + 1 := by
  obtain ⟨head, elems, tail⟩ := a
  cases elems with
  | nil => cases hi
  | cons x elems =>
    unfold shift
    split
    · simp [removeTail, List.getLast?_cons]
      omega
    · simp [removeHead]
      omega

/-- A place of the storage stays one when elements are moved. -/
theorem isSome_read_shift {place : ℕ} (hi : i < a.elems.length) :
    ((a.shift i).read place).isSome = (a.read place).isSome := by
  have hunused := unused_shift hi
  have hlength : (a.shift i).elems.length + 1 = a.elems.length := by
    rw [elems_shift, List.length_eraseIdx_of_lt hi]
    omega
  rw [Bool.eq_iff_iff]
  simp only [read, Option.isSome_iff_ne_none, ne_eq, List.getElem?_eq_none_iff, List.length_append]
  omega

/-- The storage stays where it is while there is room for one more unused place. -/
theorem moves_eq_false (hi : i < a.elems.length)
    (hroom : a.head.length + a.tail.length < maxUnused) : a.moves i = false := by
  rw [moves, unused_shift hi, Bool.and_eq_false_imp]
  intro _
  exact decide_eq_false (Nat.not_lt.2 hroom)

theorem remove_of_lt (hi : i < a.elems.length) (hmoves : a.moves i = false) :
    a.remove i = a.shift i := by
  rw [remove, if_pos hi, if_neg (Bool.eq_false_iff.1 hmoves)]

end RoomArray
