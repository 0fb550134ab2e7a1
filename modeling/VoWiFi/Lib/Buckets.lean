import Mathlib.Data.List.Nodup
import Mathlib.Logic.Function.Basic

/-!
# Rows of chained items

A hash table with chaining: an array of rows, each a list of items with a key. A key is looked for in
its row only. An item is changed in place, put in front of its row when it is new, and unlinked when
nothing of it is left.
-/

namespace Buckets

variable {κ ν : Type} [DecidableEq κ]

/-! ## One row -/

/-- The value of the first item with a key. -/
def find (k : κ) : List (κ × ν) → Option ν
  | [] => none
  | (k', v) :: items => if k' = k then some v else find k items

/-- Change the first item with a key, or unlink it. -/
def alter (k : κ) (f : ν → Option ν) : List (κ × ν) → List (κ × ν)
  | [] => []
  | (k', v) :: items =>
    if k' = k then
      match f v with
      | some v' => (k', v') :: items
      | none => items
    else (k', v) :: alter k f items

/-- Change the item of a key, after a new one has been put in front if there is none. -/
def put (k : κ) (new : ν) (f : ν → ν) (items : List (κ × ν)) : List (κ × ν) :=
  if (find k items).isSome then alter k (fun v => some (f v)) items else (k, f new) :: items

variable {k k' : κ} {new : ν} {items : List (κ × ν)}

theorem find_eq_none_of_not_mem (h : k ∉ items.map Prod.fst) : find k items = none := by
  induction items with
  | nil => rfl
  | cons item items ih =>
    rw [List.map_cons, List.mem_cons, not_or] at h
    rw [find, if_neg (Ne.symm h.1), ih h.2]

theorem not_mem_of_find_eq_none (h : find k items = none) : k ∉ items.map Prod.fst := by
  induction items with
  | nil => exact List.not_mem_nil
  | cons item items ih =>
    rw [find] at h
    split at h
    · exact absurd h (Option.some_ne_none _)
    · rename_i hne
      rw [List.map_cons, List.mem_cons, not_or]
      exact ⟨Ne.symm hne, ih h⟩

theorem find_alter_self {f : ν → Option ν} (h : (items.map Prod.fst).Nodup) :
    find k (alter k f items) = (find k items).bind f := by
  induction items with
  | nil => rfl
  | cons item items ih =>
    obtain ⟨hnot, hnodup⟩ := List.nodup_cons.1 h
    by_cases hk : item.1 = k
    · subst hk
      cases hf : f item.2 with
      | some v => simp [find, alter, hf]
      | none => simp [find, alter, hf, find_eq_none_of_not_mem hnot]
    · simp [find, alter, hk, ih hnodup]

theorem find_alter_of_ne {f : ν → Option ν} (h : k' ≠ k) :
    find k' (alter k f items) = find k' items := by
  induction items with
  | nil => rfl
  | cons item items ih =>
    by_cases hk : item.1 = k
    · subst hk
      cases hf : f item.2 with
      | some v => simp [find, alter, hf, h.symm]
      | none => simp [find, alter, hf, h.symm]
    · simp only [find, alter, hk, if_false, ih]

theorem keys_alter_sublist (f : ν → Option ν) :
    ((alter k f items).map Prod.fst).Sublist (items.map Prod.fst) := by
  induction items with
  | nil => exact List.Sublist.refl _
  | cons item items ih =>
    by_cases hk : item.1 = k
    · cases hf : f item.2 with
      | some v => simp [alter, hk, hf]
      | none => simp [alter, hk, hf]
    · simpa [alter, hk] using ih

theorem find_put_self {f : ν → ν} (h : (items.map Prod.fst).Nodup) :
    find k (put k new f items) = some (f ((find k items).getD new)) := by
  unfold put
  split
  · rename_i hsome
    obtain ⟨v, hv⟩ := Option.isSome_iff_exists.1 hsome
    rw [find_alter_self h, hv, Option.bind_some, Option.getD_some]
  · rename_i hnone
    rw [Option.not_isSome_iff_eq_none.1 hnone, find, if_pos rfl, Option.getD_none]

theorem find_put_of_ne {f : ν → ν} (h : k' ≠ k) : find k' (put k new f items) = find k' items := by
  unfold put
  split
  · exact find_alter_of_ne h
  · rw [find, if_neg h.symm]

theorem nodup_put {f : ν → ν} (h : (items.map Prod.fst).Nodup) :
    ((put k new f items).map Prod.fst).Nodup := by
  unfold put
  split
  · exact h.sublist (keys_alter_sublist _)
  · rename_i hnone
    exact List.nodup_cons.2
      ⟨not_mem_of_find_eq_none (Option.not_isSome_iff_eq_none.1 hnone), h⟩

/-! ## The rows -/

/-- No row has two items with one key. -/
def Distinct (rows : ℕ → List (κ × ν)) : Prop := ∀ r, ((rows r).map Prod.fst).Nodup

variable (row : κ → ℕ)

/-- The value of a key, looked for in its row. -/
def lookup (rows : ℕ → List (κ × ν)) (k : κ) : Option ν := find k (rows (row k))

/-- Change the items in the row of a key. -/
def atRow (k : κ) (f : List (κ × ν) → List (κ × ν)) (rows : ℕ → List (κ × ν)) :
    ℕ → List (κ × ν) :=
  Function.update rows (row k) (f (rows (row k)))

variable {row} {rows : ℕ → List (κ × ν)}

theorem lookup_atRow_of_ne {f : List (κ × ν) → List (κ × ν)}
    (hf : ∀ items, find k' (f items) = find k' items) :
    lookup row (atRow row k f rows) k' = lookup row rows k' := by
  unfold lookup atRow
  by_cases hrow : row k' = row k
  · rw [hrow, Function.update_self, hf]
  · rw [Function.update_of_ne hrow]

theorem lookup_put (h : Distinct rows) (f : ν → ν) :
    lookup row (atRow row k (put k new f) rows) k' =
      if k' = k then some (f ((lookup row rows k).getD new)) else lookup row rows k' := by
  split
  · rename_i hk
    subst hk
    unfold lookup atRow
    rw [Function.update_self, find_put_self (h _)]
  · rename_i hk
    exact lookup_atRow_of_ne fun _ => find_put_of_ne hk

theorem lookup_alter (h : Distinct rows) (f : ν → Option ν) :
    lookup row (atRow row k (alter k f) rows) k' =
      if k' = k then (lookup row rows k).bind f else lookup row rows k' := by
  split
  · rename_i hk
    subst hk
    unfold lookup atRow
    rw [Function.update_self, find_alter_self (h _)]
  · rename_i hk
    exact lookup_atRow_of_ne fun _ => find_alter_of_ne hk

omit [DecidableEq κ] in
theorem Distinct.atRow (h : Distinct rows) {f : List (κ × ν) → List (κ × ν)}
    (hf : ∀ items : List (κ × ν), (items.map Prod.fst).Nodup → ((f items).map Prod.fst).Nodup) :
    Distinct (atRow row k f rows) := by
  intro r
  unfold Buckets.atRow
  by_cases hr : r = row k
  · subst hr
    rw [Function.update_self]
    exact hf _ (h _)
  · rw [Function.update_of_ne hr]
    exact h r

end Buckets
