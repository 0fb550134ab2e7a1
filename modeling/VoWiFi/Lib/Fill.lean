import Mathlib.Data.List.Basic

/-!
# Filling a stretch of a list

The elements of a list between two positions are all set to one value. Two stretches filled with the same
value give the same list exactly if the elements that are in one of them only have that value already.
-/

namespace List

variable {α : Type}

/-- Set the elements from position `start` up to `stop` to `a`. -/
def fill (start stop : ℕ) (a : α) (l : List α) : List α :=
  l.mapIdx fun i x => if start ≤ i ∧ i < stop then a else x

variable {start stop start' stop' : ℕ} {a : α} {l : List α}

@[simp] theorem length_fill : (l.fill start stop a).length = l.length := length_mapIdx

theorem getElem?_fill (i : ℕ) :
    (l.fill start stop a)[i]? = l[i]?.map fun x => if start ≤ i ∧ i < stop then a else x :=
  getElem?_mapIdx

theorem fill_of_le (h : stop ≤ start) : l.fill start stop a = l := by
  refine ext_getElem? fun i => ?_
  have hempty : ¬ (start ≤ i ∧ i < stop) := by omega
  rw [getElem?_fill, funext fun x => if_neg hempty, Option.map_id']

theorem take_fill : (l.fill start stop a).take start = l.take start := by
  refine ext_getElem? fun i => ?_
  rw [getElem?_take, getElem?_take]
  by_cases hi : i < start
  · have hout : ¬ (start ≤ i ∧ i < stop) := by omega
    rw [if_pos hi, if_pos hi, getElem?_fill, funext fun x => if_neg hout, Option.map_id']
  · rw [if_neg hi, if_neg hi]

theorem fill_eq_fill_iff :
    l.fill start stop a = l.fill start' stop' a ↔
      ∀ i x, l[i]? = some x → (start ≤ i ∧ i < stop ↔ ¬ (start' ≤ i ∧ i < stop')) → x = a := by
  constructor
  · intro h i x hx hone
    have hi := congrArg (·[i]?) h
    rw [getElem?_fill, getElem?_fill, hx, Option.map_some, Option.map_some] at hi
    have hval := Option.some.inj hi
    by_cases hin : start ≤ i ∧ i < stop
    · rw [if_pos hin, if_neg (hone.1 hin)] at hval
      exact hval.symm
    · have hin' : start' ≤ i ∧ i < stop' := not_not.1 fun hnot => hin (hone.2 hnot)
      rw [if_neg hin, if_pos hin'] at hval
      exact hval
  · intro h
    refine ext_getElem? fun i => ?_
    rw [getElem?_fill, getElem?_fill]
    cases hx : l[i]? with
    | none => rfl
    | some x =>
      have hone := h i x hx
      rw [Option.map_some, Option.map_some]
      by_cases hin : start ≤ i ∧ i < stop
      · by_cases hin' : start' ≤ i ∧ i < stop'
        · rw [if_pos hin, if_pos hin']
        · rw [if_pos hin, if_neg hin', hone (iff_of_true hin hin')]
      · by_cases hin' : start' ≤ i ∧ i < stop'
        · rw [if_neg hin, if_pos hin', hone (iff_of_false hin (not_not.2 hin'))]
        · rw [if_neg hin, if_neg hin']

/-- A stretch in the middle of a list. -/
theorem fill_append_append (l₁ l₂ l₃ : List α) :
    (l₁ ++ l₂ ++ l₃).fill l₁.length (l₁.length + l₂.length) a =
      l₁ ++ replicate l₂.length a ++ l₃ := by
  refine ext_getElem? fun i => ?_
  rw [getElem?_fill]
  by_cases hlt : i < l₁.length
  · have hout : ¬ (l₁.length ≤ i ∧ i < l₁.length + l₂.length) := by omega
    rw [append_assoc, append_assoc, getElem?_append_left hlt, getElem?_append_left hlt,
      funext fun x => if_neg hout, Option.map_id']
  · rw [append_assoc, append_assoc, getElem?_append_right (Nat.not_lt.1 hlt),
      getElem?_append_right (Nat.not_lt.1 hlt)]
    by_cases hmid : i - l₁.length < l₂.length
    · have hin : l₁.length ≤ i ∧ i < l₁.length + l₂.length := by omega
      rw [getElem?_append_left hmid, getElem?_append_left (by rwa [length_replicate]),
        getElem?_replicate, if_pos hmid, getElem?_eq_getElem hmid, Option.map_some, if_pos hin]
    · have hout : ¬ (l₁.length ≤ i ∧ i < l₁.length + l₂.length) := by omega
      rw [getElem?_append_right (Nat.not_lt.1 hmid), getElem?_append_right (by rw [length_replicate]; omega),
        length_replicate, funext fun x => if_neg hout, Option.map_id']

end List
