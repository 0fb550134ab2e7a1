import Mathlib.Data.List.GetD

/-!
# Shifting the front of an array

The loop `for (i = 1; i < n; i++) a[i - 1] = a[i]` moves the first elements of an array down by one place.
-/

namespace List

variable {α : Type}

/-- Move the elements before position `n` down by one place; `d` is what lies outside of the list. -/
def shiftDown (d : α) (n : ℕ) (a : List α) : List α :=
  (range' 1 (n - 1)).foldl (fun a i => a.set (i - 1) (a.getD i d)) a

/-- After some rounds of the loop the elements that have been moved stand in front, and what comes behind
is as it was. -/
theorem foldl_shift (d : α) (a : List α) {k : ℕ} (hk : k < a.length) :
    (range' 1 k).foldl (fun a i => a.set (i - 1) (a.getD i d)) a = a.tail.take k ++ a.drop k := by
  induction k with
  | zero => rfl
  | succ k ih =>
    have htail : (a.tail.take k).length = k := by
      rw [length_take, length_tail]
      omega
    have hnext : a.tail.take (k + 1) = a.tail.take k ++ [a.get ⟨k + 1, hk⟩] := by
      have hlt : k < a.tail.length := by
        rw [length_tail]
        omega
      rw [take_succ_eq_append_getElem hlt, getElem_tail]
      rfl
    have hdrop : a.drop k = a.get ⟨k, by omega⟩ :: a.drop (k + 1) :=
      drop_eq_getElem_cons (by omega)
    have hread : (a.tail.take k ++ a.drop k).getD (1 + k) d = a.get ⟨k + 1, hk⟩ := by
      rw [getD_append_right _ _ _ _ (by omega), htail, hdrop]
      have hone : 1 + k - k = 0 + 1 := by omega
      rw [hone, getD_cons_succ, getD_eq_getElem _ _ (by rw [length_drop]; omega), getElem_drop]
      rfl
    rw [range'_1_concat, foldl_append, ih (by omega), foldl_cons, foldl_nil, hread, hnext]
    have hpos : 1 + k - 1 = (a.tail.take k).length := by omega
    rw [hpos, set_append_right _ _ (Nat.le_refl _), Nat.sub_self, hdrop, set_cons_zero, append_assoc]
    rfl

@[simp] theorem length_shiftDown (d : α) (n : ℕ) (a : List α) : (a.shiftDown d n).length = a.length := by
  rw [shiftDown]
  induction range' 1 (n - 1) generalizing a with
  | nil => rfl
  | cons i is ih => rw [foldl_cons, ih, length_set]

/-- The elements before position `n` lose the first one. -/
theorem take_shiftDown (d : α) {n : ℕ} {a : List α} (hn : 0 < n) (hle : n ≤ a.length) :
    (a.shiftDown d n).take (n - 1) = (a.take n).tail := by
  have hlen : (a.tail.take (n - 1)).length = n - 1 := by
    rw [length_take, length_tail]
    omega
  rw [shiftDown, foldl_shift d a (by omega), take_append_of_le_length (by omega),
    take_of_length_le (by omega), ← drop_one, ← drop_one, drop_take]

end List
