import Mathlib.Data.List.Basic
import Mathlib.Data.List.Nodup

/-!
# Changing the first element of each kind

A list whose elements have keys can be changed one key at a time, each time at the first element with
that key. If the changes keep the keys this is the same as going through the list once and changing each
element whose key has not been met before.
-/

namespace List

variable {α κ : Type} [DecidableEq κ] {key : α → κ} {f g : α → α} {k : κ} {x : α} {l : List α}

/-- Change the first element with a key. -/
def changeFirst (key : α → κ) (f : α → α) (k : κ) : List α → List α
  | [] => []
  | x :: l => if key x = k then f x :: l else x :: changeFirst key f k l

/-- Change the elements whose key has not been met before, given the keys that have been met already. -/
def changeFirstEach (key : α → κ) (f : α → α) : List κ → List α → List α
  | _, [] => []
  | met, x :: l => (if key x ∈ met then x else f x) :: changeFirstEach key f (key x :: met) l

theorem changeFirst_congr (h : ∀ x, l.find? (fun x => key x = k) = some x → f x = g x) :
    changeFirst key f k l = changeFirst key g k l := by
  induction l with
  | nil => rfl
  | cons x l ih =>
    unfold changeFirst
    by_cases hx : key x = k
    · rw [if_pos hx, if_pos hx, h x (by simp [hx])]
    · rw [if_neg hx, if_neg hx, ih fun y hy => h y (by simpa [hx] using hy)]

theorem changeFirst_of_fixed (h : ∀ x, key x = k → f x = x) : changeFirst key f k l = l := by
  induction l with
  | nil => rfl
  | cons x l ih =>
    unfold changeFirst
    split
    · rename_i hx
      rw [h x hx]
    · rw [ih]

theorem changeFirst_changeFirst (hf : ∀ x, key (f x) = key x) :
    changeFirst key g k (changeFirst key f k l) = changeFirst key (fun x => g (f x)) k l := by
  induction l with
  | nil => rfl
  | cons x l ih =>
    by_cases hx : key x = k
    · rw [changeFirst, changeFirst, if_pos hx, if_pos hx, changeFirst, if_pos ((hf x).trans hx)]
    · rw [changeFirst, changeFirst, if_neg hx, if_neg hx, changeFirst, if_neg hx, ih]

theorem map_key_changeFirst (hf : ∀ x, key (f x) = key x) :
    (changeFirst key f k l).map key = l.map key := by
  induction l with
  | nil => rfl
  | cons x l ih =>
    rw [changeFirst]
    split
    · rw [map_cons, map_cons, hf]
    · rw [map_cons, map_cons, ih]

theorem find?_changeFirst (hf : ∀ x, key (f x) = key x) :
    (changeFirst key f k l).find? (fun x => key x = k) = (l.find? fun x => key x = k).map f := by
  induction l with
  | nil => rfl
  | cons x l ih =>
    rw [changeFirst]
    by_cases hx : key x = k
    · rw [if_pos hx, find?_cons_of_pos (by simp [hf, hx]), find?_cons_of_pos (by simp [hx])]
      rfl
    · rw [if_neg hx, find?_cons_of_neg (by simp [hx]), find?_cons_of_neg (by simp [hx]), ih]

theorem find?_changeFirst_of_ne (hf : ∀ x, key (f x) = key x) {k' : κ} (hne : k' ≠ k) :
    (changeFirst key f k l).find? (fun x => key x = k') = l.find? fun x => key x = k' := by
  induction l with
  | nil => rfl
  | cons x l ih =>
    rw [changeFirst]
    by_cases hx : key x = k
    · have hx' : key x ≠ k' := fun heq => hne (heq.symm.trans hx)
      rw [if_pos hx, find?_cons_of_neg (by simpa [hf] using hx'), find?_cons_of_neg (by simpa using hx')]
    · rw [if_neg hx, find?_cons, find?_cons, ih]

theorem getElem?_changeFirst_of_ne {i : ℕ} (hi : i ≠ l.findIdx fun x => key x = k) :
    (changeFirst key f k l)[i]? = l[i]? := by
  induction l generalizing i with
  | nil => rfl
  | cons x l ih =>
    rw [changeFirst]
    rw [findIdx_cons] at hi
    by_cases hx : key x = k
    · rw [decide_eq_true hx, cond_true] at hi
      obtain ⟨j, rfl⟩ := Nat.exists_eq_succ_of_ne_zero hi
      rw [if_pos hx]
      rfl
    · rw [decide_eq_false hx, cond_false] at hi
      rw [if_neg hx]
      cases i with
      | zero => rfl
      | succ j =>
        rw [getElem?_cons_succ, getElem?_cons_succ]
        exact ih fun hj => hi (congrArg _ hj)

theorem findIdx_changeFirst (hf : ∀ x, key (f x) = key x) {p : κ → Bool} :
    (changeFirst key f k l).findIdx (fun x => p (key x)) = l.findIdx fun x => p (key x) := by
  have hmap : ∀ l : List α, l.findIdx (fun x => p (key x)) = (l.map key).findIdx p := by
    intro l
    rw [findIdx_map]
    rfl
  rw [hmap, hmap, map_key_changeFirst hf]

theorem foldl_changeFirst_cons_of_notMem (ks : List κ) (hx : key x ∉ ks) (l : List α) :
    ks.foldl (fun l k => changeFirst key f k l) (x :: l) =
      x :: ks.foldl (fun l k => changeFirst key f k l) l := by
  induction ks generalizing l with
  | nil => rfl
  | cons k ks ih =>
    obtain ⟨hk, hks⟩ := not_or.1 (fun h => hx (mem_cons.2 h))
    rw [foldl_cons, foldl_cons, changeFirst, if_neg hk, ih hks]

/-- The first change that meets the first element is made there, and the others behind it. -/
theorem foldl_changeFirst_cons (hf : ∀ x, key (f x) = key x) {ks : List κ} (hnodup : ks.Nodup)
    (hx : key x ∈ ks) (l : List α) :
    ks.foldl (fun l k => changeFirst key f k l) (x :: l) =
      f x :: (ks.erase (key x)).foldl (fun l k => changeFirst key f k l) l := by
  induction ks generalizing l with
  | nil => cases hx
  | cons k ks ih =>
    obtain ⟨hk, hnodup⟩ := nodup_cons.1 hnodup
    rw [foldl_cons, changeFirst]
    by_cases hxk : key x = k
    · have hfx : key (f x) ∉ ks := by
        rw [hf, hxk]
        exact hk
      rw [if_pos hxk, hxk, erase_cons_head, foldl_changeFirst_cons_of_notMem ks hfx]
    · have hmem : key x ∈ ks := (mem_cons.1 hx).resolve_left hxk
      rw [if_neg hxk, ih hnodup hmem, erase_cons_tail (by simpa using Ne.symm hxk), foldl_cons]

theorem foldl_changeFirst_nil (ks : List κ) :
    ks.foldl (fun l k => changeFirst key f k l) [] = [] := by
  induction ks with
  | nil => rfl
  | cons k ks ih =>
    rw [foldl_cons]
    exact ih

/-- One key at a time, or once through the list. -/
theorem foldl_changeFirst (hf : ∀ x, key (f x) = key x) {met ks : List κ} (hnodup : ks.Nodup)
    (hother : ∀ x, key x ∉ ks → key x ∉ met → f x = x) (hmet : ∀ k ∈ ks, k ∉ met) (l : List α) :
    ks.foldl (fun l k => changeFirst key f k l) l = changeFirstEach key f met l := by
  induction l generalizing met ks with
  | nil => rw [foldl_changeFirst_nil, changeFirstEach]
  | cons x l ih =>
    rw [changeFirstEach]
    by_cases hx : key x ∈ ks
    · rw [foldl_changeFirst_cons hf hnodup hx, if_neg (hmet _ hx)]
      refine congrArg _ (ih (hnodup.erase _) (fun y hy hy' => ?_) fun k hk hk' => ?_)
      · obtain ⟨hyx, hy'⟩ := not_or.1 fun h => hy' (mem_cons.2 h)
        exact hother y (fun hmem => hy (hnodup.mem_erase_iff.2 ⟨hyx, hmem⟩)) hy'
      · obtain ⟨hkx, hk⟩ := hnodup.mem_erase_iff.1 hk
        exact hmet k hk ((mem_cons.1 hk').resolve_left hkx)
    · have hhead : (if key x ∈ met then x else f x) = x := by
        split
        · rfl
        · exact hother x hx (by assumption)
      rw [foldl_changeFirst_cons_of_notMem ks hx, hhead]
      refine congrArg _ (ih hnodup (fun y hy hy' => ?_) fun k hk hk' => ?_)
      · exact hother y hy fun hmem => hy' (mem_cons_of_mem _ hmem)
      · rcases mem_cons.1 hk' with rfl | hk'
        · exact hx hk
        · exact hmet k hk hk'

theorem changeFirstEach_congr (h : ∀ x, key x ≠ k → f x = g x) {met : List κ} (hk : k ∈ met) :
    changeFirstEach key f met l = changeFirstEach key g met l := by
  induction l generalizing met with
  | nil => rfl
  | cons x l ih =>
    rw [changeFirstEach, changeFirstEach, ih (mem_cons_of_mem _ hk)]
    by_cases hx : key x ∈ met
    · rw [if_pos hx, if_pos hx]
    · rw [if_neg hx, if_neg hx, h x fun heq => hx (heq ▸ hk)]

/-- Two changes that differ at one key only. -/
theorem changeFirstEach_eq_iff (h : ∀ x, key x ≠ k → f x = g x) {met : List κ} (hk : k ∉ met) :
    changeFirstEach key f met l = changeFirstEach key g met l ↔
      ∀ x, l.find? (fun x => key x = k) = some x → f x = g x := by
  induction l generalizing met with
  | nil => exact iff_of_true rfl nofun
  | cons x l ih =>
    rw [changeFirstEach, changeFirstEach]
    by_cases hx : key x = k
    · rw [hx, if_neg hk, if_neg hk, changeFirstEach_congr h mem_cons_self, find?_cons_of_pos (by simp [hx])]
      simp
    · have hmet : k ∉ key x :: met := by
        rw [mem_cons, not_or]
        exact ⟨Ne.symm hx, hk⟩
      rw [h x hx, find?_cons_of_neg (by simp [hx]), ← ih hmet]
      exact ⟨fun heq => (cons.inj heq).2, fun heq => congrArg _ heq⟩

end List
