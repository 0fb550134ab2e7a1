import VoWiFi.Lib.CString

/-!
# JSON values as Python holds them

The values that `json.loads` returns. A number with a fraction or an exponent is kept as it is written. A
dictionary is the list of its keys and values in the order in which the keys came in.
-/

inductive Json where
  | null
  | bool (b : Bool)
  | int (n : ℤ)
  | float (literal : Text)
  | str (s : Text)
  | arr (items : List Json)
  | obj (keys : List (Text × Json))

/-- A dictionary. -/
abbrev PyDict (α : Type) := List (Text × α)

namespace PyDict

variable {α : Type}

def get? (d : PyDict α) (key : Text) : Option α := d.lookup key

/-- Assign to a key; a key that is already there keeps its place. -/
def set (key : Text) (v : α) : PyDict α → PyDict α
  | [] => [(key, v)]
  | (k, w) :: d => if k = key then (key, v) :: d else (k, w) :: set key v d

def erase (key : Text) (d : PyDict α) : PyDict α := d.filter (·.1 ≠ key)

@[simp]
theorem get?_nil (key : Text) : get? ([] : PyDict α) key = none := rfl

@[simp]
theorem get?_cons (k : Text) (w : α) (d : PyDict α) (key : Text) :
    get? ((k, w) :: d) key = if k = key then some w else get? d key := by
  by_cases h : k = key
  · rw [get?, List.lookup_cons, beq_iff_eq.2 h.symm, if_pos h]
  · have hkey : (key == k) = false := beq_false_of_ne fun hk => h hk.symm
    rw [get?, List.lookup_cons, hkey, if_neg h, get?]

theorem get?_set (d : PyDict α) (k key : Text) (v : α) :
    get? (set k v d) key = if k = key then some v else get? d key := by
  induction d with
  | nil => rw [set, get?_cons]
  | cons p d ih =>
    obtain ⟨k', w⟩ := p
    rw [set]
    by_cases hk : k' = k
    · subst hk
      by_cases h : k' = key
      · simp [h]
      · simp [h]
    · rw [if_neg hk, get?_cons, get?_cons, ih]
      by_cases h : k' = key
      · have hne : k ≠ key := fun hkey => hk (h.trans hkey.symm)
        rw [if_pos h, if_neg hne, if_pos h]
      · rw [if_neg h, if_neg h]

theorem get?_erase (d : PyDict α) (k key : Text) :
    get? (erase k d) key = if k = key then none else get? d key := by
  induction d with
  | nil => simp [erase]
  | cons p d ih =>
    obtain ⟨k', w⟩ := p
    rw [erase] at ih ⊢
    by_cases hk : k' = k
    · subst hk
      rw [List.filter_cons_of_neg (by simp), ih, get?_cons]
      by_cases h : k' = key
      · rw [if_pos h, if_pos h]
      · rw [if_neg h, if_neg h, if_neg h]
    · rw [List.filter_cons_of_pos (by simpa using hk), get?_cons, get?_cons, ih]
      by_cases h : k' = key
      · have hne : k ≠ key := fun hkey => hk (h.trans hkey.symm)
        rw [if_pos h, if_neg hne, if_pos h]
      · rw [if_neg h, if_neg h]

theorem erase_eq_self {d : PyDict α} {key : Text} (h : get? d key = none) : erase key d = d := by
  refine List.filter_eq_self.2 fun p hp => ?_
  have hne := List.lookup_eq_none_iff.1 h p hp
  exact decide_eq_true (bne_iff_ne.1 hne).symm

end PyDict
