import Mathlib.Data.List.Basic

/-!
# Cutting a list of blocks

Where a list that is made of blocks is cut in two, the cut is between two blocks or inside one of them.
-/

namespace List

variable {α β : Type}

theorem flatMap_eq_append_cases {f : α → List β} {l : List α} {s t : List β} (h : l.flatMap f = s ++ t) :
    (∃ l₁ l₂, l = l₁ ++ l₂ ∧ s = l₁.flatMap f ∧ t = l₂.flatMap f) ∨
    ∃ l₁ a l₂ u v, l = l₁ ++ a :: l₂ ∧ f a = u ++ v ∧ u ≠ [] ∧ v ≠ [] ∧
      s = l₁.flatMap f ++ u ∧ t = v ++ l₂.flatMap f := by
  induction l generalizing s with
  | nil =>
    obtain ⟨rfl, rfl⟩ := append_eq_nil_iff.1 h.symm
    exact .inl ⟨[], [], rfl, rfl, rfl⟩
  | cons a l ih =>
    rw [flatMap_cons, append_eq_append_iff] at h
    rcases h with ⟨u, rfl, hrest⟩ | ⟨v, ha, rfl⟩
    · -- the first block is in the first part
      rcases ih hrest with ⟨l₁, l₂, rfl, rfl, rfl⟩ | ⟨l₁, b, l₂, u, v, rfl, hb, hu, hv, rfl, rfl⟩
      · exact .inl ⟨a :: l₁, l₂, rfl, rfl, rfl⟩
      · exact .inr ⟨a :: l₁, b, l₂, u, v, rfl, hb, hu, hv, (append_assoc _ _ _).symm, rfl⟩
    · by_cases hs : s = []
      · subst hs
        exact .inl ⟨[], a :: l, rfl, rfl, by rw [flatMap_cons, ha, nil_append]⟩
      · by_cases hv : v = []
        · subst hv
          rw [append_nil] at ha
          exact .inl ⟨[a], l, rfl, by rw [flatMap_cons, flatMap_nil, append_nil, ha], rfl⟩
        · exact .inr ⟨[], a, l, s, v, rfl, ha, hs, hv, rfl, rfl⟩

end List
