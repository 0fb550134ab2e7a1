import Mathlib.Data.List.Perm.Basic

/-!
# Ordering a list by rules

A list is put in order by going through a list of rules: each rule takes the elements that it matches, in
their order, out of what the rules before it have left. What no rule has matched comes at the end, from the
last element to the first.
-/

namespace RuleOrder

variable {α : Type}

def orderBy : List (α → Bool) → List α → List α
  | [], l => l.reverse
  | r :: rules, l => l.filter r ++ orderBy rules (l.filter fun a => !r a)

/-- The number of the first rule that matches. -/
def rank (rules : List (α → Bool)) (a : α) : ℕ := rules.findIdx fun r => r a

theorem orderBy_perm (rules : List (α → Bool)) (l : List α) : (orderBy rules l).Perm l := by
  induction rules generalizing l with
  | nil => exact List.reverse_perm l
  | cons r rules ih => exact ((ih _).append_left _).trans (List.filter_append_perm r l)

theorem mem_orderBy {rules : List (α → Bool)} {l : List α} {a : α} : a ∈ orderBy rules l ↔ a ∈ l :=
  (orderBy_perm rules l).mem_iff

theorem orderBy_pairwise (rules : List (α → Bool)) (l : List α) :
    (orderBy rules l).Pairwise fun a b => rank rules a ≤ rank rules b := by
  induction rules generalizing l with
  | nil => exact List.pairwise_of_forall fun _ _ => Nat.le_refl _
  | cons r rules ih =>
    have hfirst (a : α) (h : a ∈ l.filter r) : rank (r :: rules) a = 0 := by
      rw [rank, List.findIdx_cons, (List.mem_filter.1 h).2, cond_true]
    have hrest (a : α) (h : a ∈ orderBy rules (l.filter fun a => !r a)) :
        rank (r :: rules) a = rank rules a + 1 := by
      have hr := (List.mem_filter.1 (mem_orderBy.1 h)).2
      rw [rank, List.findIdx_cons, (Bool.not_eq_true' _).mp hr, cond_false, rank]
    refine List.pairwise_append.2 ⟨?_, ?_, ?_⟩
    · refine List.Pairwise.imp_of_mem (fun ha _ _ => ?_) (List.pairwise_of_forall fun _ _ => trivial)
      rw [hfirst _ ha]
      exact Nat.zero_le _
    · refine (ih _).imp_of_mem fun ha hb hab => ?_
      rw [hrest _ ha, hrest _ hb]
      exact Nat.succ_le_succ hab
    · intro a ha b _
      rw [hfirst a ha]
      exact Nat.zero_le _

end RuleOrder
