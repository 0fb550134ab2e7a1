import Mathlib.Data.List.Perm.Subperm
import Mathlib.Algebra.Order.BigOperators.Group.List
import Mathlib.Algebra.Order.Ring.Nat
import Mathlib.Data.List.Range
import Mathlib.Tactic.Common

/-!
# Collecting numbered parts

Parts with the numbers from 1 to `n` arrive in any order and any number of times. A collector keeps them in
the order of their numbers and ignores one that it has. Once it has all it hands them over and begins again.
-/

namespace Collect

variable {α : Type}

/-- Put a part behind those with smaller numbers, unless there is one with its number. -/
def insert (k : ℕ) (a : α) : List (ℕ × α) → Option (List (ℕ × α))
  | [] => some [(k, a)]
  | (j, b) :: l =>
    if j = k then none
    else if k < j then some ((k, a) :: (j, b) :: l)
    else (insert k a l).map ((j, b) :: ·)

/-- The numbers increase. -/
def Sorted (l : List (ℕ × α)) : Prop := (l.map Prod.fst).Pairwise (· < ·)

theorem Sorted.nodup {l : List (ℕ × α)} (h : Sorted l) : (l.map Prod.fst).Nodup :=
  List.Pairwise.imp Nat.ne_of_lt h

theorem insert_eq_none_iff {k : ℕ} {a : α} {l : List (ℕ × α)} (h : Sorted l) :
    insert k a l = none ↔ k ∈ l.map Prod.fst := by
  induction l with
  | nil => simp [insert]
  | cons e l ih =>
    obtain ⟨j, b⟩ := e
    obtain ⟨hj, hl⟩ := List.pairwise_cons.1 h
    rw [insert, List.map_cons, List.mem_cons]
    split
    · next heq => exact iff_of_true rfl (.inl heq.symm)
    · next hne =>
      split
      · next hlt =>
        refine iff_of_false (by simp) ?_
        rintro (heq | hmem)
        · exact hne heq.symm
        · exact absurd (hj k hmem) (Nat.lt_asymm hlt)
      · rw [Option.map_eq_none_iff, ih hl]
        exact ⟨.inr, fun hmem => hmem.resolve_left fun heq => hne heq.symm⟩

theorem insert_perm {k : ℕ} {a : α} {l l' : List (ℕ × α)} (h : insert k a l = some l') :
    l'.Perm ((k, a) :: l) := by
  induction l generalizing l' with
  | nil =>
    cases h
    exact List.Perm.refl _
  | cons e l ih =>
    obtain ⟨j, b⟩ := e
    rw [insert] at h
    split at h
    · cases h
    · split at h
      · cases h
        exact List.Perm.refl _
      · rw [Option.map_eq_some_iff] at h
        obtain ⟨l₁, hl₁, rfl⟩ := h
        exact ((ih hl₁).cons _).trans (List.Perm.swap _ _ _)

theorem insert_sorted {k : ℕ} {a : α} {l l' : List (ℕ × α)} (hs : Sorted l) (h : insert k a l = some l') :
    Sorted l' := by
  induction l generalizing l' with
  | nil =>
    cases h
    exact List.pairwise_singleton _ _
  | cons e l ih =>
    obtain ⟨j, b⟩ := e
    obtain ⟨hj, hl⟩ := List.pairwise_cons.1 hs
    rw [insert] at h
    split at h
    · cases h
    · next hne =>
      split at h
      · next hlt =>
        cases h
        refine List.pairwise_cons.2 ⟨fun x hx => ?_, hs⟩
        rcases List.mem_cons.1 hx with rfl | hx
        · exact hlt
        · exact Nat.lt_trans hlt (hj x hx)
      · next hge =>
        rw [Option.map_eq_some_iff] at h
        obtain ⟨l₁, hl₁, rfl⟩ := h
        refine List.pairwise_cons.2 ⟨fun x hx => ?_, ih hl hl₁⟩
        rcases List.mem_cons.1 (((insert_perm hl₁).map Prod.fst).mem_iff.1 hx) with heq | hx
        · have heq : x = k := heq
          show j < x
          omega
        · exact hj x hx

/-- The parts of a sorted list that has all numbers. -/
theorem eq_of_complete {n : ℕ} {f : ℕ → α} {l : List (ℕ × α)} (hs : Sorted l)
    (hmem : ∀ e ∈ l, e.1 ∈ List.range' 1 n ∧ e.2 = f e.1) (hlen : l.length = n) :
    l.map Prod.snd = (List.range' 1 n).map f := by
  have hsub : l.map Prod.fst ⊆ List.range' 1 n := by
    intro k hk
    obtain ⟨e, he, rfl⟩ := List.mem_map.1 hk
    exact (hmem e he).1
  have hperm : (l.map Prod.fst).Perm (List.range' 1 n) :=
    (hs.nodup.subperm hsub).perm_of_length_le (by rw [List.length_range', List.length_map, hlen])
  have hkeys : l.map Prod.fst = List.range' 1 n := by
    refine hperm.eq_of_pairwise (fun a b _ _ hab hba => absurd hab (Nat.lt_asymm hba)) hs ?_
    exact List.pairwise_lt_range'
  rw [← hkeys, List.map_map]
  exact List.map_congr_left fun e he => (hmem e he).2

/-- Parts with different numbers are together not longer than all parts. -/
theorem sum_le {n : ℕ} {size : ℕ → ℕ} {l : List (ℕ × α)} (hs : Sorted l)
    (hmem : ∀ e ∈ l, e.1 ∈ List.range' 1 n) :
    (l.map fun e => size e.1).sum ≤ ((List.range' 1 n).map size).sum := by
  have hsub : l.map Prod.fst ⊆ List.range' 1 n := by
    intro k hk
    obtain ⟨e, he, rfl⟩ := List.mem_map.1 hk
    exact hmem e he
  obtain ⟨l', hl', hsublist⟩ := hs.nodup.subperm hsub
  have hsum : (l.map fun e => size e.1).sum = (l'.map size).sum := by
    rw [(hl'.map size).sum_eq, List.map_map]
    rfl
  rw [hsum]
  exact (hsublist.map size).sum_le_sum fun _ _ => Nat.zero_le _

/-! ## The collector -/

variable (n : ℕ) (f : ℕ → α)

/-- The arrival of a part: what is kept, and all parts if it was the last one. -/
def step (l : List (ℕ × α)) (k : ℕ) : List (ℕ × α) × Option (List α) :=
  match insert k (f k) l with
  | none => (l, none)
  | some l' => if l'.length = n then ([], some (l'.map Prod.snd)) else (l', none)

/-- What is kept and what is handed over after some arrivals. -/
def run : List ℕ → List (ℕ × α) → List (ℕ × α) × List (List α)
  | [], l => (l, [])
  | k :: ks, l => ((run ks (step n f l k).1).1, (step n f l k).2.toList ++ (run ks (step n f l k).1).2)

variable {n f}

/-- What a collector keeps: some parts in order, but not all of them. -/
structure Keeps (n : ℕ) (f : ℕ → α) (l : List (ℕ × α)) : Prop where
  sorted : Sorted l
  part : ∀ e ∈ l, e.1 ∈ List.range' 1 n ∧ e.2 = f e.1
  lt : l.length < n

theorem Keeps.nil (h : 0 < n) : Keeps n f [] :=
  ⟨List.Pairwise.nil, fun _ h => absurd h List.not_mem_nil, h⟩

/-- What the arrival of a part can do. -/
theorem step_cases {l : List (ℕ × α)} {k : ℕ} (h : Keeps n f l) (hk : k ∈ List.range' 1 n) :
    (step n f l k = (l, none) ∧ k ∈ l.map Prod.fst) ∨
    (∃ l', step n f l k = (l', none) ∧ insert k (f k) l = some l' ∧ l'.length ≠ n ∧ Keeps n f l' ∧
      l'.Perm ((k, f k) :: l)) ∨
    (∃ l', step n f l k = ([], some ((List.range' 1 n).map f)) ∧ insert k (f k) l = some l' ∧
      l'.length = n ∧ l'.map Prod.snd = (List.range' 1 n).map f ∧ l'.Perm ((k, f k) :: l) ∧
      ∀ i ∈ List.range' 1 n, i ∈ k :: l.map Prod.fst) := by
  rw [step]
  cases hins : insert k (f k) l with
  | none => exact .inl ⟨rfl, (insert_eq_none_iff h.sorted).1 hins⟩
  | some l' =>
    have hperm := insert_perm hins
    have hsorted := insert_sorted h.sorted hins
    have hpart : ∀ e ∈ l', e.1 ∈ List.range' 1 n ∧ e.2 = f e.1 := by
      intro e he
      rcases List.mem_cons.1 (hperm.mem_iff.1 he) with rfl | he
      · exact ⟨hk, rfl⟩
      · exact h.part e he
    have hlen := hperm.length_eq
    rw [List.length_cons] at hlen
    dsimp only
    by_cases hn : l'.length = n
    · have hall := eq_of_complete hsorted hpart hn
      refine .inr (.inr ⟨l', ?_, rfl, hn, hall, hperm, fun i hi => ?_⟩)
      · rw [if_pos hn, hall]
      · have hkeys : (l'.map Prod.fst).Perm (List.range' 1 n) := by
          refine (hsorted.nodup.subperm fun i hi => ?_).perm_of_length_le
            (by rw [List.length_range', List.length_map, hn])
          obtain ⟨e, he, rfl⟩ := List.mem_map.1 hi
          exact (hpart e he).1
        exact (hperm.map Prod.fst).mem_iff.1 (hkeys.mem_iff.2 hi)
    · refine .inr (.inl ⟨l', if_neg hn, rfl, hn, ⟨hsorted, hpart, ?_⟩, hperm⟩)
      have := h.lt
      omega

theorem step_keeps {l : List (ℕ × α)} {k : ℕ} (h : Keeps n f l) (hk : k ∈ List.range' 1 n) :
    Keeps n f (step n f l k).1 := by
  rcases step_cases h hk with ⟨heq, -⟩ | ⟨l', heq, -, -, hkeeps, -⟩ | ⟨l', heq, -⟩
  · rw [heq]
    exact h
  · rw [heq]
    exact hkeeps
  · rw [heq]
    exact Keeps.nil (Nat.lt_of_le_of_lt (Nat.zero_le _) h.lt)

/-- Whatever arrives, all parts are handed over each time. -/
theorem run_outputs {ks : List ℕ} {l : List (ℕ × α)} (h : Keeps n f l) (hks : ∀ k ∈ ks, k ∈ List.range' 1 n) :
    ∀ out ∈ (run n f ks l).2, out = (List.range' 1 n).map f := by
  induction ks generalizing l with
  | nil => exact fun out hout => absurd hout List.not_mem_nil
  | cons k ks ih =>
    rw [List.forall_mem_cons] at hks
    intro out hout
    rcases List.mem_append.1 hout with hnow | hlater
    · rcases step_cases h hks.1 with ⟨heq, -⟩ | ⟨l', heq, -⟩ | ⟨l', heq, -⟩
      · rw [heq] at hnow
        cases hnow
      · rw [heq] at hnow
        cases hnow
      · rw [heq] at hnow
        exact List.mem_singleton.1 hnow
    · exact ih (step_keeps h hks.1) hks.2 out hlater

/-- Something is handed over exactly if every part has arrived or was kept. -/
theorem run_ne_nil_iff {ks : List ℕ} {l : List (ℕ × α)} (h : Keeps n f l)
    (hks : ∀ k ∈ ks, k ∈ List.range' 1 n) :
    (run n f ks l).2 ≠ [] ↔ ∀ i ∈ List.range' 1 n, i ∈ ks ∨ i ∈ l.map Prod.fst := by
  induction ks generalizing l with
  | nil =>
    refine iff_of_false (fun hne => hne rfl) fun hall => ?_
    have hsub : List.range' 1 n ⊆ l.map Prod.fst :=
      fun i hi => (hall i hi).resolve_left List.not_mem_nil
    have hnodup : (List.range' 1 n).Nodup := List.nodup_range'
    have hle := (hnodup.subperm hsub).length_le
    rw [List.length_range', List.length_map] at hle
    exact absurd hle (Nat.not_le.2 h.lt)
  | cons k ks ih =>
    rw [List.forall_mem_cons] at hks
    rw [run]
    rcases step_cases h hks.1 with ⟨heq, hmem⟩ | ⟨l', heq, -, -, hkeeps, hperm⟩ | ⟨l', heq, -, -, -, -, hall⟩
    · rw [heq]
      refine (ih h hks.2).trans (forall₂_congr fun i _ => ?_)
      rw [List.mem_cons]
      constructor
      · exact Or.imp_left .inr
      · rintro ((rfl | hi) | hi)
        · exact .inr hmem
        · exact .inl hi
        · exact .inr hi
    · rw [heq]
      refine (ih hkeeps hks.2).trans (forall₂_congr fun i _ => ?_)
      rw [(hperm.map Prod.fst).mem_iff, List.map_cons, List.mem_cons, List.mem_cons]
      tauto
    · rw [heq]
      refine iff_of_true (by simp) fun i hi => ?_
      rcases List.mem_cons.1 (hall i hi) with rfl | hi
      · exact .inl List.mem_cons_self
      · exact .inr hi

end Collect
