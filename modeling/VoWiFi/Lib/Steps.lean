import Mathlib.Data.List.Nodup

/-!
# Statements one after another

A statement takes a state to the next one and may stop there. A sequence of statements is run until one
of them stops. The state in which it stops is kept, so that what has been stored up to then can be seen.
-/

namespace Steps

variable {σ ε β : Type}

/-- The statements one after another, until one of them stops. -/
def run : List (σ → σ × Option ε) → σ → σ × Option ε
  | [], s => (s, none)
  | f :: l, s =>
    match f s with
    | (s', none) => run l s'
    | (s', some e) => (s', some e)

/-- The statement leaves a view of the state alone, whether it stops or not. -/
def Keeps (view : σ → β) (f : σ → σ × Option ε) : Prop := ∀ s, view (f s).1 = view s

/-- The statement never stops. -/
def GoesOn (f : σ → σ × Option ε) : Prop := ∀ s, (f s).2 = none

/-- The statement does nothing. -/
def Idle (f : σ → σ × Option ε) : Prop := ∀ s, f s = (s, none)

variable {f : σ → σ × Option ε} {l m : List (σ → σ × Option ε)} {view : σ → β} {s s' : σ} {e : ε}

theorem run_cons_of_goes (h : f s = (s', none)) : run (f :: l) s = run l s' := by
  rw [run, h]

theorem run_cons_of_stops (h : f s = (s', some e)) : run (f :: l) s = (s', some e) := by
  rw [run, h]

theorem run_append_of_goes (h : run l s = (s', none)) : run (l ++ m) s = run m s' := by
  induction l generalizing s with
  | nil =>
    cases h
    rfl
  | cons f l ih =>
    rcases hf : f s with ⟨t, _ | e⟩
    · rw [run_cons_of_goes hf] at h
      rw [List.cons_append, run_cons_of_goes hf, ih h]
    · rw [run_cons_of_stops hf] at h
      cases h

theorem run_append_of_stops (h : run l s = (s', some e)) : run (l ++ m) s = (s', some e) := by
  induction l generalizing s with
  | nil => cases h
  | cons f l ih =>
    rcases hf : f s with ⟨t, _ | e'⟩
    · rw [run_cons_of_goes hf] at h
      rw [List.cons_append, run_cons_of_goes hf, ih h]
    · rw [run_cons_of_stops hf] at h
      rw [List.cons_append, run_cons_of_stops hf, h]

/-- What every statement leaves alone, the sequence leaves alone. -/
theorem Keeps.run (h : ∀ f ∈ l, Keeps view f) : Keeps view (run l) := by
  intro s
  induction l generalizing s with
  | nil => rfl
  | cons f l ih =>
    rw [List.forall_mem_cons] at h
    have hview := h.1 s
    rcases hf : f s with ⟨t, _ | e⟩
    · rw [run_cons_of_goes hf, ih h.2 t]
      rwa [hf] at hview
    · rw [run_cons_of_stops hf]
      rwa [hf] at hview

/-- A sequence of statements that never stop does not stop. -/
theorem GoesOn.run (h : ∀ f ∈ l, GoesOn f) : GoesOn (run l) := by
  intro s
  induction l generalizing s with
  | nil => rfl
  | cons f l ih =>
    rw [List.forall_mem_cons] at h
    have hgoes := h.1 s
    rcases hf : f s with ⟨t, _ | e⟩
    · rw [run_cons_of_goes hf]
      exact ih h.2 t
    · rw [hf] at hgoes
      cases hgoes

theorem Idle.run (h : ∀ f ∈ l, Idle f) : Idle (run l) := by
  intro s
  induction l with
  | nil => rfl
  | cons f l ih =>
    rw [List.forall_mem_cons] at h
    rw [run_cons_of_goes (h.1 s)]
    exact ih h.2

/-- If the sequence changes the state, one of its statements changes the state at the beginning. -/
theorem exists_change (h : run l s = (s', none)) (hne : s' ≠ s) :
    ∃ f ∈ l, ∃ t, f s = (t, none) ∧ t ≠ s := by
  induction l with
  | nil =>
    cases h
    exact absurd rfl hne
  | cons f l ih =>
    rcases hf : f s with ⟨t, _ | e⟩
    · by_cases hts : t = s
      · rw [run_cons_of_goes hf, hts] at h
        obtain ⟨g, hg, hchange⟩ := ih h
        exact ⟨g, List.mem_cons_of_mem _ hg, hchange⟩
      · exact ⟨f, List.mem_cons_self, t, hf, hts⟩
    · rw [run_cons_of_stops hf] at h
      cases h

/-- Of a family of statements that are all idle but one, the sequence does what that one does. -/
theorem run_map_of_idle {ι : Type} {P : ι → σ → σ × Option ε} {is : List ι} {i : ι} (hi : i ∈ is)
    (hnd : is.Nodup) (hidle : ∀ j ∈ is, j ≠ i → Idle (P j)) (s : σ) :
    Steps.run (is.map P) s = P i s := by
  induction is with
  | nil => cases hi
  | cons j is ih =>
    rw [List.nodup_cons] at hnd
    rw [List.forall_mem_cons] at hidle
    by_cases hij : j = i
    · subst hij
      have hrest : Idle (Steps.run (is.map P)) := by
        refine Idle.run fun f hf => ?_
        obtain ⟨k, hk, rfl⟩ := List.mem_map.1 hf
        exact hidle.2 k hk fun hkj => hnd.1 (hkj ▸ hk)
      rcases hP : P j s with ⟨t, _ | e⟩
      · rw [List.map_cons, run_cons_of_goes hP, hrest t]
      · rw [List.map_cons, run_cons_of_stops hP]
    · rw [List.map_cons, run_cons_of_goes (hidle.1 hij s)]
      refine ih ?_ hnd.2 hidle.2
      exact (List.mem_cons.1 hi).resolve_left (Ne.symm hij)

/-- The view after a sequence of which only one statement changes it: that of this statement, if it is
reached. -/
theorem view_run_append (hl : ∀ g ∈ l, Keeps view g) (hm : ∀ g ∈ m, Keeps view g) (s : σ) :
    view (run (l ++ f :: m) s).1 =
      if (run l s).2 = none then view (f (run l s).1).1 else view s := by
  have hpre := Keeps.run hl s
  rcases hrun : run l s with ⟨t, _ | e⟩
  · rw [if_pos rfl, run_append_of_goes hrun]
    rcases hf : f t with ⟨u, _ | e⟩
    · rw [run_cons_of_goes hf]
      exact Keeps.run hm u
    · rw [run_cons_of_stops hf]
  · rw [if_neg nofun, run_append_of_stops hrun]
    rwa [hrun] at hpre

/-- A sequence of which only one statement can stop, stops if this one does. -/
theorem stop_run_append (hl : ∀ g ∈ l, GoesOn g) (hm : ∀ g ∈ m, GoesOn g) (s : σ) :
    (run (l ++ f :: m) s).2 = (f (run l s).1).2 := by
  have hpre := GoesOn.run hl s
  rcases hrun : run l s with ⟨t, _ | e⟩
  · rw [run_append_of_goes hrun]
    rcases hf : f t with ⟨u, _ | e⟩
    · rw [run_cons_of_goes hf]
      exact GoesOn.run hm u
    · rw [run_cons_of_stops hf]
  · rw [hrun] at hpre
    cases hpre

end Steps
