import Mathlib.Data.List.Nodup

/-!
# Updates with a footprint

A state is seen through a family of views. An update is local to one index if it leaves all other
views alone, and does something at all only if its own view shows it. A sequence of updates that are
local to different indices can therefore not undo each other: if it ends where it began, then none of
them has done anything.
-/

namespace Footprint

variable {σ ι β ε : Type} (view : ι → σ → β)

/-- The update changes at most the view at `i`, and the state only together with that view. -/
structure Local (i : ι) (f : σ → Except ε σ) : Prop where
  frame : ∀ s s', f s = .ok s' → ∀ j, j ≠ i → view j s' = view j s
  visible : ∀ s s', f s = .ok s' → view i s' = view i s → s' = s

/-- Whether the update fails shows in the view at `i`. -/
def Decided (i : ι) (f : σ → Except ε σ) : Prop :=
  ∀ s t, view i s = view i t → (∃ s', f s = .ok s') → ∃ t', f t = .ok t'

variable {view} {i : ι} {f : σ → Except ε σ} {l : List (ι × (σ → Except ε σ))}

theorem Local.ok : Local view i (Except.ok : σ → Except ε σ) where
  frame := by
    rintro s _ ⟨⟩ j _
    rfl
  visible := by
    rintro s _ ⟨⟩ _
    rfl

theorem Local.error (e : ε) : Local view i fun _ : σ => Except.error e := ⟨nofun, nofun⟩

/-- An update that does in every state what some local update does is local. -/
theorem Local.of_forall_exists (h : ∀ s, ∃ g, Local view i g ∧ f s = g s) : Local view i f where
  frame s s' hs := by
    obtain ⟨g, hg, hfg⟩ := h s
    exact hg.frame s s' (hfg ▸ hs)
  visible s s' hs := by
    obtain ⟨g, hg, hfg⟩ := h s
    exact hg.visible s s' (hfg ▸ hs)

/-- The updates one after another. -/
def runAll (l : List (ι × (σ → Except ε σ))) (s : σ) : Except ε σ := l.foldlM (fun s p => p.2 s) s

theorem runAll_cons (p : ι × (σ → Except ε σ)) (s : σ) :
    runAll (p :: l) s = (p.2 s).bind (runAll l) := by
  simp only [runAll, List.foldlM_cons]
  rfl

theorem runAll_cons_eq_ok {p : ι × (σ → Except ε σ)} {s t : σ} (h : runAll (p :: l) s = .ok t) :
    ∃ s', p.2 s = .ok s' ∧ runAll l s' = .ok t := by
  rw [runAll_cons] at h
  cases hp : p.2 s with
  | error e =>
    rw [hp] at h
    cases h
  | ok s' =>
    rw [hp] at h
    exact ⟨s', rfl, h⟩

theorem view_runAll (hl : ∀ p ∈ l, Local view p.1 p.2) (hi : i ∉ l.map Prod.fst) {s t : σ}
    (h : runAll l s = .ok t) : view i t = view i s := by
  induction l generalizing s with
  | nil =>
    cases h
    rfl
  | cons p l ih =>
    obtain ⟨s', hp, hrest⟩ := runAll_cons_eq_ok h
    rw [List.map_cons, List.mem_cons, not_or] at hi
    rw [ih (fun q hq => hl q (List.mem_cons_of_mem _ hq)) hi.2 hrest]
    exact (hl p List.mem_cons_self).frame s s' hp i hi.1

/-- Local updates at different indices end where they began only if none of them does anything. -/
theorem runAll_eq_self_iff (hl : ∀ p ∈ l, Local view p.1 p.2) (hnd : (l.map Prod.fst).Nodup) {s : σ} :
    runAll l s = .ok s ↔ ∀ p ∈ l, p.2 s = .ok s := by
  induction l with
  | nil => simp [runAll, pure, Except.pure]
  | cons p l ih =>
    rw [List.map_cons, List.nodup_cons] at hnd
    have hl' : ∀ q ∈ l, Local view q.1 q.2 := fun q hq => hl q (List.mem_cons_of_mem _ hq)
    have ih := ih hl' hnd.2
    rw [List.forall_mem_cons, ← ih]
    constructor
    · intro h
      obtain ⟨s', hp, hrest⟩ := runAll_cons_eq_ok h
      -- no later update shows at the index of the first one
      have hview : view p.1 s = view p.1 s' := view_runAll hl' hnd.1 hrest
      obtain rfl := (hl p List.mem_cons_self).visible s s' hp hview.symm
      exact ⟨hp, hrest⟩
    · rintro ⟨hp, hrest⟩
      rw [runAll_cons, hp]
      exact hrest

/-- Local updates at different indices succeed one after another exactly if each of them succeeds at the
start. -/
theorem exists_runAll_iff (hl : ∀ p ∈ l, Local view p.1 p.2) (hd : ∀ p ∈ l, Decided view p.1 p.2)
    (hnd : (l.map Prod.fst).Nodup) {s : σ} :
    (∃ t, runAll l s = .ok t) ↔ ∀ p ∈ l, ∃ s', p.2 s = .ok s' := by
  induction l generalizing s with
  | nil => exact iff_of_true ⟨s, rfl⟩ (List.forall_mem_nil _)
  | cons p l ih =>
    rw [List.map_cons, List.nodup_cons] at hnd
    rw [List.forall_mem_cons] at hl hd ⊢
    -- the first update does not show at the indices of the others
    have hsame : ∀ s', p.2 s = .ok s' → ∀ q ∈ l, view q.1 s' = view q.1 s := by
      intro s' hs q hq
      refine hl.1.frame s s' hs q.1 fun heq => hnd.1 ?_
      exact heq ▸ List.mem_map_of_mem hq
    constructor
    · rintro ⟨t, ht⟩
      obtain ⟨s', hs, hrest⟩ := runAll_cons_eq_ok ht
      refine ⟨⟨s', hs⟩, fun q hq => ?_⟩
      exact hd.2 q hq s' s (hsame s' hs q hq) ((ih hl.2 hd.2 hnd.2).1 ⟨t, hrest⟩ q hq)
    · rintro ⟨⟨s', hs⟩, hrest⟩
      rw [runAll_cons, hs]
      refine (ih hl.2 hd.2 hnd.2).2 fun q hq => ?_
      exact hd.2 q hq s s' (hsame s' hs q hq).symm (hrest q hq)

theorem runAll_append (l₁ l₂ : List (ι × (σ → Except ε σ))) (s : σ) :
    runAll (l₁ ++ l₂) s = (runAll l₁ s).bind (runAll l₂) := List.foldlM_append

end Footprint
