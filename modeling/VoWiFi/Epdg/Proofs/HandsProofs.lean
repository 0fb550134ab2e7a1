import VoWiFi.Epdg.Proofs.SaRunProofs

/-!
# In whose hands an IKE SA is

The threads that hold SAs, and the marks in the entries by which the manager knows of them. An SA gets into
the hands of a thread when it is created or checked out, and it leaves them when it is checked in or
destroyed.
-/

namespace Epdg

namespace SaTable

variable {θ : Type} {c : TableConfig} {m m' : SaTable θ} {e e' s s' : ℕ} {en : SaEntry θ} {t t' : θ}

/-- The entry is in the table, or it is about to be put into it. -/
def Live (c : TableConfig) (m : SaTable θ) (e : ℕ) : Prop :=
  m.Linked c e ∨ ∃ t k, m.activity t = .putting e k

/-- SAs are held by one thread at a time. -/
structure Exclusive (c : TableConfig) (m : SaTable θ) : Prop where
  unique : ∀ s t t', s ∈ m.held t → s ∈ m.held t' → t = t'
  nodup : ∀ t, (m.held t).Nodup
  out : ∀ e t, m.Linked c e → ((m.entries e).checkedOut = some t ↔
    (m.entries e).ikeSa ∈ m.held t ∨ m.activity t = .destroying e)
  injective : ∀ e e', m.Live c e → m.Live c e' → (m.entries e).ikeSa = (m.entries e').ikeSa → e = e'
  putting : ∀ t e k, m.activity t = .putting e k → (m.entries e).checkedOut = none ∧
    ∀ t', (m.entries e).ikeSa ∈ m.held t' ↔ k = true ∧ t' = t
  destroying : ∀ t e, m.activity t = .destroying e → ∀ t', (m.entries e).ikeSa ∉ m.held t'
  managed : ∀ t s, s ∈ m.held t → (m.sas s).managed = true →
    (∃ e, m.Linked c e ∧ (m.entries e).ikeSa = s) ∨
      ∃ e k, m.activity t = .putting e k ∧ (m.entries e).ikeSa = s
  entry_managed : ∀ e < m.nextEntry, (m.sas (m.entries e).ikeSa).managed = true
  fresh : ∀ s, m.nextSa ≤ s → (m.sas s).managed = false

theorem exclusive_create : Exclusive c (create : SaTable θ) where
  unique := fun _ _ _ hs => absurd hs List.not_mem_nil
  nodup := fun _ => List.nodup_nil
  out := fun _ _ he => absurd he List.not_mem_nil
  injective := fun _ _ he => by
    rcases he with he | ⟨t, k, ht⟩
    · exact absurd he List.not_mem_nil
    · cases ht
  putting := fun _ _ _ ht => by cases ht
  destroying := fun _ _ ht => by cases ht
  managed := fun _ _ hs => absurd hs List.not_mem_nil
  entry_managed := fun _ he => absurd he (Nat.not_lt_zero _)
  fresh := fun _ _ => rfl

/-- A thread neither creates an entry nor waits to destroy one. -/
def Idle (a : Activity) : Prop := (∀ e, a ≠ .destroying e) ∧ ∀ e k, a ≠ .putting e k

/-- Two activities are the same for those who hold SAs. -/
def Alike (a a' : Activity) : Prop := a = a' ∨ Idle a ∧ Idle a'

theorem Alike.destroying {a a' : Activity} (h : Alike a a') :
    a = .destroying e ↔ a' = .destroying e := by
  rcases h with rfl | ⟨ha, ha'⟩
  · exact Iff.rfl
  · exact iff_of_false (ha.1 e) (ha'.1 e)

theorem Alike.putting {a a' : Activity} {k : Bool} (h : Alike a a') :
    a = .putting e k ↔ a' = .putting e k := by
  rcases h with rfl | ⟨ha, ha'⟩
  · exact Iff.rfl
  · exact iff_of_false (ha.2 e k) (ha'.2 e k)

theorem idle_running : Idle .running := by
  constructor
  · intro e h
    cases h
  · intro e k h
    cases h

theorem idle_waiting {p : Purpose} : Idle (.waiting e p) := by
  constructor
  · intro e h
    cases h
  · intro e k h
    cases h

theorem idle_removing : Idle (.removing e) := by
  constructor
  · intro e h
    cases h
  · intro e k h
    cases h

theorem alike_update [DecidableEq θ] {a : Activity} (hbefore : Idle (m.activity t))
    (hafter : Idle a) (t' : θ) :
    Alike (m.activity t') (Function.update m.activity t a t') := by
  by_cases ht : t' = t
  · rw [ht, Function.update_self]
    exact Or.inr ⟨hbefore, hafter⟩
  · rw [Function.update_of_ne ht]
    exact Or.inl rfl

/-- A change that does not concern those who hold SAs. -/
theorem Exclusive.of_same (h : Exclusive c m) (hheld : m'.held = m.held)
    (hlinked : ∀ e, m'.Linked c e ↔ m.Linked c e)
    (hentry : ∀ e, (m'.entries e).ikeSa = (m.entries e).ikeSa ∧
      (m'.entries e).checkedOut = (m.entries e).checkedOut)
    (hactivity : ∀ t, Alike (m.activity t) (m'.activity t))
    (hmanaged : ∀ s, (m'.sas s).managed = (m.sas s).managed)
    (hnext : m'.nextEntry = m.nextEntry) (hnextSa : m.nextSa ≤ m'.nextSa) : Exclusive c m' := by
  have hlive : ∀ e, m'.Live c e → m.Live c e := by
    rintro e (he | ⟨t, k, ht⟩)
    · exact Or.inl ((hlinked e).1 he)
    · exact Or.inr ⟨t, k, (hactivity t).putting.2 ht⟩
  constructor
  · rw [hheld]
    exact h.unique
  · rw [hheld]
    exact h.nodup
  · intro e t he
    rw [(hentry e).1, (hentry e).2, hheld, h.out e t ((hlinked e).1 he), (hactivity t).destroying]
  · intro e e' he he' hsa
    rw [(hentry e).1, (hentry e').1] at hsa
    exact h.injective e e' (hlive e he) (hlive e' he') hsa
  · intro t e k ht
    rw [(hentry e).1, (hentry e).2, hheld]
    exact h.putting t e k ((hactivity t).putting.2 ht)
  · intro t e ht
    rw [(hentry e).1, hheld]
    exact h.destroying t e ((hactivity t).destroying.2 ht)
  · intro t s hs hm
    rw [hheld] at hs
    rw [hmanaged] at hm
    rcases h.managed t s hs hm with ⟨e, he, hsa⟩ | ⟨e, k, ht, hsa⟩
    · exact Or.inl ⟨e, (hlinked e).2 he, (hentry e).1.trans hsa⟩
    · exact Or.inr ⟨e, k, (hactivity t).putting.1 ht, (hentry e).1.trans hsa⟩
  · intro e he
    rw [hnext] at he
    rw [(hentry e).1, hmanaged]
    exact h.entry_managed e he
  · intro s hs
    rw [hmanaged]
    exact h.fresh s (hnextSa.trans hs)

/-- A change of an entry that does not concern those who hold SAs. -/
theorem Exclusive.setEntry (h : Exclusive c m)
    (hrow : c.row en.ikeSaId = c.row (m.entries e).ikeSaId)
    (hsa : en.ikeSa = (m.entries e).ikeSa) (hout : en.checkedOut = (m.entries e).checkedOut) :
    Exclusive c (m.setEntry e en) := by
  refine h.of_same rfl (fun e' => linked_setEntry hrow) (fun e' => ?_) (fun t => Or.inl rfl)
    (fun s => rfl) rfl le_rfl
  show (Function.update m.entries e en e').ikeSa = _ ∧
    (Function.update m.entries e en e').checkedOut = _
  by_cases he : e' = e
  · subst he
    rw [Function.update_self]
    exact ⟨hsa, hout⟩
  · rw [Function.update_of_ne he]
    exact ⟨rfl, rfl⟩

theorem Exclusive.setSa (h : Exclusive c m) {sa : IkeSa} (hm : sa.managed = (m.sas s).managed) :
    Exclusive c (m.setSa s sa) := by
  refine h.of_same rfl (fun e => Iff.rfl) (fun e => ⟨rfl, rfl⟩) (fun t => Or.inl rfl)
    (fun s' => ?_) rfl le_rfl
  show (Function.update m.sas s sa s').managed = _
  by_cases hs : s' = s
  · subst hs
    rw [Function.update_self, hm]
  · rw [Function.update_of_ne hs]

section

variable [DecidableEq θ]

theorem update_activity_iff {activity : θ → Activity} {a a' : Activity} :
    Function.update activity t a t' = a' ↔ t' = t ∧ a = a' ∨ t' ≠ t ∧ activity t' = a' := by
  by_cases ht : t' = t
  · subst ht
    rw [Function.update_self]
    simp only [true_and, ne_eq, not_true_eq_false, false_and, or_false]
  · rw [Function.update_of_ne ht]
    simp only [ht, false_and, ne_eq, not_false_eq_true, true_and, false_or]

/-- A thread goes from one activity to another one, and neither is the one that is looked for. -/
theorem update_activity_iff_of_ne {activity : θ → Activity} {a a' : Activity}
    (hbefore : activity t ≠ a') (hafter : a ≠ a') :
    Function.update activity t a t' = a' ↔ activity t' = a' := by
  rw [update_activity_iff]
  constructor
  · rintro (⟨-, heq⟩ | ⟨-, heq⟩)
    · exact absurd heq hafter
    · exact heq
  · intro heq
    exact Or.inr ⟨fun htt => hbefore (htt ▸ heq), heq⟩

/-! ## Getting an SA and giving it back -/

theorem mem_held_hold : s' ∈ (m.hold t s).held t' ↔ s' ∈ m.held t' ∨ s' = s ∧ t' = t := by
  show s' ∈ Function.update m.held t (s :: m.held t) t' ↔ _
  by_cases ht : t' = t
  · subst ht
    rw [Function.update_self, List.mem_cons, or_comm]
    simp only [and_true]
  · rw [Function.update_of_ne ht]
    simp only [ht, and_false, or_false]

theorem mem_held_hold_of_ne (hs : s' ≠ s) : s' ∈ (m.hold t s).held t' ↔ s' ∈ m.held t' := by
  rw [mem_held_hold]
  simp only [hs, false_and, or_false]

/-- An SA that no thread had is in the hands of the one that gets it. -/
theorem mem_held_hold_self (hnobody : ∀ t', s ∉ m.held t') : s ∈ (m.hold t s).held t' ↔ t' = t := by
  rw [mem_held_hold]
  simp only [hnobody t', false_or, true_and]

theorem mem_held_giveBack (hnodup : (m.held t).Nodup) :
    s' ∈ (m.giveBack t s).held t' ↔ s' ∈ m.held t' ∧ ¬(s' = s ∧ t' = t) := by
  show s' ∈ Function.update m.held t ((m.held t).erase s) t' ↔ _
  by_cases ht : t' = t
  · subst ht
    rw [Function.update_self, hnodup.mem_erase_iff, and_comm]
    simp only [and_true, ne_eq]
  · rw [Function.update_of_ne ht]
    simp only [ht, and_false, not_false_eq_true, and_true]

theorem mem_held_giveBack_of_ne (hnodup : (m.held t).Nodup) (hs : s' ≠ s) :
    s' ∈ (m.giveBack t s).held t' ↔ s' ∈ m.held t' := by
  rw [mem_held_giveBack hnodup]
  simp only [hs, false_and, not_false_eq_true, and_true]

theorem nodup_giveBack (hnodup : ∀ t, (m.held t).Nodup) (t' : θ) :
    ((m.giveBack t s).held t').Nodup := by
  show (Function.update m.held t ((m.held t).erase s) t').Nodup
  by_cases ht : t' = t
  · rw [ht, Function.update_self]
    exact (hnodup t).erase s
  · rw [Function.update_of_ne ht]
    exact hnodup t'

theorem nodup_hold (hnodup : ∀ t, (m.held t).Nodup) (hs : s ∉ m.held t) (t' : θ) :
    ((m.hold t s).held t').Nodup := by
  show (Function.update m.held t (s :: m.held t) t').Nodup
  by_cases ht : t' = t
  · rw [ht, Function.update_self]
    exact List.nodup_cons.2 ⟨hs, hnodup t⟩
  · rw [Function.update_of_ne ht]
    exact hnodup t'

omit [DecidableEq θ] in
/-- No thread has the SA of an entry that is not checked out. -/
theorem Exclusive.not_mem_held (h : Exclusive c m) (he : m.Linked c e)
    (hout : (m.entries e).checkedOut = none) (t : θ) :
    (m.entries e).ikeSa ∉ m.held t ∧ m.activity t ≠ .destroying e := by
  have hiff := h.out e t he
  rw [hout] at hiff
  constructor
  · intro hmem
    cases hiff.2 (Or.inl hmem)
  · intro ht
    cases hiff.2 (Or.inr ht)

/-- A change of who has the SA of one entry, which may be unlinked. -/
structure Hands (c : TableConfig) (m m' : SaTable θ) (e : ℕ) : Prop where
  linked : ∀ e', m'.Linked c e' → m.Linked c e'
  keeps : ∀ e' ≠ e, m.Linked c e' → m'.Linked c e'
  stays : m'.Linked c e ∨ ∀ t, (m.entries e).ikeSa ∉ m'.held t
  ikeSa : ∀ e', (m'.entries e').ikeSa = (m.entries e').ikeSa
  checkedOut : ∀ e' ≠ e, (m'.entries e').checkedOut = (m.entries e').checkedOut
  held : ∀ s ≠ (m.entries e).ikeSa, ∀ t, s ∈ m'.held t ↔ s ∈ m.held t
  nodup : ∀ t, (m'.held t).Nodup
  unique : ∀ t t', (m.entries e).ikeSa ∈ m'.held t → (m.entries e).ikeSa ∈ m'.held t' → t = t'
  out : m'.Linked c e → ∀ t, (m'.entries e).checkedOut = some t ↔
    (m.entries e).ikeSa ∈ m'.held t ∨ m'.activity t = .destroying e
  putting : ∀ t e' k, m'.activity t = .putting e' k ↔ m.activity t = .putting e' k
  destroying : ∀ t, ∀ e' ≠ e, m'.activity t = .destroying e' ↔ m.activity t = .destroying e'
  destroyed : ∀ t, m'.activity t = .destroying e → ∀ t', (m.entries e).ikeSa ∉ m'.held t'
  managed : ∀ s, (m'.sas s).managed = (m.sas s).managed
  next : m'.nextEntry = m.nextEntry
  nextSa : m'.nextSa = m.nextSa

omit [DecidableEq θ] in
/-- Only the SA of the entry changes hands. -/
theorem Exclusive.hands (h : Exclusive c m) (hf : ∀ t, Fits c m (m.activity t))
    (he : m.Linked c e) (hc : Hands c m m' e) : Exclusive c m' := by
  have hlive : ∀ e', m'.Live c e' → m.Live c e' := by
    rintro e' (he' | ⟨t, k, ht⟩)
    · exact Or.inl (hc.linked e' he')
    · exact Or.inr ⟨t, k, (hc.putting t e' k).1 ht⟩
  -- an entry other than this one has another SA
  have hsa : ∀ e', m.Live c e' → e' ≠ e → (m.entries e').ikeSa ≠ (m.entries e).ikeSa :=
    fun e' he' hne hsame => hne (h.injective e' e he' (Or.inl he) hsame)
  constructor
  · intro s t t' hs hs'
    by_cases hse : s = (m.entries e).ikeSa
    · subst hse
      exact hc.unique t t' hs hs'
    · exact h.unique s t t' ((hc.held s hse t).1 hs) ((hc.held s hse t').1 hs')
  · exact hc.nodup
  · intro e' t he'
    rw [hc.ikeSa]
    by_cases hne : e' = e
    · subst hne
      exact hc.out he' t
    · have hlinked := hc.linked e' he'
      rw [hc.checkedOut e' hne, h.out e' t hlinked, hc.held _ (hsa e' (Or.inl hlinked) hne),
        hc.destroying t e' hne]
  · intro e₁ e₂ h₁ h₂ hsame
    rw [hc.ikeSa, hc.ikeSa] at hsame
    exact h.injective e₁ e₂ (hlive e₁ h₁) (hlive e₂ h₂) hsame
  · intro t e' k ht
    have ht' := (hc.putting t e' k).1 ht
    have hne : e' ≠ e := fun heq => (fits_of_putting hf ht').2 (heq ▸ he)
    obtain ⟨hnone, hheld⟩ := h.putting t e' k ht'
    refine ⟨(hc.checkedOut e' hne).trans hnone, fun t'' => ?_⟩
    rw [hc.ikeSa, hc.held _ (hsa e' (Or.inr ⟨t, k, ht'⟩) hne), hheld]
  · intro t e' ht t' hheld
    rw [hc.ikeSa] at hheld
    by_cases hne : e' = e
    · subst hne
      exact hc.destroyed t ht t' hheld
    · have ht' := (hc.destroying t e' hne).1 ht
      rw [hc.held _ (hsa e' (Or.inl (linked_of_destroying hf ht')) hne)] at hheld
      exact h.destroying t e' ht' t' hheld
  · intro t s hs hm
    rw [hc.managed] at hm
    by_cases hse : s = (m.entries e).ikeSa
    · subst hse
      rcases hc.stays with hlinked | hnot
      · exact Or.inl ⟨e, hlinked, hc.ikeSa e⟩
      · exact absurd hs (hnot t)
    · rcases h.managed t s ((hc.held s hse t).1 hs) hm with ⟨e', he', hsame⟩ | ⟨e', k, ht', hsame⟩
      · have hne : e' ≠ e := fun heq => hse (heq ▸ hsame).symm
        exact Or.inl ⟨e', hc.keeps e' hne he', (hc.ikeSa e').trans hsame⟩
      · exact Or.inr ⟨e', k, (hc.putting t e' k).2 ht', (hc.ikeSa e').trans hsame⟩
  · intro e' he'
    rw [hc.next] at he'
    rw [hc.ikeSa, hc.managed]
    exact h.entry_managed e' he'
  · intro s hs
    rw [hc.nextSa] at hs
    rw [hc.managed]
    exact h.fresh s hs

omit [DecidableEq θ] in
theorem ikeSa_setEntry (hsa : en.ikeSa = (m.entries e).ikeSa) (e' : ℕ) :
    ((m.setEntry e en).entries e').ikeSa = (m.entries e').ikeSa := by
  show (Function.update m.entries e en e').ikeSa = _
  by_cases he : e' = e
  · rw [he, Function.update_self, hsa]
  · rw [Function.update_of_ne he]

omit [DecidableEq θ] in
theorem checkedOut_setEntry (e' : ℕ) (he : e' ≠ e) :
    ((m.setEntry e en).entries e').checkedOut = (m.entries e').checkedOut := by
  show (Function.update m.entries e en e').checkedOut = _
  rw [Function.update_of_ne he]

/-- An entry that is not checked out is checked out by a thread. -/
theorem Exclusive.checkOut (h : Exclusive c m) (hf : ∀ t, Fits c m (m.activity t))
    (he : m.Linked c e) (hout : (m.entries e).checkedOut = none) (t : θ) :
    Exclusive c (m.checkOut t e) := by
  have hfree := h.not_mem_held he hout
  have hnow : ∀ t', (m.entries e).ikeSa ∈ (m.checkOut t e).held t' ↔ t' = t :=
    fun t' => mem_held_hold_self (m := m.setEntry e _) fun t'' => (hfree t'').1
  refine h.hands hf he
    { linked := fun e' => linked_checkOut.1
      keeps := fun e' _ => linked_checkOut.2
      stays := Or.inl (linked_checkOut.2 he)
      ikeSa := fun e' => by refine ikeSa_setEntry (m := m) ?_ e'; rfl
      checkedOut := fun e' he' => checkedOut_setEntry (m := m) e' he'
      held := fun s hs t' => mem_held_hold_of_ne hs
      nodup := nodup_hold (m := m.setEntry e _) h.nodup (hfree t).1
      unique := fun t₁ t₂ h₁ h₂ => ((hnow t₁).1 h₁).trans ((hnow t₂).1 h₂).symm
      out := fun _ t' => ?_
      putting := fun _ _ _ => Iff.rfl
      destroying := fun _ _ _ => Iff.rfl
      destroyed := fun t' ht' => absurd ht' (hfree t').2
      managed := fun _ => rfl
      next := rfl
      nextSa := rfl }
  · rw [hnow]
    show (Function.update m.entries e _ e).checkedOut = some t' ↔ _
    rw [Function.update_self]
    constructor
    · exact fun hsome => Or.inl (Option.some.inj hsome).symm
    · rintro (rfl | hdestroying)
      · rfl
      · exact absurd hdestroying (hfree t').2

/-- An SA that a thread has given back is in no hands. -/
theorem Exclusive.not_mem_giveBack (h : Exclusive c m) (hs : s ∈ m.held t) (t' : θ) :
    s ∉ (m.giveBack t s).held t' := by
  intro hheld
  obtain ⟨hbefore, hnot⟩ := (mem_held_giveBack (h.nodup t)).1 hheld
  exact hnot ⟨rfl, h.unique s t' t hbefore hs⟩

omit [DecidableEq θ] in
/-- The entry of an SA that a thread works with is not about to be destroyed. -/
theorem Exclusive.not_destroying (h : Exclusive c m) (hs : (m.entries e).ikeSa ∈ m.held t)
    (t' : θ) : m.activity t' ≠ .destroying e :=
  fun ht' => h.destroying t' e ht' t hs

/-- A thread gives back an SA and sets the entry free. -/
theorem Exclusive.checkinEntry (h : Exclusive c m) (hf : ∀ t, Fits c m (m.activity t))
    (he : m.Linked c e) (hs : (m.entries e).ikeSa ∈ m.held t)
    (hrow : c.row en.ikeSaId = c.row (m.entries e).ikeSaId)
    (hsa : en.ikeSa = (m.entries e).ikeSa) (hout : en.checkedOut = none) :
    Exclusive c ((m.giveBack t (m.entries e).ikeSa).setEntry e en) := by
  have hlinked : ∀ e', ((m.giveBack t (m.entries e).ikeSa).setEntry e en).Linked c e' ↔
      m.Linked c e' := fun e' => linked_setEntry (m := m.giveBack t _) hrow
  have hnobody := h.not_mem_giveBack hs
  refine h.hands hf he
    { linked := fun e' => (hlinked e').1
      keeps := fun e' _ => (hlinked e').2
      stays := Or.inl ((hlinked e).2 he)
      ikeSa := fun e' => ikeSa_setEntry (m := m.giveBack t _) hsa e'
      checkedOut := fun e' he' => checkedOut_setEntry (m := m.giveBack t _) e' he'
      held := fun s hs t' => mem_held_giveBack_of_ne (h.nodup t) hs
      nodup := nodup_giveBack h.nodup
      unique := fun t₁ _ h₁ => absurd h₁ (hnobody t₁)
      out := fun _ t' => ?_
      putting := fun _ _ _ => Iff.rfl
      destroying := fun _ _ _ => Iff.rfl
      destroyed := fun t' ht' => absurd ht' (h.not_destroying hs t')
      managed := fun _ => rfl
      next := rfl
      nextSa := rfl }
  · show (Function.update m.entries e en e).checkedOut = some t' ↔ _
    rw [Function.update_self, hout]
    refine iff_of_false (fun hnone => by cases hnone) ?_
    rintro (hheld | hdestroying)
    · exact hnobody t' hheld
    · exact h.not_destroying hs t' hdestroying

/-- A thread begins to destroy the entry of an SA that it has. -/
theorem Exclusive.beginDestroy (h : Exclusive c m) (hf : ∀ t, Fits c m (m.activity t))
    (he : m.Linked c e) (hs : (m.entries e).ikeSa ∈ m.held t) (ht : m.activity t = .running)
    (hrow : c.row en.ikeSaId = c.row (m.entries e).ikeSaId)
    (hsa : en.ikeSa = (m.entries e).ikeSa) (hout : en.checkedOut = (m.entries e).checkedOut) :
    Exclusive c (((m.giveBack t (m.entries e).ikeSa).setEntry e en).setActivity t
      (.destroying e)) := by
  have hlinked : ∀ e', (((m.giveBack t (m.entries e).ikeSa).setEntry e en).setActivity t
      (.destroying e)).Linked c e' ↔ m.Linked c e' :=
    fun e' => linked_setEntry (m := m.giveBack t _) hrow
  have hnobody := h.not_mem_giveBack hs
  refine h.hands hf he
    { linked := fun e' => (hlinked e').1
      keeps := fun e' _ => (hlinked e').2
      stays := Or.inl ((hlinked e).2 he)
      ikeSa := fun e' => ikeSa_setEntry (m := m.giveBack t _) hsa e'
      checkedOut := fun e' he' => checkedOut_setEntry (m := m.giveBack t _) e' he'
      held := fun s hs t' => mem_held_giveBack_of_ne (h.nodup t) hs
      nodup := nodup_giveBack h.nodup
      unique := fun t₁ _ h₁ => absurd h₁ (hnobody t₁)
      out := fun _ t' => ?_
      putting := fun t' e' k => ?_
      destroying := fun t' e' hne => ?_
      destroyed := fun _ _ => hnobody
      managed := fun _ => rfl
      next := rfl
      nextSa := rfl }
  · show (Function.update m.entries e en e).checkedOut = some t' ↔
      _ ∨ Function.update m.activity t (.destroying e) t' = .destroying e
    rw [Function.update_self, hout, (h.out e t he).2 (Or.inl hs), update_activity_iff]
    constructor
    · exact fun hsome => Or.inr (Or.inl ⟨(Option.some.inj hsome).symm, rfl⟩)
    · rintro (hheld | ⟨rfl, -⟩ | ⟨-, hdestroying⟩)
      · exact absurd hheld (hnobody t')
      · rfl
      · exact absurd hdestroying (h.not_destroying hs t')
  · show Function.update m.activity t _ t' = .putting e' k ↔ _
    exact update_activity_iff_of_ne (by rw [ht]; exact fun heq => by cases heq)
      fun heq => by cases heq
  · show Function.update m.activity t _ t' = .destroying e' ↔ _
    exact update_activity_iff_of_ne (by rw [ht]; exact fun heq => by cases heq)
      fun heq => hne (Activity.destroying.inj heq).symm

/-- A thread that destroys an entry goes on waiting, or unlinks it. -/
theorem Exclusive.driveOut (h : Exclusive c m) (hf : ∀ t, Fits c m (m.activity t))
    (hnodup : ∀ r, (m.rows r).Nodup) (ht : m.activity t = .destroying e) :
    Exclusive c (m.driveOut c t e) := by
  have he := linked_of_destroying hf ht
  have hnobody := h.destroying t e ht
  unfold SaTable.driveOut
  split
  · rwa [setActivity_self ht]
  · have hlinked : ∀ e', ((m.removeEntry c e).setActivity t (.removing e)).Linked c e' ↔
        e' ≠ e ∧ m.Linked c e' := fun e' => linked_removeEntry (m := m) hnodup
    have hgone : ¬((m.removeEntry c e).setActivity t (.removing e)).Linked c e :=
      fun hnow => ((hlinked e).1 hnow).1 rfl
    refine h.hands hf he
      { linked := fun e' he' => ((hlinked e').1 he').2
        keeps := fun e' hne he' => (hlinked e').2 ⟨hne, he'⟩
        stays := Or.inr hnobody
        ikeSa := fun _ => rfl
        checkedOut := fun _ _ => rfl
        held := fun _ _ _ => Iff.rfl
        nodup := h.nodup
        unique := fun t₁ _ h₁ => absurd h₁ (hnobody t₁)
        out := fun hnow => absurd hnow hgone
        putting := fun t' e' k => ?_
        destroying := fun t' e' hne => ?_
        destroyed := fun _ _ => hnobody
        managed := fun _ => rfl
        next := rfl
        nextSa := rfl }
    · show Function.update m.activity t _ t' = .putting e' k ↔ _
      exact update_activity_iff_of_ne (by rw [ht]; exact fun heq => by cases heq)
        fun heq => by cases heq
    · show Function.update m.activity t _ t' = .destroying e' ↔ _
      exact update_activity_iff_of_ne
        (by rw [ht]; exact fun heq => hne (Activity.destroying.inj heq).symm)
        fun heq => by cases heq

/-! ## New SAs and entries -/

omit [DecidableEq θ] in
/-- An SA that has not been put into the table has no entry. -/
theorem Exclusive.ikeSa_ne (h : Exclusive c m) (hs : (m.sas s).managed = false)
    (he : e < m.nextEntry) : (m.entries e).ikeSa ≠ s := by
  intro hsa
  have hm := h.entry_managed e he
  rw [hsa, hs] at hm
  exact Bool.false_ne_true hm

omit [DecidableEq θ] in
/-- A live entry has been created. -/
theorem lt_of_live (h : Homes c m) (hf : ∀ t, Fits c m (m.activity t)) (he : m.Live c e) :
    e < m.nextEntry := by
  rcases he with he | ⟨t, k, ht⟩
  · exact h.lt_of_linked he
  · exact (fits_of_putting hf ht).1

/-- A thread gives back an SA that has no entry. -/
theorem Exclusive.giveBack (h : Exclusive c m) (hh : Homes c m)
    (hf : ∀ t, Fits c m (m.activity t)) (hs : (m.sas s).managed = false) :
    Exclusive c (m.giveBack t s) := by
  have hne : ∀ e, m.Live c e → (m.entries e).ikeSa ≠ s :=
    fun e he => h.ikeSa_ne hs (lt_of_live hh hf he)
  have hsub : ∀ {s' t'}, s' ∈ (m.giveBack t s).held t' → s' ∈ m.held t' :=
    fun hheld => ((mem_held_giveBack (h.nodup t)).1 hheld).1
  refine ⟨fun s' t₁ t₂ h₁ h₂ => h.unique s' t₁ t₂ (hsub h₁) (hsub h₂), nodup_giveBack h.nodup,
    fun e t' he => ?_, h.injective, fun t' e k ht' => ?_,
    fun t' e ht' t'' hheld => h.destroying t' e ht' t'' (hsub hheld),
    fun t' s' hs' hm => h.managed t' s' (hsub hs') hm, h.entry_managed, h.fresh⟩
  · show _ ↔ (m.entries e).ikeSa ∈ (m.giveBack t s).held t' ∨ _
    rw [mem_held_giveBack_of_ne (h.nodup t) (hne e (Or.inl he))]
    exact h.out e t' he
  · obtain ⟨hnone, hheld⟩ := h.putting t' e k ht'
    refine ⟨hnone, fun t'' => ?_⟩
    rw [← hheld t'']
    exact mem_held_giveBack_of_ne (h.nodup t) (hne e (Or.inr ⟨t', k, ht'⟩))

/-- A thread gets an SA that has no entry and that no thread has. -/
theorem Exclusive.hold (h : Exclusive c m) (hh : Homes c m) (hf : ∀ t, Fits c m (m.activity t))
    (hs : (m.sas s).managed = false) (hnobody : ∀ t', s ∉ m.held t') (t : θ) :
    Exclusive c (m.hold t s) := by
  have hnow : ∀ t', s ∈ (m.hold t s).held t' ↔ t' = t := fun _ => mem_held_hold_self hnobody
  have hne : ∀ e, m.Live c e → (m.entries e).ikeSa ≠ s :=
    fun e he => h.ikeSa_ne hs (lt_of_live hh hf he)
  refine ⟨fun s' t₁ t₂ h₁ h₂ => ?_, nodup_hold h.nodup (hnobody t), fun e t' he => ?_, h.injective,
    fun t' e k ht' => ?_, fun t' e ht' t'' hheld => ?_, fun t' s' hs' hm => ?_, h.entry_managed,
    h.fresh⟩
  · by_cases hss : s' = s
    · subst hss
      exact ((hnow t₁).1 h₁).trans ((hnow t₂).1 h₂).symm
    · exact h.unique s' t₁ t₂ ((mem_held_hold_of_ne hss).1 h₁) ((mem_held_hold_of_ne hss).1 h₂)
  · show _ ↔ (m.entries e).ikeSa ∈ (m.hold t s).held t' ∨ _
    rw [mem_held_hold_of_ne (hne e (Or.inl he))]
    exact h.out e t' he
  · obtain ⟨hnone, hheld⟩ := h.putting t' e k ht'
    refine ⟨hnone, fun t'' => ?_⟩
    rw [← hheld t'']
    exact mem_held_hold_of_ne (hne e (Or.inr ⟨t', k, ht'⟩))
  · have he := linked_of_destroying hf ht'
    exact h.destroying t' e ht' t'' ((mem_held_hold_of_ne (hne e (Or.inl he))).1 hheld)
  · by_cases hss : s' = s
    · subst hss
      exact absurd (hs.symm.trans hm) Bool.false_ne_true
    · exact h.managed t' s' ((mem_held_hold_of_ne hss).1 hs') hm

omit [DecidableEq θ] in
theorem Exclusive.addSa (h : Exclusive c m) (id : IkeSaId) : Exclusive c (m.addSa id) := by
  refine h.of_same rfl (fun e => Iff.rfl) (fun e => ⟨rfl, rfl⟩) (fun t => Or.inl rfl)
    (fun s => ?_) rfl (Nat.le_succ _)
  show (Function.update m.sas m.nextSa _ s).managed = _
  by_cases hs : s = m.nextSa
  · subst hs
    rw [Function.update_self]
    exact (h.fresh m.nextSa le_rfl).symm
  · rw [Function.update_of_ne hs]

omit [DecidableEq θ] in
theorem managed_addEntry :
    ((m.addEntry en).sas s).managed = true ↔ s = en.ikeSa ∨ (m.sas s).managed = true := by
  show (Function.update m.sas en.ikeSa _ s).managed = true ↔ _
  by_cases hs : s = en.ikeSa
  · rw [hs, Function.update_self]
    simp only [true_or]
  · rw [Function.update_of_ne hs]
    simp only [hs, false_or]

/-- The threads that create an entry are those that did, and the one that begins to. -/
theorem update_putting_iff {k k' : Bool} (ht : m.activity t = .running) :
    Function.update m.activity t (.putting e k) t' = .putting e' k' ↔
      t' = t ∧ e' = e ∧ k' = k ∨ m.activity t' = .putting e' k' := by
  rw [update_activity_iff]
  constructor
  · rintro (⟨htt, heq⟩ | ⟨-, heq⟩)
    · obtain ⟨rfl, rfl⟩ := Activity.putting.inj heq
      exact Or.inl ⟨htt, rfl, rfl⟩
    · exact Or.inr heq
  · rintro (⟨htt, rfl, rfl⟩ | heq)
    · exact Or.inl ⟨htt, rfl⟩
    · refine Or.inr ⟨fun htt => ?_, heq⟩
      rw [htt, ht] at heq
      cases heq

/-- A live entry is the new one, or it was live before. -/
theorem live_addEntry {k : Bool} (hh : Homes c m) (ht : m.activity t = .running)
    (he : ((m.addEntry en).setActivity t (.putting m.nextEntry k)).Live c e) :
    e = m.nextEntry ∨ m.Live c e := by
  rcases he with he | ⟨t', k', ht'⟩
  · exact Or.inr (Or.inl ((linked_addEntry (m := m) hh).1 he))
  · rcases (update_putting_iff ht).1 ht' with ⟨-, he, -⟩ | ht'
    · exact Or.inl he
    · exact Or.inr (Or.inr ⟨t', k', ht'⟩)

omit [DecidableEq θ] in
/-- The entries that were live, and a new one, have SAs of their own. -/
theorem Exclusive.injective_addEntry (h : Exclusive c m) (hh : Homes c m)
    (hf : ∀ t, Fits c m (m.activity t)) (hs : (m.sas en.ikeSa).managed = false)
    (he : e = m.nextEntry ∨ m.Live c e) (he' : e' = m.nextEntry ∨ m.Live c e')
    (hsame : ((m.addEntry en).entries e).ikeSa = ((m.addEntry en).entries e').ikeSa) : e = e' := by
  rcases he with rfl | he
  · rcases he' with rfl | he'
    · rfl
    · have hlt := lt_of_live hh hf he'
      rw [entries_addEntry_self, entries_addEntry_of_lt hlt] at hsame
      exact absurd hsame.symm (h.ikeSa_ne hs hlt)
  · have hlt := lt_of_live hh hf he
    rcases he' with rfl | he'
    · rw [entries_addEntry_self, entries_addEntry_of_lt hlt] at hsame
      exact absurd hsame (h.ikeSa_ne hs hlt)
    · rw [entries_addEntry_of_lt hlt, entries_addEntry_of_lt (lt_of_live hh hf he')] at hsame
      exact h.injective e e' he he' hsame

/-- A thread creates an entry for an SA that has none. -/
theorem Exclusive.addEntry (h : Exclusive c m) (hh : Homes c m)
    (hf : ∀ t, Fits c m (m.activity t)) (ht : m.activity t = .running)
    (hsa : en.ikeSa < m.nextSa) (hs : (m.sas en.ikeSa).managed = false)
    (hout : en.checkedOut = none) {k : Bool}
    (hheld : ∀ t', en.ikeSa ∈ m.held t' ↔ k = true ∧ t' = t) :
    Exclusive c ((m.addEntry en).setActivity t (.putting m.nextEntry k)) := by
  have hlinked : ∀ e, ((m.addEntry en).setActivity t (.putting m.nextEntry k)).Linked c e ↔
      m.Linked c e := fun e => linked_addEntry (m := m) hh
  have hdestroying : ∀ t' e, Function.update m.activity t (.putting m.nextEntry k) t' =
      .destroying e ↔ m.activity t' = .destroying e := fun t' e =>
    update_activity_iff_of_ne (by rw [ht]; exact fun heq => by cases heq) fun heq => by cases heq
  refine ⟨h.unique, h.nodup, fun e t' he => ?_, fun e₁ e₂ h₁ h₂ hsame => ?_, fun t' e k' ht' => ?_,
    fun t' e ht' => ?_, fun t' s' hs' hm => ?_, fun e he => ?_, fun s' hs' => ?_⟩
  · have hbefore := (hlinked e).1 he
    show ((m.addEntry en).entries e).checkedOut = some t' ↔
      ((m.addEntry en).entries e).ikeSa ∈ m.held t' ∨
        Function.update m.activity t (.putting m.nextEntry k) t' = .destroying e
    rw [entries_addEntry_of_lt (hh.lt_of_linked hbefore), hdestroying]
    exact h.out e t' hbefore
  · exact h.injective_addEntry hh hf hs (live_addEntry hh ht h₁) (live_addEntry hh ht h₂) hsame
  · show ((m.addEntry en).entries e).checkedOut = none ∧
      ∀ t'', ((m.addEntry en).entries e).ikeSa ∈ m.held t'' ↔ k' = true ∧ t'' = t'
    rcases (update_putting_iff ht).1 ht' with ⟨rfl, rfl, rfl⟩ | ht'
    · rw [entries_addEntry_self]
      exact ⟨hout, hheld⟩
    · rw [entries_addEntry_of_lt (fits_of_putting hf ht').1]
      exact h.putting t' e k' ht'
  · have ht'' := (hdestroying t' e).1 ht'
    show ∀ t'', ((m.addEntry en).entries e).ikeSa ∉ m.held t''
    rw [entries_addEntry_of_lt (hh.lt_of_linked (linked_of_destroying hf ht''))]
    exact h.destroying t' e ht''
  · rcases managed_addEntry.1 hm with rfl | hm
    · obtain ⟨-, rfl⟩ := (hheld t').1 hs'
      exact Or.inr ⟨m.nextEntry, k, Function.update_self .., congrArg SaEntry.ikeSa entries_addEntry_self⟩
    · rcases h.managed t' s' hs' hm with ⟨e, he, hsame⟩ | ⟨e, k', ht', hsame⟩
      · refine Or.inl ⟨e, (hlinked e).2 he, ?_⟩
        show ((m.addEntry en).entries e).ikeSa = s'
        rw [entries_addEntry_of_lt (hh.lt_of_linked he), hsame]
      · refine Or.inr ⟨e, k', (update_putting_iff ht).2 (Or.inr ht'), ?_⟩
        show ((m.addEntry en).entries e).ikeSa = s'
        rw [entries_addEntry_of_lt (fits_of_putting hf ht').1, hsame]
  · show ((m.addEntry en).sas ((m.addEntry en).entries e).ikeSa).managed = true
    rw [managed_addEntry]
    rcases Nat.lt_succ_iff_lt_or_eq.1 he with hlt | rfl
    · rw [entries_addEntry_of_lt hlt]
      exact Or.inr (h.entry_managed e hlt)
    · rw [entries_addEntry_self]
      exact Or.inl rfl
  · show (Function.update m.sas en.ikeSa _ s').managed = false
    rw [Function.update_of_ne (Nat.ne_of_gt (lt_of_lt_of_le hsa hs'))]
    exact h.fresh s' hs'

/-- The entry that a thread has created gets into the table, checked out if the SA stays with the
thread. -/
theorem Exclusive.putEntry (h : Exclusive c m) (hf : ∀ t, Fits c m (m.activity t)) {k : Bool}
    (ht : m.activity t = .putting e k) (howns : ∀ t' ≠ t, (m.activity t').owns e = false)
    (hsa : en.ikeSa = (m.entries e).ikeSa) (hid : en.ikeSaId = (m.entries e).ikeSaId)
    (hout : en.checkedOut = if k then some t else none) :
    Exclusive c (((m.putEntry c e).setActivity t .running).setEntry e en) := by
  obtain ⟨-, hheld⟩ := h.putting t e k ht
  have hnew : ¬m.Linked c e := (fits_of_putting hf ht).2
  have hlinked : ∀ e', (((m.putEntry c e).setActivity t .running).setEntry e en).Linked c e' ↔
      e' = e ∨ m.Linked c e' := by
    intro e'
    have hset : (((m.putEntry c e).setActivity t .running).setEntry e en).Linked c e' ↔
        (m.putEntry c e).Linked c e' :=
      linked_setEntry (m := (m.putEntry c e).setActivity t .running) (congrArg c.row hid)
    exact hset.trans linked_putEntry
  have hsame : ∀ e', (Function.update m.entries e en e').ikeSa = (m.entries e').ikeSa :=
    fun e' => ikeSa_setEntry (m := m) hsa e'
  have hputting : ∀ t' e' k', Function.update m.activity t .running t' = .putting e' k' →
      t' ≠ t ∧ m.activity t' = .putting e' k' := by
    intro t' e' k' ht'
    rcases update_activity_iff.1 ht' with ⟨-, heq⟩ | hother
    · cases heq
    · exact hother
  have hdestroying : ∀ t' e', Function.update m.activity t .running t' = .destroying e' ↔
      m.activity t' = .destroying e' := fun t' e' =>
    update_activity_iff_of_ne (by rw [ht]; exact fun heq => by cases heq) fun heq => by cases heq
  have hlive : ∀ e', (((m.putEntry c e).setActivity t .running).setEntry e en).Live c e' →
      m.Live c e' := by
    rintro e' (he' | ⟨t', k', ht'⟩)
    · rcases (hlinked e').1 he' with rfl | he'
      · exact Or.inr ⟨t, k, ht⟩
      · exact Or.inl he'
    · exact Or.inr ⟨t', k', (hputting t' e' k' ht').2⟩
  refine ⟨h.unique, h.nodup, fun e' t' he' => ?_, fun e₁ e₂ h₁ h₂ heq => ?_,
    fun t' e' k' ht' => ?_, fun t' e' ht' => ?_, fun t' s' hs' hm => ?_, fun e' he' => ?_, h.fresh⟩
  · show (Function.update m.entries e en e').checkedOut = some t' ↔
      (Function.update m.entries e en e').ikeSa ∈ m.held t' ∨
        Function.update m.activity t .running t' = .destroying e'
    rw [hsame, hdestroying]
    by_cases hee : e' = e
    · subst hee
      have hnot : m.activity t' ≠ .destroying e' :=
        fun ht' => hnew (linked_of_destroying hf ht')
      rw [Function.update_self, hout, hheld t']
      cases k with
      | true => simp [hnot, eq_comm]
      | false => simp [hnot]
    · rw [Function.update_of_ne hee]
      exact h.out e' t' (((hlinked e').1 he').resolve_left hee)
  · replace heq : (Function.update m.entries e en e₁).ikeSa =
        (Function.update m.entries e en e₂).ikeSa := heq
    rw [hsame, hsame] at heq
    exact h.injective e₁ e₂ (hlive e₁ h₁) (hlive e₂ h₂) heq
  · obtain ⟨htt, ht''⟩ := hputting t' e' k' ht'
    have hee : e' ≠ e := ne_of_owns howns htt (by rw [ht'']; exact beq_self_eq_true e')
    show (Function.update m.entries e en e').checkedOut = none ∧
      ∀ t'', (Function.update m.entries e en e').ikeSa ∈ m.held t'' ↔ _
    rw [Function.update_of_ne hee]
    exact h.putting t' e' k' ht''
  · show ∀ t'', (Function.update m.entries e en e').ikeSa ∉ m.held t''
    rw [hsame]
    exact h.destroying t' e' ((hdestroying t' e').1 ht')
  · rcases h.managed t' s' hs' hm with ⟨e', he', heq⟩ | ⟨e', k', ht', heq⟩
    · exact Or.inl ⟨e', (hlinked e').2 (Or.inr he'), (hsame e').trans heq⟩
    · by_cases htt : t' = t
      · rw [htt, ht] at ht'
        obtain ⟨rfl, -⟩ := Activity.putting.inj ht'
        exact Or.inl ⟨e, (hlinked e).2 (Or.inl rfl), (hsame e).trans heq⟩
      · exact Or.inr ⟨e', k', update_activity_iff.2 (Or.inr ⟨htt, ht'⟩), (hsame e').trans heq⟩
  · show (m.sas (Function.update m.entries e en e').ikeSa).managed = true
    rw [hsame]
    exact h.entry_managed e' he'

/-- The entry of a new SA gets into the table at once. -/
theorem Exclusive.putNew (h : Exclusive c m) (hh : Homes c m) (hf : ∀ t, Fits c m (m.activity t))
    (ht : m.activity t = .running) (hsa : en.ikeSa < m.nextSa)
    (hs : (m.sas en.ikeSa).managed = false) (hout : en.checkedOut = none)
    (hnobody : ∀ t', en.ikeSa ∉ m.held t') (hgone : en.gone = false)
    (howns : ∀ t', (m.activity t').owns m.nextEntry = false) :
    Exclusive c ((m.addEntry en).putEntry c m.nextEntry) := by
  have hadd : Exclusive c ((m.addEntry en).setActivity t (.putting m.nextEntry false)) :=
    h.addEntry hh hf ht hsa hs hout fun t' =>
      iff_of_false (hnobody t') fun hfalse => Bool.false_ne_true hfalse.1
  have hentry : (m.addEntry en).entries m.nextEntry = en := entries_addEntry_self
  have hkeeps : Keeps c m ((m.addEntry en).setActivity t (.putting m.nextEntry false)) :=
    hh.keeps_addEntry.setActivity t _
  have hfits : ∀ t', Fits c ((m.addEntry en).setActivity t (.putting m.nextEntry false))
      (((m.addEntry en).setActivity t (.putting m.nextEntry false)).activity t') := by
    intro t'
    show Fits c _ (Function.update m.activity t (.putting m.nextEntry false) t')
    by_cases htt : t' = t
    · rw [htt, Function.update_self]
      refine ⟨Nat.lt_succ_self _, fun hlinked => ?_, (congrArg SaEntry.gone hentry).trans hgone⟩
      exact (hh.lt_of_linked ((hkeeps.linked _).1 hlinked)).ne rfl
    · rw [Function.update_of_ne htt]
      exact hkeeps.fits hh (hf t')
  have hput := hadd.putEntry hfits (Function.update_self ..) ?_ rfl rfl
    ((congrArg SaEntry.checkedOut hentry).trans hout)
  · have hrunning : Function.update m.activity t .running = m.activity := by
      rw [← ht, Function.update_eq_self]
    simp only [SaTable.setEntry, SaTable.setActivity, SaTable.putEntry, Function.update_idem,
      Function.update_eq_self] at hput
    rw [show (m.addEntry en).activity = m.activity from rfl, hrunning] at hput
    exact hput
  · intro t' htt
    show (Function.update m.activity t (.putting m.nextEntry false) t').owns m.nextEntry = false
    rw [Function.update_of_ne htt]
    exact howns t'

end

end SaTable

end Epdg
