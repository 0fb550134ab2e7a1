import VoWiFi.Epdg.Proofs.SaTableProofs

/-!
# The counters of half-open SAs

The counters that the manager keeps for each address, and for all of them, are the numbers of the entries
that are half-open. Entries are counted before they are put into the table, and they are counted until
after they have been unlinked.
-/

namespace Epdg

theorem HalfOpen.down_up (h : HalfOpen) (responder : Bool) : (h.up responder).down responder = h := by
  rw [up, down, Nat.add_sub_cancel, Nat.add_sub_cancel]

/-! ## The table of counters -/

namespace HalfOpenTable

/-- The counters of the table, given how many SAs have an address with a property. -/
structure Counts (c : TableConfig) (t : HalfOpenTable) (n : (Chunk → Bool) → HalfOpen) : Prop where
  distinct : Buckets.Distinct t.rows
  lookup : ∀ addr, Buckets.lookup c.addrRow t.rows addr =
    if (n (· == addr)).count = 0 then none else some (n (· == addr))
  all : t.all = n fun _ => true

variable {c : TableConfig} {t : HalfOpenTable} {n n' : (Chunk → Bool) → HalfOpen} {addr : Chunk}
  {responder : Bool}

theorem Counts.counters (h : t.Counts c n) (hle : ∀ p, (n p).countResponder ≤ (n p).count)
    (addr : Chunk) : t.counters c addr = n (· == addr) := by
  rw [HalfOpenTable.counters, h.lookup]
  split
  · rename_i hzero
    have hresponder := hle (· == addr)
    rw [hzero, Nat.le_zero] at hresponder
    exact HalfOpen.ext hzero.symm hresponder.symm
  · rw [Option.getD_some]

theorem Counts.put (h : t.Counts c n) (hle : ∀ p, (n p).countResponder ≤ (n p).count)
    (hn : ∀ p, n' p = if p addr then (n p).up responder else n p) :
    (t.putHalfOpen c addr responder).Counts c n' := by
  refine ⟨h.distinct.atRow fun _ => Buckets.nodup_put, fun addr' => ?_, ?_⟩
  · have hold := h.counters hle addr
    rw [HalfOpenTable.counters] at hold
    rw [putHalfOpen, Buckets.lookup_put h.distinct, hold, h.lookup, hn]
    by_cases haddr : addr' = addr
    · subst haddr
      simp [HalfOpen.up]
    · simp [haddr, Ne.symm haddr]
  · rw [hn, if_pos rfl, ← h.all, putHalfOpen]

theorem Counts.remove (h : t.Counts c n)
    (hn : ∀ p, n p = if p addr then (n' p).up responder else n' p) :
    (t.removeHalfOpen c addr responder).Counts c n' := by
  have hsome : Buckets.lookup c.addrRow t.rows addr = some ((n' (· == addr)).up responder) := by
    rw [h.lookup, hn, if_pos (beq_self_eq_true addr)]
    exact if_neg (Nat.succ_ne_zero _)
  rw [removeHalfOpen, hsome]
  refine ⟨h.distinct.atRow fun _ hitems => hitems.sublist (Buckets.keys_alter_sublist _),
    fun addr' => ?_, ?_⟩
  · rw [Buckets.lookup_alter h.distinct, hsome, h.lookup, hn]
    by_cases haddr : addr' = addr
    · subst haddr
      simp [HalfOpen.up, HalfOpen.down]
    · simp [haddr, Ne.symm haddr]
  · show t.all.down responder = _
    rw [h.all, hn, if_pos rfl, HalfOpen.down_up]

end HalfOpenTable

/-! ## Half-open entries -/

namespace SaTable

variable {θ : Type} {c : TableConfig} {m m' : SaTable θ} {e n s : ℕ} {en : SaEntry θ} {addr : Chunk}
  {f : ℕ → SaEntry θ}

/-- The numbers of half-open entries below a bound. -/
def halfOpens (n : ℕ) (f : ℕ → SaEntry θ) (p : Chunk → Bool) : HalfOpen :=
  ⟨Tally.total (Finset.range n) (fun en => (en.isHalfOpen p false).toNat) f,
    Tally.total (Finset.range n) (fun en => (en.isHalfOpen p true).toNat) f⟩

theorem halfOpens_le (p : Chunk → Bool) :
    (halfOpens n f p).countResponder ≤ (halfOpens n f p).count := by
  show ∑ e ∈ Finset.range n, ((f e).isHalfOpen p true).toNat ≤
    ∑ e ∈ Finset.range n, ((f e).isHalfOpen p false).toNat
  refine Finset.sum_le_sum fun e _ => Bool.toNat_le_toNat ?_
  rw [SaEntry.isHalfOpen, SaEntry.isHalfOpen, Bool.not_false, Bool.true_or, Bool.and_true]
  exact Bool.and_le_left _ _

/-- An entry counts with its address and its role. -/
def Counted (en : SaEntry θ) (addr : Chunk) : Prop :=
  en.halfOpen = true ∧ en.gone = false ∧ en.other = some addr

/-- An entry does not count. -/
def Uncounted (en : SaEntry θ) : Prop := en.halfOpen = false ∨ en.gone = true

theorem Counted.isHalfOpen_false (h : Counted en addr) (p : Chunk → Bool) :
    en.isHalfOpen p false = p addr := by
  simp [SaEntry.isHalfOpen, h.1, h.2.1, h.2.2]

theorem Counted.isHalfOpen_true (h : Counted en addr) (p : Chunk → Bool) :
    en.isHalfOpen p true = (p addr && !en.ikeSaId.isInitiator) := by
  simp [SaEntry.isHalfOpen, h.1, h.2.1, h.2.2]

theorem Uncounted.isHalfOpen (h : Uncounted en) (p : Chunk → Bool) (responderOnly : Bool) :
    en.isHalfOpen p responderOnly = false := by
  rcases h with h | h <;> simp [SaEntry.isHalfOpen, h]

/-- One more entry counts. -/
theorem halfOpens_update (he : e < n) (hold : Uncounted (f e)) (hnew : Counted en addr)
    (p : Chunk → Bool) : halfOpens n (Function.update f e en) p =
      if p addr then (halfOpens n f p).up (!en.ikeSaId.isInitiator) else halfOpens n f p := by
  have hcount := Tally.total_update (w := fun en : SaEntry θ => (en.isHalfOpen p false).toNat)
    (f := f) (Finset.mem_range.2 he) en
  have hresponder := Tally.total_update (w := fun en : SaEntry θ => (en.isHalfOpen p true).toNat)
    (f := f) (Finset.mem_range.2 he) en
  simp only [hold.isHalfOpen, hnew.isHalfOpen_false, hnew.isHalfOpen_true, Bool.toNat_false,
    Nat.add_zero] at hcount hresponder
  split
  · rename_i hp
    rw [hp] at hcount hresponder
    rw [Bool.true_and] at hresponder
    exact HalfOpen.ext hcount hresponder
  · rename_i hp
    rw [Bool.eq_false_of_not_eq_true hp] at hcount hresponder
    rw [Bool.false_and] at hresponder
    exact HalfOpen.ext hcount hresponder

/-- One entry counts no more. -/
theorem halfOpens_eq_update (he : e < n) (hold : Counted (f e) addr) (hnew : Uncounted en)
    (p : Chunk → Bool) : halfOpens n f p =
      if p addr then (halfOpens n (Function.update f e en) p).up (!(f e).ikeSaId.isInitiator)
      else halfOpens n (Function.update f e en) p := by
  have hback := halfOpens_update (f := Function.update f e en) he
    (by rwa [Function.update_self]) hold p
  rwa [Function.update_idem, Function.update_eq_self] at hback

theorem halfOpens_update_of_eq (p : Chunk → Bool)
    (h : ∀ p r, en.isHalfOpen p r = (f e).isHalfOpen p r) :
    halfOpens n (Function.update f e en) p = halfOpens n f p := by
  have hcount := Tally.total_update_of_eq (s := Finset.range n)
    (w := fun en : SaEntry θ => (en.isHalfOpen p false).toNat) (congrArg Bool.toNat (h p false))
  have hresponder := Tally.total_update_of_eq (s := Finset.range n)
    (w := fun en : SaEntry θ => (en.isHalfOpen p true).toNat) (congrArg Bool.toNat (h p true))
  exact HalfOpen.ext hcount hresponder

/-- The counters of the manager are the numbers of the half-open entries. -/
structure HalfOpens (c : TableConfig) (m : SaTable θ) : Prop where
  other : ∀ e < m.nextEntry, (m.entries e).halfOpen = true → (m.entries e).other.isSome
  counts : m.halfOpen.Counts c (halfOpens m.nextEntry m.entries)

theorem halfOpens_create : HalfOpens c (create : SaTable θ) where
  other := fun _ he => absurd he (Nat.not_lt_zero _)
  counts := ⟨fun _ => List.nodup_nil, fun _ => rfl, rfl⟩

theorem HalfOpens.congr (h : HalfOpens c m) (hentries : m'.entries = m.entries)
    (hnext : m'.nextEntry = m.nextEntry) (hhalf : m'.halfOpen = m.halfOpen) : HalfOpens c m' := by
  constructor
  · rw [hnext, hentries]
    exact h.other
  · rw [hhalf, hnext, hentries]
    exact h.counts

theorem HalfOpens.other_update (h : HalfOpens c m) (hen : en.halfOpen = true → en.other.isSome)
    (e' : ℕ) (he' : e' < m.nextEntry) :
    (Function.update m.entries e en e').halfOpen = true →
      (Function.update m.entries e en e').other.isSome := by
  by_cases heq : e' = e
  · rw [heq, Function.update_self]
    exact hen
  · rw [Function.update_of_ne heq]
    exact h.other e' he'

/-- A change of an entry that does not concern the counters. -/
theorem HalfOpens.setEntry (h : HalfOpens c m) (hhalf : en.halfOpen = (m.entries e).halfOpen)
    (hother : en.other = (m.entries e).other) (hgone : en.gone = (m.entries e).gone)
    (hrole : en.ikeSaId.isInitiator = (m.entries e).ikeSaId.isInitiator)
    (he : e < m.nextEntry) : HalfOpens c (m.setEntry e en) := by
  constructor
  · refine h.other_update fun hen => ?_
    rw [hother]
    exact h.other e he (hhalf ▸ hen)
  · have hsame : halfOpens m.nextEntry (Function.update m.entries e en) =
        halfOpens m.nextEntry m.entries := funext fun p => halfOpens_update_of_eq p fun p r => by
      rw [SaEntry.isHalfOpen, SaEntry.isHalfOpen, hhalf, hother, hgone, hrole]
    show m.halfOpen.Counts c (halfOpens m.nextEntry (Function.update m.entries e en))
    rw [hsame]
    exact h.counts

/-- An entry becomes half-open. -/
theorem HalfOpens.count (h : HalfOpens c m) (he : e < m.nextEntry) (hold : Uncounted (m.entries e))
    (hnew : Counted en addr) : HalfOpens c ((m.setEntry e en).putHalfOpen c en) := by
  refine ⟨h.other_update fun _ => by rw [hnew.2.2]; rfl, ?_⟩
  unfold putHalfOpen
  rw [hnew.2.2]
  exact h.counts.put halfOpens_le (halfOpens_update he hold hnew)

/-- An entry is half-open no more. The counters are changed with what the entry was before. -/
theorem HalfOpens.uncount (h : HalfOpens c m) (he : e < m.nextEntry)
    (hold : Counted (m.entries e) addr) (hnew : Uncounted en)
    (hother : en.halfOpen = true → en.other.isSome) :
    HalfOpens c ((m.setEntry e en).removeHalfOpen c (m.entries e)) := by
  refine ⟨h.other_update hother, ?_⟩
  unfold removeHalfOpen
  rw [hold.2.2]
  exact h.counts.remove (halfOpens_eq_update he hold hnew)

/-- An entry that does not count is changed to another one. -/
theorem HalfOpens.setUncounted (h : HalfOpens c m) (hold : Uncounted (m.entries e))
    (hnew : Uncounted en) (hother : en.halfOpen = true → en.other.isSome) :
    HalfOpens c (m.setEntry e en) := by
  refine ⟨h.other_update hother, ?_⟩
  have hsame : halfOpens m.nextEntry (Function.update m.entries e en) =
      halfOpens m.nextEntry m.entries := funext fun p => halfOpens_update_of_eq p fun p r => by
    rw [hold.isHalfOpen, hnew.isHalfOpen]
  show m.halfOpen.Counts c (halfOpens m.nextEntry (Function.update m.entries e en))
  rw [hsame]
  exact h.counts

theorem halfOpens_addEntry (n : ℕ) (en : SaEntry θ) (f : ℕ → SaEntry θ) (p : Chunk → Bool) :
    halfOpens (n + 1) (Function.update f n en) p =
      ⟨(halfOpens n f p).count + (en.isHalfOpen p false).toNat,
        (halfOpens n f p).countResponder + (en.isHalfOpen p true).toNat⟩ := by
  have htotal : ∀ w : SaEntry θ → ℕ, Tally.total (Finset.range (n + 1)) w (Function.update f n en) =
      Tally.total (Finset.range n) w f + w en := by
    intro w
    rw [Tally.total_range_succ, Tally.total_update_of_notMem Finset.notMem_range_self,
      Function.update_self]
  exact HalfOpen.ext (htotal fun en => (en.isHalfOpen p false).toNat)
    (htotal fun en => (en.isHalfOpen p true).toNat)

theorem HalfOpens.other_addEntry (h : HalfOpens c m)
    (hen : en.halfOpen = true → en.other.isSome) (e : ℕ) (he : e < m.nextEntry + 1) :
    (Function.update m.entries m.nextEntry en e).halfOpen = true →
      (Function.update m.entries m.nextEntry en e).other.isSome := by
  by_cases heq : e = m.nextEntry
  · rw [heq, Function.update_self]
    exact hen
  · rw [Function.update_of_ne heq]
    exact h.other e (by omega)

theorem HalfOpens.addEntry (h : HalfOpens c m) (hen : en.halfOpen = false) :
    HalfOpens c (m.addEntry en) := by
  refine ⟨h.other_addEntry fun hhalf => absurd (hen.symm.trans hhalf) Bool.false_ne_true, ?_⟩
  have hsame : halfOpens (m.nextEntry + 1) (Function.update m.entries m.nextEntry en) =
      halfOpens m.nextEntry m.entries := funext fun p => by
    have hun : Uncounted en := Or.inl hen
    rw [halfOpens_addEntry, hun.isHalfOpen, hun.isHalfOpen]
    rfl
  show m.halfOpen.Counts c (halfOpens (m.nextEntry + 1) (Function.update m.entries m.nextEntry en))
  rw [hsame]
  exact h.counts

theorem HalfOpens.addCounted (h : HalfOpens c m) (hen : Counted en addr) :
    HalfOpens c ((m.addEntry en).putHalfOpen c en) := by
  refine ⟨h.other_addEntry fun _ => by rw [hen.2.2]; rfl, ?_⟩
  unfold putHalfOpen
  rw [hen.2.2]
  refine h.counts.put halfOpens_le fun p => ?_
  show halfOpens (m.nextEntry + 1) (Function.update m.entries m.nextEntry en) p = _
  rw [halfOpens_addEntry, hen.isHalfOpen_false, hen.isHalfOpen_true]
  cases p addr with
  | false => rfl
  | true => rw [Bool.true_and, if_pos rfl]; rfl

/-- What `checkin` changes with the counters. -/
theorem exists_recount (m : SaTable θ) (e : ℕ) (sa : IkeSa) :
    ∃ half other table, m.recount c e sa =
      { m.setEntry e { m.entries e with halfOpen := half, other := other } with
        halfOpen := table } := by
  unfold SaTable.recount
  dsimp only
  split
  · exact ⟨_, _, _, rfl⟩
  · split
    · exact ⟨_, _, _, rfl⟩
    · split
      · exact ⟨_, _, _, rfl⟩
      · exact ⟨_, _, m.halfOpen, setEntry_self.symm⟩

/-- The counters when an SA is checked in. -/
theorem HalfOpens.recount (h : HalfOpens c m) (he : e < m.nextEntry)
    (hgone : (m.entries e).gone = false) (sa : IkeSa) : HalfOpens c (m.recount c e sa) := by
  unfold SaTable.recount
  dsimp only
  split
  · rename_i hcase
    obtain ⟨hhalf, -⟩ := Bool.and_eq_true_iff.1 hcase
    obtain ⟨addr, haddr⟩ := Option.isSome_iff_exists.1 (h.other e he hhalf)
    exact h.uncount he ⟨hhalf, hgone, haddr⟩ (Or.inl rfl)
      fun hnow => absurd hnow Bool.false_ne_true
  · split
    · rename_i hcase
      obtain ⟨hhalf, -⟩ := Bool.and_eq_true_iff.1 hcase
      obtain ⟨addr, haddr⟩ := Option.isSome_iff_exists.1 (h.other e he hhalf)
      -- the entry is taken out of the count before it gets the new address
      have hout : HalfOpens c ((m.setEntry e { m.entries e with halfOpen := false }).removeHalfOpen c
          (m.entries e)) :=
        h.uncount he ⟨hhalf, hgone, haddr⟩ (Or.inl rfl) fun hnow => absurd hnow Bool.false_ne_true
      have hun : Uncounted (Function.update m.entries e { m.entries e with halfOpen := false } e) := by
        rw [Function.update_self]
        exact Or.inl rfl
      have hnew : Counted { m.entries e with other := some sa.otherHost } sa.otherHost :=
        ⟨hhalf, hgone, rfl⟩
      exact (hout.count he hun hnew).congr (Function.update_idem _ _ _).symm rfl rfl
    · split
      · rename_i hcase
        obtain ⟨hhalf, -⟩ := Bool.and_eq_true_iff.1 hcase
        exact h.count he (Or.inl (Bool.not_eq_true' _ ▸ hhalf)) ⟨rfl, hgone, rfl⟩
      · exact h

end SaTable

end Epdg
