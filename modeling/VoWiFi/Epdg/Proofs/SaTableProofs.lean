import Mathlib.Data.Fintype.Card
import VoWiFi.Epdg.SaTable
import VoWiFi.Lib.Tally

/-!
# The table of IKE SAs in every interleaving

Every entry of the table is in the row of its SA, whatever the threads do with the identifiers, and the
number of SAs is that of the entries. The field `waiting_threads` of an entry counts the threads that wait
for it, so that no entry is unlinked while a thread waits. The counters of half-open SAs are the numbers of
the half-open entries.
-/

namespace Epdg

/-! ## Identifiers and rows -/

theorem IkeSaId.MayBecome.hash_eq {id id' : IkeSaId} (h : id.MayBecome id') : id'.hash = id.hash := by
  rw [IkeSaId.hash, h.2.2, IkeSaId.hash]

theorem IkeSaId.MayBecome.allocated {id id' : IkeSaId} (h : id.MayBecome id') (ha : id.Allocated) :
    id'.Allocated := by
  obtain ⟨hversion, hrole, hspi⟩ := h
  intro hv hr
  rw [hversion] at hv
  rw [hrole] at hr
  simp only [IkeSaId.localSpi, hversion, hrole, hv, hr, Bool.false_eq_true, or_self, if_false]
    at hspi
  rw [hspi]
  exact ha hv hr

/-- The responder's SPI of an SA that does not have one may be set. -/
theorem IkeSaId.Allocated.mayBecome {id : IkeSaId} (h : id.Allocated) (hzero : id.responderSpi = 0)
    (spi : UInt64) : id.MayBecome { id with responderSpi := spi } := by
  refine ⟨rfl, rfl, ?_⟩
  have hlocal : id.ikeVersion = ikev1MajorVersion ∨ id.isInitiator = true := by
    by_contra hnot
    rw [not_or, Bool.not_eq_true] at hnot
    exact h hnot.1 hnot.2 hzero
  simp only [localSpi, if_pos hlocal]

namespace TableConfig

variable (c : TableConfig)

theorem row_eq_mod (id : IkeSaId) : c.row id = id.localSpi.toNat % c.tableSize := by
  have hdvd : 2 ^ c.bits ∣ 2 ^ 32 := Nat.pow_dvd_pow 2 (c.bits_le.trans (by omega))
  rw [row, tableMask, Nat.and_two_pow_sub_one_eq_mod, IkeSaId.hash, UInt64.toNat_toUInt32,
    Nat.mod_mod_of_dvd _ hdvd, tableSize]

theorem row_lt (id : IkeSaId) : c.row id < c.tableSize := by
  rw [row_eq_mod]
  exact Nat.mod_lt _ (Nat.two_pow_pos _)

theorem tableMask_lt : c.tableMask < 2 ^ 64 := by
  have hle : 2 ^ c.bits ≤ 2 ^ 30 := Nat.pow_le_pow_right (by omega) c.bits_le
  unfold tableMask
  omega

/-- The merged SPI ends with the bits of the old one that give the row. -/
theorem mergeSpi_mod (spi newSpi : UInt64) :
    (c.mergeSpi spi newSpi).toNat % c.tableSize = spi.toNat % c.tableSize := by
  apply Nat.eq_of_testBit_eq
  intro i
  rw [tableSize, Nat.testBit_mod_two_pow, Nat.testBit_mod_two_pow]
  by_cases hi : i < c.bits
  · have hmask : (UInt64.ofNat c.tableMask).toNat.testBit i = true := by
      rw [UInt64.toNat_ofNat_of_lt' c.tableMask_lt, tableMask, Nat.testBit_two_pow_sub_one]
      exact decide_eq_true hi
    have hnot : (~~~UInt64.ofNat c.tableMask).toNat.testBit i = false := by
      rw [← UInt64.toNat_toBitVec, UInt64.toBitVec_not, BitVec.testBit_toNat, BitVec.getLsbD_not,
        ← BitVec.testBit_toNat, UInt64.toNat_toBitVec, hmask, Bool.not_true, Bool.and_false]
    rw [mergeSpi, UInt64.toNat_or, UInt64.toNat_and, UInt64.toNat_and, Nat.testBit_or,
      Nat.testBit_and, Nat.testBit_and, hmask, hnot, Bool.and_true, Bool.and_false, Bool.or_false]
  · simp [hi]

theorem row_mergeSpi {id : IkeSaId} (h : id.isInitiator = true) (newSpi : UInt64) :
    c.row { id with initiatorSpi := c.mergeSpi id.initiatorSpi newSpi } = c.row id := by
  rw [row_eq_mod, row_eq_mod, IkeSaId.localSpi, IkeSaId.localSpi, if_pos (Or.inr h),
    if_pos (Or.inr h), mergeSpi_mod]

end TableConfig

namespace SaTable

variable {θ : Type} {c : TableConfig} {m m' : SaTable θ} {e e' s : ℕ} {en : SaEntry θ} {sa : IkeSa}
  {t : θ}

/-! ## Entries in the table -/

theorem linked_setEntry (hrow : c.row en.ikeSaId = c.row (m.entries e).ikeSaId) :
    (m.setEntry e en).Linked c e' ↔ m.Linked c e' := by
  show e' ∈ m.rows (c.row (Function.update m.entries e en e').ikeSaId) ↔ m.Linked c e'
  by_cases he : e' = e
  · subst he
    rw [Function.update_self, hrow, Linked]
  · rw [Function.update_of_ne he, Linked]

theorem linked_putEntry : (m.putEntry c e).Linked c e' ↔ e' = e ∨ m.Linked c e' := by
  unfold Linked putEntry
  by_cases hrow : c.row (m.entries e').ikeSaId = c.row (m.entries e).ikeSaId
  · simp only [hrow, Function.update_self, List.mem_cons]
  · have hne : e' ≠ e := fun he => hrow (by rw [he])
    simp only [Function.update_of_ne hrow, hne, false_or]

theorem linked_removeEntry (hnodup : ∀ r, (m.rows r).Nodup) :
    (m.removeEntry c e).Linked c e' ↔ e' ≠ e ∧ m.Linked c e' := by
  unfold Linked removeEntry
  by_cases hrow : c.row (m.entries e').ikeSaId = c.row (m.entries e).ikeSaId
  · simp only [hrow, Function.update_self, (hnodup _).mem_erase_iff]
  · have hne : e' ≠ e := fun he => hrow (by rw [he])
    simp only [Function.update_of_ne hrow, hne, ne_eq, not_false_eq_true, true_and]

/-- Two identifiers give the same row and the same role. -/
def SameHome (c : TableConfig) (id id' : IkeSaId) : Prop :=
  c.row id = c.row id' ∧ id.isInitiator = id'.isInitiator

/-- The entries are in the rows in which they are looked for, and they are counted. -/
structure Homes (c : TableConfig) (m : SaTable θ) : Prop where
  lt : ∀ r, ∀ e ∈ m.rows r, e < m.nextEntry
  row : ∀ r, ∀ e ∈ m.rows r, c.row (m.entries e).ikeSaId = r
  nodup : ∀ r, (m.rows r).Nodup
  same : ∀ e < m.nextEntry, SameHome c (m.entries e).ikeSaId (m.sas (m.entries e).ikeSa).id
  sa_lt : ∀ e < m.nextEntry, (m.entries e).ikeSa < m.nextSa
  allocated : ∀ s, (m.sas s).id.Allocated
  total : m.totalSaCount = Tally.total (Finset.range c.tableSize) List.length m.rows

theorem Homes.lt_of_linked (h : Homes c m) (he : m.Linked c e) : e < m.nextEntry := h.lt _ _ he

/-- What is not read by the invariant may change. -/
theorem Homes.congr (h : Homes c m) (hrows : m'.rows = m.rows) (hentries : m'.entries = m.entries)
    (hnext : m'.nextEntry = m.nextEntry) (hcount : m'.totalSaCount = m.totalSaCount)
    (hsas : m'.sas = m.sas) (hsa : m'.nextSa = m.nextSa) : Homes c m' := by
  constructor
  · rw [hrows, hnext]
    exact h.lt
  · rw [hrows, hentries]
    exact h.row
  · rw [hrows]
    exact h.nodup
  · rw [hnext, hentries, hsas]
    exact h.same
  · rw [hnext, hentries, hsa]
    exact h.sa_lt
  · rw [hsas]
    exact h.allocated
  · rw [hcount, hrows]
    exact h.total

theorem homes_create : Homes c (create : SaTable θ) where
  lt := fun _ _ he => absurd he List.not_mem_nil
  row := fun _ _ he => absurd he List.not_mem_nil
  nodup := fun _ => List.nodup_nil
  same := fun _ he => absurd he (Nat.not_lt_zero _)
  sa_lt := fun _ he => absurd he (Nat.not_lt_zero _)
  allocated := fun _ _ hrole => absurd hrole.symm Bool.false_ne_true
  total := (Finset.sum_const_zero).symm

theorem Homes.setEntry (h : Homes c m) (hhome : SameHome c en.ikeSaId (m.entries e).ikeSaId)
    (hsa : en.ikeSa = (m.entries e).ikeSa) : Homes c (m.setEntry e en) := by
  have hentry : ∀ e', SameHome c (Function.update m.entries e en e').ikeSaId
      (m.entries e').ikeSaId ∧
      (Function.update m.entries e en e').ikeSa = (m.entries e').ikeSa := by
    intro e'
    by_cases he : e' = e
    · subst he
      rw [Function.update_self]
      exact ⟨hhome, hsa⟩
    · rw [Function.update_of_ne he]
      exact ⟨⟨rfl, rfl⟩, rfl⟩
  refine ⟨h.lt, fun r e' he => ?_, h.nodup, fun e' he => ?_, fun e' he => ?_, h.allocated, h.total⟩
  · exact (hentry e').1.1.trans (h.row r e' he)
  · show SameHome c (Function.update m.entries e en e').ikeSaId
      (m.sas (Function.update m.entries e en e').ikeSa).id
    rw [(hentry e').2]
    exact ⟨(hentry e').1.1.trans (h.same e' he).1, (hentry e').1.2.trans (h.same e' he).2⟩
  · show (Function.update m.entries e en e').ikeSa < m.nextSa
    rw [(hentry e').2]
    exact h.sa_lt e' he

theorem Homes.setSa (h : Homes c m) (hhome : SameHome c (m.sas s).id sa.id)
    (halloc : sa.id.Allocated) : Homes c (m.setSa s sa) := by
  have hsa : ∀ s', SameHome c (m.sas s').id (Function.update m.sas s sa s').id ∧
      (Function.update m.sas s sa s').id.Allocated := by
    intro s'
    by_cases hs : s' = s
    · subst hs
      rw [Function.update_self]
      exact ⟨hhome, halloc⟩
    · rw [Function.update_of_ne hs]
      exact ⟨⟨rfl, rfl⟩, h.allocated s'⟩
  refine ⟨h.lt, h.row, h.nodup, fun e he => ?_, h.sa_lt, fun s' => (hsa s').2, h.total⟩
  have hsame := hsa (m.entries e).ikeSa
  exact ⟨(h.same e he).1.trans hsame.1.1, (h.same e he).2.trans hsame.1.2⟩

theorem Homes.addSa (h : Homes c m) {id : IkeSaId} (halloc : id.Allocated) :
    Homes c (m.addSa id) := by
  refine ⟨h.lt, h.row, h.nodup, fun e he => ?_, fun e he => Nat.lt_succ_of_lt (h.sa_lt e he),
    fun s => ?_, h.total⟩
  · have hne : (m.entries e).ikeSa ≠ m.nextSa := (h.sa_lt e he).ne
    show SameHome c (m.entries e).ikeSaId (Function.update m.sas m.nextSa _ (m.entries e).ikeSa).id
    rw [Function.update_of_ne hne]
    exact h.same e he
  · show (Function.update m.sas m.nextSa _ s).id.Allocated
    by_cases hs : s = m.nextSa
    · subst hs
      rw [Function.update_self]
      exact halloc
    · rw [Function.update_of_ne hs]
      exact h.allocated s

theorem Homes.addEntry (h : Homes c m) (hhome : SameHome c en.ikeSaId (m.sas en.ikeSa).id)
    (hsa : en.ikeSa < m.nextSa) : Homes c (m.addEntry en) := by
  have hm : Homes c (m.setSa en.ikeSa { m.sas en.ikeSa with managed := true }) :=
    h.setSa ⟨rfl, rfl⟩ (h.allocated en.ikeSa)
  have hne : ∀ r, ∀ e ∈ m.rows r, e ≠ m.nextEntry := fun r e he => (h.lt r e he).ne
  refine ⟨fun r e he => Nat.lt_succ_of_lt (h.lt r e he), fun r e he => ?_, h.nodup,
    fun e he => ?_, fun e he => ?_, hm.allocated, h.total⟩
  · show c.row (Function.update m.entries m.nextEntry en e).ikeSaId = r
    rw [Function.update_of_ne (hne r e he)]
    exact h.row r e he
  · show SameHome c (Function.update m.entries m.nextEntry en e).ikeSaId
      (Function.update m.sas en.ikeSa _ (Function.update m.entries m.nextEntry en e).ikeSa).id
    by_cases hnew : e = m.nextEntry
    · subst hnew
      rw [Function.update_self, Function.update_self]
      exact hhome
    · rw [Function.update_of_ne hnew]
      exact hm.same e (Nat.lt_of_le_of_ne (Nat.le_of_lt_succ he) hnew)
  · show (Function.update m.entries m.nextEntry en e).ikeSa < m.nextSa
    by_cases hnew : e = m.nextEntry
    · subst hnew
      rw [Function.update_self]
      exact hsa
    · rw [Function.update_of_ne hnew]
      exact h.sa_lt e (Nat.lt_of_le_of_ne (Nat.le_of_lt_succ he) hnew)

theorem Homes.putEntry (h : Homes c m) (he : e < m.nextEntry) (hnew : ¬m.Linked c e) :
    Homes c (m.putEntry c e) := by
  have hrange := Finset.mem_range.2 (c.row_lt (m.entries e).ikeSaId)
  have hmem : ∀ r e', e' ∈ Function.update m.rows (c.row (m.entries e).ikeSaId)
      (e :: m.rows (c.row (m.entries e).ikeSaId)) r →
      e' = e ∧ r = c.row (m.entries e).ikeSaId ∨ e' ∈ m.rows r := by
    intro r e' he'
    by_cases hr : r = c.row (m.entries e).ikeSaId
    · subst hr
      rw [Function.update_self] at he'
      rcases List.mem_cons.1 he' with heq | hold
      · exact Or.inl ⟨heq, rfl⟩
      · exact Or.inr hold
    · rw [Function.update_of_ne hr] at he'
      exact Or.inr he'
  refine ⟨fun r e' he' => ?_, fun r e' he' => ?_, fun r => ?_, h.same, h.sa_lt, h.allocated, ?_⟩
  · rcases hmem r e' he' with ⟨rfl, -⟩ | hold
    · exact he
    · exact h.lt r e' hold
  · rcases hmem r e' he' with ⟨rfl, rfl⟩ | hold
    · rfl
    · exact h.row r e' hold
  · show (Function.update m.rows _ _ r).Nodup
    by_cases hr : r = c.row (m.entries e).ikeSaId
    · subst hr
      rw [Function.update_self]
      exact List.nodup_cons.2 ⟨hnew, h.nodup _⟩
    · rw [Function.update_of_ne hr]
      exact h.nodup r
  · have hupdate := Tally.total_update (w := List.length) (f := m.rows) hrange
      (e :: m.rows (c.row (m.entries e).ikeSaId))
    have htotal := h.total
    show m.totalSaCount + 1 = Tally.total _ List.length (Function.update m.rows _ _)
    rw [List.length_cons] at hupdate
    omega

theorem Homes.removeEntry (h : Homes c m) (he : m.Linked c e) : Homes c (m.removeEntry c e) := by
  have hrange := Finset.mem_range.2 (c.row_lt (m.entries e).ikeSaId)
  have hsub : ∀ r, (Function.update m.rows (c.row (m.entries e).ikeSaId)
      ((m.rows (c.row (m.entries e).ikeSaId)).erase e) r).Sublist (m.rows r) := by
    intro r
    by_cases hr : r = c.row (m.entries e).ikeSaId
    · subst hr
      rw [Function.update_self]
      exact List.erase_sublist
    · rw [Function.update_of_ne hr]
  refine ⟨fun r e' he' => h.lt r e' ((hsub r).subset he'),
    fun r e' he' => h.row r e' ((hsub r).subset he'), fun r => (h.nodup r).sublist (hsub r),
    h.same, h.sa_lt, h.allocated, ?_⟩
  have hupdate := Tally.total_update (w := List.length) (f := m.rows) hrange
    ((m.rows (c.row (m.entries e).ikeSaId)).erase e)
  have hlen := List.length_erase_add_one he
  have htotal := h.total
  show (if e ∈ m.rows (c.row (m.entries e).ikeSaId) then m.totalSaCount - 1 else m.totalSaCount) =
    Tally.total _ List.length (Function.update m.rows _ _)
  rw [if_pos (show e ∈ m.rows (c.row (m.entries e).ikeSaId) from he)]
  omega

theorem linked_addEntry (h : Homes c m) : (m.addEntry en).Linked c e ↔ m.Linked c e := by
  show e ∈ m.rows (c.row (Function.update m.entries m.nextEntry en e).ikeSaId) ↔ _
  by_cases he : e = m.nextEntry
  · constructor
    · exact fun hmem => absurd (h.lt _ _ hmem) (by omega)
    · exact fun hmem => absurd (h.lt _ _ hmem) (by omega)
  · rw [Function.update_of_ne he, Linked]

/-- An entry in the table is found in the row of its SA. -/
theorem Homes.isSome_getEntryBySa (h : Homes c m) (he : m.Linked c e) :
    (m.getEntryBySa c (m.entries e).ikeSa).isSome := by
  refine List.find?_isSome.2 ⟨e, ?_, beq_self_eq_true _⟩
  rw [← (h.same e (h.lt_of_linked he)).1]
  exact he

theorem setEntry_self : m.setEntry e (m.entries e) = m := by
  rw [setEntry, Function.update_eq_self]

/-! ## Looking for an entry -/

theorem linked_of_getEntry (h : Homes c m) {id : IkeSaId} {matchFn : SaEntry θ → Bool}
    (he : m.getEntry c id matchFn = some e) : m.Linked c e ∧ matchFn (m.entries e) = true := by
  have hmem : e ∈ m.rows (c.row id) := List.mem_of_find?_eq_some he
  have hmatch := List.find?_some (p := fun e => matchFn (m.entries e)) he
  refine ⟨?_, hmatch⟩
  rw [Linked, h.row _ e hmem]
  exact hmem

theorem linked_of_getEntryById (h : Homes c m) {id : IkeSaId} (he : m.getEntryById c id = some e) :
    m.Linked c e :=
  (linked_of_getEntry h he).1

theorem linked_of_getEntryBySa (h : Homes c m) (he : m.getEntryBySa c s = some e) :
    m.Linked c e ∧ (m.entries e).ikeSa = s := by
  obtain ⟨hlinked, hmatch⟩ := linked_of_getEntry h he
  exact ⟨hlinked, eq_of_beq hmatch⟩

/-! ## What threads refer to -/

/-- What is known of the entry that a thread refers to. -/
def Fits (c : TableConfig) (m : SaTable θ) : Activity → Prop
  | .running => True
  | .waiting e _ => m.Linked c e
  | .destroying e =>
    m.Linked c e ∧ (m.entries e).driveoutNewThreads = true ∧
      (m.entries e).driveoutWaitingThreads = true
  | .putting e _ | .removing e => e < m.nextEntry ∧ ¬m.Linked c e ∧ (m.entries e).gone = false

theorem linked_of_destroying (hf : ∀ t, Fits c m (m.activity t)) (ht : m.activity t = .destroying e) :
    m.Linked c e := by
  have hfits := hf t
  rw [ht] at hfits
  exact hfits.1

theorem fits_of_putting {k : Bool} (hf : ∀ t, Fits c m (m.activity t))
    (ht : m.activity t = .putting e k) : e < m.nextEntry ∧ ¬m.Linked c e := by
  have hfits := hf t
  rw [ht] at hfits
  exact ⟨hfits.1, hfits.2.1⟩

/-- A change that a thread does not notice which refers to an entry. -/
structure Keeps (c : TableConfig) (m m' : SaTable θ) : Prop where
  linked : ∀ e, m'.Linked c e ↔ m.Linked c e
  next : m.nextEntry ≤ m'.nextEntry
  gone : ∀ e < m.nextEntry, (m'.entries e).gone = (m.entries e).gone
  driveout : ∀ e < m.nextEntry, (m.entries e).driveoutNewThreads = true →
    (m.entries e).driveoutWaitingThreads = true →
    (m'.entries e).driveoutNewThreads = true ∧ (m'.entries e).driveoutWaitingThreads = true

theorem Keeps.fits (hk : Keeps c m m') (h : Homes c m) {a : Activity} (ha : m.Fits c a) :
    m'.Fits c a := by
  cases a with
  | running => trivial
  | waiting e p => exact (hk.linked e).2 ha
  | destroying e =>
    obtain ⟨hlinked, hnew, hwaiting⟩ := ha
    exact ⟨(hk.linked e).2 hlinked, hk.driveout e (h.lt_of_linked hlinked) hnew hwaiting⟩
  | putting e k =>
    obtain ⟨hlt, hlinked, hgone⟩ := ha
    exact ⟨hlt.trans_le hk.next, mt (hk.linked e).1 hlinked, (hk.gone e hlt).trans hgone⟩
  | removing e =>
    obtain ⟨hlt, hlinked, hgone⟩ := ha
    exact ⟨hlt.trans_le hk.next, mt (hk.linked e).1 hlinked, (hk.gone e hlt).trans hgone⟩

/-- Nothing changes that belongs to the entries. -/
theorem Keeps.of_eq (hrows : m'.rows = m.rows) (hentries : m'.entries = m.entries)
    (hnext : m'.nextEntry = m.nextEntry) : Keeps c m m' := by
  refine ⟨fun e => ?_, hnext.ge, fun e _ => ?_, fun e _ hnew hwaiting => ?_⟩
  · rw [Linked, Linked, hrows, hentries]
  · rw [hentries]
  · rw [hentries]
    exact ⟨hnew, hwaiting⟩

theorem Keeps.setEntry (hrow : c.row en.ikeSaId = c.row (m.entries e).ikeSaId)
    (hgone : en.gone = (m.entries e).gone)
    (hdriveout : (m.entries e).driveoutNewThreads = true →
      (m.entries e).driveoutWaitingThreads = true →
      en.driveoutNewThreads = true ∧ en.driveoutWaitingThreads = true) :
    Keeps c m (m.setEntry e en) := by
  refine ⟨fun e' => linked_setEntry hrow, le_rfl, fun e' _ => ?_, fun e' _ hnew hwaiting => ?_⟩
  · show (Function.update m.entries e en e').gone = _
    by_cases he : e' = e
    · rw [he, Function.update_self, hgone]
    · rw [Function.update_of_ne he]
  · show (Function.update m.entries e en e').driveoutNewThreads = true ∧
      (Function.update m.entries e en e').driveoutWaitingThreads = true
    by_cases he : e' = e
    · subst he
      rw [Function.update_self]
      exact hdriveout hnew hwaiting
    · rw [Function.update_of_ne he]
      exact ⟨hnew, hwaiting⟩

theorem Keeps.setActivity [DecidableEq θ] (hk : Keeps c m m') (t : θ) (a : Activity) :
    Keeps c m (m'.setActivity t a) :=
  ⟨hk.linked, hk.next, hk.gone, hk.driveout⟩

theorem entries_addEntry_of_lt (he : e < m.nextEntry) : (m.addEntry en).entries e = m.entries e :=
  Function.update_of_ne he.ne _ _

theorem entries_addEntry_self : (m.addEntry en).entries m.nextEntry = en := Function.update_self ..

theorem Homes.keeps_addEntry (h : Homes c m) : Keeps c m (m.addEntry en) := by
  refine ⟨fun e => linked_addEntry h, Nat.le_succ _, fun e he => ?_, fun e he hnew hwaiting => ?_⟩
  · rw [entries_addEntry_of_lt he]
  · rw [entries_addEntry_of_lt he]
    exact ⟨hnew, hwaiting⟩

/-! ## Waiting threads -/

section

variable [Fintype θ]

/-- The threads that wait for an entry, counted. -/
def waiters (m : SaTable θ) (e : ℕ) : ℕ :=
  Tally.total Finset.univ (fun a : Activity => (a.waitsFor e).toNat) m.activity

omit [Fintype θ] in
theorem toNat_eq_ite (b : Bool) : b.toNat = if b = true then 1 else 0 := by
  cases b with
  | false => rfl
  | true => rfl

theorem waiters_eq_card (m : SaTable θ) (e : ℕ) :
    m.waiters e = (Finset.univ.filter fun t => (m.activity t).waitsFor e).card := by
  rw [Finset.card_filter]
  exact Finset.sum_congr rfl fun t _ => toNat_eq_ite _

/-- Threads wait only for entries in the table, which count them, and an entry is created or destroyed by
one thread. -/
structure Waits (c : TableConfig) (m : SaTable θ) : Prop where
  count : ∀ e, (m.entries e).waitingThreads = m.waiters e
  fits : ∀ t, m.Fits c (m.activity t)
  unique : ∀ t t' e, (m.activity t).owns e → (m.activity t').owns e → t = t'
  present : ∀ e, m.Linked c e → (m.entries e).gone = false

theorem waits_create : Waits c (create : SaTable θ) where
  count := fun _ => (Finset.sum_const_zero).symm
  fits := fun _ => trivial
  unique := fun _ _ _ h => absurd h Bool.false_ne_true
  present := fun _ _ => rfl

theorem Waits.of_keeps (hw : Waits c m) (h : Homes c m) (hk : Keeps c m m')
    (hwaiting : ∀ e, (m'.entries e).waitingThreads = (m.entries e).waitingThreads)
    (hactivity : m'.activity = m.activity) : Waits c m' := by
  refine ⟨fun e => ?_, fun t => ?_, ?_, fun e he => ?_⟩
  · rw [hwaiting, hw.count, waiters, waiters, hactivity]
  · rw [hactivity]
    exact hk.fits h (hw.fits t)
  · rw [hactivity]
    exact hw.unique
  · have hlinked := (hk.linked e).1 he
    exact (hk.gone e (h.lt_of_linked hlinked)).trans (hw.present e hlinked)

/-- A change of an entry that leaves alone who waits for it. -/
theorem Waits.setEntry (hw : Waits c m) (h : Homes c m)
    (hrow : c.row en.ikeSaId = c.row (m.entries e).ikeSaId)
    (hwaiting : en.waitingThreads = (m.entries e).waitingThreads)
    (hgone : en.gone = (m.entries e).gone)
    (hdriveout : (m.entries e).driveoutNewThreads = true →
      (m.entries e).driveoutWaitingThreads = true →
      en.driveoutNewThreads = true ∧ en.driveoutWaitingThreads = true) :
    Waits c (m.setEntry e en) := by
  refine hw.of_keeps h (Keeps.setEntry hrow hgone hdriveout) (fun e' => ?_) rfl
  show (Function.update m.entries e en e').waitingThreads = _
  by_cases he : e' = e
  · rw [he, Function.update_self, hwaiting]
  · rw [Function.update_of_ne he]

theorem Waits.linked_of_waiting (hw : Waits c m) {p : Purpose}
    (ht : m.activity t = .waiting e p) : m.Linked c e := by
  have hfits := hw.fits t
  rwa [ht] at hfits

/-- No thread waits for the entry that is created next. -/
theorem Waits.waiters_nextEntry (hw : Waits c m) (h : Homes c m) : m.waiters m.nextEntry = 0 := by
  refine Finset.sum_eq_zero fun t _ => ?_
  have hfits := hw.fits t
  cases ha : m.activity t with
  | waiting e p =>
    rw [ha] at hfits
    have hne : e ≠ m.nextEntry := (h.lt_of_linked hfits).ne
    simp [Activity.waitsFor, hne]
  | running => rfl
  | destroying e => rfl
  | putting e k => rfl
  | removing e => rfl

theorem Waits.not_owns_nextEntry (hw : Waits c m) (h : Homes c m) (t : θ) :
    (m.activity t).owns m.nextEntry = false := by
  have hfits := hw.fits t
  cases ha : m.activity t with
  | running => rfl
  | waiting e p => rfl
  | destroying e =>
    rw [ha] at hfits
    exact beq_false_of_ne (h.lt_of_linked hfits.1).ne
  | putting e k =>
    rw [ha] at hfits
    exact beq_false_of_ne hfits.1.ne
  | removing e =>
    rw [ha] at hfits
    exact beq_false_of_ne hfits.1.ne

theorem Waits.waiting_addEntry (hw : Waits c m) (h : Homes c m) (hwaiting : en.waitingThreads = 0)
    (e : ℕ) : ((m.addEntry en).entries e).waitingThreads = (m.entries e).waitingThreads := by
  show (Function.update m.entries m.nextEntry en e).waitingThreads = _
  by_cases he : e = m.nextEntry
  · rw [he, Function.update_self, hwaiting, hw.count, hw.waiters_nextEntry h]
  · rw [Function.update_of_ne he]

/-- An entry for which no thread waits. -/
theorem Waits.not_waitsFor (hw : Waits c m) (he : (m.entries e).waitingThreads = 0) (t : θ) :
    (m.activity t).waitsFor e = false := by
  have hle : ((m.activity t).waitsFor e).toNat ≤ m.waiters e :=
    Tally.le_total (w := fun a : Activity => (a.waitsFor e).toNat) (Finset.mem_univ t)
  rw [← hw.count, he] at hle
  cases hwaits : (m.activity t).waitsFor e with
  | false => rfl
  | true =>
    rw [hwaits] at hle
    exact absurd hle (by decide)

/-- An entry in the table is created by no thread, and destroyed by one that has set its marks. -/
theorem Waits.not_owns (hw : Waits c m) (he : m.Linked c e)
    (hmarks : ¬((m.entries e).driveoutNewThreads = true ∧
      (m.entries e).driveoutWaitingThreads = true)) (t : θ) : (m.activity t).owns e = false := by
  have hfits := hw.fits t
  cases ha : m.activity t with
  | running => rfl
  | waiting e' p => rfl
  | destroying e' =>
    rw [ha] at hfits
    exact beq_false_of_ne fun heq => hmarks (heq ▸ hfits.2)
  | putting e' k =>
    rw [ha] at hfits
    exact beq_false_of_ne fun heq => hfits.2.1 (heq ▸ he)
  | removing e' =>
    rw [ha] at hfits
    exact beq_false_of_ne fun heq => hfits.2.1 (heq ▸ he)

variable [DecidableEq θ]

omit [Fintype θ] in
theorem unique_update {activity : θ → Activity} {a : Activity}
    (hunique : ∀ t t' e, (activity t).owns e → (activity t').owns e → t = t')
    (howns : ∀ e t', a.owns e → (activity t').owns e → t' = t) (t₁ t₂ : θ) (e : ℕ)
    (h₁ : (Function.update activity t a t₁).owns e)
    (h₂ : (Function.update activity t a t₂).owns e) : t₁ = t₂ := by
  by_cases ht₁ : t₁ = t
  · by_cases ht₂ : t₂ = t
    · rw [ht₁, ht₂]
    · rw [ht₁, Function.update_self] at h₁
      rw [Function.update_of_ne ht₂] at h₂
      rw [ht₁, howns e t₂ h₁ h₂]
  · rw [Function.update_of_ne ht₁] at h₁
    by_cases ht₂ : t₂ = t
    · rw [ht₂, Function.update_self] at h₂
      rw [ht₂, howns e t₁ h₂ h₁]
    · rw [Function.update_of_ne ht₂] at h₂
      exact hunique t₁ t₂ e h₁ h₂

/-- The number of waiting threads when one thread goes on to something else. -/
theorem waiters_update {a : Activity} (hactivity : m'.activity = Function.update m.activity t a)
    (e : ℕ) : m'.waiters e + ((m.activity t).waitsFor e).toNat =
      m.waiters e + (a.waitsFor e).toNat := by
  rw [waiters, hactivity]
  exact Tally.total_update (Finset.mem_univ t) a

theorem waiters_eq {a : Activity} (hactivity : m'.activity = Function.update m.activity t a)
    (hbefore : (m.activity t).waitsFor e = false) (hafter : a.waitsFor e = false) :
    m'.waiters e = m.waiters e := by
  have hcount := waiters_update hactivity e
  rw [hbefore, hafter] at hcount
  exact Nat.add_right_cancel hcount

/-- A thread goes on to something else, while other threads notice nothing. -/
theorem Waits.change (hw : Waits c m) (h : Homes c m) (hk : Keeps c m m') {a : Activity}
    (hactivity : m'.activity = Function.update m.activity t a)
    (hwaiting : ∀ e, (m'.entries e).waitingThreads + ((m.activity t).waitsFor e).toNat =
      (m.entries e).waitingThreads + (a.waitsFor e).toNat)
    (hfits : m'.Fits c a) (howns : ∀ e t', a.owns e → (m.activity t').owns e → t' = t) :
    Waits c m' := by
  refine ⟨fun e => ?_, fun t' => ?_, fun t₁ t₂ e h₁ h₂ => ?_, fun e he => ?_⟩
  · have hcount := waiters_update hactivity e
    have hbefore := hw.count e
    have hchange := hwaiting e
    omega
  · rw [hactivity]
    by_cases ht : t' = t
    · rw [ht, Function.update_self]
      exact hfits
    · rw [Function.update_of_ne ht]
      exact hk.fits h (hw.fits t')
  · rw [hactivity] at h₁ h₂
    exact unique_update hw.unique howns t₁ t₂ e h₁ h₂
  · have hlinked := (hk.linked e).1 he
    exact (hk.gone e (h.lt_of_linked hlinked)).trans (hw.present e hlinked)

theorem Waits.block (hw : Waits c m) (h : Homes c m) (ht : m.activity t = .running)
    (he : m.Linked c e) (p : Purpose) : Waits c (m.block t e p) := by
  have hk : Keeps c m (m.block t e p) := by
    refine Keeps.setActivity (Keeps.setEntry ?_ ?_ ?_) t _
    exacts [rfl, rfl, And.intro]
  refine hw.change h hk rfl (fun e' => ?_) ((hk.linked e).2 he)
    fun e' t' howns => absurd howns Bool.false_ne_true
  show (Function.update m.entries e _ e').waitingThreads + _ = _
  rw [ht]
  by_cases he' : e' = e
  · subst he'
    simp [Activity.waitsFor]
  · rw [Function.update_of_ne he']
    simp [Activity.waitsFor, Ne.symm he']

theorem Waits.unblock (hw : Waits c m) (h : Homes c m) {p : Purpose}
    (ht : m.activity t = .waiting e p) : Waits c (m.unblock t e) := by
  have hk : Keeps c m (m.unblock t e) := by
    refine Keeps.setActivity (Keeps.setEntry ?_ ?_ ?_) t _
    exacts [rfl, rfl, And.intro]
  have hpos : 1 ≤ (m.entries e).waitingThreads := by
    by_contra hnot
    have hwaits := hw.not_waitsFor (Nat.lt_one_iff.1 (Nat.not_le.1 hnot)) t
    rw [ht, Activity.waitsFor, beq_self_eq_true] at hwaits
    exact absurd hwaits.symm Bool.false_ne_true
  refine hw.change h hk rfl (fun e' => ?_) trivial
    fun e' t' howns => absurd howns Bool.false_ne_true
  show (Function.update m.entries e _ e').waitingThreads + _ = _
  rw [ht]
  by_cases he' : e' = e
  · subst he'
    simp only [Function.update_self, Activity.waitsFor, beq_self_eq_true, Bool.toNat_true,
      Bool.toNat_false]
    omega
  · rw [Function.update_of_ne he']
    simp [Activity.waitsFor, Ne.symm he']

omit [DecidableEq θ] in
/-- The entry that a thread creates or destroys belongs to no other thread. -/
theorem Waits.owns_eq_false (hw : Waits c m) (ht : (m.activity t).owns e) (t' : θ) (hne : t' ≠ t) :
    (m.activity t').owns e = false := by
  by_contra hnot
  exact hne (hw.unique t' t e (Bool.not_eq_false _ ▸ hnot) ht)

omit [DecidableEq θ] [Fintype θ] in
theorem ne_of_owns {t' : θ} (howns : ∀ t' ≠ t, (m.activity t').owns e = false) (htt : t' ≠ t)
    (ht' : (m.activity t').owns e' = true) : e' ≠ e := by
  intro heq
  rw [heq, howns t' htt] at ht'
  exact Bool.false_ne_true ht'

/-- An entry is put into the table by the thread that has created it. -/
theorem Waits.putEntry (hw : Waits c m) (hgone : (m.entries e).gone = false)
    (ht : ∀ e', (m.activity t).waitsFor e' = false)
    (howns : ∀ t' ≠ t, (m.activity t').owns e = false) :
    Waits c ((m.putEntry c e).setActivity t .running) := by
  have hlinked : ∀ e', ((m.putEntry c e).setActivity t .running).Linked c e' ↔
      e' = e ∨ m.Linked c e' := fun e' => linked_putEntry (m := m)
  refine ⟨fun e' => (hw.count e').trans (waiters_eq (m := m) rfl (ht e') rfl).symm, fun t' => ?_,
    unique_update hw.unique fun e' t' h' => absurd h' Bool.false_ne_true, fun e' he' => ?_⟩
  · show Fits c _ (Function.update m.activity t .running t')
    by_cases htt : t' = t
    · rw [htt, Function.update_self]
      trivial
    · rw [Function.update_of_ne htt]
      have hfits := hw.fits t'
      cases ha : m.activity t' with
      | running => trivial
      | waiting e' p =>
        rw [ha] at hfits
        exact (hlinked e').2 (Or.inr hfits)
      | destroying e' =>
        rw [ha] at hfits
        exact ⟨(hlinked e').2 (Or.inr hfits.1), hfits.2⟩
      | putting e' k =>
        rw [ha] at hfits
        have hne' : e' ≠ e := ne_of_owns howns htt (by rw [ha]; exact beq_self_eq_true e')
        exact ⟨hfits.1, fun hnow => hfits.2.1 (((hlinked e').1 hnow).resolve_left hne'), hfits.2.2⟩
      | removing e' =>
        rw [ha] at hfits
        have hne' : e' ≠ e := ne_of_owns howns htt (by rw [ha]; exact beq_self_eq_true e')
        exact ⟨hfits.1, fun hnow => hfits.2.1 (((hlinked e').1 hnow).resolve_left hne'), hfits.2.2⟩
  · rcases (hlinked e').1 he' with rfl | hbefore
    · exact hgone
    · exact hw.present e' hbefore

/-- An entry is unlinked when no thread waits for it any more. -/
theorem Waits.removeEntry (hw : Waits c m) (h : Homes c m) (he : m.Linked c e)
    (hzero : (m.entries e).waitingThreads = 0) (ht : ∀ e', (m.activity t).waitsFor e' = false)
    (howns : ∀ t' ≠ t, (m.activity t').owns e = false) :
    Waits c ((m.removeEntry c e).setActivity t (.removing e)) := by
  have hlinked : ∀ e', ((m.removeEntry c e).setActivity t (.removing e)).Linked c e' ↔
      e' ≠ e ∧ m.Linked c e' := fun e' => linked_removeEntry (m := m) h.nodup
  refine ⟨fun e' => ?_, fun t' => ?_, unique_update hw.unique fun e' t' h' ht' => ?_,
    fun e' he' => hw.present e' ((hlinked e').1 he').2⟩
  · exact (hw.count e').trans (waiters_eq (m := m) rfl (ht e') rfl).symm
  · show Fits c _ (Function.update m.activity t (.removing e) t')
    by_cases htt : t' = t
    · rw [htt, Function.update_self]
      exact ⟨h.lt_of_linked he, fun hnow => ((hlinked e).1 hnow).1 rfl, hw.present e he⟩
    · rw [Function.update_of_ne htt]
      have hfits := hw.fits t'
      cases ha : m.activity t' with
      | running => trivial
      | waiting e' p =>
        rw [ha] at hfits
        have hwaits := hw.not_waitsFor hzero t'
        rw [ha] at hwaits
        exact (hlinked e').2 ⟨ne_of_beq_false hwaits, hfits⟩
      | destroying e' =>
        rw [ha] at hfits
        have hne' : e' ≠ e := ne_of_owns howns htt (by rw [ha]; exact beq_self_eq_true e')
        exact ⟨(hlinked e').2 ⟨hne', hfits.1⟩, hfits.2⟩
      | putting e' k =>
        rw [ha] at hfits
        exact ⟨hfits.1, fun hnow => hfits.2.1 ((hlinked e').1 hnow).2, hfits.2.2⟩
      | removing e' =>
        rw [ha] at hfits
        exact ⟨hfits.1, fun hnow => hfits.2.1 ((hlinked e').1 hnow).2, hfits.2.2⟩
  · by_contra htt
    exact ne_of_owns howns htt ht' (eq_of_beq h').symm

/-- Nothing refers to an entry that has been unlinked when its removal is finished. -/
theorem Waits.finishRemoval (hw : Waits c m) (ht : m.activity t = .removing e) :
    Waits c ((m.setEntry e { m.entries e with gone := true }).setActivity t .running) := by
  have howns := hw.owns_eq_false (t := t) (e := e) (by rw [ht]; exact beq_self_eq_true e)
  have hremoved := hw.fits t
  rw [ht] at hremoved
  have hlinked : ∀ e', ((m.setEntry e { m.entries e with gone := true }).setActivity t
      .running).Linked c e' ↔ m.Linked c e' := fun e' => linked_setEntry (m := m) rfl
  have hentry : ∀ e' ≠ e, ((m.setEntry e { m.entries e with gone := true }).setActivity t
      .running).entries e' = m.entries e' := fun e' he' => Function.update_of_ne he' _ _
  refine ⟨fun e' => ?_, fun t' => ?_,
    unique_update hw.unique fun e' t' h' => absurd h' Bool.false_ne_true, fun e' he' => ?_⟩
  · have hbefore : (m.activity t).waitsFor e' = false := by rw [ht]; rfl
    refine Eq.trans ?_ ((hw.count e').trans (waiters_eq (m := m) rfl hbefore rfl).symm)
    by_cases he' : e' = e
    · subst he'
      show (Function.update m.entries e' _ e').waitingThreads = _
      rw [Function.update_self]
    · rw [hentry e' he']
  · show Fits c _ (Function.update m.activity t .running t')
    by_cases htt : t' = t
    · rw [htt, Function.update_self]
      trivial
    · rw [Function.update_of_ne htt]
      have hfits := hw.fits t'
      cases ha : m.activity t' with
      | running => trivial
      | waiting e' p =>
        rw [ha] at hfits
        exact (hlinked e').2 hfits
      | destroying e' =>
        rw [ha] at hfits
        have hne' : e' ≠ e := ne_of_owns howns htt (by rw [ha]; exact beq_self_eq_true e')
        refine ⟨(hlinked e').2 hfits.1, ?_⟩
        rw [hentry e' hne']
        exact hfits.2
      | putting e' k =>
        rw [ha] at hfits
        have hne' : e' ≠ e := ne_of_owns howns htt (by rw [ha]; exact beq_self_eq_true e')
        refine ⟨hfits.1, mt (hlinked e').1 hfits.2.1, ?_⟩
        rw [hentry e' hne']
        exact hfits.2.2
      | removing e' =>
        rw [ha] at hfits
        have hne' : e' ≠ e := ne_of_owns howns htt (by rw [ha]; exact beq_self_eq_true e')
        refine ⟨hfits.1, mt (hlinked e').1 hfits.2.1, ?_⟩
        rw [hentry e' hne']
        exact hfits.2.2
  · have hne' : e' ≠ e := fun heq => hremoved.2.1 (heq ▸ (hlinked e').1 he')
    rw [hentry e' hne']
    exact hw.present e' ((hlinked e').1 he')

end

end SaTable

end Epdg
