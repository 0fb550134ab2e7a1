import VoWiFi.Epdg.Proofs.HalfOpenProofs

/-!
# Runs of the table of IKE SAs

Every step of a thread keeps what is known of the rows, of the waiting threads and of the counters, and so
does every run, in whatever order the threads take their steps.
-/

namespace Epdg

namespace SaTable

variable {θ : Type} [Fintype θ] {c : TableConfig} {m m' : SaTable θ} {e e' s : ℕ} {en : SaEntry θ}
  {t : θ}

/-- What holds between two steps. -/
structure Consistent (c : TableConfig) (m : SaTable θ) : Prop where
  homes : Homes c m
  waits : Waits c m
  halfOpens : HalfOpens c m
  held_lt : ∀ t, ∀ s ∈ m.held t, s < m.nextSa

theorem consistent_create : Consistent c (create : SaTable θ) :=
  ⟨homes_create, waits_create, halfOpens_create, fun _ _ hs => absurd hs List.not_mem_nil⟩

/-! ## Parts of a step -/

/-- The SAs and what threads hold are of no concern to the entries. -/
theorem Consistent.of_homes (h : Consistent c m) (hhomes : Homes c m') (hrows : m'.rows = m.rows)
    (hentries : m'.entries = m.entries) (hnext : m'.nextEntry = m.nextEntry)
    (hactivity : m'.activity = m.activity) (hhalf : m'.halfOpen = m.halfOpen)
    (hheld : ∀ t, ∀ s ∈ m'.held t, s < m'.nextSa) : Consistent c m' := by
  refine ⟨hhomes, ?_, h.halfOpens.congr hentries hnext hhalf, hheld⟩
  exact h.waits.of_keeps h.homes (Keeps.of_eq hrows hentries hnext)
    (fun e => by rw [hentries]) hactivity

theorem Consistent.setSa (h : Consistent c m) {sa : IkeSa}
    (hhome : SameHome c (m.sas s).id sa.id) (halloc : sa.id.Allocated) :
    Consistent c (m.setSa s sa) :=
  h.of_homes (h.homes.setSa hhome halloc) rfl rfl rfl rfl rfl h.held_lt

theorem Consistent.addSa (h : Consistent c m) {id : IkeSaId} (halloc : id.Allocated) :
    Consistent c (m.addSa id) :=
  h.of_homes (h.homes.addSa halloc) rfl rfl rfl rfl rfl
    fun t s hs => Nat.lt_succ_of_lt (h.held_lt t s hs)

/-- The fields of an entry that may change at any time are those that no invariant reads. -/
structure SameCore (en en' : SaEntry θ) : Prop where
  ikeSa : en'.ikeSa = en.ikeSa
  waitingThreads : en'.waitingThreads = en.waitingThreads
  gone : en'.gone = en.gone
  halfOpen : en'.halfOpen = en.halfOpen
  other : en'.other = en.other
  driveout : en.driveoutNewThreads = true → en.driveoutWaitingThreads = true →
    en'.driveoutNewThreads = true ∧ en'.driveoutWaitingThreads = true

theorem Consistent.setEntry (h : Consistent c m) (he : m.Linked c e)
    (hcore : SameCore (m.entries e) en) (hhome : SameHome c en.ikeSaId (m.entries e).ikeSaId) :
    Consistent c (m.setEntry e en) :=
  ⟨h.homes.setEntry hhome hcore.ikeSa,
    h.waits.setEntry h.homes hhome.1 hcore.waitingThreads hcore.gone hcore.driveout,
    h.halfOpens.setEntry hcore.halfOpen hcore.other hcore.gone hhome.2 (h.homes.lt_of_linked he),
    h.held_lt⟩

theorem Consistent.recount (h : Consistent c m) (he : m.Linked c e) (sa : IkeSa) :
    Consistent c (m.recount c e sa) := by
  have hhalf := h.halfOpens.recount (h.homes.lt_of_linked he) (h.waits.present e he) sa
  obtain ⟨half, other, table, heq⟩ := exists_recount (c := c) m e sa
  rw [heq] at hhalf ⊢
  refine ⟨?_, ?_, hhalf, h.held_lt⟩
  · refine (h.homes.setEntry (e := e) ?_ ?_).congr rfl rfl rfl rfl rfl rfl
    exacts [⟨rfl, rfl⟩, rfl]
  · have hw : Waits c (m.setEntry e { m.entries e with halfOpen := half, other := other }) :=
      h.waits.setEntry h.homes rfl rfl rfl And.intro
    exact ⟨hw.count, hw.fits, hw.unique, hw.present⟩

theorem Consistent.learnSpi (h : Consistent c m) (s : ℕ) (spi : UInt64) :
    Consistent c (m.learnSpi s spi) := by
  unfold SaTable.learnSpi
  dsimp only
  split
  · rename_i hzero
    have hmay := (h.homes.allocated s).mayBecome hzero spi
    refine h.setSa ⟨?_, hmay.2.1.symm⟩ (hmay.allocated (h.homes.allocated s))
    rw [TableConfig.row, TableConfig.row, hmay.hash_eq]
  · exact h

variable [DecidableEq θ]

theorem Consistent.hold (h : Consistent c m) (t : θ) (hs : s < m.nextSa) :
    Consistent c (m.hold t s) := by
  refine h.of_homes (h.homes.congr rfl rfl rfl rfl rfl rfl) rfl rfl rfl rfl rfl fun t' s' hs' => ?_
  replace hs' : s' ∈ Function.update m.held t (s :: m.held t) t' := hs'
  by_cases ht : t' = t
  · rw [ht, Function.update_self] at hs'
    rcases List.mem_cons.1 hs' with rfl | hold
    · exact hs
    · exact h.held_lt t s' hold
  · rw [Function.update_of_ne ht] at hs'
    exact h.held_lt t' s' hs'

theorem Consistent.giveBack (h : Consistent c m) (t : θ) (s : ℕ) :
    Consistent c (m.giveBack t s) := by
  refine h.of_homes (h.homes.congr rfl rfl rfl rfl rfl rfl) rfl rfl rfl rfl rfl fun t' s' hs' => ?_
  replace hs' : s' ∈ Function.update m.held t ((m.held t).erase s) t' := hs'
  by_cases ht : t' = t
  · rw [ht, Function.update_self] at hs'
    exact h.held_lt t s' (List.mem_of_mem_erase hs')
  · rw [Function.update_of_ne ht] at hs'
    exact h.held_lt t' s' hs'

theorem Consistent.block (h : Consistent c m) (ht : m.activity t = .running) (he : m.Linked c e)
    (p : Purpose) : Consistent c (m.block t e p) := by
  refine ⟨?_, h.waits.block h.homes ht he p, ?_, h.held_lt⟩
  · refine (h.homes.setEntry (e := e) ?_ ?_).congr rfl rfl rfl rfl rfl rfl
    exacts [⟨rfl, rfl⟩, rfl]
  · refine (h.halfOpens.setEntry (e := e) ?_ ?_ ?_ ?_ (h.homes.lt_of_linked he)).congr rfl rfl rfl
    exacts [rfl, rfl, rfl, rfl]

theorem Consistent.unblock (h : Consistent c m) {p : Purpose}
    (ht : m.activity t = .waiting e p) : Consistent c (m.unblock t e) := by
  have he := h.homes.lt_of_linked (h.waits.linked_of_waiting ht)
  refine ⟨?_, h.waits.unblock h.homes ht, ?_, h.held_lt⟩
  · refine (h.homes.setEntry (e := e) ?_ ?_).congr rfl rfl rfl rfl rfl rfl
    exacts [⟨rfl, rfl⟩, rfl]
  · refine (h.halfOpens.setEntry (e := e) ?_ ?_ ?_ ?_ he).congr rfl rfl rfl
    exacts [rfl, rfl, rfl, rfl]

theorem Consistent.checkOut (h : Consistent c m) (he : m.Linked c e) (t : θ) :
    Consistent c (m.checkOut t e) := by
  refine (h.setEntry he ?_ ?_).hold t (h.homes.sa_lt e (h.homes.lt_of_linked he))
  exacts [⟨rfl, rfl, rfl, rfl, rfl, And.intro⟩, ⟨rfl, rfl⟩]

omit [Fintype θ] in
theorem linked_checkOut : (m.checkOut t e).Linked c e' ↔ m.Linked c e' :=
  linked_setEntry (m := m) rfl

omit [Fintype θ] in
theorem linked_unblock : (m.unblock t e).Linked c e' ↔ m.Linked c e' :=
  linked_setEntry (m := m) rfl

theorem Consistent.granted (h : Consistent c m) (he : m.Linked c e) (t : θ) (wanted : Bool)
    (p : Purpose) : Consistent c (m.granted t e wanted p) := by
  cases p with
  | checkout => exact h.checkOut he t
  | search =>
    show Consistent c (if wanted then m.checkOut t e else m)
    split
    · exact h.checkOut he t
    · exact h
  | message msg =>
    have hout := h.checkOut he t
    unfold SaTable.granted
    dsimp only
    split
    · exact hout.learnSpi _ _
    · refine Consistent.learnSpi (hout.setEntry (linked_checkOut.2 he) ?_ ?_) _ _
      exacts [⟨rfl, rfl, rfl, rfl, rfl, And.intro⟩, ⟨rfl, rfl⟩]

theorem Consistent.takeUnchecked (h : Consistent c m) (he : m.Linked c e) (t : θ)
    (msg : SaMessage) : Consistent c (m.takeUnchecked t e msg) := by
  unfold SaTable.takeUnchecked
  split
  · exact h.hold t (h.homes.sa_lt e (h.homes.lt_of_linked he))
  · exact h

theorem Consistent.answer (h : Consistent c m) (ht : m.activity t = .running) (he : m.Linked c e)
    (p : Purpose) (wanted : Bool) (a : WaitAnswer) : Consistent c (m.answer t e p wanted a) := by
  cases a with
  | wait => exact h.block ht he p
  | granted => exact h.granted he t wanted p
  | refused =>
    cases p with
    | checkout => exact h
    | search => exact h
    | message msg => exact h.takeUnchecked he t msg

/-! ## New entries -/

omit [DecidableEq θ] in
theorem Consistent.addEntry (h : Consistent c m)
    (hhome : SameHome c en.ikeSaId (m.sas en.ikeSa).id) (hsa : en.ikeSa < m.nextSa)
    (hwaiting : en.waitingThreads = 0) (hhalf : en.halfOpen = false) :
    Consistent c (m.addEntry en) :=
  ⟨h.homes.addEntry hhome hsa,
    h.waits.of_keeps h.homes h.homes.keeps_addEntry (h.waits.waiting_addEntry h.homes hwaiting) rfl,
    h.halfOpens.addEntry hhalf, h.held_lt⟩

theorem Consistent.putEntry (h : Consistent c m) (he : e < m.nextEntry) (hnew : ¬m.Linked c e)
    (hgone : (m.entries e).gone = false) (ht : ∀ e', (m.activity t).waitsFor e' = false)
    (howns : ∀ t' ≠ t, (m.activity t').owns e = false) :
    Consistent c ((m.putEntry c e).setActivity t .running) :=
  ⟨(h.homes.putEntry he hnew).congr rfl rfl rfl rfl rfl rfl, h.waits.putEntry hgone ht howns,
    h.halfOpens.congr rfl rfl rfl, h.held_lt⟩

theorem Consistent.createEntry (h : Consistent c m) (ht : m.activity t = .running)
    (hs : s < m.nextSa) (k : Bool) : Consistent c (m.createEntry c t s k) := by
  have hhomes : Homes c (m.addEntry (m.newEntry s)) := h.homes.addEntry ⟨rfl, rfl⟩ hs
  have hwaits : Waits c ((m.addEntry (m.newEntry s)).setActivity t (.putting m.nextEntry k)) := by
    refine h.waits.change h.homes (h.homes.keeps_addEntry.setActivity t _) rfl (fun e' => ?_)
      ⟨Nat.lt_succ_self _, ?_, ?_⟩ fun e' t' howns ht' => ?_
    · rw [ht]
      exact h.waits.waiting_addEntry h.homes rfl e'
    · exact fun hlinked => (h.homes.lt_of_linked ((linked_addEntry h.homes).1 hlinked)).ne rfl
    · show (Function.update m.entries m.nextEntry _ m.nextEntry).gone = false
      rw [Function.update_self]
      rfl
    · rw [← eq_of_beq howns, h.waits.not_owns_nextEntry h.homes] at ht'
      exact absurd ht' Bool.false_ne_true
  unfold SaTable.createEntry
  dsimp only
  split
  · rename_i hhalf
    have hcounted : Counted (m.newEntry s) (m.sas s).otherHost :=
      ⟨hhalf, rfl, if_pos (of_decide_eq_true hhalf)⟩
    exact ⟨hhomes.congr rfl rfl rfl rfl rfl rfl,
      ⟨hwaits.count, hwaits.fits, hwaits.unique, hwaits.present⟩,
      (h.halfOpens.addCounted hcounted).congr rfl rfl rfl, h.held_lt⟩
  · rename_i hhalf
    exact ⟨hhomes.congr rfl rfl rfl rfl rfl rfl, hwaits,
      (h.halfOpens.addEntry (Bool.eq_false_of_not_eq_true hhalf)).congr rfl rfl rfl, h.held_lt⟩

/-! ## Removing an entry -/

theorem Consistent.driveOut (h : Consistent c m) (he : m.Linked c e)
    (hmarks : (m.entries e).driveoutNewThreads = true ∧
      (m.entries e).driveoutWaitingThreads = true)
    (ht : ∀ e', (m.activity t).waitsFor e' = false)
    (howns : ∀ t' ≠ t, (m.activity t').owns e = false) : Consistent c (m.driveOut c t e) := by
  unfold SaTable.driveOut
  split
  · refine ⟨h.homes.congr rfl rfl rfl rfl rfl rfl, ?_, h.halfOpens.congr rfl rfl rfl, h.held_lt⟩
    refine h.waits.change h.homes (Keeps.of_eq rfl rfl rfl) rfl (fun e' => ?_) ⟨he, hmarks⟩
      fun e' t' howns' ht' => ?_
    · rw [ht]
      rfl
    · by_contra htt
      exact ne_of_owns howns htt ht' (eq_of_beq howns').symm
  · rename_i hzero
    exact ⟨(h.homes.removeEntry he).congr rfl rfl rfl rfl rfl rfl,
      h.waits.removeEntry h.homes he (not_ne_iff.1 hzero) ht howns,
      h.halfOpens.congr rfl rfl rfl, h.held_lt⟩

theorem Consistent.finishRemoval (h : Consistent c m) (ht : m.activity t = .removing e) :
    Consistent c (m.finishRemoval c t e) := by
  have hfits := h.waits.fits t
  rw [ht] at hfits
  obtain ⟨hlt, -, hgone⟩ := hfits
  have hhomes : Homes c (m.setEntry e { m.entries e with gone := true }) :=
    h.homes.setEntry ⟨rfl, rfl⟩ rfl
  have hwaits := h.waits.finishRemoval ht
  unfold SaTable.finishRemoval
  dsimp only
  split
  · rename_i hhalf
    obtain ⟨addr, haddr⟩ := Option.isSome_iff_exists.1 (h.halfOpens.other e hlt hhalf)
    have hout : HalfOpens c ((m.setEntry e { m.entries e with gone := true }).removeHalfOpen c
        (m.entries e)) :=
      h.halfOpens.uncount hlt ⟨hhalf, hgone, haddr⟩ (Or.inr rfl) (h.halfOpens.other e hlt)
    exact ⟨hhomes.congr rfl rfl rfl rfl rfl rfl,
      ⟨hwaits.count, hwaits.fits, hwaits.unique, hwaits.present⟩, hout.congr rfl rfl rfl, h.held_lt⟩
  · rename_i hhalf
    have hsame : HalfOpens c (m.setEntry e { m.entries e with gone := true }) :=
      h.halfOpens.setUncounted (Or.inl (Bool.eq_false_of_not_eq_true hhalf)) (Or.inr rfl)
        (h.halfOpens.other e hlt)
    exact ⟨hhomes.congr rfl rfl rfl rfl rfl rfl, hwaits, hsame.congr rfl rfl rfl, h.held_lt⟩

/-! ## Operations -/

omit [Fintype θ] [DecidableEq θ] in
theorem allocated_newId {version : UInt8} {initiator : Bool} {spi : UInt64} (hspi : spi ≠ 0) :
    (newId version initiator spi).Allocated := by
  cases initiator with
  | true => exact fun _ hrole => absurd hrole.symm Bool.false_ne_true
  | false => exact fun _ _ => hspi

theorem Consistent.createNew (h : Consistent c m) (t : θ) (version : UInt8) (initiator : Bool)
    (spi : UInt64) : Consistent c (m.createNew t version initiator spi) := by
  unfold SaTable.createNew
  split
  · exact h
  · rename_i hspi
    exact (h.addSa (allocated_newId hspi)).hold t (Nat.lt_succ_self _)

theorem Consistent.checkout (h : Consistent c m) (ht : m.activity t = .running) (id : IkeSaId) :
    Consistent c (m.checkout c t id) := by
  unfold SaTable.checkout
  split
  · rename_i e he
    exact h.answer ht (linked_of_getEntryById h.homes he) _ _ _
  · exact h

omit [Fintype θ] in
theorem setActivity_self {a : Activity} (ht : m.activity t = a) : m.setActivity t a = m := by
  subst ht
  rw [SaTable.setActivity, Function.update_eq_self]

/-- A thread outside of the manager creates an entry and puts it into the table. -/
theorem Consistent.putNew (h : Consistent c m) (ht : m.activity t = .running)
    (hhome : SameHome c en.ikeSaId (m.sas en.ikeSa).id) (hsa : en.ikeSa < m.nextSa)
    (hwaiting : en.waitingThreads = 0) (hhalf : en.halfOpen = false) (hgone : en.gone = false) :
    Consistent c ((m.addEntry en).putEntry c m.nextEntry) := by
  have hentry := h.addEntry hhome hsa hwaiting hhalf
  have hnew : ¬Linked c (m.addEntry en) m.nextEntry :=
    fun hlinked => (h.homes.lt_of_linked ((linked_addEntry h.homes).1 hlinked)).ne rfl
  have hput : Consistent c (((m.addEntry en).putEntry c m.nextEntry).setActivity t .running) := by
    refine hentry.putEntry (Nat.lt_succ_self _) hnew ?_ (fun e' => ?_)
      fun t' _ => h.waits.not_owns_nextEntry h.homes t'
    · show (Function.update m.entries m.nextEntry en m.nextEntry).gone = false
      rw [Function.update_self, hgone]
    · show (m.activity t).waitsFor e' = false
      rw [ht]
      rfl
  have hself : ((m.addEntry en).putEntry c m.nextEntry).activity t = .running := ht
  rwa [setActivity_self hself] at hput

theorem Consistent.checkoutNewByMessage (h : Consistent c m) (ht : m.activity t = .running)
    (id : IkeSaId) (spi : UInt64) (key : UInt32) :
    Consistent c (m.checkoutNewByMessage c t id spi key) := by
  unfold SaTable.checkoutNewByMessage
  split
  · exact h
  · rename_i hspi
    have hadd : Consistent c (m.addSa { id with responderSpi := spi }) := h.addSa fun _ _ => hspi
    refine Consistent.checkOut (hadd.putNew (t := t) ht ?_ ?_ ?_ ?_ ?_)
      (linked_putEntry.2 (Or.inl rfl)) t
    · show SameHome c _ (Function.update m.sas m.nextSa _ m.nextSa).id
      rw [Function.update_self]
      exact ⟨rfl, rfl⟩
    · exact Nat.lt_succ_self _
    · rfl
    · rfl
    · rfl

theorem Consistent.checkoutByMessage (h : Consistent c m) (ht : m.activity t = .running)
    (msg : SaMessage) : Consistent c (m.checkoutByMessage c t msg) := by
  unfold SaTable.checkoutByMessage
  split
  · rename_i e he
    have hlinked := linked_of_getEntryById h.homes he
    dsimp only
    split
    · exact h.takeUnchecked hlinked t msg
    · exact h.answer ht hlinked _ _ _
  · exact h

omit [DecidableEq θ] in
theorem Consistent.newInitiatorSpi (h : Consistent c m) (s : ℕ) (spi : UInt64) :
    Consistent c (m.newInitiatorSpi c s spi) := by
  unfold SaTable.newInitiatorSpi
  dsimp only
  split
  · rename_i hcase
    split
    · rename_i e he
      obtain ⟨hlinked, hsa⟩ := linked_of_getEntryBySa h.homes he
      split
      · exact h
      · have hrow := c.row_mergeSpi hcase.2.1 spi
        have hset : Consistent c (m.setSa s { m.sas s with
            id := { (m.sas s).id with
              initiatorSpi := c.mergeSpi (m.sas s).id.initiatorSpi spi } }) :=
          h.setSa ⟨hrow.symm, rfl⟩
            fun _ hrole => absurd (hrole.symm.trans hcase.2.1) Bool.false_ne_true
        have hsame := h.homes.same e (h.homes.lt_of_linked hlinked)
        rw [hsa] at hsame
        exact hset.setEntry hlinked ⟨rfl, rfl, rfl, rfl, rfl, And.intro⟩
          ⟨hrow.trans hsame.1.symm, hsame.2.symm⟩
    · exact h
  · exact h

theorem Consistent.checkin (h : Consistent c m) (ht : m.activity t = .running) (hs : s ∈ m.held t) :
    Consistent c (m.checkin c t s) := by
  unfold SaTable.checkin
  split
  · rename_i e he
    obtain ⟨hlinked, hsa⟩ := linked_of_getEntryBySa h.homes he
    have hsame := h.homes.same e (h.homes.lt_of_linked hlinked)
    rw [hsa] at hsame
    have hset : Consistent c ((m.giveBack t s).setEntry e
        { m.entries e with
          ikeSaId := (m.sas s).id, checkedOut := none, processing := noMessage }) :=
      (h.giveBack t s).setEntry hlinked ⟨rfl, rfl, rfl, rfl, rfl, And.intro⟩
        ⟨hsame.1.symm, hsame.2.symm⟩
    refine hset.recount ((linked_setEntry ?_).2 hlinked) _
    exact hsame.1.symm
  · exact (h.giveBack t s).createEntry ht (h.held_lt t s hs) false

theorem Consistent.checkinAndDestroy (h : Consistent c m) (ht : m.activity t = .running) (s : ℕ) :
    Consistent c (m.checkinAndDestroy c t s) := by
  have hgive := h.giveBack t s
  unfold SaTable.checkinAndDestroy
  split
  · rename_i e he
    obtain ⟨hlinked, -⟩ := linked_of_getEntryBySa h.homes he
    dsimp only
    split
    · exact hgive.setEntry hlinked ⟨rfl, rfl, rfl, rfl, rfl, And.intro⟩ ⟨rfl, rfl⟩
    · rename_i hmarks
      have hset : Consistent c ((m.giveBack t s).setEntry e
          { m.entries e with driveoutWaitingThreads := true, driveoutNewThreads := true }) :=
        hgive.setEntry hlinked ⟨rfl, rfl, rfl, rfl, rfl, fun _ _ => ⟨rfl, rfl⟩⟩ ⟨rfl, rfl⟩
      refine hset.driveOut ((linked_setEntry ?_).2 hlinked) ?_ ?_ ?_
      · rfl
      · show (Function.update m.entries e _ e).driveoutNewThreads = true ∧
          (Function.update m.entries e _ e).driveoutWaitingThreads = true
        rw [Function.update_self]
        exact ⟨rfl, rfl⟩
      · intro e'
        show (m.activity t).waitsFor e' = false
        rw [ht]
        rfl
      · refine fun t' _ => h.waits.not_owns hlinked (fun hboth => hmarks ?_) t'
        rw [hboth.1, hboth.2]
        rfl
  · exact hgive

/-! ## Steps and runs -/

omit [DecidableEq θ] in
/-- A step that is taken only under a condition. -/
theorem Consistent.guard {P : Prop} [Decidable P] (h : Consistent c m) (hP : P → Consistent c m') :
    Consistent c (if P then m' else m) := by
  split
  · rename_i hcase
    exact hP hcase
  · exact h

theorem Consistent.wake (h : Consistent c m) {p : Purpose} (ht : m.activity t = .waiting e p)
    (wanted : Bool) (a : WaitAnswer) : Consistent c ((m.unblock t e).answer t e p wanted a) := by
  have hlinked : Linked c (m.unblock t e) e :=
    linked_unblock.2 (h.waits.linked_of_waiting ht)
  have hrunning : (m.unblock t e).activity t = .running := Function.update_self ..
  exact (h.unblock ht).answer hrunning hlinked p wanted a

theorem Consistent.putStep (h : Consistent c m) {k : Bool} (ht : m.activity t = .putting e k) :
    Consistent c ((m.putEntry c e).setActivity t .running) := by
  have hfits := h.waits.fits t
  rw [ht] at hfits
  have howns : (m.activity t).owns e = true := by
    rw [ht]
    exact beq_self_eq_true e
  exact h.putEntry hfits.1 hfits.2.1 hfits.2.2 (fun e' => by rw [ht]; rfl)
    (h.waits.owns_eq_false howns)

theorem Consistent.driveOutStep (h : Consistent c m) (ht : m.activity t = .destroying e) :
    Consistent c (m.driveOut c t e) := by
  have hfits := h.waits.fits t
  rw [ht] at hfits
  have howns : (m.activity t).owns e = true := by
    rw [ht]
    exact beq_self_eq_true e
  exact h.driveOut hfits.1 hfits.2 (fun e' => by rw [ht]; rfl) (h.waits.owns_eq_false howns)

theorem Consistent.next (h : Consistent c m) (step : Step θ) : Consistent c (m.next c step) := by
  cases step with
  | createNew t version initiator spi => exact h.guard fun _ => h.createNew t version initiator spi
  | work t s id state otherHost =>
    refine h.guard fun hcase => ?_
    have hmay := hcase.2
    refine h.setSa ⟨?_, hmay.2.1.symm⟩ (hmay.allocated (h.homes.allocated s))
    rw [TableConfig.row, TableConfig.row, hmay.hash_eq]
  | checkoutNew t s =>
    exact h.guard fun hcase => h.createEntry hcase.1.1 (h.held_lt t s hcase.1.2) true
  | putEntry t =>
    unfold SaTable.next
    dsimp only
    split
    · rename_i e k ht
      have hput := h.putStep ht
      split
      · have hlinked : Linked c ((m.putEntry c e).setActivity t .running) e :=
          (linked_putEntry (m := m)).2 (Or.inl rfl)
        refine hput.setEntry hlinked ?_ ?_
        exacts [⟨rfl, rfl, rfl, rfl, rfl, And.intro⟩, ⟨rfl, rfl⟩]
      · exact hput
    · exact h
  | checkout t id => exact h.guard fun ht => h.checkout ht id
  | search t e wanted => exact h.guard fun hcase => h.answer hcase.1 hcase.2 _ _ _
  | wake t wanted =>
    unfold SaTable.next
    dsimp only
    split
    · rename_i e p ht
      exact h.wake ht wanted _
    · exact h
  | checkoutNewByMessage t id spi key =>
    exact h.guard fun ht => h.checkoutNewByMessage ht id spi key
  | checkoutByMessage t msg => exact h.guard fun ht => h.checkoutByMessage ht msg
  | newInitiatorSpi t s spi => exact h.guard fun _ => h.newInitiatorSpi s spi
  | checkin t s => exact h.guard fun hcase => h.checkin hcase.1 hcase.2
  | checkinAndDestroy t s => exact h.guard fun hcase => h.checkinAndDestroy hcase.1 s
  | driveOut t =>
    unfold SaTable.next
    dsimp only
    split
    · rename_i e ht
      exact h.driveOutStep ht
    · exact h
  | finishRemoval t =>
    unfold SaTable.next
    dsimp only
    split
    · rename_i e ht
      exact h.finishRemoval ht
    · exact h

theorem consistent_run (steps : List (Step θ)) : Consistent c (run c steps) :=
  Run.always (fun _ step h => h.next step) consistent_create

omit [Fintype θ] [DecidableEq θ] in
/-- The number of entries in the rows is that of the entries in the table. -/
theorem Homes.card_linked (h : Homes c m) :
    ((Finset.range m.nextEntry).filter fun e => m.Linked c e).card = m.totalSaCount := by
  have hunion : ((Finset.range m.nextEntry).filter fun e => m.Linked c e) =
      (Finset.range c.tableSize).biUnion fun r => (m.rows r).toFinset := by
    ext e
    simp only [Finset.mem_filter, Finset.mem_range, Finset.mem_biUnion, List.mem_toFinset]
    constructor
    · exact fun he => ⟨_, c.row_lt _, he.2⟩
    · rintro ⟨r, -, he⟩
      refine ⟨h.lt r e he, ?_⟩
      rw [Linked, h.row r e he]
      exact he
  rw [hunion, Finset.card_biUnion, h.total]
  · exact Finset.sum_congr rfl fun r _ => List.toFinset_card_of_nodup (h.nodup r)
  · intro r _ r' _ hne
    refine Finset.disjoint_left.2 fun e he he' => hne ?_
    rw [List.mem_toFinset] at he he'
    rw [← h.row r e he, h.row r' e he']

/-! ## What holds in every run -/

/-- `waiting_threads` is the number of threads that wait for an entry, and no thread waits for an entry that
has been unlinked. -/
theorem waitingThreads_run (c : TableConfig) (steps : List (Step θ)) :
    (∀ e, ((run c steps).entries e).waitingThreads =
      (Finset.univ.filter fun t => ((run c steps).activity t).waitsFor e).card) ∧
    ∀ t e p, (run c steps).activity t = .waiting e p → (run c steps).Linked c e := by
  have h := consistent_run (c := c) steps
  refine ⟨fun e => ?_, fun t e p ht => h.waits.linked_of_waiting ht⟩
  rw [h.waits.count, waiters_eq_card]

end SaTable

end Epdg
