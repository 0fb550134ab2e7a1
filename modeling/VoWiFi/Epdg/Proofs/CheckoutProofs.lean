import VoWiFi.Epdg.Proofs.HandsProofs

/-!
# No two threads have the same IKE SA

As long as `checkout_by_message` returns only SAs that it has checked out, an SA is held by one thread at
a time, an entry is checked out exactly as long as a thread holds its SA or destroys it, and an SA has one
entry, so that `checkin` never adds a second one.

The manager itself does not keep `checkout_by_message` from returning an SA of another thread: it takes the
SA of the entry it has found after the check-out has failed.
-/

namespace Epdg

namespace SaTable

variable {θ : Type} [DecidableEq θ] {c : TableConfig} {m m' : SaTable θ} {e e' s s' : ℕ}
  {en : SaEntry θ} {t t' : θ}

/-! ## Waiting -/

omit [DecidableEq θ] in
theorem checkedOut_of_granted (h : en.tryEntry = .granted) : en.checkedOut = none := by
  unfold SaEntry.tryEntry at h
  split at h
  · cases h
  · rename_i hwait
    split at h
    · cases h
    · rename_i hdriveout
      rw [Bool.eq_false_of_not_eq_true hdriveout, Bool.not_false, Bool.and_true] at hwait
      exact Option.not_isSome_iff_eq_none.1 hwait

omit [DecidableEq θ] in
theorem checkedOut_of_waitForEntry (h : en.waitForEntry = .granted) : en.checkedOut = none := by
  unfold SaEntry.waitForEntry at h
  split at h
  · cases h
  · exact checkedOut_of_granted h

/-- Threads go to sleep and wake up. -/
theorem Exclusive.setWaiting (h : Exclusive c m) {a : Activity} (hbefore : Idle (m.activity t))
    (hafter : Idle a) (n : ℕ) :
    Exclusive c ((m.setEntry e { m.entries e with waitingThreads := n }).setActivity t a) := by
  have hset : Exclusive c (m.setEntry e { m.entries e with waitingThreads := n }) :=
    h.setEntry rfl rfl rfl
  exact hset.of_same rfl (fun e' => Iff.rfl) (fun e' => ⟨rfl, rfl⟩)
    (alike_update hbefore hafter) (fun s => rfl) rfl le_rfl

theorem Exclusive.granted (h : Exclusive c m) (hf : ∀ t, Fits c m (m.activity t))
    (he : m.Linked c e) (hout : (m.entries e).checkedOut = none) (t : θ) (wanted : Bool)
    (p : Purpose) : Exclusive c (m.granted t e wanted p) := by
  have hcheck := h.checkOut hf he hout t
  have hlearn : ∀ {m₁ : SaTable θ} {s : ℕ} {spi : UInt64}, Exclusive c m₁ →
      Exclusive c (m₁.learnSpi s spi) := by
    intro m₁ s spi h₁
    unfold SaTable.learnSpi
    dsimp only
    split
    · exact h₁.setSa rfl
    · exact h₁
  cases p with
  | checkout => exact hcheck
  | search =>
    show Exclusive c (if wanted then m.checkOut t e else m)
    split
    · exact hcheck
    · exact h
  | message msg =>
    unfold SaTable.granted
    dsimp only
    split
    · exact hlearn hcheck
    · refine hlearn (hcheck.setEntry ?_ ?_ ?_)
      exacts [rfl, rfl, rfl]

theorem Exclusive.answer (h : Exclusive c m) (hf : ∀ t, Fits c m (m.activity t))
    (ht : m.activity t = .running) (he : m.Linked c e) (p : Purpose) (wanted : Bool)
    {a : WaitAnswer} (hgranted : a = .granted → (m.entries e).checkedOut = none)
    (hrefused : a = .refused → ∀ msg, p = .message msg → ¬msg.Takes) :
    Exclusive c (m.answer t e p wanted a) := by
  cases a with
  | wait => exact h.setWaiting (by rw [ht]; exact idle_running) idle_waiting _
  | granted => exact h.granted hf he (hgranted rfl) t wanted p
  | refused =>
    cases p with
    | checkout => exact h
    | search => exact h
    | message msg =>
      show Exclusive c (m.takeUnchecked t e msg)
      rw [takeUnchecked, if_neg (hrefused rfl msg rfl)]
      exact h

/-! ## Operations -/

theorem Exclusive.checkout (h : Exclusive c m) (hm : Homes c m)
    (hf : ∀ t, Fits c m (m.activity t)) (ht : m.activity t = .running) (id : IkeSaId) :
    Exclusive c (m.checkout c t id) := by
  unfold SaTable.checkout
  split
  · rename_i e he
    exact h.answer hf ht (linked_of_getEntryById hm he) _ _ checkedOut_of_waitForEntry
      fun _ msg hmsg => by cases hmsg
  · exact h

theorem Exclusive.checkoutByMessage (h : Exclusive c m) (hm : Homes c m)
    (hf : ∀ t, Fits c m (m.activity t)) (ht : m.activity t = .running) (msg : SaMessage)
    (hnot : ¬Unchecked c m (.checkoutByMessage t msg)) :
    Exclusive c (m.checkoutByMessage c t msg) := by
  unfold SaTable.checkoutByMessage
  split
  · rename_i e he
    dsimp only
    split
    · rename_i hkey
      rw [takeUnchecked, if_neg fun htakes => hnot ⟨ht, e, he, Or.inl hkey, htakes⟩]
      exact h
    · refine h.answer hf ht (linked_of_getEntryById hm he) _ _ checkedOut_of_waitForEntry ?_
      intro hrefused msg' hmsg htakes
      obtain rfl := Purpose.message.inj hmsg
      exact hnot ⟨ht, e, he, Or.inr hrefused, htakes⟩
  · exact h

theorem Exclusive.wake (h : Exclusive c m) (hf : ∀ t', Fits c (m.unblock t e)
      ((m.unblock t e).activity t')) (he : m.Linked c e) {p : Purpose} {wanted : Bool}
    (ht : m.activity t = .waiting e p) (hnot : ¬Unchecked c m (.wake t wanted)) :
    Exclusive c ((m.unblock t e).answer t e p wanted (m.entries e).tryEntry) := by
  have hun : Exclusive c (m.unblock t e) :=
    h.setWaiting (by rw [ht]; exact idle_waiting) idle_running _
  have hrunning : (m.unblock t e).activity t = .running := Function.update_self ..
  refine hun.answer hf hrunning (linked_unblock.2 he) p wanted (fun hgranted => ?_) ?_
  · show (Function.update m.entries e _ e).checkedOut = none
    rw [Function.update_self]
    exact checkedOut_of_granted hgranted
  · rintro hrefused msg rfl htakes
    apply hnot
    show m.takesRefused (m.activity t) = true
    rw [ht]
    exact decide_eq_true ⟨hrefused, htakes⟩

omit [DecidableEq θ] in
theorem Exclusive.newInitiatorSpi (h : Exclusive c m) (hm : Homes c m) (s : ℕ) (spi : UInt64) :
    Exclusive c (m.newInitiatorSpi c s spi) := by
  unfold SaTable.newInitiatorSpi
  dsimp only
  split
  · rename_i hcase
    split
    · rename_i e he
      obtain ⟨hlinked, hsa⟩ := linked_of_getEntryBySa hm he
      have hsame := hm.same e (hm.lt_of_linked hlinked)
      rw [hsa] at hsame
      split
      · exact h
      · refine Exclusive.setEntry (h.setSa ?_) ?_ ?_ ?_
        · rfl
        · exact (c.row_mergeSpi hcase.2.1 spi).trans hsame.1.symm
        · rfl
        · rfl
    · exact h
  · exact h

omit [DecidableEq θ] in
theorem Exclusive.recount (h : Exclusive c m) (e : ℕ) (sa : IkeSa) :
    Exclusive c (m.recount c e sa) := by
  obtain ⟨half, other, table, heq⟩ := exists_recount (c := c) m e sa
  have hset : Exclusive c (m.setEntry e { m.entries e with halfOpen := half, other := other }) :=
    h.setEntry rfl rfl rfl
  rw [heq]
  exact hset.of_same rfl (fun e' => Iff.rfl) (fun e' => ⟨rfl, rfl⟩) (fun t => Or.inl rfl)
    (fun s => rfl) rfl le_rfl

/-- A thread creates an entry for its SA, which has none, or for one that it has given back. -/
theorem Exclusive.createEntry (h : Exclusive c m) (hm : Homes c m)
    (hf : ∀ t, Fits c m (m.activity t)) (ht : m.activity t = .running) (hs : s < m.nextSa)
    (hmanaged : (m.sas s).managed = false) {k : Bool}
    (hheld : ∀ t', s ∈ m.held t' ↔ k = true ∧ t' = t) : Exclusive c (m.createEntry c t s k) := by
  have hadd : Exclusive c ((m.addEntry (m.newEntry s)).setActivity t (.putting m.nextEntry k)) :=
    h.addEntry hm hf ht hs hmanaged rfl hheld
  unfold SaTable.createEntry
  dsimp only
  split
  · exact hadd.of_same rfl (fun e' => Iff.rfl) (fun e' => ⟨rfl, rfl⟩) (fun t => Or.inl rfl)
      (fun s => rfl) rfl le_rfl
  · exact hadd

omit [DecidableEq θ] in
/-- The SA of a thread outside of the manager has an entry in the table if it has been put there. -/
theorem Exclusive.getEntryBySa (h : Exclusive c m) (hm : Homes c m) (ht : m.activity t = .running)
    (hs : s ∈ m.held t) (hmanaged : (m.sas s).managed = true) : (m.getEntryBySa c s).isSome := by
  rcases h.managed t s hs hmanaged with ⟨e, he, rfl⟩ | ⟨e, k, ht', -⟩
  · exact hm.isSome_getEntryBySa he
  · rw [ht] at ht'
    cases ht'

theorem Exclusive.checkin (h : Exclusive c m) (hm : Homes c m)
    (hf : ∀ t, Fits c m (m.activity t)) (ht : m.activity t = .running) (hs : s ∈ m.held t)
    (hlt : s < m.nextSa) : Exclusive c (m.checkin c t s) := by
  unfold SaTable.checkin
  split
  · rename_i e he
    obtain ⟨hlinked, rfl⟩ := linked_of_getEntryBySa hm he
    have hsame := hm.same e (hm.lt_of_linked hlinked)
    refine Exclusive.recount (h.checkinEntry hf hlinked hs ?_ ?_ ?_) _ _
    · exact hsame.1.symm
    · rfl
    · rfl
  · rename_i hnone
    have hmanaged : (m.sas s).managed = false := by
      by_contra hnot
      have hsome := h.getEntryBySa hm ht hs (Bool.not_eq_false _ ▸ hnot)
      rw [hnone] at hsome
      exact absurd hsome Bool.false_ne_true
    have hgive : Exclusive c (m.giveBack t s) := h.giveBack hm hf hmanaged
    exact hgive.createEntry (hm.congr rfl rfl rfl rfl rfl rfl) hf ht hlt hmanaged fun t' =>
      iff_of_false (h.not_mem_giveBack hs t') fun hfalse => Bool.false_ne_true hfalse.1

theorem driveOut_setActivity (m : SaTable θ) (t : θ) (e : ℕ) (a : Activity) :
    (m.setActivity t a).driveOut c t e = m.driveOut c t e := by
  simp only [SaTable.driveOut, SaTable.setActivity, SaTable.removeEntry, Function.update_idem]
  rfl

theorem Exclusive.checkinAndDestroy (h : Exclusive c m) (hm : Homes c m)
    (hf : ∀ t, Fits c m (m.activity t)) (ht : m.activity t = .running) (hs : s ∈ m.held t) :
    Exclusive c (m.checkinAndDestroy c t s) := by
  unfold SaTable.checkinAndDestroy
  split
  · rename_i e he
    obtain ⟨hlinked, rfl⟩ := linked_of_getEntryBySa hm he
    dsimp only
    split
    · refine h.checkinEntry hf hlinked hs ?_ ?_ ?_
      exacts [rfl, rfl, rfl]
    · rw [← driveOut_setActivity _ t e (.destroying e)]
      have hbegin : Exclusive c (((m.giveBack t (m.entries e).ikeSa).setEntry e
          { m.entries e with
            driveoutWaitingThreads := true, driveoutNewThreads := true }).setActivity t
          (.destroying e)) := h.beginDestroy hf hlinked hs ht rfl rfl rfl
      have hkeeps : Keeps c m (((m.giveBack t (m.entries e).ikeSa).setEntry e
          { m.entries e with
            driveoutWaitingThreads := true, driveoutNewThreads := true }).setActivity t
          (.destroying e)) := by
        have hset : Keeps c m (m.setEntry e { m.entries e with
            driveoutWaitingThreads := true, driveoutNewThreads := true }) :=
          Keeps.setEntry rfl rfl fun _ _ => ⟨rfl, rfl⟩
        exact ⟨hset.linked, hset.next, hset.gone, hset.driveout⟩
      refine hbegin.driveOut (fun t' => ?_) hm.nodup (Function.update_self ..)
      show Fits c _ (Function.update m.activity t (.destroying e) t')
      by_cases htt : t' = t
      · rw [htt, Function.update_self]
        refine ⟨(hkeeps.linked e).2 hlinked, ?_⟩
        show (Function.update m.entries e _ e).driveoutNewThreads = true ∧
          (Function.update m.entries e _ e).driveoutWaitingThreads = true
        rw [Function.update_self]
        exact ⟨rfl, rfl⟩
      · rw [Function.update_of_ne htt]
        exact hkeeps.fits hm (hf t')
  · rename_i hnone
    refine h.giveBack hm hf ?_
    by_contra hnot
    have hsome := h.getEntryBySa hm ht hs (Bool.not_eq_false _ ▸ hnot)
    rw [hnone] at hsome
    exact Bool.false_ne_true hsome

theorem Exclusive.finishRemoval (h : Exclusive c m) (ht : m.activity t = .removing e) :
    Exclusive c (m.finishRemoval c t e) := by
  have hset : Exclusive c (m.setEntry e { m.entries e with gone := true }) :=
    h.setEntry rfl rfl rfl
  have halike : ∀ t', Alike (m.activity t') (Function.update m.activity t .running t') :=
    alike_update (by rw [ht]; exact idle_removing) idle_running
  unfold SaTable.finishRemoval
  dsimp only
  split
  · exact hset.of_same rfl (fun e' => Iff.rfl) (fun e' => ⟨rfl, rfl⟩) halike (fun s => rfl) rfl
      le_rfl
  · exact hset.of_same rfl (fun e' => Iff.rfl) (fun e' => ⟨rfl, rfl⟩) halike (fun s => rfl) rfl
      le_rfl

theorem Exclusive.createNew (h : Exclusive c m) (hm : Homes c m)
    (hf : ∀ t, Fits c m (m.activity t)) (hlt : ∀ t, ∀ s ∈ m.held t, s < m.nextSa) (t : θ)
    (version : UInt8) (initiator : Bool) (spi : UInt64) :
    Exclusive c (m.createNew t version initiator spi) := by
  unfold SaTable.createNew
  split
  · exact h
  · rename_i hspi
    refine (h.addSa _).hold (hm.addSa (allocated_newId hspi)) hf ?_ ?_ t
    · show (Function.update m.sas m.nextSa _ m.nextSa).managed = false
      rw [Function.update_self]
    · exact fun t' hheld => (hlt t' _ hheld).ne rfl

theorem Exclusive.checkoutNewByMessage [Fintype θ] (h : Exclusive c m) (hm : Consistent c m)
    (ht : m.activity t = .running) (id : IkeSaId) (spi : UInt64) (key : UInt32) :
    Exclusive c (m.checkoutNewByMessage c t id spi key) := by
  unfold SaTable.checkoutNewByMessage
  split
  · exact h
  · rename_i hspi
    have hadd : Consistent c (m.addSa { id with responderSpi := spi }) :=
      hm.addSa fun _ _ => hspi
    have hexc : Exclusive c (m.addSa { id with responderSpi := spi }) := h.addSa _
    have hnewSa : (m.addSa { id with responderSpi := spi }).sas m.nextSa =
        ⟨{ id with responderSpi := spi }, .created, [], false⟩ := Function.update_self ..
    have hput : Consistent c (((m.addSa { id with responderSpi := spi }).addEntry
        { SaEntry.create { id with responderSpi := spi } m.nextSa with
          processing := key }).putEntry c m.nextEntry) := by
      refine hadd.putNew ht ?_ (Nat.lt_succ_self _) rfl rfl rfl
      show SameHome c _ ((m.addSa { id with responderSpi := spi }).sas m.nextSa).id
      rw [hnewSa]
      exact ⟨rfl, rfl⟩
    have hexput : Exclusive c (((m.addSa { id with responderSpi := spi }).addEntry
        { SaEntry.create { id with responderSpi := spi } m.nextSa with
          processing := key }).putEntry c m.nextEntry) := by
      refine hexc.putNew hadd.homes hadd.waits.fits ht (Nat.lt_succ_self _) ?_ rfl ?_ rfl
        (hm.waits.not_owns_nextEntry hm.homes)
      · show ((m.addSa { id with responderSpi := spi }).sas m.nextSa).managed = false
        rw [hnewSa]
      · exact fun t' hheld => (hm.held_lt t' _ hheld).ne rfl
    refine hexput.checkOut hput.waits.fits (linked_putEntry.2 (Or.inl rfl)) ?_ t
    show (Function.update m.entries m.nextEntry _ m.nextEntry).checkedOut = none
    rw [Function.update_self]
    rfl

/-! ## Steps and runs -/

omit [DecidableEq θ] in
/-- A step that is taken only under a condition. -/
theorem Exclusive.guard {P : Prop} [Decidable P] (h : Exclusive c m) (hP : P → Exclusive c m') :
    Exclusive c (if P then m' else m) := by
  split
  · rename_i hcase
    exact hP hcase
  · exact h

theorem Exclusive.next [Fintype θ] (h : Exclusive c m) (hm : Consistent c m) (step : Step θ)
    (hnot : ¬Unchecked c m step) : Exclusive c (m.next c step) := by
  have hf := hm.waits.fits
  cases step with
  | createNew t version initiator spi =>
    exact h.guard fun _ => h.createNew hm.homes hf hm.held_lt t version initiator spi
  | work t s id state otherHost => exact h.guard fun _ => h.setSa rfl
  | checkoutNew t s =>
    refine h.guard fun hcase => h.createEntry hm.homes hf hcase.1.1 (hm.held_lt t s hcase.1.2)
      hcase.2 fun t' => ⟨fun hs => ⟨rfl, h.unique s t' t hs hcase.1.2⟩, ?_⟩
    rintro ⟨-, rfl⟩
    exact hcase.1.2
  | putEntry t =>
    unfold SaTable.next
    dsimp only
    split
    · rename_i e k ht
      have howns := hm.waits.owns_eq_false (t := t) (e := e) (by rw [ht]; exact beq_self_eq_true e)
      obtain ⟨hnone, -⟩ := h.putting t e k ht
      split
      · rename_i hk
        refine h.putEntry hf ht howns ?_ ?_ ?_
        · rfl
        · rfl
        · rw [if_pos hk]
      · rename_i hk
        have hself : ((m.putEntry c e).setActivity t .running).setEntry e (m.entries e) =
            (m.putEntry c e).setActivity t .running := setEntry_self
        rw [← hself]
        exact h.putEntry hf ht howns rfl rfl (by rw [if_neg hk, hnone])
    · exact h
  | checkout t id => exact h.guard fun ht => h.checkout hm.homes hf ht id
  | search t e wanted =>
    exact h.guard fun hcase => h.answer hf hcase.1 hcase.2 _ _ checkedOut_of_waitForEntry
      fun _ msg hmsg => by cases hmsg
  | wake t wanted =>
    unfold SaTable.next
    dsimp only
    split
    · rename_i e p ht
      exact h.wake (hm.unblock ht).waits.fits (hm.waits.linked_of_waiting ht) ht hnot
    · exact h
  | checkoutNewByMessage t id spi key =>
    exact h.guard fun ht => h.checkoutNewByMessage hm ht id spi key
  | checkoutByMessage t msg =>
    exact h.guard fun ht => h.checkoutByMessage hm.homes hf ht msg hnot
  | newInitiatorSpi t s spi => exact h.guard fun _ => h.newInitiatorSpi hm.homes s spi
  | checkin t s =>
    exact h.guard fun hcase =>
      h.checkin hm.homes hf hcase.1 hcase.2 (hm.held_lt t s hcase.2)
  | checkinAndDestroy t s =>
    exact h.guard fun hcase => h.checkinAndDestroy hm.homes hf hcase.1 hcase.2
  | driveOut t =>
    unfold SaTable.next
    dsimp only
    split
    · rename_i e ht
      exact h.driveOut hf hm.homes.nodup ht
    · exact h
  | finishRemoval t =>
    unfold SaTable.next
    dsimp only
    split
    · rename_i e ht
      exact h.finishRemoval ht
    · exact h

theorem exclusive_run [Fintype θ] {steps : List (Step θ)} (h : Checked c steps) :
    Exclusive c (run c steps) := by
  have hboth : Consistent c (run c steps) ∧ Exclusive c (run c steps) :=
    Run.invariant (I := fun m => Consistent c m ∧ Exclusive c m)
      (fun m step hm hnot => ⟨hm.1.next step, hm.2.next hm.1 step hnot⟩)
      ⟨consistent_create, exclusive_create⟩ h
  exact hboth.2

/-! ## What holds in every run with check-outs -/

/-- No two threads have the same SA, an entry is checked out as long as a thread has its SA or destroys it,
and an SA has at most one entry. -/
theorem exclusion_run [Fintype θ] {steps : List (Step θ)} (h : Checked c steps) :
    (∀ s t t', s ∈ (run c steps).held t → s ∈ (run c steps).held t' → t = t') ∧
    (∀ e t, (run c steps).Linked c e → (((run c steps).entries e).checkedOut = some t ↔
      ((run c steps).entries e).ikeSa ∈ (run c steps).held t ∨
        (run c steps).activity t = .destroying e)) ∧
    ∀ e e', (run c steps).Linked c e → (run c steps).Linked c e' →
      ((run c steps).entries e).ikeSa = ((run c steps).entries e').ikeSa → e = e' := by
  have hexc := exclusive_run h
  exact ⟨hexc.unique, hexc.out, fun e e' he he' => hexc.injective e e' (Or.inl he) (Or.inl he')⟩

/-- A thread waits for an SA and gets it when the other one checks it in. -/
theorem exclusion_run_wait :
    let steps : List (Step (Fin 2)) := [.createNew 0 2 true 5, .checkoutNew 0 0, .putEntry 0,
      .checkout 1 ⟨2, 5, 0, true⟩, .checkin 0 0, .wake 1 true]
    let c : TableConfig := ⟨0, Nat.zero_le _, fun _ => 0⟩
    (run c steps).held 1 = [0] ∧
      ∀ s t t', s ∈ (run c steps).held t → s ∈ (run c steps).held t' → t = t' :=
  ⟨by decide, (exclusion_run (by decide)).1⟩

/-- What an unchecked message does. -/
theorem next_of_unchecked {msg : SaMessage} (h : m.Unchecked c (.checkoutByMessage t msg)) :
    ∃ e, m.getEntryById c msg.id = some e ∧
      m.next c (.checkoutByMessage t msg) = m.hold t (m.entries e).ikeSa := by
  obtain ⟨ht, e, he, hcase, htakes⟩ := h
  refine ⟨e, he, ?_⟩
  have htake : m.takeUnchecked t e msg = m.hold t (m.entries e).ikeSa := if_pos htakes
  show (if m.activity t = .running then m.checkoutByMessage c t msg else m) = _
  rw [if_pos ht, checkoutByMessage, show m.getEntryById c msg.id = some e from he]
  dsimp only
  split
  · exact htake
  · rename_i hkey
    rw [hcase.resolve_left hkey]
    exact htake

end SaTable

end Epdg
