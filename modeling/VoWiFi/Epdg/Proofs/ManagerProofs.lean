import VoWiFi.Epdg.Manager
import VoWiFi.Epdg.Proofs.InstanceProofs

/-!
# Which SA a session is attached to

A new SA is always as fresh as the session. The lookup path attaches a free session to whatever SA
the message belongs to, so that a session stays with SAs of its own exactly as long as no message of
an older one is looked up while it is free.
-/

namespace Epdg

/-! ## One message -/

/-- A message that has an SA to be looked up goes through the lookup path. -/
theorem checkoutByMessage_of_lookupSpi {m : Manager} {msg : CheckoutMessage} {rspi : UInt64}
    (h : m.lookupSpi msg = some rspi) : m.checkoutByMessage msg = m.lookupEntry msg rspi := by
  unfold Manager.lookupSpi at h
  unfold Manager.checkoutByMessage
  split at h
  · rename_i hinit
    obtain ⟨hash, hhash, hseen⟩ := Option.bind_eq_some_iff.1 h
    rw [if_pos hinit, hhash]
    simp only [hseen]
  · rename_i hinit
    rw [if_neg hinit, Option.some.inj h]

theorem checkoutByMessage_of_found {m : Manager} {msg : CheckoutMessage} {rspi : UInt64}
    (hspi : m.lookupSpi msg = some rspi) (h : m.Found msg rspi) :
    m.checkoutByMessage msg = m.attach msg.ispi rspi := by
  obtain ⟨hfound, hi, hr⟩ := h
  rw [checkoutByMessage_of_lookupSpi hspi, Manager.lookupEntry, if_pos]
  simpa only [Bool.and_eq_true, Bool.or_eq_true, decide_eq_true_eq, ne_eq] using ⟨⟨hfound, hi⟩, hr⟩

/-- The three things a message can do: nothing, create an SA, or be looked up. -/
theorem checkoutByMessage_cases (m : Manager) (msg : CheckoutMessage) :
    m.checkoutByMessage msg = ⟨m, none⟩ ∨
    (m.lookupSpi msg = none ∧ msg.newSpi ≠ 0 ∧ ∃ hashes, m.checkoutByMessage msg =
      Manager.attach
        { m with
          sas := ⟨msg.ispi, msg.newSpi, m.epoch⟩ :: m.sas
          created := ⟨msg.ispi, msg.newSpi, m.epoch⟩ :: m.created
          initHashes := hashes } msg.ispi msg.newSpi) ∨
    (∃ rspi, m.lookupSpi msg = some rspi ∧ m.Found msg rspi) := by
  cases hspi : m.lookupSpi msg with
  | some rspi =>
    rw [checkoutByMessage_of_lookupSpi hspi, Manager.lookupEntry]
    split
    · rename_i hcond
      simp only [Bool.and_eq_true, Bool.or_eq_true, decide_eq_true_eq, ne_eq] at hcond
      exact .inr (.inr ⟨rspi, rfl, hcond.1.1, hcond.1.2, hcond.2⟩)
    · exact .inl rfl
  | none =>
    -- an initial message that has not been handled before
    unfold Manager.lookupSpi at hspi
    unfold Manager.checkoutByMessage
    split at hspi
    · rename_i hinit
      rw [if_pos hinit]
      cases hhash : msg.hash with
      | none => exact .inl rfl
      | some hash =>
        rw [hhash, Option.bind_some] at hspi
        simp only [hspi, Manager.createEntry]
        by_cases hzero : msg.newSpi = 0
        · rw [if_pos hzero]
          exact .inl rfl
        · rw [if_neg hzero]
          by_cases hacc : msg.accept = true
          · rw [if_pos hacc]
            exact .inr (.inl ⟨trivial, hzero, _, rfl⟩)
          · rw [if_neg hacc]
            exact .inl rfl
    · cases hspi

/-- A call that may attach does so exactly if the session is free. -/
theorem attach_attached {m : Manager} {ispi rspi : UInt64} {p : UInt64 × UInt64} :
    (m.attach ispi rspi).attached = some p ↔
      (m.inst.ispi = 0 ∧ m.inst.rspi = 0) ∧ (ispi, rspi) = p := by
  unfold Manager.attach
  split
  · rename_i hfree
    simp [hfree]
  · rename_i hfree
    simp [hfree]

/-- A step attaches the session to a fresh SA exactly if it does not look up an older one for a free
session. -/
theorem attachFresh_iff (m : Manager) (e : ManagerEvent) : AttachFresh m e ↔ FreshLookup m e := by
  unfold AttachFresh
  cases e with
  | message msg =>
    simp only [Manager.step, FreshLookup, Option.mem_def]
    constructor
    · intro h hi hr rspi hspi hfound
      rw [checkoutByMessage_of_found hspi hfound] at h
      exact h _ (attach_attached.2 ⟨⟨hi, hr⟩, rfl⟩)
    · intro h p hatt
      rcases checkoutByMessage_cases m msg with hnone | ⟨-, -, hashes, hnew⟩ | ⟨r, hspi, hfound⟩
      · rw [hnone] at hatt
        cases hatt
      · rw [hnew, attach_attached] at hatt
        obtain ⟨-, rfl⟩ := hatt
        rw [hnew]
        exact ⟨_, List.mem_cons_self, rfl, rfl, rfl⟩
      · rw [checkoutByMessage_of_found hspi hfound, attach_attached] at hatt
        obtain ⟨⟨hi, hr⟩, rfl⟩ := hatt
        rw [checkoutByMessage_of_found hspi hfound]
        exact h hi hr r hspi hfound
  | init => exact iff_of_true nofun trivial
  | fin => exact iff_of_true nofun trivial
  | destroy sa => exact iff_of_true nofun trivial
  | release ispi rspi =>
    refine iff_of_true (fun p h => ?_) trivial
    simp only [Manager.step] at h
    split at h <;> cases h

/-! ## Invariants -/

/-- What is known of the SAs as long as the SPIs drawn are fresh. -/
structure SpiInv (m : Manager) : Prop where
  spi : ∀ sa ∈ m.created, sa.rspi ≠ 0 ∧ sa.rspi ≠ -1
  distinct : ∀ a ∈ m.created, ∀ b ∈ m.created, a.rspi = b.rspi → a = b
  table : ∀ sa ∈ m.sas, sa ∈ m.created
  born : ∀ sa ∈ m.created, sa.born ≤ m.epoch

/-- The session is free, finished, or attached to an SA of its own. -/
def PairInv (m : Manager) : Prop :=
  (m.inst.ispi = 0 ∧ m.inst.rspi = 0) ∨ (m.inst.finished = true ∧ m.inst.rspi = -1) ∨
    ∃ sa ∈ m.created, sa.born = m.epoch ∧ m.inst.ispi = sa.ispi ∧ m.inst.rspi = sa.rspi

theorem spiInv_start : SpiInv .start := ⟨by simp [Manager.start], by simp [Manager.start],
  by simp [Manager.start], by simp [Manager.start]⟩

theorem pairInv_start : PairInv .start := .inl ⟨rfl, rfl⟩

/-- Fresh SPIs keep the SAs apart. -/
theorem spiInv_next {m : Manager} {e : ManagerEvent} (h : SpiInv m) (hfresh : FreshSpi m e) :
    SpiInv (m.next e) := by
  unfold Manager.next
  cases e with
  | message msg =>
    rcases checkoutByMessage_cases m msg with hnone | ⟨hspi, hzero, hashes, hcr⟩ | ⟨r, hspi, hfound⟩
    · simp only [Manager.step, hnone]
      exact h
    · obtain ⟨hne, hnew⟩ := hfresh hspi
      simp only [Manager.step, hcr]
      refine ⟨?_, ?_, ?_, ?_⟩
      · exact List.forall_mem_cons.2 ⟨⟨hzero, hne⟩, h.spi⟩
      · intro a ha b hb heq
        rcases List.mem_cons.1 ha with rfl | ha
        · rcases List.mem_cons.1 hb with rfl | hb
          · rfl
          · exact absurd heq.symm (hnew b hb)
        · rcases List.mem_cons.1 hb with rfl | hb
          · exact absurd heq (hnew a ha)
          · exact h.distinct a ha b hb heq
      · exact List.forall_mem_cons.2
          ⟨List.mem_cons_self, fun sa hsa => List.mem_cons_of_mem _ (h.table sa hsa)⟩
      · exact List.forall_mem_cons.2 ⟨le_rfl, h.born⟩
    · simp only [Manager.step, checkoutByMessage_of_found hspi hfound]
      exact ⟨h.spi, h.distinct, h.table, h.born⟩
  | init => exact ⟨h.spi, h.distinct, h.table, fun sa hsa => Nat.le_succ_of_le (h.born sa hsa)⟩
  | fin => exact ⟨h.spi, h.distinct, h.table, h.born⟩
  | destroy sa =>
    exact ⟨h.spi, h.distinct, fun sb hsb => h.table sb (List.mem_filter.1 hsb).1, h.born⟩
  | release ispi rspi =>
    simp only [Manager.step]
    split
    · exact ⟨h.spi, h.distinct, h.table, h.born⟩
    · exact h

/-- A call that may attach keeps the session with its own SAs if it is for one of them. -/
theorem pairInv_attach {m : Manager} (h : PairInv m) {ispi rspi : UInt64} (hr : rspi ≠ 0)
    (hsa : m.inst.ispi = 0 → m.inst.rspi = 0 →
      ∃ sa ∈ m.created, sa.born = m.epoch ∧ sa.ispi = ispi ∧ sa.rspi = rspi) :
    PairInv (m.attach ispi rspi).manager := by
  unfold PairInv Manager.attach
  simp only [checkInstance_snd]
  by_cases hfree : m.inst.Attaches true
  · simp only [if_pos hfree]
    obtain ⟨sa, hmem, hborn, rfl, rfl⟩ := hsa hfree.1 hfree.2.1
    exact .inr (.inr ⟨sa, hmem, hborn, rfl, rfl⟩)
  · simp only [if_neg hfree]
    exact h

/-- A session that is attached to fresh SAs only stays with its own. -/
theorem pairInv_next {m : Manager} {e : ManagerEvent} (hspi : SpiInv m) (h : PairInv m)
    (hfresh : FreshLookup m e) : PairInv (m.next e) := by
  unfold Manager.next
  cases e with
  | message msg =>
    rcases checkoutByMessage_cases m msg with hnone | ⟨-, hzero, hashes, hcr⟩ | ⟨r, hlook, hfound⟩
    · simp only [Manager.step, hnone]
      exact h
    · simp only [Manager.step, hcr]
      refine pairInv_attach ?_ hzero fun _ _ => ⟨_, List.mem_cons_self, rfl, rfl, rfl⟩
      rcases h with h | h | ⟨sa, hmem, hsa⟩
      · exact .inl h
      · exact .inr (.inl h)
      · exact .inr (.inr ⟨sa, List.mem_cons_of_mem _ hmem, hsa⟩)
    · simp only [Manager.step, checkoutByMessage_of_found hlook hfound]
      refine pairInv_attach h hfound.2.2 fun hi hr => ?_
      obtain ⟨sa, hmem, hsi, hsr, hborn⟩ := hfresh hi hr r hlook hfound
      exact ⟨sa, hspi.table sa hmem, hborn, hsi, hsr⟩
  | init => exact .inl ⟨rfl, rfl⟩
  | fin => exact .inr (.inl ⟨rfl, rfl⟩)
  | destroy sa => exact h
  | release ispi rspi =>
    simp only [Manager.step]
    split
    · exact .inl ⟨rfl, rfl⟩
    · exact h

/-! ## What follows for the session -/

/-- A message of an SA from before the last `init` does not belong to the session. -/
theorem checkInstance_old {m : Manager} (hspi : SpiInv m) (h : PairInv m) {sa : Sa}
    (hsa : sa ∈ m.created) (hold : sa.born < m.epoch) :
    (m.inst.checkInstance sa.ispi sa.rspi false).1 = false := by
  obtain ⟨hzero, hfin⟩ := hspi.spi sa hsa
  have hne : (m.inst.ispi = 0 ∧ m.inst.rspi = 0) ∨ m.inst.rspi ≠ sa.rspi := by
    rcases h with h | ⟨-, h⟩ | ⟨sb, hsb, hborn, -, hr⟩
    · exact .inl h
    · exact .inr fun e => hfin (e.symm.trans h)
    · refine .inr fun e => ?_
      -- the SA the session is attached to has another SPI, being younger
      have hsame : sa = sb := hspi.distinct sa hsa sb hsb (e.symm.trans hr)
      rw [hsame] at hold
      exact absurd hborn hold.ne
  unfold Instance.checkInstance
  rcases hne with hfree | hne
  · simp [hfree]
  · by_cases hfree : m.inst.ispi = 0 ∧ m.inst.rspi = 0 <;> simp [hfree, hne, hzero]

/-- The first IKE_SA_INIT request after an `init` attaches the session. -/
theorem checkInstance_first {m : Manager} (h : PairInv m) (hfin : m.inst.finished = false)
    (hold : ∀ sa ∈ m.created, sa.born < m.epoch) (ispi rspi : UInt64) :
    (m.inst.checkInstance ispi rspi true).1 = true := by
  have hfree : m.inst.ispi = 0 ∧ m.inst.rspi = 0 := by
    rcases h with h | ⟨h, -⟩ | ⟨sa, hsa, hborn, -⟩
    · exact h
    · rw [hfin] at h
      cases h
    · exact absurd hborn (hold sa hsa).ne
  simp [Instance.checkInstance, hfree]

/-! ## Runs -/

/-- An IKE_SA_INIT request with initiator's SPI `i`, for which the manager draws SPI `r`. -/
def initRequest (i r : UInt64) : ManagerEvent :=
  .message ⟨i, 0, 0, true, .ikeSaInit, true, true, some [r.toUInt8], r, true, false⟩

/-- The first IKE_AUTH request of the SA with SPIs `i` and `r`. -/
def authRequest (i r : UInt64) : ManagerEvent :=
  .message ⟨i, r, 1, true, .ikeAuth, true, true, none, 0, true, false⟩

end Epdg
