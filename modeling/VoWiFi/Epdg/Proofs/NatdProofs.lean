import VoWiFi.Epdg.Natd
import VoWiFi.Epdg.Proofs.InstanceProofs

/-!
# What an earlier session leaves behind

`init` resets the SPIs but neither `pispi` nor the recorded hashes. The answers of a session depend
on the former through the first call with a zero responder's SPI only, because every such call
overwrites it (`checkInstance_iff`, `checkInstance_inv`); a hash is the old one exactly as long as
no notify of its kind is accepted.
-/

namespace Epdg

/-! ## Sessions as sequences of calls -/

/-- The effect of one call. -/
def Instance.call (inst : Instance) (c : Call) : Bool × Instance :=
  let (ok, inst) := inst.checkInstance c.ispi c.rspi c.update
  (ok, match c.notify with
    | some (kind, hash) => if ok then inst.recordHash hash kind else inst
    | none => inst)

/-- A sequence of calls. -/
def Instance.runCalls (inst : Instance) : List Call → List Bool × Instance
  | [] => ([], inst)
  | c :: cs =>
    let r := inst.call c
    let rs := r.2.runCalls cs
    (r.1 :: rs.1, rs.2)

theorem runCalls_append (inst : Instance) (cs ds : List Call) :
    inst.runCalls (cs ++ ds) =
      ((inst.runCalls cs).1 ++ ((inst.runCalls cs).2.runCalls ds).1,
        ((inst.runCalls cs).2.runCalls ds).2) := by
  induction cs generalizing inst with
  | nil => rfl
  | cons c cs ih => simp [Instance.runCalls, ih]

theorem processNotifies_eq (m : NatdMessage) (inst : Instance) (b : Bool)
    (ns : List (NatdKind × Chunk)) :
    processNotifies m inst b ns = inst.runCalls (notifyCalls m b ns) := by
  induction ns generalizing inst b with
  | nil => rfl
  | cons n ns ih =>
    obtain ⟨kind, hash⟩ := n
    cases kind with
    | destination =>
      simp [processNotifies, notifyCalls, Instance.runCalls, Instance.call, Instance.recordNotify,
        ih]
    | source =>
      cases b with
      | true => simp [processNotifies, notifyCalls, ih]
      | false =>
        simp [processNotifies, notifyCalls, Instance.runCalls, Instance.call,
          Instance.recordNotify, ih]

theorem session_eq (inst : Instance) (es : List SessionEvent) :
    inst.session es = inst.runCalls (es.flatMap SessionEvent.calls) := by
  induction es generalizing inst with
  | nil => rfl
  | cons e es ih =>
    have hstep : inst.sessionStep e = inst.runCalls e.calls := by
      cases e with
      | check ispi rspi update => rfl
      | natd m => exact processNotifies_eq m inst false m.notifies
    rw [Instance.session, ih, hstep, List.flatMap_cons, runCalls_append]

/-! ## One call -/

/-- The state of the instance after the calls `pre` of a session that started with `pispi = p`. -/
structure SessionInv (p : UInt64) (pre : List Call) (inst : Instance) : Prop where
  spis : (inst.ispi, inst.rspi) = attachOf pre
  fresh : (∀ c ∈ pre, c.rspi ≠ 0) → inst.pispi = p
  seen : (∃ c ∈ pre, c.rspi = 0) → Lenient inst.pispi (attachOf pre).1

theorem attachOf_append (pre : List Call) (c : Call) :
    attachOf (pre ++ [c]) =
      if attachOf pre = (0, 0) ∧ c.update then (c.ispi, c.rspi) else attachOf pre := by
  rw [attachOf, List.foldl_append, ← attachOf]
  rfl

section Step

variable {p : UInt64} {pre : List Call} {inst : Instance}

/-- The answer of a call in terms of the calls before it. -/
theorem call_fst (h : SessionInv p pre inst) (c : Call) :
    (inst.call c).1 = true ↔ Passes p pre c := by
  have hlenient : (attachOf pre).1 = c.ispi →
      (Lenient inst.pispi c.ispi ↔ Lenient p c.ispi ∨ ∃ c' ∈ pre, c'.rspi = 0) := by
    intro hispi
    by_cases hseen : ∃ c' ∈ pre, c'.rspi = 0
    · exact iff_of_true (hispi ▸ h.seen hseen) (.inr hseen)
    · have hfresh : inst.pispi = p := h.fresh fun c' hc' hz => hseen ⟨c', hc', hz⟩
      rw [hfresh]
      exact ⟨.inl, fun hor => hor.resolve_right hseen⟩
  have hspis := h.spis
  rw [Passes, ← hspis]
  rw [← hspis] at hlenient
  simp only [Prod.mk.injEq] at hlenient ⊢
  simp only [Instance.call, Instance.checkInstance]
  by_cases hzero : inst.ispi = 0 ∧ inst.rspi = 0
  · cases hupd : c.update <;> simp [hzero]
  · rw [if_neg hzero, if_neg hzero]
    by_cases heq : inst.ispi = c.ispi ∧ inst.rspi = c.rspi
    · rw [if_pos heq]
      exact iff_of_true rfl (.inl heq)
    · rw [if_neg heq]
      by_cases hz : inst.ispi = c.ispi ∧ (inst.pispi = c.ispi ∨ inst.pispi = 0) ∧ c.rspi = 0
      · rw [if_pos hz]
        exact iff_of_true rfl (.inr ⟨hz.2.2, hz.1, (hlenient hz.1).1 hz.2.1⟩)
      · rw [if_neg hz]
        refine iff_of_false (by simp) ?_
        rintro (h' | ⟨hr, hi, hl⟩)
        · exact heq h'
        · exact hz ⟨hi, (hlenient hi).2 hl, hr⟩

/-- The fields that decide later answers do not depend on what a call records. -/
theorem call_snd (inst : Instance) (c : Call) :
    (inst.call c).2.ispi = (if inst.Attaches c.update then c.ispi else inst.ispi) ∧
      (inst.call c).2.rspi = (if inst.Attaches c.update then c.rspi else inst.rspi) ∧
      (inst.call c).2.pispi =
        if c.rspi = 0 then (if inst.Attaches c.update then c.ispi else inst.ispi)
        else inst.pispi := by
  obtain ⟨ispi, rspi, update, notify⟩ := c
  simp only [Instance.call]
  rw [checkInstance_snd]
  cases notify with
  | none => exact ⟨rfl, rfl, rfl⟩
  | some n =>
    obtain ⟨kind, hash⟩ := n
    by_cases hok : (inst.checkInstance ispi rspi update).1 = true
    · simp only [if_pos hok]
      cases kind <;> exact ⟨rfl, rfl, rfl⟩
    · simp [hok]

theorem call_inv (h : SessionInv p pre inst) (c : Call) :
    SessionInv p (pre ++ [c]) (inst.call c).2 := by
  obtain ⟨hi, hr, hp⟩ := call_snd inst c
  have hspis := h.spis
  have hattach : inst.Attaches c.update ↔ (inst.ispi, inst.rspi) = (0, 0) ∧ c.update = true := by
    rw [Prod.mk.injEq, Instance.Attaches, and_assoc]
  have hnew : ((inst.call c).2.ispi, (inst.call c).2.rspi) = attachOf (pre ++ [c]) := by
    rw [hi, hr, attachOf_append, ← hspis]
    by_cases hfree : inst.Attaches c.update
    · rw [if_pos hfree, if_pos hfree, if_pos (hattach.1 hfree)]
    · rw [if_neg hfree, if_neg hfree, if_neg (mt hattach.2 hfree)]
  refine ⟨hnew, fun hall => ?_, fun hex => ?_⟩
  · have hc : c.rspi ≠ 0 := hall c (by simp)
    have hpre := h.fresh fun c' hc' => hall c' (by simp [hc'])
    rw [hp, if_neg hc, hpre]
  · by_cases hc : c.rspi = 0
    · -- this call has just stored the current initiator's SPI
      have hpispi : (inst.call c).2.pispi = (inst.call c).2.ispi := by
        rw [hp, hi, if_pos hc]
      rw [hpispi, ← hnew]
      exact .inl rfl
    · have hseen : ∃ c' ∈ pre, c'.rspi = 0 := by
        obtain ⟨c', hmem, hz⟩ := hex
        rcases List.mem_append.1 hmem with hmem | hmem
        · exact ⟨c', hmem, hz⟩
        · rw [List.mem_singleton.1 hmem] at hz
          exact absurd hz hc
      have hold := h.seen hseen
      have hpispi : (inst.call c).2.pispi = inst.pispi := by
        rw [hp, if_neg hc]
      rw [hpispi, attachOf_append]
      split
      · -- attached just now: before, the session was free and the stored SPI zero
        rename_i hfree
        rw [hfree.1] at hold
        exact .inr (hold.elim id id)
      · exact hold

/-- A hash changes exactly with an accepted notify of its kind. -/
theorem call_rcvdHash (h : SessionInv p pre inst) (c : Call) (kind : NatdKind) :
    (∀ hash, c.notify = some (kind, hash) → Passes p pre c → (inst.call c).2.rcvdHash kind = hash) ∧
      ((∀ hash, c.notify = some (kind, hash) → ¬ Passes p pre c) →
        (inst.call c).2.rcvdHash kind = inst.rcvdHash kind) := by
  have hcheck : ∀ kind, (inst.checkInstance c.ispi c.rspi c.update).2.rcvdHash kind =
      inst.rcvdHash kind := by
    intro kind
    rw [checkInstance_snd]
    cases kind <;> rfl
  have hfst := call_fst h c
  obtain ⟨ispi, rspi, update, notify⟩ := c
  simp only [Instance.call] at hfst ⊢
  cases notify with
  | none => exact ⟨nofun, fun _ => hcheck kind⟩
  | some n =>
    obtain ⟨kind', hash⟩ := n
    simp only [Option.some.injEq, Prod.mk.injEq]
    refine ⟨?_, fun hno => ?_⟩
    · rintro hash' ⟨rfl, rfl⟩ hpass
      rw [if_pos (hfst.2 hpass)]
      cases kind' <;> rfl
    · by_cases hpass : (inst.checkInstance ispi rspi update).1 = true
      · rw [if_pos hpass]
        have hne : kind' ≠ kind := fun e => hno hash ⟨e, rfl⟩ (hfst.1 hpass)
        rw [← hcheck kind]
        cases kind' <;> cases kind <;> first | rfl | exact absurd rfl hne
      · rw [if_neg hpass]
        exact hcheck kind

end Step

/-! ## Two sessions -/

/-- Both instances have been through the same calls, from `pispi = p₁` and `pispi = p₂`. -/
theorem runCalls_fst_eq_iff {p₁ p₂ : UInt64} {pre : List Call} {a b : Instance}
    (ha : SessionInv p₁ pre a) (hb : SessionInv p₂ pre b) (cs : List Call) :
    (a.runCalls cs).1 = (b.runCalls cs).1 ↔
      ∀ mid c post, cs = mid ++ c :: post →
        (Passes p₁ (pre ++ mid) c ↔ Passes p₂ (pre ++ mid) c) := by
  induction cs generalizing pre a b with
  | nil => simp [Instance.runCalls]
  | cons c cs ih =>
    have hfst : (a.call c).1 = (b.call c).1 ↔ (Passes p₁ pre c ↔ Passes p₂ pre c) := by
      rw [Bool.eq_iff_iff, call_fst ha, call_fst hb]
    have hrest := ih (call_inv ha c) (call_inv hb c)
    simp only [Instance.runCalls, List.cons.injEq, hfst, hrest]
    constructor
    · rintro ⟨hc, hcs⟩ mid c' post heq
      cases mid with
      | nil =>
        obtain ⟨rfl, rfl⟩ : c = c' ∧ cs = post := by simpa using heq
        simpa using hc
      | cons d mid =>
        obtain ⟨rfl, rfl⟩ : c = d ∧ cs = mid ++ c' :: post := by simpa using heq
        simpa using hcs mid c' post rfl
    · intro h
      refine ⟨by simpa using h [] c cs rfl, fun mid c' post heq => ?_⟩
      simpa using h (c :: mid) c' post (by rw [heq, List.cons_append])

/-- The only calls whose answer depends on what an earlier session left in `pispi`. -/
theorem passes_iff_lenient {p : UInt64} {pre : List Call} {c : Call}
    (hpre : ∀ c' ∈ pre, c'.rspi ≠ 0) (hc : c.rspi = 0) (hispi : (attachOf pre).1 = c.ispi)
    (hrspi : (attachOf pre).2 ≠ 0) : Passes p pre c ↔ Lenient p c.ispi := by
  have hne : attachOf pre ≠ (0, 0) := fun e => hrspi (by rw [e])
  rw [Passes, if_neg hne]
  constructor
  · rintro (h | ⟨-, -, h | ⟨c', hmem, hz⟩⟩)
    · exact absurd (by rw [h, hc]) hrspi
    · exact h
    · exact absurd hz (hpre c' hmem)
  · exact fun h => .inr ⟨hc, hispi, .inl h⟩

/-- The answers agree exactly if the two values of `pispi` make no difference. -/
theorem passes_iff_pispiAgree {p₁ p₂ : UInt64} {cs : List Call} :
    (∀ pre c post, cs = pre ++ c :: post → (Passes p₁ pre c ↔ Passes p₂ pre c)) ↔
      PispiAgree p₁ p₂ cs := by
  constructor
  · intro h pre c post heq hpre hc hispi hrspi
    rw [← passes_iff_lenient hpre hc hispi hrspi, ← passes_iff_lenient hpre hc hispi hrspi]
    exact h pre c post heq
  · intro h pre c post heq
    by_cases hzero : attachOf pre = (0, 0)
    · simp [Passes, hzero]
    · by_cases heq' : attachOf pre = (c.ispi, c.rspi)
      · rw [Passes, Passes, if_neg hzero, if_neg hzero]
        exact iff_of_true (.inl heq') (.inl heq')
      · by_cases hseen : ∃ c' ∈ pre, c'.rspi = 0
        · simp [Passes, hzero, heq', hseen]
        · by_cases hc : c.rspi = 0 ∧ (attachOf pre).1 = c.ispi
          · have hrspi : (attachOf pre).2 ≠ 0 := fun e =>
              heq' (Prod.ext hc.2 (e.trans hc.1.symm))
            have hpre : ∀ c' ∈ pre, c'.rspi ≠ 0 := fun c' hmem hz => hseen ⟨c', hmem, hz⟩
            rw [passes_iff_lenient hpre hc.1 hc.2 hrspi, passes_iff_lenient hpre hc.1 hc.2 hrspi]
            exact h pre c post heq hpre hc.1 hc.2 hrspi
          · rw [Passes, Passes, if_neg hzero, if_neg hzero]
            refine iff_of_false ?_ ?_ <;> rintro (h' | ⟨hr, hi, -⟩)
            · exact heq' h'
            · exact hc ⟨hr, hi⟩
            · exact heq' h'
            · exact hc ⟨hr, hi⟩

/-- A hash after a sequence of calls: one that was recorded, the same for two instances whose answers
agree, or the one from before. -/
theorem runCalls_rcvdHash {p₁ p₂ : UInt64} {pre : List Call} {a b : Instance}
    (ha : SessionInv p₁ pre a) (hb : SessionInv p₂ pre b) (kind : NatdKind) {cs : List Call}
    (hagree : (a.runCalls cs).1 = (b.runCalls cs).1) :
    ((a.runCalls cs).2.rcvdHash kind = (b.runCalls cs).2.rcvdHash kind ↔
      a.rcvdHash kind = b.rcvdHash kind ∨
        ∃ mid c post hash, cs = mid ++ c :: post ∧ c.notify = some (kind, hash) ∧
          Passes p₁ (pre ++ mid) c) := by
  induction cs generalizing pre a b with
  | nil => simp [Instance.runCalls]
  | cons c cs ih =>
    simp only [Instance.runCalls, List.cons.injEq] at hagree ⊢
    rw [ih (call_inv ha c) (call_inv hb c) hagree.2]
    have hpass : Passes p₁ pre c ↔ Passes p₂ pre c := by
      rw [← call_fst ha, ← call_fst hb, hagree.1]
    obtain ⟨hsetA, hkeepA⟩ := call_rcvdHash ha c kind
    obtain ⟨hsetB, hkeepB⟩ := call_rcvdHash hb c kind
    by_cases hrec : ∃ hash, c.notify = some (kind, hash) ∧ Passes p₁ pre c
    · obtain ⟨hash, hnot, hp⟩ := hrec
      refine iff_of_true (.inl ?_) (.inr ⟨[], c, cs, hash, rfl, hnot, by simpa using hp⟩)
      rw [hsetA hash hnot hp, hsetB hash hnot (hpass.1 hp)]
    · rw [hkeepA fun hash hnot hp => hrec ⟨hash, hnot, hp⟩,
        hkeepB fun hash hnot hp => hrec ⟨hash, hnot, hpass.2 hp⟩]
      refine or_congr_right ⟨?_, ?_⟩
      · rintro ⟨mid, c', post, hash, rfl, hnot, hp⟩
        exact ⟨c :: mid, c', post, hash, rfl, hnot, by simpa using hp⟩
      · rintro ⟨mid, c', post, hash, heq, hnot, hp⟩
        cases mid with
        | nil =>
          obtain ⟨rfl, rfl⟩ : c = c' ∧ cs = post := by simpa using heq
          exact absurd ⟨hash, hnot, by simpa using hp⟩ hrec
        | cons d mid =>
          obtain ⟨rfl, rfl⟩ : c = d ∧ cs = mid ++ c' :: post := by simpa using heq
          exact ⟨mid, c', post, hash, rfl, hnot, by simpa using hp⟩

theorem sessionInv_handleInit (inst : Instance) : SessionInv inst.pispi [] inst.handleInit :=
  ⟨rfl, fun _ => rfl, by simp⟩

/-- Two histories followed by an `init` and the same session give the same answers and leave the same
hashes exactly if the values of `pispi` they leave make no difference to the first call with a zero
responder's SPI, and each hash is either the same after both or recorded anew. -/
theorem session_eq_iff (h₁ h₂ : List HistoryEvent) (es : List SessionEvent) :
    ((((afterHistory h₁).handleInit.session es).1 = ((afterHistory h₂).handleInit.session es).1 ∧
      ∀ kind, ((afterHistory h₁).handleInit.session es).2.rcvdHash kind =
        ((afterHistory h₂).handleInit.session es).2.rcvdHash kind) ↔
      PispiAgree (afterHistory h₁).pispi (afterHistory h₂).pispi (es.flatMap SessionEvent.calls) ∧
        ∀ kind, (afterHistory h₁).rcvdHash kind = (afterHistory h₂).rcvdHash kind ∨
          Recorded (afterHistory h₁).pispi kind (es.flatMap SessionEvent.calls)) := by
  have ha := sessionInv_handleInit (afterHistory h₁)
  have hb := sessionInv_handleInit (afterHistory h₂)
  rw [session_eq, session_eq, ← passes_iff_pispiAgree]
  have hfst := runCalls_fst_eq_iff ha hb (es.flatMap SessionEvent.calls)
  simp only [List.nil_append] at hfst
  rw [← hfst]
  refine and_congr_right fun hagree => forall_congr' fun kind => ?_
  have hhash := runCalls_rcvdHash ha hb kind hagree
  simp only [List.nil_append] at hhash
  rw [hhash, Recorded]
  cases kind <;> exact Iff.rfl

/-- One session in which an IKE_SA_INIT request of the SA with initiator's SPI 1 passed through the
NAT-D task. -/
def earlierSession : List HistoryEvent :=
  [.init, .event (.check 1 2 true), .event (.natd ⟨1, 0, [], [(.destination, [7])]⟩), .fin]

/-- A new session with another SA. -/
def newSession : List SessionEvent :=
  [.check 3 4 true, .natd ⟨3, 0, [], [(.destination, [8])]⟩]

/-- After the earlier session the hash of the new one is not recorded, and the old one stays. -/
theorem session_newSession :
    ¬ (((afterHistory []).handleInit.session newSession).1 =
        ((afterHistory earlierSession).handleInit.session newSession).1 ∧
      ∀ kind, ((afterHistory []).handleInit.session newSession).2.rcvdHash kind =
        ((afterHistory earlierSession).handleInit.session newSession).2.rcvdHash kind) := by
  rintro ⟨h, -⟩
  exact absurd h (by decide)


end Epdg
