import VoWiFi.Epdg.Proofs.TaskManagerProofs
import VoWiFi.Epdg.Response

/-!
# Which query a response is generated with

The tasks are built while the query is there; what the authentication task generates in the
IKE_SA_INIT exchange is therefore generated with it. Everything else is generated after
`build_response` has released the query, and then either no lookup is made or every one finds none.
-/

namespace Epdg

variable {tm : TaskManager} {inst inst' : Instance} {h : Header} {env : Env} {id : SaId}
  {exchange : ExchangeType} {r : Round} {q : Query} {g : Generation} {bg : Building}

/-! ## Lookups -/

theorem applied_nil : Applied r q [] ↔ asksPayload r q = false ∧ asksAuthenticationCode r q = false := by
  constructor
  · intro happ
    constructor
    · by_contra hask
      obtain ⟨_, hmem, -⟩ := happ.payload (by simpa using hask)
      cases hmem
    · by_contra hask
      obtain ⟨_, hmem, -⟩ := happ.authenticationCode (by simpa using hask)
      cases hmem
  · rintro ⟨hpay, hcode⟩
    exact ⟨List.forall_mem_nil _, by simp [hpay], by simp [hcode]⟩

/-- Lookups that find no query apply none. -/
theorem applied_of_unseen {lookups : List Lookup} (hun : ∀ l ∈ lookups, l.seen = none) :
    Applied r q lookups ↔
      lookups = [] ∧ asksPayload r q = false ∧ asksAuthenticationCode r q = false := by
  constructor
  · intro happ
    have hnil : lookups = [] := by
      refine List.eq_nil_iff_forall_not_mem.2 fun l hl => ?_
      have hsees := happ.sees l hl
      rw [hun l hl] at hsees
      cases hsees
    subst hnil
    exact ⟨rfl, applied_nil.1 happ⟩
  · rintro ⟨rfl, hask⟩
    exact applied_nil.2 hask

/-- The lookups made for a message of the session while the query is `seen`. -/
def sessionLookups (seen : Option Query) (g : Generation) : List Lookup :=
  List.replicate 5 ⟨.messageSize, seen⟩ ++ List.replicate g.payloads ⟨.payload, seen⟩

/-- A response generated with its query is only short of a change of the authentication code. -/
theorem applied_sessionLookups (hcode : asksAuthenticationCode r q = false) :
    Applied r q (sessionLookups (some q) g) ↔ (asksPayload r q = true → 0 < g.payloads) := by
  constructor
  · intro happ hask
    obtain ⟨l, hl, hsite⟩ := happ.payload hask
    rcases List.mem_append.1 hl with hl | hl
    · rw [List.eq_of_mem_replicate hl] at hsite
      cases hsite
    · exact Nat.pos_of_ne_zero (List.mem_replicate.1 hl).1
  · intro hpos
    refine ⟨fun l hl => ?_, fun hask => ?_, by simp [hcode]⟩
    · rcases List.mem_append.1 hl with hl | hl
      · rw [List.eq_of_mem_replicate hl]
      · rw [List.eq_of_mem_replicate hl]
    · refine ⟨⟨.payload, some q⟩, List.mem_append_right _ ?_, rfl⟩
      exact List.mem_replicate.2 ⟨(hpos hask).ne', rfl⟩

/-! ## Generating a message -/

theorem checkInstance_id (inst : Instance) (id : SaId) :
    inst.checkInstance id.ispi id.rspi false =
      ((inst.checkInstance id.ispi id.rspi false).1, inst) := by
  refine Prod.ext rfl ?_
  rw [checkInstance_false_snd, if_neg id.rspi_ne]

theorem generatePayloads_id (inst : Instance) (id : SaId) (n : ℕ) :
    generatePayloads inst id.ispi id.rspi n =
      (inst, if (inst.checkInstance id.ispi id.rspi false).1 then
        List.replicate n ⟨.payload, inst.query⟩ else []) := by
  induction n with
  | zero => simp [generatePayloads]
  | succ n ih =>
    unfold generatePayloads
    rw [checkInstance_id]
    dsimp only
    rw [ih]
    split
    · rfl
    · rfl

/-- The generation of a message with the SPIs of the IKE SA. -/
theorem generateMessage_id (inst : Instance) (id : SaId) (g : Generation) :
    (generateMessage inst id.ispi id.rspi g).1 = g.succeeds ∧
    (generateMessage inst id.ispi id.rspi g).2.1 = inst ∧
    (g.ready = true → (generateMessage inst id.ispi id.rspi g).2.2 =
      if (inst.checkInstance id.ispi id.rspi false).1 then sessionLookups inst.query g else []) := by
  unfold generateMessage
  cases hready : g.ready with
  | false => simp [Generation.succeeds, hready]
  | true =>
    rw [if_pos rfl, checkInstance_id]
    dsimp only
    rw [generatePayloads_id]
    refine ⟨by simp [Generation.succeeds, hready], rfl, fun _ => ?_⟩
    split
    · simp [sessionLookups, encryptContent, aeadInstance]
    · simp [encryptContent, aeadInstance]

theorem query_checkInstance (ispi rspi : UInt64) :
    (inst.checkInstance ispi rspi false).2.query = inst.query := by
  rw [checkInstance_false_snd]

theorem generatePayloads_seen (ispi rspi : UInt64) (n : ℕ) :
    ∀ l ∈ (generatePayloads inst ispi rspi n).2, l.seen = inst.query := by
  induction n generalizing inst with
  | zero => exact List.forall_mem_nil _
  | succ n ih =>
    intro l hl
    have hrest := @ih (inst.checkInstance ispi rspi false).2
    rw [query_checkInstance] at hrest
    unfold generatePayloads at hl
    dsimp only at hl
    split at hl
    · rcases List.mem_cons.1 hl with rfl | hl
      · exact query_checkInstance ispi rspi
      · exact hrest l hl
    · exact hrest l hl

/-- All lookups of one generation find the same query. -/
theorem generateMessage_seen (ispi rspi : UInt64) (g : Generation) :
    ∀ l ∈ (generateMessage inst ispi rspi g).2.2, l.seen = inst.query := by
  intro l hl
  unfold generateMessage at hl
  split at hl
  · dsimp only at hl
    rcases List.mem_append.1 hl with hl | hl
    · rcases List.mem_append.1 hl with hl | hl
      · split at hl
        · rw [List.eq_of_mem_replicate hl]
          exact query_checkInstance ispi rspi
        · cases hl
      · rw [generatePayloads_seen ispi rspi _ l hl]
        exact query_checkInstance ispi rspi
    · simp [encryptContent, aeadInstance] at hl
  · cases hl

/-- A free session makes no lookup. -/
theorem checkInstance_free (hi : inst.ispi = 0) (hr : inst.rspi = 0) (ispi rspi : UInt64) :
    (inst.checkInstance ispi rspi false).1 = false := by
  simp [Instance.checkInstance, hi, hr]

theorem generatePayloads_free (hi : inst.ispi = 0) (hr : inst.rspi = 0) (ispi rspi : UInt64)
    (n : ℕ) : (generatePayloads inst ispi rspi n).2 = [] := by
  induction n generalizing inst with
  | zero => rfl
  | succ n ih =>
    have hag : Agree inst _ := agree_checkInstance ispi rspi
    unfold generatePayloads
    dsimp only
    rw [checkInstance_free hi hr]
    exact ih (hag.ispi.trans hi) (hag.rspi.trans hr)

theorem generateMessage_free (hi : inst.ispi = 0) (hr : inst.rspi = 0) (ispi rspi : UInt64)
    (g : Generation) : (generateMessage inst ispi rspi g).2.2 = [] := by
  have hag : Agree inst _ := agree_checkInstance ispi rspi
  unfold generateMessage
  split
  · dsimp only
    rw [checkInstance_free hi hr, generatePayloads_free (hag.ispi.trans hi) (hag.rspi.trans hr)]
    simp [encryptContent, aeadInstance]
  · rfl

/-- A responder's SPI of zero belongs to the session if the initiator's SPI is the stored one or none
is stored; it is stored then. -/
theorem checkInstance_zero (hr : inst.rspi ≠ 0) :
    inst.checkInstance inst.ispi 0 false =
      (inst.pispi = inst.ispi || inst.pispi = 0, { inst with pispi := inst.ispi }) := by
  refine Prod.ext ?_ ?_
  · simp [Instance.checkInstance, hr]
    split <;> simp_all
  · rw [checkInstance_false_snd, if_pos rfl]

theorem checkInstance_stored (hr : inst.rspi ≠ 0) (hp : inst.pispi = inst.ispi) :
    inst.checkInstance inst.ispi 0 false = (true, inst) := by
  rw [checkInstance_zero hr]
  refine Prod.ext (by simp [hp]) ?_
  cases inst
  dsimp only at hp
  subst hp
  rfl

theorem generatePayloads_zero (hr : inst.rspi ≠ 0) (hp : inst.pispi = inst.ispi) (n : ℕ) :
    (generatePayloads inst inst.ispi 0 n).2 = List.replicate n ⟨.payload, inst.query⟩ := by
  induction n with
  | zero => rfl
  | succ n ih =>
    unfold generatePayloads
    rw [checkInstance_stored hr hp]
    dsimp only
    rw [ih]
    rfl

/-- With a responder's SPI of zero, no lookup is made only if the initiator's SPI is not the stored one
and there is no payload. -/
theorem generateMessage_zero (hr : inst.rspi ≠ 0) (hready : g.ready = true) :
    (generateMessage inst inst.ispi 0 g).2.2 = [] ↔
      inst.pispi ≠ inst.ispi ∧ inst.pispi ≠ 0 ∧ g.payloads = 0 := by
  have hloop := @generatePayloads_zero { inst with pispi := inst.ispi } hr rfl g.payloads
  unfold generateMessage
  rw [if_pos hready, checkInstance_zero hr]
  dsimp only at hloop ⊢
  rw [hloop]
  by_cases hstored : inst.pispi = inst.ispi ∨ inst.pispi = 0
  · simp [hstored]
    tauto
  · simp [hstored, encryptContent, aeadInstance]
    tauto

/-! ## Building the tasks -/

/-- The instance after tasks that mark a failure if `m` holds. -/
structure Marked (inst : Instance) (m : Bool) (inst' : Instance) : Prop where
  flags : ∃ a n k, inst' =
    { inst with authenticationFailed := a, noProposalChosen := n, invalidKePayload := k }
  marked : inst'.marked = (inst.marked || m)

theorem Marked.refl (inst : Instance) : Marked inst false inst :=
  ⟨⟨_, _, _, rfl⟩, (Bool.or_false _).symm⟩

theorem Marked.trans {inst'' : Instance} {m n : Bool} (h₁ : Marked inst m inst')
    (h₂ : Marked inst' n inst'') : Marked inst (m || n) inst'' := by
  obtain ⟨⟨_, _, _, rfl⟩, hm⟩ := h₁
  obtain ⟨⟨_, _, _, rfl⟩, hn⟩ := h₂
  exact ⟨⟨_, _, _, rfl⟩, by rw [hn, hm, Bool.or_assoc]⟩

/-- The session is attached to the IKE SA while the tasks are built. -/
def Building.attached (bg : Building) (id : SaId) : Bool :=
  (bg.inst.checkInstance id.ispi id.rspi false).1

/-- What the authentication task generates, it generates with the query. -/
theorem buildTask_generates {task : TaskType} {o : BuildOutcome} (hgen : generates exchange task = true)
    (henc : bg.encoded = none) :
    buildTask id exchange task o bg =
      if o.fails exchange task then (.failed, bg)
      else (.needMore, { bg with
        encoded := some <| if bg.attached id then sessionLookups bg.inst.query o.generation
          else [] }) := by
  have hcond : task = .ikeAuth ∧ exchange = .ikeSaInit := by simpa [generates] using hgen
  obtain ⟨inst, encoded, kept, midSync, delete⟩ := bg
  obtain rfl : encoded = none := henc
  obtain ⟨hok, hinst, hlookups⟩ := generateMessage_id inst id o.generation
  unfold buildTask collectMyInitData BuildOutcome.fails
  rw [if_pos hcond, if_pos hgen]
  cases hnonce : o.nonce with
  | false => rfl
  | true =>
    dsimp only
    rw [hok, hinst]
    cases hsucc : o.generation.succeeds with
    | false => rfl
    | true =>
      rw [hlookups (Bool.and_eq_true_iff.1 hsucc).1]
      rfl

/-- A task that does not generate the response leaves its mark in the instance at most. -/
theorem buildTask_marks {task : TaskType} {o : BuildOutcome} (hgen : generates exchange task = false)
    (bg : Building) :
    ∃ inst, Marked bg.inst (bg.attached id && o.marks) inst ∧
      buildTask id exchange task o bg = (o.status, { bg with inst := inst }) := by
  have hcond : ¬ (task = .ikeAuth ∧ exchange = .ikeSaInit) := by simpa [generates] using hgen
  unfold buildTask Building.attached
  rw [if_neg hcond]
  cases (bg.inst.checkInstance id.ispi id.rspi false).1 with
  | false => exact ⟨bg.inst, .refl bg.inst, rfl⟩
  | true =>
    refine ⟨_, ⟨⟨_, _, _, rfl⟩, ?_⟩, rfl⟩
    simp only [Instance.marked, BuildOutcome.marks, Bool.true_and]
    cases bg.inst.authenticationFailed <;> cases bg.inst.noProposalChosen <;>
      cases bg.inst.invalidKePayload <;> simp

/-- The loop over the tasks, one task at a time. -/
theorem buildTasks_cons {task : TaskType} {o : ℕ → BuildOutcome} {status : Status} {bg' : Building}
    (tasks : List TaskType)
    (hone : buildTask id exchange task (o 0)
      { bg with midSync := bg.midSync || task = .ikeMidSync } = (status, bg')) :
    ∃ kept, buildTasks id exchange (task :: tasks) o bg =
      if status = .success ∨ status = .needMore then
        buildTasks id exchange tasks (o ∘ Nat.succ) { bg' with kept := kept }
      else { bg' with kept := kept, delete := true } := by
  rw [buildTasks, hone]
  cases status with
  | success => exact ⟨bg'.kept, rfl⟩
  | needMore => exact ⟨_, rfl⟩
  | _ => exact ⟨_, rfl⟩

/-- Once the response has been generated, no task generates it again. -/
theorem buildTask_encoded {task : TaskType} {o : BuildOutcome} {lookups : List Lookup}
    (henc : bg.encoded = some lookups) :
    (buildTask id exchange task o bg).2.encoded = some lookups := by
  unfold buildTask collectMyInitData
  split
  · split
    · rw [henc]
      exact henc
    · exact henc
  · split
    · exact henc
    · exact henc

theorem buildTasks_encoded {lookups : List Lookup} (tasks : List TaskType) (o : ℕ → BuildOutcome)
    (henc : bg.encoded = some lookups) :
    (buildTasks id exchange tasks o bg).encoded = some lookups := by
  induction tasks generalizing o bg with
  | nil => exact henc
  | cons task tasks ih =>
    rcases hone : buildTask id exchange task (o 0)
      { bg with midSync := bg.midSync || task = .ikeMidSync } with ⟨status, bg'⟩
    have henc' : bg'.encoded = some lookups := by
      have := @buildTask_encoded id exchange
        { bg with midSync := bg.midSync || task = .ikeMidSync } task (o 0) lookups henc
      rwa [hone] at this
    obtain ⟨kept, heq⟩ := buildTasks_cons tasks hone
    rw [heq]
    split
    · exact ih _ henc'
    · exact henc'

theorem Marked.attached {bg' : Building} {m : Bool} (id : SaId) (hm : Marked bg.inst m bg'.inst) :
    bg'.attached id = bg.attached id := by
  obtain ⟨⟨_, _, _, heq⟩, -⟩ := hm
  refine Agree.checkInstance id ⟨?_, ?_, ?_, ?_, ?_, ?_⟩ <;> rw [heq]
  rfl

theorem Marked.query {m : Bool} (hm : Marked inst m inst') : inst'.query = inst.query := by
  obtain ⟨⟨_, _, _, rfl⟩, -⟩ := hm
  rfl

theorem not_fails_iff {task : TaskType} {o : BuildOutcome} (hgen : generates exchange task = false) :
    o.fails exchange task = false ↔ o.status = .success ∨ o.status = .needMore := by
  unfold BuildOutcome.fails
  rw [hgen]
  by_cases hs : o.status = .success <;> by_cases hn : o.status = .needMore <;> simp [hs, hn]

/-- The loop at a task that does not generate the response: it goes on unless the task fails. -/
theorem buildTasks_step_marks {task : TaskType} (hgen : generates exchange task = false)
    (tasks : List TaskType) (o : ℕ → BuildOutcome) (bg : Building) :
    ∃ bg' : Building, Marked bg.inst (bg.attached id && (o 0).marks) bg'.inst ∧
      bg'.encoded = bg.encoded ∧ bg'.delete = (bg.delete || (o 0).fails exchange task) ∧
      buildTasks id exchange (task :: tasks) o bg =
        if (o 0).fails exchange task then bg'
        else buildTasks id exchange tasks (o ∘ Nat.succ) bg' := by
  obtain ⟨inst', hm, hone⟩ := @buildTask_marks id exchange task (o 0) hgen
    { bg with midSync := bg.midSync || task = .ikeMidSync }
  obtain ⟨kept, heq⟩ := buildTasks_cons tasks hone
  rw [heq]
  cases hfails : (o 0).fails exchange task with
  | false =>
    rw [if_pos ((not_fails_iff hgen).1 hfails)]
    simp only [Bool.false_eq_true, if_false]
    refine ⟨_, ?_, ?_, ?_, rfl⟩
    · exact hm
    · rfl
    · exact (Bool.or_false _).symm
  | true =>
    have hstop : ¬ ((o 0).status = .success ∨ (o 0).status = .needMore) := by
      rw [← not_fails_iff hgen, hfails]
      exact Bool.noConfusion
    rw [if_neg hstop]
    simp only [if_true]
    refine ⟨_, ?_, ?_, ?_, rfl⟩
    · exact hm
    · rfl
    · exact (Bool.or_true _).symm

/-- The loop at the authentication task of the IKE_SA_INIT exchange. -/
theorem buildTasks_step_generates {task : TaskType} (hgen : generates exchange task = true)
    (tasks : List TaskType) (o : ℕ → BuildOutcome) (henc : bg.encoded = none) :
    if (o 0).fails exchange task then
      (buildTasks id exchange (task :: tasks) o bg).encoded = none ∧
      (buildTasks id exchange (task :: tasks) o bg).inst = bg.inst ∧
      (buildTasks id exchange (task :: tasks) o bg).delete = true
    else (buildTasks id exchange (task :: tasks) o bg).encoded =
      some (if bg.attached id then sessionLookups bg.inst.query (o 0).generation else []) := by
  have hone := @buildTask_generates id exchange
    { bg with midSync := bg.midSync || task = .ikeMidSync } task (o 0) hgen henc
  cases hfails : (o 0).fails exchange task with
  | true =>
    rw [hfails] at hone
    obtain ⟨kept, heq⟩ := buildTasks_cons tasks hone
    rw [heq]
    exact ⟨henc, rfl, rfl⟩
  | false =>
    rw [hfails] at hone
    obtain ⟨kept, heq⟩ := buildTasks_cons tasks hone
    rw [heq]
    exact buildTasks_encoded _ _ rfl

/-- If a task gets to generate the response, it does so with the query. -/
theorem buildTasks_pregenerated (tasks : List TaskType) (o : ℕ → BuildOutcome)
    (henc : bg.encoded = none) (hpre : pregeneration exchange tasks o = some g) :
    (buildTasks id exchange tasks o bg).encoded =
      some (if bg.attached id then sessionLookups bg.inst.query g else []) := by
  induction tasks generalizing o bg with
  | nil => cases hpre
  | cons task tasks ih =>
    unfold pregeneration at hpre
    cases hfails : (o 0).fails exchange task with
    | true =>
      rw [if_pos hfails] at hpre
      cases hpre
    | false =>
      rw [hfails] at hpre
      cases hgen : generates exchange task with
      | true =>
        rw [hgen] at hpre
        cases hpre
        have hstep := @buildTasks_step_generates id exchange bg task hgen tasks o henc
        rwa [hfails] at hstep
      | false =>
        rw [hgen] at hpre
        obtain ⟨bg', hm, henc', -, heq⟩ := @buildTasks_step_marks id exchange task hgen tasks o bg
        rw [heq, hfails, if_neg Bool.false_ne_true, ih _ (henc'.trans henc) hpre, hm.attached id,
          hm.query]

/-- If no task gets to generate the response, the tasks leave no more than their marks. -/
theorem buildTasks_not_pregenerated (tasks : List TaskType) (o : ℕ → BuildOutcome)
    (henc : bg.encoded = none) (hpre : pregeneration exchange tasks o = none) :
    (buildTasks id exchange tasks o bg).encoded = none ∧
    (buildTasks id exchange tasks o bg).delete = (bg.delete || anyFails exchange tasks o) ∧
    Marked bg.inst (bg.attached id && anyMarks exchange tasks o)
      (buildTasks id exchange tasks o bg).inst := by
  induction tasks generalizing o bg with
  | nil =>
    refine ⟨henc, (Bool.or_false _).symm, ?_⟩
    rw [anyMarks, Bool.and_false]
    exact .refl bg.inst
  | cons task tasks ih =>
    unfold pregeneration at hpre
    rw [anyFails, anyMarks]
    cases hgen : generates exchange task with
    | true =>
      have hstep := @buildTasks_step_generates id exchange bg task hgen tasks o henc
      cases hfails : (o 0).fails exchange task with
      | true =>
        rw [if_pos hfails] at hstep
        obtain ⟨henc', hinst, hdel⟩ := hstep
        refine ⟨henc', by rw [hdel]; simp, ?_⟩
        rw [hinst]
        simpa using Marked.refl bg.inst
      | false =>
        rw [hfails, hgen] at hpre
        cases hpre
    | false =>
      obtain ⟨bg', hm, henc', hdel, heq⟩ := @buildTasks_step_marks id exchange task hgen tasks o bg
      cases hfails : (o 0).fails exchange task with
      | true =>
        rw [heq, hfails, if_pos rfl]
        refine ⟨henc'.trans henc, by rw [hdel, hfails]; simp, ?_⟩
        simpa using hm
      | false =>
        rw [hfails, hgen] at hpre
        obtain ⟨hnone, hdel', hrest⟩ := ih _ (henc'.trans henc) hpre
        rw [heq, hfails, if_neg Bool.false_ne_true]
        refine ⟨hnone, by rw [hdel', hdel, hfails]; simp, ?_⟩
        rw [hm.attached id] at hrest
        have hall := hm.trans hrest
        rw [← Bool.and_or_distrib_left] at hall
        simpa using hall

theorem pregeneration_exchange {tasks : List TaskType} {o : ℕ → BuildOutcome}
    (hpre : pregeneration exchange tasks o = some g) : exchange = .ikeSaInit := by
  induction tasks generalizing o with
  | nil => cases hpre
  | cons task tasks ih =>
    unfold pregeneration at hpre
    split at hpre
    · cases hpre
    · split at hpre
      · rename_i hgen
        have hboth : task = .ikeAuth ∧ exchange = .ikeSaInit := by simpa [generates] using hgen
        exact hboth.2
      · exact ih hpre

/-! ## Releasing the query -/

theorem closeResponse_marked (hm : inst.marked = true) :
    inst.closeResponse.1.ispi = 0 ∧ inst.closeResponse.1.rspi = 0 := by
  unfold Instance.closeResponse
  unfold Instance.marked at hm
  cases ha : inst.authenticationFailed with
  | true => exact ⟨rfl, rfl⟩
  | false =>
    cases hn : inst.noProposalChosen with
    | true => exact ⟨rfl, rfl⟩
    | false =>
      have hk : inst.invalidKePayload = true := by simpa [ha, hn] using hm
      rw [hk]
      exact ⟨rfl, rfl⟩

theorem closeResponse_unmarked (hm : inst.marked = false) :
    inst.closeResponse.1.ispi = inst.ispi ∧ inst.closeResponse.1.rspi = inst.rspi ∧
      inst.closeResponse.1.pispi = inst.pispi := by
  unfold Instance.closeResponse
  obtain ⟨⟨ha, hn⟩, hk⟩ : (inst.authenticationFailed = false ∧ inst.noProposalChosen = false) ∧
      inst.invalidKePayload = false := by simpa [Instance.marked] using hm
  rw [ha, hn, hk]
  exact ⟨rfl, rfl, rfl⟩

theorem generateMessage_fst (inst : Instance) (ispi rspi : UInt64) (g : Generation) :
    (generateMessage inst ispi rspi g).1 = g.succeeds := by
  unfold generateMessage Generation.succeeds
  cases g.ready with
  | true => rfl
  | false => rfl

/-- The lookups for a response that no task has generated. -/
def TaskManager.lateLookups (tm : TaskManager) (h : Header) (env : Env) : List Lookup :=
  (generateMessage (tm.closeBuilding (tm.building h env)).1 tm.id.ispi
    (if (tm.building h env).delete && h.exchange = .ikeSaInit then 0 else tm.id.rspi)
    env.generation).2.2

theorem finishResponse_lookups (tm : TaskManager) (h : Header) (env : Env) :
    (tm.finishResponse h env).log.filterMap Action.lookups? =
      match (tm.building h env).encoded with
      | some lookups => [lookups]
      | none => if env.generation.succeeds then [tm.lateLookups h env] else [] := by
  have hclose : (tm.closeBuilding (tm.building h env)).2.filterMap Action.lookups? = [] := by
    unfold TaskManager.closeBuilding
    split
    · rfl
    · rfl
  unfold TaskManager.finishResponse TaskManager.encode
  dsimp only
  cases (tm.building h env).encoded with
  | some lookups =>
    simp only [if_true, List.filterMap_append, hclose]
    rfl
  | none =>
    simp only [generateMessage_fst]
    cases env.generation.succeeds with
    | true =>
      simp only [if_true, List.filterMap_append, hclose]
      rfl
    | false => simpa using hclose

/-- The tasks of a response that none of them generates. -/
theorem building_late (hpre : pregeneration h.exchange tm.passiveTasks env.build = none) :
    (tm.building h env).encoded = none ∧
    (tm.building h env).delete = anyFails h.exchange tm.passiveTasks env.build ∧
    Marked tm.inst (tm.attached && anyMarks h.exchange tm.passiveTasks env.build)
      (tm.building h env).inst := by
  obtain ⟨henc, hdel, hm⟩ := @buildTasks_not_pregenerated tm.id h.exchange
    ⟨tm.inst, none, [], false, false⟩ tm.passiveTasks env.build rfl hpre
  exact ⟨henc, hdel.trans (Bool.false_or _), hm⟩

/-- A session that has been reset makes no lookup. -/
theorem lateLookups_free (hi : tm.inst.ispi = 0) (hr : tm.inst.rspi = 0) :
    tm.lateLookups h env = [] := by
  have hag := agree_building tm h env
  have hbi := hag.ispi.trans hi
  have hbr := hag.rspi.trans hr
  unfold TaskManager.lateLookups TaskManager.closeBuilding
  rw [checkInstance_free hbi hbr]
  exact generateMessage_free hbi hbr _ _ _

theorem building_attached (h : Header) (env : Env) (hatt : tm.attached = true) :
    ((tm.building h env).inst.checkInstance tm.id.ispi tm.id.rspi false).1 = true :=
  ((agree_building tm h env).checkInstance tm.id).trans hatt

/-- After the query has been released, every lookup finds none. -/
theorem lateLookups_unseen (hatt : tm.attached = true) :
    ∀ l ∈ tm.lateLookups h env, l.seen = none := by
  intro l hl
  have hseen := generateMessage_seen _ _ _ l hl
  rw [TaskManager.closeBuilding, if_pos (building_attached h env hatt)] at hseen
  exact hseen

theorem lateLookups_eq_nil (hpre : pregeneration h.exchange tm.passiveTasks env.build = none)
    (hatt : tm.attached = true) (hready : env.generation.ready = true) :
    tm.lateLookups h env = [] ↔ tm.Silent h env := by
  obtain ⟨-, hdel, ⟨⟨_, _, _, hinst⟩, hmarked⟩⟩ := building_late hpre
  obtain ⟨hi, hr⟩ := attached_iff.1 hatt
  have hag := agree_building tm h env
  unfold TaskManager.lateLookups TaskManager.Silent
  rw [TaskManager.closeBuilding, if_pos (building_attached h env hatt), hdel]
  rw [hatt, Bool.true_and] at hmarked
  rw [← hmarked]
  cases hm : (tm.building h env).inst.marked with
  | true =>
    obtain ⟨hzi, hzr⟩ := closeResponse_marked hm
    simp [generateMessage_free hzi hzr]
  | false =>
    obtain ⟨hci, hcr, hcp⟩ := closeResponse_unmarked hm
    have hrspi : (tm.building h env).inst.closeResponse.1.rspi = tm.id.rspi :=
      hcr.trans (hag.rspi.trans hr)
    have hispi : (tm.building h env).inst.closeResponse.1.ispi = tm.id.ispi :=
      hci.trans (hag.ispi.trans hi)
    have hpispi : (tm.building h env).inst.closeResponse.1.pispi = tm.inst.pispi := by
      rw [hcp, hinst]
    by_cases hzero : anyFails h.exchange tm.passiveTasks env.build = true ∧ h.exchange = .ikeSaInit
    · obtain ⟨hfails, hinit⟩ := hzero
      have hnil := @generateMessage_zero (tm.building h env).inst.closeResponse.1 env.generation
        (by rw [hrspi]; exact tm.id.rspi_ne) hready
      rw [hispi, hpispi, ← hi] at hnil
      have hcond : (anyFails h.exchange tm.passiveTasks env.build &&
        decide (h.exchange = .ikeSaInit)) = true := by
        rw [hfails, decide_eq_true hinit]
        rfl
      rw [if_pos hcond, ← hi, hnil]
      constructor
      · intro hsilent
        exact .inr (.inr ⟨hinit, hfails, hsilent⟩)
      · rintro (hno | hno | ⟨-, -, hsilent⟩)
        · rw [hatt] at hno
          cases hno
        · cases hno
        · exact hsilent
    · have hlook := (generateMessage_id (tm.building h env).inst.closeResponse.1 tm.id
        env.generation).2.2 hready
      rw [if_pos (checkInstance_fst_iff.2 ⟨hispi, hrspi⟩)] at hlook
      have hne : ¬ (anyFails h.exchange tm.passiveTasks env.build &&
        decide (h.exchange = .ikeSaInit)) = true := by simpa using hzero
      rw [if_neg hne, hlook]
      constructor
      · intro hnil
        cases hnil
      · rintro (hno | hno | ⟨hinit, hfails, -⟩)
        · rw [hatt] at hno
          cases hno
        · cases hno
        · exact absurd ⟨hfails, hinit⟩ hzero

/-! ## The wait for a query -/

/-- The query that ends the wait is the current one, and the session is as it was or has been
reset. -/
theorem waitQuery_some {wait : List ListenerEvent} (hfin : inst.finished = false)
    (hw : inst.waitQuery wait = some (some q, inst')) :
    inst'.query = some q ∧ ((inst'.ispi = inst.ispi ∧ inst'.rspi = inst.rspi) ∨
      (inst'.ispi = 0 ∧ inst'.rspi = 0)) := by
  -- a session that is closed while it waits gets no query, and the wait is over
  have hinv := waitQuery_invariant (I := fun x => (x.finished = true ∧ x.query = none) ∨
    (x.finished = false ∧ ((x.ispi = inst.ispi ∧ x.rspi = inst.rspi) ∨ (x.ispi = 0 ∧ x.rspi = 0))))
    (.inr ⟨hfin, .inl ⟨rfl, rfl⟩⟩) ?_ hw
  · obtain ⟨hI, hpoll⟩ := hinv
    have hquery := poll_query hpoll
    refine ⟨hquery, ?_⟩
    rcases hI with ⟨-, hnone⟩ | ⟨-, hspi⟩
    · rw [hnone] at hquery
      cases hquery
    · exact hspi
  · intro x e _ hI hpoll
    rcases hI with ⟨hdone, hnone⟩ | ⟨hrun, hspi⟩
    · rw [Instance.poll, hnone] at hpoll
      simp [hdone] at hpoll
    · cases e with
      | init => exact .inr ⟨rfl, .inr ⟨rfl, rfl⟩⟩
      | fin => exact .inl ⟨rfl, rfl⟩
      | publish p => exact .inr ⟨hrun, hspi⟩

theorem getNextQuery_some {wait : List ListenerEvent}
    (hq : inst.getNextQuery wait = some (some q, inst')) :
    inst'.query = some q ∧ ((inst'.ispi = inst.ispi ∧ inst'.rspi = inst.rspi) ∨
      (inst'.ispi = 0 ∧ inst'.rspi = 0)) := by
  unfold Instance.getNextQuery at hq
  split at hq
  · rename_i hrun
    exact waitQuery_some (by simpa using (Bool.and_eq_true_iff.1 hrun).2) hq
  · cases hq

/-! ## The response -/

/-- In the IKE_SA_INIT exchange there is no authentication code. -/
theorem responseLabel_init {sprev : Option Round}
    (hlabel : responseLabel .ikeSaInit q sprev = .ok (.response r, r)) :
    asksAuthenticationCode r q = false := by
  unfold responseLabel at hlabel
  dsimp only at hlabel
  split at hlabel
  · cases hlabel
    rfl
  · cases hlabel

/-- A response that is generated is the one asked for exactly under the condition. -/
theorem finishResponse_applied (hquery : tm.inst.query = some q)
    (hspi : tm.attached = true ∨ (tm.inst.ispi = 0 ∧ tm.inst.rspi = 0))
    (hcode : h.exchange = .ikeSaInit → asksAuthenticationCode r q = false)
    (hfail : failureOf q = none) :
    (∀ lookups ∈ (tm.finishResponse h env).log.filterMap Action.lookups?, Applied r q lookups) ↔
      tm.Keeps h env r q := by
  rw [finishResponse_lookups]
  unfold TaskManager.Keeps
  rw [hfail, Option.isSome_none, if_neg Bool.false_ne_true]
  cases hpre : pregeneration h.exchange tm.passiveTasks env.build with
  | some g =>
    have henc : (tm.building h env).encoded =
        some (if tm.attached then sessionLookups tm.inst.query g else []) :=
      @buildTasks_pregenerated tm.id h.exchange g ⟨tm.inst, none, [], false, false⟩
        tm.passiveTasks env.build rfl hpre
    have hno := hcode (pregeneration_exchange hpre)
    rw [henc, hquery]
    simp only [List.forall_mem_singleton]
    cases tm.attached with
    | true =>
      rw [if_pos rfl, applied_sessionLookups hno]
      simp
    | false =>
      rw [if_neg Bool.false_ne_true, applied_nil, hno]
      simp
  | none =>
    rw [(building_late hpre).1]
    dsimp only
    cases hsucc : env.generation.succeeds with
    | false => simp
    | true =>
      have hready : env.generation.ready = true := (Bool.and_eq_true_iff.1 hsucc).1
      simp only [if_true, List.forall_mem_singleton, true_imp_iff]
      cases hatt : tm.attached with
      | true =>
        rw [applied_of_unseen (lateLookups_unseen hatt), lateLookups_eq_nil hpre hatt hready]
      | false =>
        obtain ⟨hi, hr⟩ := hspi.resolve_left (by rw [hatt]; exact Bool.false_ne_true)
        rw [lateLookups_free hi hr, applied_nil]
        exact ⟨fun hask => ⟨.inl hatt, hask⟩, fun hkeep => hkeep.2⟩

theorem keeps_sprev (sprev : Option Round) :
    TaskManager.Keeps { tm with inst := { inst with sprev := sprev } } h env r q ↔
      TaskManager.Keeps { tm with inst := inst } h env r q := by
  have hatt : TaskManager.attached { tm with inst := { inst with sprev := sprev } } =
      TaskManager.attached { tm with inst := inst } := by
    rw [Bool.eq_iff_iff, attached_iff, attached_iff]
  unfold TaskManager.Keeps TaskManager.Silent
  rw [hatt]
  exact Iff.rfl

/-- A query for the first IKE_AUTH response without the responder's identity. -/
def sampleDrop : Query :=
  .node ⟨some "ike_auth_1_response".toList, .notSet, 0, none⟩
    [.node ⟨some "id_responder".toList, .drop, 0, none⟩ []]

end Epdg
