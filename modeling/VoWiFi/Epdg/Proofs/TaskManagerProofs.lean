import VoWiFi.Epdg.Proofs.InstanceProofs
import VoWiFi.Epdg.Suppression

/-!
# What a call of `process_message` does

The results about conversations do not unfold the task manager. They use `messageStep`, which lists
the courses a call can take with the actions of each, and the lemmas about `process_request` and
`build_response` that say which fields of the instance they leave alone.
-/

namespace Epdg

open Report (MsgType)

variable {tm : TaskManager} {inst inst' : Instance} {h : Header} {b : Body} {env : Env} {id : SaId}

/-! ## Attachment -/

/-- Without the right to attach, only `pispi` can change. -/
theorem checkInstance_false_snd {ispi rspi : UInt64} :
    (inst.checkInstance ispi rspi false).2 =
      { inst with pispi := if rspi = 0 then inst.ispi else inst.pispi } := by
  rw [checkInstance_snd]
  simp [Instance.Attaches]

theorem checkInstance_fst_iff :
    (inst.checkInstance id.ispi id.rspi false).1 = true ↔
      inst.ispi = id.ispi ∧ inst.rspi = id.rspi := by
  constructor
  · intro hatt
    by_contra hne
    unfold Instance.checkInstance at hatt
    simp [hne, id.rspi_ne] at hatt
  · rintro ⟨hi, hr⟩
    rw [checkInstance_of_attached hi hr id.rspi_ne]

theorem attached_iff : tm.attached = true ↔ tm.inst.ispi = tm.id.ispi ∧ tm.inst.rspi = tm.id.rspi :=
  checkInstance_fst_iff

/-! ## Labels -/

/-- The name under which an IKE_AUTH request of round `r` is reported. -/
def Round.requestSymbol : Round → Symbol
  | .error => .errorInIkeAuth
  | r => .request r

theorem authRequestLabel_some (r : Round) :
    authRequestLabel (some r) = .ok (r.next.requestSymbol, r.next) := by
  unfold authRequestLabel
  cases hr : r.next <;> simp [hr, Round.requestSymbol]

/-- The cases of `reportRequest`. -/
theorem reportRequest_cases {log : List Action}
    (hok : inst.reportRequest h b = .ok (inst', log)) :
    (inst.retransmission ≠ 0 ∧ inst' = inst ∧ log = []) ∨
    (inst.retransmission = 0 ∧ h.exchange = .ikeSaInit ∧
      inst' = { inst with rprev := some .init, imid := 0 } ∧
      log = if inst.notReport then []
        else [inst.report .processMessage .blockStart (some (.request .init))]) ∨
    (inst.retransmission = 0 ∧ h.exchange = .ikeAuth ∧ ∃ r, inst.rprev = some r ∧
      inst' = { inst with rprev := some r.next } ∧
      log = if inst.notReport then []
        else [inst.report .processMessage .blockStart
          (some (if b.clientError then .clientError else r.next.requestSymbol))]) ∨
    (inst.retransmission = 0 ∧ h.isHandshake = false ∧ inst' = { inst with notReport := true } ∧
      log = []) := by
  unfold Instance.reportRequest at hok
  by_cases hre : inst.retransmission = 0
  · rw [if_pos hre] at hok
    refine .inr ?_
    unfold Instance.label at hok
    cases hex : h.exchange with
    | ikeSaInit =>
      simp only [hex] at hok
      cases hok
      exact .inl ⟨hre, rfl, rfl, rfl⟩
    | ikeAuth =>
      cases hprev : inst.rprev with
      | none =>
        simp only [hex, hprev] at hok
        cases hok
      | some r =>
        simp only [hex, hprev, authRequestLabel_some] at hok
        cases hok
        exact .inr (.inl ⟨hre, rfl, r, rfl, rfl, rfl⟩)
    | _ =>
      simp only [hex] at hok
      cases hok
      exact .inr (.inr ⟨hre, by simp [Header.isHandshake, hex], rfl, rfl⟩)
  · rw [if_neg hre] at hok
    cases hok
    exact .inl ⟨hre, rfl, rfl⟩

/-! ## Closing a report -/

/-- A message of the attached session has been reported and its block is open. -/
def TaskManager.Open (tm : TaskManager) : Prop :=
  tm.inst.notReport = false ∧ tm.inst.retransmission = 0

instance (tm : TaskManager) : Decidable tm.Open := inferInstanceAs (Decidable (_ ∧ _))

theorem closeRequest_log (hatt : tm.attached = true) (by_ : Reporter) :
    (tm.closeRequest by_).2 = if tm.Open then [tm.inst.report by_ .blockEnd none] else [] := by
  unfold TaskManager.closeRequest
  rw [if_pos hatt]
  by_cases hopen : tm.Open
  · rw [if_pos hopen, if_pos (show _ ∧ _ from hopen)]
  · rw [if_neg hopen, if_neg (show ¬ (_ ∧ _) from hopen)]

/-- The closing of a report leaves everything alone but the two fields that suppress reports. -/
theorem closeRequest_tm (tm : TaskManager) (by_ : Reporter) : ∃ retransmission notReport,
    (tm.closeRequest by_).1 = { tm with inst :=
      { tm.inst with retransmission := retransmission, notReport := notReport } } := by
  unfold TaskManager.closeRequest
  split
  · split
    · exact ⟨_, _, rfl⟩
    · exact ⟨_, _, rfl⟩
  · exact ⟨_, _, rfl⟩

theorem closeRequest_fields (tm : TaskManager) (by_ : Reporter) :
    (tm.closeRequest by_).1.inst.rprev = tm.inst.rprev ∧
      (tm.closeRequest by_).1.inst.imid = tm.inst.imid := by
  obtain ⟨retransmission, notReport, htm⟩ := closeRequest_tm tm by_
  rw [htm]
  exact ⟨rfl, rfl⟩

/-! ## Building a response -/

/-- The fields that building a response leaves alone. -/
structure Agree (inst inst' : Instance) : Prop where
  ispi : inst'.ispi = inst.ispi
  rspi : inst'.rspi = inst.rspi
  rprev : inst'.rprev = inst.rprev
  imid : inst'.imid = inst.imid
  sprev : inst'.sprev = inst.sprev
  suppression : inst'.suppression = inst.suppression

theorem Agree.refl (inst : Instance) : Agree inst inst := ⟨rfl, rfl, rfl, rfl, rfl, rfl⟩

theorem Agree.trans {inst'' : Instance} (h₁ : Agree inst inst') (h₂ : Agree inst' inst'') :
    Agree inst inst'' :=
  ⟨h₂.ispi.trans h₁.ispi, h₂.rspi.trans h₁.rspi, h₂.rprev.trans h₁.rprev, h₂.imid.trans h₁.imid,
    h₂.sprev.trans h₁.sprev, h₂.suppression.trans h₁.suppression⟩

theorem Agree.checkInstance (id : SaId) (hag : Agree inst inst') :
    (inst'.checkInstance id.ispi id.rspi false).1 = (inst.checkInstance id.ispi id.rspi false).1 := by
  rw [Bool.eq_iff_iff, checkInstance_fst_iff, checkInstance_fst_iff, hag.ispi, hag.rspi]

theorem agree_checkInstance (ispi rspi : UInt64) :
    Agree inst (inst.checkInstance ispi rspi false).2 := by
  rw [checkInstance_false_snd]
  exact ⟨rfl, rfl, rfl, rfl, rfl, rfl⟩

theorem agree_generatePayloads (ispi rspi : UInt64) (n : ℕ) :
    Agree inst (generatePayloads inst ispi rspi n).1 := by
  induction n generalizing inst with
  | zero => exact .refl inst
  | succ n ih => exact (agree_checkInstance ispi rspi).trans ih

theorem agree_generateMessage (ispi rspi : UInt64) (g : Generation) :
    Agree inst (generateMessage inst ispi rspi g).2.1 := by
  unfold generateMessage
  split
  · exact (agree_checkInstance ispi rspi).trans (agree_generatePayloads ispi rspi _)
  · exact .refl inst

theorem agree_buildTask (id : SaId) (exchange : ExchangeType) (task : TaskType) (o : BuildOutcome)
    (bg : Building) : Agree bg.inst (buildTask id exchange task o bg).2.inst := by
  unfold buildTask
  split
  · unfold collectMyInitData
    split
    · cases bg.encoded with
      | some lookups => exact .refl bg.inst
      | none =>
        dsimp only
        split
        · exact agree_generateMessage _ _ _
        · exact agree_generateMessage _ _ _
    · exact .refl bg.inst
  · split
    · exact ⟨rfl, rfl, rfl, rfl, rfl, rfl⟩
    · exact .refl bg.inst

theorem agree_buildTasks (id : SaId) (exchange : ExchangeType) (tasks : List TaskType) (o : ℕ → BuildOutcome)
    (bg : Building) : Agree bg.inst (buildTasks id exchange tasks o bg).inst := by
  induction tasks generalizing o bg with
  | nil => exact .refl bg.inst
  | cons task tasks ih =>
    have hone : Agree bg.inst _ := agree_buildTask id exchange task (o 0)
      { bg with midSync := bg.midSync || task = .ikeMidSync }
    unfold buildTasks
    revert hone
    rcases buildTask id exchange task (o 0) _ with ⟨status, bg'⟩
    intro (hone : Agree bg.inst bg'.inst)
    dsimp only
    split
    · exact hone.trans (ih _ bg')
    · exact hone.trans (ih (o ∘ Nat.succ)
        { bg' with kept := if (o 0).collides then bg'.kept else bg'.kept ++ [task] })
    · exact hone

/-- Closing a response releases the query, and reports a failure that a task has marked. -/
theorem closeResponse_cases (inst : Instance) :
    inst.closeResponse = ({ inst with
      query := none, authenticationFailed := false, noProposalChosen := false
      invalidKePayload := false }, none) ∨
    ∃ e ∈ [Symbol.authFailed, .noProposalChosen, .invalidKePayload],
      inst.closeResponse = ({ inst with
        sprev := none, ispi := 0, rspi := 0, imid := -1, query := none
        authenticationFailed := false, noProposalChosen := false, invalidKePayload := false },
        some e) := by
  unfold Instance.closeResponse
  dsimp only
  split
  · exact .inr ⟨.authFailed, by decide, rfl⟩
  · split
    · exact .inr ⟨.noProposalChosen, by decide, rfl⟩
    · split
      · exact .inr ⟨.invalidKePayload, by decide, rfl⟩
      · exact .inl rfl

/-- Closing a response keeps the labels of requests, and the count of messages unless it frees the
session. -/
theorem closeResponse_fields (inst : Instance) :
    inst.closeResponse.1.rprev = inst.rprev ∧
      (inst.closeResponse.1.imid = inst.imid ∨ inst.closeResponse.1.imid = -1) := by
  rcases closeResponse_cases inst with heq | ⟨e, -, heq⟩
  · rw [heq]
    exact ⟨rfl, .inl rfl⟩
  · rw [heq]
    exact ⟨rfl, .inr rfl⟩

/-! ## Waiting for a query -/

/-- What holds before the wait and is kept by the listener as long as the loop goes on holds after it,
and the test of the loop has given the result. -/
theorem waitQuery_invariant {I : Instance → Prop} {wait : List ListenerEvent} {q : Option Query}
    (hI : I inst)
    (hstep : ∀ x, ∀ e ∈ wait, I x → x.poll = none → I (x.listen e))
    (hw : inst.waitQuery wait = some (q, inst')) : I inst' ∧ inst'.poll = some q := by
  induction wait generalizing inst with
  | nil =>
    obtain ⟨_, hpoll, heq⟩ := Option.map_eq_some_iff.1 hw
    cases heq
    exact ⟨hI, hpoll⟩
  | cons e wait ih =>
    unfold Instance.waitQuery at hw
    split at hw
    · rename_i hpoll
      cases hw
      exact ⟨hI, hpoll⟩
    · rename_i hpoll
      exact ih (hstep inst e List.mem_cons_self hI hpoll)
        (fun x e' he' => hstep x e' (List.mem_cons_of_mem _ he')) hw

/-- The query that the test of the loop gives is the current one. -/
theorem poll_query {q : Option Query} (hpoll : inst.poll = some q) : inst.query = q := by
  unfold Instance.poll at hpoll
  split at hpoll
  · rename_i hquery
    split at hpoll
    · split at hpoll
      · cases hpoll
        exact hquery
      · cases hpoll
    · cases hpoll
      exact hquery
  · rename_i hquery
    split at hpoll
    · cases hpoll
      exact hquery
    · cases hpoll

theorem imid_waitQuery {wait : List ListenerEvent} {q : Option Query}
    (hw : inst.waitQuery wait = some (q, inst')) : inst'.imid = inst.imid ∨ inst'.imid = -1 := by
  have hinv := waitQuery_invariant (I := fun x => x.imid = inst.imid ∨ x.imid = -1) (.inl rfl) ?_ hw
  · exact hinv.1
  · intro x e _ hx _
    cases e with
    | init => exact .inr rfl
    | fin => exact hx
    | publish p => exact hx

/-- A running session that is not reset gets a query, and nothing else changes. -/
theorem waitQuery_publishes {wait : List ListenerEvent} {q : Option Query}
    (hpub : OnlyPublishes wait) (hfin : inst.finished = false)
    (hw : inst.waitQuery wait = some (q, inst')) :
    (∃ q', q = some q') ∧ ∃ query, inst' = { inst with query := query } := by
  have hinv := waitQuery_invariant (I := fun x => ∃ query, x = { inst with query := query })
    ⟨_, rfl⟩ ?_ hw
  · obtain ⟨⟨query, rfl⟩, hpoll⟩ := hinv
    refine ⟨?_, query, rfl⟩
    have hquery := poll_query hpoll
    cases query with
    | some q' => exact ⟨q', hquery.symm⟩
    | none => simp [Instance.poll, hfin] at hpoll
  · rintro x e he ⟨query, rfl⟩ -
    obtain ⟨p, rfl⟩ := hpub e he
    exact ⟨some p, rfl⟩

/-! ## Actions inside a request -/

/-- The action is no label, hand-over, parsing or dropping of a message. -/
structure Action.Internal (a : Action) : Prop where
  requestLabel : a.requestLabel? = none
  handOver : a.handOver? = none
  parsed : a.parsed? = none
  discard : a.discard? = none

/-- What holds of every part of `process_request`. -/
structure Quiet (tm : TaskManager) (wait : List ListenerEvent) (r : Result) : Prop where
  internal : ∀ a ∈ r.log, a.Internal
  rprev : OnlyPublishes wait → r.tm.inst.rprev = tm.inst.rprev
  imid : r.tm.inst.imid = tm.inst.imid ∨ r.tm.inst.imid = -1

theorem internal_report (by_ : Reporter) (mtype : MsgType) (symbol : Option Symbol)
    (hby : by_ ≠ .processMessage ∨ mtype ≠ .blockStart) :
    (inst.report by_ mtype symbol).Internal := by
  refine ⟨?_, rfl, rfl, rfl⟩
  unfold Instance.report Action.requestLabel?
  split
  · rename_i heq
    cases heq
    simp at hby
  · rfl

theorem internal_closeRequest (tm : TaskManager) (by_ : Reporter) :
    ∀ a ∈ (tm.closeRequest by_).2, a.Internal := by
  intro a ha
  unfold TaskManager.closeRequest at ha
  split at ha
  · split at ha
    · rw [List.mem_singleton] at ha
      subst ha
      exact internal_report _ _ _ (.inr nofun)
    · cases ha
  · cases ha

theorem agree_building (tm : TaskManager) (h : Header) (env : Env) :
    Agree tm.inst (tm.building h env).inst :=
  agree_buildTasks tm.id h.exchange tm.passiveTasks env.build ⟨tm.inst, none, [], false, false⟩

theorem closeBuilding_spec {bg : Building} (hag : Agree tm.inst bg.inst) :
    (∃ symbol i r, (tm.closeBuilding bg).2 =
      if tm.attached then [.report .buildResponse .blockEnd symbol i r] else []) ∧
    (tm.closeBuilding bg).1.rprev = tm.inst.rprev ∧
    ((tm.closeBuilding bg).1.imid = tm.inst.imid ∨ (tm.closeBuilding bg).1.imid = -1) := by
  unfold TaskManager.closeBuilding
  have hatt : (bg.inst.checkInstance tm.id.ispi tm.id.rspi false).1 = tm.attached :=
    hag.checkInstance tm.id
  rw [hatt]
  split
  · obtain ⟨hprev, himid⟩ := closeResponse_fields bg.inst
    refine ⟨⟨_, _, _, rfl⟩, hprev.trans hag.rprev, ?_⟩
    rw [← hag.imid]
    exact himid
  · exact ⟨⟨none, 0, 0, rfl⟩, hag.rprev, .inl hag.imid⟩

theorem agree_encode (tm : TaskManager) (h : Header) (env : Env) (bg : Building) (inst : Instance) :
    Agree inst (tm.encode h env bg inst).2.1 := by
  unfold TaskManager.encode
  split
  · exact .refl inst
  · exact agree_generateMessage _ _ _

/-- The log of `finishResponse` is the end of the report followed by at most one response. -/
theorem finishResponse_log (tm : TaskManager) (h : Header) (env : Env) :
    ∃ symbol i r tail, (tm.finishResponse h env).log =
      (if tm.attached then [.report .buildResponse .blockEnd symbol i r] else []) ++ tail ∧
      (tail = [] ∨ ∃ lookups, tail = [.respond lookups]) := by
  obtain ⟨⟨symbol, i, r, hlog⟩, -⟩ := closeBuilding_spec (agree_building tm h env)
  unfold TaskManager.finishResponse
  dsimp only
  rw [hlog]
  split
  · exact ⟨symbol, i, r, _, rfl, .inr ⟨_, rfl⟩⟩
  · exact ⟨symbol, i, r, [], (List.append_nil _).symm, .inl rfl⟩

/-- After the report has been closed nothing of the labels changes. -/
theorem agree_finishResponse (tm : TaskManager) (h : Header) (env : Env) :
    Agree (tm.closeBuilding (tm.building h env)).1 (tm.finishResponse h env).tm.inst := by
  unfold TaskManager.finishResponse
  dsimp only
  split
  · exact agree_encode tm h env _ _
  · exact agree_encode tm h env _ _

theorem finishResponse_inst (tm : TaskManager) (h : Header) (env : Env) :
    (tm.finishResponse h env).tm.inst.rprev = tm.inst.rprev ∧
      ((tm.finishResponse h env).tm.inst.imid = tm.inst.imid ∨
        (tm.finishResponse h env).tm.inst.imid = -1) := by
  obtain ⟨-, hprev, himid⟩ := closeBuilding_spec (agree_building tm h env)
  have hinst := agree_finishResponse tm h env
  rw [hinst.rprev, hinst.imid]
  exact ⟨hprev, himid⟩

theorem quiet_finishResponse (wait : List ListenerEvent) (tm : TaskManager) (h : Header) (env : Env) :
    Quiet tm wait (tm.finishResponse h env) := by
  obtain ⟨hprev, himid⟩ := finishResponse_inst tm h env
  refine ⟨?_, fun _ => hprev, himid⟩
  obtain ⟨symbol, i, r, tail, hlog, htail⟩ := finishResponse_log tm h env
  rw [hlog]
  intro a ha
  rcases List.mem_append.1 ha with ha | ha
  · split at ha
    · rw [List.mem_singleton] at ha
      subst ha
      exact ⟨rfl, rfl, rfl, rfl⟩
    · cases ha
  · rcases htail with rfl | ⟨lookups, rfl⟩
    · cases ha
    · rw [List.mem_singleton] at ha
      subst ha
      exact ⟨rfl, rfl, rfl, rfl⟩

theorem getNextQuery_imid {wait : List ListenerEvent} {q : Option Query}
    (hq : inst.getNextQuery wait = some (q, inst')) : inst'.imid = inst.imid ∨ inst'.imid = -1 := by
  unfold Instance.getNextQuery at hq
  split at hq
  · exact imid_waitQuery hq
  · cases hq
    exact .inl rfl

theorem getNextQuery_publishes {wait : List ListenerEvent} {q : Option Query}
    (hpub : OnlyPublishes wait) (hq : inst.getNextQuery wait = some (q, inst')) :
    ∃ query, inst' = { inst with query := query } := by
  unfold Instance.getNextQuery at hq
  split at hq
  · rename_i hrun
    have hfin : inst.finished = false := by simpa using (Bool.and_eq_true_iff.1 hrun).2
    exact (waitQuery_publishes hpub hfin hq).2
  · cases hq
    exact ⟨_, rfl⟩

/-- What holds after the wait for a query holds of the whole. -/
theorem Quiet.of_wait {q : Option Query} {r : Result}
    (hq : tm.inst.getNextQuery env.wait = some (q, inst'))
    (hr : Quiet { tm with inst := inst' } env.wait r) : Quiet tm env.wait r := by
  refine ⟨hr.internal, fun hpub => ?_, ?_⟩
  · obtain ⟨query, rfl⟩ := getNextQuery_publishes hpub hq
    exact hr.rprev hpub
  · rcases hr.imid with heq | heq
    · rw [heq]
      exact getNextQuery_imid hq
    · exact .inr heq

theorem Quiet.after {wait : List ListenerEvent} {r : Result} {log : List Action}
    (hr : Quiet tm wait r) (hlog : ∀ a ∈ log, a.Internal) : Quiet tm wait (r.after log) := by
  refine ⟨fun a ha => ?_, hr.rprev, hr.imid⟩
  rcases List.mem_append.1 ha with ha | ha
  · exact hlog a ha
  · exact hr.internal a ha

theorem quiet_buildResponse (tm : TaskManager) (h : Header) (env : Env) :
    Quiet tm env.wait (tm.buildResponse h env) := by
  have hend : ∀ (inst : Instance) mtype symbol,
      (inst.report .buildResponse mtype symbol).Internal :=
    fun inst mtype symbol => internal_report _ _ _ (.inl nofun)
  unfold TaskManager.buildResponse
  split
  · split
    · exact ⟨List.forall_mem_nil _, fun _ => rfl, .inl rfl⟩
    · rename_i inst' hq
      exact .of_wait hq (quiet_finishResponse _ _ _ _)
    · rename_i q inst' hq
      refine .of_wait hq ?_
      split
      · exact ⟨List.forall_mem_nil _, fun _ => rfl, .inl rfl⟩
      · rename_i symbol round hlabel
        dsimp only
        split
        · refine ⟨fun a ha => ?_, fun _ => rfl, .inl rfl⟩
          rcases List.mem_cons.1 ha with rfl | ha
          · exact hend _ _ _
          · rcases List.mem_cons.1 ha with rfl | ha
            · exact hend _ _ _
            · rw [List.mem_singleton] at ha
              subst ha
              exact ⟨rfl, rfl, rfl, rfl⟩
        · have hfin := quiet_finishResponse env.wait
            { tm with inst := { inst' with sprev := some round } } h env
          refine Quiet.after ⟨hfin.internal, hfin.rprev, hfin.imid⟩ fun a ha => ?_
          rw [List.mem_singleton] at ha
          subst ha
          exact hend _ _ _
  · exact quiet_finishResponse _ _ _ _

theorem quiet_processRequest (tm : TaskManager) (h : Header) (b : Body) (env : Env) :
    Quiet tm env.wait (tm.processRequest h b env) := by
  have hnone : ∀ st tasks, Quiet tm env.wait ⟨st, { tm with passiveTasks := tasks }, []⟩ :=
    fun st tasks => ⟨List.forall_mem_nil _, fun _ => rfl, .inl rfl⟩
  unfold TaskManager.processRequest
  split
  · exact ⟨List.forall_mem_nil _, fun _ => rfl, .inl rfl⟩
  · rename_i tasks _
    split
    · split
      · exact hnone _ _
      · exact hnone _ _
      · exact hnone _ _
    · exact hnone _ _
    · split
      · exact hnone _ _
      · rename_i kept _
        obtain ⟨retransmission, notReport, htm⟩ :=
          closeRequest_tm { tm with passiveTasks := kept } .processRequest
        dsimp only
        rw [htm]
        have hbuild := quiet_buildResponse { tm with
          passiveTasks := kept
          inst := { tm.inst with retransmission := retransmission, notReport := notReport } } h env
        refine Quiet.after ⟨hbuild.internal, hbuild.rprev, hbuild.imid⟩ ?_
        exact internal_closeRequest _ _

/-! ## A message -/

/-- The courses a call of `process_message` can take, with the actions of each and the instance it
leaves. -/
inductive MessageStep (tm : TaskManager) (h : Header) (b : Body) (env : Env)
    (reinject : Option (TaskManager → Result)) : List Action → Instance → Prop
  /-- The session is not attached to this IKE SA. -/
  | detached (hatt : tm.attached = false) : MessageStep tm h b env reinject [] tm.inst
  /-- The message is dropped as a retransmission. -/
  | discarded (hdis : tm.discards h = true) :
    MessageStep tm h b env reinject [.discard h] (tm.inst.count h)
  /-- There is no label to compare with. -/
  | fault {f : Fault} (hatt : tm.attached = true) (hdis : tm.discards h = false)
    (hlabel : (tm.inst.count h).reportRequest h b = .error f) :
    MessageStep tm h b env reinject [] tm.inst
  /-- The message does not parse. -/
  | unparsed {inst : Instance} {log : List Action} (mid : UInt32) (hatt : tm.attached = true)
    (hdis : tm.discards h = false)
    (hlabel : (tm.inst.count h).reportRequest h b = .ok (inst, log))
    (hparse : env.parse ≠ .success) :
    MessageStep tm h b env reinject
      (log ++ (TaskManager.closeRequest { tm with inst := inst, respondingMid := mid }
        .processMessage).2)
      (TaskManager.closeRequest { tm with inst := inst, respondingMid := mid }
        .processMessage).1.inst
  /-- The message parses, and is neither handed over nor the last fragment of another one. -/
  | ignored {inst : Instance} {log : List Action} (hatt : tm.attached = true)
    (hdis : tm.discards h = false)
    (hlabel : (tm.inst.count h).reportRequest h b = .ok (inst, log))
    (hparse : env.parse = .success) (hno : reinject = none → tm.accepts h b env = false) :
    MessageStep tm h b env reinject (log ++ [.parsed h]) inst
  /-- The message is handed to `process_request`. -/
  | handedOver {inst : Instance} {log : List Action} (hatt : tm.attached = true)
    (hdis : tm.discards h = false)
    (hlabel : (tm.inst.count h).reportRequest h b = .ok (inst, log))
    (hre : reinject = none) (hacc : tm.accepts h b env = true) :
    MessageStep tm h b env reinject
      (log ++ .parsed h :: .handOver h ::
        (TaskManager.processRequest { tm with inst := inst, hasCfg := true } h b env).log)
      (TaskManager.processRequest { tm with inst := inst, hasCfg := true } h b env).tm.inst
  /-- The message is the last fragment of another one, which is processed instead. -/
  | reinjected {inst : Instance} {log : List Action} {f : TaskManager → Result}
    (hatt : tm.attached = true) (hdis : tm.discards h = false)
    (hlabel : (tm.inst.count h).reportRequest h b = .ok (inst, log))
    (hre : reinject = some f) (hadd : env.addFragment = .success) :
    MessageStep tm h b env reinject
      (log ++ .parsed h :: (f { tm with inst := inst, hasCfg := true }).log)
      (f { tm with inst := inst, hasCfg := true }).tm.inst

theorem parseMessage_success (hparse : env.parse = .success) (mid : UInt32) :
    parseMessage h env mid = (.success, mid) := by
  unfold parseMessage
  rw [if_pos hparse]

theorem parseMessage_failure (hparse : env.parse ≠ .success) (mid : UInt32) :
    (parseMessage h env mid).1 ≠ .success := by
  unfold parseMessage
  rw [if_neg hparse]
  dsimp only
  split
  · nofun
  · split
    · split
      · nofun
      · dsimp only
        split <;> nofun
      · dsimp only
        split <;> nofun
      · exact hparse
    · exact hparse

theorem ofRequest_log (r : Result) : r.ofRequest.log = r.log := by
  unfold Result.ofRequest
  split <;> rfl

theorem ofRequest_inst (r : Result) : r.ofRequest.tm.inst = r.tm.inst := by
  unfold Result.ofRequest
  split <;> rfl

theorem handleFragment_cases (env : Env) (f : TaskManager → Result) :
    (env.addFragment = .success ∧ (handleFragment env f tm).log = (f tm).log ∧
      (handleFragment env f tm).tm = (f tm).tm) ∨
    ((handleFragment env f tm).log = [] ∧ (handleFragment env f tm).tm = tm) := by
  unfold handleFragment
  split
  · split
    · rename_i hadd
      refine .inl ⟨hadd, ?_⟩
      dsimp only
      split
      · exact ⟨rfl, rfl⟩
      · exact ⟨rfl, rfl⟩
    · exact .inr ⟨rfl, rfl⟩
  · exact .inr ⟨rfl, rfl⟩

/-- A fragment that has been parsed. -/
theorem dispatch_fragment (tm : TaskManager) (h : Header) (b : Body) (env : Env)
    (f : TaskManager → Result) :
    (env.addFragment = .success ∧
      (tm.dispatch h b env (some f)).log = (f { tm with hasCfg := true }).log ∧
      (tm.dispatch h b env (some f)).tm = (f { tm with hasCfg := true }).tm) ∨
    ((tm.dispatch h b env (some f)).log = [] ∧
      (tm.dispatch h b env (some f)).tm.inst = tm.inst) := by
  have hfrag : (env.addFragment = .success ∧
        (handleFragment env f { tm with hasCfg := true }).log = (f { tm with hasCfg := true }).log ∧
        (handleFragment env f { tm with hasCfg := true }).tm = (f { tm with hasCfg := true }).tm) ∨
      ((handleFragment env f { tm with hasCfg := true }).log = [] ∧
        (handleFragment env f { tm with hasCfg := true }).tm.inst = tm.inst) := by
    rcases handleFragment_cases env f with hre | ⟨hlog, htm⟩
    · exact .inl hre
    · exact .inr ⟨hlog, by rw [htm]⟩
  unfold TaskManager.dispatch TaskManager.dispatchRequest TaskManager.dispatchResponse
  dsimp only
  split
  · split
    · split
      · split
        · exact .inr ⟨rfl, rfl⟩
        · exact hfrag
      · split
        · exact hfrag
        · exact .inr ⟨rfl, rfl⟩
    · split
      · exact hfrag
      · exact .inr ⟨rfl, rfl⟩
  · exact .inr ⟨rfl, rfl⟩

/-- A whole message that has been parsed and is accepted. -/
theorem dispatch_accepted (hacc : tm.accepts h b env = true) :
    tm.dispatch h b env none =
      (TaskManager.processRequest { tm with hasCfg := true } h b env).ofRequest.after
        [.handOver h] := by
  simp only [TaskManager.accepts, Bool.and_eq_true, Bool.not_eq_true'] at hacc
  obtain ⟨⟨⟨⟨⟨-, hcfg⟩, hreq⟩, hwin⟩, hrej⟩, halt⟩ := hacc
  unfold TaskManager.dispatch
  rw [if_pos hcfg, if_pos hreq]
  unfold TaskManager.dispatchRequest
  rw [if_pos (show TaskManager.inWindow { tm with hasCfg := true } h b env = true from hwin),
    if_neg (by simp [hrej])]
  simp [halt]

/-- A whole message that has been parsed and is not accepted. -/
theorem dispatch_not_accepted (hparse : env.parse = .success) (hacc : tm.accepts h b env = false) :
    (tm.dispatch h b env none).log = [] ∧ (tm.dispatch h b env none).tm.inst = tm.inst := by
  unfold TaskManager.dispatch
  split
  · rename_i hcfg
    dsimp only
    split
    · rename_i hreq
      unfold TaskManager.dispatchRequest
      split
      · rename_i hwin
        split
        · exact ⟨rfl, rfl⟩
        · rename_i hrej
          have hwin' : tm.inWindow h b env = true := hwin
          have halt : env.altered = true := by
            simpa [TaskManager.accepts, hparse, hcfg, hreq, hwin', hrej] using hacc
          dsimp only
          rw [if_pos halt]
          exact ⟨rfl, rfl⟩
      · split
        · exact ⟨rfl, rfl⟩
        · exact ⟨rfl, rfl⟩
    · unfold TaskManager.dispatchResponse
      split
      · dsimp only
        split
        · exact ⟨rfl, rfl⟩
        · split
          · exact ⟨rfl, rfl⟩
          · exact ⟨rfl, rfl⟩
      · exact ⟨rfl, rfl⟩
  · exact ⟨rfl, rfl⟩

theorem discards_iff (hatt : tm.attached = true) :
    tm.discards h = true ↔ tm.inst.seen h = true ∧ 0 < (tm.inst.count h).imid := by
  unfold TaskManager.discards Instance.count
  rw [hatt]
  by_cases hseen : tm.inst.seen h = true
  · simp [hseen]
  · simp [hseen]

theorem takesAsNew_iff (hatt : tm.attached = true) (hdis : tm.discards h = false) :
    tm.takesAsNew h = true ↔ (tm.inst.count h).retransmission = 0 := by
  rw [TaskManager.takesAsNew, hatt, hdis]
  simp

theorem messageStep (tm : TaskManager) (h : Header) (b : Body) (env : Env)
    (reinject : Option (TaskManager → Result)) :
    MessageStep tm h b env reinject (tm.processMessageWith h b env reinject).log
      (tm.processMessageWith h b env reinject).tm.inst := by
  unfold TaskManager.processMessageWith
  by_cases hatt : tm.attached = true
  · rw [if_pos hatt]
    dsimp only
    by_cases hdis : tm.discards h = true
    · rw [if_pos ((discards_iff hatt).1 hdis)]
      exact .discarded hdis
    · rw [if_neg fun hc => hdis ((discards_iff hatt).2 hc)]
      rw [Bool.not_eq_true] at hdis
      cases hlabel : (tm.inst.count h).reportRequest h b with
      | error f => exact .fault hatt hdis hlabel
      | ok p =>
        obtain ⟨inst, log⟩ := p
        dsimp only
        unfold TaskManager.parseAndDispatch
        dsimp only
        by_cases hparse : env.parse = .success
        · rw [parseMessage_success hparse, if_pos rfl]
          cases reinject with
          | none =>
            cases hacc : tm.accepts h b env with
            | true =>
              rw [dispatch_accepted
                (show TaskManager.accepts { tm with inst := inst } h b env = true from hacc)]
              have hstep := MessageStep.handedOver hatt hdis hlabel rfl hacc
              simp only [Result.after, ofRequest_log, ofRequest_inst]
              exact hstep
            | false =>
              obtain ⟨hlog, hinst⟩ := dispatch_not_accepted hparse
                (show TaskManager.accepts { tm with inst := inst } h b env = false from hacc)
              simp only [Result.after]
              rw [hlog, hinst]
              exact .ignored hatt hdis hlabel hparse fun _ => hacc
          | some f =>
            simp only [Result.after]
            rcases dispatch_fragment { tm with inst := inst } h b env f with
              ⟨hadd, hlog, htm⟩ | ⟨hlog, hinst⟩
            · rw [hlog, htm]
              exact .reinjected hatt hdis hlabel rfl hadd
            · rw [hlog, hinst]
              exact .ignored hatt hdis hlabel hparse nofun
        · rw [if_neg (parseMessage_failure hparse _)]
          exact .unparsed _ hatt hdis hlabel hparse
  · rw [if_neg hatt]
    exact .detached (by simpa using hatt)

end Epdg
