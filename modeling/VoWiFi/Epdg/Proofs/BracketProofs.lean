import VoWiFi.Epdg.Proofs.TaskManagerProofs

/-!
# Reports form blocks

`process_message` opens a block before the message is parsed and leaves its closing to the code that
handles the message. The block is closed if the message does not parse, or if it gets through all
tasks of `process_request`; every other course leaves it open.
-/

namespace Epdg

open Report (MsgType)
open DyckStep (U D)

variable {tm : TaskManager} {inst : Instance} {h : Header} {b : Body} {env : Env}
  {log log' : List Action}

/-! ## Blocks -/

theorem brackets_append : brackets (log ++ log') = brackets log ++ brackets log' :=
  List.filterMap_append

theorem brackets_cons_none {a : Action} (ha : a.bracket? = none) :
    brackets (a :: log) = brackets log :=
  List.filterMap_cons_none ha

theorem bracketed_of_brackets (w : DyckWord) (hw : brackets log = w.toList) : Bracketed log :=
  ⟨w, hw.symm⟩

theorem bracketed_of_nil (hlog : brackets log = []) : Bracketed log :=
  bracketed_of_brackets 0 hlog

/-- One block. -/
def block : DyckWord := (0 : DyckWord).nest

theorem Bracketed.append (h₁ : Bracketed log) (h₂ : Bracketed log') : Bracketed (log ++ log') := by
  obtain ⟨w, hw⟩ := h₁
  obtain ⟨w', hw'⟩ := h₂
  refine ⟨w + w', ?_⟩
  rw [brackets_append, ← hw, ← hw']
  rfl

/-! ## Building a response -/

theorem brackets_finishResponse (tm : TaskManager) (h : Header) (env : Env) :
    brackets (tm.finishResponse h env).log = if tm.attached then [D] else [] := by
  obtain ⟨symbol, i, r, tail, hlog, htail⟩ := finishResponse_log tm h env
  have hnil : brackets tail = [] := by
    rcases htail with rfl | ⟨lookups, rfl⟩ <;> rfl
  rw [hlog, brackets_append, hnil, List.append_nil]
  split <;> rfl

/-- The response to a query of a running session is one block. -/
theorem brackets_buildResponse (h : Header) (hatt : tm.attached = true) (hinit : tm.inst.initiated = true)
    (hfin : tm.inst.finished = false) (hpub : OnlyPublishes env.wait) :
    brackets (tm.buildResponse h env).log = [] ∨ brackets (tm.buildResponse h env).log = [U, D] := by
  unfold TaskManager.buildResponse
  rw [if_pos hatt]
  have hnext : tm.inst.getNextQuery env.wait = tm.inst.waitQuery env.wait := by
    unfold Instance.getNextQuery
    rw [hinit, hfin]
    rfl
  cases hq : tm.inst.getNextQuery env.wait with
  | none => exact .inl rfl
  | some p =>
    obtain ⟨q, inst'⟩ := p
    obtain ⟨⟨q, rfl⟩, query, rfl⟩ := waitQuery_publishes hpub hfin (hnext ▸ hq)
    dsimp only
    split
    · exact .inl rfl
    · rename_i symbol round hlabel
      refine .inr ?_
      split
      · rfl
      · have hatt' : TaskManager.attached { tm with inst :=
            { tm.inst with query := query, sprev := some round } } = true := by
          rw [attached_iff] at hatt ⊢
          exact hatt
        unfold Result.after
        rw [brackets_append]
        rw [brackets_finishResponse, if_pos hatt']
        rfl

/-! ## Requests -/

theorem preProcess_done_iff (tasks : List TaskType) (o : ℕ → Status) :
    preProcess tasks o = .done ↔ ∀ i < tasks.length, o i = .success := by
  induction tasks generalizing o with
  | nil => exact iff_of_true rfl nofun
  | cons task tasks ih =>
    rw [List.length_cons, Nat.forall_lt_succ_left]
    unfold preProcess
    split
    · rename_i hs
      rw [ih]
      exact ⟨fun hall => ⟨hs, hall⟩, fun hall => hall.2⟩
    · rename_i hs
      exact iff_of_false nofun fun hall => by simp [hs] at hall
    · rename_i hs hd
      exact iff_of_false nofun fun hall => hs hall.1

theorem processTasks_some_iff (tasks : List TaskType) (o : ℕ → Status) :
    (∃ kept, processTasks tasks o = some kept) ↔
      ∀ i < tasks.length, o i = .success ∨ o i = .needMore := by
  induction tasks generalizing o with
  | nil => exact iff_of_true ⟨[], rfl⟩ nofun
  | cons task tasks ih =>
    rw [List.length_cons, Nat.forall_lt_succ_left]
    unfold processTasks
    split
    · rename_i hs
      rw [ih]
      exact ⟨fun hall => ⟨.inl hs, hall⟩, fun hall => hall.2⟩
    · rename_i hs
      have hmap : (∃ kept, (processTasks tasks (o ∘ Nat.succ)).map (task :: ·) = some kept) ↔
          ∃ kept, processTasks tasks (o ∘ Nat.succ) = some kept := by
        cases processTasks tasks (o ∘ Nat.succ) <;> simp
      rw [hmap, ih]
      exact ⟨fun hall => ⟨.inr hs, hall⟩, fun hall => hall.2⟩
    · rename_i hs hn
      exact iff_of_false nofun fun hall => hall.1.elim hs hn

/-- A request that a task fails to process leaves no report. -/
theorem brackets_processRequest_of_fail (hfail : ¬ TasksPass tm h b env) :
    brackets (tm.processRequest h b env).log = [] := by
  unfold TaskManager.processRequest
  split
  · rfl
  · rename_i tasks htasks
    split
    · split <;> rfl
    · rfl
    · rename_i hpre
      split
      · rfl
      · rename_i kept hproc
        refine absurd ⟨tasks, htasks, fun i hi => ⟨?_, ?_⟩⟩ hfail
        · exact (preProcess_done_iff _ _).1 hpre i hi
        · exact (processTasks_some_iff _ _).1 ⟨kept, hproc⟩ i hi

/-- A request that passes all tasks closes its block, and its response is a block of its own. -/
theorem brackets_processRequest_of_pass (hatt : tm.attached = true)
    (hpass : TasksPass tm h b env) (hinit : tm.inst.initiated = true)
    (hfin : tm.inst.finished = false) (hpub : OnlyPublishes env.wait) :
    ∃ response, (response = [] ∨ response = [U, D]) ∧
      brackets (tm.processRequest h b env).log = (if tm.Open then [D] else []) ++ response := by
  obtain ⟨tasks, htasks, hall⟩ := hpass
  have hpre : preProcess tasks env.preProcess = .done :=
    (preProcess_done_iff _ _).2 fun i hi => (hall i hi).1
  obtain ⟨kept, hproc⟩ := (processTasks_some_iff tasks env.process).2 fun i hi => (hall i hi).2
  have hlog := closeRequest_log (show TaskManager.attached { tm with passiveTasks := kept } = true
    from hatt) .processRequest
  obtain ⟨retransmission, notReport, htm⟩ :=
    closeRequest_tm { tm with passiveTasks := kept } .processRequest
  have hatt' : (TaskManager.closeRequest { tm with passiveTasks := kept } .processRequest).1.attached
      = true := by
    rw [attached_iff] at hatt ⊢
    rw [htm]
    exact hatt
  have hbuild := brackets_buildResponse h hatt' (by rw [htm]; exact hinit) (by rw [htm]; exact hfin)
    hpub
  refine ⟨_, hbuild, ?_⟩
  unfold TaskManager.processRequest
  rw [htasks]
  dsimp only
  rw [hpre]
  dsimp only
  rw [hproc]
  dsimp only [Result.after]
  rw [brackets_append, hlog]
  congr 1
  by_cases hopen : tm.Open
  · rw [if_pos hopen, if_pos (show TaskManager.Open { tm with passiveTasks := kept } from hopen)]
    rfl
  · rw [if_neg hopen, if_neg (show ¬ TaskManager.Open { tm with passiveTasks := kept } from hopen)]
    rfl

/-! ## Messages -/

/-- The block of a message is opened if the message is reported, and then it is open. -/
theorem brackets_label (hatt : tm.attached = true) (hdis : tm.discards h = false)
    (hlabel : (tm.inst.count h).reportRequest h b = .ok (inst, log)) :
    brackets log = (if tm.reports h then [U] else []) ∧
      (TaskManager.Open { tm with inst := inst } ↔ tm.reports h = true) ∧
      inst.ispi = tm.inst.ispi ∧ inst.rspi = tm.inst.rspi ∧ inst.initiated = tm.inst.initiated ∧
      inst.finished = tm.inst.finished := by
  have hcount : (tm.inst.count h).notReport = tm.inst.notReport ∧
      (tm.inst.count h).ispi = tm.inst.ispi ∧ (tm.inst.count h).rspi = tm.inst.rspi ∧
      (tm.inst.count h).initiated = tm.inst.initiated ∧
      (tm.inst.count h).finished = tm.inst.finished := by
    unfold Instance.count
    split <;> exact ⟨rfl, rfl, rfl, rfl, rfl⟩
  obtain ⟨hnr, hframe⟩ := hcount
  have hrep : tm.reports h = (decide ((tm.inst.count h).retransmission = 0) && h.isHandshake &&
      !(tm.inst.count h).notReport) := by
    unfold TaskManager.reports TaskManager.takesAsNew
    rw [hatt, hdis, hnr]
    rfl
  unfold TaskManager.Open
  rw [hrep]
  rcases reportRequest_cases hlabel with ⟨hre, rfl, rfl⟩ | ⟨hre, hex, rfl, rfl⟩ |
    ⟨hre, hex, r, -, rfl, rfl⟩ | ⟨hre, hex, rfl, rfl⟩
  · refine ⟨?_, ?_, hframe⟩
    · simp [hre, brackets]
    · simp [hre]
  · refine ⟨?_, ?_, hframe⟩
    · cases hn : (tm.inst.count h).notReport <;>
        simp [hre, hex, Header.isHandshake, brackets, Instance.report, Action.bracket?]
    · simp [hre, hex, Header.isHandshake]
  · refine ⟨?_, ?_, hframe⟩
    · cases hn : (tm.inst.count h).notReport <;>
        simp [hre, hex, Header.isHandshake, brackets, Instance.report, Action.bracket?]
    · simp [hre, hex, Header.isHandshake]
  · refine ⟨?_, ?_, hframe⟩
    · simp [hre, hex, brackets]
    · simp [hex]

/-- A message that does not parse closes its block at once. -/
theorem bracketed_unparsed (mid : UInt32) (hatt : tm.attached = true) (hdis : tm.discards h = false)
    (hlabel : (tm.inst.count h).reportRequest h b = .ok (inst, log)) :
    Bracketed (log ++ (TaskManager.closeRequest { tm with inst := inst, respondingMid := mid }
      .processMessage).2) := by
  obtain ⟨hlog, hopen, hi, hr, -⟩ := brackets_label hatt hdis hlabel
  have hatt' : TaskManager.attached { tm with inst := inst, respondingMid := mid } = true := by
    rw [attached_iff] at hatt ⊢
    rw [← hatt.1, ← hatt.2]
    exact ⟨hi, hr⟩
  have hopen' : TaskManager.Open { tm with inst := inst, respondingMid := mid } ↔
      tm.reports h = true := hopen
  by_cases hrep : tm.reports h = true
  · refine bracketed_of_brackets block ?_
    rw [brackets_append, hlog, if_pos hrep, closeRequest_log hatt', if_pos (hopen'.2 hrep)]
    rfl
  · refine bracketed_of_nil ?_
    rw [brackets_append, hlog, if_neg hrep, closeRequest_log hatt',
      if_neg fun ho => hrep (hopen'.1 ho)]
    rfl

/-- A request that is handed over closes its block if it passes the tasks. -/
theorem bracketed_handedOver (hatt : tm.attached = true) (hdis : tm.discards h = false)
    (hlabel : (tm.inst.count h).reportRequest h b = .ok (inst, log))
    (hrep : tm.reports h = true → TasksPass tm h b env)
    (hquery : TasksPass tm h b env →
      tm.inst.initiated = true ∧ tm.inst.finished = false ∧ OnlyPublishes env.wait) :
    Bracketed (log ++ .parsed h :: .handOver h ::
      (TaskManager.processRequest { tm with inst := inst, hasCfg := true } h b env).log) := by
  obtain ⟨hlog, hopen, hi, hr, hinit, hfin⟩ := brackets_label hatt hdis hlabel
  have hopen' : TaskManager.Open { tm with inst := inst, hasCfg := true } ↔ tm.reports h = true :=
    hopen
  -- the tasks of a request do not depend on the instance
  have htasks : TasksPass { tm with inst := inst, hasCfg := true } h b env ↔
      TasksPass tm h b env := Iff.rfl
  by_cases hpass : TasksPass tm h b env
  · obtain ⟨hi', hf', hpub⟩ := hquery hpass
    have hatt' : TaskManager.attached { tm with inst := inst, hasCfg := true } = true := by
      rw [attached_iff] at hatt ⊢
      rw [← hatt.1, ← hatt.2]
      exact ⟨hi, hr⟩
    obtain ⟨response, hresp, hbr⟩ := brackets_processRequest_of_pass hatt' (htasks.2 hpass)
      (hinit.trans hi') (hfin.trans hf') hpub
    have hall : brackets (log ++ .parsed h :: .handOver h ::
        (TaskManager.processRequest { tm with inst := inst, hasCfg := true } h b env).log) =
        (if tm.reports h then [U, D] else []) ++ response := by
      rw [brackets_append, hlog, brackets_cons_none rfl, brackets_cons_none rfl, hbr]
      by_cases hr' : tm.reports h = true
      · rw [if_pos hr', if_pos hr', if_pos (hopen'.2 hr')]
        rfl
      · rw [if_neg hr', if_neg hr', if_neg fun ho => hr' (hopen'.1 ho)]
        rfl
    rcases hresp with rfl | rfl
    · by_cases hr' : tm.reports h = true
      · exact bracketed_of_brackets block (by rw [hall, if_pos hr']; rfl)
      · exact bracketed_of_nil (by rw [hall, if_neg hr']; rfl)
    · by_cases hr' : tm.reports h = true
      · exact bracketed_of_brackets (block + block) (by rw [hall, if_pos hr']; rfl)
      · exact bracketed_of_brackets block (by rw [hall, if_neg hr']; rfl)
  · refine bracketed_of_nil ?_
    rw [brackets_append, hlog, if_neg fun hr' => hpass (hrep hr'), brackets_cons_none rfl,
      brackets_cons_none rfl, brackets_processRequest_of_fail fun hp => hpass (htasks.1 hp)]
    rfl

/-- A message that closes what it opens leaves blocks. -/
theorem bracketed_processMessage (d : Delivery) (hd : Closes h d tm) :
    Bracketed (processMessage h d tm).log := by
  -- on the fragments around a message, each of which must not open a block
  induction d generalizing tm with
  | whole b env =>
    obtain ⟨hrep, hquery⟩ := hd
    unfold processMessage
    generalize hlog : (tm.processMessageWith h b env none).log = log
    generalize hinst : (tm.processMessageWith h b env none).tm.inst = inst
    have hstep := messageStep tm h b env none
    rw [hlog, hinst] at hstep
    cases hstep with
    | detached hatt => exact bracketed_of_nil rfl
    | discarded hdis => exact bracketed_of_nil rfl
    | fault hatt hdis hlabel => exact bracketed_of_nil rfl
    | unparsed mid hatt hdis hlabel hparse => exact bracketed_unparsed mid hatt hdis hlabel
    | ignored hatt hdis hlabel hparse hno =>
      refine bracketed_of_nil ?_
      rw [brackets_append, (brackets_label hatt hdis hlabel).1, if_neg]
      · rfl
      · intro hr
        have hacc := (hrep hr hparse).1
        rw [hno rfl] at hacc
        cases hacc
    | handedOver hatt hdis hlabel hre hacc =>
      have hparse : env.parse = .success := by
        simp only [TaskManager.accepts, Bool.and_eq_true, decide_eq_true_eq] at hacc
        exact hacc.1.1.1.1.1
      exact bracketed_handedOver hatt hdis hlabel (fun hr => (hrep hr hparse).2)
        (hquery hatt hacc)
    | reinjected hatt hdis hlabel hre hadd => cases hre
  | fragment b env reassembled ih =>
    obtain ⟨hrep, hinner⟩ := hd
    unfold processMessage
    generalize hlog : (tm.processMessageWith h b env _).log = log
    generalize hinst : (tm.processMessageWith h b env _).tm.inst = inst
    have hstep := messageStep tm h b env (some (processMessage h reassembled))
    rw [hlog, hinst] at hstep
    cases hstep with
    | detached hatt => exact bracketed_of_nil rfl
    | discarded hdis => exact bracketed_of_nil rfl
    | fault hatt hdis hlabel => exact bracketed_of_nil rfl
    | unparsed mid hatt hdis hlabel hparse => exact bracketed_unparsed mid hatt hdis hlabel
    | ignored hatt hdis hlabel hparse hno =>
      refine bracketed_of_nil ?_
      rw [brackets_append, (brackets_label hatt hdis hlabel).1, hrep]
      rfl
    | handedOver hatt hdis hlabel hre hacc => cases hre
    | reinjected hatt hdis hlabel hre hadd =>
      cases hre
      have hclosed := hinner hadd
      unfold TaskManager.afterFragment at hclosed
      rw [hlabel] at hclosed
      refine Bracketed.append ?_ ?_
      · refine bracketed_of_nil ?_
        rw [(brackets_label hatt hdis hlabel).1, hrep]
        rfl
      · obtain ⟨w, hw⟩ := ih hclosed
        exact ⟨w, hw⟩

/-! ## Conversations -/

/-- Every message closes what it opens. -/
def ClosesAll (c : Conversation) (e : Incoming) : Prop :=
  e.Meets (fun _ h d tm => Closes h d tm) c

theorem bracketed_next {c : Conversation} {e : Incoming} (hc : Bracketed c.log)
    (he : ClosesAll c e) : Bracketed (c.next e).log := by
  cases e with
  | message h d =>
    unfold Conversation.next
    dsimp only
    split
    · rename_i halive
      exact hc.append (bracketed_processMessage d (he halive))
    · exact hc
  | listener e => exact hc

/-- In every conversation whose messages close what they open, the reports form blocks, and none is
open when a call returns. -/
theorem bracketed_conversation (tm : TaskManager) (es : List Incoming)
    (hes : Run.Along Conversation.next ClosesAll ⟨tm, true, []⟩ es) :
    ∀ pre, pre <+: es → Bracketed (Run.after Conversation.next ⟨tm, true, []⟩ pre).log := by
  rintro pre ⟨post, rfl⟩
  exact Run.invariant (I := fun c => Bracketed c.log) (fun _ _ => bracketed_next)
    (bracketed_of_nil rfl) (Run.along_append.1 hes).1

/-- A handshake of two messages in order. -/
theorem bracketed_sample :
    Bracketed (Run.after Conversation.next ⟨sampleManager, true, []⟩
      [sampleInit, sampleAuth 1]).log := by
  refine bracketed_conversation sampleManager [sampleInit, sampleAuth 1]
    ⟨fun _ => ⟨fun _ _ => ⟨by decide, ?_⟩, ?_⟩, fun _ => ⟨fun _ _ => ⟨by decide, ?_⟩, ?_⟩, trivial⟩
    _ (List.prefix_refl _)
  · exact ⟨_, rfl, fun _ _ => ⟨rfl, .inr rfl⟩⟩
  · intro _ _ _
    refine ⟨rfl, rfl, ?_⟩
    rintro e (_ | ⟨_, ⟨⟩⟩)
    exact ⟨_, rfl⟩
  · exact ⟨_, rfl, fun _ _ => ⟨rfl, .inr rfl⟩⟩
  · intro _ _ _
    refine ⟨rfl, rfl, ?_⟩
    rintro e (_ | ⟨_, ⟨⟩⟩)
    exact ⟨_, rfl⟩

/-- An IKE_AUTH request with a message ID outside the window is reported and then ignored, so that
its block stays open. -/
theorem bracketed_out_of_window :
    ¬ Bracketed (Run.after Conversation.next ⟨sampleManager, true, []⟩
      [sampleInit, sampleAuth 5]).log := by
  rintro ⟨w, hw⟩
  have hlog : brackets (Run.after Conversation.next ⟨sampleManager, true, []⟩
      [sampleInit, sampleAuth 5]).log = [U, D, U, D, U] := by decide
  have hcount := w.count_U_eq_count_D
  rw [hw, hlog] at hcount
  cases hcount

end Epdg
