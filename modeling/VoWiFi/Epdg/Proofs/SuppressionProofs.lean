import VoWiFi.Epdg.Proofs.BracketProofs

/-!
# When reports stay suppressed

Arriving and closing are the only two changes of the fields that suppress reports; everything between
them and behind them leaves the fields alone. A repetition is counted when it arrives and counted back
when it is closed. A message that is not of the handshake sets `not_report` without being counted: closing
it takes `retransmission` below zero, and a message that is not closed leaves `not_report` set.
-/

namespace Epdg

variable {tm : TaskManager} {inst : Instance} {h : Header} {b : Body} {env : Env} {log : List Action}
  {st : Status}

/-! ## Arriving and closing -/

theorem suppression_closeRequest (tm : TaskManager) (hatt : tm.attached = true) (by_ : Reporter) :
    (tm.closeRequest by_).1.inst.suppression = tm.inst.suppression.close := by
  unfold TaskManager.closeRequest Suppression.close
  rw [if_pos hatt]
  by_cases hopen : tm.inst.notReport = false ∧ tm.inst.retransmission = 0
  · rw [if_pos hopen]
    exact (if_pos hopen).symm
  · rw [if_neg hopen]
    exact (if_neg hopen).symm

theorem suppression_reportRequest (hlabel : (tm.inst.count h).reportRequest h b = .ok (inst, log)) :
    inst.suppression = tm.entered h := by
  unfold TaskManager.entered
  dsimp only
  rcases reportRequest_cases hlabel with ⟨hre, rfl, -⟩ | ⟨hre, hex, rfl, -⟩ | ⟨hre, hex, r, -, rfl, -⟩ |
    ⟨hre, hhs, rfl, -⟩
  · rw [if_neg fun hc => hre hc.1]
  · have hhs : h.isHandshake = true := by simp [Header.isHandshake, hex]
    rw [if_neg (by simp [hhs])]
    rfl
  · have hhs : h.isHandshake = true := by simp [Header.isHandshake, hex]
    rw [if_neg (by simp [hhs])]
    rfl
  · rw [if_pos ⟨hre, hhs⟩]
    exact congrArg (Suppression.mk true) hre

/-! ## Between and behind them -/

theorem suppression_closeBuilding (tm : TaskManager) (h : Header) (env : Env) :
    (tm.closeBuilding (tm.building h env)).1.suppression = tm.inst.suppression := by
  have hbuild := (agree_building tm h env).suppression
  rw [← hbuild]
  unfold TaskManager.closeBuilding
  split
  · rcases closeResponse_cases (tm.building h env).inst with heq | ⟨e, -, heq⟩
    · rw [heq]
      rfl
    · rw [heq]
      rfl
  · rfl

theorem suppression_finishResponse (tm : TaskManager) (h : Header) (env : Env) :
    (tm.finishResponse h env).tm.inst.suppression = tm.inst.suppression :=
  (agree_finishResponse tm h env).suppression.trans (suppression_closeBuilding tm h env)

theorem suppression_buildResponse (hpub : OnlyPublishes env.wait) (tm : TaskManager) (h : Header) :
    (tm.buildResponse h env).tm.inst.suppression = tm.inst.suppression := by
  unfold TaskManager.buildResponse
  split
  · split
    · rfl
    · rename_i inst' hq
      obtain ⟨query, rfl⟩ := getNextQuery_publishes hpub hq
      exact suppression_finishResponse _ h env
    · rename_i q inst' hq
      obtain ⟨query, rfl⟩ := getNextQuery_publishes hpub hq
      split
      · rfl
      · dsimp only
        split
        · rfl
        · exact suppression_finishResponse _ h env
  · exact suppression_finishResponse tm h env

theorem suppression_processRequest (tm : TaskManager) (hatt : tm.attached = true)
    (hpub : OnlyPublishes env.wait) (h : Header) (b : Body) :
    (tm.processRequest h b env).tm.inst.suppression =
      if tm.passesTasks h b env then tm.inst.suppression.close else tm.inst.suppression := by
  unfold TaskManager.processRequest
  split
  · rename_i htasks
    rw [if_neg (by simp [TaskManager.passesTasks, htasks])]
  · rename_i tasks htasks
    split
    · rename_i hpre
      rw [if_neg (by simp [TaskManager.passesTasks, htasks, hpre])]
      split <;> rfl
    · rename_i hpre
      rw [if_neg (by simp [TaskManager.passesTasks, htasks, hpre])]
    · rename_i hpre
      split
      · rename_i hproc
        rw [if_neg (by simp [TaskManager.passesTasks, htasks, hpre, hproc])]
      · rename_i kept hproc
        rw [if_pos (by simp [TaskManager.passesTasks, htasks, hpre, hproc])]
        have hclose := suppression_closeRequest { tm with passiveTasks := kept } hatt .processRequest
        exact (suppression_buildResponse hpub _ h).trans hclose

/-! ## Fragments -/

theorem handleFragment_reinjects (tm : TaskManager) (f : TaskManager → Result)
    (hfrag : (env.defrag && env.addFragment = .success) = true) :
    (handleFragment env f tm).tm = (f tm).tm ∧
      ((handleFragment env f tm).ret = .status st → ∃ st', (f tm).ret = .status st') := by
  rw [Bool.and_eq_true, decide_eq_true_eq] at hfrag
  unfold handleFragment
  rw [if_pos hfrag.1, if_pos hfrag.2]
  dsimp only
  split
  · rename_i hsuccess
    exact ⟨rfl, fun _ => ⟨_, hsuccess⟩⟩
  · exact ⟨rfl, fun hret => ⟨st, hret⟩⟩

theorem handleFragment_keeps (tm : TaskManager) (f : TaskManager → Result)
    (hfrag : (env.defrag && env.addFragment = .success) = false) : (handleFragment env f tm).tm = tm := by
  unfold handleFragment
  split
  · rename_i hdefrag
    rw [if_neg (by simpa [hdefrag] using hfrag)]
  · rfl

/-- A fragment that has been parsed is given to `handle_fragment` or ignored. -/
theorem dispatch_takesFragment (tm : TaskManager) (h : Header) (b : Body) (env : Env)
    (f : TaskManager → Result) :
    (tm.takesFragment h b env = true ∧
      tm.dispatch h b env (some f) = handleFragment env f { tm with hasCfg := true }) ∨
    (tm.takesFragment h b env = false ∧ (tm.dispatch h b env (some f)).tm.inst = tm.inst) := by
  unfold TaskManager.takesFragment TaskManager.dispatch TaskManager.dispatchRequest
    TaskManager.dispatchResponse
  dsimp only
  have hwindow : TaskManager.inWindow { tm with hasCfg := true } h b env = tm.inWindow h b env := rfl
  rw [hwindow]
  cases hcfg : tm.hasCfg || env.cfgFound with
  | false => exact .inr ⟨by simp, by simp⟩
  | true =>
    cases hreq : h.request with
    | true =>
      cases hwin : tm.inWindow h b env with
      | true => cases hrej : rejectRequest h.exchange env <;> simp
      | false =>
        by_cases hold : h.mid = tm.respondingMid - 1 ∧ tm.respondingPackets ∧
            ¬ (h.mid = 0 ∧ looksLikeMidSync h b false)
        · exact .inl ⟨decide_eq_true hold, if_pos hold⟩
        · refine .inr ⟨decide_eq_false hold, ?_⟩
          simp only [Bool.false_eq_true, if_false, if_true]
          rw [if_neg hold]
    | false =>
      by_cases hmid : h.mid = tm.initiatingMid
      · left
        simp [hmid]
      · right
        simp [hmid]

/-! ## A message -/

/-- What a call makes of a message that it neither drops nor fails to label. -/
theorem processMessageWith_labelled (hatt : tm.attached = true) (hdis : tm.discards h = false)
    (hlabel : (tm.inst.count h).reportRequest h b = .ok (inst, log))
    (reinject : Option (TaskManager → Result)) :
    tm.processMessageWith h b env reinject =
      (TaskManager.parseAndDispatch { tm with inst := inst } h b env reinject).after log := by
  unfold TaskManager.processMessageWith
  rw [if_pos hatt]
  dsimp only
  rw [if_neg, hlabel]
  rw [← discards_iff hatt, hdis]
  exact Bool.false_ne_true

/-- A call that returns has labelled the message. -/
theorem reportRequest_of_returns {reinject : Option (TaskManager → Result)} (hatt : tm.attached = true)
    (hdis : tm.discards h = false) (hret : (tm.processMessageWith h b env reinject).ret = .status st) :
    ∃ inst log, (tm.inst.count h).reportRequest h b = .ok (inst, log) := by
  cases hlabel : (tm.inst.count h).reportRequest h b with
  | ok p => exact ⟨p.1, p.2, rfl⟩
  | error f =>
    unfold TaskManager.processMessageWith at hret
    rw [if_pos hatt] at hret
    dsimp only at hret
    rw [if_neg, hlabel] at hret
    · cases hret
    · rw [← discards_iff hatt, hdis]
      exact Bool.false_ne_true

/-- Labelling a message does not detach the session. -/
theorem attached_labelled (hatt : tm.attached = true) (hdis : tm.discards h = false)
    (hlabel : (tm.inst.count h).reportRequest h b = .ok (inst, log)) :
    TaskManager.attached { tm with inst := inst } = true := by
  obtain ⟨-, -, hispi, hrspi, -⟩ := brackets_label hatt hdis hlabel
  rw [attached_iff] at hatt ⊢
  exact ⟨hispi.trans hatt.1, hrspi.trans hatt.2⟩

/-- A message that does not parse is closed at once. -/
theorem suppression_unparsed {reinject : Option (TaskManager → Result)} (hatt : tm.attached = true)
    (hdis : tm.discards h = false) (hlabel : (tm.inst.count h).reportRequest h b = .ok (inst, log))
    (hparse : env.parse ≠ .success) :
    (tm.processMessageWith h b env reinject).tm.inst.suppression = (tm.entered h).close := by
  rw [processMessageWith_labelled hatt hdis hlabel]
  unfold TaskManager.parseAndDispatch
  dsimp only
  rw [if_neg (parseMessage_failure hparse _)]
  rw [← suppression_reportRequest hlabel]
  exact suppression_closeRequest { tm with inst := inst, respondingMid := (parseMessage h env _).2 }
    (attached_labelled hatt hdis hlabel) .processMessage

theorem suppression_whole (hatt : tm.attached = true) (hdis : tm.discards h = false)
    (hpub : OnlyPublishes env.wait) (hret : (tm.processMessageWith h b env none).ret = .status st) :
    (tm.processMessageWith h b env none).tm.inst.suppression =
      if tm.closes h b env then (tm.entered h).close else tm.entered h := by
  obtain ⟨inst, log, hlabel⟩ := reportRequest_of_returns hatt hdis hret
  by_cases hparse : env.parse = .success
  · have hentered := suppression_reportRequest hlabel
    rw [processMessageWith_labelled hatt hdis hlabel]
    unfold TaskManager.parseAndDispatch
    dsimp only
    rw [parseMessage_success hparse, if_pos rfl]
    cases hacc : tm.accepts h b env with
    | true =>
      have hcloses : tm.closes h b env = tm.passesTasks h b env := by
        simp [TaskManager.closes, hparse, hacc]
      rw [hcloses, ← hentered, dispatch_accepted
        (show TaskManager.accepts { tm with inst := inst } h b env = true from hacc)]
      simp only [Result.after, ofRequest_inst]
      exact suppression_processRequest { tm with inst := inst, hasCfg := true }
        (attached_labelled hatt hdis hlabel) hpub h b
    | false =>
      have hcloses : tm.closes h b env = false := by
        simp [TaskManager.closes, hparse, hacc]
      obtain ⟨-, hinst⟩ := dispatch_not_accepted hparse
        (show TaskManager.accepts { tm with inst := inst } h b env = false from hacc)
      rw [hcloses, ← hentered]
      exact congrArg Instance.suppression hinst
  · rw [suppression_unparsed hatt hdis hlabel hparse, if_pos]
    simp [TaskManager.closes, hparse]

/-- What becomes of a fragment that parses: it leaves the suppression as it found it, unless it completes
a message. -/
theorem suppression_fragment {f : TaskManager → Result} (hatt : tm.attached = true)
    (hdis : tm.discards h = false) (hparse : env.parse = .success)
    (hret : (tm.processMessageWith h b env (some f)).ret = .status st) :
    (tm.reinjects h b env = true ∧
      (tm.processMessageWith h b env (some f)).tm = (f (tm.afterFragment h b)).tm ∧
      ∃ st', (f (tm.afterFragment h b)).ret = .status st') ∨
    (tm.reinjects h b env = false ∧
      (tm.processMessageWith h b env (some f)).tm.inst.suppression = tm.entered h) := by
  obtain ⟨inst, log, hlabel⟩ := reportRequest_of_returns hatt hdis hret
  have hafter : tm.afterFragment h b = { tm with inst := inst, hasCfg := true } := by
    rw [TaskManager.afterFragment, hlabel]
  have hentered := suppression_reportRequest hlabel
  have hcall : tm.processMessageWith h b env (some f) =
      ((TaskManager.dispatch { tm with inst := inst } h b env (some f)).after [.parsed h]).after log := by
    rw [processMessageWith_labelled hatt hdis hlabel]
    unfold TaskManager.parseAndDispatch
    dsimp only
    rw [parseMessage_success hparse, if_pos rfl]
  have hreinjects : tm.reinjects h b env =
      (tm.takesFragment h b env && (env.defrag && env.addFragment = .success)) := by
    simp [TaskManager.reinjects, hparse, Bool.and_assoc]
  rw [hcall] at hret ⊢
  rw [hafter, hreinjects]
  rcases dispatch_takesFragment { tm with inst := inst } h b env f with ⟨htakes, heq⟩ | ⟨htakes, hinst⟩
  · have htakes' : tm.takesFragment h b env = true := htakes
    rw [heq] at hret ⊢
    rw [htakes', Bool.true_and]
    cases hfrag : env.defrag && env.addFragment = .success with
    | true =>
      obtain ⟨htm, hst⟩ := handleFragment_reinjects { tm with inst := inst, hasCfg := true } f hfrag
      exact .inl ⟨rfl, htm, hst hret⟩
    | false =>
      refine .inr ⟨rfl, ?_⟩
      rw [← hentered]
      exact congrArg (fun t => t.inst.suppression)
        (handleFragment_keeps { tm with inst := inst, hasCfg := true } f hfrag)
  · have htakes' : tm.takesFragment h b env = false := htakes
    rw [htakes', Bool.false_and, ← hentered]
    exact .inr ⟨rfl, congrArg Instance.suppression hinst⟩

/-! ## Clean messages -/

theorem count_suppression (hre : 0 ≤ tm.inst.retransmission) :
    (tm.inst.count h).notReport = tm.inst.notReport ∧ 0 ≤ (tm.inst.count h).retransmission := by
  unfold Instance.count
  split
  · exact ⟨rfl, by dsimp only; omega⟩
  · exact ⟨rfl, le_refl _⟩

/-- What a message does to the suppression when it arrives. -/
theorem entered_eq (hatt : tm.attached = true) (hdis : tm.discards h = false)
    (hre : 0 ≤ tm.inst.retransmission) :
    (tm.takesAsNew h = true ∧ tm.entered h = ⟨tm.inst.notReport || !h.isHandshake, 0⟩) ∨
    (tm.takesAsNew h = false ∧ (tm.entered h).notReport = tm.inst.notReport ∧
      0 < (tm.entered h).retransmission) := by
  obtain ⟨hnr, hpos⟩ := count_suppression (h := h) hre
  have hnew := takesAsNew_iff hatt hdis
  unfold TaskManager.entered
  dsimp only
  by_cases hzero : (tm.inst.count h).retransmission = 0
  · refine .inl ⟨hnew.2 hzero, ?_⟩
    cases hhs : h.isHandshake with
    | true =>
      rw [if_neg (by simp)]
      simp [Instance.suppression, hnr, hzero]
    | false =>
      rw [if_pos ⟨hzero, rfl⟩]
      simp
  · refine .inr ⟨Bool.eq_false_iff.2 fun hc => hzero (hnew.1 hc), ?_⟩
    rw [if_neg fun hc => hzero hc.1]
    exact ⟨hnr, by simp only [Instance.suppression]; omega⟩

theorem clean_iff (s : Suppression) : s.Clean ↔ s.notReport = false ∧ 0 ≤ s.retransmission :=
  ⟨fun hs => ⟨hs.notReport, hs.retransmission⟩, fun hs => ⟨hs.1, hs.2⟩⟩

theorem clean_entered_iff (hatt : tm.attached = true) (hdis : tm.discards h = false)
    (hre : 0 ≤ tm.inst.retransmission) :
    (tm.entered h).Clean ↔
      tm.inst.notReport = false ∧ (tm.takesAsNew h = true → h.isHandshake = true) := by
  rw [clean_iff]
  rcases entered_eq hatt hdis hre with ⟨hnew, heq⟩ | ⟨hnew, hnr, hpos⟩
  · rw [heq, hnew]
    simp
  · rw [hnr, hnew]
    simp [hpos.le]

/-- Closing helps a repetition, and hurts a new message whose report is suppressed. -/
theorem clean_close_iff (hatt : tm.attached = true) (hdis : tm.discards h = false)
    (hre : 0 ≤ tm.inst.retransmission) :
    (tm.entered h).close.Clean ↔
      (tm.takesAsNew h = true → h.isHandshake = true ∧ tm.inst.notReport = false) := by
  rw [clean_iff, Suppression.close]
  rcases entered_eq hatt hdis hre with ⟨hnew, heq⟩ | ⟨hnew, hnr, hpos⟩
  · rw [heq, hnew]
    cases tm.inst.notReport <;> cases h.isHandshake <;> simp
  · rw [if_neg (by omega), hnew]
    simp
    omega

/-- The call for a message that is not of the session, or is dropped, keeps `not_report`. -/
theorem clean_unhandled_iff {reinject : Option (TaskManager → Result)} (hre : 0 ≤ tm.inst.retransmission)
    (hno : ¬ (tm.attached = true ∧ tm.discards h = false)) :
    (tm.processMessageWith h b env reinject).tm.inst.suppression.Clean ↔ tm.inst.notReport = false := by
  rw [clean_iff]
  unfold TaskManager.processMessageWith
  by_cases hatt : tm.attached = true
  · have hdis : tm.discards h = true := by simpa [hatt] using hno
    obtain ⟨hnr, hpos⟩ := count_suppression (h := h) hre
    rw [if_pos hatt]
    dsimp only
    rw [if_pos ((discards_iff hatt).1 hdis)]
    simp [Instance.suppression, hnr, hpos]
  · rw [if_neg hatt]
    simp [Instance.suppression, hre]

theorem takesAsNew_unhandled (hno : ¬ (tm.attached = true ∧ tm.discards h = false)) :
    tm.takesAsNew h = false := by
  unfold TaskManager.takesAsNew
  cases hatt : tm.attached with
  | false => rfl
  | true =>
    have hdis : tm.discards h = true := by simpa [hatt] using hno
    rw [hdis]
    rfl

/-- From a state with a count that is not negative, a call that returns leaves nothing suppressed exactly if
the message recovers from the suppression there is, or brings none. -/
theorem clean_processMessage_iff (d : Delivery) (hpub : d.OnlyPublishes)
    (hre : 0 ≤ tm.inst.retransmission) (hret : (processMessage h d tm).ret = .status st) :
    (processMessage h d tm).tm.inst.suppression.Clean ↔
      if tm.inst.notReport then Recovers h d tm else Unsuppressing h d tm := by
  induction d generalizing tm st with
  | whole b env =>
    unfold processMessage at hret ⊢
    unfold Recovers Unsuppressing
    by_cases hin : tm.attached = true ∧ tm.discards h = false
    · obtain ⟨hatt, hdis⟩ := hin
      rw [suppression_whole hatt hdis hpub hret]
      cases hcloses : tm.closes h b env with
      | true =>
        rw [if_pos rfl, clean_close_iff hatt hdis hre]
        cases tm.inst.notReport <;> cases tm.takesAsNew h <;> simp [hatt, hdis]
      | false =>
        rw [if_neg Bool.false_ne_true, clean_entered_iff hatt hdis hre]
        cases tm.inst.notReport <;> simp
    · rw [clean_unhandled_iff hre hin, takesAsNew_unhandled hin]
      cases tm.inst.notReport <;> simp
      intro hatt hdis
      exact absurd ⟨hatt, hdis⟩ hin
  | fragment b env reassembled ih =>
    unfold processMessage at hret ⊢
    unfold Recovers Unsuppressing
    by_cases hin : tm.attached = true ∧ tm.discards h = false
    · obtain ⟨hatt, hdis⟩ := hin
      by_cases hparse : env.parse = .success
      · rcases suppression_fragment hatt hdis hparse hret with ⟨hre', htm, st', hret'⟩ | ⟨hre', hsup⟩
        · obtain ⟨inst, log, hlabel⟩ := reportRequest_of_returns hatt hdis hret
          have hafter : (tm.afterFragment h b).inst.suppression = tm.entered h := by
            rw [TaskManager.afterFragment, hlabel]
            exact suppression_reportRequest hlabel
          have hnr : (tm.afterFragment h b).inst.notReport = (tm.entered h).notReport :=
            congrArg Suppression.notReport hafter
          have hcount : (tm.afterFragment h b).inst.retransmission = (tm.entered h).retransmission :=
            congrArg Suppression.retransmission hafter
          -- the completed message meets the suppression that its last fragment has brought
          rcases entered_eq hatt hdis hre with ⟨hnew, heq⟩ | ⟨hnew, hkeep, hpos⟩
          · rw [htm, ih hpub.2 (by rw [hcount, heq]) hret', hnr, heq, hnew]
            cases tm.inst.notReport <;> cases h.isHandshake <;> simp [hre', hparse, hatt, hdis]
          · rw [htm, ih hpub.2 (by rw [hcount]; exact hpos.le) hret', hnr, hkeep, hnew]
            cases tm.inst.notReport <;> simp [hre', hparse, hatt, hdis]
        · rw [hsup, clean_entered_iff hatt hdis hre]
          cases tm.inst.notReport <;> cases tm.takesAsNew h <;> cases h.isHandshake <;>
            simp [hre', hparse]
      · obtain ⟨inst, log, hlabel⟩ := reportRequest_of_returns hatt hdis hret
        have hno : tm.reinjects h b env = false := by simp [TaskManager.reinjects, hparse]
        rw [suppression_unparsed hatt hdis hlabel hparse, clean_close_iff hatt hdis hre]
        cases tm.inst.notReport <;> cases tm.takesAsNew h <;> cases h.isHandshake <;>
          simp [hno, hparse, hatt, hdis]
    · rw [clean_unhandled_iff hre hin, takesAsNew_unhandled hin]
      cases tm.inst.notReport <;> simp
      · intro hatt hdis
        exact absurd ⟨hatt, hdis⟩ hin
      · intro hatt hdis
        exact absurd ⟨hatt, hdis⟩ hin

/-! ## Conversations -/

/-- As long as it takes messages, the IKE SA has nothing suppressed. -/
def Conversation.Unsuppressed (c : Conversation) : Prop := c.alive = true → c.tm.inst.suppression.Clean

theorem unsuppressed_start (tm : TaskManager) : tm.start.Unsuppressed := by
  intro _
  have hsup : tm.start.tm.inst.suppression = ⟨false, 0⟩ := by
    unfold TaskManager.start
    dsimp only
    rw [checkInstance_snd]
    rfl
  rw [hsup]
  exact ⟨rfl, le_refl _⟩

theorem cleanAfter_iff {c : Conversation} {e : Incoming} (hc : c.Unsuppressed) (he : e.InSession) :
    CleanAfter c e ↔ UnsuppressingAll c e := by
  cases e with
  | listener e => exact Iff.rfl
  | message h d =>
    refine forall_congr' fun halive => forall_congr' fun st => forall_congr' fun hret => ?_
    have hclean := hc halive
    rw [clean_processMessage_iff d he hclean.retransmission hret, if_neg]
    rw [show c.tm.inst.notReport = false from hclean.notReport]
    exact Bool.false_ne_true

theorem Conversation.Unsuppressed.next {c : Conversation} {e : Incoming} (hc : c.Unsuppressed)
    (he : CleanAfter c e) (hin : e.InSession) : (c.next e).Unsuppressed := by
  cases e with
  | listener e =>
    obtain ⟨q, rfl⟩ := hin
    exact fun halive => hc halive
  | message h d =>
    by_cases halive : c.alive = true
    · have hnext : c.next (.message h d) = ⟨(processMessage h d c.tm).tm, (processMessage h d c.tm).ret.alive,
          c.log ++ (processMessage h d c.tm).log⟩ := if_pos halive
      rw [hnext]
      intro halive'
      cases hret : (processMessage h d c.tm).ret with
      | status st => exact he halive st hret
      | blocked =>
        rw [hret] at halive'
        cases halive'
      | fault f =>
        rw [hret] at halive'
        cases halive'
    · have hnext : c.next (.message h d) = c := if_neg halive
      rw [hnext]
      exact hc

/-- A message of the handshake gets a label, and the label is reported if nothing is suppressed. -/
theorem reportRequest_handshake (hnr : inst.notReport = false) (hre : inst.retransmission = 0)
    (hhs : h.isHandshake = true) (hprev : h.exchange = .ikeAuth → inst.rprev ≠ none) :
    ∃ inst' log, inst.reportRequest h b = .ok (inst', log) ∧ requestLabels log ≠ [] := by
  unfold Instance.reportRequest Instance.label
  rw [if_pos hre]
  cases hex : h.exchange with
  | ikeSaInit =>
    refine ⟨_, _, rfl, ?_⟩
    rw [if_neg (by simp [hnr])]
    exact List.cons_ne_nil _ _
  | ikeAuth =>
    obtain ⟨r, hr⟩ := Option.ne_none_iff_exists'.1 (hprev hex)
    simp only [hr, authRequestLabel_some]
    refine ⟨_, _, rfl, ?_⟩
    rw [if_neg (by simp [hnr])]
    exact List.cons_ne_nil _ _
  | _ => simp [Header.isHandshake, hex] at hhs

theorem requestLabels_processMessageWith {reinject : Option (TaskManager → Result)}
    (hclean : tm.inst.suppression.Clean) (hnew : tm.takesAsNew h = true) (hhs : h.isHandshake = true)
    (hprev : h.exchange = .ikeAuth → tm.inst.rprev ≠ none) :
    requestLabels (tm.processMessageWith h b env reinject).log ≠ [] := by
  have hin : tm.attached = true ∧ tm.discards h = false := by
    by_contra hno
    rw [takesAsNew_unhandled hno] at hnew
    cases hnew
  have hrprev : (tm.inst.count h).rprev = tm.inst.rprev := by
    unfold Instance.count
    split <;> rfl
  obtain ⟨inst, log, hlabel, hne⟩ := reportRequest_handshake (b := b)
    ((count_suppression (h := h) hclean.retransmission).1.trans hclean.notReport)
    ((takesAsNew_iff hin.1 hin.2).1 hnew) hhs (by rwa [hrprev])
  rw [processMessageWith_labelled hin.1 hin.2 hlabel]
  intro hnil
  exact hne (List.append_eq_nil_iff.1 ((List.filterMap_append (l := log)).symm.trans hnil)).1

theorem reportedIfNew_of_unsuppressed {c : Conversation} (hc : c.Unsuppressed) (e : Incoming) :
    ReportedIfNew c e := by
  cases e with
  | listener e => trivial
  | message h d =>
    intro halive hnew hhs hprev
    cases d with
    | whole b env => exact requestLabels_processMessageWith (hc halive) hnew hhs hprev
    | fragment b env reassembled => exact requestLabels_processMessageWith (hc halive) hnew hhs hprev

/-- In every conversation of an attached session nothing is suppressed whenever a call returns, exactly if
no message other than those of the handshake is taken for a new one, apart from a fragment whose
suppression the message it completes takes back. As long as nothing is suppressed, every new message of
the handshake is reported. -/
theorem suppression_clean_iff (tm : TaskManager) (es : List Incoming) (hes : ∀ e ∈ es, e.InSession) :
    (Run.Along Conversation.next CleanAfter tm.start es ↔
      Run.Along Conversation.next UnsuppressingAll tm.start es) ∧
    (Run.Along Conversation.next CleanAfter tm.start es →
      Run.Along Conversation.next ReportedIfNew tm.start es) := by
  have hstart := unsuppressed_start tm
  generalize tm.start = c at hstart
  induction es generalizing c with
  | nil => exact ⟨Iff.rfl, fun _ => trivial⟩
  | cons e es ih =>
    rw [List.forall_mem_cons] at hes
    have hiff := cleanAfter_iff hstart hes.1
    have hrest := fun hclean => ih hes.2 (c.next e) (hstart.next hclean hes.1)
    refine ⟨⟨fun hall => ?_, fun hall => ?_⟩, fun hall => ?_⟩
    · exact ⟨hiff.1 hall.1, (hrest hall.1).1.1 hall.2⟩
    · have hclean := hiff.2 hall.1
      exact ⟨hclean, (hrest hclean).1.2 hall.2⟩
    · exact ⟨reportedIfNew_of_unsuppressed hstart e, (hrest hall.1).2 hall.2⟩

theorem onlyPublishes_single (q : Query) : OnlyPublishes [.publish q] := by
  intro e he
  rw [List.mem_singleton] at he
  exact ⟨q, he⟩

theorem suppression_clean_handshake :
    (∀ e ∈ [sampleInit, sampleAuth 1], e.InSession) ∧
      Run.Along Conversation.next CleanAfter sampleManager.start [sampleInit, sampleAuth 1] := by
  have hes : ∀ e ∈ [sampleInit, sampleAuth 1], e.InSession := by
    simp only [List.forall_mem_cons]
    exact ⟨onlyPublishes_single _, onlyPublishes_single _, List.forall_mem_nil _⟩
  exact ⟨hes, (suppression_clean_iff sampleManager [sampleInit, sampleAuth 1] hes).1.2
    ⟨fun _ _ _ _ => rfl, fun _ _ _ _ => rfl, trivial⟩⟩

/-- An INFORMATIONAL request with the given message ID. -/
def sampleInformational (mid : UInt32) (parse : Status) : Incoming :=
  .message ⟨.informational, mid, true⟩ (.whole {} { parse := parse })

/-- An INFORMATIONAL request outside the window leaves `not_report` set, so that an IKE_AUTH request is taken
for a new one and not reported; one that does not parse leaves a count of minus one. -/
theorem suppression_left :
    (Run.after Conversation.next sampleManager.start
      [sampleInit, sampleInformational 7 .success]).tm.inst.suppression = ⟨true, 0⟩ ∧
    (Run.after Conversation.next sampleManager.start
      [sampleInit, sampleInformational 7 .success]).alive = true ∧
    (Run.after Conversation.next sampleManager.start
      [sampleInit, sampleInformational 7 .success]).tm.takesAsNew ⟨.ikeAuth, 2, true⟩ = true ∧
    requestLabels ((Run.after Conversation.next sampleManager.start
      [sampleInit, sampleInformational 7 .success]).actions (sampleAuth 2)) = [] ∧
    (Run.after Conversation.next sampleManager.start
      [sampleInit, sampleInformational 1 .failed]).tm.inst.suppression = ⟨false, -1⟩ := by
  decide

end Epdg
