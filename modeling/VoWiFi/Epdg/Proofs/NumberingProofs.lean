import VoWiFi.Epdg.Proofs.TaskManagerProofs

/-!
# Requests are numbered as they are handed over

The label of an IKE_AUTH request follows from `rprev`, the label of the request before it. As long as
every message that is labelled is also handed to `process_request`, `rprev` counts the requests that
have been handed over.
-/

namespace Epdg

variable {tm : TaskManager} {inst : Instance} {h : Header} {b : Body} {env : Env}
  {past log log' : List Action}

/-! ## Reading the log -/

theorem handedOver_append : handedOver (log ++ log') = handedOver log ++ handedOver log' :=
  List.filterMap_append

theorem requestLabels_append :
    requestLabels (log ++ log') = requestLabels log ++ requestLabels log' :=
  List.filterMap_append

theorem requestLabels_of_internal (hlog : ∀ a ∈ log, a.Internal) : requestLabels log = [] :=
  List.filterMap_eq_nil_iff.2 fun a ha => (hlog a ha).requestLabel

theorem handedOver_of_internal (hlog : ∀ a ∈ log, a.Internal) : handedOver log = [] :=
  List.filterMap_eq_nil_iff.2 fun a ha => (hlog a ha).handOver

/-- The actions of a request that is handed over. -/
theorem handOver_log (log : List Action) (h : Header) (htail : ∀ a ∈ log', a.Internal) :
    handedOver (log ++ .parsed h :: .handOver h :: log') = handedOver log ++ [h] ∧
      requestLabels (log ++ .parsed h :: .handOver h :: log') = requestLabels log := by
  constructor
  · have htail' : handedOver (.parsed h :: .handOver h :: log') = [h] := by
      change h :: handedOver log' = [h]
      rw [handedOver_of_internal htail]
    rw [handedOver_append, htail']
  · have htail' : requestLabels (.parsed h :: .handOver h :: log') = [] := by
      change requestLabels log' = []
      exact requestLabels_of_internal htail
    rw [requestLabels_append, htail', List.append_nil]

/-! ## Rounds -/

/-- The label that `rprev` holds after `n` IKE_AUTH requests. -/
def roundAfter : ℕ → Round
  | 0 => .init
  | n + 1 => (roundAfter n).next

theorem next_roundAfter_fin (k : Fin 5) : (roundAfter k).next = .auth k := by
  decide +revert

theorem authRounds_append_init (hnew : handedOver log' = [h]) (hpast : h ∉ handedOver log)
    (hex : h.exchange = .ikeSaInit) : authRounds (log ++ log') = 0 := by
  unfold authRounds
  rw [handedOver_append, hnew, List.reverse_concat, List.dedup_cons_of_notMem (by simpa using hpast),
    List.takeWhile_cons_of_neg (by simp [hex])]
  rfl

theorem authRounds_append_auth (hnew : handedOver log' = [h]) (hpast : h ∉ handedOver log)
    (hex : h.exchange = .ikeAuth) : authRounds (log ++ log') = authRounds log + 1 := by
  unfold authRounds
  rw [handedOver_append, hnew, List.reverse_concat, List.dedup_cons_of_notMem (by simpa using hpast),
    List.takeWhile_cons_of_pos (by simp [hex]), List.countP_cons_of_pos (by simp [hex])]

/-- Other requests, and requests that are handed over again, do not count. -/
theorem authRounds_append_other
    (hnew : ∀ h' ∈ handedOver log', h' = h ∧ (h.isHandshake = true → h ∈ handedOver log))
    (hone : handedOver log' = [] ∨ handedOver log' = [h]) :
    authRounds (log ++ log') = authRounds log := by
  rcases hone with hone | hone
  · unfold authRounds
    rw [handedOver_append, hone, List.append_nil]
  · rw [hone] at hnew
    have hmem := (hnew h List.mem_cons_self).2
    unfold authRounds
    rw [handedOver_append, hone, List.reverse_concat]
    by_cases hin : h ∈ handedOver log
    · rw [List.dedup_cons_of_mem (by simpa using hin)]
    · have hnot : h.isHandshake = false := by
        rw [← Bool.not_eq_true]
        exact fun hh => hin (hmem hh)
      simp only [Header.isHandshake, Bool.or_eq_false_iff, decide_eq_false_iff_not] at hnot
      rw [List.dedup_cons_of_notMem (by simpa using hin),
        List.takeWhile_cons_of_pos (by simp [hnot.1]), List.countP_cons_of_neg (by simp [hnot.2])]

/-! ## One message -/

/-- What a message does to the numbering: nothing, or it is the next request of the handshake. -/
inductive NumberStep (past : List Action) (h : Header) (rprev : Option Round) :
    List Action → Option Round → Prop
  | other {new : List Action}
    (hlabels : requestLabels new = []) (hone : handedOver new = [] ∨ handedOver new = [h])
    (hnew : ∀ h' ∈ handedOver new, h' = h ∧ (h.isHandshake = true → h ∈ handedOver past)) :
    NumberStep past h rprev new rprev
  | init {new : List Action} (hex : h.exchange = .ikeSaInit) (hnew : handedOver new = [h])
    (hpast : h ∉ handedOver past) (hlabels : requestLabels new = [some (.request .init)]) :
    NumberStep past h rprev new (some .init)
  | auth {new : List Action} {r : Round} (hex : h.exchange = .ikeAuth) (hr : rprev = some r)
    (hnew : handedOver new = [h]) (hpast : h ∉ handedOver past)
    (hlabels : requestLabels new = [some r.next.requestSymbol]) :
    NumberStep past h rprev new (some r.next)

theorem NumberStep.nothing {rprev : Option Round} {new : List Action}
    (hnew : ∀ a ∈ new, a.requestLabel? = none ∧ a.handOver? = none) :
    NumberStep past h rprev new rprev := by
  have hhanded : handedOver new = [] := List.filterMap_eq_nil_iff.2 fun a ha => (hnew a ha).2
  refine .other (List.filterMap_eq_nil_iff.2 fun a ha => (hnew a ha).1) (.inl hhanded) ?_
  rw [hhanded]
  nofun

theorem NumberStep.cons_parsed {rprev rprev' : Option Round} {new : List Action}
    (hstep : NumberStep past h rprev new rprev') :
    NumberStep past h rprev (.parsed h :: new) rprev' := by
  cases hstep with
  | other hlabels hone hnew => exact .other hlabels hone hnew
  | init hex hnew hpast hlabels => exact .init hex hnew hpast hlabels
  | auth hex hr hnew hpast hlabels => exact .auth hex hr hnew hpast hlabels

theorem count_rprev (inst : Instance) (h : Header) : (inst.count h).rprev = inst.rprev := by
  unfold Instance.count
  split <;> rfl

/-- A message that is not a new one of the handshake gets no label. -/
theorem label_other (hatt : tm.attached = true) (hdis : tm.discards h = false)
    (hlabel : (tm.inst.count h).reportRequest h b = .ok (inst, log))
    (hold : h.isHandshake = true → tm.takesAsNew h = false) :
    log = [] ∧ inst.rprev = tm.inst.rprev := by
  rcases reportRequest_cases hlabel with ⟨hre, rfl, rfl⟩ | ⟨hre, hex, rfl, rfl⟩ |
    ⟨hre, hex, r, -, rfl, rfl⟩ | ⟨hre, hex, rfl, rfl⟩
  · exact ⟨rfl, count_rprev _ _⟩
  · rw [← takesAsNew_iff hatt hdis, hold (by simp [Header.isHandshake, hex])] at hre
    cases hre
  · rw [← takesAsNew_iff hatt hdis, hold (by simp [Header.isHandshake, hex])] at hre
    cases hre
  · exact ⟨rfl, count_rprev _ _⟩

/-- A new message of the handshake that is handed over is the next request. -/
theorem numberStep_new (hatt : tm.attached = true) (hdis : tm.discards h = false)
    (hlabel : (tm.inst.count h).reportRequest h b = .ok (inst, log))
    (hhand : h.isHandshake = true) (hnew : tm.takesAsNew h = true) (hpast : h ∉ handedOver past)
    (hreport : tm.inst.notReport = false) (hclient : b.clientError = false)
    (htail : ∀ a ∈ log', a.Internal) :
    NumberStep past h tm.inst.rprev (log ++ .parsed h :: .handOver h :: log') inst.rprev := by
  obtain ⟨hhanded, hlabels⟩ := handOver_log log h htail
  have hnr : (tm.inst.count h).notReport = false := by
    rw [← hreport]
    unfold Instance.count
    split <;> rfl
  have hzero := (takesAsNew_iff hatt hdis).1 hnew
  rcases reportRequest_cases hlabel with ⟨hre, -, -⟩ | ⟨-, hex, rfl, rfl⟩ |
    ⟨-, hex, r, hr, rfl, rfl⟩ | ⟨-, hex, -, -⟩
  · exact absurd hzero hre
  · rw [hnr] at hhanded hlabels ⊢
    exact .init hex hhanded hpast hlabels
  · rw [hnr, hclient] at hhanded hlabels ⊢
    exact .auth hex ((count_rprev _ _).symm.trans hr) hhanded hpast hlabels
  · rw [hhand] at hex
    cases hex

theorem numberStep_unparsed (mid : UInt32) (hatt : tm.attached = true)
    (hdis : tm.discards h = false)
    (hlabel : (tm.inst.count h).reportRequest h b = .ok (inst, log))
    (hold : h.isHandshake = true → tm.takesAsNew h = false) :
    NumberStep past h tm.inst.rprev
      (log ++ (TaskManager.closeRequest { tm with inst := inst, respondingMid := mid }
        .processMessage).2)
      (TaskManager.closeRequest { tm with inst := inst, respondingMid := mid }
        .processMessage).1.inst.rprev := by
  obtain ⟨rfl, hprev⟩ := label_other hatt hdis hlabel hold
  have hint := internal_closeRequest { tm with inst := inst, respondingMid := mid } .processMessage
  rw [(closeRequest_fields _ _).1]
  change NumberStep past h tm.inst.rprev _ inst.rprev
  rw [hprev]
  exact .nothing fun a ha => ⟨(hint a ha).requestLabel, (hint a ha).handOver⟩

theorem numberStep_ignored (hatt : tm.attached = true) (hdis : tm.discards h = false)
    (hlabel : (tm.inst.count h).reportRequest h b = .ok (inst, log))
    (hold : h.isHandshake = true → tm.takesAsNew h = false) :
    NumberStep past h tm.inst.rprev (log ++ [.parsed h]) inst.rprev := by
  obtain ⟨rfl, hprev⟩ := label_other hatt hdis hlabel hold
  rw [hprev]
  refine .nothing fun a ha => ?_
  rw [List.nil_append, List.mem_singleton] at ha
  subst ha
  exact ⟨rfl, rfl⟩

theorem numberStep_discarded :
    NumberStep past h tm.inst.rprev [.discard h] (tm.inst.count h).rprev := by
  rw [count_rprev]
  refine .nothing fun a ha => ?_
  rw [List.mem_singleton] at ha
  subst ha
  exact ⟨rfl, rfl⟩

theorem numberStep (d : Delivery) (hd : InOrder past h d tm) :
    NumberStep past h tm.inst.rprev (processMessage h d tm).log
      (processMessage h d tm).tm.inst.rprev := by
  -- on the fragments around a message, none of which is labelled
  induction d generalizing tm with
  | whole b env =>
    obtain ⟨hpub, hhand⟩ := hd
    unfold processMessage
    generalize hlog : (tm.processMessageWith h b env none).log = new
    generalize hinst : (tm.processMessageWith h b env none).tm.inst = inst'
    have hstep := messageStep tm h b env none
    rw [hlog, hinst] at hstep
    -- a message that is not handed over is not a new one of the handshake
    have hold : tm.accepts h b env = false → h.isHandshake = true → tm.takesAsNew h = false := by
      intro hacc hh
      rw [← Bool.not_eq_true]
      intro hnew
      rw [((hhand hh).1 hnew).1] at hacc
      cases hacc
    cases hstep with
    | detached hatt => exact .nothing (List.forall_mem_nil _)
    | discarded hdis => exact numberStep_discarded
    | fault hatt hdis hlabel => exact .nothing (List.forall_mem_nil _)
    | unparsed mid hatt hdis hlabel hparse =>
      exact numberStep_unparsed mid hatt hdis hlabel
        (hold (by simp [TaskManager.accepts, hparse]))
    | ignored hatt hdis hlabel hparse hno =>
      exact numberStep_ignored hatt hdis hlabel (hold (hno rfl))
    | @handedOver inst log hatt hdis hlabel hre hacc =>
      have hquiet := quiet_processRequest { tm with inst := inst, hasCfg := true } h b env
      rw [hquiet.rprev hpub]
      by_cases hnew : h.isHandshake = true ∧ tm.takesAsNew h = true
      · obtain ⟨-, hpast, hreport, hclient⟩ := (hhand hnew.1).1 hnew.2
        exact numberStep_new hatt hdis hlabel hnew.1 hnew.2 hpast hreport hclient hquiet.internal
      · have hold' : h.isHandshake = true → tm.takesAsNew h = false := by
          intro hh
          rw [← Bool.not_eq_true]
          exact fun hn => hnew ⟨hh, hn⟩
        obtain ⟨rfl, hprev⟩ := label_other hatt hdis hlabel hold'
        obtain ⟨hhanded, hlabels⟩ := handOver_log [] h hquiet.internal
        change NumberStep past h tm.inst.rprev _ inst.rprev
        rw [hprev]
        refine .other hlabels (.inr hhanded) fun h' hh' => ?_
        rw [hhanded] at hh'
        exact ⟨List.mem_singleton.1 hh', fun hh => (hhand hh).2 (hold' hh) hatt hdis hacc⟩
    | reinjected hatt hdis hlabel hre hadd => cases hre
  | fragment b env reassembled ih =>
    obtain ⟨hold, hinner⟩ := hd
    unfold processMessage
    generalize hlog : (tm.processMessageWith h b env _).log = new
    generalize hinst : (tm.processMessageWith h b env _).tm.inst = inst'
    have hstep := messageStep tm h b env (some (processMessage h reassembled))
    rw [hlog, hinst] at hstep
    cases hstep with
    | detached hatt => exact .nothing (List.forall_mem_nil _)
    | discarded hdis => exact numberStep_discarded
    | fault hatt hdis hlabel => exact .nothing (List.forall_mem_nil _)
    | unparsed mid hatt hdis hlabel hparse => exact numberStep_unparsed mid hatt hdis hlabel hold
    | ignored hatt hdis hlabel hparse hno => exact numberStep_ignored hatt hdis hlabel hold
    | handedOver hatt hdis hlabel hre hacc => cases hre
    | reinjected hatt hdis hlabel hre hadd =>
      cases hre
      have hrest := hinner hadd
      unfold TaskManager.afterFragment at hrest
      rw [hlabel] at hrest
      obtain ⟨rfl, hprev⟩ := label_other hatt hdis hlabel hold
      rw [← hprev]
      exact (ih hrest).cons_parsed

/-! ## Conversations -/

/-- Every message is in order, and the session is not reset. -/
def InOrderAll (c : Conversation) (e : Incoming) : Prop := e.KeepsSession ∧ e.Meets InOrder c

/-- The label of the last request is the one of the last round that was handed over. -/
def RoundInv (c : Conversation) : Prop :=
  ∀ r, c.tm.inst.rprev = some r → r = roundAfter (authRounds c.log)

theorem roundInv_start (tm : TaskManager) : RoundInv tm.start := by
  intro r hr
  have hnone : tm.start.tm.inst.rprev = none := by
    unfold TaskManager.start
    dsimp only
    rw [checkInstance_snd]
    rfl
  rw [hnone] at hr
  cases hr

theorem roundInv_next {c : Conversation} {e : Incoming} (hc : RoundInv c) (he : InOrderAll c e) :
    RoundInv (c.next e) := by
  cases e with
  | message h d =>
    unfold Conversation.next
    dsimp only
    split
    · rename_i halive
      have hstep := numberStep d (he.2 halive)
      unfold RoundInv
      dsimp only
      intro r hr
      generalize (processMessage h d c.tm).log = new at hstep ⊢
      generalize (processMessage h d c.tm).tm.inst.rprev = rprev' at hstep hr
      cases hstep with
      | other hlabels hone hnew =>
        rw [authRounds_append_other hnew hone]
        exact hc r hr
      | init hex hnew hpast hlabels =>
        cases hr
        rw [authRounds_append_init hnew hpast hex]
        rfl
      | auth hex hr' hnew hpast hlabels =>
        cases hr
        rw [authRounds_append_auth hnew hpast hex, hc _ hr']
        rfl
    · exact hc
  | listener e =>
    obtain ⟨q, rfl⟩ := he.1
    exact hc

theorem requestSymbol_next_roundAfter (k : Fin 5) :
    (roundAfter k).next.requestSymbol = .request (.auth k) := by
  rw [next_roundAfter_fin]
  rfl

theorem numbered_of_inOrder {c : Conversation} {e : Incoming} (hc : RoundInv c)
    (he : InOrderAll c e) : Numbered c e := by
  cases e with
  | listener e => exact ⟨fun _ hmem => absurd hmem List.not_mem_nil, fun hne => absurd rfl hne⟩
  | message h d =>
    unfold Numbered Conversation.actions
    dsimp only
    split
    · rename_i halive
      have hstep := numberStep d (he.2 halive)
      generalize (processMessage h d c.tm).log = new at hstep ⊢
      generalize (processMessage h d c.tm).tm.inst.rprev = rprev' at hstep
      cases hstep with
      | other hlabels hone hnew =>
        refine ⟨fun h' hh' hfirst => ⟨fun hex => ?_, fun hex => ?_⟩, fun _ _ => hlabels⟩
        · obtain ⟨rfl, hpast⟩ := hnew h' hh'
          exact absurd (hpast (by simp [Header.isHandshake, hex])) hfirst
        · obtain ⟨rfl, hpast⟩ := hnew h' hh'
          exact absurd (hpast (by simp [Header.isHandshake, hex])) hfirst
      | init hex hnew hpast hlabels =>
        rw [hnew]
        refine ⟨fun h' hh' _ => ⟨fun _ => hlabels, fun hex' => ?_⟩,
          fun _ hnil => absurd hnil (List.cons_ne_nil _ _)⟩
        rw [List.mem_singleton.1 hh', hex] at hex'
        cases hex'
      | auth hex hr hnew hpast hlabels =>
        rw [hnew]
        refine ⟨fun h' hh' _ => ⟨fun hex' => ?_, fun _ k hk => ?_⟩,
          fun _ hnil => absurd hnil (List.cons_ne_nil _ _)⟩
        · rw [List.mem_singleton.1 hh', hex] at hex'
          cases hex'
        · rw [hlabels, hc _ hr, hk, requestSymbol_next_roundAfter]
    · exact ⟨fun _ hmem => absurd hmem List.not_mem_nil, fun hne => absurd rfl hne⟩

/-- In every session whose messages are in order, each request of the handshake is reported once,
under the label of its place, and a message that is not handed over is not reported. -/
theorem numbered_conversation (tm : TaskManager) (es : List Incoming)
    (hes : Run.Along Conversation.next InOrderAll tm.start es) :
    Run.Along Conversation.next Numbered tm.start es :=
  Run.along_of_invariant (fun _ _ => roundInv_next) (roundInv_start tm)
    (fun _ _ => numbered_of_inOrder) hes

theorem numbered_sample :
    Run.Along Conversation.next Numbered sampleManager.start
      [sampleInit, sampleAuth 1] := by
  have hpub : ∀ q : Query, OnlyPublishes [.publish q] := by
    rintro q e (_ | ⟨_, ⟨⟩⟩)
    exact ⟨_, rfl⟩
  refine numbered_conversation sampleManager _ ⟨⟨trivial, fun _ => ⟨hpub _, fun _ => ⟨?_, ?_⟩⟩⟩,
    ⟨trivial, fun _ => ⟨hpub _, fun _ => ⟨?_, ?_⟩⟩⟩, trivial⟩
  · exact fun _ => by decide
  · exact fun hnew => by revert hnew; decide
  · exact fun _ => by decide
  · exact fun hnew => by revert hnew; decide

/-- An IKE_AUTH request with a message ID outside the window is labelled as the first one, although
it is not handed over. -/
theorem numbered_out_of_window :
    ¬ Run.Along Conversation.next Numbered sampleManager.start [sampleInit, sampleAuth 5] := by
  rintro ⟨-, hsecond, -⟩
  have hlabels := hsecond.2 (by decide) (by decide)
  revert hlabels
  decide

end Epdg
