import VoWiFi.Epdg.Proofs.TaskManagerProofs

/-!
# What the filter for retransmissions drops

The filter drops a message whose message ID equals `imid`, a counter that goes up by one with every
message that is not taken for a retransmission, whatever its kind and its own message ID. Nothing else
than retransmissions is dropped as long as the counter only takes values that are message IDs of
requests handed to `process_request`.
-/

namespace Epdg

variable {tm : TaskManager} {inst : Instance} {h : Header} {b : Body} {env : Env}
  {past log log' : List Action}

/-- The counter is the message ID of a request that has been handed over. -/
def CountsHanded (past : List Action) (imid : ℤ) : Prop :=
  0 < imid → ∃ h ∈ handedOver past, (h.mid.toNat : ℤ) = imid

/-- What a message does to the filter: it is dropped for a reason, and the counter stays right. -/
structure FilterStep (past new : List Action) (imid : ℤ) : Prop where
  justified : ∀ h ∈ new.filterMap Action.discard?, ∃ h' ∈ handedOver past, h'.mid = h.mid
  counts : CountsHanded (past ++ new) imid

theorem mem_handedOver_append_left {h' : Header} (hmem : h' ∈ handedOver past) :
    h' ∈ handedOver (past ++ log) := by
  unfold handedOver
  rw [List.filterMap_append]
  exact List.mem_append_left _ hmem

theorem CountsHanded.append {imid : ℤ} (hc : CountsHanded past imid) :
    CountsHanded (past ++ log) imid := by
  intro hpos
  obtain ⟨h', hmem, heq⟩ := hc hpos
  exact ⟨h', mem_handedOver_append_left hmem, heq⟩

/-- A message that is not dropped. -/
theorem FilterStep.of_internal {imid : ℤ} {new : List Action}
    (hnew : ∀ a ∈ new, a.discard? = none) (hc : CountsHanded (past ++ new) imid) :
    FilterStep past new imid := by
  refine ⟨?_, hc⟩
  rw [List.filterMap_eq_nil_iff.2 hnew]
  nofun

theorem FilterStep.prepend {imid : ℤ} {new : List Action} (hstep : FilterStep past new imid)
    (hlog : ∀ a ∈ log, a.discard? = none) : FilterStep past (log ++ new) imid := by
  refine ⟨?_, fun hpos => ?_⟩
  · rw [List.filterMap_append, List.filterMap_eq_nil_iff.2 hlog]
    exact hstep.justified
  · obtain ⟨h', hmem, heq⟩ := hstep.counts hpos
    refine ⟨h', ?_, heq⟩
    unfold handedOver at hmem ⊢
    simp only [List.filterMap_append, List.mem_append] at hmem ⊢
    exact hmem.imp id .inr

theorem discard_label (hlabel : (tm.inst.count h).reportRequest h b = .ok (inst, log)) :
    ∀ a ∈ log, a.discard? = none := by
  intro a ha
  rcases reportRequest_cases hlabel with ⟨-, -, rfl⟩ | ⟨-, -, -, rfl⟩ | ⟨-, -, r, -, -, rfl⟩ |
    ⟨-, -, -, rfl⟩
  · cases ha
  · split at ha
    · cases ha
    · rw [List.mem_singleton] at ha
      subst ha
      rfl
  · split at ha
    · cases ha
    · rw [List.mem_singleton] at ha
      subst ha
      rfl
  · cases ha

/-- If the counter is positive after the label, the message has been counted up to it. -/
theorem label_imid (hatt : tm.attached = true) (hdis : tm.discards h = false)
    (hlabel : (tm.inst.count h).reportRequest h b = .ok (inst, log)) (hpos : 0 < inst.imid) :
    tm.inst.seen h = false ∧ h.exchange ≠ .ikeSaInit ∧ inst.imid = tm.inst.imid + 1 := by
  -- a message with the message ID of the counter would have been dropped
  have hold : tm.inst.seen h = true → ¬ 0 < (tm.inst.count h).imid := by
    intro hseen hpos'
    rw [(discards_iff hatt).2 ⟨hseen, hpos'⟩] at hdis
    cases hdis
  have hnew : tm.inst.seen h = false →
      (tm.inst.count h).imid = tm.inst.imid + 1 ∧ (tm.inst.count h).retransmission = 0 := by
    intro hseen
    unfold Instance.count
    rw [hseen]
    exact ⟨rfl, rfl⟩
  have hcount : 0 < (tm.inst.count h).imid → tm.inst.seen h = false := by
    intro hpos'
    rw [← Bool.not_eq_true]
    exact fun hseen => hold hseen hpos'
  rcases reportRequest_cases hlabel with ⟨hre, rfl, -⟩ | ⟨-, -, rfl, -⟩ | ⟨-, hex, r, -, rfl, -⟩ |
    ⟨-, hex, rfl, -⟩
  · exact absurd (hnew (hcount hpos)).2 hre
  · cases hpos
  · have hseen := hcount hpos
    exact ⟨hseen, by rw [hex]; nofun, (hnew hseen).1⟩
  · have hseen := hcount hpos
    simp only [Header.isHandshake, Bool.or_eq_false_iff, decide_eq_false_iff_not] at hex
    exact ⟨hseen, hex.1, (hnew hseen).1⟩

/-- A message of the attached session that is dropped. -/
theorem filterStep_discarded (hc : CountsHanded past tm.inst.imid) (hdis : tm.discards h = true) :
    FilterStep past [.discard h] (tm.inst.count h).imid := by
  simp only [TaskManager.discards, Bool.and_eq_true, decide_eq_true_eq] at hdis
  obtain ⟨⟨-, hseen⟩, hpos⟩ := hdis
  have himid : (tm.inst.count h).imid = tm.inst.imid := by
    unfold Instance.count
    rw [if_pos hseen]
  rw [himid]
  refine ⟨?_, hc.append⟩
  intro h₀ hmem
  rw [List.mem_singleton.1 hmem]
  obtain ⟨h', hhanded, heq⟩ := hc hpos
  refine ⟨h', hhanded, UInt32.toNat_inj.1 ?_⟩
  simp only [Instance.seen, Bool.and_eq_true, decide_eq_true_eq] at hseen
  rw [hseen.2] at heq
  exact_mod_cast heq

/-- The condition on a message that is not handed over itself. -/
theorem countsHanded_label (hatt : tm.attached = true) (hdis : tm.discards h = false)
    (hlabel : (tm.inst.count h).reportRequest h b = .ok (inst, log))
    (hcond : tm.attached = true → tm.inst.seen h = false → h.exchange ≠ .ikeSaInit →
      0 < tm.inst.imid + 1 → ∃ h' ∈ handedOver past, (h'.mid.toNat : ℤ) = tm.inst.imid + 1) :
    CountsHanded past inst.imid := by
  intro hpos
  obtain ⟨hseen, hex, himid⟩ := label_imid hatt hdis hlabel hpos
  rw [himid] at hpos ⊢
  exact hcond hatt hseen hex hpos

theorem filterStep_unparsed (mid : UInt32)
    (hlabel : (tm.inst.count h).reportRequest h b = .ok (inst, log))
    (hc : CountsHanded past inst.imid) :
    FilterStep past
      (log ++ (TaskManager.closeRequest { tm with inst := inst, respondingMid := mid }
        .processMessage).2)
      (TaskManager.closeRequest { tm with inst := inst, respondingMid := mid }
        .processMessage).1.inst.imid := by
  rw [(closeRequest_fields _ _).2]
  refine .of_internal (fun a ha => ?_) hc.append
  rcases List.mem_append.1 ha with ha | ha
  · exact discard_label hlabel a ha
  · exact (internal_closeRequest _ _ a ha).discard

theorem filterStep_ignored (hlabel : (tm.inst.count h).reportRequest h b = .ok (inst, log))
    (hc : CountsHanded past inst.imid) : FilterStep past (log ++ [.parsed h]) inst.imid := by
  refine .of_internal (fun a ha => ?_) hc.append
  rcases List.mem_append.1 ha with ha | ha
  · exact discard_label hlabel a ha
  · rw [List.mem_singleton] at ha
    subst ha
    rfl

/-- A request that is handed over may be the one the counter counts up to. -/
theorem filterStep_handedOver (hatt : tm.attached = true) (hdis : tm.discards h = false)
    (hlabel : (tm.inst.count h).reportRequest h b = .ok (inst, log))
    (hcond : tm.inst.seen h = false → h.exchange ≠ .ikeSaInit → 0 < tm.inst.imid + 1 →
      (h.mid.toNat : ℤ) = tm.inst.imid + 1 ∨
        ∃ h' ∈ handedOver past, (h'.mid.toNat : ℤ) = tm.inst.imid + 1) :
    FilterStep past
      (log ++ .parsed h :: .handOver h ::
        (TaskManager.processRequest { tm with inst := inst, hasCfg := true } h b env).log)
      (TaskManager.processRequest { tm with inst := inst, hasCfg := true } h b env).tm.inst.imid := by
  have hquiet := quiet_processRequest { tm with inst := inst, hasCfg := true } h b env
  refine .of_internal (fun a ha => ?_) fun hpos => ?_
  · rcases List.mem_append.1 ha with ha | ha
    · exact discard_label hlabel a ha
    · rcases List.mem_cons.1 ha with rfl | ha
      · rfl
      · rcases List.mem_cons.1 ha with rfl | ha
        · rfl
        · exact (hquiet.internal a ha).discard
  · have himid : (TaskManager.processRequest { tm with inst := inst, hasCfg := true }
        h b env).tm.inst.imid = inst.imid := by
      rcases hquiet.imid with heq | heq
      · exact heq
      · rw [heq] at hpos
        cases hpos
    rw [himid] at hpos ⊢
    obtain ⟨hseen, hex, hcount⟩ := label_imid hatt hdis hlabel hpos
    rw [hcount] at hpos ⊢
    rcases hcond hseen hex hpos with hmid | ⟨h', hmem, hmid⟩
    · refine ⟨h, ?_, hmid⟩
      unfold handedOver
      rw [List.filterMap_append, List.filterMap_append]
      exact List.mem_append_right _ (List.mem_append_right _ List.mem_cons_self)
    · exact ⟨h', mem_handedOver_append_left hmem, hmid⟩

theorem filterStep (d : Delivery) (hc : CountsHanded past tm.inst.imid) (hd : Counted past h d tm) :
    FilterStep past (processMessage h d tm).log (processMessage h d tm).tm.inst.imid := by
  -- on the fragments around a message; the last one counts before the message does
  induction d generalizing tm with
  | whole b env =>
    unfold processMessage
    generalize hlog : (tm.processMessageWith h b env none).log = new
    generalize hinst : (tm.processMessageWith h b env none).tm.inst = inst'
    have hstep := messageStep tm h b env none
    rw [hlog, hinst] at hstep
    have hcond : tm.accepts h b env = false → tm.attached = true → tm.inst.seen h = false →
        h.exchange ≠ .ikeSaInit → 0 < tm.inst.imid + 1 →
        ∃ h' ∈ handedOver past, (h'.mid.toNat : ℤ) = tm.inst.imid + 1 := by
      intro hacc hatt hseen hex hpos
      rcases hd hatt hseen hex hpos with ⟨hacc', -⟩ | hbefore
      · rw [hacc] at hacc'
        cases hacc'
      · exact hbefore
    cases hstep with
    | detached hatt => exact .of_internal (List.forall_mem_nil _) hc.append
    | discarded hdis => exact filterStep_discarded hc hdis
    | fault hatt hdis hlabel => exact .of_internal (List.forall_mem_nil _) hc.append
    | unparsed mid hatt hdis hlabel hparse =>
      exact filterStep_unparsed mid hlabel (countsHanded_label hatt hdis hlabel
        (hcond (by simp [TaskManager.accepts, hparse])))
    | ignored hatt hdis hlabel hparse hno =>
      exact filterStep_ignored hlabel (countsHanded_label hatt hdis hlabel (hcond (hno rfl)))
    | handedOver hatt hdis hlabel hre hacc =>
      exact filterStep_handedOver hatt hdis hlabel fun hseen hex hpos =>
        (hd hatt hseen hex hpos).imp And.right id
    | reinjected hatt hdis hlabel hre hadd => cases hre
  | fragment b env reassembled ih =>
    obtain ⟨hcond, hinner⟩ := hd
    unfold processMessage
    generalize hlog : (tm.processMessageWith h b env _).log = new
    generalize hinst : (tm.processMessageWith h b env _).tm.inst = inst'
    have hstep := messageStep tm h b env (some (processMessage h reassembled))
    rw [hlog, hinst] at hstep
    cases hstep with
    | detached hatt => exact .of_internal (List.forall_mem_nil _) hc.append
    | discarded hdis => exact filterStep_discarded hc hdis
    | fault hatt hdis hlabel => exact .of_internal (List.forall_mem_nil _) hc.append
    | unparsed mid hatt hdis hlabel hparse =>
      exact filterStep_unparsed mid hlabel (countsHanded_label hatt hdis hlabel hcond)
    | ignored hatt hdis hlabel hparse hno =>
      exact filterStep_ignored hlabel (countsHanded_label hatt hdis hlabel hcond)
    | handedOver hatt hdis hlabel hre hacc => cases hre
    | @reinjected inst log f hatt hdis hlabel hre hadd =>
      cases hre
      have hrest := hinner hadd
      unfold TaskManager.afterFragment at hrest
      rw [hlabel] at hrest
      have hbefore : CountsHanded past inst.imid := countsHanded_label hatt hdis hlabel hcond
      have hin := @ih { tm with inst := inst, hasCfg := true } hbefore hrest
      rw [List.append_cons]
      refine hin.prepend fun a ha => ?_
      rcases List.mem_append.1 ha with ha | ha
      · exact discard_label hlabel a ha
      · rw [List.mem_singleton] at ha
        subst ha
        rfl

/-! ## Conversations -/

/-- Every message is counted for a request that is handed over. -/
def CountedAll (c : Conversation) (e : Incoming) : Prop := e.Meets Counted c

theorem countsHanded_start (tm : TaskManager) : CountsHanded tm.start.log tm.start.tm.inst.imid := by
  intro hpos
  have hneg : tm.start.tm.inst.imid = -1 := by
    unfold TaskManager.start
    dsimp only
    rw [checkInstance_snd]
    simp [Instance.Attaches, Instance.handleInit]
  rw [hneg] at hpos
  cases hpos

theorem countsHanded_next {c : Conversation} {e : Incoming}
    (hc : CountsHanded c.log c.tm.inst.imid) (he : CountedAll c e) :
    CountsHanded (c.next e).log (c.next e).tm.inst.imid := by
  cases e with
  | message h d =>
    unfold Conversation.next
    dsimp only
    split
    · rename_i halive
      exact (filterStep d hc (he halive)).counts
    · exact hc
  | listener e =>
    cases e with
    | init => nofun
    | fin => exact hc
    | publish q => exact hc

theorem justified_of_counted {c : Conversation} {e : Incoming}
    (hc : CountsHanded c.log c.tm.inst.imid) (he : CountedAll c e) : Justified c e := by
  cases e with
  | message h d =>
    unfold Justified Conversation.actions
    dsimp only
    split
    · rename_i halive
      exact fun h' hmem _ => (filterStep d hc (he halive)).justified h' hmem
    · nofun
  | listener e => nofun

/-- In every session whose messages are counted for requests that are handed over, a request is
dropped as a retransmission only if a request with its message ID has been handed over before. -/
theorem justified_conversation (tm : TaskManager) (es : List Incoming)
    (hes : Run.Along Conversation.next CountedAll tm.start es) :
    Run.Along Conversation.next Justified tm.start es :=
  Run.along_of_invariant (I := fun c => CountsHanded c.log c.tm.inst.imid)
    (fun _ _ => countsHanded_next) (countsHanded_start tm) (fun _ _ => justified_of_counted) hes

theorem justified_sample :
    Run.Along Conversation.next Justified sampleManager.start
      [sampleInit, sampleAuth 1, sampleAuth 1] := by
  refine justified_conversation sampleManager _ ⟨?_, ?_, ?_, trivial⟩
  · exact fun _ _ _ hex => absurd rfl hex
  · exact fun _ _ _ _ _ => .inl ⟨by decide, by decide⟩
  · intro _ _ hseen
    revert hseen
    decide

/-- A request outside the window is counted, so that the IKE_AUTH request with the message ID the
counter has reached is dropped although it arrives for the first time. -/
theorem justified_after_stray :
    ¬ Run.Along Conversation.next Justified sampleManager.start
      [sampleInit, sampleAuth 5, sampleAuth 1] := by
  rintro ⟨-, -, hthird, -⟩
  have hbefore := hthird ⟨.ikeAuth, 1, true⟩ (by decide) rfl
  revert hbefore
  decide

end Epdg
