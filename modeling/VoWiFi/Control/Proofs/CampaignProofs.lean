import VoWiFi.Control.Campaign

/-!
# Complete campaigns

A testcase always gets a usable result, because one of its executions is usable. What may stop the
campaign is the liveness testcase, which is executed once and whose result may be null.
-/

namespace Control

theorem needsRetry_eq_false {pairs : Pairs}
    (h : Text.contains pairs.first.reply "timeout".toList = false) : pairs.needsRetry = false := by
  rw [Pairs.needsRetry, h, Bool.and_false]

/-- The loop over the executions of a testcase ends with a result and reaches no milestone. -/
theorem exists_executeUntilUsable (num : ℕ) {es : List Execution}
    (h : ∃ e ∈ es, ∃ pairs, executeTestcase e = some pairs ∧
      Text.contains pairs.first.reply "timeout".toList = false) :
    ∃ actions pairs, executeUntilUsable num es = (actions, some pairs) ∧
      actions.filterMap Action.milestone = [] := by
  induction es with
  | nil =>
    obtain ⟨e, he, -⟩ := h
    cases he
  | cons e es ih =>
    -- an execution that is not taken is not the usable one
    have hrest : (∀ pairs, executeTestcase e = some pairs → pairs.needsRetry = true) →
        ∃ e' ∈ es, ∃ pairs, executeTestcase e' = some pairs ∧
          Text.contains pairs.first.reply "timeout".toList = false := by
      intro hretry
      obtain ⟨e', he', pairs, hpairs, htimeout⟩ := h
      rcases List.mem_cons.1 he' with rfl | he'
      · have htrue := hretry pairs hpairs
        rw [needsRetry_eq_false htimeout] at htrue
        cases htrue
      · exact ⟨e', he', pairs, hpairs, htimeout⟩
    cases he : executeTestcase e with
    | none =>
      obtain ⟨actions, pairs, hrun, hnil⟩ := ih (hrest fun pairs hpairs => by
        rw [he] at hpairs
        cases hpairs)
      refine ⟨.executeTestcase num :: .resetIterator num :: actions, pairs, ?_, hnil⟩
      rw [executeUntilUsable, he, hrun]
    | some pairs =>
      by_cases hretry : pairs.needsRetry = true
      · obtain ⟨actions, pairs', hrun, hnil⟩ := ih (hrest fun p hp => by
          rw [he] at hp
          obtain rfl := Option.some.inj hp
          exact hretry)
        refine ⟨.executeTestcase num :: .resetIterator num :: .rebootUE :: actions, pairs', ?_, hnil⟩
        simp only [executeUntilUsable, he, hrun, if_pos hretry]
      · refine ⟨[.executeTestcase num], pairs, ?_, rfl⟩
        simp only [executeUntilUsable, he, if_neg hretry]

/-- The body of the loop ends exactly if the liveness testcase has a result, and then it has reached
the milestones of the testcase. -/
theorem runTestcase_spec (tc : Scheduled) (num : ℕ) :
    (executeTestcase tc.liveness = none → (runTestcase true tc num).2 = .nullPointer) ∧
      (executeTestcase tc.liveness ≠ none → (runTestcase true tc num).2 = .finished ∧
        (runTestcase true tc num).1.filterMap Action.milestone = milestones (tc, num)) := by
  obtain ⟨actions, pairs, hrun, hnil⟩ := exists_executeUntilUsable num tc.usable
  cases hlive : executeTestcase tc.liveness with
  | none =>
    refine ⟨fun _ => ?_, fun h => absurd rfl h⟩
    simp only [runTestcase, hrun, hlive, if_true]
  | some live =>
    refine ⟨nofun, fun _ => ?_⟩
    simp only [runTestcase, hrun, hlive, if_true, finishTestcase, true_and]
    -- the reboot is no milestone
    split <;> rw [List.append_assoc, List.filterMap_append, hnil] <;> rfl

/-- The loop over testcases that are all run. -/
def runAll (loaded : Bool) : List (Scheduled × ℕ) → List Action × Outcome
  | [] => ([], .finished)
  | tc :: tcs =>
    match runTestcase loaded tc.1 tc.2 with
    | (actions, .finished) =>
      let r := runAll loaded tcs
      (actions ++ r.1, r.2)
    | stopped => stopped

section Loop

variable {loaded : Bool} {startID : Option Text} {startNum : ℤ}

theorem mainLoop_true (num : ℕ) (tcs : List Scheduled) :
    mainLoop loaded startID startNum true num tcs = runAll loaded (tcs.zipIdx (num + 1)) := by
  induction tcs generalizing num with
  | nil => rfl
  | cons tc tcs ih =>
    rcases hrun : runTestcase loaded tc (num + 1) with ⟨actions, outcome⟩
    cases outcome <;> simp only [mainLoop, List.zipIdx_cons, runAll, hrun, Bool.true_or, if_true, ih]

theorem mainLoop_false (num : ℕ) (tcs : List Scheduled) :
    mainLoop loaded startID startNum false num tcs = runAll loaded ((tcs.zipIdx (num + 1)).dropWhile
      fun tc => !(some tc.1.id = startID || (tc.2 : ℤ) = startNum)) := by
  induction tcs generalizing num with
  | nil => rfl
  | cons tc tcs ih =>
    rw [mainLoop, List.zipIdx_cons, List.dropWhile_cons, Bool.false_or]
    by_cases hmatch : (some tc.id = startID || (num + 1 : ℤ) = startNum) = true
    · rw [if_pos hmatch, if_neg (by simpa [or_iff_not_imp_left] using hmatch)]
      rcases hrun : runTestcase loaded tc (num + 1) with ⟨actions, outcome⟩
      cases outcome <;> simp only [runAll, hrun, mainLoop_true]
    · rw [if_neg hmatch, ih, if_pos (by simpa using hmatch)]

/-- The main loop runs the selected testcases. -/
theorem main_eq_runAll (tcs : List Scheduled) :
    main loaded startID startNum tcs = runAll loaded (selected startID startNum tcs) := by
  rw [main, selected]
  by_cases hall : startID = none ∧ startNum = 0
  · rw [if_pos hall, hall.1, hall.2]
    exact mainLoop_true 0 tcs
  · rw [if_neg hall, show (decide (startID = none) && decide (startNum = 0)) = false by simpa using hall]
    exact mainLoop_false 0 tcs

end Loop

/-- All testcases are run exactly if the liveness testcase always has a result. -/
theorem runAll_spec (tcs : List (Scheduled × ℕ)) :
    ((runAll true tcs).2 = .finished ↔ ∀ tc ∈ tcs, executeTestcase tc.1.liveness ≠ none) ∧
      ((∀ tc ∈ tcs, executeTestcase tc.1.liveness ≠ none) →
        (runAll true tcs).1.filterMap Action.milestone = tcs.flatMap milestones) := by
  induction tcs with
  | nil => exact ⟨iff_of_true rfl (List.forall_mem_nil _), fun _ => rfl⟩
  | cons tc tcs ih =>
    obtain ⟨hnull, hok⟩ := runTestcase_spec tc.1 tc.2
    rcases hrun : runTestcase true tc.1 tc.2 with ⟨actions, outcome⟩
    rw [hrun] at hnull hok
    rw [runAll, hrun, List.forall_mem_cons]
    by_cases hlive : executeTestcase tc.1.liveness = none
    · obtain rfl : outcome = .nullPointer := hnull hlive
      exact ⟨iff_of_false nofun fun h => h.1 hlive, fun h => absurd hlive h.1⟩
    · obtain ⟨rfl, hmilestones⟩ := hok hlive
      refine ⟨?_, fun h => ?_⟩
      · rw [ih.1]
        exact (and_iff_right hlive).symm
      · rw [List.filterMap_append, hmilestones, ih.2 h.2, List.flatMap_cons]

/-- A campaign is complete exactly if every execution of the liveness testcase returns a list. -/
theorem complete_iff (startID : Option Text) (startNum : ℤ) (tcs : List Scheduled) :
    Complete startID startNum tcs ↔
      ∀ tc ∈ selected startID startNum tcs, executeTestcase tc.1.liveness ≠ none := by
  obtain ⟨hfinished, hmilestones⟩ := runAll_spec (selected startID startNum tcs)
  rw [Complete, main_eq_runAll, hfinished]
  constructor
  · rintro ⟨h, -⟩
    exact h
  · intro h
    exact ⟨h, hmilestones h⟩

/-- An execution with one message, which turns VoWiFi on, and a reply. -/
def enableVoWiFi (reply : String) : Execution where
  messages := [("enable_vowifi".toList, ⟨"enable_vowifi".toList, reply.toList⟩)]
  sends := ⟨_, List.mem_singleton_self _, show isEmptyMessage "enable_vowifi".toList = false by decide⟩

/-- A testcase that succeeds, followed by a liveness testcase during which an exception occurs. -/
def brokenLiveness : Scheduled where
  id := "1".toList
  attempts := [enableVoWiFi "ike_sa_init_request"]
  liveness := enableVoWiFi "exception"
  usable := ⟨_, List.mem_singleton_self _, _, rfl, by decide⟩

/-- The liveness oracle is given null, and the second testcase is not run. -/
theorem not_complete_brokenLiveness :
    (main true none 0 [brokenLiveness, brokenLiveness]).2 = .nullPointer ∧
      ¬ Complete none 0 [brokenLiveness, brokenLiveness] := by
  have hnull : (main true none 0 [brokenLiveness, brokenLiveness]).2 = .nullPointer := by
    decide +kernel
  refine ⟨hnull, fun h => ?_⟩
  rw [h.1] at hnull
  cases hnull

end Control
