import VoWiFi.Control.Execute
import Mathlib.Tactic.Common

/-!
# The shape of an execution result

Messages that are not sent and messages behind a timeout take no part in the loop of `executeTestcase`.
What is left is a loop that ends at the first pair that is a retest, an exception or a timeout, and
hands the SPIs of the first replies on.
-/

namespace Control

/-! ## One message -/

/-- The pair does not depend on the SPIs of the message, which only a retransmission sets. -/
theorem stepLoop_spis (spis spis' : MessageSpis) (logs : List (NamedLog × NamedLog)) :
    stepLoop spis logs = stepLoop spis' logs := by
  induction logs generalizing spis spis' with
  | nil => rfl
  | cons log logs ih =>
    obtain ⟨query, reply⟩ := log
    simp only [stepLoop, step]
    by_cases hquery : query.name = "retest".toList
    · simp only [if_pos hquery]
    · by_cases hreply : reply.name = "retest".toList
      · simp only [if_neg hquery, if_pos hreply]
      · simp only [if_neg hquery, if_neg hreply]
        split_ifs
        · exact ih _ _
        · rfl

theorem isSome_stepLoop {spis : MessageSpis} {logs : List (NamedLog × NamedLog)}
    (h : (stepLoop spis logs).isSome = true) (spis' : MessageSpis) :
    (stepLoop spis' logs).isSome = true := by
  rwa [stepLoop_spis spis' spis]

theorem run_eq_pair (m : TestMessage) (spis : MessageSpis) : m.attempts.run spis = m.pair := by
  unfold TestMessage.pair Attempts.run
  congr 1
  exact stepLoop_spis _ _ _

/-- A pair for a query that asks for a retest has no reply. -/
theorem reply_of_retest {spis : MessageSpis} {logs : List (NamedLog × NamedLog)} {pair : StepPair}
    (h : stepLoop spis logs = some pair) (hquery : pair.query.name = "retest".toList) :
    pair.reply = none := by
  induction logs generalizing spis with
  | nil => cases h
  | cons log logs ih =>
    obtain ⟨query, reply⟩ := log
    simp only [stepLoop, step] at h
    by_cases hq : query.name = "retest".toList
    · simp only [if_pos hq, Option.some.injEq] at h
      rw [← h]
    · simp only [if_neg hq] at h
      split_ifs at h
      · simp only [Option.some.injEq] at h
        rw [← h] at hquery
        exact absurd hquery hq
      · exact ih h
      · simp only [Option.some.injEq] at h
        rw [← h] at hquery
        exact absurd hquery hq

/-- A pair that ends the execution without a result is not a timeout. -/
theorem not_timeout_of_disturbing (m : TestMessage)
    (h : (m.pair.isRetest || m.pair.isException) = true) : m.pair.isTimeout = false := by
  have hne : "exception".toList ≠ "timeout".toList := by decide
  have hne' : "retest".toList ≠ "timeout".toList := by decide
  simp only [StepPair.isRetest, StepPair.isException, Bool.or_eq_true, decide_eq_true_eq] at h
  rw [StepPair.isTimeout, decide_eq_false_iff_not]
  rcases h with (hquery | hreply) | hreply
  · have hpair : stepLoop m.spis m.attempts.logs = some m.pair := (Option.some_get _).symm
    rw [StepPair.getReplyName, reply_of_retest hpair hquery]
    exact nofun
  · rw [hreply]
    exact fun h => hne' (Option.some.inj h)
  · rw [hreply]
    exact fun h => hne (Option.some.inj h)

/-! ## The loop -/

variable {v : ExecuteVars} {m : TestMessage} {ms : List TestMessage}

theorem loop_of_timeout (hv : v.timeoutOccured = true) (ms : List TestMessage) :
    v.loop ms = ([], v.finish) := by
  induction ms with
  | nil => rfl
  | cons m ms ih => rw [ExecuteVars.loop, hv, Bool.or_true, if_pos rfl, ih]

theorem loop_of_empty (hm : isEmptyMessage m.name = true) : v.loop (m :: ms) = v.loop ms := by
  rw [ExecuteVars.loop, hm, Bool.true_or, if_pos rfl]

theorem loop_of_disturbing (hm : isEmptyMessage m.name = false) (hv : v.timeoutOccured = false)
    (h : (m.pair.isRetest || m.pair.isException) = true) :
    v.loop (m :: ms) = ([⟨m.name, v.spis.or m.spis, m.pair⟩], .null) := by
  simp only [ExecuteVars.loop, hm, hv, run_eq_pair, h, Bool.or_false, Bool.false_eq_true, if_false,
    if_true]

theorem loop_of_recorded (hm : isEmptyMessage m.name = false) (hv : v.timeoutOccured = false)
    (h : (m.pair.isRetest || m.pair.isException) = false) :
    v.loop (m :: ms) = (⟨m.name, v.spis.or m.spis, m.pair⟩ :: ((v.record m.pair).loop ms).1,
      ((v.record m.pair).loop ms).2) := by
  simp only [ExecuteVars.loop, hm, hv, run_eq_pair, h, Bool.or_false, Bool.false_eq_true, if_false]

theorem stepPairs_of_empty (hm : isEmptyMessage m.name = true) : stepPairs (m :: ms) = stepPairs ms := by
  simp [stepPairs, sentMessages, hm]

theorem stepPairs_of_sent (hm : isEmptyMessage m.name = false) :
    stepPairs (m :: ms) = m.pair :: stepPairs ms := by
  simp [stepPairs, sentMessages, hm]

/-! ## Lists of pairs -/

variable {p : StepPair} {ps : List StepPair}

theorem disturbed_cons_of_timeout (h : p.isTimeout = true) : ¬ Disturbed (p :: ps) := by
  simp [Disturbed, h]

theorem disturbed_cons (h : p.isTimeout = false) :
    Disturbed (p :: ps) ↔ (p.isRetest || p.isException) = true ∨ Disturbed ps := by
  simp [Disturbed, h]

theorem take_timeoutIndex_of_timeout (h : p.isTimeout = true) :
    (p :: ps).take (timeoutIndex (p :: ps)) = [p] := by
  simp [timeoutIndex, h, List.findIdx_cons]

theorem take_timeoutIndex_cons (h : p.isTimeout = false) :
    (p :: ps).take (timeoutIndex (p :: ps)) = p :: ps.take (timeoutIndex ps) := by
  simp only [timeoutIndex, List.any_cons, h, Bool.false_or, List.findIdx_cons, cond_false,
    List.length_cons]
  split_ifs <;> rw [List.take_succ_cons]

/-- Only the last of the pairs up to the first timeout can be one. -/
theorem not_timeout_of_mem_dropLast (ps : List StepPair) :
    ∀ q ∈ (ps.take (timeoutIndex ps)).dropLast, q.isTimeout = false := by
  induction ps with
  | nil => simp
  | cons p ps ih =>
    cases h : p.isTimeout with
    | true => simp [take_timeoutIndex_of_timeout h]
    | false =>
      rw [take_timeoutIndex_cons h]
      cases hps : ps.take (timeoutIndex ps) with
      | nil => simp
      | cons q qs =>
        rw [hps] at ih
        rw [List.dropLast_cons_cons]
        exact List.forall_mem_cons.2 ⟨h, ih⟩

/-! ## The result -/

open Classical in
/-- The result of the loop, for the pairs that `step` returns. -/
theorem loop_result (hv : v.timeoutOccured = false) (ms : List TestMessage) :
    (v.loop ms).2 =
      if Disturbed (stepPairs ms) then .null
      else ExecuteVars.finish
        { v with pairs := v.pairs ++ (stepPairs ms).take (timeoutIndex (stepPairs ms)) } := by
  induction ms generalizing v with
  | nil => simp [ExecuteVars.loop, stepPairs, sentMessages, Disturbed]
  | cons m ms ih =>
    cases hm : isEmptyMessage m.name with
    | true => rw [loop_of_empty hm, stepPairs_of_empty hm, ih hv]
    | false =>
      rw [stepPairs_of_sent hm]
      cases hd : m.pair.isRetest || m.pair.isException with
      | true =>
        have ht := not_timeout_of_disturbing m hd
        rw [loop_of_disturbing hm hv hd, if_pos ((disturbed_cons ht).2 (.inl hd))]
      | false =>
        rw [loop_of_recorded hm hv hd]
        cases ht : m.pair.isTimeout with
        | true =>
          -- the messages behind the timeout are skipped
          rw [loop_of_timeout (show (v.record m.pair).timeoutOccured = true from ht),
            if_neg (disturbed_cons_of_timeout ht), take_timeoutIndex_of_timeout ht]
          rfl
        | false =>
          rw [ih (show (v.record m.pair).timeoutOccured = false from ht), take_timeoutIndex_cons ht]
          simp only [disturbed_cons ht, hd, Bool.false_eq_true, false_or]
          split_ifs
          · rfl
          · simp only [ExecuteVars.finish, ExecuteVars.record, List.append_assoc, List.singleton_append]

/-- The messages that are stepped are the first ones of those that are sent, with their pairs. -/
theorem loop_stepped (hv : v.timeoutOccured = false) (ms : List TestMessage) :
    ((v.loop ms).1.map fun s => (s.name, s.pair)) <+:
      (sentMessages ms).map fun m => (m.name, m.pair) := by
  induction ms generalizing v with
  | nil => exact List.nil_prefix
  | cons m ms ih =>
    cases hm : isEmptyMessage m.name with
    | true =>
      have hsent : sentMessages (m :: ms) = sentMessages ms := by simp [sentMessages, hm]
      rw [loop_of_empty hm, hsent]
      exact ih hv
    | false =>
      have hsent : sentMessages (m :: ms) = m :: sentMessages ms := by simp [sentMessages, hm]
      rw [hsent, List.map_cons]
      cases hd : m.pair.isRetest || m.pair.isException with
      | true =>
        rw [loop_of_disturbing hm hv hd]
        exact List.prefix_append _ _
      | false =>
        rw [loop_of_recorded hm hv hd, List.map_cons, List.prefix_cons_inj]
        cases ht : m.pair.isTimeout with
        | true =>
          rw [loop_of_timeout (show (v.record m.pair).timeoutOccured = true from ht)]
          exact List.nil_prefix
        | false => exact ih ht

/-- An SPI that is known, from before or from an earlier pair, is given to every message. -/
theorem loop_given {sel : MessageSpis → Option Text} (hsel : ∀ a b, sel (a.or b) = (sel a).or (sel b))
    (ms : List TestMessage) {pre post : List Stepped} {s : Stepped} {spi : Text}
    (hs : (v.loop ms).1 = pre ++ s :: post)
    (hspi : (sel v.spis).or (pre.findSome? fun s => sel s.pair.spis) = some spi) :
    sel s.given = some spi := by
  induction ms generalizing v pre with
  | nil => cases pre <;> cases hs
  | cons m ms ih =>
    cases hskip : isEmptyMessage m.name || v.timeoutOccured with
    | true =>
      rw [ExecuteVars.loop, hskip, if_pos rfl] at hs
      exact ih hs hspi
    | false =>
      obtain ⟨hm, hv⟩ := Bool.or_eq_false_iff.1 hskip
      have hfirst : pre = [] → s.given = v.spis.or m.spis → sel s.given = some spi := by
        rintro rfl hgiven
        rw [List.findSome?_nil, Option.or_none] at hspi
        rw [hgiven, hsel, hspi, Option.some_or]
      cases hd : m.pair.isRetest || m.pair.isException with
      | true =>
        rw [loop_of_disturbing hm hv hd, List.singleton_eq_append_iff] at hs
        rcases hs with ⟨hpre, hs⟩ | ⟨-, hs⟩
        · exact hfirst hpre (by rw [(List.cons.inj hs).1])
        · cases hs
      | false =>
        rw [loop_of_recorded hm hv hd] at hs
        cases pre with
        | nil => exact hfirst rfl (by rw [← (List.cons.inj hs).1])
        | cons s' pre =>
          obtain ⟨rfl, hrest⟩ := List.cons.inj hs
          -- the pair of the first message becomes part of what is known
          have hcons : ∀ s : Stepped, ((s :: pre).findSome? fun s => sel s.pair.spis) =
              (sel s.pair.spis).or (pre.findSome? fun s => sel s.pair.spis) := by
            intro s
            rw [List.findSome?_cons]
            cases sel s.pair.spis <;> rfl
          rw [hcons, ← Option.or_assoc, ← hsel] at hspi
          exact ih hrest hspi

/-- The logs of a message that is retransmitted once and then answered by a reply of the given name. -/
def retransmittedLogs (name reply : String) (ispi : Option Text) : List (NamedLog × NamedLog) :=
  [(⟨name.toList, none, none⟩, ⟨"retransmission".toList, none, none⟩),
    (⟨name.toList, none, none⟩, ⟨reply.toList, ispi, none⟩)]

/-- A message with such logs that had no SPIs before. -/
def retransmittedMessage (name reply : String) (ispi : Option Text)
    (h : (stepLoop ⟨none, none⟩ (retransmittedLogs name reply ispi)).isSome = true) : TestMessage where
  name := name.toList
  spis := ⟨none, none⟩
  attempts := ⟨retransmittedLogs name reply ispi, isSome_stepLoop h⟩

/-- The second message times out, and the third one is not stepped. -/
def timedOutMessages : List TestMessage :=
  [retransmittedMessage "enable_vowifi" "ike_sa_init_request" (some "1".toList) (by decide +kernel),
    retransmittedMessage "ike_sa_init_response" "timeout" none (by decide +kernel),
    retransmittedMessage "ike_auth_1_response" "ike_auth_2_request" none (by decide +kernel)]

/-- The names of a pair. -/
def StepPair.names (pair : StepPair) : QueryReplyPair := ⟨pair.query.name, pair.getReplyName.getD []⟩

theorem names_reply_eq_iff {pair : StepPair} {w : Text} (hw : w ≠ []) :
    pair.names.reply = w ↔ pair.getReplyName = some w := by
  rw [StepPair.names]
  cases pair.getReplyName with
  | none => exact iff_of_false (fun h => hw h.symm) nofun
  | some reply => simp

/-- The result in the terms of the campaign. -/
def ExecuteResult.names : ExecuteResult → Option (List QueryReplyPair)
  | .null => none
  | .pairs ps => some (ps.map StepPair.names)
  | .indexOutOfBounds => some []

/-- The loop of the campaign, which has only the names of the messages, is the loop over the messages
with their logs and SPIs left out. -/
theorem executeLoop_names (v : ExecuteVars) (ms : List TestMessage) :
    executeLoop v.timeoutOccured (v.pairs.map StepPair.names)
        (ms.map fun m => (m.name, m.pair.names)) = (v.loop ms).2.names := by
  induction ms generalizing v with
  | nil =>
    rw [ExecuteVars.loop, ExecuteVars.finish]
    split_ifs with hnil
    · rw [hnil]
      rfl
    · rfl
  | cons m ms ih =>
    have hretest : (m.pair.names.query = "retest".toList ∨ m.pair.names.reply = "retest".toList) ↔
        m.pair.isRetest = true := by
      rw [names_reply_eq_iff (by decide), StepPair.isRetest, Bool.or_eq_true, decide_eq_true_eq,
        decide_eq_true_eq]
      rfl
    have hexception : m.pair.names.reply = "exception".toList ↔ m.pair.isException = true := by
      rw [names_reply_eq_iff (by decide), StepPair.isException, decide_eq_true_eq]
    have htimeout : decide (m.pair.names.reply = "timeout".toList) = m.pair.isTimeout :=
      decide_eq_decide.2 (names_reply_eq_iff (by decide))
    rw [List.map_cons, executeLoop]
    cases hskip : isEmptyMessage m.name || v.timeoutOccured with
    | true =>
      rw [if_pos rfl, ih, ExecuteVars.loop, hskip, if_pos rfl]
    | false =>
      obtain ⟨hm, hv⟩ := Bool.or_eq_false_iff.1 hskip
      rw [if_neg Bool.false_ne_true]
      simp only [Bool.or_eq_true, decide_eq_true_eq, hretest, hexception, htimeout]
      by_cases hr : m.pair.isRetest = true
      · rw [if_pos hr, loop_of_disturbing hm hv (by rw [hr, Bool.true_or])]
        rfl
      · by_cases he : m.pair.isException = true
        · rw [if_neg hr, if_pos he, loop_of_disturbing hm hv (by rw [he, Bool.or_true])]
          rfl
        · have hd : (m.pair.isRetest || m.pair.isException) = false := by
            rw [Bool.eq_false_iff.2 hr, Bool.eq_false_iff.2 he, Bool.or_false]
          rw [if_neg hr, if_neg he, loop_of_recorded hm hv hd, ← ih, ExecuteVars.record, List.map_append]
          rfl

end Control
