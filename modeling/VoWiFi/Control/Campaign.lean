import VoWiFi.Lib.JavaString

/-!
# The main loop of the controller

`Controller.main` runs the loaded testcases one after the other, from the one that is selected on the
command line. It executes a testcase until the result is usable, lets the functional oracle judge it,
executes the liveness testcase and lets the liveness oracle judge that, and stores both results.

The phone, the ePDG and the IMS server decide what an execution gives: `Execution` holds what
`step` returns in the end for each message of a testcase.
-/

namespace Control

/-! ## Executing a testcase -/

/-- The names of the messages of a `QueryReplyPair`. -/
structure QueryReplyPair where
  query : Text
  reply : Text
  deriving DecidableEq, Repr

/-- The name of a message that is not sent. -/
def isEmptyMessage (name : Text) : Bool := Text.contains name "ε".toList

/-- An execution of a testcase: the name of each message, and the pair that `step` returns for it if
it is sent. At least one message is meant to be sent. -/
structure Execution where
  messages : List (Text × QueryReplyPair)
  sends : ∃ m ∈ messages, isEmptyMessage m.1 = false

/-- The loop of `executeTestcase` over the messages. The result is null if a pair asks for a retest
or reports an exception. -/
def executeLoop (timeoutOccured : Bool) (pairs : List QueryReplyPair) :
    List (Text × QueryReplyPair) → Option (List QueryReplyPair)
  | [] => some pairs
  | (name, pair) :: ms =>
    if isEmptyMessage name || timeoutOccured then executeLoop timeoutOccured pairs ms
    else if pair.query = "retest".toList || pair.reply = "retest".toList then none
    else if pair.reply = "exception".toList then none
    else executeLoop (pair.reply = "timeout".toList) (pairs ++ [pair]) ms

theorem executeLoop_ne_nil {timeoutOccured : Bool} {pairs result : List QueryReplyPair}
    {ms : List (Text × QueryReplyPair)} (h : executeLoop timeoutOccured pairs ms = some result)
    (hne : pairs ≠ [] ∨ timeoutOccured = false ∧ ∃ m ∈ ms, isEmptyMessage m.1 = false) :
    result ≠ [] := by
  induction ms generalizing timeoutOccured pairs with
  | nil =>
    obtain rfl := Option.some.inj h
    rcases hne with hne | ⟨-, m, hm, -⟩
    · exact hne
    · cases hm
  | cons m ms ih =>
    rw [executeLoop] at h
    split at h
    · -- the message is skipped, so that it is not the one that is sent
      refine ih h (hne.imp_right fun ⟨htimeout, m', hm', hsent⟩ => ⟨htimeout, ?_⟩)
      rcases List.mem_cons.1 hm' with rfl | hm'
      · simp_all
      · exact ⟨m', hm', hsent⟩
    · split at h
      · cases h
      · split at h
        · cases h
        · exact ih h (.inl (by simp))

/-- The pairs of an execution; there is at least one. -/
def Pairs := { pairs : List QueryReplyPair // pairs ≠ [] }

/-- `executeTestcase`, with `none` for null. -/
def executeTestcase (e : Execution) : Option Pairs :=
  match h : executeLoop false [] e.messages with
  | none => none
  | some pairs => some ⟨pairs, executeLoop_ne_nil h (.inr ⟨rfl, e.sends⟩)⟩

/-- The first pair. -/
def Pairs.first (pairs : Pairs) : QueryReplyPair := pairs.1.head pairs.2

/-- The last pair. -/
def Pairs.last (pairs : Pairs) : QueryReplyPair := pairs.1.getLast pairs.2

/-! ## Oracles -/

/-- If the query is of one kind, then the reply is of the other. -/
def QueryReplyPair.follows (pair : QueryReplyPair) (query : String) (replies : List String) : Bool :=
  !Text.contains pair.query query.toList || replies.any fun r => Text.contains pair.reply r.toList

/-- The replies of a registration, given those that are taken for the query `ike_auth_3_response`. -/
def QueryReplyPair.isRegular (pair : QueryReplyPair) (third : List String) : Bool :=
  pair.follows "enable_vowifi" ["ike_sa_init_request"] &&
    pair.follows "ike_sa_init_response" ["ike_auth_1_request"] &&
    pair.follows "ike_auth_1_response" ["ike_auth_2_request"] &&
    pair.follows "ike_auth_2_response" ["ike_auth_3_request"] &&
    pair.follows "ike_auth_3_response" third &&
    pair.follows "401_unauthorized" ["register_2"] &&
    pair.follows "200_ok" ["done"]

def QueryReplyPair.isNormalSequence (pair : QueryReplyPair) : Bool := pair.isRegular ["register_1"]

def getFunctionalOracleResult (pairs : Pairs) : ℕ :=
  if Text.contains pairs.last.reply "timeout".toList then 0
  else if pairs.last.isNormalSequence then 2
  else 1

/-- The reply is an error of the EAP client. -/
def QueryReplyPair.isClientError (pair : QueryReplyPair) : Bool :=
  Text.contains pair.reply "client_error".toList

/-- The loop of `getLivenessOracleResult`. -/
def livenessLoop (ret : ℕ) : List QueryReplyPair → ℕ
  | [] => ret
  | pair :: pairs =>
    let ret := if pair.isRegular ["timeout", "register_1"] then ret else 1
    if pair.isClientError then 2 else livenessLoop ret pairs

/-- `getLivenessOracleResult`, for a list that is not null. -/
def getLivenessOracleResult (pairs : Pairs) : ℕ := livenessLoop 0 pairs.1

/-! ## The main loop -/

/-- What the main loop does with a testcase, which it has by its number. -/
inductive Action where
  | executeTestcase (num : ℕ)
  | resetIterator (num : ℕ)
  | rebootUE
  | addLog (num : ℕ) (pairs : List QueryReplyPair)
  /-- The functional oracle judges a testcase, and its result is added to the log. -/
  | functionalOracle (num : ℕ) (r1 : ℕ)
  | sendDisableWiFi
  /-- The liveness testcase is reset and executed. -/
  | executeLiveness
  /-- The liveness oracle judges the liveness testcase, and its result is added to the log. -/
  | livenessOracle (num : ℕ) (r2 : ℕ)
  | storeLog (id : Text) (num : ℕ)
  deriving DecidableEq, Repr

/-- How the loop ends. -/
inductive Outcome where
  | finished
  /-- A null reference is used, and no one catches the exception. -/
  | nullPointer
  /-- A testcase is to be executed again, and nothing is said about what comes of it. -/
  | running
  deriving DecidableEq, Repr

/-- The result of an execution for which the testcase is executed again. -/
def Pairs.needsRetry (pairs : Pairs) : Bool :=
  Text.contains pairs.first.query "enable_vowifi".toList &&
    Text.contains pairs.first.reply "timeout".toList

/-- The loop that executes a testcase until there is a result. -/
def executeUntilUsable (num : ℕ) : List Execution → List Action × Option Pairs
  | [] => ([], none)
  | e :: es =>
    match Control.executeTestcase e with
    | none =>
      let r := executeUntilUsable num es
      (.executeTestcase num :: .resetIterator num :: r.1, r.2)
    | some pairs =>
      if pairs.needsRetry then
        let r := executeUntilUsable num es
        (.executeTestcase num :: .resetIterator num :: .rebootUE :: r.1, r.2)
      else ([.executeTestcase num], some pairs)

/-- A loaded testcase and what its executions give, with that of the liveness testcase after it. -/
structure Scheduled where
  id : Text
  attempts : List Execution
  liveness : Execution
  /-- Some attempt returns a list whose first reply is not a timeout. -/
  usable : ∃ e ∈ attempts, ∃ pairs, executeTestcase e = some pairs ∧
    Text.contains pairs.first.reply "timeout".toList = false

/-- The end of the body of the main loop, from the result of the liveness oracle. -/
def finishTestcase (tc : Scheduled) (num : ℕ) (r2 : ℕ) (pairs : Pairs) : List Action :=
  .livenessOracle num r2 ::
    (if 0 < r2 || pairs.1.any QueryReplyPair.isClientError then [.rebootUE] else []) ++
    [.storeLog tc.id num]

/-- The body of the main loop, given whether the liveness testcase is loaded. -/
def runTestcase (loaded : Bool) (tc : Scheduled) (num : ℕ) : List Action × Outcome :=
  match executeUntilUsable num tc.attempts with
  | (actions, none) => (actions, .running)
  | (actions, some pairs) =>
    let actions := actions ++ [.addLog num pairs.1,
      .functionalOracle num (getFunctionalOracleResult pairs), .sendDisableWiFi]
    if loaded then
      match executeTestcase tc.liveness with
      | none => (actions ++ [.executeLiveness], .nullPointer)
      | some pairs =>
        (actions ++ .executeLiveness :: finishTestcase tc num (getLivenessOracleResult pairs) pairs,
          .finished)
    else (actions ++ finishTestcase tc num 0 pairs, .finished)

/-- The main loop from a testcase on, `num` being the number of those before it. -/
def mainLoop (loaded : Bool) (startID : Option Text) (startNum : ℤ) :
    Bool → ℕ → List Scheduled → List Action × Outcome
  | _, _, [] => ([], .finished)
  | isMatched, num, tc :: tcs =>
    if isMatched || some tc.id = startID || (num + 1 : ℤ) = startNum then
      match runTestcase loaded tc (num + 1) with
      | (actions, .finished) =>
        let r := mainLoop loaded startID startNum true (num + 1) tcs
        (actions ++ r.1, r.2)
      | stopped => stopped
    else mainLoop loaded startID startNum false (num + 1) tcs

/-- `main` after the testcases have been loaded, given the start that is selected. -/
def main (loaded : Bool) (startID : Option Text) (startNum : ℤ) (tcs : List Scheduled) :
    List Action × Outcome :=
  mainLoop loaded startID startNum (startID = none && startNum = 0) 0 tcs

/-! ## Complete campaigns -/

/-- What should be done once for each testcase. -/
inductive Milestone where
  | functionalOracle (num : ℕ)
  | livenessOracle (num : ℕ)
  | storeLog (id : Text) (num : ℕ)
  deriving DecidableEq, Repr

/-- The milestone that an action is. -/
def Action.milestone : Action → Option Milestone
  | .functionalOracle num _ => some (.functionalOracle num)
  | .livenessOracle num _ => some (.livenessOracle num)
  | .storeLog id num => some (.storeLog id num)
  | _ => none

/-- The testcases from the selected start on, with their numbers. -/
def selected (startID : Option Text) (startNum : ℤ) (tcs : List Scheduled) : List (Scheduled × ℕ) :=
  if startID = none ∧ startNum = 0 then tcs.zipIdx 1
  else (tcs.zipIdx 1).dropWhile fun tc => !(some tc.1.id = startID || (tc.2 : ℤ) = startNum)

/-- The milestones of a testcase. -/
def milestones (tc : Scheduled × ℕ) : List Milestone :=
  [.functionalOracle tc.2, .livenessOracle tc.2, .storeLog tc.1.id tc.2]

/-- The campaign is complete: `main` finishes and has reached every milestone of the selected
testcases once and in order. -/
def Complete (startID : Option Text) (startNum : ℤ) (tcs : List Scheduled) : Prop :=
  (main true startID startNum tcs).2 = .finished ∧
    (main true startID startNum tcs).1.filterMap Action.milestone =
      (selected startID startNum tcs).flatMap milestones

end Control
