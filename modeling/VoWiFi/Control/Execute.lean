import VoWiFi.Control.Campaign

/-!
# Executing a testcase

`Controller.executeTestcase` steps through the messages of a testcase. `Controller.step` sends a message
and asks for two logs: that of the query, and that of the reply. If one of them is a retransmission it
takes over the SPIs of the reply and returns null, and the caller calls it again. The SPIs of the first
replies that have them are given to all later messages.

What the peers report is arbitrary, except that every log has a name and that `step` returns a pair in
the end: `Attempts` holds the logs of the calls for one message.
-/

namespace Control

/-- What is read of a `MessageLog`. -/
structure NamedLog where
  name : Text
  ispi : Option Text
  rspi : Option Text
  deriving DecidableEq, Repr

/-- The SPIs of a message, null as long as they have not been set. -/
structure MessageSpis where
  ispi : Option Text
  rspi : Option Text
  deriving DecidableEq, Repr

/-- The first SPIs, where they are set, and the second ones elsewhere. -/
def MessageSpis.or (a b : MessageSpis) : MessageSpis := ⟨a.ispi.or b.ispi, a.rspi.or b.rspi⟩

/-- A `QueryReplyPair` with its logs. The reply is null if the query asks for a retest. -/
structure StepPair where
  query : NamedLog
  reply : Option NamedLog
  deriving DecidableEq, Repr

def StepPair.getReplyName (pair : StepPair) : Option Text := pair.reply.map NamedLog.name

/-- `getIspi` and `getRspi`. -/
def StepPair.spis (pair : StepPair) : MessageSpis :=
  ⟨pair.reply.bind NamedLog.ispi, pair.reply.bind NamedLog.rspi⟩

/-- One of the two messages is `retest`. -/
def StepPair.isRetest (pair : StepPair) : Bool :=
  pair.query.name = "retest".toList || pair.getReplyName = some "retest".toList

def StepPair.isException (pair : StepPair) : Bool := pair.getReplyName = some "exception".toList

def StepPair.isTimeout (pair : StepPair) : Bool := pair.getReplyName = some "timeout".toList

/-- `step` for the logs that the receiver and the reporter send: the SPIs of the message afterwards, and
the pair, unless it is null. -/
def step (spis : MessageSpis) (query reply : NamedLog) : MessageSpis × Option StepPair :=
  if query.name = "retest".toList then (spis, some ⟨query, none⟩)
  else if reply.name = "retest".toList then (spis, some ⟨query, some reply⟩)
  else if query.name = "retransmission".toList ∨ reply.name = "retransmission".toList then
    (⟨reply.ispi, reply.rspi⟩, none)
  else (spis, some ⟨query, some reply⟩)

/-- The loop that calls `step` until it returns a pair. -/
def stepLoop (spis : MessageSpis) : List (NamedLog × NamedLog) → Option StepPair
  | [] => none
  | (query, reply) :: logs =>
    match step spis query reply with
    | (spis, none) => stepLoop spis logs
    | (_, some pair) => some pair

/-- The logs of the calls of `step` for a message; in the end there is a pair. -/
structure Attempts where
  logs : List (NamedLog × NamedLog)
  returns : ∀ spis, (stepLoop spis logs).isSome = true

/-- The pair that is returned for a message with the given SPIs. -/
def Attempts.run (a : Attempts) (spis : MessageSpis) : StepPair :=
  (stepLoop spis a.logs).get (a.returns spis)

/-- A message of a testcase: its name, its SPIs before the execution, and what comes of it. -/
structure TestMessage where
  name : Text
  spis : MessageSpis
  attempts : Attempts

/-- The variables of `executeTestcase`. -/
structure ExecuteVars where
  spis : MessageSpis
  timeoutOccured : Bool
  pairs : List StepPair

/-- The variables before the first message. -/
def ExecuteVars.init : ExecuteVars := ⟨⟨none, none⟩, false, []⟩

/-- What `executeTestcase` returns. -/
inductive ExecuteResult where
  | null
  | pairs (ps : List StepPair)
  /-- The first pair of an empty list is asked for. -/
  | indexOutOfBounds
  deriving DecidableEq, Repr

/-- A message that has been stepped: its name, the SPIs it had when `step` was called first, and the
pair that was returned. -/
structure Stepped where
  name : Text
  given : MessageSpis
  pair : StepPair

/-- What comes after the loop. -/
def ExecuteVars.finish (v : ExecuteVars) : ExecuteResult :=
  if v.pairs = [] then .indexOutOfBounds else .pairs v.pairs

/-- The variables after a pair that is neither a retest nor an exception. -/
def ExecuteVars.record (v : ExecuteVars) (pair : StepPair) : ExecuteVars :=
  ⟨v.spis.or pair.spis, pair.isTimeout, v.pairs ++ [pair]⟩

/-- The loop over the messages: those that are stepped, and the result. -/
def ExecuteVars.loop (v : ExecuteVars) : List TestMessage → List Stepped × ExecuteResult
  | [] => ([], v.finish)
  | m :: ms =>
    let spis := v.spis.or m.spis
    if isEmptyMessage m.name || v.timeoutOccured then v.loop ms
    else
      let pair := m.attempts.run spis
      let stepped : Stepped := ⟨m.name, spis, pair⟩
      if pair.isRetest || pair.isException then ([stepped], .null)
      else
        let r := (v.record pair).loop ms
        (stepped :: r.1, r.2)

/-- `executeTestcase` for the messages that the iterator of the testcase has. -/
def executeMessages (ms : List TestMessage) : List Stepped × ExecuteResult :=
  ExecuteVars.init.loop ms

/-! ## What an execution should look like -/

/-- The messages that are sent. -/
def sentMessages (ms : List TestMessage) : List TestMessage :=
  ms.filter fun m => !isEmptyMessage m.name

/-- The pair that `step` returns for a message. -/
def TestMessage.pair (m : TestMessage) : StepPair := m.attempts.run m.spis

/-- The pairs that `step` returns for the messages that are sent, if all of them are stepped. -/
def stepPairs (ms : List TestMessage) : List StepPair := (sentMessages ms).map TestMessage.pair

/-- The position of the first timeout, counted from one, or else the number of pairs. -/
def timeoutIndex (ps : List StepPair) : ℕ :=
  if ps.any StepPair.isTimeout then ps.findIdx StepPair.isTimeout + 1 else ps.length

/-- A pair before the first timeout is a retest or an exception. -/
def Disturbed (ps : List StepPair) : Prop :=
  ∃ p ∈ ps.takeWhile fun p => !p.isTimeout, p.isRetest = true ∨ p.isException = true

end Control
