import VoWiFi.Epdg.TaskManager
import VoWiFi.Lib.Run

/-!
# The chain of response labels

`build_response` reports a response under a label, and at its end a failure that a task has marked.
The labels of IKE_AUTH responses should count the rounds since the last IKE_SA_INIT response, and an
error should end the counting until there is a new one.
-/

namespace Epdg

/-- The label that `build_response` adds to the queue. -/
def Action.responseLabel? : Action → Option Symbol
  | .report .buildResponse _ symbol _ _ => symbol
  | _ => none

/-- The instance, and the labels of responses that have been added to the queue. -/
structure ResponseLog where
  inst : Instance
  labels : List Symbol

/-- What happens to the instance. -/
inductive ResponseEvent where
  /-- The task manager of an IKE SA calls `build_response`. -/
  | buildResponse (tm : TaskManager) (h : Header) (env : Env)
  /-- A command of the controller. -/
  | listener (e : ListenerEvent)
  /-- Other code, which leaves the label of the last response alone. -/
  | other (f : Instance → Instance) (keeps : ∀ inst, (f inst).sprev = inst.sprev)

/-- One event. The task managers of all IKE SAs share the instance. -/
def ResponseLog.next (s : ResponseLog) : ResponseEvent → ResponseLog
  | .buildResponse tm h env =>
    let r := TaskManager.buildResponse { tm with inst := s.inst } h env
    ⟨r.tm.inst, s.labels ++ r.log.filterMap Action.responseLabel?⟩
  | .listener e => { s with inst := s.inst.listen e }
  | .other f _ => { s with inst := f s.inst }

/-- A label that stands for an error. -/
def Symbol.isError : Symbol → Bool
  | request _ | response _ | clientError => false
  | errorInIkeSaInit | errorInIkeAuth | errorInExchangeType => true
  | authFailed | noProposalChosen | invalidKePayload => true

/-- The labels of the first `k` IKE_AUTH responses. -/
def authResponses (k : ℕ) : List Symbol := ((List.finRange 5).take k).map fun j => .response (.auth j)

/-- The labels of responses form chains. -/
structure Chained (labels : List Symbol) : Prop where
  /-- Between the last IKE_SA_INIT response and that of an IKE_AUTH round there are the responses of the
  rounds before, and nothing else. -/
  chain : ∀ before (k : Fin 5) after, labels = before ++ .response (.auth k) :: after →
    ∃ earlier, before = earlier ++ .response .init :: authResponses k
  /-- Between an error and the response of an IKE_AUTH round there is an IKE_SA_INIT response. -/
  error : ∀ before (e : Symbol) between (k : Fin 5) after, e.isError = true →
    labels = before ++ e :: between ++ .response (.auth k) :: after → .response .init ∈ between

end Epdg
