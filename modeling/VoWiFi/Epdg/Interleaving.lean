import VoWiFi.Epdg.Manager
import VoWiFi.Epdg.TaskManager

/-!
# Threads that share the instance

The listener thread handles commands while worker threads handle messages of several IKE SAs, and all
of them work on the one instance. A call of `process_message` or `build_response` can therefore be
overtaken between the point where it finds the session attached and the point where it compares the
label of the last request or response. Such a call is kept in a list until it goes on.
-/

namespace Epdg

/-- A call that has found the session attached to its IKE SA. -/
inductive Pending where
  /-- `process_message` is about to label a message. -/
  | request (h : Header) (b : Body)
  /-- `build_response` waits for a query. -/
  | waiting (exchange : ExchangeType)
  /-- `build_response` has a query and is about to label the response. -/
  | response (exchange : ExchangeType) (q : Query)

/-- What happens to the labels of the instance. -/
inductive Mark where
  | init
  /-- An IKE_SA_INIT message gets its label. -/
  | opened
  /-- A response gets its label. -/
  | answered
  /-- A failure frees the session. -/
  | failed
  deriving DecidableEq, Repr

/-- The manager with its instance, the calls on their way, and what has happened, the last first. -/
structure Shared where
  manager : Manager
  pending : List Pending
  history : List Mark

/-- When the controller connects. -/
def Shared.start : Shared := ⟨.start, [], []⟩

/-- What one of the threads does. -/
inductive SharedEvent where
  /-- The listener handles a command or a query. -/
  | listener (e : ListenerEvent)
  | checkout (msg : CheckoutMessage)
  /-- `process_message` begins. -/
  | processMessage (id : SaId) (h : Header) (b : Body)
  /-- `build_response` begins. -/
  | buildResponse (id : SaId) (exchange : ExchangeType)
  | proceed (i : ℕ)
  /-- `build_response` closes its report. -/
  | close (id : SaId)
  /-- Other code, which leaves both labels alone. -/
  | other (f : Manager → Manager)
    (keeps : ∀ m, (f m).inst.rprev = m.inst.rprev ∧ (f m).inst.sprev = m.inst.sprev)

/-- Write to the instance. -/
def Shared.write (s : Shared) (inst : Instance) : Shared :=
  { s with manager := { s.manager with inst := inst } }

/-- The session is attached to the IKE SA. -/
def Shared.attached (s : Shared) (id : SaId) : Bool :=
  (s.manager.inst.checkInstance id.ispi id.rspi false).1

/-- The listener thread. -/
def Shared.listen (s : Shared) : ListenerEvent → Shared
  | .init => { s with manager := s.manager.next .init, history := .init :: s.history }
  | .fin => { s with manager := s.manager.next .fin }
  | .publish q => s.write (s.manager.inst.setQuery q)

/-- The message is one that `process_message` labels as IKE_SA_INIT. -/
def Shared.opens (s : Shared) (h : Header) : Bool :=
  s.manager.inst.retransmission = 0 && h.exchange = .ikeSaInit

/-- The `i`-th call goes on. -/
def Shared.resume (s : Shared) (i : ℕ) : Pending → Except Fault Shared
  | .request h b => do
    let (inst, _) ← s.manager.inst.reportRequest h b
    return { s.write inst with
      pending := s.pending.eraseIdx i
      history := if s.opens h then .opened :: s.history else s.history }
  | .waiting exchange =>
    match s.manager.inst.poll with
    | none => .ok s
    | some none => .ok { s with pending := s.pending.eraseIdx i }
    | some (some q) => .ok { s with pending := s.pending.set i (.response exchange q) }
  | .response exchange q => do
    let (_, round) ← responseLabel exchange q s.manager.inst.sprev
    return { s.write { s.manager.inst with sprev := some round } with
      pending := s.pending.eraseIdx i
      history := .answered :: s.history }

/-- One step of one thread. -/
def Shared.step (s : Shared) : SharedEvent → Except Fault Shared
  | .listener e => .ok (s.listen e)
  | .checkout msg => .ok { s with manager := (s.manager.checkoutByMessage msg).manager }
  | .processMessage id h b =>
    if s.attached id then
      let inst := s.manager.inst.count h
      if s.manager.inst.seen h ∧ 0 < inst.imid then .ok (s.write inst)
      else .ok { s.write inst with pending := s.pending ++ [.request h b] }
    else .ok s
  | .buildResponse id exchange =>
    if s.attached id && s.manager.inst.initiated && !s.manager.inst.finished then
      .ok { s with pending := s.pending ++ [.waiting exchange] }
    else .ok s
  | .proceed i =>
    match s.pending[i]? with
    | none => .ok s
    | some call => s.resume i call
  | .close id =>
    if s.attached id then
      let (inst, symbol) := s.manager.inst.closeResponse
      .ok { s.write inst with
        history := if symbol.isSome then .failed :: s.history else s.history }
    else .ok s
  | .other f _ => .ok { s with manager := f s.manager }

/-- The state after a step; a step that fails leaves none to go on from, and stands still here. -/
def Shared.next (s : Shared) (e : SharedEvent) : Shared :=
  match s.step e with
  | .ok s' => s'
  | .error _ => s

/-- The step does not compare a label that is not set. -/
def Defined (s : Shared) (e : SharedEvent) : Prop := s.step e ≠ .error .nullPointer

/-- An IKE_SA_INIT message has got its label since the last `init`. -/
def Shared.isOpened (s : Shared) : Bool := (s.history.takeWhile (· ≠ .init)).contains .opened

/-- A response has got its label since the last `init`, and no failure has freed the session since. -/
def Shared.isAnswered (s : Shared) : Bool :=
  (s.history.takeWhile fun m => m ≠ .init && m ≠ .failed).contains .answered

/-- A call for an IKE_AUTH message goes on only in a handshake that has got so far: to label a
request there must have been an IKE_SA_INIT message, to label the response of a round a response. -/
def InHandshake (s : Shared) : SharedEvent → Prop
  | .proceed i =>
    match s.pending[i]? with
    | some (.request h _) =>
      h.exchange = .ikeAuth → s.manager.inst.retransmission = 0 → s.isOpened = true
    | some (.response exchange q) =>
      exchange = .ikeAuth → (authRoundOf q).isSome = true → s.isAnswered = true
    | _ => True
  | _ => True

end Epdg
