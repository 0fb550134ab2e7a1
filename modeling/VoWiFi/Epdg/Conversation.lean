import Mathlib.Combinatorics.Enumerative.DyckWord
import VoWiFi.Epdg.TaskManager
import VoWiFi.Lib.Run

/-!
# A conversation of the task manager with its peer

The task manager handles one message after another, while the listener thread publishes queries. This
module says what is asked of a whole conversation: that the reports form blocks, that requests are
numbered as they are handed to `process_request`, and that the filter for retransmissions drops
nothing else.
-/

namespace Epdg

open Report (MsgType)

/-- What reaches the task manager. -/
inductive Incoming where
  | message (h : Header) (d : Delivery)
  | listener (e : ListenerEvent)

/-- The task manager with everything it has done. -/
structure Conversation where
  tm : TaskManager
  /-- The IKE SA takes more messages. -/
  alive : Bool
  log : List Action

/-- The IKE SA exists after the call, and the thread that made it has returned. -/
def Return.alive : Return → Bool
  | .status st => st ≠ .destroyMe
  | _ => false

/-- What is done for an incoming message. -/
def Conversation.actions (c : Conversation) : Incoming → List Action
  | .message h d => if c.alive then (processMessage h d c.tm).log else []
  | .listener _ => []

/-- The conversation after an event. -/
def Conversation.next (c : Conversation) : Incoming → Conversation
  | .message h d =>
    if c.alive then
      let r := processMessage h d c.tm
      ⟨r.tm, r.ret.alive, c.log ++ r.log⟩
    else c
  | .listener e => { c with tm := { c.tm with inst := c.tm.inst.listen e } }

/-- A session after `init`, attached to the IKE SA of a task manager. -/
def TaskManager.start (tm : TaskManager) : Conversation :=
  { tm := { tm with
      inst := (tm.inst.handleInit.checkInstance tm.id.ispi tm.id.rspi true).2 }
    alive := true
    log := [] }

/-! ## Reading the log -/

/-- The bracket a report stands for. -/
def Action.bracket? : Action → Option DyckStep
  | .report _ .blockStart _ _ _ => some .U
  | .report _ .blockEnd _ _ _ => some .D
  | _ => none

/-- The starts and ends of blocks. -/
def brackets (log : List Action) : List DyckStep := log.filterMap Action.bracket?

/-- The reports form a sequence of well-nested blocks, all of them closed. -/
def Bracketed (log : List Action) : Prop := ∃ w : DyckWord, w.toList = brackets log

/-- The label of a request. -/
def Action.requestLabel? : Action → Option (Option Symbol)
  | .report .processMessage .blockStart symbol _ _ => some symbol
  | _ => none

/-- The labels of requests. -/
def requestLabels (log : List Action) : List (Option Symbol) := log.filterMap Action.requestLabel?

/-- The request handed to `process_request`. -/
def Action.handOver? : Action → Option Header
  | .handOver h => some h
  | _ => none

/-- The requests handed to `process_request`. -/
def handedOver (log : List Action) : List Header := log.filterMap Action.handOver?

/-- The message that was parsed. -/
def Action.parsed? : Action → Option Header
  | .parsed h => some h
  | _ => none

/-- The message that was dropped as a retransmission. -/
def Action.discard? : Action → Option Header
  | .discard h => some h
  | _ => none

/-- How many IKE_AUTH requests have been handed to `process_request` since the last IKE_SA_INIT
request, each counted when it was handed over for the first time. -/
def authRounds (log : List Action) : ℕ :=
  ((handedOver log).reverse.dedup.takeWhile (·.exchange ≠ .ikeSaInit)).countP
    (·.exchange = .ikeAuth)

/-! ## What is asked of a conversation -/

/-- A request that is handed over for the first time gets one label, the one of its place in the
handshake; a message that is parsed and not handed over gets none. -/
def Numbered (c : Conversation) (e : Incoming) : Prop :=
  (∀ h ∈ handedOver (c.actions e), h ∉ handedOver c.log →
    (h.exchange = .ikeSaInit →
      requestLabels (c.actions e) = [some (.request .init)]) ∧
    (h.exchange = .ikeAuth → ∀ k : Fin 5, authRounds c.log = k →
      requestLabels (c.actions e) = [some (.request (.auth k))])) ∧
  ((c.actions e).filterMap Action.parsed? ≠ [] → handedOver (c.actions e) = [] →
    requestLabels (c.actions e) = [])

/-- A request that is dropped as a retransmission has been handed over before. -/
def Justified (c : Conversation) (e : Incoming) : Prop :=
  ∀ h ∈ (c.actions e).filterMap Action.discard?, h.request = true →
    ∃ h' ∈ handedOver c.log, h'.mid = h.mid

/-! ## Conditions on messages -/

/-- The message is dropped as a retransmission. -/
def TaskManager.discards (tm : TaskManager) (h : Header) : Bool :=
  tm.attached && tm.inst.seen h && 0 < tm.inst.imid

/-- The message is taken for a new one of the session. -/
def TaskManager.takesAsNew (tm : TaskManager) (h : Header) : Bool :=
  tm.attached && !tm.discards h && (tm.inst.count h).retransmission = 0

/-- IKE_SA_INIT or IKE_AUTH. -/
def Header.isHandshake (h : Header) : Bool := h.exchange = .ikeSaInit || h.exchange = .ikeAuth

/-- `process_message` reports the message. -/
def TaskManager.reports (tm : TaskManager) (h : Header) : Bool :=
  tm.takesAsNew h && h.isHandshake && !tm.inst.notReport

/-- The message parses and, being whole, is handed to `process_request` if it gets so far. -/
def TaskManager.accepts (tm : TaskManager) (h : Header) (b : Body) (env : Env) : Bool :=
  env.parse = .success && (tm.hasCfg || env.cfgFound) && h.request && tm.inWindow h b env &&
    !rejectRequest h.exchange env && !env.altered

/-- No task fails to process the request. -/
def TasksPass (tm : TaskManager) (h : Header) (b : Body) (env : Env) : Prop :=
  ∃ tasks, tm.requestTasks h b env = some tasks ∧ ∀ i < tasks.length,
    env.preProcess i = .success ∧ (env.process i = .success ∨ env.process i = .needMore)

/-- The listener does nothing but publish queries. -/
def OnlyPublishes (wait : List ListenerEvent) : Prop := ∀ e ∈ wait, ∃ q, e = .publish q

/-- The task manager that a reassembled message meets, after the fragment that completed it. -/
def TaskManager.afterFragment (tm : TaskManager) (h : Header) (b : Body) : TaskManager :=
  match (tm.inst.count h).reportRequest h b with
  | .ok (inst, _) => { tm with inst := inst, hasCfg := true }
  | .error _ => tm

/-- A message that is reported does not parse, or is handed over whole and passes all tasks; and then
the session is running and gets a query. -/
def Closes (h : Header) : Delivery → TaskManager → Prop
  | .whole b env, tm =>
    (tm.reports h = true → env.parse = .success → tm.accepts h b env = true ∧ TasksPass tm h b env) ∧
    (tm.attached = true → tm.accepts h b env = true → TasksPass tm h b env →
      tm.inst.initiated = true ∧ tm.inst.finished = false ∧ OnlyPublishes env.wait)
  | .fragment b env reassembled, tm =>
    tm.reports h = false ∧
      (env.addFragment = .success → Closes h reassembled (tm.afterFragment h b))

/-- A message of the handshake that is taken for a new one has no client error, is not suppressed, and
is handed over whole for the first time; one that is not has been handed over before if it is handed
over at all. -/
def InOrder (log : List Action) (h : Header) : Delivery → TaskManager → Prop
  | .whole b env, tm => OnlyPublishes env.wait ∧ (h.isHandshake = true →
    (tm.takesAsNew h = true → tm.accepts h b env = true ∧ h ∉ handedOver log ∧
      tm.inst.notReport = false ∧ b.clientError = false) ∧
    (tm.takesAsNew h = false → tm.attached = true → tm.discards h = false →
      tm.accepts h b env = true → h ∈ handedOver log))
  | .fragment b env reassembled, tm =>
    (h.isHandshake = true → tm.takesAsNew h = false) ∧
      (env.addFragment = .success → InOrder log h reassembled (tm.afterFragment h b))

/-- When the filter counts a message, other than an IKE_SA_INIT message, up to a positive number, the
request with that message ID is handed over now, or has been before. -/
def Counted (log : List Action) (h : Header) : Delivery → TaskManager → Prop
  | .whole b env, tm =>
    tm.attached = true → tm.inst.seen h = false → h.exchange ≠ .ikeSaInit → 0 < tm.inst.imid + 1 →
      (tm.accepts h b env = true ∧ (h.mid.toNat : ℤ) = tm.inst.imid + 1) ∨
        ∃ h' ∈ handedOver log, (h'.mid.toNat : ℤ) = tm.inst.imid + 1
  | .fragment b env reassembled, tm =>
    (tm.attached = true → tm.inst.seen h = false → h.exchange ≠ .ikeSaInit → 0 < tm.inst.imid + 1 →
      ∃ h' ∈ handedOver log, (h'.mid.toNat : ℤ) = tm.inst.imid + 1) ∧
      (env.addFragment = .success → Counted log h reassembled (tm.afterFragment h b))

/-- A condition on messages as a condition on what reaches the task manager. -/
def Incoming.Meets (P : List Action → Header → Delivery → TaskManager → Prop) (c : Conversation) :
    Incoming → Prop
  | .message h d => c.alive = true → P c.log h d c.tm
  | .listener _ => True

/-- The listener does not end or reset the session. -/
def Incoming.KeepsSession : Incoming → Prop
  | .message _ _ => True
  | .listener e => ∃ q, e = .publish q

/-! ## Messages of a sample session -/

/-- A new IKE SA to which a session is attached after `init`. -/
def sampleManager : TaskManager where
  id := ⟨1, 2, by decide⟩
  inst := { initInstance with ispi := 1, rspi := 2, initiated := true }
  respondingMid := 0
  respondingPackets := false
  initiatingMid := 0
  hasCfg := false
  passiveTasks := []

/-- A query that asks for a response and changes nothing in it. -/
def plainQuery (name : String) : Query := .node ⟨some name.toList, .notSet, 0, none⟩ []

/-- The IKE_SA_INIT request of the peer, with the query for its response. -/
def sampleInit : Incoming :=
  .message ⟨.ikeSaInit, 0, true⟩
    (.whole {} { state := .created, wait := [.publish (plainQuery "ike_sa_init_response")] })

/-- An IKE_AUTH request with the given message ID, and the query for its response. -/
def sampleAuth (mid : UInt32) : Incoming :=
  .message ⟨.ikeAuth, mid, true⟩
    (.whole {} { wait := [.publish (plainQuery "ike_auth_1_response")] })

end Epdg
