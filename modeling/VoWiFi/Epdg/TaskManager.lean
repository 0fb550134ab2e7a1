import VoWiFi.Epdg.Generate
import VoWiFi.Epdg.Label
import VoWiFi.Report.Message

/-!
# The task manager of an IKE SA

`process_message` of `task_manager_v2.c` takes every message of an IKE SA. If the session is attached
to the SA, it first decides whether the message is a retransmission, gives it a label and reports
the label; only then is the message parsed and its message ID compared with the window. A request in
the window is handed to `process_request`, which lets the queued tasks process it, closes the report
and builds the response.

What other components decide is an input of each call (`Env`): how the message parses, the state of
the IKE SA, the results of the tasks, what the listener thread does while the task manager waits for
a query. A call ends with a status, or not at all: it may wait forever, or compare a label that was
never set.
-/

namespace Epdg

open Report (MsgType)

/-- The SPIs of an IKE SA; the responder has drawn its own. -/
structure SaId where
  ispi : UInt64
  rspi : UInt64
  rspi_ne : rspi ≠ 0
  deriving DecidableEq, Repr

/-- The task manager with its IKE SA and the instance, as far as `process_message` reads them. -/
structure TaskManager where
  id : SaId
  inst : Instance
  respondingMid : UInt32
  /-- There are packets in `responding.packets`. -/
  respondingPackets : Bool
  initiatingMid : UInt32
  hasCfg : Bool
  /-- The tasks queued for the peer's requests. -/
  passiveTasks : List TaskType

/-- The function that adds a report. -/
inductive Reporter where
  | processMessage
  | processRequest
  | buildResponse
  deriving DecidableEq, Repr

/-- What a call of `process_message` does that is visible outside. -/
inductive Action where
  | report (by_ : Reporter) (mtype : MsgType) (symbol : Option Symbol) (ispi rspi : UInt64)
  /-- The message is dropped as a retransmission before it is parsed. -/
  | discard (h : Header)
  | parsed (h : Header)
  /-- The message is handed to `process_request`. -/
  | handOver (h : Header)
  /-- A notify is sent in place of a response. -/
  | notify (name : Text)
  /-- A response is sent, for whose bytes these lookups were made. -/
  | respond (lookups : List Lookup)

/-- How a call ends. -/
inductive Return where
  | status (st : Status)
  /-- It waits for a query that does not come. -/
  | blocked
  | fault (f : Fault)
  deriving DecidableEq, Repr

/-- The outcome of a call. -/
structure Result where
  ret : Return
  tm : TaskManager
  log : List Action

/-- A call that does something before it goes on. -/
def Result.after (log : List Action) (r : Result) : Result := { r with log := log ++ r.log }

/-- What the `build` method of a task does. -/
structure BuildOutcome where
  status : Status := .success
  /-- `handle_collisions` takes the task over. -/
  collides : Bool := false
  authenticationFailed : Bool := false
  noProposalChosen : Bool := false
  invalidKePayload : Bool := false
  /-- The response has a nonce payload when the task is reached. -/
  nonce : Bool := true
  /-- The generation of the response, if the task asks for it. -/
  generation : Generation := {}

/-- What other components decide in the course of a call. -/
structure Env where
  /-- The result of parsing the message and of looking for critical payloads that are unknown. -/
  parse : Status := .success
  state : IkeState := .connecting
  /-- The IKE SA was initiated by the ePDG. -/
  initiator : Bool := false
  /-- A configuration is found for the addresses. -/
  cfgFound : Bool := true
  /-- The peer supports the synchronisation of message IDs. -/
  midSync : Bool := false
  /-- A listener on the bus has changed the exchange type to `EXCHANGE_TYPE_UNDEFINED`. -/
  altered : Bool := false
  /-- The helper that reassembles fragments can be created. -/
  defrag : Bool := true
  /-- The result of adding the fragment. -/
  addFragment : Status := .needMore
  /-- The results of the `pre_process` methods, by the position of the task. -/
  preProcess : ℕ → Status := fun _ => .success
  /-- The results of the `process` methods. -/
  process : ℕ → Status := fun _ => .needMore
  /-- What the listener does while the task manager waits for a query. -/
  wait : List ListenerEvent := []
  /-- The results of the `build` methods. -/
  build : ℕ → BuildOutcome := fun _ => {}
  generation : Generation := {}
  /-- The result of `process_response`, and whether the exchange is complete. -/
  response : Status × Bool := (.success, true)

/-- A message as it reaches the task manager: whole, or a fragment together with the message that is
reassembled if this fragment is the last one. Reassembly keeps the header. -/
inductive Delivery where
  | whole (body : Body) (env : Env)
  | fragment (body : Body) (env : Env) (reassembled : Delivery)

/-- The answer of `check_instance` without the right to attach, for the SPIs of the IKE SA. -/
def TaskManager.attached (tm : TaskManager) : Bool :=
  (tm.inst.checkInstance tm.id.ispi tm.id.rspi false).1

/-- `init_message` and `add_message_to_send_queue`. -/
def Instance.report (inst : Instance) (by_ : Reporter) (mtype : MsgType) (symbol : Option Symbol) :
    Action :=
  .report by_ mtype symbol inst.ispi inst.rspi

/-! ## Retransmissions and labels -/

/-- The message has the message ID of the last one that was not taken for a retransmission. -/
def Instance.seen (inst : Instance) (h : Header) : Bool := 0 ≤ inst.imid && inst.imid = h.mid.toNat

/-- The counting of messages and retransmissions. -/
def Instance.count (inst : Instance) (h : Header) : Instance :=
  if inst.seen h then { inst with retransmission := inst.retransmission + 1 }
  else { inst with imid := inst.imid + 1, retransmission := 0 }

/-- The label of a message and its effect on the instance. -/
def Instance.label (inst : Instance) (h : Header) (b : Body) :
    Except Fault (Instance × Option Symbol) :=
  match h.exchange with
  | .ikeSaInit => .ok ({ inst with rprev := some .init, imid := 0 }, some (.request .init))
  | .ikeAuth => do
    let (symbol, round) ← authRequestLabel inst.rprev
    return ({ inst with rprev := some round },
      some (if b.clientError then .clientError else symbol))
  | _ => .ok ({ inst with notReport := true }, none)

/-- Label a message that is not a retransmission, and report it. -/
def Instance.reportRequest (inst : Instance) (h : Header) (b : Body) :
    Except Fault (Instance × List Action) :=
  if inst.retransmission = 0 then do
    let (inst, symbol) ← inst.label h b
    return (inst,
      if inst.notReport then [] else [inst.report .processMessage .blockStart symbol])
  else .ok (inst, [])

/-- Close the report of a message, or end the suppression of reports. -/
def TaskManager.closeRequest (tm : TaskManager) (by_ : Reporter) : TaskManager × List Action :=
  if tm.attached then
    if tm.inst.notReport = false ∧ tm.inst.retransmission = 0 then
      (tm, [tm.inst.report by_ .blockEnd none])
    else
      ({ tm with inst :=
          { tm.inst with retransmission := tm.inst.retransmission - 1, notReport := false } }, [])
  else (tm, [])

/-! ## Building a response -/

/-- The loop over the tasks in `build_response`. -/
structure Building where
  inst : Instance
  /-- The lookups made for the bytes of the response, if a task has generated it. -/
  encoded : Option (List Lookup)
  /-- The tasks that stay in the queue. -/
  kept : List TaskType
  midSync : Bool
  /-- The IKE SA is to be destroyed. -/
  delete : Bool

/-- `collect_my_init_data` of the authentication task, which generates the IKE_SA_INIT response. -/
def collectMyInitData (id : SaId) (o : BuildOutcome) (b : Building) : Status × Building :=
  if o.nonce then
    match b.encoded with
    | some _ => (.needMore, b)
    | none =>
      let (ok, inst, lookups) := generateMessage b.inst id.ispi id.rspi o.generation
      if ok then (.needMore, { b with inst := inst, encoded := some lookups })
      else (.failed, { b with inst := inst })
  else (.failed, b)

/-- The `build` method of a task. -/
def buildTask (id : SaId) (exchange : ExchangeType) (task : TaskType) (o : BuildOutcome)
    (b : Building) : Status × Building :=
  if task = .ikeAuth ∧ exchange = .ikeSaInit then collectMyInitData id o b
  else if (b.inst.checkInstance id.ispi id.rspi false).1 then
    (o.status, { b with inst :=
      { b.inst with
        authenticationFailed := b.inst.authenticationFailed || o.authenticationFailed
        noProposalChosen := b.inst.noProposalChosen || o.noProposalChosen
        invalidKePayload := b.inst.invalidKePayload || o.invalidKePayload } })
  else (o.status, b)

/-- Build all tasks, up to one that fails. -/
def buildTasks (id : SaId) (exchange : ExchangeType) :
    List TaskType → (ℕ → BuildOutcome) → Building → Building
  | [], _, b => b
  | task :: tasks, o, b =>
    let (status, b) := buildTask id exchange task (o 0)
      { b with midSync := b.midSync || task = .ikeMidSync }
    match status with
    | .success => buildTasks id exchange tasks (o ∘ Nat.succ) b
    | .needMore =>
      buildTasks id exchange tasks (o ∘ Nat.succ)
        { b with kept := if (o 0).collides then b.kept else b.kept ++ [task] }
    | _ =>
      { b with
        kept := b.kept ++ (if (o 0).collides then tasks else task :: tasks)
        delete := true }

/-- The failure that a response reports, if a task has marked one; it frees the session. -/
def Instance.closeResponse (inst : Instance) : Instance × Option Symbol :=
  let free := { inst with sprev := none, ispi := 0, rspi := 0, imid := -1 }
  let (inst, symbol) :=
    if inst.authenticationFailed then (free, some Symbol.authFailed)
    else if inst.noProposalChosen then (free, some .noProposalChosen)
    else if inst.invalidKePayload then (free, some .invalidKePayload)
    else (inst, none)
  ({ inst with
      query := none, authenticationFailed := false, noProposalChosen := false
      invalidKePayload := false }, symbol)

/-- All tasks of the queue, built for a response. -/
def TaskManager.building (tm : TaskManager) (h : Header) (env : Env) : Building :=
  buildTasks tm.id h.exchange tm.passiveTasks env.build ⟨tm.inst, none, [], false, false⟩

/-- Close the report of the response and release the query. -/
def TaskManager.closeBuilding (tm : TaskManager) (b : Building) : Instance × List Action :=
  if (b.inst.checkInstance tm.id.ispi tm.id.rspi false).1 then
    let (inst, symbol) := b.inst.closeResponse
    (inst, [inst.report .buildResponse .blockEnd symbol])
  else (b.inst, [])

/-- Generate the response, unless a task has done so. A failed IKE_SA_INIT exchange is answered with a
responder's SPI of zero. -/
def TaskManager.encode (tm : TaskManager) (h : Header) (env : Env) (b : Building)
    (inst : Instance) : Bool × Instance × List Lookup :=
  match b.encoded with
  | some lookups => (true, inst, lookups)
  | none =>
    generateMessage inst tm.id.ispi
      (if b.delete && h.exchange = .ikeSaInit then 0 else tm.id.rspi) env.generation

/-- The second half of `build_response`: build the tasks, close the report, release the query,
generate the response and send it. -/
def TaskManager.finishResponse (tm : TaskManager) (h : Header) (env : Env) : Result :=
  let b := tm.building h env
  let (inst, log) := tm.closeBuilding b
  let (ok, inst, lookups) := tm.encode h env b inst
  -- what answers a synchronisation of message IDs is not sent again
  let tm := { tm with
    inst := inst, passiveTasks := b.kept, respondingPackets := ok && (b.delete || !b.midSync) }
  if ok then
    { ret := .status (if b.delete then .destroyMe else if b.midSync then .needMore else .success)
      tm := tm
      log := log ++ [.respond lookups] }
  else ⟨.status .destroyMe, tm, log⟩

def TaskManager.buildResponse (tm : TaskManager) (h : Header) (env : Env) : Result :=
  if tm.attached then
    match tm.inst.getNextQuery env.wait with
    | none => ⟨.blocked, tm, []⟩
    | some (none, inst) => TaskManager.finishResponse { tm with inst := inst } h env
    | some (some q, inst) =>
      match responseLabel h.exchange q inst.sprev with
      | .error f => ⟨.fault f, { tm with inst := inst }, []⟩
      | .ok (symbol, round) =>
        let inst := { inst with sprev := some round }
        let start := inst.report .buildResponse .blockStart (some symbol)
        match failureOf q with
        | some name =>
          { ret := .status .failed
            tm := { tm with inst := inst, respondingMid := tm.respondingMid + 1 }
            log := [start, inst.report .buildResponse .blockEnd none, .notify name] }
        | none => (TaskManager.finishResponse { tm with inst := inst } h env).after [start]
  else tm.finishResponse h env

/-! ## Requests -/

/-- How the `pre_process` methods of the tasks end. -/
inductive PreProcess where
  | done
  | ignore
  | destroy
  deriving DecidableEq, Repr

/-- The loop over the `pre_process` methods. -/
def preProcess : List TaskType → (ℕ → Status) → PreProcess
  | [], _ => .done
  | _ :: tasks, o =>
    match o 0 with
    | .success => preProcess tasks (o ∘ Nat.succ)
    | .destroyMe => .destroy
    | _ => .ignore

/-- The loop over the `process` methods: the tasks that stay in the queue, unless one fails. -/
def processTasks : List TaskType → (ℕ → Status) → Option (List TaskType)
  | [], _ => some []
  | task :: tasks, o =>
    match o 0 with
    | .success => processTasks tasks (o ∘ Nat.succ)
    | .needMore => (processTasks tasks (o ∘ Nat.succ)).map (task :: ·)
    | _ => none

/-- The tasks for a request: those already queued, or else new ones. -/
def TaskManager.requestTasks (tm : TaskManager) (h : Header) (b : Body) (env : Env) :
    Option (List TaskType) :=
  if tm.passiveTasks = [] then createTasks env.state h.exchange b.payloads
  else some tm.passiveTasks

def TaskManager.processRequest (tm : TaskManager) (h : Header) (b : Body) (env : Env) : Result :=
  match tm.requestTasks h b env with
  | none => ⟨.status .failed, tm, []⟩
  | some tasks =>
    match preProcess tasks env.preProcess with
    | .ignore =>
      match h.exchange with
      | .ikeSaInit => ⟨.status .destroyMe, { tm with passiveTasks := tasks }, []⟩
      | .ikeAuth => ⟨.status .needMore, { tm with passiveTasks := tasks }, []⟩
      | _ => ⟨.status .needMore, { tm with passiveTasks := [] }, []⟩
    | .destroy => ⟨.status .destroyMe, { tm with passiveTasks := tasks }, []⟩
    | .done =>
      match processTasks tasks env.process with
      | none => ⟨.status .destroyMe, { tm with passiveTasks := tasks }, []⟩
      | some tasks =>
        let (tm, log) := TaskManager.closeRequest { tm with passiveTasks := tasks } .processRequest
        (tm.buildResponse h env).after log

/-! ## Messages -/

/-- `parse_message`: the status, and the window after it. -/
def parseMessage (h : Header) (env : Env) (mid : UInt32) : Status × UInt32 :=
  if env.parse = .success then (.success, mid)
  else
    let (status, mid) :=
      if h.request then
        match env.parse with
        | .notSupported => (.notSupported, mid + 1)
        | .parseError | .verifyError =>
          (if h.exchange = .ikeSaInit then .failed else .destroyMe, mid + 1)
        | status => (status, mid)
      else (env.parse, mid)
    (if env.state = .created then .destroyMe else status, mid)

def rejectRequest (exchange : ExchangeType) (env : Env) : Bool :=
  (exchange = .ikeSaInit && env.state ≠ .created) ||
  (exchange = .ikeAuth && env.state ≠ .connecting) ||
  match env.state with
  | .rekeyed => exchange ≠ .informational
  | .created | .connecting => env.initiator
  | _ => false

def isMidSync (h : Header) (b : Body) (env : Env) : Bool :=
  env.state = .established && env.midSync && looksLikeMidSync h b true

/-- The request has the message ID that is expected next. -/
def TaskManager.inWindow (tm : TaskManager) (h : Header) (b : Body) (env : Env) : Bool :=
  h.mid = tm.respondingMid || (h.mid = 0 && isMidSync h b env)

/-- `handle_fragment` for a fragment. -/
def handleFragment (env : Env) (reinject : TaskManager → Result) (tm : TaskManager) : Result :=
  if env.defrag then
    if env.addFragment = .success then
      let r := reinject tm
      -- the last fragment itself is not processed
      if r.ret = .status .success then { r with ret := .status .needMore } else r
    else ⟨.status env.addFragment, tm, []⟩
  else ⟨.status .failed, tm, []⟩

/-- What `process_message` makes of the result of `process_request`. -/
def Result.ofRequest (r : Result) : Result :=
  match r.ret with
  | .status .success =>
    { r with tm := { r.tm with respondingMid := r.tm.respondingMid + 1 } }
  | .status .needMore => { r with ret := .status .success }
  | .status _ => { r with ret := .status .destroyMe, tm := { r.tm with passiveTasks := [] } }
  | _ => r

/-- A request that has been parsed. -/
def TaskManager.dispatchRequest (tm : TaskManager) (h : Header) (b : Body) (env : Env)
    (reinject : Option (TaskManager → Result)) : Result :=
  if tm.inWindow h b env then
    if rejectRequest h.exchange env then ⟨.status .failed, tm, []⟩
    else
      match reinject with
      | some f => handleFragment env f tm
      | none =>
        if env.altered then ⟨.status .success, tm, []⟩
        else (tm.processRequest h b env).ofRequest.after [.handOver h]
  else if h.mid = tm.respondingMid - 1 ∧ tm.respondingPackets ∧
      ¬ (h.mid = 0 ∧ looksLikeMidSync h b false) then
    match reinject with
    | some f => handleFragment env f tm
    | none => ⟨.status .success, tm, []⟩
  else ⟨.status .success, tm, []⟩

/-- A response that has been parsed. -/
def TaskManager.dispatchResponse (tm : TaskManager) (h : Header) (env : Env)
    (reinject : Option (TaskManager → Result)) : Result :=
  if h.mid = tm.initiatingMid then
    match reinject with
    | some f => handleFragment env f tm
    | none =>
      if env.altered then ⟨.status .success, tm, []⟩
      else if env.response.1 = .success then
        ⟨.status .success, { tm with
          initiatingMid := if env.response.2 then tm.initiatingMid + 1 else tm.initiatingMid }, []⟩
      else ⟨.status .destroyMe, { tm with passiveTasks := [] }, []⟩
  else ⟨.status .success, tm, []⟩

/-- A message that has been parsed: look for a configuration if there is none, then go by the kind
of the message. -/
def TaskManager.dispatch (tm : TaskManager) (h : Header) (b : Body) (env : Env)
    (reinject : Option (TaskManager → Result)) : Result :=
  if tm.hasCfg || env.cfgFound then
    let tm := { tm with hasCfg := true }
    if h.request then tm.dispatchRequest h b env reinject
    else tm.dispatchResponse h env reinject
  else ⟨.status .destroyMe, tm, []⟩

/-- Parse a message, and go on if that succeeds. -/
def TaskManager.parseAndDispatch (tm : TaskManager) (h : Header) (b : Body) (env : Env)
    (reinject : Option (TaskManager → Result)) : Result :=
  let (status, mid) := parseMessage h env tm.respondingMid
  let tm := { tm with respondingMid := mid }
  if status = .success then (tm.dispatch h b env reinject).after [.parsed h]
  else
    let (tm, log) := tm.closeRequest .processMessage
    ⟨.status status, tm, log⟩

/-- `process_message`, given what becomes of a reassembled message if this one is a fragment. -/
def TaskManager.processMessageWith (tm : TaskManager) (h : Header) (b : Body) (env : Env)
    (reinject : Option (TaskManager → Result)) : Result :=
  if tm.attached then
    let inst := tm.inst.count h
    if tm.inst.seen h ∧ 0 < inst.imid then ⟨.status .failed, { tm with inst := inst }, [.discard h]⟩
    else
      match inst.reportRequest h b with
      | .error f => ⟨.fault f, tm, []⟩
      | .ok (inst, log) =>
        (TaskManager.parseAndDispatch { tm with inst := inst } h b env reinject).after log
  else ⟨.status .failed, tm, []⟩

def processMessage (h : Header) : Delivery → TaskManager → Result
  | .whole b env, tm => tm.processMessageWith h b env none
  | .fragment b env reassembled, tm =>
    tm.processMessageWith h b env (some (processMessage h reassembled))

end Epdg
