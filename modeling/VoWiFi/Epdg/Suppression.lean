import VoWiFi.Epdg.Conversation

/-!
# Suppressed reports

Two fields of the instance keep `process_message` from reporting: `not_report`, which a message other
than IKE_SA_INIT and IKE_AUTH sets, and `retransmission`, which counts repetitions. They are changed when
a message arrives and restored by the code that would close its report. Between messages neither of them
should be in force.
-/

namespace Epdg

/-- The fields that suppress reports. -/
structure Suppression where
  notReport : Bool
  retransmission : ℤ
  deriving DecidableEq, Repr

def Instance.suppression (inst : Instance) : Suppression := ⟨inst.notReport, inst.retransmission⟩

/-- The fields after a report has been closed, or would have been. -/
def Suppression.close (s : Suppression) : Suppression :=
  if s.notReport = false ∧ s.retransmission = 0 then s else ⟨false, s.retransmission - 1⟩

/-- Nothing of an earlier message suppresses a report. -/
structure Suppression.Clean (s : Suppression) : Prop where
  notReport : s.notReport = false
  retransmission : 0 ≤ s.retransmission

/-- The fields once a message has been counted and labelled. -/
def TaskManager.entered (tm : TaskManager) (h : Header) : Suppression :=
  let inst := tm.inst.count h
  if inst.retransmission = 0 ∧ h.isHandshake = false then ⟨true, 0⟩ else inst.suppression

/-- All tasks process the request. -/
def TaskManager.passesTasks (tm : TaskManager) (h : Header) (b : Body) (env : Env) : Bool :=
  match tm.requestTasks h b env with
  | none => false
  | some tasks =>
    match preProcess tasks env.preProcess with
    | .done => (processTasks tasks env.process).isSome
    | _ => false

/-- The message gets to the code that closes its report. -/
def TaskManager.closes (tm : TaskManager) (h : Header) (b : Body) (env : Env) : Bool :=
  env.parse ≠ .success || (tm.accepts h b env && tm.passesTasks h b env)

/-- The fragment is given to `handle_fragment`. -/
def TaskManager.takesFragment (tm : TaskManager) (h : Header) (b : Body) (env : Env) : Bool :=
  (tm.hasCfg || env.cfgFound) &&
    if h.request then
      if tm.inWindow h b env then !rejectRequest h.exchange env
      else h.mid = tm.respondingMid - 1 ∧ tm.respondingPackets ∧
        ¬ (h.mid = 0 ∧ looksLikeMidSync h b false)
    else h.mid = tm.initiatingMid

/-- The fragment completes a message, which is processed in turn. -/
def TaskManager.reinjects (tm : TaskManager) (h : Header) (b : Body) (env : Env) : Bool :=
  env.parse = .success && tm.takesFragment h b env && env.defrag && env.addFragment = .success

/-- With reports suppressed by an earlier fragment, the message ends the suppression: it is taken for a
repetition, and its report would be closed. -/
def Recovers (h : Header) : Delivery → TaskManager → Prop
  | .whole b env, tm =>
    tm.attached = true ∧ tm.discards h = false ∧ tm.takesAsNew h = false ∧ tm.closes h b env = true
  | .fragment b env reassembled, tm =>
    tm.attached = true ∧ tm.discards h = false ∧
      ((env.parse ≠ .success ∧ tm.takesAsNew h = false) ∨
        (tm.reinjects h b env = true ∧ Recovers h reassembled (tm.afterFragment h b)))

/-- The message is one of the handshake if it is taken for a new one. A fragment of another message may
be followed by the message it completes, which is then taken for its repetition. -/
def Unsuppressing (h : Header) : Delivery → TaskManager → Prop
  | .whole _ _, tm => tm.takesAsNew h = true → h.isHandshake = true
  | .fragment b env reassembled, tm =>
    if tm.takesAsNew h = true ∧ h.isHandshake = false then
      tm.reinjects h b env = true ∧ Recovers h reassembled (tm.afterFragment h b)
    else
      tm.attached = true → tm.discards h = false → tm.reinjects h b env = true →
        Unsuppressing h reassembled (tm.afterFragment h b)

/-- Nothing is suppressed when the call for a message returns. -/
def CleanAfter (c : Conversation) : Incoming → Prop
  | .message h d => c.alive = true → ∀ st, (processMessage h d c.tm).ret = .status st →
    (processMessage h d c.tm).tm.inst.suppression.Clean
  | .listener _ => True

/-- A new message of the handshake is reported, unless there is no label to compare with. -/
def ReportedIfNew (c : Conversation) : Incoming → Prop
  | .message h d => c.alive = true → c.tm.takesAsNew h = true → h.isHandshake = true →
    (h.exchange = .ikeAuth → c.tm.inst.rprev ≠ none) →
      requestLabels (processMessage h d c.tm).log ≠ []
  | .listener _ => True

/-- A message whose call returns does not suppress the reports of later ones. -/
def UnsuppressingAll (c : Conversation) : Incoming → Prop
  | .message h d => c.alive = true → ∀ st, (processMessage h d c.tm).ret = .status st →
    Unsuppressing h d c.tm
  | .listener _ => True

/-- The listener only publishes queries while the message is processed. -/
def Delivery.OnlyPublishes : Delivery → Prop
  | .whole _ env => Epdg.OnlyPublishes env.wait
  | .fragment _ env reassembled => Epdg.OnlyPublishes env.wait ∧ reassembled.OnlyPublishes

/-- The listener neither ends nor resets the session. -/
def Incoming.InSession : Incoming → Prop
  | .message _ d => d.OnlyPublishes
  | .listener e => ∃ q, e = .publish q

end Epdg
