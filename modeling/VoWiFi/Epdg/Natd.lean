import VoWiFi.Epdg.Instance

/-!
# The NAT detection task and the calls of a session

The NAT-D task records the hashes of the NAT detection notifies of a message in the instance, for
messages that `check_instance` accepts (`process_payloads` of `ike_natd.c`). A session is what
follows an `init`: SAs being attached, `check_instance` being asked, and messages passing through the
NAT-D task.
-/

namespace Epdg

/-- The two kinds of NAT detection notifies. -/
inductive NatdKind where
  | destination
  | source
  deriving DecidableEq, Repr

/-- The field of the instance that a notify is recorded in. -/
def Instance.rcvdHash (inst : Instance) : NatdKind → Chunk
  | .destination => inst.rcvdDstHash
  | .source => inst.rcvdSrcHash

/-- Record a hash. -/
def Instance.recordHash (inst : Instance) (hash : Chunk) : NatdKind → Instance
  | .destination => { inst with rcvdDstHash := hash }
  | .source => { inst with rcvdSrcHash := hash }

/-- What the NAT-D task reads of a message. -/
structure NatdMessage where
  ispi : UInt64
  /-- The responder's SPI in the header, zero in an IKE_SA_INIT request. -/
  rspi : UInt64
  /-- The hash computed for the source of the message. -/
  srcHash : Chunk
  /-- The NAT detection notifies in the order of the payloads. -/
  notifies : List (NatdKind × Chunk)

/-- Check a notify and record its hash if the message belongs to the session. -/
def Instance.recordNotify (inst : Instance) (ispi rspi : UInt64) (kind : NatdKind) (hash : Chunk) :
    Bool × Instance :=
  let (ok, inst) := inst.checkInstance ispi rspi false
  (ok, if ok then inst.recordHash hash kind else inst)

/-- The loop over the notifies, with the answers of its checks. Once a source hash matches, later
source notifies are skipped. -/
def processNotifies (m : NatdMessage) (inst : Instance) (srcMatched : Bool) :
    List (NatdKind × Chunk) → List Bool × Instance
  | [] => ([], inst)
  | (.destination, hash) :: ns =>
    let (ok, inst) := inst.recordNotify m.ispi m.rspi .destination hash
    let (oks, inst) := processNotifies m inst srcMatched ns
    (ok :: oks, inst)
  | (.source, hash) :: ns =>
    if srcMatched then processNotifies m inst srcMatched ns
    else
      let (ok, inst) := inst.recordNotify m.ispi m.rspi .source hash
      let (oks, inst) := processNotifies m inst (hash = m.srcHash) ns
      (ok :: oks, inst)

/-- `process_payloads` of the NAT-D task. -/
def processPayloads (inst : Instance) (m : NatdMessage) : List Bool × Instance :=
  processNotifies m inst false m.notifies

/-! ## Sessions -/

/-- What can happen to the instance in a session. -/
inductive SessionEvent where
  /-- A call of `check_instance`, with `update` where an SA may be attached. -/
  | check (ispi rspi : UInt64) (update : Bool)
  /-- A message passing through the NAT-D task. -/
  | natd (m : NatdMessage)

/-- One event: the answers of its checks and the instance after it. -/
def Instance.sessionStep (inst : Instance) : SessionEvent → List Bool × Instance
  | .check ispi rspi update =>
    let (ok, inst) := inst.checkInstance ispi rspi update
    ([ok], inst)
  | .natd m => processPayloads inst m

/-- A session: all answers and the instance after it. -/
def Instance.session (inst : Instance) : List SessionEvent → List Bool × Instance
  | [] => ([], inst)
  | e :: es =>
    let r := inst.sessionStep e
    let rs := r.2.session es
    (r.1 ++ rs.1, rs.2)

/-- What can happen to the instance over several sessions. -/
inductive HistoryEvent where
  | init
  | fin
  /-- An event of the session that is open. -/
  | event (e : SessionEvent)

/-- One event of a history. -/
def Instance.historyStep (inst : Instance) : HistoryEvent → Instance
  | .init => inst.handleInit
  | .fin => inst.handleFin
  | .event e => (inst.sessionStep e).2

/-- The instance after a history that starts with the ePDG. -/
def afterHistory (h : List HistoryEvent) : Instance := h.foldl Instance.historyStep initInstance

/-! ## The calls of a session -/

/-- A single call of `check_instance` and the notify whose hash depends on its answer. -/
structure Call where
  ispi : UInt64
  rspi : UInt64
  /-- Whether the call may attach an SA. -/
  update : Bool
  notify : Option (NatdKind × Chunk)

/-- The calls made for the notifies of a message. -/
def notifyCalls (m : NatdMessage) (srcMatched : Bool) : List (NatdKind × Chunk) → List Call
  | [] => []
  | (.destination, hash) :: ns =>
    ⟨m.ispi, m.rspi, false, some (.destination, hash)⟩ :: notifyCalls m srcMatched ns
  | (.source, hash) :: ns =>
    if srcMatched then notifyCalls m srcMatched ns
    else ⟨m.ispi, m.rspi, false, some (.source, hash)⟩ :: notifyCalls m (hash = m.srcHash) ns

/-- The calls of an event. -/
def SessionEvent.calls : SessionEvent → List Call
  | check ispi rspi update => [⟨ispi, rspi, update, none⟩]
  | natd m => notifyCalls m false m.notifies

/-- The SPIs that a sequence of calls attaches the session to: those of the first call that may
attach and names an SA, zeros if there is none. -/
def attachOf (cs : List Call) : UInt64 × UInt64 :=
  cs.foldl (fun a c => if a = (0, 0) ∧ c.update then (c.ispi, c.rspi) else a) (0, 0)

/-- A value of `pispi` that lets a call with initiator's SPI `i` and a zero responder's SPI pass. -/
def Lenient (pispi i : UInt64) : Prop := pispi = i ∨ pispi = 0

/-- Whether a call is accepted after the calls `pre` of a session, `p` being the value of `pispi` at
its start. -/
def Passes (p : UInt64) (pre : List Call) (c : Call) : Prop :=
  if attachOf pre = (0, 0) then c.update = true
  else attachOf pre = (c.ispi, c.rspi) ∨
    c.rspi = 0 ∧ (attachOf pre).1 = c.ispi ∧ (Lenient p c.ispi ∨ ∃ c' ∈ pre, c'.rspi = 0)

/-- Two values of `pispi` make no difference to a sequence of calls: the first call with a zero
responder's SPI, if it is for the initiator of the attached SA, passes with both or with neither. -/
def PispiAgree (p₁ p₂ : UInt64) (cs : List Call) : Prop :=
  ∀ pre c post, cs = pre ++ c :: post → (∀ c' ∈ pre, c'.rspi ≠ 0) → c.rspi = 0 →
    (attachOf pre).1 = c.ispi → (attachOf pre).2 ≠ 0 → (Lenient p₁ c.ispi ↔ Lenient p₂ c.ispi)

/-- Some notify of a kind is accepted in a sequence of calls. -/
def Recorded (p : UInt64) (kind : NatdKind) (cs : List Call) : Prop :=
  ∃ pre c post hash, cs = pre ++ c :: post ∧ c.notify = some (kind, hash) ∧ Passes p pre c

end Epdg
