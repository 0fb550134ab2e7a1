import VoWiFi.Epdg.Query

/-!
# The test instance of the ePDG

`instance_t` holds what the ePDG remembers about the current test session: the SPIs of the IKE SA
the session is attached to, the current query, the labels of the last reported messages and a few
flags. The controller resets it with `init` and closes it with `fin`; `check_instance` decides for
every message whether it belongs to the session, and attaches the session to an SA.
-/

namespace Epdg

/-- There are rounds of IKE_AUTH. -/
instance rounds_ne_zero : NeZero 5 := ⟨Nat.succ_ne_zero 4⟩

/-- The place of a message in an IKE handshake, as the labels of requests and responses name it:
`auth k` stands for round `k + 1` of IKE_AUTH. -/
inductive Round where
  | init
  | auth (k : Fin 5)
  | error
  deriving DecidableEq, Repr

/-- The label of a response, which is also the name of the query that asks for it. -/
def Round.responseText : Round → Text
  | init => "ike_sa_init_response".toList
  | auth k => "ike_auth_".toList ++ Nat.toDigits 10 (k + 1) ++ "_response".toList
  | error => "error".toList

/-- The bytes of a NAT detection hash. -/
abbrev Chunk := List UInt8

/-- The fields of an `instance_t` that the modelled code reads. -/
structure Instance where
  /-- The initiator's SPI of the attached SA. -/
  ispi : UInt64
  /-- The responder's SPI of the attached SA. -/
  rspi : UInt64
  /-- The initiator's SPI at the time of the last check with a zero responder's SPI. -/
  pispi : UInt64
  query : Option Query
  /-- An `init` has been received. -/
  initiated : Bool
  /-- A `fin` has been received since. -/
  finished : Bool
  /-- The label of the last request. -/
  rprev : Option Round
  /-- The label of the last response. -/
  sprev : Option Round
  /-- The message ID of the last message that was not taken for a retransmission. -/
  imid : ℤ
  /-- Non-zero while a message is taken for a retransmission. -/
  retransmission : ℤ
  /-- The current message is not reported. -/
  notReport : Bool
  /-- Set by a task that fails to authenticate the peer. -/
  authenticationFailed : Bool
  /-- Set by a task that does not accept a proposal. -/
  noProposalChosen : Bool
  /-- Set by a task that asks for another key exchange group. -/
  invalidKePayload : Bool
  /-- The hash of the last NAT_DETECTION_DESTINATION_IP notify. -/
  rcvdDstHash : Chunk
  /-- The hash of the last NAT_DETECTION_SOURCE_IP notify. -/
  rcvdSrcHash : Chunk

def initInstance : Instance :=
  { ispi := 0, rspi := 0, pispi := 0, query := none, initiated := false, finished := false
    rprev := none, sprev := none, imid := -1, retransmission := 0, notReport := false
    authenticationFailed := false, noProposalChosen := false, invalidKePayload := false
    rcvdDstHash := [], rcvdSrcHash := [] }

/-- What the listener does to the instance for the command `init`. -/
def Instance.handleInit (inst : Instance) : Instance :=
  { inst with
    ispi := 0, rspi := 0, query := none, finished := false, initiated := true
    sprev := none, rprev := none, imid := -1, retransmission := 0, notReport := false
    authenticationFailed := false, noProposalChosen := false, invalidKePayload := false }

/-- What the listener does to the instance for the command `fin`. -/
def Instance.handleFin (inst : Instance) : Instance :=
  { inst with finished := true, query := none, ispi := -1, rspi := -1 }

def Instance.setQuery (inst : Instance) (q : Query) : Instance := { inst with query := some q }

/-- The answer of `check_instance` and its effect, for an instance that exists. -/
def Instance.checkInstance (inst : Instance) (ispi rspi : UInt64) (update : Bool) :
    Bool × Instance :=
  let (ret, inst) :=
    if inst.ispi = 0 ∧ inst.rspi = 0 then
      if update then (true, { inst with ispi := ispi, rspi := rspi, imid := -1 })
      else (false, inst)
    else if inst.ispi = ispi ∧ inst.rspi = rspi then (true, inst)
    else if inst.ispi = ispi ∧ (inst.pispi = ispi ∨ inst.pispi = 0) ∧ rspi = 0 then (true, inst)
    else (false, inst)
  (ret, if rspi = 0 then { inst with pispi := inst.ispi } else inst)

/-! ## Queries by name -/

/-- `is_query_name`: no name and no text to compare with are never equal. -/
def isQueryName (query : QNode) (name : Option Text) : Bool :=
  match query.name, name with
  | some q, some n => q = n
  | _, _ => false

/-- `get_sub_query_by_name`: the first child of that name. -/
def getSubQueryByName (query : Query) (name : Text) : Option Query :=
  query.sub.find? fun q => isQueryName q.label (some name)

end Epdg
