import VoWiFi.Epdg.Instance
import VoWiFi.Epdg.Message

/-!
# Labels of requests and responses

The ePDG reports a request or a response under a name that says which message of the handshake it
is. The name follows from the name of the message before it, which the instance keeps in `rprev` and
`sprev`, and for a response also from the query of the controller.
-/

namespace Epdg

/-- The names of the blocks the task manager reports. -/
inductive Symbol where
  | request (r : Round)
  | response (r : Round)
  | clientError
  | errorInIkeSaInit
  | errorInIkeAuth
  | errorInExchangeType
  | authFailed
  | noProposalChosen
  | invalidKePayload
  deriving DecidableEq, Repr

/-- The label of a request. -/
def Round.requestText : Round → Text
  | init => "ike_sa_init_request".toList
  | auth k => "ike_auth_".toList ++ Nat.toDigits 10 (k + 1) ++ "_request".toList
  | error => "error".toList

/-- A name as it is reported. -/
def Symbol.text : Symbol → Text
  | request r => r.requestText
  | response r => r.responseText
  | clientError => "client_error".toList
  | errorInIkeSaInit => "error in ike_sa_init".toList
  | errorInIkeAuth => "error in ike_auth".toList
  | errorInExchangeType => "error in exchange_type".toList
  | authFailed => "retest_required:auth_failed".toList
  | noProposalChosen => "retransmission:no_proposal_chosen".toList
  | invalidKePayload => "retransmission:invalid_ke_payload".toList

/-- The round an IKE_AUTH message belongs to, by the round before it. -/
def Round.next : Round → Round
  | init => auth 0
  | auth 0 => auth 1
  | auth 1 => auth 2
  | auth 2 => auth 3
  | auth 3 => auth 4
  | auth 4 => error
  | error => error

/-- The label of an IKE_AUTH request; there is no comparing with a label that was never set. -/
def authRequestLabel (rprev : Option Round) : Except Fault (Symbol × Round) :=
  match rprev with
  | none => .error .nullPointer
  | some r =>
    match r.next with
    | .error => .ok (.errorInIkeAuth, .error)
    | r => .ok (.request r, r)

/-- The IKE_AUTH round a query asks for. -/
def authRoundOf (q : Query) : Option (Fin 5) :=
  (List.finRange 5).find? fun k => isQueryName q.label (some (Round.auth k).responseText)

/-- The label of a response to query `q`: its name, if it is the one that is due. -/
def responseLabel (exchange : ExchangeType) (q : Query) (sprev : Option Round) :
    Except Fault (Symbol × Round) :=
  match exchange with
  | .ikeSaInit =>
    if isQueryName q.label (some Round.init.responseText) then .ok (.response .init, .init)
    else .ok (.errorInIkeSaInit, .error)
  | .ikeAuth =>
    match authRoundOf q with
    | none => .ok (.errorInIkeAuth, .error)
    | some k =>
      match sprev with
      | none => .error .nullPointer
      | some prev =>
        if prev.next = .auth k then .ok (.response (.auth k), .auth k)
        else .ok (.errorInIkeAuth, .error)
  | _ => .ok (.errorInExchangeType, .error)

/-- The notifies a query can ask for in place of a response, in the order in which they are looked
for. -/
def failureNames : List Text :=
  ["unsupported_critical_payload", "invalid_ike_spi", "invalid_major_version", "invalid_syntax",
    "invalid_message_id", "invalid_spi", "no_proposal_chosen", "invalid_ke_payload",
    "authentication_failed", "single_pair_required", "no_additional_sas",
    "internal_address_failure", "failed_cp_required", "ts_unacceptable", "invalid_selectors",
    "temporary_failure", "child_sa_not_found", "invalid_cert_authority"].map String.toList

/-- The notify that query `q` asks for, if it asks for one. -/
def failureOf (q : Query) : Option Text :=
  failureNames.find? fun name => (getSubQueryByName q name).isSome

/-! ## Waiting for a query -/

/-- What the listener thread does to the instance. -/
inductive ListenerEvent where
  | init
  | fin
  /-- A query is complete. -/
  | publish (q : Query)

/-- The instance after an event of the listener. -/
def Instance.listen (inst : Instance) : ListenerEvent → Instance
  | .init => inst.handleInit
  | .fin => inst.handleFin
  | .publish q => inst.setQuery q

/-- The test of the loop in `get_next_query`: there is a query that has not been answered yet, or the
session is over. -/
def Instance.poll (inst : Instance) : Option (Option Query) :=
  match inst.query with
  | some q =>
    if isQueryName q.label (inst.sprev.map Round.responseText) then
      if inst.finished then some (some q) else none
    else some (some q)
  | none => if inst.finished then some none else none

/-- The loop in `get_next_query`, with what the listener does each time the loop sleeps; `none` if it
is still waiting after that. -/
def Instance.waitQuery (inst : Instance) : List ListenerEvent → Option (Option Query × Instance)
  | [] => inst.poll.map fun q => (q, inst)
  | e :: wait =>
    match inst.poll with
    | some q => some (q, inst)
    | none => (inst.listen e).waitQuery wait

def Instance.getNextQuery (inst : Instance) (wait : List ListenerEvent) :
    Option (Option Query × Instance) :=
  if inst.initiated && !inst.finished then inst.waitQuery wait else some (none, inst)

end Epdg
