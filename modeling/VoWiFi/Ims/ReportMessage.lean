import VoWiFi.Ims.ProcessQuery
import VoWiFi.Report.Message

/-!
# Labels of SIP messages

`report_message` of `sip_controller.c` reports the requests that the IMS server receives
(`receive_msg`) and the responses that it sends (`tcp_send`) to the controller. A message is reported
under a label, which it chooses by the name of the message and the label of the message before it.
-/

namespace Ims

open Report (Msg)

/-- The labels reported last: `rprev` for requests and `sprev` for responses. -/
structure Labels where
  rprev : Text
  sprev : Text
  deriving DecidableEq, Repr

/-- The labels after the command `init`, and of a new instance. -/
def Labels.init : Labels := ⟨"ike_auth_3_request".toList, "ike_auth_3_response".toList⟩

/-- `strncmp` finds no difference up to the length of the second text. -/
def startsWith (s word : Text) : Bool := word.isPrefixOf s

/-- The label of a request. -/
def Labels.request (l : Labels) (mname : Text) : Text :=
  if startsWith mname "register".toList && startsWith l.rprev "ike_auth_3_request".toList then
    "register_1".toList
  else if startsWith mname "register".toList && startsWith l.rprev "register_1".toList then
    "register_2".toList
  else mname

/-- The label of a response, given what `get_next_query` returns; other responses have none. -/
def Labels.response (l : Labels) (query : Option Query) (mname : Text) : Option Text :=
  match query with
  | none => none
  | some q =>
    if q.label.name = "401_unauthorized".toList && startsWith mname "unauthorized".toList &&
        startsWith l.sprev "ike_auth_3_response".toList then
      some "401_unauthorized".toList
    else if q.label.name = "200_ok".toList && startsWith mname "ok".toList &&
        startsWith l.sprev "401_unauthorized".toList then
      some "200_ok".toList
    else none

/-- The label that `report_message` chooses (`symbol`), and the labels after it. -/
def Labels.symbol (l : Labels) (query : Option Query) (m : SipMessage) : Option Text × Labels :=
  match m.mtype with
  | some .request => (some (l.request m.mname), { l with rprev := l.request m.mname })
  | some .response =>
    match l.response query m.mname with
    | some symbol => (some symbol, { l with sprev := symbol })
    | none => (none, l)
  | none => (none, l)

/-- The start of the block of a message, for a label that fits into a report. -/
def blockStart (symbol : Text) : Msg := ⟨.blockStart, 0, 0, symbol, .none⟩

/-- The end of the block of a message. -/
def blockEnd : Msg := ⟨.blockEnd, 0, 0, [], .none⟩

end Ims
