import VoWiFi.Ims.ReportMessage
import VoWiFi.Lib.Run

/-!
# The numbers of REGISTER requests

A registration takes two REGISTER requests. After the command `init` the first one should be reported
as `register_1`, the second one as `register_2`, and no other request under these labels, whatever
else the UE sends. This module says so, and for which sequences of requests it is true.
-/

namespace Ims

/-- A SIP request. -/
structure Request where
  message : SipMessage
  isRequest : message.mtype = some .request

/-- The name of the method, in lower case. -/
def Request.mname (m : Request) : Text := m.message.mname

/-- The request is a REGISTER request. -/
def Request.isRegister (m : Request) : Bool := m.message.isRegisterMessage

/-- The labels after some requests since the command `init`. -/
def labelsAfter (ms : List Request) : Labels :=
  Run.after (fun l m => (l.symbol none m.message).2) .init ms

/-- The label under which a request is reported, given the requests before it. -/
def reportedAs (before : List Request) (m : Request) : Option Text :=
  ((labelsAfter before).symbol none m.message).1

/-- How many REGISTER requests there are. -/
def registers (ms : List Request) : ℕ := ms.countP Request.isRegister

/-- The first and the second REGISTER request, and no others, have the labels with a number. -/
def Numbered (before : List Request) (m : Request) : Prop :=
  (reportedAs before m = some "register_1".toList ↔ m.isRegister = true ∧ registers before = 0) ∧
    (reportedAs before m = some "register_2".toList ↔ m.isRegister = true ∧ registers before = 1)

/-- The next request is the first one, or the one before it passes for the last one of the ePDG. -/
def AfterInit (before : List Request) : Prop :=
  ∀ m ∈ before.getLast?, startsWith m.mname "ike_auth_3_request".toList = true

/-- The request before the next one is the first REGISTER request, or it passes for it. -/
def AfterFirst (before : List Request) : Prop :=
  ∃ m ∈ before.getLast?, m.isRegister = true ∧ registers before = 1 ∨
    startsWith m.mname "register_1".toList = true

/-- The request comes where it is taken for what it is. The first REGISTER request comes right after
the command `init`, and the second one right after the first. Other requests whose method starts with
`register` come at neither place and do not have the name of a label. -/
def InOrder (before : List Request) (m : Request) : Prop :=
  if m.isRegister then
    (registers before = 0 → AfterInit before) ∧ (registers before = 1 → AfterFirst before) ∧
      (2 ≤ registers before → ¬ AfterInit before ∧ ¬ AfterFirst before)
  else startsWith m.mname "register".toList = true →
    m.mname ≠ "register_1".toList ∧ m.mname ≠ "register_2".toList ∧ ¬ AfterInit before ∧
      ¬ AfterFirst before

end Ims
