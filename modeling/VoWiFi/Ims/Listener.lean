import VoWiFi.Epdg.Listener
import VoWiFi.Ims.ProcessQuery

/-!
# The listener of the IMS server

`listener_run` of `sip_instance.c` is the loop of the ePDG over other data: the name and the value of a
node are arrays inside it, into which `set_query_name` and `set_query_value` copy without looking at the
length, and the instance has other fields. What a shorter text leaves of a longer one in such an array is
behind the length that is stored with it.
-/

namespace Ims

open Brackets (Kind LineMark)
open Epdg (charToInt commandOf lineTokens lineType markOf maxMessageLen opOfToken stripNewline)

/-- `MAX_NAME_LEN` and `MAX_VALUE_LEN`. -/
def maxNameLen : ℕ := 256

@[inherit_doc maxNameLen]
def maxValueLen : ℕ := 256

/-- `init_query`: a node whose fields are all zero. -/
def initQuery : QNode := ⟨[], .notSet, 0, []⟩

/-- Store the token at position `idx` of a line. -/
def QNode.setToken (n : QNode) (token : Text) (idx : ℕ) : Except Epdg.Fault QNode :=
  match idx with
  | 0 =>
    if maxNameLen < (stripNewline token).length then .error .bufferOverflow
    else .ok { n with name := stripNewline token }
  | 1 => .ok { n with op := (opOfToken token).getD n.op }
  | 2 => .ok { n with vtype := charToInt 10 token }
  | 3 =>
    if maxValueLen < (stripNewline token).length then .error .bufferOverflow
    else .ok { n with value := stripNewline token }
  | _ => .ok n

/-- Store all tokens of a line. -/
def QNode.setTokens (n : QNode) (tokens : List Text) : Except Epdg.Fault QNode :=
  tokens.zipIdx.foldlM (fun n t => n.setToken t.1 t.2) n

/-- The variables of the decoder. -/
abbrev Decoder := Brackets.Decoder QNode

/-- The decoder before the first line. -/
def Decoder.init : Decoder := ⟨none, 0, .other⟩

/-- One line: the decoder after it, and the query it publishes, if it does. -/
def Decoder.decodeLine (d : Decoder) (line : Text) : Except Epdg.Fault (Decoder × Option Query) :=
  if maxMessageLen ≤ line.length then .error .bufferOverflow
  else
    d.step initQuery .nullPointer .noParent (markOf (lineType line))
      (fun n => n.setTokens (lineTokens line)) (lineTokens line = [])

/-- The variables of the thread, and the fields of the instance that it sets. -/
structure Listener where
  decoder : Decoder
  query : Option Query
  /-- A `fin` has been received since the last `init`. -/
  finished : Bool

/-- The listener when the controller has connected. -/
def Listener.start : Listener := ⟨Decoder.init, none, false⟩

/-- One line: the listener after it, and the query it publishes, if it does. -/
def Listener.receive (s : Listener) (line : Text) : Except Epdg.Fault (Listener × Option Query) :=
  match commandOf line with
  | .hello => .ok (s, none)
  | .init => .ok ({ s with query := none, finished := false }, none)
  | .fin => .ok ({ s with query := none, finished := true }, none)
  | .line => do
    let (decoder, query) ← s.decoder.decodeLine line
    return ({ s with decoder := decoder, query := query.or s.query }, query)

/-! ## Lines and blocks -/

/-- The name and the value of a line fit into their arrays. -/
def Fits (tokens : List Text) : Prop :=
  (∀ t ∈ tokens[0]?, (stripNewline t).length ≤ maxNameLen) ∧
    ∀ t ∈ tokens[3]?, (stripNewline t).length ≤ maxValueLen

instance (tokens : List Text) : Decidable (Fits tokens) := inferInstanceAs (Decidable (_ ∧ _))

/-- What a line does to the number of open blocks. -/
def lineKind (line : Text) : Kind :=
  if commandOf line ≠ .line then .skip
  else if maxMessageLen ≤ line.length ∨ ¬ Fits (lineTokens line) then .bad
  else (markOf (lineType line)).kind

end Ims
