import VoWiFi.Epdg.Decoder
import VoWiFi.Epdg.Instance
import VoWiFi.Lib.Brackets
import VoWiFi.Report.Socket

/-!
# The listener of the ePDG

`listener_run` of `ike_sa_manager.c` reads line by line. `Hello`, `init` and `fin` are commands if they
are the whole line, and change the test instance; any other line goes to the decoder, whose variables are
local to the thread. A query that the decoder publishes becomes the one of the instance.
-/

namespace Epdg

open Brackets (LineMark Kind)
open Report (Command)

def helloRequest : Text := "Hello\n".toList

def resetRequest : Text := "init\n".toList

def finRequest : Text := "fin\n".toList

/-- What a line is to the listener. -/
def commandOf (line : Text) : Command :=
  if line = helloRequest then .hello
  else if line = resetRequest then .init
  else if line = finRequest then .fin
  else .line

/-- The variables of the thread, and the instance. -/
structure Listener where
  decoder : Decoder
  inst : Instance

/-- The listener when the controller has connected. -/
def Listener.start : Listener := ⟨Decoder.init, initInstance⟩

/-- One line: the listener after it, and the query it publishes, if it does. -/
def Listener.receive (s : Listener) (line : Text) : Except Fault (Listener × Option Query) :=
  match commandOf line with
  | .hello => .ok (s, none)
  | .init => .ok ({ s with inst := s.inst.handleInit }, none)
  | .fin => .ok ({ s with inst := s.inst.handleFin }, none)
  | .line => do
    let (decoder, query) ← s.decoder.decodeLine line
    return (⟨decoder, query.elim s.inst s.inst.setQuery⟩, query)

/-! ## Lines and blocks -/

/-- The mark of a type of lines. -/
def markOf (mtype : ℕ) : LineMark :=
  if mtype = msgTypeAttribute then .leaf
  else if mtype = msgTypeBlockStart then .blockStart
  else if mtype = msgTypeBlockEnd then .blockEnd
  else .other

/-- What a line does to the number of open blocks. -/
def lineKind (line : Text) : Kind :=
  if commandOf line ≠ .line then .skip
  else if maxMessageLen ≤ line.length then .bad
  else (markOf (lineType line)).kind

end Epdg
