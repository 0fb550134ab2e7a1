import Mathlib.Data.List.Infix
import VoWiFi.Control.Testcase
import VoWiFi.Lib.Cursor
import VoWiFi.Lib.JavaString

/-!
# What the controller makes of reports

The ePDG and the IMS server report a message as lines: one that opens a block, one for each attribute
and for each block inside, one that closes the block. `Controller.processResult` reads such lines from a
socket and builds a tree of `MessageLog` objects, to which it holds a reference that moves down with a
new child and up at the end of a block. What it does when a line makes no sense depends on where the
exception is thrown, since the text that the last line added to `print` is looked at afterwards.
-/

namespace Control

inductive MessageLogType where
  | message
  | payload
  | attribute
  deriving DecidableEq, Repr

/-- The fields of a `MessageLog`, its children and the SPIs apart. -/
structure LogItem where
  type : MessageLogType
  /-- The name; `none` is a null reference. -/
  name : Option Text
  vtype : ValueType
  /-- The value; `none` is a null reference. -/
  value : Option Text
  deriving DecidableEq, Repr

/-- A `MessageLog` with everything below it. -/
abbrev MessageLog := RoseTree LogItem

/-- The constructor. -/
def LogItem.new (type : MessageLogType) : LogItem := ⟨type, none, .none, none⟩

/-- The value type for a number in `MessageLog.setValueType`. -/
def ValueType.ofNumber (n : ℤ) : ValueType :=
  if n = 2 then .integer
  else if n = 3 then .uint8
  else if n = 4 then .uint8h
  else if n = 5 then .uint16
  else if n = 6 then .uint16h
  else if n = 7 then .uint32
  else if n = 8 then .uint32h
  else if n = 9 then .uint64
  else if n = 10 then .uint64h
  else if n = 11 then .string
  else .none

/-! ## One line -/

/-- The variables of `processResult`. The SPIs belong to the message at the root. -/
structure LogReader where
  mlog : Option (Cursor LogItem)
  ispi : Option Text
  rspi : Option Text
  depth : ℤ
  /-- The size of the stack, which has nothing but ones in it. -/
  stack : ℕ

/-- The variables before the first line. -/
def LogReader.init : LogReader := ⟨none, none, none, 0, 0⟩

/-- The type of a line: the code of its first character. -/
def lineCode (result : Text) : ℕ := (result.head?.map Char.toNat).getD 0

/-- The `switch` over the type of a line; `none` is an exception. -/
def LogReader.move (r : LogReader) (type : ℕ) : Option LogReader :=
  match type with
  | 1 => some { r with mlog := r.mlog.map (·.addSub (.new .attribute)) }
  | 2 =>
    some { r with
      mlog := match r.mlog with
        | none => some (.single (.new .message))
        | some m => some (m.addSub (.new .payload))
      depth := r.depth + 1
      stack := r.stack + 1 }
  | 3 =>
    match r.mlog, r.stack with
    | some m, stack + 1 =>
      some { r with mlog := some (m.parentLast?.getD m), depth := r.depth - 1, stack := stack }
    | _, _ => none
  | _ => some r

/-- What follows the SPIs of a line is stored in the node: the name and, if there are three parts, the
value type and the value. -/
def LogItem.setFields (it : LogItem) (rstr : Text) : Option LogItem :=
  match Text.split ':' rstr with
  | [] => none
  | [name, vtype, value] =>
    (Text.parseInt vtype).map fun n =>
      { it with name := some name, vtype := .ofNumber n, value := some value }
  | name :: _ => some { it with name := some name }

/-- The same for a line, after whose SPIs there may be nothing. -/
def LogItem.store (it : LogItem) (rstr : Text) : Option LogItem :=
  if rstr = [] then some it else it.setFields rstr

/-- Where what follows the SPIs of a line begins. -/
def textOffset : ℕ := 33

/-- The indentation of what is printed for a line. -/
def LogReader.indent (r : LogReader) : Text := List.replicate (2 * r.depth.toNat) ' '

/-- One line: the variables after it, or an exception with what is in `print` then. -/
def LogReader.readLine (r : LogReader) (result : Text) : Except Text LogReader :=
  match r.move (lineCode result) with
  | some ⟨some m, ispi, rspi, depth, stack⟩ =>
    if result.length < textOffset then .error r.indent
    else
      let rstr := result.drop textOffset
      match m.label.store rstr with
      | none => .error (r.indent ++ rstr)
      | some it =>
        let m := m.setLabel it
        .ok
          { mlog := if it.type = .attribute then m.parentLast? else some m
            ispi := ispi.or (some ((result.drop 1).take 16))
            rspi := rspi.or (some ((result.drop 17).take 16))
            depth := depth
            stack := stack }
  | _ => .error r.indent

/-! ## The loop -/

/-- How the loop ends, with what is in `print` then. -/
inductive LoopEnd where
  | done (r : LogReader)
  /-- No line arrives in time. -/
  | timeout
  | exception

/-- A line that is not just skipped. -/
def isReport (result : Text) : Bool := 16 < result.length

/-- The loop over the lines: how it ends, what is in `print` then, and the lines that are left. -/
def LogReader.loop (r : LogReader) : List Text → LoopEnd × Text × List Text
  | [] => (.timeout, r.indent, [])
  | result :: lines =>
    if isReport result then
      match r.readLine result with
      | .error print => (.exception, print, lines)
      | .ok r' =>
        if r'.stack = 0 then (.done r', r.indent ++ result.drop textOffset, lines)
        else r'.loop lines
    else r.loop lines

/-! ## The result -/

/-- The methods `processResult` calls on other objects. -/
inductive Call where
  | handleTimeout
  | rebootUE
  /-- `Testcase.resetIterator` of the message. -/
  | resetIterator
  deriving DecidableEq, Repr

/-- What `processResult` returns and does. -/
structure Reply where
  mlog : MessageLog
  ispi : Option Text
  rspi : Option Text
  /-- The calls, the first one first. -/
  calls : List Call
  /-- The lines that have not been read. -/
  rest : List Text

/-- A reply that is only a name. -/
def Reply.named (name : String) (calls : List Call) (rest : List Text) : Reply :=
  ⟨.node { LogItem.new .message with name := some name.toList } [], none, none, calls, rest⟩

/-- The reply for an end of the loop, unless there is no message. -/
def replyOf (rest : List Text) : LoopEnd → Option Reply
  | .done r => r.mlog.map fun m => ⟨m.tree, r.ispi, r.rspi, [], rest⟩
  | .timeout => some (.named "timeout" [.handleTimeout] rest)
  | .exception => some (.named "null_action" [.rebootUE] rest)

/-- What the text of the last line makes of the reply. -/
def reviseReply (reply : Option Reply) (print : Text) (rest : List Text) : Option Reply :=
  let calls := (reply.map Reply.calls).getD []
  if "retest_required:auth_failed".toList <:+: print then
    some (.named "retest" (calls ++ [.rebootUE]) rest)
  else if "retransmission:no_proposal_chosen".toList <:+: print ∨
      "retransmission:invalid_ke_payload".toList <:+: print then
    some (.named "retransmission" (calls ++ [.resetIterator]) rest)
  else reply

/-- `Controller.processResult` for the lines that arrive at the socket of the reporter. It prints the
message in the end, which is an exception that nobody catches if there is none. -/
def processResult (reporter : Text) (lines : List Text) : Option Reply :=
  if "epdg".toList <:+: reporter ∨ "ims".toList <:+: reporter then
    let (end_, print, rest) := LogReader.init.loop lines
    reviseReply (replyOf rest end_) print rest
  else if "none".toList <:+: reporter then some (.named "done" [] lines)
  else none

end Control
