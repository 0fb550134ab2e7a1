import VoWiFi.Control.ReportTree
import VoWiFi.Report.Message

/-!
# Values on their way to the controller

A report with a value is made by `init_message`, written by `sender_run` and read by
`Controller.processResult`. What arrives should be the name, the value type and the value: the decimal
numeral of a number, or the string itself. This module says so, and for which reports it is true.
-/

namespace Report

open Control (LineSpis LogItem MessageLog ValueType Word processResult reportLine)

/-- How the code leaves its buffers. -/
inductive Fault where
  /-- More is written than fits. -/
  | overflow
  /-- More is read than there is. -/
  | overread
  deriving DecidableEq, Repr

/-- `MAX_MESSAGE_LEN`, the size of the key of a report and of the buffer for a line. -/
def maxMessageLen : ℕ := 1514

/-- `MAX_VALUE_LEN`, the size of the value of a report of the IMS server. -/
def maxValueLen : ℕ := 256

/-- The value that `init_message` stores. The ePDG keeps the pointer it is given. The IMS server copies
as many bytes as the length field of the new report says, which is still zero, and then sets the
length. -/
def Server.stored : Server → Value → Value
  | epdg, v => v
  | ims, .none => .none
  | ims, .integer _ => .integer 0
  | ims, .uint8 _ => .uint8 0
  | ims, .uint16 _ => .uint16 0
  | ims, .string s => .string (List.replicate s.length '\x00')

/-- `init_message`, given the SPIs of the session. -/
def Server.initMessage (server : Server) (mtype : MsgType) (ispi rspi : UInt64) (key : Text)
    (value : Value) : Except Fault Msg :=
  if (Text.cstr key).length ≤ maxMessageLen then
    .ok ⟨mtype, ispi, rspi, Text.cstr key, server.stored value⟩
  else .error .overflow

/-- The length of a value that is copied as it is. -/
def Value.copied : Value → ℕ
  | string s => s.length
  | _ => 0

/-- `sender_run` for one report. -/
def Server.send (server : Server) (m : Msg) : Except Fault Text :=
  if server = ims ∧ maxValueLen < m.value.copied then .error .overread
  else if (server.line m).length ≤ maxMessageLen then .ok (server.line m)
  else .error .overflow

/-- What is written for a key and a value. -/
def Server.report (server : Server) (mtype : MsgType) (ispi rspi : UInt64) (key : Text)
    (value : Value) : Except Fault Text := do
  server.send (← server.initMessage mtype ispi rspi key value)

/-! ## What should arrive -/

/-- The value type. -/
def Value.logType : Value → ValueType
  | none => .none
  | integer _ => .integer
  | uint8 _ => .uint8
  | uint16 _ => .uint16
  | string _ => .string

/-- The value as a text. -/
def Value.logText : Value → Text
  | none => []
  | integer n => Nat.toDigits 10 n.toNat
  | uint8 n => Nat.toDigits 10 n.toNat
  | uint16 n => Nat.toDigits 10 n.toNat
  | string s => s

/-- A value that is reported: a number that is not negative, or a string that is neither empty nor more
than one line. -/
def Value.Reportable : Value → Prop
  | none => False
  | integer n => 0 ≤ n ∧ n < 2 ^ 31
  | uint8 _ => True
  | uint16 _ => True
  | string s => s ≠ [] ∧ '\n' ∉ s

/-- A key and a value. -/
structure Entry where
  key : Text
  value : Value
  key_ne : key ≠ []
  key_colon : ':' ∉ key
  key_line : '\n' ∉ key
  reportable : value.Reportable

/-- The node for an entry. -/
def Entry.item (e : Entry) (type : Control.MessageLogType) : LogItem :=
  ⟨type, some e.key, e.value.logType, some e.value.logText⟩

/-- The controller reads the entry as it is, both as an attribute in a block and as the first line of a
block. -/
structure Entry.Decoded (e : Entry) (server : Server) : Prop where
  inBlock : ∀ (ispi rspi : UInt64) (start last : LineSpis) (block : Word) (reporter tail : Text),
    "epdg".toList <:+: reporter ∨ "ims".toList <:+: reporter →
    ∃ line, server.report .attribute ispi rspi e.key e.value = .ok line ∧
      (processResult reporter (Text.readLines (reportLine '\x02' start block.1 ++ '\n' :: (line ++
        (reportLine '\x03' last [] ++ '\n' :: tail))))).map (·.mlog) =
          some (.node ⟨.message, some block.1, .none, none⟩ [.node (e.item .attribute) []])
  first : ∀ (ispi rspi : UInt64) (last : LineSpis) (reporter tail : Text),
    "epdg".toList <:+: reporter ∨ "ims".toList <:+: reporter →
    ∃ line, server.report .blockStart ispi rspi e.key e.value = .ok line ∧
      (processResult reporter (Text.readLines (line ++
        (reportLine '\x03' last [] ++ '\n' :: tail)))).map (·.mlog) =
          some (.node (e.item .message) [])

/-! ## What arrives as it is -/

/-- A number all of whose digits are written: it is not zero, and no digit of it is. -/
def ZeroFree (n : ℕ) : Prop := n ≠ 0 ∧ 0 ∉ Nat.digits 10 n

instance (n : ℕ) : Decidable (ZeroFree n) := inferInstanceAs (Decidable (_ ∧ _))

/-- A value that arrives as it is: from the ePDG a number without zeros, or a string without colons and
carriage returns; from the IMS server a string of NUL bytes only. -/
def Value.Survives : Server → Value → Prop
  | .epdg, .none => False
  | .epdg, .integer n => ZeroFree n.toNat
  | .epdg, .uint8 n => ZeroFree n.toNat
  | .epdg, .uint16 n => ZeroFree n.toNat
  | .epdg, .string s => ':' ∉ s ∧ '\r' ∉ s
  | .ims, .string s => s = List.replicate s.length '\x00' ∧ s.length ≤ maxValueLen
  | .ims, _ => False

/-- An entry that arrives as it is. -/
structure Entry.Survives (e : Entry) (server : Server) : Prop where
  /-- The key is a C string without carriage returns. -/
  key : '\r' ∉ e.key ∧ '\x00' ∉ e.key
  value : e.value.Survives server
  /-- The line with its two colons and the byte that ends it fits. -/
  fits : 36 + e.key.length + (Nat.toDigits 10 e.value.vtype).length + e.value.logText.length ≤
    maxMessageLen

end Report
